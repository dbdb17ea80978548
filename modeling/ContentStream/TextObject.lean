import ContentStream.GState

/-!
# Text objects

Within a text object two matrices say where text goes: the *line* matrix, where the present line
begins, and the *character* matrix, where the next glyph stands. Both are relative to the user
space in force when the text object was opened; a later change of the current transform does not
move the text.
-/

namespace ContentStream

/-- A **text object**, open or not. -/
structure TextObject where
  active : Bool := false
  base : Matrix Float := Matrix.identity
  line : Matrix Float := Matrix.identity
  char : Matrix Float := Matrix.identity

/-- The displacement by a glyph: its width at the font size, widened by the character spacing and
for a word space by the word spacing, all scaled horizontally. -/
def TextState.displacement (t : TextState) (width : Float) (isWordSpace : Bool) : Float :=
  let tx := width / 1000.0 * t.size + t.charSpacing
  (if isWordSpace then tx + t.wordSpacing else tx) * t.horizontalScale

namespace TextObject

/-- Opens a text object under a transform. -/
def opened (ctm : Matrix Float) : TextObject where
  active := true
  base := ctm

/-- A closed text object. -/
def closed : TextObject := {}

/-- Moves the start of the line, and the next glyph to it. -/
def moveLine (t : TextObject) (tx ty : Float) : TextObject :=
  let line := t.line.translate ⟨tx, ty⟩
  { t with line, char := line }

/-- Replaces both matrices. -/
def setMatrix (t : TextObject) (m : Matrix Float) : TextObject :=
  { t with line := m, char := m }

/-- Moves the next glyph along the line. -/
def shift (t : TextObject) (tx : Float) : TextObject :=
  { t with char := t.char.translate ⟨tx, 0.0⟩ }

/-- Moves past a glyph. -/
def advance (t : TextObject) (g : Glyph) (text : TextState) : TextObject :=
  t.shift (text.displacement g.width g.isWordSpace)

/-- Moves the next glyph back by thousandths of the font size. -/
def adjust (t : TextObject) (amount : Float) (text : TextState) : TextObject :=
  t.shift (-amount / 1000.0 * text.size * text.horizontalScale)

/-- Takes glyph space to device space for the next glyph. -/
def glyphTransform (t : TextObject) (text : TextState) : Matrix Float :=
  let scale : Matrix Float :=
    ⟨text.size * text.horizontalScale, 0.0, 0.0, text.size, 0.0, text.rise⟩
  (scale.concat t.char).concat t.base

end TextObject

end ContentStream
