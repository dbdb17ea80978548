import ContentStream.Command
import ContentStream.Interpreter.Frame

/-!
# Writing text

Text is positioned and shown within a text object of the program's own; outside of one, these
steps have no effect at all. Each glyph is painted where the text object stands, which then moves
on by the glyph's width.
-/

namespace ContentStream

namespace TextObject

/-- The glyphs of a string with the transforms they are painted under, and the text object after
them. -/
def place (t : TextObject) (text : TextState) :
    List Glyph → List (Glyph × Matrix Float) × TextObject
  | [] => ([], t)
  | g :: gs =>
    let (placed, after) := (t.advance g text).place text gs
    ((g, t.glyphTransform text) :: placed, after)

end TextObject

namespace Action

variable {σ : Type}

/-- Shows a string in the current font; without a font nothing is shown. -/
def showText (bytes : Bytes) (t : TextObject) : Action σ TextObject := do
  let gs ← state
  match gs.text.font with
  | none => pure t
  | some font =>
    let (placed, after) := t.place gs.text (font.decode bytes)
    emitAll (placed.map fun (g, m) => .glyph gs g m)
    pure after

/-- Shows an array of strings and adjustments. Items of other kinds are passed over. -/
def showItems : List Operand → TextObject → Action σ TextObject
  | [], t => pure t
  | .string bytes :: items, t => do showItems items (← showText bytes t)
  | .number amount :: items, t => do showItems items (t.adjust amount.value (← state).text)
  | _ :: items, t => showItems items t

/-- Moves to the next line, which is below the present one by the leading. -/
def nextLine (t : TextObject) : Action σ TextObject := do
  pure (t.moveLine 0.0 (-(← state).text.leading))

/-- A step in an open text object. -/
def writeOpen (step : Writing) (t : TextObject) : Action σ TextObject := do
  match step with
  | .moveLine tx ty => pure (t.moveLine tx ty)
  | .moveLineLeading tx ty =>
    modifyState fun gs => (Setting.leading (-ty)).apply gs
    pure (t.moveLine tx ty)
  | .setMatrix m => pure (t.setMatrix m)
  | .nextLine => nextLine t
  | .write bytes => showText bytes t
  | .writeAdjusted items => showItems items t
  | .nextLineWrite bytes => showText bytes (← nextLine t)
  | .nextLineWriteSpaced wordSpacing charSpacing bytes =>
    modifyState fun gs => (Setting.wordSpacing wordSpacing).apply gs
    modifyState fun gs => (Setting.charSpacing charSpacing).apply gs
    showText bytes (← nextLine t)

/-- A writing step. Without an open text object it has no effect. -/
def write (step : Writing) (frame : Frame) : Action σ Frame := do
  if frame.text.active then
    pure { frame with text := ← writeOpen step frame.text }
  else
    pure frame

/-- Opens a text object, or starts the open one anew. -/
def beginText (frame : Frame) : Action σ Frame := do
  pure { frame with text := TextObject.opened (← state).ctm }

/-- Closes the text object. -/
def endText (frame : Frame) : Action σ Frame :=
  pure { frame with text := TextObject.closed }

end Action

end ContentStream
