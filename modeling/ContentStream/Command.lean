import ContentStream.GState
import ContentStream.Operand

/-!
# Commands

A command is an operator together with its operands, checked and given their meaning. Deciding
what an operator asks for needs nothing but its operands, with one exception: the operands of a
color in the current color space depend on that space, so they are taken only when the command is
performed.

Operators that come to the same thing give the same command.

## Main definitions

* `Setting`: a change of one parameter of the graphics state.
* `Construction`, `Painting`, `Writing`: what is done with paths and with text.
* `Command.decode`: the command of an operator and the operands before it.
-/

namespace ContentStream

/-! ### Settings -/

/-- A **setting**: a change of one parameter of the graphics state. A code that stands for no
value of its parameter changes nothing. -/
inductive Setting where
  | concat (m : Matrix Float)
  | lineWidth (width : Float)
  | lineCap (code : Int)
  | lineJoin (code : Int)
  | miterLimit (limit : Float)
  | dash (pattern : Dash)
  | intent (name : String)
  | flatness (tolerance : Float)
  | blendMode (mode : BlendMode)
  | alphaIsShape (flag : Bool)
  | strokeAlpha (alpha : Float)
  | fillAlpha (alpha : Float)
  | charSpacing (spacing : Float)
  | wordSpacing (spacing : Float)
  | horizontalScale (percent : Float)
  | leading (distance : Float)
  | renderMode (code : Int)
  | rise (distance : Float)
  | knockout (flag : Bool)

/-- The state after a setting. -/
def Setting.apply (gs : GState) : Setting → GState
  | concat m => { gs with ctm := m.concat gs.ctm }
  | lineWidth width => { gs with line := gs.line.setWidth width }
  | lineCap code =>
    match LineCap.ofCode? code with
    | some cap => { gs with line := gs.line.setCap cap }
    | none => gs
  | lineJoin code =>
    match LineJoin.ofCode? code with
    | some join => { gs with line := gs.line.setJoin join }
    | none => gs
  | miterLimit limit => { gs with line := gs.line.setMiterLimit limit }
  | dash pattern => { gs with line := gs.line.setDash pattern }
  | intent name => { gs with intent := RenderingIntent.ofName name }
  | flatness tolerance => { gs with flatness := tolerance }
  | blendMode mode => { gs with blendMode := mode }
  | alphaIsShape flag => { gs with alphaIsShape := flag }
  | strokeAlpha alpha => { gs with strokeAlpha := alpha }
  | fillAlpha alpha => { gs with fillAlpha := alpha }
  | charSpacing spacing => { gs with text.charSpacing := spacing }
  | wordSpacing spacing => { gs with text.wordSpacing := spacing }
  | horizontalScale percent => { gs with text.horizontalScale := percent / 100.0 }
  | leading distance => { gs with text.leading := distance }
  | renderMode code =>
    match RenderMode.ofCode? code with
    | some mode => { gs with text.renderMode := mode }
    | none => gs
  | rise distance => { gs with text.rise := distance }
  | knockout flag => { gs with text.knockout := flag }

/-! ### Paths and text -/

/-- A step in the **construction of a path**. -/
inductive Construction where
  | move (p : Point Float)
  | line (p : Point Float)
  | curve (c₁ c₂ p : Point Float)
  /-- A curve whose first control point is the current point. -/
  | curveFromCurrent (c₂ p : Point Float)
  /-- A curve whose second control point is its end. -/
  | curveToEnd (c₁ p : Point Float)
  | close
  | rectangle (x y w h : Float)

/-- A way to **paint a path**, which also ends it: whether to close it first, the rule by which to
fill it if at all, and whether to stroke it. -/
structure Painting where
  close : Bool := false
  fill : Option Winding := none
  stroke : Bool := false

/-- A step in **writing text**, which takes an open text object. -/
inductive Writing where
  | moveLine (tx ty : Float)
  /-- Moves to a new line and makes its distance the leading. -/
  | moveLineLeading (tx ty : Float)
  | setMatrix (m : Matrix Float)
  | nextLine
  | write (bytes : Bytes)
  /-- Shows strings, with numbers between them that move the next glyph back. -/
  | writeAdjusted (items : List Operand)
  | nextLineWrite (bytes : Bytes)
  | nextLineWriteSpaced (wordSpacing charSpacing : Float) (bytes : Bytes)

/-! ### Commands -/

/-- A **command**. -/
inductive Command where
  | save
  | restore
  | set (setting : Setting)
  | font (name : String) (size : Float)
  | extGState (name : String)
  | construct (step : Construction)
  | paint (painting : Painting)
  | clip (rule : Winding)
  | beginText
  | endText
  | write (step : Writing)
  /-- Selects a color space. -/
  | space (side : Side) (name : String)
  /-- Selects a color in the current space; the operands are still on the stack. -/
  | color (side : Side) (op : String) (operands : List Operand)
  /-- Selects a device space and a color in it. -/
  | device (side : Side) (space : ColorSpace) (color : Color)
  | invoke (name : String)
  | shade (name : String)
  | beginCompatibility
  | endCompatibility
  /-- Does nothing. -/
  | ignore
  | unknown (spelling : String)

namespace Command

/-- Takes the operands of a keyword and gives their command. -/
def ofKeyword (k : Keyword) : Take Command :=
  let op := k.spelling
  let setNumber (setting : Float → Setting) : Take Command := do
    pure (.set (setting (← Take.number op)))
  let selectColor (side : Side) : Take Command := do
    pure (.color side op (← get))
  let unused (n : Nat) : Take Command := do
    Take.require op n
    pure .ignore
  match k with
  | .save => pure .save
  | .restore => pure .restore
  | .concat => do pure (.set (.concat (← Take.matrix op)))
  | .lineWidth => setNumber .lineWidth
  | .lineCap => do pure (.set (.lineCap (← Take.code op)))
  | .lineJoin => do pure (.set (.lineJoin (← Take.code op)))
  | .miterLimit => setNumber .miterLimit
  | .dash => do
    let phase ← Take.number op
    let items ← Take.array op
    pure (.set (.dash ⟨items.filterMap Operand.number?, phase⟩))
  | .intent => do pure (.set (.intent (← Take.name op)))
  | .flatness => setNumber .flatness
  | .extGState => do pure (.extGState (← Take.name op))
  | .moveTo => do pure (.construct (.move (← Take.point op)))
  | .lineTo => do pure (.construct (.line (← Take.point op)))
  | .curveTo => do
    let (c₁, c₂, p) ← Take.threePoints op
    pure (.construct (.curve c₁ c₂ p))
  | .curveFromCurrent => do
    let (x₂, y₂, x₃, y₃) ← Take.four op
    pure (.construct (.curveFromCurrent ⟨x₂, y₂⟩ ⟨x₃, y₃⟩))
  | .curveToEnd => do
    let (x₁, y₁, x₃, y₃) ← Take.four op
    pure (.construct (.curveToEnd ⟨x₁, y₁⟩ ⟨x₃, y₃⟩))
  | .closePath => pure (.construct .close)
  | .rectangle => do
    let (x, y, w, h) ← Take.four op
    pure (.construct (.rectangle x y w h))
  | .stroke => pure (.paint ⟨false, none, true⟩)
  | .closeStroke => pure (.paint ⟨true, none, true⟩)
  | .fill => pure (.paint ⟨false, some .nonzero, false⟩)
  | .fillObsolete => pure (.paint ⟨false, some .nonzero, false⟩)
  | .fillEvenOdd => pure (.paint ⟨false, some .evenOdd, false⟩)
  | .fillEvenOddObsolete => pure (.paint ⟨false, some .evenOdd, false⟩)
  | .fillStroke => pure (.paint ⟨false, some .nonzero, true⟩)
  | .fillStrokeEvenOdd => pure (.paint ⟨false, some .evenOdd, true⟩)
  | .closeFillStroke => pure (.paint ⟨true, some .nonzero, true⟩)
  | .closeFillStrokeEvenOdd => pure (.paint ⟨true, some .evenOdd, true⟩)
  | .endPath => pure (.paint ⟨false, none, false⟩)
  | .clip => pure (.clip .nonzero)
  | .clipEvenOdd => pure (.clip .evenOdd)
  | .beginText => pure .beginText
  | .endText => pure .endText
  | .charSpacing => setNumber .charSpacing
  | .wordSpacing => setNumber .wordSpacing
  | .horizontalScale => setNumber .horizontalScale
  | .leading => setNumber .leading
  | .font => do
    let size ← Take.number op
    let name ← Take.name op
    pure (.font name size)
  | .renderMode => do pure (.set (.renderMode (← Take.code op)))
  | .rise => setNumber .rise
  | .moveLine => do
    let (tx, ty) ← Take.two op
    pure (.write (.moveLine tx ty))
  | .moveLineLeading => do
    let (tx, ty) ← Take.two op
    pure (.write (.moveLineLeading tx ty))
  | .textMatrix => do pure (.write (.setMatrix (← Take.matrix op)))
  | .nextLine => pure (.write .nextLine)
  | .showText => do pure (.write (.write (← Take.string op)))
  | .showAdjusted => do pure (.write (.writeAdjusted (← Take.array op)))
  | .nextLineShow => do pure (.write (.nextLineWrite (← Take.string op)))
  | .nextLineShowSpaced => do
    let bytes ← Take.string op
    let (wordSpacing, charSpacing) ← Take.two op
    pure (.write (.nextLineWriteSpaced wordSpacing charSpacing bytes))
  | .strokeSpace => do pure (.space .stroke (← Take.name op))
  | .fillSpace => do pure (.space .fill (← Take.name op))
  | .strokeColor => selectColor .stroke
  | .strokeColorN => selectColor .stroke
  | .fillColor => selectColor .fill
  | .fillColorN => selectColor .fill
  | .strokeGray => do pure (.device .stroke .deviceGray [← Take.number op])
  | .fillGray => do pure (.device .fill .deviceGray [← Take.number op])
  | .strokeRgb => do
    let (r, g, b) ← Take.three op
    pure (.device .stroke .deviceRgb [r, g, b])
  | .fillRgb => do
    let (r, g, b) ← Take.three op
    pure (.device .fill .deviceRgb [r, g, b])
  | .strokeCmyk => do
    let (c, m, y, k) ← Take.four op
    pure (.device .stroke .deviceCmyk [c, m, y, k])
  | .fillCmyk => do
    let (c, m, y, k) ← Take.four op
    pure (.device .fill .deviceCmyk [c, m, y, k])
  | .invoke => do pure (.invoke (← Take.name op))
  | .shade => do pure (.shade (← Take.name op))
  | .beginImage => pure .ignore
  | .imageData => pure .ignore
  | .endImage => pure .ignore
  | .markPoint => unused 1
  | .markPointProperties => unused 2
  | .beginMarked => unused 1
  | .beginMarkedProperties => unused 2
  | .endMarked => pure .ignore
  | .glyphWidth => unused 2
  | .glyphWidthBox => unused 6
  | .beginCompatibility => pure .beginCompatibility
  | .endCompatibility => pure .endCompatibility

/-- The command of an operator and the operands before it, the last one first. -/
def decode (op : Operator) (operands : List Operand) : Except Fault Command :=
  match op with
  | .known k => (ofKeyword k).run' operands
  | .unknown spelling => .ok (.unknown spelling)

end Command

end ContentStream
