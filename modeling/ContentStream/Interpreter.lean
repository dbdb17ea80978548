import ContentStream.ExtGState
import ContentStream.Instruction
import ContentStream.Interpreter.Coloring
import ContentStream.Interpreter.Painting
import ContentStream.Interpreter.Shading
import ContentStream.Interpreter.Writing
import ContentStream.Lexer

/-!
# The interpreter

A content stream is decoded by the scope it belongs to, tokenized, split into instructions, and
these are carried out one after the other until one ends in a fault.

Instructions may call for nested programs. The interpreter is therefore written for any way to
`call` one, and the knot is tied by recursion on the number of levels that are left: `callWith 0`
refuses every call, and `callWith (n + 1)` runs a program whose own calls are `callWith n`.

## Main definitions

* `Action.perform`: carries out a command.
* `Action.execute`: runs a content stream.
* `Action.renderPage`: renders a page.
-/

namespace ContentStream

namespace Action

variable {σ : Type}

/-! ### Commands -/

/-- Selects a font by name. -/
def selectFont (ctx : Context σ) (name : String) (size : Float) : Action σ Unit := do
  let font ← ofExcept (ctx.library.findFont (← machine).scopes name)
  modifyState fun gs => { gs with text.font := some font, text.size := size }

/-- Applies graphics state parameters in order, up to a font that cannot be found. -/
def applyParameters (ctx : Context σ) : List Parameter → Action σ Unit
  | [] => pure ()
  | .set setting :: rest => do
    modifyState fun gs => setting.apply gs
    applyParameters ctx rest
  | .font name size :: rest => do
    selectFont ctx name size
    applyParameters ctx rest

/-- Draws an image on the unit square. -/
def drawImage (image : Image) : Action σ Unit := do
  emit (.image (← state) image image.transform)

/-- Invokes an external object. -/
def invoke (ctx : Context σ) (call : Bytes → Action σ Unit) (name : String) : Action σ Unit := do
  match ← ofExcept (ctx.library.findXObject (← machine).scopes name) with
  | .image image => drawImage image
  | .form form => runForm call form

/-- Draws an inline image as the innermost scope decodes it. -/
def drawInlineImage (ctx : Context σ) (dict : Dict) (data : Bytes) : Action σ Unit := do
  let scopes := (← machine).scopes
  match scopes with
  | [] => pure ()
  | scope :: _ => emit (.inlineImage (ctx.library.label scope) dict data)
  drawImage (← ofExcept (ctx.library.inlineImage scopes dict data))

/-- Restores the graphics state, if the program itself has saved it. -/
def restoreOwn (frame : Frame) : Action σ Unit := do
  if (← machine).stack.depth ≤ frame.base then
    fail .stackUnderflow
  else
    restore

/-- Carries out a command. -/
def perform (ctx : Context σ) (call : Bytes → Action σ Unit) (frame : Frame) :
    Command → Action σ Frame
  | .save => do save; pure frame
  | .restore => do restoreOwn frame; pure frame
  | .set setting => do
    modifyState fun gs => setting.apply gs
    pure frame
  | .font name size => do selectFont ctx name size; pure frame
  | .extGState name => do
    let dict ← ofExcept (ctx.library.findExtGState (← machine).scopes name)
    applyParameters ctx (Parameter.ofDict dict)
    pure frame
  | .construct step => construct step frame
  | .paint painting => paint painting frame
  | .clip rule => requestClip rule frame
  | .beginText => beginText frame
  | .endText => endText frame
  | .write step => write step frame
  | .space side name => do selectSpace ctx side name; pure frame
  | .color side op operands => do selectColor ctx call side op operands; pure frame
  | .device side space color => do
    modifyState fun gs => gs.setInk side ⟨.solid color, space⟩
    pure frame
  | .invoke name => do invoke ctx call name; pure frame
  | .shade name => shade ctx name frame
  | .beginCompatibility => pure { frame with compatibility := frame.compatibility + 1 }
  | .endCompatibility =>
    match frame.compatibility with
    | 0 => fail .unbalancedCompatibility
    | n + 1 => pure { frame with compatibility := n }
  | .ignore => pure frame
  | .unknown spelling => do emit (.unknownOperator spelling); pure frame

/-! ### Programs -/

/-- Carries out an instruction. -/
def step (ctx : Context σ) (call : Bytes → Action σ Unit) (frame : Frame) :
    Instruction → Action σ Frame
  | .operate op operands => do
    let command ← ofExcept (Command.decode op operands)
    perform ctx call frame command
  | .drawImage dict data => do drawInlineImage ctx dict data; pure frame
  | .misspelled flaw => fail (.invalidInlineImage flaw)

/-- Carries out instructions one after the other. -/
def steps (ctx : Context σ) (call : Bytes → Action σ Unit) :
    Frame → List Instruction → Action σ Frame
  | frame, [] => pure frame
  | frame, i :: is => do
    let frame ← step ctx call frame i
    steps ctx call frame is

/-- Runs a program in a fresh frame. -/
def runProgram (ctx : Context σ) (call : Bytes → Action σ Unit) (p : Program) : Action σ Unit := do
  let _ ← steps ctx call { base := (← machine).stack.depth } p.instructions

/-- Runs a content stream, the nested programs of which are run by `call`. -/
def runContent (ctx : Context σ) (call : Bytes → Action σ Unit) (content : Bytes) :
    Action σ Unit := do
  let decoded ← ofExcept (ctx.library.decode (← machine).scopes content)
  let program ← ofExcept (tokenize ctx.config.strictImageEnd decoded)
  runProgram ctx call program

/-- Runs a nested content stream with `n` levels left. -/
def callWith (ctx : Context σ) : (n : Nat) → Bytes → Action σ Unit
  | 0, _ => fail (.nestingTooDeep ctx.config.maxDepth)
  | n + 1, content => deeper (runContent ctx (callWith ctx n) content)

/-- Runs a **nested content stream**, as far as the limit on nesting allows. -/
def call (ctx : Context σ) (content : Bytes) : Action σ Unit := do
  callWith ctx (ctx.config.maxDepth - (← machine).depth) content

/-- Executes a content stream against the present state of the machine. -/
def execute (ctx : Context σ) (content : Bytes) : Action σ Unit :=
  runContent ctx (call ctx) content

end Action

end ContentStream
