import ContentStream.Command
import ContentStream.Interpreter.Nested

/-!
# Selecting colors

Selecting a color space also selects its initial color. A color in a pattern space is a pattern,
preceded by the tint if the pattern is a stencil: one number for each component of the space under
the pattern space, or all operands if there is none.
-/

namespace ContentStream

namespace Action

variable {σ : Type}

/-- Selects a color space by name. -/
def selectSpace (ctx : Context σ) (side : Side) (name : String) : Action σ Unit := do
  let space ←
    match ColorSpace.predefined? name with
    | some space => pure space
    | none => ofExcept (ctx.library.findColorSpace (← machine).scopes name)
  modifyState fun gs => gs.setInk side (Ink.initial space)

/-- The tint of a pattern, taken from the operands below its name. -/
def takeTint {σ : Type} (op : String) (space : ColorSpace) (tiling : Tiling σ)
    (operands : List Operand) : Except Fault (Option Tint) :=
  match tiling.kind with
  | .colored => .ok none
  | .uncolored =>
    let n := match space.base? with
      | some base => base.components
      | none => operands.length
    ((Take.numerals op n).run' operands).map some

/-- The paint that the operands mean in a color space. -/
def paintOf (ctx : Context σ) (call : Bytes → Action σ Unit) (op : String) (space : ColorSpace)
    (operands : List Operand) : Action σ Paint := do
  if space.isPattern then
    let (name, operands) ← ofExcept ((Take.name op).run operands)
    match ← ofExcept (ctx.library.findPattern (← machine).scopes name) with
    | .shading shading matrix => pure (.shading shading matrix)
    | .tiling tiling =>
      let tint ← ofExcept (takeTint op space tiling operands)
      pure (.tiling (← tile ctx call tiling tint) (tint.map Tint.color))
  else
    pure (.solid (← ofExcept ((Take.numbers op space.components).run' operands)))

/-- Selects a color in the current space of a side. -/
def selectColor (ctx : Context σ) (call : Bytes → Action σ Unit) (side : Side) (op : String)
    (operands : List Operand) : Action σ Unit := do
  let space := ((← state).ink side).space
  let paint ← paintOf ctx call op space operands
  modifyState fun gs => gs.setInk side ⟨paint, space⟩

end Action

end ContentStream
