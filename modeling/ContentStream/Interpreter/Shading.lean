import ContentStream.Interpreter.Painting

/-!
# Painting a shading

A shading is painted over the region it is limited to, or else over all that is visible: the
current clip path, or the page, taken back from device space to user space. The latter takes a
transform that can be inverted.
-/

namespace ContentStream

/-- The region that a shading covers, in user space; none if it would have to be taken back through
a transform without an inverse. -/
def shadedRegion? {α : Type} [Scalar α] (ctm : Matrix α) (clip : Option (Path α)) (page : Rect α)
    (bbox : Option (Rect α)) : Option (Path α) :=
  match bbox with
  | some box => some (Path.ofRect box)
  | none =>
    ctm.inverse?.map fun inverse =>
      match clip with
      | some path => path.transform inverse
      | none => Path.ofRect (inverse.applyRect page)

namespace Action

variable {σ : Type}

/-- Paints a shading in place of the path, and ends the path. -/
def shade (ctx : Context σ) (name : String) (frame : Frame) : Action σ Frame := do
  let m ← machine
  let gs := m.stack.current
  let shading ← ofExcept (ctx.library.findShading m.scopes name)
  match shadedRegion? gs.ctm gs.clip m.pageBounds shading.bbox with
  | none => fail (.nonInvertibleTransform gs.ctm)
  | some region =>
    emit (.fill (gs.setInk .fill ⟨.shading shading Matrix.identity, shading.space⟩) region)
    endPath frame

end Action

end ContentStream
