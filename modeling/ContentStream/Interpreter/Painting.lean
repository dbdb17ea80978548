import ContentStream.Command
import ContentStream.Interpreter.Frame

/-!
# Constructing and painting paths

A path under construction belongs to the frame, the current point to the graphics state. A line or
curve that finds no current point, or no path, starts with a move to its own first point.

Asking for a clip only takes note of the path. The clip is narrowed by the painting operator that
ends the path, after it has painted; so what it paints is not subject to the new clip.
-/

namespace ContentStream

namespace Construction

/-- The path that a segment starting at `p` continues: one that is not begun begins there. -/
def begun (path : Option (Path Float)) (point : Option (Point Float)) (p : Point Float) :
    Path Float :=
  let path := path.getD Path.empty
  if point.isNone || path.isEmpty then path.push (.move p) else path

/-- The path and current point after a construction step. Closing a path takes the current point
back to the start of its last subpath; without a path there is nothing to close. -/
def apply (path : Option (Path Float)) (point : Option (Point Float)) :
    Construction → Option (Path Float) × Option (Point Float)
  | move p => (some ((path.getD Path.empty).push (.move p)), some p)
  | line p => (some ((begun path point p).push (.line p)), some p)
  | curve c₁ c₂ p => (some ((begun path point c₁).push (.curve c₁ c₂ p)), some p)
  | curveFromCurrent c₂ p =>
    let c₁ := point.getD c₂
    (some ((begun path point c₁).push (.curve c₁ c₂ p)), some p)
  | curveToEnd c₁ p => (some ((begun path point c₁).push (.curve c₁ p p)), some p)
  | close =>
    match path with
    | none => (none, point)
    | some path =>
      let path := path.push .close
      (some path, path.subpathStart?.or point)
  | rectangle x y w h => (some ((path.getD Path.empty).rectangle x y w h), some ⟨x, y⟩)

end Construction

namespace Action

variable {σ : Type}

/-- A construction step. -/
def construct (step : Construction) (frame : Frame) : Action σ Frame := do
  let (path, point) := step.apply frame.path (← state).point
  modifyState fun gs => { gs with point }
  pure { frame with path }

/-- Ends the path: the clip that was asked for takes effect, and the path and the current point are
gone. -/
def endPath (frame : Frame) : Action σ Frame := do
  match frame.pendingClip with
  | some clip => narrowClip clip
  | none => pure ()
  modifyState fun gs => { gs with point := none }
  pure { frame with path := none, pendingClip := none }

/-- The events of painting a path in a state: filling comes before stroking. -/
def paintEvents (painting : Painting) (gs : GState) (path : Path Float) : List Event :=
  let path := if painting.close then path.push .close else path
  match painting.fill with
  | some rule =>
    let path := { path with winding := rule }
    .fill gs path :: if painting.stroke then [.stroke gs path] else []
  | none => if painting.stroke then [.stroke gs path] else []

/-- Paints the path, if there is one that is not empty, and ends it. -/
def paint (painting : Painting) (frame : Frame) : Action σ Frame := do
  match frame.path with
  | some path =>
    if path.isEmpty then pure () else emitAll (paintEvents painting (← state) path)
  | none => pure ()
  endPath frame

/-- Asks for a clip to the path as it stands. Without a path, an earlier request lapses. -/
def requestClip (rule : Winding) (frame : Frame) : Action σ Frame :=
  pure { frame with pendingClip := frame.path.map fun path => { path with winding := rule } }

end Action

end ContentStream
