import ContentStream.Interpreter

/-!
# Pages

A page is a content stream with a place to show it. Its visible region is the media box, cut down
to the crop box if there is one. In device space the region lies at the origin, turned clockwise by
the page's rotation; a rotation that is no multiple of a right angle is ignored.
-/

namespace ContentStream

/-- A **page**. -/
structure Page (σ : Type) where
  mediaBox : Rect Float
  cropBox : Option (Rect Float) := none
  /-- Clockwise, in degrees. -/
  rotate : Int := 0
  content : Bytes
  scope : σ

/-! ### Where a page is shown -/

/-- The visible region of a page with the given boxes. -/
def visibleRegion {α : Type} [Scalar α] (media : Rect α) (crop : Option (Rect α)) : Rect α :=
  match crop with
  | some crop => media.normalize.intersect crop.normalize
  | none => media.normalize

/-- The **placement** of a region in device space: the transform that takes it there, and the width
and height it has there. -/
structure Placement (α : Type) where
  ctm : Matrix α
  width : α
  height : α

/-- The placement of a region that is rotated clockwise by some degrees. -/
def Placement.of {α : Type} [Scalar α] (r : Rect α) (rotate : Int) : Placement α :=
  let zero : α := Scalar.zero
  let one : α := Scalar.one
  let across := r.x1 - r.x0
  let up := r.y1 - r.y0
  if rotate % 360 == 90 then ⟨⟨zero, -one, one, zero, -r.y0, r.x1⟩, up, across⟩
  else if rotate % 360 == 180 then ⟨⟨-one, zero, zero, -one, r.x1, r.y1⟩, across, up⟩
  else if rotate % 360 == 270 then ⟨⟨zero, one, -one, zero, r.y1, -r.x0⟩, up, across⟩
  else ⟨⟨one, zero, zero, one, -r.x0, -r.y0⟩, across, up⟩

/-- The visible region of a page. -/
def Page.bounds {σ : Type} (page : Page σ) : Rect Float :=
  visibleRegion page.mediaBox page.cropBox

/-- A machine set up for a page. Of what it remembers only the number of finished tiles is kept,
which is the device's to count. -/
def Machine.turnTo {σ : Type} (m : Machine σ) (page : Page σ) : Machine σ :=
  let placement := Placement.of page.bounds page.rotate
  { stack := ⟨GState.under placement.ctm, []⟩
    scopes := [page.scope]
    pageBounds := ⟨0.0, 0.0, placement.width, placement.height⟩
    finished := m.finished }

/-- Renders a page. It ends with an event of its own even if its content ends in a fault. -/
def Action.renderPage {σ : Type} (ctx : Context σ) (page : Page σ) : Action σ Unit := do
  let placement := Placement.of page.bounds page.rotate
  Action.modify fun m => m.turnTo page
  Action.emit (.beginPage placement.width placement.height)
  let result ← Action.attempt (Action.execute ctx page.content)
  Action.emit .endPage
  Action.ofExcept result

/-- Rendering a page is executing its content between two events. -/
theorem Action.run_renderPage {σ : Type} (ctx : Context σ) (page : Page σ) (m : Machine σ) :
    (renderPage ctx page).run m =
      let placement := Placement.of page.bounds page.rotate
      let o := (execute ctx page.content).run (m.turnTo page)
      ⟨o.result, o.machine, .event (.beginPage placement.width placement.height) ::
        (o.trace ++ [.event .endPage])⟩ := by
  simp [renderPage, run_bind, Outcome.after]

end ContentStream
