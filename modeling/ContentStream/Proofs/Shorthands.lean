import ContentStream.Proofs.Bearings
import ContentStream.Proofs.Sequences

/-!
# Shorthands

Some path operators are short for others. A rectangle is short for a move, three lines and a close;
a curve whose first control point is the current point, or whose second is its end, for a curve with
all of its points; and an operator that closes the path before it paints it, for a close and the
operator that only paints. From every frame and every graphics state they come to exactly what they
are short for: the same path and the same current point, with the clip that is asked for left alone.

Closing is the one shorthand that can be told by what is seen. An operator that closes the path
itself leaves the current point where it was while it paints, while a close moves it; so the states
that the device is given differ in the current point, and in nothing else.

## Main definitions

* `Construction.applyAll`: construction steps, one after the other.
* `Keyword.closes?`: the operator that only paints, for one that closes first.
* `Frame.PathBegun`: a path that is there has segments.

## Main results

* `Construction.applyAll_rectangle`: a rectangle is a move, three lines and a close.
* `Action.run_performAll_construct`: what construction steps come to.
* `Action.run_paint_closing`: painting operators that close the path first.
* `path_shorthands`: path operators that are short for others.
-/

namespace ContentStream

variable {σ : Type}

/-! ### Construction steps -/

namespace Path

variable (p : Path Float) (x y w h : Float)

/-- A rectangle is the path of a move, three lines and a close. -/
theorem push_outline :
    ((((p.push (.move ⟨x, y⟩)).push (.line ⟨x + w, y⟩)).push (.line ⟨x + w, y + h⟩)).push
      (.line ⟨x, y + h⟩)).push .close = p.rectangle x y w h := by
  simp [push, extend, rectangle, outline]

/-- The last subpath of a path extended by a rectangle starts at its corner. -/
theorem subpathStart?_rectangle : (p.rectangle x y w h).subpathStart? = some ⟨x, y⟩ := by
  rw [subpathStart?, rectangle, extend, List.reverse_append]
  rfl

end Path

namespace Construction

/-- Construction steps, **one after the other**. -/
def applyAll (path : Option (Path Float)) (point : Option (Point Float)) :
    List Construction → Option (Path Float) × Option (Point Float)
  | [] => (path, point)
  | step :: steps =>
    let after := step.apply path point
    applyAll after.1 after.2 steps

/-- A path that has a segment is begun, if there is a current point. -/
theorem begun_push (path : Path Float) (segment : Segment Float) (point p : Point Float) :
    begun (some (path.push segment)) (some point) p = path.push segment := by
  simp [begun, Path.push, Path.extend, Path.isEmpty]

/-- A rectangle is a move, three lines and a close. -/
theorem applyAll_rectangle (path : Option (Path Float)) (point : Option (Point Float))
    (x y w h : Float) :
    applyAll path point [.rectangle x y w h] =
      applyAll path point
        [.move ⟨x, y⟩, .line ⟨x + w, y⟩, .line ⟨x + w, y + h⟩, .line ⟨x, y + h⟩, .close] := by
  simp only [applyAll, apply, begun_push, Path.push_outline, Path.subpathStart?_rectangle,
    Option.some_or]

/-- A curve from the current point is the curve with that point. -/
theorem applyAll_curveFromCurrent (path : Option (Path Float)) (c₁ c₂ p : Point Float) :
    applyAll path (some c₁) [.curveFromCurrent c₂ p] = applyAll path (some c₁) [.curve c₁ c₂ p] :=
  rfl

/-- A curve to its end is the curve with that end as its second control point. -/
theorem applyAll_curveToEnd (path : Option (Path Float)) (point : Option (Point Float))
    (c₁ p : Point Float) :
    applyAll path point [.curveToEnd c₁ p] = applyAll path point [.curve c₁ p p] :=
  rfl

end Construction

namespace Action

variable {ctx : Context σ} {call : Bytes → Action σ Unit}

/-- Construction steps come to the path and the current point that they lead to, and to nothing
else. -/
theorem run_performAll_construct (steps : List Construction) (frame : Frame) (m : Machine σ) :
    (performAll ctx call frame (steps.map .construct)).run m =
      let after := Construction.applyAll frame.path m.stack.current.point steps
      ⟨.ok { frame with path := after.1 },
        { m with stack := m.stack.modify fun gs => { gs with point := after.2 } }, []⟩ := by
  induction steps generalizing frame m with
  | nil => rfl
  | cons step steps ih =>
      have hrun : (perform ctx call frame (.construct step)).run m =
          let after := step.apply frame.path m.stack.current.point
          ⟨.ok { frame with path := after.1 },
            { m with stack := m.stack.modify fun gs => { gs with point := after.2 } }, []⟩ := rfl
      rw [List.map_cons, performAll, run_bind, hrun]
      simp only [Outcome.after_nil, ih]
      rfl

/-- Instructions come to the same if their construction steps do. -/
theorem run_steps_eq_of_applyAll_eq {is js : List Instruction} {steps steps' : List Construction}
    {frame : Frame} {m : Machine σ}
    (h : Construction.applyAll frame.path m.stack.current.point steps =
      Construction.applyAll frame.path m.stack.current.point steps')
    (hi : List.Forall₂ Instruction.AsksFor is (steps.map .construct))
    (hj : List.Forall₂ Instruction.AsksFor js (steps'.map .construct)) :
    (Action.steps ctx call frame is).run m = (Action.steps ctx call frame js).run m := by
  refine run_steps_eq_of_performAll_eq ?_ hi hj
  rw [run_performAll_construct, run_performAll_construct, h]

end Action

/-! ### Closing before painting -/

/-- The operator that **only paints**, for one that closes the path and then paints it. -/
def Keyword.closes? : Keyword → Option Keyword
  | .closeStroke => some .stroke
  | .closeFillStroke => some .fillStroke
  | .closeFillStrokeEvenOdd => some .fillStrokeEvenOdd
  | _ => none

/-- Both operators paint alike, but for closing. -/
theorem Keyword.bearing_of_closes? {k k' : Keyword} (h : k.closes? = some k') :
    ∃ painting : Painting, painting.close = false ∧ k'.bearing = .paints painting ∧
      k.bearing = .paints { painting with close := true } := by
  unfold closes? at h
  split at h <;> cases h <;> exact ⟨_, rfl, rfl, rfl⟩

/-- A path that is there was **begun**: it has segments. -/
def Frame.PathBegun (frame : Frame) : Prop :=
  ∀ path, frame.path = some path → path.isEmpty = false

/-- A path that is sound has segments, as it begins with a move. -/
theorem Frame.Sound.pathBegun {frame : Frame} (h : frame.Sound) : frame.PathBegun := by
  intro path hpath
  obtain ⟨start, rest, hsegments⟩ := h.path path hpath
  rw [Path.isEmpty, hsegments]
  rfl

/-- Paths are shown alike in states that are: the same path is filled and stroked or not, and the
events differ in nothing but their states. -/
theorem Painting.like_shown {R : GState → GState → Prop} {gs gs' : GState} (h : R gs gs')
    (painting : Painting) (path : Option (Path Float)) :
    List.Forall₂ (Event.Like R) (painting.shown gs path) (painting.shown gs' path) := by
  cases path with
  | none => exact .nil
  | some path =>
      refine List.rel_append ?_ ?_
      · split
        · exact .cons (.fill h) .nil
        · exact .nil
      · split
        · exact .cons (.stroke h) .nil
        · exact .nil

/-- To close a path is to add a segment, if there is a path. -/
theorem Construction.fst_apply_close (path : Option (Path Float)) (point : Option (Point Float)) :
    (Construction.close.apply path point).1 = path.map fun p => p.push .close := by
  cases path <;> rfl

/-- The outline of a path that is closed as it is painted is that of the closed path. -/
theorem Painting.shown_closing {painting : Painting} (hclose : painting.close = false) (gs : GState)
    (path : Option (Path Float)) :
    Painting.shown { painting with close := true } gs path =
      painting.shown gs (path.map fun p => p.push .close) := by
  obtain ⟨close, fill, stroke⟩ := painting
  obtain rfl : close = false := hclose
  cases path <;> rfl

/-- What is left after a path does not depend on the current point. -/
theorem GState.afterPath_setPoint (gs : GState) (point : Option (Point Float))
    (clip : Option (Path Float)) : GState.afterPath { gs with point } clip = gs.afterPath clip := by
  cases clip <;> rfl

namespace Action

/-- Closing the path and then painting it comes to the same as painting it with an operator that
closes it, and is seen alike but for the current point. -/
theorem run_paint_closing {frame : Frame} (hbegun : frame.PathBegun) {painting : Painting}
    (hclose : painting.close = false) (m : Machine σ) :
    let o := (paint { painting with close := true } frame).run m
    let o' := (do paint painting (← construct .close frame) : Action σ Frame).run m
    o.result = o'.result ∧ o.machine = o'.machine ∧
      Trace.Like GState.LikeButPoint o.trace o'.trace := by
  intro o o'
  let after := Construction.close.apply frame.path m.stack.current.point
  let m' : Machine σ := { m with stack := m.stack.modify fun gs => { gs with point := after.2 } }
  have ho' : o' = (paint painting { frame with path := after.1 }).run m' := rfl
  have hpath : (after.1.filter fun p => !p.isEmpty) = frame.path.map fun p => p.push .close := by
    rw [Construction.fst_apply_close]
    cases frame.path <;> simp [Path.push, Path.extend, Path.isEmpty]
  have hpath' : (frame.path.filter fun p => !p.isEmpty) = frame.path := by
    cases h : frame.path with
    | none => rfl
    | some path => simp [hbegun path h]
  have hshown := Painting.like_shown (GState.LikeButPoint.setPoint m.stack.current after.2)
    painting (frame.path.map fun p => p.push .close)
  rw [ho', run_paint_eq, hpath]
  have ho : o = ((endPath frame).run m).after
      ((painting.shown m.stack.current (frame.path.map fun p => p.push .close)).map .event) := by
    rw [← Painting.shown_closing hclose]
    conv_rhs => rw [← hpath']
    exact run_paint_eq _ frame m
  rw [ho, run_endPath_eq, run_endPath_eq]
  have hstate : m'.stack.current.afterPath (frame.awaited? m.stack.current) =
      m.stack.current.afterPath (frame.awaited? m.stack.current) :=
    GState.afterPath_setPoint _ _ _
  have hmachine : { m with stack :=
        ⟨m.stack.current.afterPath (frame.awaited? m.stack.current), m.stack.saved⟩ } =
      { m' with stack :=
        ⟨m'.stack.current.afterPath (frame.awaited? m.stack.current), m'.stack.saved⟩ } := by
    rw [hstate]
    rfl
  refine ⟨rfl, hmachine, List.rel_append ?_ (Trace.Like.refl GState.LikeButPoint.refl _)⟩
  exact List.forall₂_map_left_iff.mpr (List.forall₂_map_right_iff.mpr
    (hshown.imp fun _ _ h => .event h))

end Action

/-! ### Shorthands -/

section

variable (ctx : Context σ) (call : Bytes → Action σ Unit) (frame : Frame) (m : Machine σ)

namespace Action

/-- A rectangle **comes to what its outline comes to**: a move to its corner, three lines around it,
and a close. The sums are those that the operator makes itself. -/
theorem run_steps_rectangle {x y w h x' y' : Numeral} (hx : x'.value = x.value + w.value)
    (hy : y'.value = y.value + h.value) :
    (steps ctx call frame [Keyword.rectangle.afterNumbers [x, y, w, h]]).run m =
      (steps ctx call frame [Keyword.moveTo.afterNumbers [x, y],
        Keyword.lineTo.afterNumbers [x', y], Keyword.lineTo.afterNumbers [x', y'],
        Keyword.lineTo.afterNumbers [x, y'], Keyword.closePath.after []]).run m := by
  refine run_steps_eq_of_applyAll_eq
    (Construction.applyAll_rectangle _ _ x.value y.value w.value h.value)
    (.cons (Keyword.asksFor_after rfl) .nil) ?_
  rw [← hx, ← hy]
  exact .cons (Keyword.asksFor_after rfl) <| .cons (Keyword.asksFor_after rfl) <|
    .cons (Keyword.asksFor_after rfl) <| .cons (Keyword.asksFor_after rfl) <|
    .cons (Keyword.asksFor_after rfl) .nil

/-- So does a curve from the current point, for the curve with that point. -/
theorem run_steps_curveFromCurrent {x₀ y₀ : Numeral}
    (hpoint : m.stack.current.point = some ⟨x₀.value, y₀.value⟩) (x₂ y₂ x₃ y₃ : Numeral) :
    (steps ctx call frame [Keyword.curveFromCurrent.afterNumbers [x₂, y₂, x₃, y₃]]).run m =
      (steps ctx call frame [Keyword.curveTo.afterNumbers [x₀, y₀, x₂, y₂, x₃, y₃]]).run m := by
  have hcurve := Construction.applyAll_curveFromCurrent frame.path ⟨x₀.value, y₀.value⟩
    ⟨x₂.value, y₂.value⟩ ⟨x₃.value, y₃.value⟩
  rw [← hpoint] at hcurve
  exact run_steps_eq_of_applyAll_eq hcurve (.cons (Keyword.asksFor_after rfl) .nil)
    (.cons (Keyword.asksFor_after rfl) .nil)

/-- So does a curve to its end. -/
theorem run_steps_curveToEnd (x₁ y₁ x₃ y₃ : Numeral) :
    (steps ctx call frame [Keyword.curveToEnd.afterNumbers [x₁, y₁, x₃, y₃]]).run m =
      (steps ctx call frame [Keyword.curveTo.afterNumbers [x₁, y₁, x₃, y₃, x₃, y₃]]).run m :=
  run_steps_eq_of_applyAll_eq
    (Construction.applyAll_curveToEnd frame.path _ ⟨x₁.value, y₁.value⟩ ⟨x₃.value, y₃.value⟩)
    (.cons (Keyword.asksFor_after rfl) .nil) (.cons (Keyword.asksFor_after rfl) .nil)

/-- An operator that closes the path comes to a close and the operator that only paints. The states
agree but for the current point, which the close has moved. -/
theorem run_steps_closing {k k' : Keyword} (hk : k.closes? = some k') (hbegun : frame.PathBegun) :
    let o := (steps ctx call frame [k.after []]).run m
    let o' := (steps ctx call frame [Keyword.closePath.after [], k'.after []]).run m
    o.result = o'.result ∧ o.machine = o'.machine ∧
      Trace.Like GState.LikeButPoint o.trace o'.trace := by
  obtain ⟨painting, hclose, hk', hk⟩ := Keyword.bearing_of_closes? hk
  have hclosing : (k.after []).AsksFor (.paint { painting with close := true }) :=
    Keyword.asksFor_after (Command.decode_of_bearing hk _)
  have hclosePath : (Keyword.closePath.after []).AsksFor (.construct .close) :=
    Keyword.asksFor_after rfl
  have hpaint : (k'.after []).AsksFor (.paint painting) :=
    Keyword.asksFor_after (Command.decode_of_bearing hk' _)
  have hsteps := steps_eq_performAll ctx call frame (.cons hclosing .nil)
  have hsteps' := steps_eq_performAll ctx call frame (.cons hclosePath (.cons hpaint .nil))
  simp only [performAll, perform, bind_pure] at hsteps hsteps'
  rw [hsteps, hsteps']
  exact run_paint_closing hbegun hclose m

end Action

/-- Path operators that are **short for others** come to what those come to, whatever the path, the
current point and the clip that is asked for. An operator that closes the path is told from a close
and the one that only paints by the current point in the states that are shown, and by nothing else;
this takes a path that was begun, as every path of an execution was. -/
theorem path_shorthands :
    (∀ x y w h x' y' : Numeral, x'.value = x.value + w.value → y'.value = y.value + h.value →
      (Action.steps ctx call frame [Keyword.rectangle.afterNumbers [x, y, w, h]]).run m =
        (Action.steps ctx call frame [Keyword.moveTo.afterNumbers [x, y],
          Keyword.lineTo.afterNumbers [x', y], Keyword.lineTo.afterNumbers [x', y'],
          Keyword.lineTo.afterNumbers [x, y'], Keyword.closePath.after []]).run m) ∧
    (∀ x₁ y₁ x₃ y₃ : Numeral,
      (Action.steps ctx call frame [Keyword.curveToEnd.afterNumbers [x₁, y₁, x₃, y₃]]).run m =
        (Action.steps ctx call frame
          [Keyword.curveTo.afterNumbers [x₁, y₁, x₃, y₃, x₃, y₃]]).run m) ∧
    (∀ x₀ y₀ : Numeral, m.stack.current.point = some ⟨x₀.value, y₀.value⟩ →
      ∀ x₂ y₂ x₃ y₃ : Numeral,
        (Action.steps ctx call frame
            [Keyword.curveFromCurrent.afterNumbers [x₂, y₂, x₃, y₃]]).run m =
          (Action.steps ctx call frame
            [Keyword.curveTo.afterNumbers [x₀, y₀, x₂, y₂, x₃, y₃]]).run m) ∧
    (∀ k k' : Keyword, k.closes? = some k' → frame.PathBegun →
      let o := (Action.steps ctx call frame [k.after []]).run m
      let o' := (Action.steps ctx call frame [Keyword.closePath.after [], k'.after []]).run m
      o.result = o'.result ∧ o.machine = o'.machine ∧
        Trace.Like GState.LikeButPoint o.trace o'.trace) ∧
    ∀ start content s, s ∈ strides ctx start content → s.frame.PathBegun := by
  refine ⟨fun x y w h x' y' hx hy => ?_, fun x₁ y₁ x₃ y₃ => ?_, fun x₀ y₀ hpoint => ?_,
    fun k k' hk hbegun => ?_, fun start content s hs => ?_⟩
  · exact Action.run_steps_rectangle ctx call frame m hx hy
  · exact Action.run_steps_curveToEnd ctx call frame m x₁ y₁ x₃ y₃
  · exact Action.run_steps_curveFromCurrent ctx call frame m hpoint
  · exact Action.run_steps_closing ctx call frame m hk hbegun
  · obtain ⟨past, later, hsplit⟩ := List.append_of_mem hs
    exact (accords_of_strides hsplit).sound.pathBegun

end

namespace SquareShorthands

/-- A context **without resources**. -/
def ctx : Context Nat where
  library := Directory.library #[]
  surface := fun _ => none

/-- A machine with a **current point**, at which a square begins. -/
def machine : Machine Nat :=
  Machine.withPoint { scopes := [0] }
    (some ⟨(Numeral.ofValue 1.0).value, (Numeral.ofValue 2.0).value⟩)

/-- A frame with the **square**. -/
def frame : Frame where
  path := some (Path.empty.rectangle 1.0 2.0 4.0 4.0)
  base := 1

/-- The square was begun. -/
theorem pathBegun_frame : frame.PathBegun := by
  intro path hpath
  obtain rfl := Option.some.inj hpath
  rfl

/-- The **strides** of the square and of a stroke. -/
def all : List (Stride Nat) :=
  strides ctx { scopes := [0] } (Utf8.encode "1 2 4 4 re s")

end SquareShorthands

open SquareShorthands in
/-- Another rectangle, a curve and a stroke after a square, with the strides of a content like
that. -/
theorem path_shorthands_of_square :
    let n : Float → Numeral := Numeral.ofValue
    (n 5.0).value = (n 2.0).value + (n 3.0).value ∧
    (Action.steps ctx (Action.call ctx) frame
        [Keyword.rectangle.afterNumbers [n 2.0, n 2.0, n 3.0, n 3.0]]).run machine =
      (Action.steps ctx (Action.call ctx) frame [Keyword.moveTo.afterNumbers [n 2.0, n 2.0],
        Keyword.lineTo.afterNumbers [n 5.0, n 2.0], Keyword.lineTo.afterNumbers [n 5.0, n 5.0],
        Keyword.lineTo.afterNumbers [n 2.0, n 5.0], Keyword.closePath.after []]).run machine ∧
    machine.stack.current.point = some ⟨(n 1.0).value, (n 2.0).value⟩ ∧
    (Action.steps ctx (Action.call ctx) frame
        [Keyword.curveFromCurrent.afterNumbers [n 3.0, n 4.0, n 5.0, n 6.0]]).run machine =
      (Action.steps ctx (Action.call ctx) frame
        [Keyword.curveTo.afterNumbers [n 1.0, n 2.0, n 3.0, n 4.0, n 5.0, n 6.0]]).run machine ∧
    Keyword.closeStroke.closes? = some .stroke ∧ frame.PathBegun ∧
    ((Action.steps ctx (Action.call ctx) frame [Keyword.closeStroke.after []]).run
        machine).machine =
      ((Action.steps ctx (Action.call ctx) frame
        [Keyword.closePath.after [], Keyword.stroke.after []]).run machine).machine ∧
    ∃ s ∈ all, s.frame.path.isSome = true ∧ s.frame.PathBegun := by
  intro n
  have hsum : (n 5.0).value = (n 2.0).value + (n 3.0).value := by decide +kernel
  have hpoint : machine.stack.current.point = some ⟨(n 1.0).value, (n 2.0).value⟩ := rfl
  obtain ⟨hrectangle, -, hcurve, hclosing, hbegun⟩ :=
    path_shorthands ctx (Action.call ctx) frame machine
  have hany : (all.any fun s => s.frame.path.isSome) = true := by decide +kernel
  obtain ⟨s, hs, hpath⟩ := List.any_eq_true.mp hany
  exact ⟨hsum, hrectangle _ _ _ _ _ _ hsum hsum, hpoint, hcurve _ _ hpoint _ _ _ _, rfl,
    pathBegun_frame, (hclosing _ _ rfl pathBegun_frame).2.1, s, hs, hpath, hbegun _ _ s hs⟩

end ContentStream
