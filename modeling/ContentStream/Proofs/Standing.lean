import ContentStream.Proofs.Sites

/-!
# Standings

The current point belongs to the graphics state, and a nested program starts in a state that is
made of its caller's. So the program may find a current point there that it has not made itself.
The path under construction belongs to the frame, and is not there.

From the instructions of a program one can tell where it makes use of such a point, without running
it. The *standing* of a program says whether its current point is its own: once it has moved, drawn
a rectangle or ended a path, until it restores a state in which this was not so. A line or a curve
may be drawn from a point that is not the program's own only if no path is under construction, for
then it begins with a move to a point of its own; the curve that takes its first control point from
the current one may not be drawn at all.

## Main definitions

* `Standing`: how a program stands to its current point, with the standing after a command.
* `Site.KeepsToItself`: the program at a site makes no use of a point that is not its own.

## Main results

* `Construction.apply_eq_of_draw`: a step that is allowed comes to the same path, whatever the
  point that is not the program's own.
* `Construction.exists_apply_ne_of_draw`: of a step that is not allowed this is not true.
-/

namespace ContentStream

variable {σ : Type}

/-! ### Whose point it is -/

/-- How a program **stands to its current point**. -/
structure Standing where
  /-- Whether the current point is of the program's own making. -/
  own : Bool := false
  /-- Whether a path is under construction. -/
  begun : Bool := false
  /-- The same as `own` of the states that the program has saved, latest first. -/
  saved : List Bool := []

namespace Standing

/-- The standing **after a construction step**; none if the step makes use of a point that may not
be the program's own. -/
def draw (s : Standing) : Construction → Option Standing
  | .move _ | .rectangle _ _ _ _ => some { s with own := true, begun := true }
  | .line _ | .curve _ _ _ | .curveToEnd _ _ =>
    if s.own || !s.begun then some { s with own := true, begun := true } else none
  | .curveFromCurrent _ _ => if s.own then some { s with own := true, begun := true } else none
  | .close => some s

/-- The standing **after a command**; none if the command makes use of a point that may not be the
program's own. -/
def after (s : Standing) : Command → Option Standing
  | .save => some { s with saved := s.own :: s.saved }
  | .restore => some { s with own := s.saved.headD false, saved := s.saved.tail }
  | .construct step => s.draw step
  | .paint _ | .shade _ => some { s with own := true, begun := false }
  | _ => some s

/-- Whether **instructions** make no use of a point that is not the program's own. Those after the
first that cannot be understood do not count. -/
def allows : Standing → List Instruction → Bool
  | _, [] => true
  | s, .operate op operands :: is =>
    match Command.decode op operands with
    | .error _ => true
    | .ok command =>
      match s.after command with
      | some s => s.allows is
      | none => false
  | s, .drawImage _ _ :: is => s.allows is
  | _, .misspelled _ :: _ => true

end Standing

/-- A construction step has nothing to do with the states that are saved. -/
theorem Standing.saved_of_draw {s s' : Standing} {step : Construction}
    (hs : s.draw step = some s') : s'.saved = s.saved := by
  cases step with
  | move q | rectangle x y w h | close => rw [← Option.some.inj hs]
  | line q | curve c₁ c₂ q | curveToEnd c₁ q | curveFromCurrent c₂ q =>
      rw [← Option.some.inj (Option.ite_none_right_eq_some.mp hs).2]

/-- A site **keeps to its own points** if its program, about the current point of which nothing is
known in the beginning, makes no use of a point that is not its own. -/
def Site.KeepsToItself (ctx : Context σ) (s : Site σ) : Prop :=
  ({} : Standing).allows (s.instructions ctx) = true

instance (ctx : Context σ) (s : Site σ) : Decidable (s.KeepsToItself ctx) :=
  inferInstanceAs (Decidable (_ = true))

/-- A construction step that is allowed comes to **the same path** from points that the program can
tell apart only if they are its own. -/
theorem Construction.apply_eq_of_draw {s s' : Standing} {step : Construction}
    (hs : s.draw step = some s') {path : Option (Path Float)} {p p' : Option (Point Float)}
    (hown : s.own = true → p = p') (hbegun : s.begun = false → path = none) :
    (step.apply path p).1 = (step.apply path p').1 ∧
    (s'.own = true → (step.apply path p).2 = (step.apply path p').2) ∧
    (s'.begun = false → (step.apply path p).1 = none) := by
  have hpath (q : Point Float) (h : (s.own || !s.begun) = true) :
      Construction.begun path p q = Construction.begun path p' q := by
    cases hs : s.own with
    | true => rw [hown hs]
    | false =>
        have hnone : path = none := hbegun (by simpa [hs] using h)
        simp [hnone, Construction.begun, Path.isEmpty, Path.empty]
  cases step with
  | move q | rectangle x y w h =>
      obtain rfl := Option.some.inj hs
      exact ⟨rfl, fun _ => rfl, fun h => by cases h⟩
  | line q | curve c₁ c₂ q | curveToEnd c₁ q =>
      obtain ⟨hallowed, hs⟩ := Option.ite_none_right_eq_some.mp hs
      obtain rfl := Option.some.inj hs
      simp only [Construction.apply, hpath _ hallowed]
      exact ⟨trivial, fun _ => trivial, fun h => by cases h⟩
  | curveFromCurrent c₂ q =>
      obtain ⟨hallowed, hs⟩ := Option.ite_none_right_eq_some.mp hs
      obtain rfl := Option.some.inj hs
      rw [hown hallowed]
      exact ⟨rfl, fun _ => rfl, fun h => by cases h⟩
  | close =>
      obtain rfl := Option.some.inj hs
      cases path with
      | none => exact ⟨rfl, hown, fun _ => rfl⟩
      | some path =>
          refine ⟨rfl, fun h => by rw [hown h], fun h => absurd (hbegun h) (by simp)⟩

/-- A construction step that is not allowed can come to **different paths**, for points that the
program cannot tell apart. -/
theorem Construction.exists_apply_ne_of_draw {s : Standing} {step : Construction}
    (hs : s.draw step = none) :
    ∃ path p p', (s.own = true → p = p') ∧ (s.begun = false → path = none) ∧
      (step.apply path p).1 ≠ (step.apply path p').1 := by
  cases step with
  | move q | rectangle x y w h | close => cases hs
  | line q | curve c₁ c₂ q | curveToEnd c₁ q =>
      -- Without a current point, the step opens a subpath of its own.
      obtain ⟨hown, hbegun⟩ : s.own = false ∧ s.begun = true := by
        simpa [Standing.draw] using hs
      refine ⟨some { segments := [.close] }, none, some ⟨0.0, 0.0⟩, by simp [hown],
        by simp [hbegun], fun heq => ?_⟩
      have hlen := congrArg (fun path => path.map fun p => p.segments.length) heq
      exact absurd hlen (by
        simp [Construction.apply, Construction.begun, Path.isEmpty, Path.push, Path.extend])
  | curveFromCurrent c₂ q =>
      -- The curve begins at the current point.
      have hown : s.own = false := by simpa [Standing.draw] using hs
      refine ⟨none, some ⟨0.0, 0.0⟩, some ⟨1.0, 1.0⟩, by simp [hown], fun _ => rfl,
        fun heq => ?_⟩
      have hstart := congrArg (fun path => path.bind fun p => p.segments.head?) heq
      have hx : (0.0 : Float) = 1.0 := by
        simpa [Construction.apply, Construction.begun, Path.isEmpty, Path.empty, Path.push,
          Path.extend] using hstart
      exact absurd hx (by decide +kernel)

end ContentStream
