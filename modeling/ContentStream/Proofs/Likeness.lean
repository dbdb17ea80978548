import ContentStream.Proofs.Calls
import Mathlib.Data.List.Forall2

/-!
# Likeness

Two runs are compared step by step: as long as their machines are alike, the same command leads to
machines that are alike again, to the same result, and to traces that are alike. What *alike* means
depends on the question that is asked. Inks and current points are compared by a relation each, and
so are the saved states, the machines apart from their stacks, and the traces; everything else in a
graphics state is the same. A `Likeness` bundles these relations with the few laws that the
interpreter's functions need.

Most commands touch no more of a state than is the same in any likeness. Those that save and
restore states or construct paths are treated here for likenesses that compare all states in one
way and current points by equality. Those that may run nested programs are left to the modules
that ask the questions.

## Main definitions

* `GState.Like`, `Event.Like`, `Outcome.Alike`: states, events and outcomes that are alike.
* `Likeness`: what two runs are compared by.
* `Command.Agrees`: a command finds the same in both runs.
* `Likeness.Even`: a likeness that compares all states in the same way.
* `Likeness.Exact`: a likeness that tells all states apart.

## Main results

* `Outcome.Alike.bind`: the rule of sequencing.
* `Action.same_perform`: commands that touch nothing but what is the same.
* `Action.same_perform_of_even`: commands in an even likeness.
* `Action.same_steps`: instructions, one after the other.
-/

namespace ContentStream

variable {σ α β : Type}

/-! ### Graphics states -/

/-- Graphics states that are **alike**: in everything but for the inks, which are in a relation, and
the current points, which are in another. -/
structure GState.Like (ink : Ink → Ink → Prop)
    (point : Option (Point Float) → Option (Point Float) → Prop) (gs gs' : GState) : Prop where
  fill : ink gs.fill gs'.fill
  stroke : ink gs.stroke gs'.stroke
  point : point gs.point gs'.point
  others : { gs' with fill := gs.fill, stroke := gs.stroke, point := gs.point } = gs

namespace GState

/-- A function of states is **passive** if it neither reads nor changes inks and current points. -/
def Passive (f : GState → GState) : Prop :=
  ∀ gs fill stroke point,
    f { gs with fill, stroke, point } = { f gs with fill, stroke, point }

/-- Passive functions leave the current point alone, since what they make of it is what they make of
any other point. -/
theorem Passive.point_eq {f : GState → GState} (hf : Passive f) (gs : GState) :
    (f gs).point = gs.point :=
  (congrArg GState.point (hf gs gs.fill gs.stroke gs.point) :)

/-- Settings set the parameters of lines and text, a tolerance or an intent: never an ink, and never
the current point. Codes that stand for nothing set nothing. -/
theorem passive_apply (setting : Setting) : Passive fun gs => setting.apply gs := by
  intro gs fill stroke point
  cases setting with
  | lineCap code => simp only [Setting.apply]; cases LineCap.ofCode? code <;> rfl
  | lineJoin code => simp only [Setting.apply]; cases LineJoin.ofCode? code <;> rfl
  | renderMode code => simp only [Setting.apply]; cases RenderMode.ofCode? code <;> rfl
  | _ => rfl

/-- To select a font is to set two parameters of text. -/
theorem passive_font (font : Font) (size : Float) :
    Passive fun gs => { gs with text.font := some font, text.size := size } :=
  fun _ _ _ _ => rfl

/-- To narrow the clip reads and changes nothing but the clip and its bounds. -/
theorem passive_narrow (device : Path Float) : Passive fun gs => gs.narrow device :=
  fun _ _ _ _ => rfl

/-- The state in which a sub-program starts differs in its transform and its clip. -/
theorem passive_nested (transform : Matrix Float) (clip : Option (Rect Float)) :
    Passive fun gs => gs.nested transform clip := by
  intro gs fill stroke point
  cases clip <;> rfl

namespace Like

variable {ink : Ink → Ink → Prop} {point : Option (Point Float) → Option (Point Float) → Prop}
  {gs gs' : GState}

/-- States that are alike are under the same transform. This, like the next two laws, is read off
the fields that are the same in any likeness. -/
theorem ctm_eq (h : Like ink point gs gs') : gs'.ctm = gs.ctm :=
  (congrArg GState.ctm h.others :)

/-- States that are alike have the same clip. -/
theorem clip_eq (h : Like ink point gs gs') : gs'.clip = gs.clip :=
  (congrArg GState.clip h.others :)

/-- States that are alike have the same parameters of text. -/
theorem text_eq (h : Like ink point gs gs') : gs'.text = gs.text :=
  (congrArg GState.text h.others :)

/-- The inks of either side are in the relation of inks. -/
theorem ink_side (h : Like ink point gs gs') (side : Side) : ink (gs.ink side) (gs'.ink side) := by
  cases side
  · exact h.fill
  · exact h.stroke

/-- Passive functions keep states alike: what they do to the rest is the same in both, and inks and
points they leave where they are. -/
theorem map (h : Like ink point gs gs') {f : GState → GState} (hf : Passive f) :
    Like ink point (f gs) (f gs') := by
  have hown (g : GState) :
      f g = { f g with fill := g.fill, stroke := g.stroke, point := g.point } :=
    hf g g.fill g.stroke g.point
  have hothers : f gs = { f gs' with fill := gs.fill, stroke := gs.stroke, point := gs.point } := by
    rw [← hf, h.others]
  have hfill : ∀ g, (f g).fill = g.fill := fun g => (congrArg GState.fill (hown g) :)
  have hstroke : ∀ g, (f g).stroke = g.stroke := fun g => (congrArg GState.stroke (hown g) :)
  refine ⟨?_, ?_, ?_, ?_⟩
  · rw [hfill, hfill]
    exact h.fill
  · rw [hstroke, hstroke]
    exact h.stroke
  · rw [hf.point_eq, hf.point_eq]
    exact h.point
  · rw [hfill, hstroke, hf.point_eq]
    exact hothers.symm

/-- A new ink on one side may be any ink that is in relation to the one in the other state. -/
theorem setInk (h : Like ink point gs gs') (side : Side) {i i' : Ink} (hi : ink i i') :
    Like ink point (gs.setInk side i) (gs'.setInk side i') := by
  cases side
  · exact ⟨hi, h.stroke, h.point, congrArg (fun g : GState => { g with fill := i }) h.others⟩
  · exact ⟨h.fill, hi, h.point, congrArg (fun g : GState => { g with stroke := i }) h.others⟩

/-- With new points, the old ones do not count; the relation of points may be a new one, too. -/
theorem setPoint (h : Like ink point gs gs')
    {point' : Option (Point Float) → Option (Point Float) → Prop} {p p' : Option (Point Float)}
    (hp : point' p p') : Like ink point' { gs with point := p } { gs' with point := p' } :=
  ⟨h.fill, h.stroke, hp, congrArg (fun g : GState => { g with point := p }) h.others⟩

/-- Relations may be weakened, that of points with regard to the two points that there are. -/
theorem mono {ink' : Ink → Ink → Prop} {point' : Option (Point Float) → Option (Point Float) → Prop}
    (h : Like ink point gs gs') (hink : ∀ i i', ink i i' → ink' i i')
    (hpoint : point gs.point gs'.point → point' gs.point gs'.point) : Like ink' point' gs gs' :=
  ⟨hink _ _ h.fill, hink _ _ h.stroke, hpoint h.point, h.others⟩

end Like

/-- States whose inks and points are equal are themselves equal, since all the rest is. -/
theorem like_eq_iff {gs gs' : GState} : Like Eq Eq gs gs' ↔ gs = gs' := by
  constructor
  · rintro ⟨hfill, hstroke, hpoint, hothers⟩
    rw [← hothers, hfill, hstroke, hpoint]
  · rintro rfl
    exact ⟨rfl, rfl, rfl, rfl⟩

end GState

/-! ### Events -/

/-- The **graphics state** that an event comes with, if it comes with one. -/
def Event.state? : Event → Option GState
  | .save gs | .restore gs | .fill gs _ | .stroke gs _ | .image gs _ _ | .glyph gs _ _ => some gs
  | _ => none

/-- Events that are the **same but for the states** that they come with, which are in a relation. -/
inductive Event.Like (state : GState → GState → Prop) : Event → Event → Prop
  | plain {e : Event} (he : e.state? = none) : Like state e e
  | save {gs gs' : GState} (h : state gs gs') : Like state (.save gs) (.save gs')
  | restore {gs gs' : GState} (h : state gs gs') : Like state (.restore gs) (.restore gs')
  | fill {gs gs' : GState} {path : Path Float} (h : state gs gs') :
      Like state (.fill gs path) (.fill gs' path)
  | stroke {gs gs' : GState} {path : Path Float} (h : state gs gs') :
      Like state (.stroke gs path) (.stroke gs' path)
  | image {gs gs' : GState} {image : Image} {transform : Matrix Float} (h : state gs gs') :
      Like state (.image gs image transform) (.image gs' image transform)
  | glyph {gs gs' : GState} {glyph : Glyph} {transform : Matrix Float} (h : state gs gs') :
      Like state (.glyph gs glyph transform) (.glyph gs' glyph transform)

/-- Events stay alike if the relation of states is weakened, since nothing else about them is
compared but by equality. -/
theorem Event.Like.mono {R S : GState → GState → Prop} (hRS : ∀ gs gs', R gs gs' → S gs gs')
    {e e' : Event} (h : Event.Like R e e') : Event.Like S e e' := by
  cases h with
  | plain he => exact .plain he
  | save h => exact .save (hRS _ _ h)
  | restore h => exact .restore (hRS _ _ h)
  | fill h => exact .fill (hRS _ _ h)
  | stroke h => exact .stroke (hRS _ _ h)
  | image h => exact .image (hRS _ _ h)
  | glyph h => exact .glyph (hRS _ _ h)

/-- Each event is like itself if each state is, and events without a state are so in any case. -/
theorem Event.Like.refl {R : GState → GState → Prop} (hR : ∀ gs, R gs gs) (e : Event) :
    Event.Like R e e := by
  cases e with
  | save gs => exact .save (hR gs)
  | restore gs => exact .restore (hR gs)
  | fill gs path => exact .fill (hR gs)
  | stroke gs path => exact .stroke (hR gs)
  | image gs image transform => exact .image (hR gs)
  | glyph gs glyph transform => exact .glyph (hR gs)
  | _ => exact .plain rfl

/-- Marks that are **the same note**, or events that are alike. -/
inductive Mark.Like (state : GState → GState → Prop) : Mark → Mark → Prop
  | event {e e' : Event} (h : e.Like state e') : Like state (.event e) (.event e')
  | note (n : Note) : Like state (.note n) (.note n)

/-- Traces that are **alike**, mark by mark. -/
abbrev Trace.Like (state : GState → GState → Prop) : Trace → Trace → Prop :=
  List.Forall₂ (Mark.Like state)

namespace Trace.Like

variable {state : GState → GState → Prop}

/-- Each trace is like itself if each state is. Notes are compared by equality and need no law. -/
theorem refl (hstate : ∀ gs, state gs gs) (t : Trace) : Trace.Like state t t := by
  refine List.forall₂_same.mpr fun mark _ => ?_
  cases mark with
  | event e => exact .event (.refl hstate e)
  | note n => exact .note n

/-- Traces that are alike have events that are alike, one by one and in the same order. -/
theorem events {t t' : Trace} (h : Trace.Like state t t') :
    List.Forall₂ (Event.Like state) (Trace.events t) (Trace.events t') := by
  induction h with
  | nil => exact .nil
  | cons hmark _ ih =>
      cases hmark with
      | event h => exact .cons h ih
      | note n => exact ih

/-- What is restored in unwinding is alike if the saved states are: the stacks are equally deep, so
that equally many of them are restored. -/
theorem leaving {s s' : GStack} (h : List.Forall₂ state s.saved s'.saved) (depth : Nat) :
    Trace.Like state (s.leaving depth) (s'.leaving depth) := by
  have hdepth : s.depth = s'.depth := congrArg (· + 1) h.length_eq
  rw [GStack.leaving, GStack.leaving, ← hdepth]
  exact List.forall₂_map_left_iff.mpr (List.forall₂_map_right_iff.mpr
    ((List.forall₂_take _ h).imp fun _ _ h => .event (.restore h)))

end Trace.Like

/-! ### Outcomes -/

/-- Outcomes that are **alike**: either both give results, or both end in the same fault. The traces
are in a relation; the machines are in one that depends on the results, or in one for faults. -/
inductive Outcome.Alike (trace : Trace → Trace → Prop) (faulty : Machine σ → Machine σ → Prop)
    (good : α → β → Machine σ → Machine σ → Prop) : Outcome σ α → Outcome σ β → Prop
  | ok {a : α} {b : β} {m m' : Machine σ} {t t' : Trace} (ht : trace t t') (h : good a b m m') :
      Alike trace faulty good ⟨.ok a, m, t⟩ ⟨.ok b, m', t'⟩
  | error (fault : Fault) {m m' : Machine σ} {t t' : Trace} (ht : trace t t') (h : faulty m m') :
      Alike trace faulty good ⟨.error fault, m, t⟩ ⟨.error fault, m', t'⟩

/-- The **laws** of relations that runs are compared by. Shadings that are painted with, the current
point once a path has ended and traces in which nothing happens are in relation to themselves;
traces are put together, and consist of events whose states are alike. -/
structure Likeness.Laws (ink : Ink → Ink → Prop)
    (point : Option (Point Float) → Option (Point Float) → Prop) (trace : Trace → Trace → Prop) :
    Prop where
  ink_shading (shading : Shading) (matrix : Matrix Float) (space : ColorSpace) :
    ink ⟨.shading shading matrix, space⟩ ⟨.shading shading matrix, space⟩
  point_none : point none none
  trace_nil : trace [] []
  trace_append {t t' u u' : Trace} (h : trace t t') (h' : trace u u') : trace (t ++ u) (t' ++ u')
  trace_event {e e' : Event} (h : e.Like (GState.Like ink point) e') :
    trace [.event e] [.event e']

/-- States with the same inks and points come with equal events, since there is nothing else in
which the states of events may differ. -/
theorem Event.Like.eq {e e' : Event} (h : Event.Like (GState.Like Eq Eq) e e') : e = e' := by
  cases h with
  | plain he => rfl
  | save h | restore h | fill h | stroke h | image h | glyph h => rw [GState.like_eq_iff.mp h]

/-- Equality obeys the laws, for inks, points and traces at once. -/
theorem Likeness.Laws.eq : Likeness.Laws Eq Eq Eq where
  ink_shading _ _ _ := rfl
  point_none := rfl
  trace_nil := rfl
  trace_append h h' := h ▸ h' ▸ rfl
  trace_event h := by rw [h.eq]

/-- What two runs are **compared by**. The rest of the machines is all but their stacks. -/
structure Likeness (σ : Type) where
  ink : Ink → Ink → Prop
  point : Option (Point Float) → Option (Point Float) → Prop
  saved : List GState → List GState → Prop
  rest : Machine σ → Machine σ → Prop
  trace : Trace → Trace → Prop
  laws : Likeness.Laws ink point trace
  rest_stack {m m' : Machine σ} (stack stack' : GStack) (h : rest m m') :
    rest { m with stack } { m' with stack := stack' }
  pageBounds_eq {m m' : Machine σ} (h : rest m m') : m.pageBounds = m'.pageBounds

namespace Likeness

variable (L : Likeness σ)

/-- Graphics states that are **alike**. -/
abbrev Like : GState → GState → Prop :=
  GState.Like L.ink L.point

/-- Machines that are **alike**. -/
structure Holds (m m' : Machine σ) : Prop where
  current : L.Like m.stack.current m'.stack.current
  saved : L.saved m.stack.saved m'.stack.saved
  rest : L.rest m m'

/-- Outcomes that are **alike**, with the same result. -/
abbrev Same : Outcome σ α → Outcome σ α → Prop :=
  Outcome.Alike L.trace L.Holds fun a b m m' => a = b ∧ L.Holds m m'

end Likeness

section Rules

variable {L : Likeness σ} {m m' : Machine σ}

namespace Likeness.Holds

/-- Machines stay alike if the current states are changed to states that are alike. -/
theorem modify (h : L.Holds m m') {f g : GState → GState}
    (hf : L.Like (f m.stack.current) (g m'.stack.current)) :
    L.Holds { m with stack := m.stack.modify f } { m' with stack := m'.stack.modify g } :=
  ⟨hf, h.saved, L.rest_stack _ _ h.rest⟩

end Likeness.Holds

namespace Outcome.Alike

/-- Outcomes stay alike with like traces before theirs. -/
theorem after {F : Machine σ → Machine σ → Prop} {Q : α → β → Machine σ → Machine σ → Prop}
    {o : Outcome σ α} {o' : Outcome σ β} (h : Alike L.trace F Q o o') {t t' : Trace}
    (ht : L.trace t t') : Alike L.trace F Q (o.after t) (o'.after t') := by
  cases h with
  | ok hu h => exact .ok (L.laws.trace_append ht hu) h
  | error fault hu h => exact .error fault (L.laws.trace_append ht hu) h

/-- Sequencing. If the first actions come to like outcomes, it is enough that the second ones do for
any two results and machines that the first may have left. A fault of the first is the fault of both
sequences. -/
theorem bind {γ δ : Type} {F : Machine σ → Machine σ → Prop}
    {P : α → β → Machine σ → Machine σ → Prop} {Q : γ → δ → Machine σ → Machine σ → Prop}
    {x : Action σ α} {y : Action σ β} {f : α → Action σ γ} {g : β → Action σ δ}
    (h : Alike L.trace F P (x.run m) (y.run m'))
    (hf : ∀ a b n n', P a b n n' → Alike L.trace F Q ((f a).run n) ((g b).run n')) :
    Alike L.trace F Q ((x >>= f).run m) ((y >>= g).run m') := by
  rw [Action.run_bind, Action.run_bind]
  generalize x.run m = o at h
  generalize y.run m' = o' at h
  cases h with
  | ok ht h => exact (hf _ _ _ _ h).after ht
  | error fault ht h => exact .error fault ht h

/-- What is said of outcomes may be weakened: of their traces, and of the machines with a fault and
without one. -/
theorem mono {T T' : Trace → Trace → Prop} {F F' : Machine σ → Machine σ → Prop}
    {Q Q' : α → β → Machine σ → Machine σ → Prop} {o : Outcome σ α} {o' : Outcome σ β}
    (h : Alike T F Q o o') (hT : ∀ t t', T t t' → T' t t') (hF : ∀ m m', F m m' → F' m m')
    (hQ : ∀ a b m m', Q a b m m' → Q' a b m m') : Alike T' F' Q' o o' := by
  cases h with
  | ok ht h => exact .ok (hT _ _ ht) (hQ _ _ _ _ h)
  | error fault ht h => exact .error fault (hT _ _ ht) (hF _ _ h)

/-- If machines are compared in one way, with or without a fault, then it need not be known which of
both has happened to compare results, traces and machines. -/
theorem both {T : Trace → Trace → Prop} {F : Machine σ → Machine σ → Prop} {o o' : Outcome σ α}
    (h : Alike T F (fun a b m m' => a = b ∧ F m m') o o') :
    o.result = o'.result ∧ T o.trace o'.trace ∧ F o.machine o'.machine := by
  cases h with
  | ok ht h => exact ⟨congrArg Except.ok h.1, ht, h.2⟩
  | error fault ht h => exact ⟨rfl, ht, h⟩

end Outcome.Alike

end Rules

/-! ### The interpreter -/

namespace Action

variable {L : Likeness σ} {ctx ctx' : Context σ} {m m' : Machine σ}

section Steps

/-- Looking up what is the same in both runs comes to the same result or to the same fault. -/
theorem same_ofExcept (h : L.Holds m m') {x y : Except Fault α} (hxy : x = y) :
    L.Same ((ofExcept x : Action σ α).run m) ((ofExcept y : Action σ α).run m') := by
  subst hxy
  cases x with
  | error fault => exact .error fault L.laws.trace_nil h
  | ok a => exact .ok L.laws.trace_nil ⟨rfl, h⟩

/-- Giving a value comes to this value on both machines. -/
theorem same_pure (h : L.Holds m m') (a : α) :
    L.Same ((pure a : Action σ α).run m) ((pure a : Action σ α).run m') :=
  .ok L.laws.trace_nil ⟨rfl, h⟩

/-- Failing comes to the same fault on both machines. -/
theorem same_fail (h : L.Holds m m') (fault : Fault) :
    L.Same ((fail fault : Action σ α).run m) ((fail fault : Action σ α).run m') :=
  .error fault L.laws.trace_nil h

/-- One event is emitted in both runs if they are alike; it is the law of traces that says so. -/
theorem same_emit (h : L.Holds m m') {e e' : Event} (he : e.Like L.Like e') :
    L.Same ((emit e).run m) ((emit e').run m') :=
  .ok (L.laws.trace_event he) ⟨rfl, h⟩

/-- Events that are alike one by one come to traces that are alike, by induction on the first of
them. -/
theorem same_emitAll (h : L.Holds m m') {es es' : List Event}
    (hes : List.Forall₂ (Event.Like L.Like) es es') :
    L.Same ((emitAll es).run m) ((emitAll es').run m') := by
  refine .ok ?_ ⟨rfl, h⟩
  induction hes with
  | nil => exact L.laws.trace_nil
  | cons he _ ih => exact L.laws.trace_append (L.laws.trace_event he) ih

/-- The current states may be changed in different ways, if only these lead to like states again. -/
theorem same_modifyState (h : L.Holds m m') {f g : GState → GState}
    (hf : L.Like (f m.stack.current) (g m'.stack.current)) :
    L.Same ((modifyState f).run m) ((modifyState g).run m') :=
  .ok L.laws.trace_nil ⟨rfl, h.modify hf⟩

/-- In particular they may be changed by one and the same passive function. -/
theorem same_set (h : L.Holds m m') {f : GState → GState} (hf : GState.Passive f) :
    L.Same ((modifyState f).run m) ((modifyState f).run m') :=
  same_modifyState h (h.current.map hf)

end Steps

/-- Sequencing of actions that give the same results on like machines. It is this form of the rule
that the functions of the interpreter are taken through. -/
theorem same_bind {x y : Action σ α} {f g : α → Action σ β}
    (h : L.Same (x.run m) (y.run m'))
    (hf : ∀ a n n', L.Holds n n' → L.Same ((f a).run n) ((g a).run n')) :
    L.Same ((x >>= f).run m) ((y >>= g).run m') := by
  refine h.bind ?_
  rintro a _ n n' ⟨rfl, hn⟩
  exact hf a n n' hn

/-! ### Painting and writing -/

/-- What narrowing the clip comes to: a path in device space, by which the state is narrowed and
which is announced. -/
theorem run_narrowClip (path : Path Float) (m : Machine σ) :
    (narrowClip path).run m =
      let device := path.transform m.stack.current.ctm
      ⟨.ok (), { m with stack := m.stack.modify fun gs => gs.narrow device },
        [.event (.clip device)]⟩ :=
  rfl

/-- The clip is narrowed to the same path, since the transforms are the same. -/
theorem same_narrowClip (h : L.Holds m m') (path : Path Float) :
    L.Same ((narrowClip path).run m) ((narrowClip path).run m') := by
  have hmap := h.current.map (GState.passive_narrow (path.transform m.stack.current.ctm))
  rw [run_narrowClip, run_narrowClip, h.current.ctm_eq]
  exact .ok (L.laws.trace_event (.plain rfl)) ⟨rfl, h.modify hmap⟩

/-- A path ends alike: the same clip is asked for in both frames, and no point is like no point,
which is one of the laws. -/
theorem same_endPath (h : L.Holds m m') (frame : Frame) :
    L.Same ((endPath frame).run m) ((endPath frame).run m') := by
  have hend {n n' : Machine σ} (hn : L.Holds n n') : L.Same
      ((do
        modifyState fun gs => { gs with point := none }
        pure { frame with path := none, pendingClip := none } : Action σ Frame).run n)
      ((do
        modifyState fun gs => { gs with point := none }
        pure { frame with path := none, pendingClip := none } : Action σ Frame).run n') :=
    same_bind (same_modifyState hn (hn.current.setPoint L.laws.point_none)) fun _ _ _ hn =>
      same_pure hn _
  unfold endPath
  cases frame.pendingClip with
  | none => exact hend h
  | some clip => exact same_bind (same_narrowClip h clip) fun _ _ _ hn => hend hn

/-- A path is shown in events that are alike, with states that are and with the same outline. -/
theorem like_paintEvents {gs gs' : GState} (h : L.Like gs gs') (painting : Painting)
    (path : Path Float) :
    List.Forall₂ (Event.Like L.Like) (paintEvents painting gs path)
      (paintEvents painting gs' path) := by
  obtain ⟨close, _ | rule, _ | _⟩ := painting
  · exact .nil
  · exact .cons (.stroke h) .nil
  · exact .cons (.fill h) .nil
  · exact .cons (.fill h) (.cons (.stroke h) .nil)

/-- So painting goes alike, with the same path in both frames. What is painted is shown in states
that are alike. -/
theorem same_paint (h : L.Holds m m') (painting : Painting) (frame : Frame) :
    L.Same ((paint painting frame).run m) ((paint painting frame).run m') := by
  unfold paint
  cases frame.path with
  | none => exact same_endPath h frame
  | some path =>
      by_cases hempty : path.isEmpty = true
      · simp only [hempty, if_true]
        exact same_endPath h frame
      · simp only [hempty, Bool.false_eq_true, if_false, run_state_bind]
        exact same_bind (same_emitAll h (like_paintEvents h.current painting path)) fun _ _ _ hn =>
          same_endPath hn frame

/-- A shading goes alike if the same is found under its name. The region to be filled depends on the
transform, the clip and the page alone, which are the same. -/
theorem same_shade (h : L.Holds m m') {name : String}
    (hfind : ctx.library.findShading m.scopes name = ctx'.library.findShading m'.scopes name)
    (frame : Frame) :
    L.Same ((shade ctx name frame).run m) ((shade ctx' name frame).run m') := by
  unfold shade
  simp only [run_machine_bind, h.current.ctm_eq, h.current.clip_eq, ← L.pageBounds_eq h.rest]
  refine same_bind (same_ofExcept h hfind) fun shading n n' hn => ?_
  cases shadedRegion? m.stack.current.ctm m.stack.current.clip m.pageBounds shading.bbox with
  | none => exact same_fail hn _
  | some region =>
      have hink := h.current.setInk .fill (L.laws.ink_shading shading Matrix.identity shading.space)
      exact same_bind (same_emit hn (.fill hink)) fun _ _ _ hn => same_endPath hn frame

/-- Text is shown alike: the same font splits the string in the same way, and the glyphs are placed
by the same parameters. -/
theorem same_showText (h : L.Holds m m') (bytes : Bytes) (t : TextObject) :
    L.Same ((showText bytes t).run m) ((showText bytes t).run m') := by
  unfold showText
  rw [run_state_bind, run_state_bind, h.current.text_eq]
  cases m.stack.current.text.font with
  | none => exact same_pure h t
  | some font =>
      simp only
      generalize t.place m.stack.current.text (font.decode bytes) = placed
      obtain ⟨glyphs, after⟩ := placed
      refine same_bind (same_emitAll h ?_) fun _ _ _ hn => same_pure hn after
      induction glyphs with
      | nil => exact .nil
      | cons glyph glyphs ih => exact .cons (.glyph h.current) ih

/-- So are the items of an array, by induction on them. Numbers move the text by amounts that depend
on parameters of text, which are the same. -/
theorem same_showItems (h : L.Holds m m') (items : List Operand) (t : TextObject) :
    L.Same ((showItems items t).run m) ((showItems items t).run m') := by
  induction items generalizing m m' t with
  | nil => exact same_pure h t
  | cons item items ih =>
      cases item with
      | string bytes => exact same_bind (same_showText h bytes t) fun t _ _ hn => ih hn t
      | number amount =>
          rw [showItems, run_state_bind, run_state_bind, h.current.text_eq]
          exact ih h _
      | _ => exact ih h t

/-- The next line starts alike, by the same leading. -/
theorem same_nextLine (h : L.Holds m m') (t : TextObject) :
    L.Same ((nextLine t).run m) ((nextLine t).run m') := by
  rw [nextLine, run_state_bind, run_state_bind, h.current.text_eq]
  exact same_pure h _

/-- Writing goes alike, or is passed over in both runs, since the text object of the frame is the
same. -/
theorem same_write (h : L.Holds m m') (step : Writing) (frame : Frame) :
    L.Same ((write step frame).run m) ((write step frame).run m') := by
  have hset {n n' : Machine σ} (hn : L.Holds n n') (setting : Setting) :=
    same_set hn (GState.passive_apply setting)
  have hopen : L.Same ((writeOpen step frame.text).run m) ((writeOpen step frame.text).run m') := by
    cases step with
    | moveLine tx ty => exact same_pure h _
    | moveLineLeading tx ty =>
        exact same_bind (hset h (.leading (-ty))) fun _ _ _ hn => same_pure hn _
    | setMatrix m => exact same_pure h _
    | nextLine => exact same_nextLine h _
    | write bytes => exact same_showText h bytes _
    | writeAdjusted items => exact same_showItems h items _
    | nextLineWrite bytes =>
        exact same_bind (same_nextLine h _) fun t _ _ hn => same_showText hn bytes t
    | nextLineWriteSpaced wordSpacing charSpacing bytes =>
        exact same_bind (hset h (.wordSpacing wordSpacing)) fun _ _ _ hn =>
          same_bind (hset hn (.charSpacing charSpacing)) fun _ _ _ hn =>
            same_bind (same_nextLine hn _) fun t _ _ hn => same_showText hn bytes t
  unfold write
  by_cases hactive : frame.text.active = true
  · simp only [hactive, if_true]
    exact same_bind hopen fun _ _ _ hn => same_pure hn _
  · simp only [hactive]
    exact same_pure h frame

/-! ### Looking things up -/

/-- A font is selected alike if the same is found under its name. -/
theorem same_selectFont (h : L.Holds m m') {name : String}
    (hfind : ctx.library.findFont m.scopes name = ctx'.library.findFont m'.scopes name)
    (size : Float) :
    L.Same ((selectFont ctx name size).run m) ((selectFont ctx' name size).run m') := by
  unfold selectFont
  simp only [run_machine_bind]
  exact same_bind (same_ofExcept h hfind) fun font _ _ hn =>
    same_set hn (GState.passive_font font size)

/-- Parameters are set alike if fonts among them are found alike. They are looked up one by one,
each on machines that may have changed by then; hence the assumption for all like machines. -/
theorem same_applyParameters (h : L.Holds m m') {parameters : List Parameter}
    (hfind : ∀ name size, .font name size ∈ parameters → ∀ n n', L.rest n n' →
      ctx.library.findFont n.scopes name = ctx'.library.findFont n'.scopes name) :
    L.Same ((applyParameters ctx parameters).run m) ((applyParameters ctx' parameters).run m') := by
  induction parameters generalizing m m' with
  | nil => exact same_pure h ()
  | cons parameter rest ih =>
      have hrest := fun name size hmem => hfind name size (List.mem_cons_of_mem parameter hmem)
      cases parameter with
      | set setting =>
          exact same_bind (same_set h (GState.passive_apply setting)) fun _ _ _ hn => ih hn hrest
      | font name size =>
          have hname := hfind name size List.mem_cons_self m m' h.rest
          exact same_bind (same_selectFont h hname size) fun _ _ _ hn => ih hn hrest

/-- An image is drawn alike, in like states. -/
theorem same_drawImage (h : L.Holds m m') (image : Image) :
    L.Same ((drawImage image).run m) ((drawImage image).run m') :=
  same_emit h (.image h.current)

/-- What drawing an inline image comes to, with the request in front: there is one if there is a
scope. -/
theorem run_drawInlineImage (dict : Dict) (data : Bytes) (m : Machine σ) :
    (drawInlineImage ctx dict data).run m =
      ((do drawImage (← ofExcept (ctx.library.inlineImage m.scopes dict data)) :
        Action σ Unit).run m).after
        (m.scopes.head?.elim [] fun scope =>
          [.event (.inlineImage (ctx.library.label scope) dict data)]) := by
  unfold drawInlineImage
  rw [run_machine_bind]
  generalize m.scopes = scopes
  cases scopes <;> rfl

/-- An inline image is drawn alike if it is decoded alike and if the requests are alike. The latter
is an assumption on traces, since the scopes in which it is asked for may have different labels. -/
theorem same_drawInlineImage (h : L.Holds m m') {dict : Dict} {data : Bytes}
    (hfind : ctx.library.inlineImage m.scopes dict data =
      ctx'.library.inlineImage m'.scopes dict data)
    (hlabel : L.trace
      (m.scopes.head?.elim [] fun scope =>
        [.event (.inlineImage (ctx.library.label scope) dict data)])
      (m'.scopes.head?.elim [] fun scope =>
        [.event (.inlineImage (ctx'.library.label scope) dict data)])) :
    L.Same ((drawInlineImage ctx dict data).run m) ((drawInlineImage ctx' dict data).run m') := by
  rw [run_drawInlineImage, run_drawInlineImage]
  exact (same_bind (same_ofExcept h hfind) fun image _ _ hn => same_drawImage hn image).after hlabel

/-- A color space is selected alike if the same is found, and if its initial ink may go into a
state. -/
theorem same_selectSpace (h : L.Holds m m') {name : String}
    (hfind : ctx.library.spaceOf m.scopes name = ctx'.library.spaceOf m'.scopes name)
    (hink : ∀ space, ctx.library.spaceOf m.scopes name = .ok space →
      L.ink (Ink.initial space) (Ink.initial space)) (side : Side) :
    L.Same ((selectSpace ctx side name).run m) ((selectSpace ctx' side name).run m') := by
  rw [run_selectSpace, run_selectSpace, ← hfind]
  cases hspace : ctx.library.spaceOf m.scopes name with
  | error fault => exact same_fail h fault
  | ok space => exact same_modifyState h (h.current.setInk side (hink space hspace))

/-- A form goes alike if it is passed over in both runs, or if in both what is seen of it is alike,
and what it leaves. Its program saves the state and restores it, so that nothing else need be
compared. -/
theorem same_runForm {call call' : Bytes → Action σ Unit}
    (hcall : ∀ floor content, Keeps ctx floor anything (call content))
    (hcall' : ∀ floor content, Keeps ctx' floor anything (call' content)) (h : L.Holds m m')
    {form form' : Form σ} (hid : form.identity ∈ m.forms ↔ form'.identity ∈ m'.forms)
    (hform : form.identity ∉ m.forms →
      let o := (call form.content).run (m.enterForm form)
      let o' := (call' form'.content).run (m'.enterForm form')
      L.trace
        (m.stack.current.entering form.matrix (some form.bbox) ++
          (o.trace ++ o.machine.stack.leaving m.stack.depth))
        (m'.stack.current.entering form'.matrix (some form'.bbox) ++
          (o'.trace ++ o'.machine.stack.leaving m'.stack.depth)) ∧
      L.Holds (m.returned o.machine) (m'.returned o'.machine)) :
    L.Same ((runForm call form).run m) ((runForm call' form').run m') := by
  by_cases hm : form.identity ∈ m.forms
  · rw [run_runForm_of_mem m hm, run_runForm_of_mem m' (hid.mp hm)]
    exact .ok L.laws.trace_nil ⟨rfl, h⟩
  · obtain ⟨htrace, hreturned⟩ := hform hm
    rw [run_runForm_eq hcall hm, run_runForm_eq hcall' fun hm' => hm (hid.mpr hm')]
    exact .ok htrace ⟨rfl, hreturned⟩

end Action

/-! ### Commands -/

/-- Whether a command does **nothing but what is alike in every likeness**. The others save and
restore states, read or change the current point, or run nested programs. -/
def Command.isSteady : Command → Bool
  | .save | .restore | .construct _ | .color _ _ _ | .invoke _ => false
  | _ => true

/-- A command **agrees** in two contexts if on like machines it finds the same, and what it makes of
it may go into a state. -/
def Command.Agrees (L : Likeness σ) (ctx ctx' : Context σ) : Command → Prop
  | .font name _ => ∀ m m', L.rest m m' →
    ctx.library.findFont m.scopes name = ctx'.library.findFont m'.scopes name
  | .extGState name => ∀ m m', L.rest m m' →
    ctx.library.findExtGState m.scopes name = ctx'.library.findExtGState m'.scopes name ∧
    ∀ dict, ctx.library.findExtGState m.scopes name = .ok dict →
      ∀ name size, .font name size ∈ Parameter.ofDict dict → ∀ n n', L.rest n n' →
        ctx.library.findFont n.scopes name = ctx'.library.findFont n'.scopes name
  | .space _ name => ∀ m m', L.rest m m' →
    ctx.library.spaceOf m.scopes name = ctx'.library.spaceOf m'.scopes name ∧
    ∀ space, ctx.library.spaceOf m.scopes name = .ok space →
      L.ink (Ink.initial space) (Ink.initial space)
  | .device _ model c => L.ink ⟨.solid c, model⟩ ⟨.solid c, model⟩
  | .shade name => ∀ m m', L.rest m m' →
    ctx.library.findShading m.scopes name = ctx'.library.findShading m'.scopes name
  | _ => True

/-- Every command finds the same in one library and the same scopes. The colors that it selects may
go into a state if they are like themselves. -/
theorem Command.agrees_of_scopes_eq {L : Likeness σ} {ctx ctx' : Context σ}
    (hlib : ctx.library = ctx'.library) (hscopes : ∀ n n', L.rest n n' → n.scopes = n'.scopes)
    {command : Command}
    (hspace : ∀ scopes name space, ctx.library.spaceOf scopes name = .ok space →
      L.ink (Ink.initial space) (Ink.initial space))
    (hdevice : ∀ side model c, command = .device side model c →
      L.ink ⟨.solid c, model⟩ ⟨.solid c, model⟩) :
    command.Agrees L ctx ctx' := by
  cases command with
  | font name size => exact fun n n' hn => by rw [hlib, hscopes n n' hn]
  | extGState name =>
      refine fun n n' hn => ⟨by rw [hlib, hscopes n n' hn], ?_⟩
      exact fun dict _ name size _ k k' hk => by rw [hlib, hscopes k k' hk]
  | space side name =>
      refine fun n n' hn => ⟨by rw [hlib, hscopes n n' hn], ?_⟩
      exact hspace n.scopes name
  | device side model c => exact hdevice side model c rfl
  | shade name => exact fun n n' hn => by rw [hlib, hscopes n n' hn]
  | _ => trivial

namespace Action

variable {L : Likeness σ} {ctx ctx' : Context σ} {m m' : Machine σ}

/-- Commands that are steady go alike in any likeness, if they agree. Nested programs do not come
in, so that `call` and `call'` are arbitrary. -/
theorem same_perform (h : L.Holds m m') {command : Command} (hsteady : command.isSteady = true)
    (hagrees : command.Agrees L ctx ctx') (call call' : Bytes → Action σ Unit) (frame : Frame) :
    L.Same ((perform ctx call frame command).run m)
      ((perform ctx' call' frame command).run m') := by
  cases command with
  | save | restore | construct _ | color _ _ _ | invoke _ => cases hsteady
  | set setting =>
      exact same_bind (same_set h (GState.passive_apply setting)) fun _ _ _ hn => same_pure hn frame
  | font name size =>
      exact same_bind (same_selectFont h (hagrees m m' h.rest) size) fun _ _ _ hn =>
        same_pure hn frame
  | extGState name =>
      obtain ⟨hfind, hfonts⟩ := hagrees m m' h.rest
      rw [perform, perform, run_machine_bind, run_machine_bind, ← hfind]
      cases hdict : ctx.library.findExtGState m.scopes name with
      | error fault => exact same_fail h fault
      | ok dict =>
          rw [run_ok_bind, run_ok_bind]
          exact same_bind (same_applyParameters h (hfonts dict hdict)) fun _ _ _ hn =>
            same_pure hn frame
  | paint painting => exact same_paint h painting frame
  | clip rule => exact same_pure h _
  | beginText =>
      rw [perform, perform, beginText, run_state_bind, run_state_bind, h.current.ctm_eq]
      exact same_pure h _
  | endText => exact same_pure h _
  | write step => exact same_write h step frame
  | space side name =>
      obtain ⟨hfind, hink⟩ := hagrees m m' h.rest
      exact same_bind (same_selectSpace h hfind hink side) fun _ _ _ hn => same_pure hn frame
  | device side space color =>
      exact same_bind (same_modifyState h (h.current.setInk side hagrees)) fun _ _ _ hn =>
        same_pure hn frame
  | shade name => exact same_shade h (hagrees m m' h.rest) frame
  | beginCompatibility => exact same_pure h _
  | endCompatibility =>
      simp only [perform]
      cases frame.compatibility with
      | zero => exact same_fail h _
      | succ n => exact same_pure h _
  | ignore => exact same_pure h frame
  | unknown spelling =>
      exact same_bind (same_emit h (.plain rfl)) fun _ _ _ hn => same_pure hn frame

/-- Instructions go alike if their commands do, and inline images. What is decoded is the same, for
it does not depend on the machine. -/
theorem same_step (h : L.Holds m m') {call call' : Bytes → Action σ Unit} {frame : Frame}
    {i : Instruction}
    (hperform : ∀ op operands command, i = .operate op operands →
      Command.decode op operands = .ok command →
      L.Same ((perform ctx call frame command).run m) ((perform ctx' call' frame command).run m'))
    (hdraw : ∀ dict data, i = .drawImage dict data →
      L.Same ((drawInlineImage ctx dict data).run m) ((drawInlineImage ctx' dict data).run m')) :
    L.Same ((step ctx call frame i).run m) ((step ctx' call' frame i).run m') := by
  cases i with
  | operate op operands =>
      rw [step, step]
      cases hcommand : Command.decode op operands with
      | error fault => exact same_fail h fault
      | ok command => exact hperform op operands command rfl hcommand
  | drawImage dict data =>
      exact same_bind (hdraw dict data rfl) fun _ _ _ hn => same_pure hn frame
  | misspelled flaw => exact same_fail h _

/-- Instructions go alike, one after the other, if each of them does wherever it comes: on any like
machines, and with any frame. -/
theorem same_steps {call call' : Bytes → Action σ Unit} {is : List Instruction}
    (hstep : ∀ i ∈ is, ∀ frame n n', L.Holds n n' →
      L.Same ((step ctx call frame i).run n) ((step ctx' call' frame i).run n'))
    (h : L.Holds m m') (frame : Frame) :
    L.Same ((steps ctx call frame is).run m) ((steps ctx' call' frame is).run m') := by
  induction is generalizing m m' frame with
  | nil => exact same_pure h frame
  | cons i is ih =>
      refine same_bind (hstep i List.mem_cons_self frame m m' h) fun frame' n n' hn => ?_
      exact ih (fun j hj => hstep j (List.mem_cons_of_mem i hj)) hn frame'

/-- A content stream goes alike if it is the same program in both runs, and if its instructions go
alike from a fresh frame. What is compared at the end may differ for faults. -/
theorem alike_runContent {call call' : Bytes → Action σ Unit} {content : Bytes}
    {faulty good : Machine σ → Machine σ → Prop} (hfaulty : faulty m m')
    (hprogram : ctx.program? m.scopes content = ctx'.program? m'.scopes content)
    (hdepth : m.stack.depth = m'.stack.depth)
    (hsteps : ∀ p, ctx.program? m.scopes content = .ok p →
      Outcome.Alike L.trace faulty (fun _ _ n n' => good n n')
        ((steps ctx call { base := m.stack.depth } p.instructions).run m)
        ((steps ctx' call' { base := m.stack.depth } p.instructions).run m')) :
    Outcome.Alike L.trace faulty (fun _ _ n n' => good n n')
      ((runContent ctx call content).run m) ((runContent ctx' call' content).run m') := by
  rw [run_runContent, run_runContent, ← hprogram, ← hdepth]
  cases hp : ctx.program? m.scopes content with
  | error fault => exact .error fault L.laws.trace_nil hfaulty
  | ok p =>
      have hrun := hsteps p hp
      simp only
      generalize (steps ctx call { base := m.stack.depth } p.instructions).run m = o at hrun
      generalize (steps ctx' call' { base := m.stack.depth } p.instructions).run m' = o' at hrun
      cases hrun with
      | ok ht h => exact .ok ht h
      | error fault ht h => exact .error fault ht h

end Action

/-! ### Restoring -/

namespace Action

variable {frame : Frame} {m : Machine σ}

/-- To restore fails if the stack is no deeper than where the program began. -/
theorem run_restoreOwn_of_le (h : m.stack.depth ≤ frame.base) :
    (restoreOwn frame).run m = ⟨.error .stackUnderflow, m, []⟩ := by
  rw [restoreOwn, run_machine_bind, if_pos h, run_fail]

/-- To restore fails if nothing is saved, wherever the program began. -/
theorem run_restoreOwn_of_saved_eq_nil (h : m.stack.saved = []) :
    (restoreOwn frame).run m = ⟨.error .stackUnderflow, m, []⟩ := by
  have hrestore : m.stack.restore? = none := by simp [GStack.restore?, h]
  rw [restoreOwn, run_machine_bind]
  split
  · rfl
  · exact run_restore_of_none hrestore

/-- A program restores a state that it has saved itself, and the restored state is announced. -/
theorem run_restoreOwn {gs : GState} {saved : List GState} (hbase : frame.base < m.stack.depth)
    (h : m.stack.saved = gs :: saved) :
    (restoreOwn frame).run m =
      ⟨.ok (), { m with stack := ⟨gs, saved⟩ }, [.event (.restore gs)]⟩ := by
  have hrestore : m.stack.restore? = some ⟨gs, saved⟩ := by simp [GStack.restore?, h]
  rw [restoreOwn, run_machine_bind, if_neg (Nat.not_le_of_lt hbase), run_restore hrestore]

end Action

/-! ### Even likenesses -/

/-- A likeness is **even** if all states on the stack are compared in the same way, and their
current points are the same. -/
structure Likeness.Even (L : Likeness σ) : Prop where
  saved_eq : L.saved = List.Forall₂ L.Like
  point_eq : L.point = Eq

namespace Action

variable {L : Likeness σ} (hL : L.Even) {m m' : Machine σ}

include hL

/-- To save goes alike: the saved states are compared like the current ones. -/
theorem same_save (h : L.Holds m m') : L.Same (save.run m) (save.run m') := by
  have hsaved : L.saved m.stack.save.saved m'.stack.save.saved :=
    hL.saved_eq ▸ .cons h.current (hL.saved_eq ▸ h.saved)
  exact .ok (L.laws.trace_event (.save h.current)) ⟨rfl, h.current, hsaved, L.rest_stack _ _ h.rest⟩

/-- To restore goes alike, since the stacks are equally deep: it fails on both or on neither, and
what is restored was compared when it was saved. -/
theorem same_restoreOwn (h : L.Holds m m') (frame : Frame) :
    L.Same ((restoreOwn frame).run m) ((restoreOwn frame).run m') := by
  have hsaved : List.Forall₂ L.Like m.stack.saved m'.stack.saved := hL.saved_eq ▸ h.saved
  have hdepth : m.stack.depth = m'.stack.depth := congrArg (· + 1) hsaved.length_eq
  rcases Nat.lt_or_ge frame.base m.stack.depth with hbase | hbase
  · rcases hs : m.stack.saved with _ | ⟨gs, saved⟩
    · have hs' : m'.stack.saved = [] := by simpa [hs] using hsaved
      rw [run_restoreOwn_of_saved_eq_nil hs, run_restoreOwn_of_saved_eq_nil hs']
      exact same_fail h _
    · rw [hs] at hsaved
      obtain ⟨gs', saved', hgs, hrest, hs'⟩ := List.forall₂_cons_left_iff.mp hsaved
      rw [run_restoreOwn hbase hs, run_restoreOwn (hdepth ▸ hbase) hs']
      exact .ok (L.laws.trace_event (.restore hgs))
        ⟨rfl, hgs, hL.saved_eq ▸ hrest, L.rest_stack _ _ h.rest⟩
  · rw [run_restoreOwn_of_le hbase, run_restoreOwn_of_le (hdepth ▸ hbase)]
    exact same_fail h _

/-- A construction step goes alike from the same current point, and leaves the same again. -/
theorem same_construct (h : L.Holds m m') (step : Construction) (frame : Frame) :
    L.Same ((construct step frame).run m) ((construct step frame).run m') := by
  have hpoint : m.stack.current.point = m'.stack.current.point :=
    hL.point_eq ▸ h.current.point
  rw [construct, run_state_bind, run_state_bind, ← hpoint]
  generalize step.apply frame.path m.stack.current.point = applied
  obtain ⟨path, point⟩ := applied
  exact same_bind (same_modifyState h (h.current.setPoint (hL.point_eq ▸ rfl))) fun _ _ _ hn =>
    same_pure hn _

/-- Commands go alike in an even likeness, if those do that may run nested programs. Of all the
others each has its lemma before. -/
theorem same_perform_of_even {ctx ctx' : Context σ} (h : L.Holds m m') {command : Command}
    (hagrees : command.Agrees L ctx ctx') {call call' : Bytes → Action σ Unit} (frame : Frame)
    (hcolor : ∀ side op operands, command = .color side op operands →
      L.Same ((selectColor ctx call side op operands).run m)
        ((selectColor ctx' call' side op operands).run m'))
    (hinvoke : ∀ name, command = .invoke name →
      L.Same ((invoke ctx call name).run m) ((invoke ctx' call' name).run m')) :
    L.Same ((perform ctx call frame command).run m)
      ((perform ctx' call' frame command).run m') := by
  cases command with
  | save => exact same_bind (same_save hL h) fun _ _ _ hn => same_pure hn frame
  | restore => exact same_bind (same_restoreOwn hL h frame) fun _ _ _ hn => same_pure hn frame
  | construct step => exact same_construct hL h step frame
  | color side op operands =>
      exact same_bind (hcolor side op operands rfl) fun _ _ _ hn => same_pure hn frame
  | invoke name => exact same_bind (hinvoke name rfl) fun _ _ _ hn => same_pure hn frame
  | _ => exact same_perform h rfl hagrees call call' frame

end Action

/-! ### Exact likenesses -/

/-- A likeness is **exact** if the stacks are the same, state by state. -/
structure Likeness.Exact (L : Likeness σ) : Prop where
  ink_eq : L.ink = Eq
  point_eq : L.point = Eq
  saved_eq : L.saved = List.Forall₂ L.Like

namespace Likeness.Exact

variable {L : Likeness σ} (hL : L.Exact) {m m' : Machine σ}

include hL

/-- A likeness that is exact is even. -/
theorem even : L.Even :=
  ⟨hL.saved_eq, hL.point_eq⟩

/-- States are alike in an exact likeness if they are equal. -/
theorem like_iff {gs gs' : GState} : L.Like gs gs' ↔ gs = gs' := by
  rw [Likeness.Like, hL.ink_eq, hL.point_eq, GState.like_eq_iff]

/-- Machines are alike in an exact likeness if their stacks are the same and the rest is alike. So a
likeness of this kind is a relation of what is not on the stack. -/
theorem holds_iff : L.Holds m m' ↔ m.stack = m'.stack ∧ L.rest m m' := by
  constructor
  · intro h
    have hcurrent : m.stack.current = m'.stack.current := hL.like_iff.mp h.current
    have hforall : List.Forall₂ L.Like m.stack.saved m'.stack.saved := hL.saved_eq ▸ h.saved
    have hsaved : m.stack.saved = m'.stack.saved :=
      List.forall₂_eq_eq_eq ▸ hforall.imp fun _ _ => hL.like_iff.mp
    refine ⟨?_, h.rest⟩
    calc m.stack = ⟨m.stack.current, m.stack.saved⟩ := rfl
      _ = m'.stack := by rw [hcurrent, hsaved]
  · rintro ⟨hstack, hrest⟩
    refine ⟨hL.like_iff.mpr (by rw [hstack]), ?_, hrest⟩
    rw [hstack, hL.saved_eq]
    exact List.forall₂_same.mpr fun _ _ => hL.like_iff.mpr rfl

/-- Every command agrees in one library and the same scopes, since equal colors are like
themselves. -/
theorem agrees {ctx ctx' : Context σ} (hlib : ctx.library = ctx'.library)
    (hscopes : ∀ n n', L.rest n n' → n.scopes = n'.scopes) (command : Command) :
    command.Agrees L ctx ctx' := by
  refine command.agrees_of_scopes_eq hlib hscopes (fun _ _ _ _ => ?_) fun _ _ _ _ => ?_
  all_goals rw [hL.ink_eq]

end Likeness.Exact

end ContentStream
