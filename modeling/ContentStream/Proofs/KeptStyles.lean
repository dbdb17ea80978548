import ContentStream.Interpreter.Nested
import ContentStream.Interpreter.Shading

/-!
# Styles that are kept

A stroke keeps the style that was made of it until one of its parameters is set, and a copy of a
graphics state takes along what is kept. In the course of time there are many states, copied from
one another and set in different ways since then; some keep a style and some do not, and one may
keep a style that was made before it was copied.

None of this shows. The style that a state gives is always the one that its present parameters come
to, and is the same as if no style was ever kept. What carries this is an invariant of each state by
itself: the style that is kept, if there is one, is that of the parameters that are in force.

## Main definitions

* `StrokeParameters`: strokes as they are set, with no style kept.
* `Stroke.UpToDate`: the invariant.
* `Copying`: the copies that are made of graphics states.
* `Keeping`: a way to keep the parameters of strokes; `Keeping.withStyles` is that of graphics
  states, and `Keeping.bare` is the one with nothing kept.
* `Keeping.run`: settings, readings and copyings in any order.

## Main results

* `Stroke.UpToDate.realize_fst`: a state that is up to date gives its present style.
* `Keeping.Agrees.step`: setting, reading and copying come to the same, styles kept or not.
* `styles_present`: so does any sequence of them.
-/

namespace ContentStream

/-! ### Parameters -/

/-- The **parameters of strokes**, as they are set. -/
structure StrokeParameters where
  width : Float := 1.0
  cap : LineCap := .butt
  join : LineJoin := .miter
  miterLimit : Float := 10.0
  dash : Dash := ⟨[], 0.0⟩

namespace StrokeParameters

/-- The **style** that parameters come to, said anew and not by way of strokes that keep one. The
width is at least zero and the miter limit at least one, whatever was set, a NaN included. Caps and
joins are as they were set. The dashes are as they were set, too, unless there are none, one of them
is negative, or all of them are zero: then the line is solid. -/
def style (p : StrokeParameters) : StrokeStyle where
  width := if 0.0 < p.width then p.width else 0.0
  cap := p.cap
  join := p.join
  miterLimit := if 1.0 < p.miterLimit then p.miterLimit else 1.0
  dash :=
    if p.dash.lengths = [] ∨ (∃ x ∈ p.dash.lengths, x < 0.0) ∨
        (∀ x ∈ p.dash.lengths, (x == 0.0) = true) then none
    else some p.dash

/-- The parameters **after a setting**. A code that stands for nothing, and a setting of something
else, leave them as they are. -/
def after (p : StrokeParameters) : Setting → StrokeParameters
  | .lineWidth width => { p with width }
  | .lineCap code => { p with cap := (LineCap.ofCode? code).getD p.cap }
  | .lineJoin code => { p with join := (LineJoin.ofCode? code).getD p.join }
  | .miterLimit limit => { p with miterLimit := limit }
  | .dash pattern => { p with dash := pattern }
  | _ => p

end StrokeParameters

/-- The larger of two machine numbers is the second if it is greater than the first, and else the
first, provided that the first is no NaN. -/
theorem Scalar.larger_eq {a : Float} (h : a.isNaN = false) (b : Float) :
    larger a b = if a < b then b else a := by
  change (if a < b then b else if a.isNaN = true then b else a) = _
  rw [h]
  rfl

namespace Stroke

/-- The **parameters** of a stroke. -/
def parameters (s : Stroke) : StrokeParameters where
  width := s.width
  cap := s.cap
  join := s.join
  miterLimit := s.miterLimit
  dash := s.dash

/-- The style that a stroke computes is the one that its parameters come to. The numbers agree since
zero and one are themselves no NaN; dashes agree since both ask the same of their lengths. -/
theorem style_eq (s : Stroke) : s.style = s.parameters.style := by
  have hsolid : s.dash.isSolid = true ↔ s.dash.lengths = [] ∨ (∃ x ∈ s.dash.lengths, x < 0.0) ∨
      (∀ x ∈ s.dash.lengths, (x == 0.0) = true) := by
    simp only [Dash.isSolid, Bool.or_eq_true, List.isEmpty_iff, List.any_eq_true, List.all_eq_true,
      decide_eq_true_eq, or_assoc]
  have hdash : (if s.dash.isSolid then none else some s.dash) = s.parameters.style.dash :=
    ite_congr (propext hsolid) (fun _ => rfl) fun _ => rfl
  rw [style, hdash, Scalar.larger_eq (by decide +kernel),
    Scalar.larger_eq (by decide +kernel)]
  rfl

/-- A stroke is **up to date** if the style that it keeps is that of its parameters. -/
def UpToDate (s : Stroke) : Prop :=
  ∀ kept, s.realized = some kept → kept = s.style

variable {s : Stroke}

/-- A stroke that keeps no style is up to date. -/
theorem UpToDate.of_none (h : s.realized = none) : s.UpToDate := by
  intro kept hkept
  rw [h] at hkept
  cases hkept

/-- A stroke that keeps no style makes one when it is asked, and keeps it. -/
theorem realize_of_none (h : s.realized = none) :
    s.realize = (s.style, { s with realized := some s.style }) := by
  rw [realize, h]

/-- A stroke that keeps a style gives it, and stays as it is. -/
theorem realize_of_some {kept : StrokeStyle} (h : s.realized = some kept) :
    s.realize = (kept, s) := by
  rw [realize, h]

/-- A stroke that is up to date gives its present style. -/
theorem UpToDate.realize_fst (h : s.UpToDate) : s.realize.1 = s.style := by
  cases hkept : s.realized with
  | none => rw [realize_of_none hkept]
  | some kept =>
      rw [realize_of_some hkept]
      exact h kept hkept

/-- A stroke that was asked for its style is up to date if it was before. -/
theorem UpToDate.realize_snd (h : s.UpToDate) : s.realize.2.UpToDate := by
  cases hkept : s.realized with
  | none =>
      rw [realize_of_none hkept]
      rintro kept ⟨⟩
      rfl
  | some kept =>
      rw [realize_of_some hkept]
      exact h

/-- Asking for the style sets nothing. -/
theorem parameters_realize (s : Stroke) : s.realize.2.parameters = s.parameters := by
  cases hkept : s.realized with
  | none =>
      rw [realize_of_none hkept]
      rfl
  | some kept => rw [realize_of_some hkept]

end Stroke

/-! ### Setting and copying -/

namespace Setting

/-- A setting sets the parameters as it should: codes that stand for nothing set nothing in
either. -/
theorem parameters_apply (gs : GState) (setting : Setting) :
    (setting.apply gs).line.parameters = gs.line.parameters.after setting := by
  cases setting with
  | lineCap code =>
      rw [apply, StrokeParameters.after]
      cases LineCap.ofCode? code <;> rfl
  | lineJoin code =>
      rw [apply, StrokeParameters.after]
      cases LineJoin.ofCode? code <;> rfl
  | renderMode code =>
      rw [apply]
      cases RenderMode.ofCode? code <;> rfl
  | _ => rfl

/-- A setting leaves the stroke alone or drops the style that it keeps. There are five settings of
strokes, two of which are by a code. -/
theorem line_apply (gs : GState) (setting : Setting) :
    (setting.apply gs).line = gs.line ∨ (setting.apply gs).line.realized = none := by
  cases setting with
  | lineWidth | miterLimit | dash => exact .inr rfl
  | lineCap code =>
      rw [apply]
      cases LineCap.ofCode? code with
      | none => exact .inl rfl
      | some cap => exact .inr rfl
  | lineJoin code =>
      rw [apply]
      cases LineJoin.ofCode? code with
      | none => exact .inl rfl
      | some join => exact .inr rfl
  | renderMode code =>
      rw [apply]
      cases RenderMode.ofCode? code <;> exact .inl rfl
  | _ => exact .inl rfl

/-- So a stroke is up to date after any setting: what it keeps was dropped, or is not affected. -/
theorem upToDate_apply {gs : GState} (h : gs.line.UpToDate) (setting : Setting) :
    (setting.apply gs).line.UpToDate := by
  obtain hline | hnone := line_apply gs setting
  · rw [hline]
    exact h
  · exact .of_none hnone

end Setting

/-- What a graphics state is **copied for**. -/
inductive Copying where
  /-- To be saved, as by `GStack.save`. -/
  | save
  /-- To start a sub-program in, as `Action.subProgram` does. -/
  | nest (transform : Matrix Float) (clip : Option (Rect Float))
  /-- To paint a shading in, as `Action.shade` does. -/
  | shade (shading : Shading)

/-- The **copy** of a graphics state. -/
def GState.copy (gs : GState) : Copying → GState
  | .save => gs
  | .nest transform clip => gs.nested transform clip
  | .shade shading => gs.setInk .fill ⟨.shading shading Matrix.identity, shading.space⟩

/-- A copy has the same stroke, and keeps the same style. -/
theorem GState.line_copy (gs : GState) (copying : Copying) : (gs.copy copying).line = gs.line := by
  cases copying with
  | save => rfl
  | nest transform clip => cases clip <;> rfl
  | shade shading => rfl

/-! ### Many states -/

/-- A way to **keep the parameters of strokes**, in values of a type `α`. -/
structure Keeping (α : Type) where
  set : α → Setting → α
  /-- The style, and the value after it was read. -/
  read : α → StrokeStyle × α
  copy : α → Copying → α

/-- What is done with **one of many values**. -/
inductive Deed where
  | set (setting : Setting)
  | read
  | copy (copying : Copying)

/-- A **deed**, and the number of the value that it is done with. -/
structure Handling where
  number : Nat
  deed : Deed

/-- The **values** that there are, in the order in which they came to be, and the styles that were
**read** of them so far. -/
structure Handled (α : Type) where
  values : List α
  reads : List StrokeStyle := []

namespace Keeping

/-- Graphics states keep the parameters **together with a style**. -/
def withStyles : Keeping GState where
  set gs setting := setting.apply gs
  read gs := (gs.line.realize.1, { gs with line := gs.line.realize.2 })
  copy := GState.copy

/-- Nothing is kept **but the parameters**. The style is made of them each time. -/
def bare : Keeping StrokeParameters where
  set := StrokeParameters.after
  read p := (p.style, p)
  copy p _ := p

variable {α : Type}

/-- **One handling**. A copy is a new value, and all others stay in their places. -/
def step (k : Keeping α) (x : Handled α) (h : Handling) : Handled α :=
  match x.values[h.number]? with
  | none => x
  | some a =>
    match h.deed with
    | .set setting => { x with values := x.values.set h.number (k.set a setting) }
    | .read => ⟨x.values.set h.number (k.read a).2, x.reads ++ [(k.read a).1]⟩
    | .copy copying => { x with values := x.values ++ [k.copy a copying] }

/-- Handlings **one after the other**. -/
def run (k : Keeping α) (x : Handled α) (hs : List Handling) : Handled α :=
  hs.foldl k.step x

/-- Graphics states **agree** with bare parameters: they are up to date, have these parameters, and
the same styles were read of both. -/
structure Agrees (x : Handled GState) (y : Handled StrokeParameters) : Prop where
  reads : x.reads = y.reads
  values : x.values.map (fun gs => gs.line.parameters) = y.values
  upToDate : ∀ gs ∈ x.values, gs.line.UpToDate

variable {x : Handled GState} {y : Handled StrokeParameters}

/-- A single state of default stroke parameters agrees with the default parameters. -/
theorem agrees_under (ctm : Matrix Float) : Agrees ⟨[GState.under ctm], []⟩ ⟨[{}], []⟩ where
  reads := rfl
  values := rfl
  upToDate gs hgs := by
    obtain rfl := List.mem_singleton.mp hgs
    exact .of_none rfl

namespace Agrees

/-- Setting another state in a place, whose parameters are set in the same place. -/
theorem set (h : Agrees x y) (n : Nat) {gs : GState} {p : StrokeParameters}
    (hp : gs.line.parameters = p) (hgs : gs.line.UpToDate) :
    Agrees { x with values := x.values.set n gs } { y with values := y.values.set n p } where
  reads := h.reads
  values := by rw [List.map_set, h.values, hp]
  upToDate gs' hgs' := by
    obtain hgs' | rfl := List.mem_or_eq_of_mem_set hgs'
    · exact h.upToDate gs' hgs'
    · exact hgs

/-- One more state, with one more set of parameters. -/
theorem concat (h : Agrees x y) {gs : GState} {p : StrokeParameters}
    (hp : gs.line.parameters = p) (hgs : gs.line.UpToDate) :
    Agrees { x with values := x.values ++ [gs] } { y with values := y.values ++ [p] } where
  reads := h.reads
  values := by rw [List.map_append, h.values, List.map_singleton, hp]
  upToDate gs' hgs' := by
    obtain hgs' | hgs' := List.mem_append.mp hgs'
    · exact h.upToDate gs' hgs'
    · rwa [List.mem_singleton.mp hgs']

/-- The same style is read of both. -/
theorem read (h : Agrees x y) {style style' : StrokeStyle} (hstyle : style = style') :
    Agrees { x with reads := x.reads ++ [style] } { y with reads := y.reads ++ [style'] } where
  reads := by rw [h.reads, hstyle]
  values := h.values
  upToDate := h.upToDate

/-- Setting, reading and copying come to the same, styles kept or not. What is read is the style
that is kept, and being up to date says that it is the one that would be made. -/
theorem step (h : Agrees x y) (handling : Handling) :
    Agrees (withStyles.step x handling) (bare.step y handling) := by
  obtain ⟨number, deed⟩ := handling
  have hplace : y.values[number]? = x.values[number]?.map fun gs => gs.line.parameters := by
    rw [← h.values, List.getElem?_map]
  rw [Keeping.step, Keeping.step, hplace]
  cases hgs : x.values[number]? with
  | none => exact h
  | some gs =>
      have hdate : gs.line.UpToDate := h.upToDate gs (List.mem_of_getElem? hgs)
      cases deed with
      | set setting =>
          exact h.set number (setting.parameters_apply gs) (setting.upToDate_apply hdate)
      | read =>
          have hread : gs.line.realize.1 = gs.line.parameters.style := by
            rw [hdate.realize_fst, Stroke.style_eq]
          exact (h.set number gs.line.parameters_realize hdate.realize_snd).read hread
      | copy copying =>
          have hline := gs.line_copy copying
          exact h.concat (congrArg Stroke.parameters hline) (by rwa [← hline] at hdate)

/-- So do any number of handlings, by induction on them. -/
theorem run (h : Agrees x y) (hs : List Handling) :
    Agrees (withStyles.run x hs) (bare.run y hs) := by
  induction hs generalizing x y with
  | nil => exact h
  | cons handling hs ih => exact ih (h.step handling)

end Agrees

end Keeping

/-- **Styles are never stale.** Take a graphics state with default parameters, and set, read and
copy it and its copies in any order. What is read is the same as if each style was made of the
present parameters, which is done by a formula of its own (`StrokeParameters.style`); the parameters
are those that were set; and each of the states would now give the style of the parameters that it
has. -/
theorem styles_present (ctm : Matrix Float) (hs : List Handling) :
    let kept := Keeping.withStyles.run ⟨[GState.under ctm], []⟩ hs
    let bare := Keeping.bare.run ⟨[{}], []⟩ hs
    kept.reads = bare.reads ∧ kept.values.map (fun gs => gs.line.parameters) = bare.values ∧
      ∀ gs ∈ kept.values, gs.line.realize.1 = gs.line.parameters.style := by
  have hagrees := (Keeping.agrees_under ctm).run hs
  refine ⟨hagrees.reads, hagrees.values, fun gs hgs => ?_⟩
  rw [(hagrees.upToDate gs hgs).realize_fst, Stroke.style_eq]

/-- A width is read, set to four and read again, and so it is with dashes that are all zero: they
make a solid line. -/
example :
    ((Keeping.withStyles.run ⟨[GState.under Matrix.identity], []⟩
      [⟨0, .read⟩, ⟨0, .set (.lineWidth 4.0)⟩, ⟨0, .set (.dash ⟨[0.0, 0.0], 0.0⟩)⟩,
        ⟨0, .read⟩]).reads.map fun style => (style.width.toBits, style.dash.isNone)) =
      [((1.0 : Float).toBits, true), ((4.0 : Float).toBits, true)] := by
  decide +kernel

end ContentStream
