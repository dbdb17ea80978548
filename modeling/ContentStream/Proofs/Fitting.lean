import ContentStream.Proofs.Likeness
import ContentStream.Proofs.Moments
import ContentStream.Proofs.Operands

/-!
# Colors that fit

A solid paint and the color space that it was chosen in are set side by side, by operators of many
kinds. The paint *fits* the space if it has one number for each component. What is taken for a color
from the operands fits, and so does the initial color of a space, as long as the resources do not
name a space like one of the device and give it another number of components.

A run is compared with itself here: it is alike to itself if all states that it leads to fit, and
all that are seen of it. So what is said of two runs in general says of one that it fits.

## Main definitions

* `Ink.Fits`, `GState.Fits`, `Machine.Fits`, `Event.Fits`, `Outcome.Fits`: what it is to fit.
* `Library.NamesFit`: color spaces are what their names say.
* `fitting`: the likeness of a run that fits to itself.

## Main results

* `Command.fits_of_decode`: the operators that select device colors take the numbers that they need.
* `Library.fits_of_select`: so do those that select colors in the current space.
* `Tiling.fits_initialState_iff`: when the state fits that a cell starts in.
* `Action.fits_step`: an instruction fits if what is seen of the programs does that it calls.
-/

namespace ContentStream

variable {σ α : Type}

/-! ### Colors -/

/-- An ink **fits** if a solid paint has one number for each component of the color space. -/
def Ink.Fits (i : Ink) : Prop :=
  ∀ color, i.paint = .solid color → color.length = i.space.components

/-- Whether the **color of a paint** has a number of components, if it has a color. -/
def Paint.hasComponents (n : Nat) : Paint → Bool
  | .solid color => color.length == n
  | _ => true

/-- To fit is said of the paint alone, once the number of components is known. -/
theorem Ink.fits_iff {i : Ink} : i.Fits ↔ i.paint.hasComponents i.space.components = true := by
  obtain ⟨paint, space⟩ := i
  cases paint <;> simp [Fits, Paint.hasComponents]

instance (i : Ink) : Decidable i.Fits :=
  decidable_of_iff _ Ink.fits_iff.symm

/-- A device color **fits** if it has as many numbers as its space has components. -/
def Command.Fits : Command → Prop
  | .device _ model c => c.length = model.components
  | _ => True

/-- The operators that select a device color take as many numbers as it has components. They name
the space along with the color, and so the two cannot come apart. -/
theorem Command.fits_of_decode {op : Operator} {operands : List Operand} {command : Command}
    (h : Command.decode op operands = .ok command) : command.Fits := by
  cases Operator.AsksFor.of_decode h with
  | strokeGray | fillGray | strokeRgb | fillRgb | strokeCmyk | fillCmyk => rfl
  | _ => trivial

namespace ColorSpace

/-- A color space that is **named like one of the device or like a pattern space** has as many
components as that. -/
structure NameFits (space : ColorSpace) : Prop where
  cmyk : space.name = "DeviceCMYK" → space.components = 4
  pattern : space.name = "Pattern" → space.components = 1

/-- The initial color has one number for each component. It goes by the name of the space, which is
why the name has to be right. -/
theorem NameFits.length_initial {space : ColorSpace} (h : space.NameFits) :
    space.initial.length = space.components := by
  unfold initial
  split
  · rename_i hname
    exact (h.cmyk (beq_iff_eq.mp hname)).symm
  · split
    · rename_i hname
      exact (h.pattern (beq_iff_eq.mp hname)).symm
    · exact List.length_replicate

/-- So the initial color fits the space. -/
theorem NameFits.fits_initial {space : ColorSpace} (h : space.NameFits) :
    (Ink.initial space).Fits := by
  intro color hcolor
  obtain rfl := Paint.solid.inj hcolor
  exact h.length_initial

end ColorSpace

namespace Library

/-- Color spaces of a library have as many components **as their names say**. -/
def NamesFit (lib : Library σ) : Prop :=
  ∀ scope name space, lib.colorSpace scope name = some space → space.NameFits

variable {lib : Library σ}

/-- A space that is found under its name is one of the device, or one that the library knows. Of the
four names that are known in any case the components are checked. -/
theorem NamesFit.spaceOf (h : lib.NamesFit) {scopes : List σ} {name : String} {space : ColorSpace}
    (hspace : lib.spaceOf scopes name = .ok space) : space.NameFits := by
  unfold Library.spaceOf at hspace
  cases hpre : ColorSpace.predefined? name with
  | some space' =>
      rw [hpre] at hspace
      obtain rfl := Except.ok.inj hspace
      have hmem := List.mem_of_find?_eq_some hpre
      simp only [List.mem_cons, List.not_mem_nil, or_false] at hmem
      rcases hmem with rfl | rfl | rfl | rfl <;> exact ⟨by decide, by decide⟩
  | none =>
      rw [hpre] at hspace
      simp only [findColorSpace, find] at hspace
      split at hspace
      · rename_i found hfound
        obtain rfl := Except.ok.inj hspace
        obtain ⟨scope, -, hscope⟩ := List.exists_of_findSome?_eq_some hfound
        exact h scope name found hscope
      · cases hspace

/-- A color that is selected fits the space that it is selected in: as many numbers are taken as it
has components. Patterns fit any space, since no color is set with them. -/
theorem fits_of_select {scopes : List σ} {op : String} {space : ColorSpace}
    {operands : List Operand} {paint : Paint}
    (h : lib.select scopes op space operands = .ok (.paint paint)) : Ink.Fits ⟨paint, space⟩ := by
  unfold select at h
  split at h
  · rcases hname : (Take.name op).run operands with fault | ⟨name, rest⟩
    · simp [hname, Except.bind] at h
    · rcases hfind : lib.findPattern scopes name with fault | tiling | ⟨shading, matrix⟩
      · simp [hname, hfind, Except.bind] at h
      · rcases htint : Action.takeTint op space tiling rest with fault | tint <;>
          simp [hname, hfind, htint, Except.bind, Except.map] at h
      · obtain rfl : .shading shading matrix = paint := by
          simpa [hname, hfind, Except.bind] using h
        exact fun _ hcolor => by cases hcolor
  · rcases hcolor : (Take.numbers op space.components).run' operands with fault | color
    · rw [hcolor] at h
      cases h
    · rw [hcolor] at h
      obtain rfl : .solid color = paint := by simpa [Except.map] using h
      rintro _ ⟨⟩
      exact (Take.gives_numbers op space.components).run' hcolor

end Library

/-! ### States -/

/-- A state **fits** if both of its inks do. -/
structure GState.Fits (gs : GState) : Prop where
  fill : gs.fill.Fits
  stroke : gs.stroke.Fits

/-- A state fits by both sides. -/
theorem GState.fits_iff {gs : GState} : gs.Fits ↔ gs.fill.Fits ∧ gs.stroke.Fits :=
  ⟨fun h => ⟨h.fill, h.stroke⟩, fun h => ⟨h.1, h.2⟩⟩

instance (gs : GState) : Decidable gs.Fits :=
  decidable_of_iff _ GState.fits_iff.symm

/-- A machine **fits** if all states on its stack do. -/
def Machine.Fits (m : Machine σ) : Prop :=
  ∀ gs ∈ m.stack.current :: m.stack.saved, gs.Fits

/-- An event **fits** if the state does that it comes with. -/
def Event.Fits (e : Event) : Prop :=
  ∀ gs, e.state? = some gs → gs.Fits

instance (e : Event) : Decidable e.Fits :=
  match h : e.state? with
  | some gs => decidable_of_iff gs.Fits (by simp [Event.Fits, h])
  | none => isTrue (by simp [Event.Fits, h])

/-- An event without a state fits. -/
theorem Event.Fits.of_plain {e : Event} (he : e.state? = none) : e.Fits := by
  intro gs hgs
  rw [he] at hgs
  cases hgs

/-- Black is one component of gray. -/
theorem Ink.fits_default : ({} : Ink).Fits := by
  rintro _ ⟨⟩
  rfl

/-- The state in which a page starts fits, wherever it is placed. -/
theorem GState.fits_under (ctm : Matrix Float) : (GState.under ctm).Fits :=
  ⟨Ink.fits_default, Ink.fits_default⟩

/-- A cell starts in a state that fits if and only if its **tint has a single component**, should it
be a stencil. The color spaces of the state are gray whatever the tint is. -/
theorem Tiling.fits_initialState_iff {tiling : Tiling σ} {tint : Option Tint} :
    (tiling.initialState tint).Fits ↔
      (tiling.kind = .uncolored → ∀ t, tint = some t → t.length = 1) := by
  unfold initialState
  rcases hkind : tiling.kind with _ | _ <;> rcases tint with _ | t
  · exact ⟨nofun, fun _ => GState.fits_under _⟩
  · exact ⟨nofun, fun _ => GState.fits_under _⟩
  · exact ⟨nofun, fun _ => GState.fits_under _⟩
  · have hfits : Ink.Fits ⟨.solid t.color, .deviceGray⟩ ↔ t.length = 1 := by
      simp [Ink.Fits, Tint.color, ColorSpace.deviceGray, ColorSpace.components]
    constructor
    · rintro h - _ ⟨⟩
      exact hfits.mp h.fill
    · intro h
      have hink := hfits.mpr (h rfl t rfl)
      exact ⟨hink, hink⟩

/-! ### Runs that fit -/

/-- What is seen of a run **fits**, and so does the machine that it ends with. -/
structure Outcome.Fits (o : Outcome σ α) : Prop where
  machine : o.machine.Fits
  events : ∀ e ∈ o.events, e.Fits

/-- The laws hold of inks that are the same and fit, with traces of which every event fits. An event
is alike to itself if its state is, and then both inks of the state fit. -/
theorem laws_fitting :
    Likeness.Laws (fun i i' => i = i' ∧ i.Fits) Eq fun t _ => ∀ e ∈ Trace.events t, e.Fits where
  ink_shading _ _ _ := ⟨rfl, fun _ h => by cases h⟩
  point_none := rfl
  trace_nil := List.forall_mem_nil _
  trace_append h h' e he := by
    rw [Trace.events_append, List.mem_append] at he
    exact he.elim (h e) (h' e)
  trace_event h := by
    refine List.forall_mem_singleton.mpr fun gs hgs => ?_
    cases h with
    | plain he => cases he.symm.trans hgs
    | save h | restore h | fill h | stroke h | image h | glyph h =>
        obtain rfl := Option.some.inj hgs
        exact ⟨h.fill.2, h.stroke.2⟩

/-- A run is compared with itself: **its inks fit**, and so do those that are seen of it. -/
def fitting (σ : Type) : Likeness σ where
  ink i i' := i = i' ∧ i.Fits
  point := Eq
  saved := List.Forall₂ (GState.Like (fun i i' => i = i' ∧ i.Fits) Eq)
  rest m m' := { m with stack := m'.stack } = m'
  trace t _ := ∀ e ∈ Trace.events t, e.Fits
  laws := laws_fitting
  rest_stack _ stack' h := (congrArg (fun m : Machine σ => { m with stack := stack' }) h :)
  pageBounds_eq h := (congrArg Machine.pageBounds h :)

/-- All states on the stack are compared in the same way, and points are left out of it. -/
theorem even_fitting : (fitting σ).Even :=
  ⟨rfl, rfl⟩

/-- A state is alike to itself exactly if it fits. -/
theorem GState.like_fitting_iff {gs : GState} : (fitting σ).Like gs gs ↔ gs.Fits := by
  constructor
  · intro h
    exact ⟨h.fill.2, h.stroke.2⟩
  · intro h
    exact ⟨⟨rfl, h.fill⟩, ⟨rfl, h.stroke⟩, rfl, rfl⟩

/-- So is a machine. All states on its stack are compared with themselves, those that are saved
among them. -/
theorem Machine.holds_fitting_iff {m : Machine σ} : (fitting σ).Holds m m ↔ m.Fits := by
  have hsaved : (fitting σ).saved m.stack.saved m.stack.saved ↔ ∀ gs ∈ m.stack.saved, gs.Fits := by
    refine List.forall₂_same.trans (forall₂_congr fun gs _ => ?_)
    exact GState.like_fitting_iff (σ := σ)
  constructor
  · intro h
    exact List.forall_mem_cons.mpr ⟨GState.like_fitting_iff.mp h.current, hsaved.mp h.saved⟩
  · intro h
    obtain ⟨hcurrent, hrest⟩ := List.forall_mem_cons.mp h
    exact ⟨GState.like_fitting_iff.mpr hcurrent, hsaved.mpr hrest, rfl⟩

/-- So is an outcome, and thus to compare a run with itself is to say that it fits, whether or not
it ends in a fault. -/
theorem Outcome.same_fitting_iff {o : Outcome σ α} : (fitting σ).Same o o ↔ o.Fits := by
  obtain ⟨fault | a, m, t⟩ := o
  · constructor
    · intro hsame
      cases hsame with
      | error _ ht h => exact ⟨Machine.holds_fitting_iff.mp h, ht⟩
    · rintro ⟨hm, ht⟩
      exact .error fault ht (Machine.holds_fitting_iff.mpr hm)
  · constructor
    · intro hsame
      cases hsame with
      | ok ht h => exact ⟨Machine.holds_fitting_iff.mp h.2, ht⟩
    · rintro ⟨hm, ht⟩
      exact .ok ht ⟨rfl, Machine.holds_fitting_iff.mpr hm⟩

/-- A program that is called starts with the inks of its caller. -/
theorem GState.Fits.nested {gs : GState} (h : gs.Fits) (transform : Matrix Float)
    (clip : Option (Rect Float)) : (gs.nested transform clip).Fits :=
  GState.like_fitting_iff (σ := Unit).mp
    ((GState.like_fitting_iff.mpr h).map (GState.passive_nested transform clip))

/-- What is seen of entering a program that is called from a state that fits. -/
theorem GState.Fits.entering {gs : GState} (h : gs.Fits) (transform : Matrix Float)
    (clip : Option (Rect Float)) :
    ∀ e ∈ Trace.events (gs.entering transform clip), e.Fits := by
  cases clip with
  | none => exact List.forall_mem_singleton.mpr fun _ hgs => Option.some.inj hgs ▸ h
  | some box =>
      refine List.forall_mem_cons.mpr ⟨fun _ hgs => Option.some.inj hgs ▸ h, ?_⟩
      exact List.forall_mem_singleton.mpr (.of_plain rfl)

/-- What is seen of leaving one fits if the states do that it has saved. -/
theorem GStack.fits_leaving {s : GStack} (h : ∀ gs ∈ s.saved, gs.Fits) (depth : Nat) :
    ∀ e ∈ Trace.events (s.leaving depth), e.Fits := by
  intro e he
  rw [GStack.leaving, Trace.events, List.filterMap_map] at he
  obtain ⟨gs, hgs, he⟩ := List.mem_filterMap.mp he
  obtain rfl := Option.some.inj he
  exact fun _ hstate => Option.some.inj hstate ▸ h gs (List.mem_of_mem_take hgs)

namespace Action

variable {ctx : Context σ}

/-- A command finds the same in both runs, which are one; what has to be shown is that the colors
fit that it finds. -/
theorem agrees_fitting (hlib : ctx.library.NamesFit) {op : Operator} {operands : List Operand}
    {command : Command} (hdecode : Command.decode op operands = .ok command) :
    command.Agrees (fitting σ) ctx ctx := by
  have hscopes (n n' : Machine σ) (hn : (fitting σ).rest n n') : n.scopes = n'.scopes :=
    (congrArg Machine.scopes hn :)
  have hfits := Command.fits_of_decode hdecode
  refine command.agrees_of_scopes_eq rfl hscopes (fun _ _ space hspace => ?_) ?_
  · exact ⟨rfl, (hlib.spaceOf hspace).fits_initial⟩
  · rintro side model color rfl
    refine ⟨rfl, ?_⟩
    rintro _ ⟨⟩
    exact hfits

section Calling

variable {call : Bytes → Action σ Unit}
  (hcall : ∀ floor content, Keeps ctx floor anything (call content))

include hcall

/-- A form fits if what is seen of its content does. The caller's state is shown before and after,
and that fits anyway. -/
theorem fits_runForm {m : Machine σ} (hm : m.Fits) {form : Form σ}
    (hform : form.identity ∉ m.forms →
      let o := (call form.content).run (m.enterForm form)
      (∀ gs ∈ o.machine.stack.saved, gs.Fits) ∧ ∀ e ∈ o.events, e.Fits) :
    ((runForm call form).run m).Fits := by
  by_cases hid : form.identity ∈ m.forms
  · rw [run_runForm_of_mem m hid]
    exact ⟨hm, List.forall_mem_nil _⟩
  · obtain ⟨hsaved, hevents⟩ := hform hid
    rw [run_runForm_eq hcall hid]
    refine ⟨hm, ?_⟩
    simp only [Outcome.events, Trace.events_append, List.forall_mem_append]
    have hcurrent := (List.forall_mem_cons.mp hm).1
    exact ⟨hcurrent.entering form.matrix (some form.bbox), hevents, GStack.fits_leaving hsaved _⟩

/-- A cell fits if what is seen of its content does, whether it starts in a state that fits or not.
Its caller gets a tile, which is no color. -/
theorem fits_tile {m : Machine σ} (hm : m.Fits) {tiling : Tiling σ} {tint : Option Tint}
    (hcell : m.tiles.lookup (ctx.config.tileSharing.key tiling tint) = none →
      let o := (call tiling.content).run (m.enterCell tiling tint)
      (∀ gs ∈ o.machine.stack.saved, gs.Fits) ∧ ∀ e ∈ o.events, e.Fits) :
    ((tile ctx call tiling tint).run m).Fits := by
  rcases hkey : m.tiles.lookup (ctx.config.tileSharing.key tiling tint) with _ | answer
  · obtain ⟨hsaved, hevents⟩ := hcell hkey
    rw [run_tile_eq hcall hkey]
    refine ⟨hm, ?_⟩
    simp only [Outcome.events, Trace.events_cons_note, Trace.events_cons_event,
      Trace.events_append, Trace.events_nil, List.forall_mem_cons, List.forall_mem_append]
    exact ⟨.of_plain rfl, hevents, GStack.fits_leaving hsaved 1, .of_plain rfl,
      List.forall_mem_nil _⟩
  · rw [run_tile_of_some m hkey]
    exact ⟨hm, List.forall_mem_nil _⟩

/-- An instruction fits if what is seen of the programs does that it calls. The likeness of runs is
used with one run for both, so that the case analysis of `same_step` serves here as well. -/
theorem fits_step (hlib : ctx.library.NamesFit) {m : Machine σ} (hm : m.Fits) (frame : Frame)
    {i : Instruction}
    (hcalls : ∀ k content, Calls ctx m i k content →
      let o := (call content).run k
      (∀ gs ∈ o.machine.stack.saved, gs.Fits) ∧ ∀ e ∈ o.events, e.Fits) :
    ((step ctx call frame i).run m).Fits := by
  have h := Machine.holds_fitting_iff.mpr hm
  refine Outcome.same_fitting_iff.mp (same_step h (fun op operands command hi hdecode => ?_) ?_)
  · subst hi
    refine same_perform_of_even even_fitting h (agrees_fitting hlib hdecode) frame ?_ ?_
    · rintro side spelling args rfl
      rw [run_selectColor]
      rcases hselect :
        ctx.library.select m.scopes spelling (m.stack.current.ink side).space args with
        fault | paint | ⟨tiling, tint⟩
      · exact same_fail h fault
      · have hink := Library.fits_of_select hselect
        exact same_modifyState h (h.current.setInk side ⟨rfl, hink⟩)
      · have htile : ((tile ctx call tiling tint).run m).Fits := fits_tile hcall hm fun hmiss =>
          hcalls _ _ (.cell ⟨⟨op, operands, side, spelling, args, rfl, hdecode, hselect⟩, hmiss⟩)
        refine same_bind (Outcome.same_fitting_iff.mpr htile) fun answer n n' hn => ?_
        exact same_modifyState hn (hn.current.setInk side ⟨rfl, fun _ h => by cases h⟩)
    · rintro name rfl
      rw [run_invoke]
      rcases hx : ctx.library.findXObject m.scopes name with fault | image | form
      · exact same_fail h fault
      · exact same_drawImage h image
      · exact Outcome.same_fitting_iff.mpr (fits_runForm hcall hm fun hid =>
          hcalls _ _ (.form ⟨⟨op, operands, name, rfl, hdecode, hx⟩, hid⟩))
  · rintro dict data rfl
    refine same_drawInlineImage h rfl ?_
    cases m.scopes with
    | nil => exact List.forall_mem_nil _
    | cons scope scopes => exact List.forall_mem_singleton.mpr (.of_plain rfl)

end Calling

end Action

end ContentStream
