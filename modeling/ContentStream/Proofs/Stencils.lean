import ContentStream.Proofs.Fitting

/-!
# Stencils

A stencil starts in a state whose inks are its tint, and whose color spaces are gray. The tint is a
color of the space under the pattern space in which the stencil was selected, and this may have any
number of components. So the inks of a stencil fit its color spaces only if the tint has a single
component.

This is the only way to a color that does not fit. Whatever else an execution does, and in whatever
depth of nesting, states that fit lead to states that fit.

## Main definitions

* `Renders`: the cells that are rendered in an execution.
* `SingleTints`: the stencils among them have tints of one component.

## Main results

* `Action.fits_execute`: an execution fits at all of its moments, if its stencils do.
* `solid_fits_iff`: and only then.
* `renderPage_fills_misfit`: not all of them do.
-/

namespace ContentStream

variable {σ : Type}

/-! ### Cells that are rendered -/

/-- A **cell is rendered** in an execution: one of its instructions begins the cell, the limit
allows to call the program, and there is one. -/
def Renders (ctx : Context σ) (m : Machine σ) (content : Bytes) (tiling : Tiling σ)
    (tint : Option Tint) : Prop :=
  ∃ n frame i is p, Arises ctx m content ⟨n, frame, i :: is⟩ ∧ BeginsCell ctx n i tiling tint ∧
    n.depth < ctx.config.maxDepth ∧
    ctx.program? (tiling.scope.toList ++ n.scopes) tiling.content = .ok p

/-- The stencils that are rendered in an execution have a tint of **one component**. -/
def SingleTints (ctx : Context σ) (m : Machine σ) (content : Bytes) : Prop :=
  ∀ tiling tint, Renders ctx m content tiling tint → tiling.kind = .uncolored →
    ∀ t, tint = some t → t.length = 1

section

variable {ctx : Context σ} {m n k : Machine σ} {content content' : Bytes} {frame : Frame}
  {i : Instruction} {is : List Instruction}

/-- What is asked of an execution is asked of those that it calls. -/
theorem SingleTints.of_calls (h : SingleTints ctx m content)
    (hn : Passes ctx m content ⟨n, frame, i :: is⟩) (hcalls : Calls ctx n i k content')
    (hdepth : n.depth < ctx.config.maxDepth) : SingleTints ctx k.deeper content' := by
  rintro tiling tint ⟨n', frame', i', is', p, harises, hbegins, hdepth', hp⟩
  exact h tiling tint
    ⟨n', frame', i', is', p, .nested hn hcalls hdepth harises, hbegins, hdepth', hp⟩

/-- The states below that of a program that is called fit. -/
theorem Calls.fits_saved (hcalls : Calls ctx n i k content') (hn : n.Fits) :
    ∀ gs ∈ k.stack.saved, gs.Fits := by
  cases hcalls with
  | form h => exact hn
  | cell h => exact List.forall_mem_nil _

/-- So does its own, if it is a program and is executed: for a cell this is up to the tint. A form
inherits the current state, in which its transform and its bounds change no ink. -/
theorem Calls.fits (hcalls : Calls ctx n i k content') (hn : n.Fits)
    (htints : SingleTints ctx m content) (hpasses : Passes ctx m content ⟨n, frame, i :: is⟩)
    (hdepth : n.depth < ctx.config.maxDepth) {p : Program}
    (hp : ctx.program? k.scopes content' = .ok p) : k.deeper.Fits := by
  cases hcalls with
  | @form form h =>
      have hcurrent := (List.forall_mem_cons.mp hn).1
      exact List.forall_mem_cons.mpr ⟨hcurrent.nested form.matrix (some form.bbox), hn⟩
  | @cell tiling tint h =>
      have hinitial : (tiling.initialState tint).Fits := Tiling.fits_initialState_iff.mpr
        (htints tiling tint ⟨n, frame, i, is, p, .own hpasses, h, hdepth, hp⟩)
      exact List.forall_mem_singleton.mpr hinitial

end

namespace Action

variable {ctx : Context σ} {m : Machine σ} {content : Bytes}

section Own

variable (hm : m.Fits)
  (hstep : ∀ n frame i is, Passes ctx m content ⟨n, frame, i :: is⟩ → n.Fits →
    ((step ctx (call ctx) frame i).run n).Fits)

include hm hstep

/-- A program fits at its own moments, if each of its instructions keeps to what fits. -/
theorem fits_of_passes {a : Moment σ} (ha : Passes ctx m content a) : a.machine.Fits := by
  induction ha with
  | start hp => exact hm
  | @next n n' frame frame' i is t hpasses hnext ih =>
      have hfits := hstep n frame i is hpasses ih
      rw [hnext] at hfits
      exact hfits.machine

/-- What is left of the program at one of its moments fits as well, by induction on the
instructions. Each of them begins at a moment itself. -/
theorem fits_steps_of_passes {a : Moment σ} (ha : Passes ctx m content a) :
    ((steps ctx (call ctx) a.frame a.rest).run a.machine).Fits := by
  obtain ⟨n, frame, is⟩ := a
  induction is generalizing n frame with
  | nil => exact ⟨fits_of_passes hm hstep ha, List.forall_mem_nil _⟩
  | cons i is ih =>
      have hfits := hstep n frame i is ha (fits_of_passes hm hstep ha)
      simp only [steps, run_bind]
      rcases hrun : (step ctx (call ctx) frame i).run n with ⟨fault | frame', n', t⟩
      · rwa [hrun] at hfits
      · rw [hrun] at hfits
        have hrest := ih n' frame' (.next ha hrun)
        refine ⟨hrest.machine, ?_⟩
        simp only [Outcome.events, Outcome.trace_after, Trace.events_append,
          List.forall_mem_append]
        exact ⟨hfits.events, hrest.events⟩

/-- So what is seen of an execution fits, if each of its instructions keeps to what fits. -/
theorem fits_execute_of_passes : ((execute ctx content).run m).Fits := by
  rw [execute, run_runContent]
  cases hp : ctx.program? m.scopes content with
  | error fault => exact ⟨hm, List.forall_mem_nil _⟩
  | ok p =>
      have hfits := fits_steps_of_passes hm hstep (.start hp)
      exact ⟨hfits.machine, hfits.events⟩

end Own

/-- What is called at a moment that fits is executed on a machine that fits, unless the limit does
not allow it or there is no program. So it fits if executions on such machines do. -/
theorem fits_of_calls {n k : Machine σ} {frame : Frame} {i : Instruction} {is : List Instruction}
    {content' : Bytes} (htints : SingleTints ctx m content)
    (hpasses : Passes ctx m content ⟨n, frame, i :: is⟩) (hn : n.Fits)
    (hcall : Calls ctx n i k content')
    (hexecute : n.depth < ctx.config.maxDepth → k.deeper.Fits →
      (∀ a, Arises ctx k.deeper content' a → a.machine.Fits) ∧
        ((execute ctx content').run k.deeper).Fits) :
    (n.depth < ctx.config.maxDepth → ∀ a, Arises ctx k.deeper content' a → a.machine.Fits) ∧
    (∀ gs ∈ ((call ctx content').run k).machine.stack.saved, gs.Fits) ∧
    ∀ e ∈ ((call ctx content').run k).events, e.Fits := by
  have hsaved := hcall.fits_saved hn
  rw [run_call, hcall.depth_eq]
  by_cases hlimit : n.depth < ctx.config.maxDepth
  · rw [if_pos hlimit, run_deeper]
    rcases hp : ctx.program? k.scopes content' with fault | p
    · have hrun : (execute ctx content').run k.deeper = ⟨.error fault, k.deeper, []⟩ := by
        rw [execute, run_runContent]
        simp only [Machine.deeper, hp]
      refine ⟨fun _ a ha => ?_, ?_, ?_⟩
      · exact absurd ha.exists_program (by simp [Machine.deeper, hp])
      · exact hrun ▸ hsaved
      · exact hrun ▸ List.forall_mem_nil _
    · obtain ⟨harises, hrun⟩ := hexecute hlimit (hcall.fits hn htints hpasses hlimit hp)
      exact ⟨fun _ => harises, (List.forall_mem_cons.mp hrun.machine).2, hrun.events⟩
  · rw [if_neg hlimit]
    exact ⟨fun h => absurd h hlimit, hsaved, List.forall_mem_nil _⟩

/-- A whole execution fits, at each of its moments and in what is seen of it. The induction is on
the levels that are left. -/
theorem fits_execute (hlib : ctx.library.NamesFit) (hm : m.Fits)
    (htints : SingleTints ctx m content) :
    (∀ a, Arises ctx m content a → a.machine.Fits) ∧ ((execute ctx content).run m).Fits := by
  induction hlevels : ctx.config.maxDepth - m.depth using Nat.strongRecOn
    generalizing m content with
  | _ levels ih =>
  subst hlevels
  have hcalls {n : Machine σ} {frame : Frame} {i : Instruction} {is : List Instruction}
      (hpasses : Passes ctx m content ⟨n, frame, i :: is⟩) (hn : n.Fits) (k : Machine σ)
      (content' : Bytes) (hcall : Calls ctx n i k content') :=
    fits_of_calls htints hpasses hn hcall fun hlimit hk => by
      have hdepth : k.deeper.depth = m.depth + 1 :=
        congrArg (· + 1) (hcall.depth_eq.trans hpasses.depth_eq)
      -- What is called has fewer levels left than its caller, which is not at the limit.
      have hless : ctx.config.maxDepth - k.deeper.depth < ctx.config.maxDepth - m.depth := by
        have hn : n.depth = m.depth := hpasses.depth_eq
        omega
      exact ih _ hless hk (htints.of_calls hpasses hcall hlimit) rfl
  have hstep : ∀ n frame i is, Passes ctx m content ⟨n, frame, i :: is⟩ → n.Fits →
      ((step ctx (call ctx) frame i).run n).Fits := fun n frame i is hpasses hn =>
    fits_step keeps_call hlib hn frame fun k content' hcall =>
      (hcalls hpasses hn k content' hcall).2
  refine ⟨fun a ha => ?_, fits_execute_of_passes hm hstep⟩
  cases ha with
  | own h => exact fits_of_passes hm hstep h
  | nested hpasses hcall hdepth h =>
      exact (hcalls hpasses (fits_of_passes hm hstep hpasses) _ _ hcall).1 hdepth a h

end Action

/-! ### Whole runs -/

/-- A page starts from a state that fits. -/
theorem Machine.fits_turnTo (m : Machine σ) (page : Page σ) : (m.turnTo page).Fits :=
  List.forall_mem_singleton.mpr (GState.fits_under _)

/-- The moments of a cell that is rendered begin with its initial state. -/
theorem SingleTints.of_arises {ctx : Context σ} {m : Machine σ} {content : Bytes}
    (h : ∀ a, Arises ctx m content a → a.machine.Fits) : SingleTints ctx m content := by
  rintro tiling tint ⟨n, frame, i, is, p, harises, hbegins, hdepth, hp⟩
  have hstart := harises.of_calls (.cell hbegins) hdepth (.own (.start hp))
  exact Tiling.fits_initialState_iff.mp ((List.forall_mem_cons.mp (h _ hstart)).1)

/-- **Solid paints fit their color spaces**, as long as stencils are tinted by single components.
Let the color spaces of the resources have as many components as their names say. An execution that
starts from a state that fits then fits at all of its moments and in all that is seen of it, at
every depth of nesting and whether or not it ends in a fault, if and only if every stencil that it
renders has a tint of one component. So does the rendering of a page, whatever was done before. -/
theorem solid_fits_iff {ctx : Context σ} (hlib : ctx.library.NamesFit) :
    (∀ (m : Machine σ) content, m.Fits →
      ((∀ a, Arises ctx m content a → a.machine.Fits) ∧
        ((Action.execute ctx content).run m).Fits ↔ SingleTints ctx m content)) ∧
    ∀ (page : Page σ) (m : Machine σ),
      ((∀ a, Arises ctx (m.turnTo page) page.content a → a.machine.Fits) ∧
        ((Action.renderPage ctx page).run m).Fits ↔
          SingleTints ctx (m.turnTo page) page.content) := by
  have hiff (m : Machine σ) (content : Bytes) (hm : m.Fits) :
      (∀ a, Arises ctx m content a → a.machine.Fits) ∧
        ((Action.execute ctx content).run m).Fits ↔ SingleTints ctx m content :=
    ⟨fun h => .of_arises h.1, Action.fits_execute hlib hm⟩
  refine ⟨hiff, fun page m => ?_⟩
  rw [← hiff _ _ (m.fits_turnTo page), Action.run_renderPage]
  refine and_congr_right fun _ => ⟨fun h => ?_, fun h => ⟨h.machine, ?_⟩⟩
  · have hevents := h.events
    simp only [Outcome.events, Trace.events_cons_event, Trace.events_append, List.forall_mem_cons,
      List.forall_mem_append] at hevents
    exact ⟨h.machine, hevents.2.1⟩
  · simp only [Outcome.events, Trace.events_cons_event, Trace.events_append, Trace.events_nil,
      List.forall_mem_cons, List.forall_mem_append]
    exact ⟨.of_plain rfl, h.events, .of_plain rfl, List.forall_mem_nil _⟩

/-! ### A stencil that is tinted red -/

namespace RedStencil

/-- A directory with a pattern space `C` over the colors of the device, and a stencil `P`. -/
def directory : Directory :=
  #[{ colorSpaces := [("C", .patternOver .deviceRgb)]
      patterns := [("P", .tiling {
        identity := 7
        kind := .uncolored
        bbox := ⟨0.0, 0.0, 1.0, 1.0⟩
        xStep := 1.0
        yStep := 1.0
        matrix := Matrix.identity
        content := Utf8.encode "0 0 1 1 re f"
        scope := none })] }]

def ctx : Context Nat where
  library := directory.library
  surface := some

/-- A page that **selects the stencil** in a given tint. -/
def page (tint : String) : Page Nat where
  mediaBox := ⟨0.0, 0.0, 10.0, 10.0⟩
  content := Utf8.encode ("/C cs " ++ tint ++ " /P scn")
  scope := 0

/-- The color spaces of the directory have as many components as their names say. There is a single
one, with a single name in a single scope. -/
theorem namesFit : ctx.library.NamesFit := by
  intro scope name space h
  cases scope with
  | zero =>
      by_cases hname : name = "C"
      · subst hname
        obtain rfl := Option.some.inj h
        exact ⟨by decide, by decide⟩
      · have hnone : ctx.library.colorSpace 0 name = none := by
          simp [ctx, Directory.library, Directory.entry?, directory, Ne.symm hname]
        cases hnone.symm.trans h
  | succ n => cases h

/-- Something is seen of the page that does not fit. -/
theorem exists_not_fits :
    ∃ e ∈ ((Action.renderPage ctx (page "1 0 0")).run { scopes := [] }).events, ¬ e.Fits := by
  decide +kernel

end RedStencil

/-- The red stencil is rendered, with a tint of three components. -/
theorem not_singleTints_of_red :
    RedStencil.ctx.library.NamesFit ∧
    ¬ SingleTints RedStencil.ctx (Machine.turnTo { scopes := [] } (RedStencil.page "1 0 0"))
      (RedStencil.page "1 0 0").content := by
  refine ⟨RedStencil.namesFit, fun h => ?_⟩
  obtain ⟨e, he, hfits⟩ := RedStencil.exists_not_fits
  exact hfits ((((solid_fits_iff RedStencil.namesFit).2 _ _).mpr h).2.events e he)

/-- How many numbers a **solid color that is filled with** has, and how many components its space
has. -/
def Event.filled? : Event → Option (Nat × Nat)
  | .fill gs _ =>
    match gs.fill.paint with
    | .solid color => some (color.length, gs.fill.space.components)
    | _ => none
  | _ => none

/-- A stencil in the colors of the device is filled with **three components of gray**. -/
theorem renderPage_fills_misfit :
    RedStencil.ctx.library.NamesFit ∧
    (let o := (Action.renderPage RedStencil.ctx (RedStencil.page "1 0 0")).run { scopes := [] }
    o.events.filterMap Event.filled? = [(3, 1)] ∧ ∃ e ∈ o.events, ¬ e.Fits) := by
  refine ⟨RedStencil.namesFit, ?_, RedStencil.exists_not_fits⟩
  decide +kernel

end ContentStream
