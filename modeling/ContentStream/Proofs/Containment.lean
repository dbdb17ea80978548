import ContentStream.Proofs.Keeps

/-!
# Containment

A nested program cannot be noticed in the graphics state, or in anything else that is in force, by
the program that invoked it: not if it leaves states saved, not if it restores one too many, not if
it cannot be decoded or tokenized or is nested too deeply, and not if it ends in a fault at any
depth of further nesting. All that is left of it are the events, the tiles that were rendered, and
the count of those.

A content stream by itself changes the state that it is executed in. It has no access to the states
below.

## Main definitions

* `Contained`: what a machine that ran a nested program has in common with the one before.

## Main results

* `Contained.of_runs`: a run that gives the stack back is contained.
* `Action.contained_subProgram`, `Action.contained_runForm`, `Action.contained_tile`,
  `Action.contained_invoke`: so are those that run a nested program for somebody.
* `Action.suffix_runContent`: executing a content stream keeps the states below the current one.
* `nested_leaves_caller`: all of this for the interpreter's own way to call a program.
-/

namespace ContentStream

variable {σ : Type}

/-- A machine after something **contained**, compared with the machine before. Tiles may have been
added, but those that were there are the same. -/
structure Contained (m m' : Machine σ) : Prop where
  stack_eq : m'.stack = m.stack
  scopes_eq : m'.scopes = m.scopes
  depth_eq : m'.depth = m.depth
  forms_eq : m'.forms = m.forms
  pageBounds_eq : m'.pageBounds = m.pageBounds
  lookup_tiles : ∀ key tile, m.tiles.lookup key = some tile → m'.tiles.lookup key = some tile

/-- A run that gives the stack back is contained. -/
theorem Contained.of_runs {ctx : Context σ} {floor : Nat} {m m' : Machine σ} {t : Trace}
    (h : Runs ctx floor m t m') (hstack : m'.stack = m.stack) : Contained m m' where
  stack_eq := hstack
  scopes_eq := h.scopes_eq
  depth_eq := h.depth_eq
  forms_eq := h.forms_eq
  pageBounds_eq := h.pageBounds_eq
  lookup_tiles _ _ hkey := h.lookup_tiles hkey

/-- Every key of a tile that was there is there still, so that what has been rendered is not
rendered again. -/
theorem Contained.mem_keys {m m' : Machine σ} (h : Contained m m') {key : TileKey}
    (hkey : key ∈ m.keys) : key ∈ m'.keys := by
  obtain ⟨tile, htile⟩ := Machine.mem_keys.mp hkey
  exact Machine.mem_keys.mpr ⟨tile, h.lookup_tiles key tile htile⟩

namespace Action

variable {ctx : Context σ} {call : Bytes → Action σ Unit}
  (hcall : ∀ floor content, Keeps ctx floor anything (call content))

include hcall

/-- A sub-program works on a copy of the caller's state, one above the states that it gives back. It
runs above that copy as a floor, and so what is cut down to in the end is what there was. -/
theorem contained_subProgram (content : Bytes) (transform : Matrix Float)
    (clip : Option (Rect Float)) (scope : Option σ) (m : Machine σ) :
    Contained m ((subProgram call content transform clip scope).run m).machine := by
  refine .of_runs ((keeps_subProgram hcall content transform clip scope).runs
    (Nat.le_refl m.stack.depth)) ?_
  obtain ⟨t₀, t₁, h⟩ := run_subProgram m call content transform clip scope
  rw [h]
  refine GStack.truncate_of_below_eq ?_
  have hrun := (keeps_within scope (hcall (m.stack.saved.length + 2) content)).runs
    (m := { m with
      stack := ⟨m.stack.current.nested transform clip, m.stack.current :: m.stack.saved⟩ })
    (Nat.le_refl _)
  exact (hrun.below_eq (Nat.le_refl _)).trans (GStack.below_depth _)

/-- So does a form, and one that is being executed already does nothing. -/
theorem contained_runForm (form : Form σ) (m : Machine σ) :
    Contained m ((runForm call form).run m).machine := by
  refine .of_runs ((keeps_runForm hcall form).runs (Nat.le_refl m.stack.depth)) ?_
  by_cases hid : form.identity ∈ m.forms
  · rw [run_runForm_of_mem m hid]
  · rw [run_runForm m hid]
    exact (contained_subProgram hcall form.content form.matrix (some form.bbox) form.scope
      { m with forms := form.identity :: m.forms }).stack_eq

/-- A cell runs on a stack of its own, and the caller's is put back. -/
theorem contained_tile (tiling : Tiling σ) (tint : Option Tint) (m : Machine σ) :
    Contained m ((tile ctx call tiling tint).run m).machine := by
  refine .of_runs ((keeps_tile hcall tiling tint).runs (Nat.le_refl m.stack.depth)) ?_
  rcases hkey : m.tiles.lookup (ctx.config.tileSharing.key tiling tint) with _ | tile
  · rw [run_tile_of_none m hkey (run_renderCell m ctx call tiling tint) rfl]
  · rw [run_tile_of_some m hkey]

/-- To invoke an external object is contained, as a form is, and an image changes nothing. -/
theorem contained_invoke (name : String) (m : Machine σ) :
    Contained m ((invoke ctx call name).run m).machine := by
  refine .of_runs ((keeps_invoke hcall name).runs (Nat.le_refl m.stack.depth)) ?_
  rcases hname : ctx.library.findXObject m.scopes name with fault | image | form
  · simp [invoke, run_bind, hname]
  · simp [invoke, run_bind, hname, drawImage]
  · have hform := (contained_runForm hcall form m).stack_eq
    simp [invoke, run_bind, hname, hform]

/-- Whatever a content stream does, the states strictly below the current one are kept. -/
theorem suffix_runContent (content : Bytes) (m : Machine σ) :
    let m' := ((runContent ctx call content).run m).machine
    m.stack.saved <:+ m'.stack.saved ∧ m.stack.depth ≤ m'.stack.depth := by
  have hrun := (keeps_runContent hcall content).runs (Nat.le_refl m.stack.depth)
  have hbelow := hrun.below_eq (Nat.le_refl _)
  rw [GStack.below_depth] at hbelow
  exact ⟨hbelow ▸ List.drop_suffix _ _, hrun.floor_le (Nat.le_refl _)⟩

end Action

/-- **Nested programs leave their caller alone.** Sub-programs, forms and cells are contained,
whatever their content and however the caller's nesting stands, and so is the operator that invokes
a form, or anything else. A content stream that is executed by itself leaves the stack at least as
deep as it was, and the states strictly below the current one as they were. -/
theorem nested_leaves_caller (ctx : Context σ) (m : Machine σ) :
    (∀ content transform clip scope, Contained m
      ((Action.subProgram (Action.call ctx) content transform clip scope).run m).machine) ∧
    (∀ form, Contained m ((Action.runForm (Action.call ctx) form).run m).machine) ∧
    (∀ frame name, Contained m
      ((Action.perform ctx (Action.call ctx) frame (.invoke name)).run m).machine) ∧
    (∀ tiling tint, Contained m
      ((Action.tile ctx (Action.call ctx) tiling tint).run m).machine) ∧
    ∀ content,
      m.stack.saved <:+ ((Action.execute ctx content).run m).machine.stack.saved ∧
      m.stack.depth ≤ ((Action.execute ctx content).run m).machine.stack.depth := by
  have hcall := @Action.keeps_call σ ctx
  refine ⟨fun content transform clip scope =>
      Action.contained_subProgram hcall content transform clip scope m,
    fun form => Action.contained_runForm hcall form m, fun frame name => ?_,
    fun tiling tint => Action.contained_tile hcall tiling tint m,
    fun content => Action.suffix_runContent hcall content m⟩
  rw [Action.perform, Action.machine_run_bind_pure]
  exact Action.contained_invoke hcall name m

end ContentStream
