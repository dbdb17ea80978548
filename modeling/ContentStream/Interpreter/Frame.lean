import ContentStream.Action
import ContentStream.TextObject

/-!
# Frames

A frame is what one program remembers while it runs and no other program can see: the path it is
constructing, the clip it has asked for, its text object, and its open compatibility sections. A
nested program starts with a fresh frame.

The graphics state, in contrast, is the machine's. This module has the operations on it that
several kinds of commands share: saving, restoring, and narrowing the clip.
-/

namespace ContentStream

/-- A **frame**. -/
structure Frame where
  path : Option (Path Float) := none
  /-- The clip that takes effect with the next painting operator. -/
  pendingClip : Option (Path Float) := none
  /-- The number of open compatibility sections. -/
  compatibility : Nat := 0
  text : TextObject := TextObject.closed
  /-- The depth of the graphics state stack at the start. The program may not restore below it. -/
  base : Nat

/-- A state with its clip narrowed to a path in device space. -/
def GState.narrow (gs : GState) (device : Path Float) : GState :=
  { gs with
    clip := some device
    clipBounds :=
      match device.bounds?, gs.clipBounds with
      | some bounds, some before => some (before.intersect bounds)
      | some bounds, none => some bounds
      | none, before => before }

namespace Action

variable {σ : Type}

/-- Saves the graphics state. -/
def save : Action σ Unit := do
  modify fun m => { m with stack := m.stack.save }
  emit (.save (← state))

/-- Restores the graphics state saved last. -/
def restore : Action σ Unit := do
  match (← machine).stack.restore? with
  | none => fail .stackUnderflow
  | some stack =>
    modify fun m => { m with stack }
    emit (.restore stack.current)

/-- Restores `n` graphics states, one after the other. -/
def restoreAll : (n : Nat) → Action σ Unit
  | 0 => pure ()
  | n + 1 => do
    restore
    restoreAll n

/-- Restores states until the stack has the given depth, if it is deeper. -/
def unwind (depth : Nat) : Action σ Unit := do
  restoreAll ((← machine).stack.depth - depth)

/-- Narrows the clip to a path in user space. -/
def narrowClip (path : Path Float) : Action σ Unit := do
  let device := path.transform (← state).ctm
  modifyState fun gs => gs.narrow device
  emit (.clip device)

/-! ### Running -/

section Running

variable {m : Machine σ}

/-- A state is saved, and announced as it is. -/
@[simp]
theorem run_save (m : Machine σ) :
    save.run m =
      ⟨.ok (), { m with stack := m.stack.save }, [.event (.save m.stack.current)]⟩ :=
  rfl

/-- A state is restored, and announced as it is then. -/
theorem run_restore {stack : GStack} (h : m.stack.restore? = some stack) :
    restore.run m = ⟨.ok (), { m with stack }, [.event (.restore stack.current)]⟩ := by
  simp [restore, run_bind, h]

/-- Where nothing is saved, there is nothing to restore. -/
theorem run_restore_of_none (h : m.stack.restore? = none) :
    restore.run m = ⟨.error .stackUnderflow, m, []⟩ := by
  simp [restore, run_bind, h]

/-- Restoring some of the states cuts the stack down. The induction is on their number; as long as
there are more states than are to be restored, none of the restores can fail. -/
theorem run_restoreAll {n : Nat} (h : n < m.stack.depth) :
    ∃ t, (restoreAll n).run m =
      ⟨.ok (), { m with stack := m.stack.truncate (m.stack.depth - n) }, t⟩ := by
  induction n generalizing m with
  | zero => exact ⟨[], by simp [restoreAll, GStack.truncate_of_depth_le]⟩
  | succ n ih =>
    obtain ⟨stack, hs⟩ := GStack.exists_restore? (s := m.stack) (by omega)
    have hdepth := GStack.depth_restore? hs
    obtain ⟨t, ht⟩ := ih (m := { m with stack }) (by simp only; omega)
    have hle : m.stack.depth - (n + 1) = stack.depth - n := by omega
    refine ⟨.event (.restore stack.current) :: t, ?_⟩
    rw [restoreAll, run_bind, run_restore hs, hle, GStack.truncate_of_restore? hs (by omega)]
    simp [ht, Outcome.after]

/-- Unwinding cuts the stack down, and cannot fail. To a depth that the stack does not exceed there
is nothing to restore, and cutting down does nothing either. -/
theorem run_unwind {depth : Nat} (h : 1 ≤ depth) :
    ∃ t, (unwind depth).run m = ⟨.ok (), { m with stack := m.stack.truncate depth }, t⟩ := by
  obtain ⟨t, ht⟩ := run_restoreAll (m := m) (n := m.stack.depth - depth)
    (by have := m.stack.one_le_depth; omega)
  refine ⟨t, ?_⟩
  rw [unwind, run_bind, run_machine]
  simp only [Outcome.after_nil, ht]
  by_cases hle : m.stack.depth ≤ depth
  · rw [GStack.truncate_of_depth_le hle, GStack.truncate_of_depth_le (by omega)]
  · rw [show m.stack.depth - (m.stack.depth - depth) = depth by omega]

/-- Unwinding to the bottom leaves nothing saved, whatever was done before. -/
theorem saved_run_unwind_one {α : Type} (x : Action σ α) (m : Machine σ) :
    ((do let _ ← attempt x; unwind 1).run m).machine.stack.saved = [] := by
  obtain ⟨t, ht⟩ := run_unwind (m := (x.run m).machine) (Nat.le_refl 1)
  simp [run_bind, ht, GStack.saved_truncate_one]

end Running

end Action

end ContentStream
