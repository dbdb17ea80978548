import ContentStream.Fault
import ContentStream.GState

/-!
# The graphics state stack

The current state, and below it the states saved before. There is always a current state: the one
at the bottom cannot be restored away.
-/

namespace ContentStream

/-- A **graphics state stack**. The saved states are listed latest first. -/
structure GStack where
  current : GState := {}
  saved : List GState := []

namespace GStack

/-- The depth: the number of states, the current one included. -/
def depth (s : GStack) : Nat :=
  s.saved.length + 1

/-- Saves a copy of the current state. -/
def save (s : GStack) : GStack :=
  { s with saved := s.current :: s.saved }

/-- Restores the state saved last; none if there is no saved one. -/
def restore? (s : GStack) : Option GStack :=
  match s.saved with
  | [] => none
  | state :: saved => some ⟨state, saved⟩

/-- A stack cut down to a depth, but never below the bottom state. -/
def truncate (s : GStack) (depth : Nat) : GStack :=
  match (s.current :: s.saved).drop (s.depth - max depth 1) with
  | [] => s
  | state :: saved => ⟨state, saved⟩

/-- A stack with its current state changed. -/
def modify (s : GStack) (f : GState → GState) : GStack :=
  { s with current := f s.current }

/-- The states strictly below a depth, which was the stack's own depth once. -/
def below (s : GStack) (depth : Nat) : List GState :=
  s.saved.drop (s.depth - depth)

/-! ### Lemmas -/

/-- A state that is saved makes the stack deeper by one. -/
@[simp]
theorem depth_save (s : GStack) : s.save.depth = s.depth + 1 :=
  rfl

/-- To change the current state leaves the stack as deep as it was. -/
@[simp]
theorem depth_modify (s : GStack) (f : GState → GState) : (s.modify f).depth = s.depth :=
  rfl

/-- There is always a current state. -/
theorem one_le_depth (s : GStack) : 1 ≤ s.depth :=
  Nat.le_add_left 1 _

/-- A stack can be restored exactly if it has more than one state. -/
theorem exists_restore? {s : GStack} (h : 1 < s.depth) : ∃ s', s.restore? = some s' := by
  obtain ⟨current, _ | ⟨state, saved⟩⟩ := s
  · simp [depth] at h
  · exact ⟨⟨state, saved⟩, rfl⟩

/-- What is restored is the state saved last, with those saved before. -/
theorem saved_of_restore? {s s' : GStack} (h : s.restore? = some s') :
    s.saved = s'.current :: s'.saved := by
  obtain ⟨current, _ | ⟨state, saved⟩⟩ := s
  · simp [restore?] at h
  · obtain rfl : ⟨state, saved⟩ = s' := by simpa [restore?] using h
    rfl

/-- A stack that is restored is one state less deep. -/
theorem depth_restore? {s s' : GStack} (h : s.restore? = some s') : s'.depth + 1 = s.depth := by
  simp [depth, saved_of_restore? h]

/-- A stack that is not deeper than asked for is not cut down. -/
theorem truncate_of_depth_le {s : GStack} {depth : Nat} (h : s.depth ≤ depth) :
    s.truncate depth = s := by
  have : s.depth - max depth 1 = 0 := by omega
  simp [truncate, this]

/-- Cutting down a stack that is deeper begins with restoring it once. Both drop the same states,
counted from the two depths, which differ by one. -/
theorem truncate_of_restore? {s s' : GStack} {depth : Nat} (h : s.restore? = some s')
    (hdepth : depth < s.depth) : s.truncate depth = s'.truncate depth := by
  have hs := depth_restore? h
  have hs' := one_le_depth s'
  have hdrop : s.depth - max depth 1 = (s'.depth - max depth 1) + 1 := by omega
  simp only [truncate, hdrop, List.drop_succ_cons, saved_of_restore? h]
  cases hl : List.drop (s'.depth - max depth 1) (s'.current :: s'.saved) with
  | nil =>
    have hlen := congrArg List.length hl
    simp only [List.length_drop, List.length_cons, List.length_nil] at hlen
    simp only [GStack.depth] at hs' hlen
    omega
  | cons state saved => rfl

/-- Cutting a stack down to a state saved before gives back the stack as it was then. -/
theorem truncate_of_saved_eq {s : GStack} {above saved : List GState} {state : GState}
    (h : s.saved = above ++ state :: saved) :
    s.truncate (saved.length + 1) = ⟨state, saved⟩ := by
  have hdrop : s.depth - max (saved.length + 1) 1 = above.length + 1 := by
    simp only [depth, h, List.length_append, List.length_cons]
    omega
  simp only [truncate, hdrop, h, List.drop_succ_cons, List.drop_left]

/-- Cut down to a single state, a stack has no saved ones left. -/
theorem saved_truncate_one (s : GStack) : (s.truncate 1).saved = [] := by
  rcases List.eq_nil_or_concat s.saved with h | ⟨above, state, h⟩
  · rw [truncate_of_depth_le (by simp [depth, h]), h]
  · have := @truncate_of_saved_eq s above [] state (by simpa using h)
    simp only [List.length_nil, Nat.zero_add] at this
    rw [this]

/-- Below its own depth, a stack has the states that are saved. -/
theorem below_depth (s : GStack) : s.below s.depth = s.saved := by
  simp [below]

/-- Saving a state leaves those below. -/
theorem below_save (s : GStack) {depth : Nat} (h : depth ≤ s.depth) :
    s.save.below depth = s.below depth := by
  have hsub : s.save.depth - depth = (s.depth - depth) + 1 := by
    simp only [depth_save]
    omega
  rw [below, hsub]
  rfl

/-- So does restoring one that is not among them. -/
theorem below_restore? {s s' : GStack} {depth : Nat} (h : s.restore? = some s')
    (hdepth : depth < s.depth) : s'.below depth = s.below depth := by
  have hs := depth_restore? h
  have hsub : s.depth - depth = (s'.depth - depth) + 1 := by omega
  simp [below, hsub, saved_of_restore? h]

/-- Cutting a stack down to a depth one above a state it has there gives back the stack whose
current state that was. -/
theorem truncate_of_below_eq {s : GStack} {state : GState} {saved : List GState}
    (h : s.below (saved.length + 2) = state :: saved) :
    s.truncate (saved.length + 1) = ⟨state, saved⟩ := by
  refine @truncate_of_saved_eq s (s.saved.take (s.depth - (saved.length + 2))) saved state ?_
  rw [← h, below, List.take_append_drop]

end GStack

end ContentStream
