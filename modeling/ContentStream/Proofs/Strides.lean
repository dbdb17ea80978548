import ContentStream.Proofs.Moments

/-!
# Strides

An execution of a content stream goes in strides: it begins one instruction after the other, each on
the machine and in the frame that the one before has left, until there are none left or one ends in
a fault. The list of its strides is all that there is to tell of an execution: what is seen of it is
what is seen of its strides, and what came before a stride are those before it in the list.

An instruction that calls a nested program is one stride of its own program. The strides of the
nested program are another execution's.

## Main definitions

* `Stride`: an instruction with the machine and the frame that it is begun in.
* `strides`: the strides of an execution.
* `Since`: among the strides that came before, one is of a kind, and those after it of another.

## Main results

* `trace_execute`: the trace of an execution is made of those of its strides.
* `strides_induction`: what the start has, and each stride hands on, is true of all that came before
  a stride.
* `mem_strides_iff`: strides are begun at the moments of a program, and at each of them.
-/

namespace ContentStream

variable {σ : Type}

/-- A **stride**: an instruction that is begun, on a machine and in a frame. -/
structure Stride (σ : Type) where
  machine : Machine σ
  frame : Frame
  instruction : Instruction

/-- The **outcome** of a stride. -/
def Stride.outcome (ctx : Context σ) (s : Stride σ) : Outcome σ Frame :=
  (Action.step ctx (Action.call ctx) s.frame s.instruction).run s.machine

/-- The strides of **instructions** that are left, on a machine and in a frame. -/
def stridesFrom (ctx : Context σ) : Machine σ → Frame → List Instruction → List (Stride σ)
  | _, _, [] => []
  | m, frame, i :: is =>
    ⟨m, frame, i⟩ ::
      match Stride.outcome ctx ⟨m, frame, i⟩ with
      | ⟨.ok frame', m', _⟩ => stridesFrom ctx m' frame' is
      | ⟨.error _, _, _⟩ => []

/-- The **strides of an execution**; none if the content cannot be decoded or tokenized. -/
def strides (ctx : Context σ) (m : Machine σ) (content : Bytes) : List (Stride σ) :=
  match ctx.program? m.scopes content with
  | .ok p => stridesFrom ctx m { base := m.stack.depth } p.instructions
  | .error _ => []

section

variable {ctx : Context σ} {m : Machine σ} {content : Bytes} {frame : Frame}
  {is : List Instruction} {past later : List (Stride σ)} {s : Stride σ}

/-- An instruction that is carried out is a stride, and the others follow from where it has led. -/
theorem stridesFrom_cons_of_ok {i : Instruction} {frame' : Frame} {m' : Machine σ} {t : Trace}
    (h : Stride.outcome ctx ⟨m, frame, i⟩ = ⟨.ok frame', m', t⟩) :
    stridesFrom ctx m frame (i :: is) = ⟨m, frame, i⟩ :: stridesFrom ctx m' frame' is := by
  rw [stridesFrom, h]

/-- An instruction that fails is the last stride. -/
theorem stridesFrom_cons_of_error {i : Instruction} {fault : Fault} {m' : Machine σ} {t : Trace}
    (h : Stride.outcome ctx ⟨m, frame, i⟩ = ⟨.error fault, m', t⟩) :
    stridesFrom ctx m frame (i :: is) = [⟨m, frame, i⟩] := by
  rw [stridesFrom, h]

/-! ### What is seen of an execution -/

/-- The trace of instructions is made of the traces of their strides. The induction is on the
instructions, and those after a fault have no part in either. -/
theorem trace_steps :
    ((Action.steps ctx (Action.call ctx) frame is).run m).trace =
      (stridesFrom ctx m frame is).flatMap fun s => (s.outcome ctx).trace := by
  induction is generalizing m frame with
  | nil => rfl
  | cons i is ih =>
      rcases h : Stride.outcome ctx ⟨m, frame, i⟩ with ⟨fault | frame', m', t⟩
      · have hstep : (Action.step ctx (Action.call ctx) frame i).run m =
            ⟨.error fault, m', t⟩ := h
        simp [Action.steps, Action.run_bind, hstep, stridesFrom_cons_of_error h, h]
      · have hstep : (Action.step ctx (Action.call ctx) frame i).run m = ⟨.ok frame', m', t⟩ := h
        simp [Action.steps, Action.run_bind, hstep, stridesFrom_cons_of_ok h, h, ih]

/-- The **trace of an execution** is made of the traces of its strides. -/
theorem trace_execute (ctx : Context σ) (m : Machine σ) (content : Bytes) :
    ((Action.execute ctx content).run m).trace =
      (strides ctx m content).flatMap fun s => (s.outcome ctx).trace := by
  rw [Action.execute, Action.run_runContent, strides]
  cases ctx.program? m.scopes content with
  | error fault => rfl
  | ok p => exact trace_steps

/-! ### What came before -/

/-- Induction along strides: what is true at the start, and is carried on by each stride that ends
without a fault, is true of the strides that came before any of them. -/
theorem stridesFrom_induction {P : List (Stride σ) → Machine σ → Frame → Prop}
    (next : ∀ past s frame m t, P past s.machine s.frame → s.outcome ctx = ⟨.ok frame, m, t⟩ →
      P (past ++ [s]) m frame)
    {before : List (Stride σ)} (start : P before m frame)
    (h : stridesFrom ctx m frame is = past ++ s :: later) :
    P (before ++ past) s.machine s.frame := by
  induction is generalizing before m frame past with
  | nil => exact absurd h.symm (by simp [stridesFrom])
  | cons i is ih =>
      cases past with
      | nil =>
          obtain rfl : ⟨m, frame, i⟩ = s := (List.cons.inj h).1
          rwa [List.append_nil]
      | cons s' past =>
          obtain rfl : ⟨m, frame, i⟩ = s' := (List.cons.inj h).1
          rcases ho : Stride.outcome ctx ⟨m, frame, i⟩ with ⟨fault | frame', m', t⟩
          · rw [stridesFrom_cons_of_error ho] at h
            exact absurd (List.cons.inj h).2.symm (by simp)
          · rw [stridesFrom_cons_of_ok ho] at h
            have hrest := ih (next before ⟨m, frame, i⟩ frame' m' t start ho) (List.cons.inj h).2
            rwa [List.append_assoc] at hrest

/-- What is true **at the start**, and after a stride whenever it is before, is true at every stride
of those that came before it. -/
theorem strides_induction {P : List (Stride σ) → Machine σ → Frame → Prop}
    (start : P [] m { base := m.stack.depth })
    (next : ∀ past s frame m t, P past s.machine s.frame → s.outcome ctx = ⟨.ok frame, m, t⟩ →
      P (past ++ [s]) m frame)
    (h : strides ctx m content = past ++ s :: later) : P past s.machine s.frame := by
  rw [strides] at h
  split at h
  · exact stridesFrom_induction next start h
  · exact absurd h.symm (by simp)

/-! ### Moments -/

/-- The strides that are left at a moment are the last ones of all. -/
theorem Passes.exists_past {a : Moment σ} (h : Passes ctx m content a) :
    ∃ past, strides ctx m content = past ++ stridesFrom ctx a.machine a.frame a.rest := by
  induction h with
  | start hp => exact ⟨[], by rw [strides, hp]; rfl⟩
  | @next n n' frame frame' i is t _ hstep ih =>
      obtain ⟨past, hpast⟩ := ih
      refine ⟨past ++ [⟨n, frame, i⟩], ?_⟩
      rw [hpast, stridesFrom_cons_of_ok hstep, List.append_assoc, List.singleton_append]

/-- A stride is begun at a moment of the program, with the instructions that are left at that
moment. This goes by induction on them. -/
theorem exists_passes_of_mem_stridesFrom (h : s ∈ stridesFrom ctx m frame is)
    {k : Machine σ} (hstart : Passes ctx k content ⟨m, frame, is⟩) :
    ∃ rest, Passes ctx k content ⟨s.machine, s.frame, s.instruction :: rest⟩ := by
  induction is generalizing m frame with
  | nil => exact absurd h List.not_mem_nil
  | cons i is ih =>
      rcases ho : Stride.outcome ctx ⟨m, frame, i⟩ with ⟨fault | frame', m', t⟩
      · rw [stridesFrom_cons_of_error ho, List.mem_singleton] at h
        subst h
        exact ⟨is, hstart⟩
      · rw [stridesFrom_cons_of_ok ho] at h
        rcases List.mem_cons.mp h with rfl | h
        · exact ⟨is, hstart⟩
        · exact ih h (.next hstart ho)

/-- Strides are begun **at the moments** of a program, and at each of them that has an instruction
left. A program that does not decode has neither. -/
theorem mem_strides_iff :
    s ∈ strides ctx m content ↔
      ∃ rest, Passes ctx m content ⟨s.machine, s.frame, s.instruction :: rest⟩ := by
  constructor
  · intro h
    rw [strides] at h
    split at h
    · next p hp => exact exists_passes_of_mem_stridesFrom h (.start hp)
    · exact absurd h List.not_mem_nil
  · rintro ⟨rest, h⟩
    obtain ⟨past, hpast⟩ := h.exists_past
    rw [hpast, stridesFrom]
    exact List.mem_append_right _ List.mem_cons_self

end

/-! ### Since -/

/-- Some stride has one property, and **since** then all have another. -/
def Since (p q : Stride σ → Prop) (past : List (Stride σ)) : Prop :=
  ∃ before s after, past = before ++ s :: after ∧ p s ∧ ∀ s' ∈ after, q s'

section

variable {p q : Stride σ → Prop} {past : List (Stride σ)} {s : Stride σ}

/-- Nothing has happened since anything if nothing has happened. -/
theorem not_since_nil : ¬ Since p q [] := by
  rintro ⟨before, s, after, h, -⟩
  exact absurd h.symm (by simp)

/-- It is the latest stride, or one before it. In the latter case what has to hold since then holds
of the latest stride as well. -/
theorem since_concat : Since p q (past ++ [s]) ↔ p s ∨ Since p q past ∧ q s := by
  constructor
  · rintro ⟨before, s', after, h, hp, hq⟩
    rcases List.eq_nil_or_concat after with rfl | ⟨after, last, rfl⟩
    · obtain ⟨rfl, hs⟩ := List.append_inj' h rfl
      obtain rfl : s = s' := (List.cons.inj hs).1
      exact .inl hp
    · have hsplit : past ++ [s] = (before ++ s' :: after) ++ [last] := h.trans (by simp)
      obtain ⟨rfl, hs⟩ := List.append_inj' hsplit rfl
      obtain rfl : s = last := (List.cons.inj hs).1
      exact .inr ⟨⟨before, s', after, rfl, hp, fun s' hs' => hq s' (by simp [hs'])⟩,
        hq s (by simp)⟩
  · rintro (hp | ⟨⟨before, s', after, rfl, hp, hq⟩, hs⟩)
    · exact ⟨past, s, [], rfl, hp, fun _ hs' => absurd hs' List.not_mem_nil⟩
    · refine ⟨before, s', after ++ [s], by simp, hp, fun s'' hs'' => ?_⟩
      rcases List.mem_append.mp hs'' with hs'' | hs''
      · exact hq s'' hs''
      · obtain rfl := List.mem_singleton.mp hs''
        exact hs

end

end ContentStream
