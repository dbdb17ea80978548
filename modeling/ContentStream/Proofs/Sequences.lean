import ContentStream.Interpreter
import Mathlib.Data.List.Forall2

/-!
# Instructions in sequence

Instructions are carried out one after the other, each in the frame that the one before has left. So
sequences of them can be reckoned with by the laws of sequencing: nothing comes of it to give a
result and go on, and it does not matter how a sequence is bracketed. What an instruction does is
decided by the command that it asks for; two sequences come to the same if their commands do.

## Main definitions

* `Keyword.after`: an operator written after its operands.
* `Instruction.AsksFor`: the command of an instruction.
* `Action.performAll`: commands in sequence.

## Main results

* `LawfulMonad (Action σ)`: the laws of sequencing.
* `Action.steps_eq_performAll`: instructions come to the commands that they ask for.
* `Action.run_steps_eq_of_performAll_eq`: instructions whose commands come to the same.
-/

namespace ContentStream

variable {σ α β γ : Type}

/-! ### Actions in sequence -/

namespace Action

/-- To give the result that was obtained adds nothing. -/
theorem bind_pure_eq (x : Action σ α) : x >>= pure = x := by
  funext m
  have h : (x >>= pure).run m = x.run m := by
    rw [run_bind]
    rcases x.run m with ⟨_ | _, _, _⟩ <;> simp [Outcome.after]
  exact h

/-- Sequences may be bracketed in either way. -/
theorem bind_assoc_eq (x : Action σ α) (f : α → Action σ β) (g : β → Action σ γ) :
    x >>= f >>= g = x >>= fun a => f a >>= g := by
  funext m
  have h : (x >>= f >>= g).run m = (x >>= fun a => f a >>= g).run m := by
    simp only [run_bind]
    rcases x.run m with ⟨_ | a, m', t⟩
    · rfl
    · rcases hf : (f a).run m' with ⟨_ | b, _, _⟩ <;> simp [Outcome.after, hf]
  exact h

/-- Actions are sequenced lawfully. -/
instance : LawfulMonad (Action σ) :=
  .mk' _ bind_pure_eq (fun _ _ => rfl) bind_assoc_eq

/-- What follows an action matters only for the results it gives. -/
theorem run_bind_congr {x : Action σ α} {f g : α → Action σ β} {m : Machine σ}
    (h : ∀ a, (x.run m).result = .ok a → f a = g a) : (x >>= f).run m = (x >>= g).run m := by
  rw [run_bind, run_bind]
  rcases hx : x.run m with ⟨fault | a, n, t⟩
  · rfl
  · simp only [h a (by rw [hx])]

/-- Carries out **commands** one after the other. -/
def performAll (ctx : Context σ) (call : Bytes → Action σ Unit) :
    Frame → List Command → Action σ Frame
  | frame, [] => pure frame
  | frame, command :: commands => do
    let frame ← perform ctx call frame command
    performAll ctx call frame commands

end Action

/-! ### Instructions as they are written -/

/-- An operator **after its operands**, which are given in the order in which they are written. -/
def Keyword.after (k : Keyword) (operands : List Operand) : Instruction :=
  .operate (.known k) operands.reverse

/-- An operator after its operands, all of which are **numbers**. -/
def Keyword.afterNumbers (k : Keyword) (xs : List Numeral) : Instruction :=
  k.after (xs.map .number)

/-- An instruction that **asks for** a command. -/
def Instruction.AsksFor (i : Instruction) (command : Command) : Prop :=
  ∃ op operands, i = .operate op operands ∧ Command.decode op operands = .ok command

/-- An operator asks for the command that is decoded from its operands. -/
theorem Keyword.asksFor_after {k : Keyword} {operands : List Operand} {command : Command}
    (h : Command.decode (.known k) operands.reverse = .ok command) :
    (k.after operands).AsksFor command :=
  ⟨_, _, rfl, h⟩

/-- Instructions come to the commands that they ask for, by induction on how many there are. Each of
them decodes to its command, which is then performed in the frame of the last. -/
theorem Action.steps_eq_performAll (ctx : Context σ) (call : Bytes → Action σ Unit) (frame : Frame)
    {is : List Instruction} {commands : List Command}
    (h : List.Forall₂ Instruction.AsksFor is commands) :
    steps ctx call frame is = performAll ctx call frame commands := by
  induction h generalizing frame with
  | nil => rfl
  | @cons i command is commands hi _ ih =>
      obtain ⟨op, operands, rfl, hdecode⟩ := hi
      have hstep : step ctx call frame (.operate op operands) = perform ctx call frame command := by
        rw [step, hdecode]
        rfl
      simp only [steps, performAll, hstep, ih]

/-- Instructions come to the same **if their commands do**. -/
theorem Action.run_steps_eq_of_performAll_eq {ctx : Context σ} {call : Bytes → Action σ Unit}
    {frame : Frame} {m : Machine σ} {is js : List Instruction} {commands commands' : List Command}
    (h : (performAll ctx call frame commands).run m = (performAll ctx call frame commands').run m)
    (hi : List.Forall₂ Instruction.AsksFor is commands)
    (hj : List.Forall₂ Instruction.AsksFor js commands') :
    (steps ctx call frame is).run m = (steps ctx call frame js).run m := by
  rw [steps_eq_performAll ctx call frame hi, steps_eq_performAll ctx call frame hj, h]

end ContentStream
