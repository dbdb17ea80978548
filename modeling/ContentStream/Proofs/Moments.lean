import ContentStream.Proofs.Sites

/-!
# Moments

Where an execution of a content stream stands before its first instruction, and after each one that
did not end in a fault, with all that the machine remembers at that time. The moments of nested
programs are among those of the program that calls them: an instruction that invokes a form, or that
selects a pattern of which there is no tile yet, calls a program on a machine that is made of the
present one, one level deeper if the limit allows.

## Main definitions

* `Moment`: a machine, with the frame and the instructions that are left.
* `Calls`: what an instruction calls a program for, and on which machine.
* `Passes`: the moments of a program itself.
* `Arises`: the moments of a program and of those that it calls.

## Main results

* `Passes.runs`: a program runs to each of its moments.
* `Arises.of_calls`: the moments of what is called at a moment are moments of the whole.
* `Arises.pageBounds_eq`: the bounds of the page are the same at all moments.
-/

namespace ContentStream

variable {σ : Type}

/-- A **moment** of an execution. -/
structure Moment (σ : Type) where
  machine : Machine σ
  frame : Frame
  rest : List Instruction

/-- An instruction **begins the cell** of a pattern, of which there is no tile yet. -/
structure BeginsCell (ctx : Context σ) (m : Machine σ) (i : Instruction) (tiling : Tiling σ)
    (tint : Option Tint) : Prop where
  selects : ∃ op operands side spelling args, i = .operate op operands ∧
    Command.decode op operands = .ok (.color side spelling args) ∧
    ctx.library.select m.scopes spelling (m.stack.current.ink side).space args =
      .ok (.tiling tiling tint)
  miss : m.tiles.lookup (ctx.config.tileSharing.key tiling tint) = none

/-- An instruction **begins a form**, which is not in execution. -/
structure BeginsForm (ctx : Context σ) (m : Machine σ) (i : Instruction) (form : Form σ) :
    Prop where
  invokes : ∃ op operands name, i = .operate op operands ∧
    Command.decode op operands = .ok (.invoke name) ∧
    ctx.library.findXObject m.scopes name = .ok (.form form)
  not_mem : form.identity ∉ m.forms

/-- What an instruction **calls**, and on which machine. -/
inductive Calls (ctx : Context σ) (m : Machine σ) (i : Instruction) : Machine σ → Bytes → Prop
  | form {form : Form σ} (h : BeginsForm ctx m i form) :
      Calls ctx m i (m.enterForm form) form.content
  | cell {tiling : Tiling σ} {tint : Option Tint} (h : BeginsCell ctx m i tiling tint) :
      Calls ctx m i (m.enterCell tiling tint) tiling.content

/-- A machine **one level deeper**. -/
def Machine.deeper (m : Machine σ) : Machine σ :=
  { m with depth := m.depth + 1 }

/-- The moments of a program **itself**, executed on a machine. -/
inductive Passes (ctx : Context σ) (m : Machine σ) (content : Bytes) : Moment σ → Prop
  | start {p : Program} (hp : ctx.program? m.scopes content = .ok p) :
      Passes ctx m content ⟨m, { base := m.stack.depth }, p.instructions⟩
  | next {n n' : Machine σ} {frame frame' : Frame} {i : Instruction} {is : List Instruction}
      {t : Trace} : Passes ctx m content ⟨n, frame, i :: is⟩ →
      (Action.step ctx (Action.call ctx) frame i).run n = ⟨.ok frame', n', t⟩ →
      Passes ctx m content ⟨n', frame', is⟩

/-- The moments of a program **and of those that it calls**. -/
inductive Arises (ctx : Context σ) : Machine σ → Bytes → Moment σ → Prop
  | own {m : Machine σ} {content : Bytes} {a : Moment σ} :
      Passes ctx m content a → Arises ctx m content a
  | nested {m n k : Machine σ} {content content' : Bytes} {frame : Frame} {i : Instruction}
      {is : List Instruction} {a : Moment σ} : Passes ctx m content ⟨n, frame, i :: is⟩ →
      Calls ctx n i k content' → n.depth < ctx.config.maxDepth →
      Arises ctx k.deeper content' a → Arises ctx m content a

section

variable {ctx : Context σ} {m n k : Machine σ} {content : Bytes}

/-- What is called is as deep as the caller. -/
theorem Calls.depth_eq {i : Instruction} (h : Calls ctx n i k content) : k.depth = n.depth := by
  cases h <;> rfl

/-- What is called has the same page around it. -/
theorem Calls.pageBounds_eq {i : Instruction} (h : Calls ctx n i k content) :
    k.pageBounds = n.pageBounds := by
  cases h <;> rfl

/-- A program **runs** to each of its moments. So what is known of runs is known of all the time up
to there. -/
theorem Passes.runs {a : Moment σ} (h : Passes ctx m content a) :
    ∃ t, Runs ctx 0 m t a.machine := by
  induction h with
  | start hp => exact ⟨[], .stay⟩
  | @next n n' frame frame' i is t _ hstep ih =>
      obtain ⟨u, hu⟩ := ih
      have hkeeps : Action.Keeps ctx 0 (fun frame' => frame'.base = frame.base)
          (Action.step ctx (Action.call ctx) frame i) :=
        Action.keeps_step Action.keeps_call (Nat.zero_le frame.base) i
      have hrun := hkeeps.runs (Nat.zero_le n.stack.depth)
      rw [hstep] at hrun
      exact ⟨_, hu.trans hrun⟩

/-- There are moments only of a program. -/
theorem Passes.exists_program {a : Moment σ} (h : Passes ctx m content a) :
    ∃ p, ctx.program? m.scopes content = .ok p := by
  induction h with
  | start hp => exact ⟨_, hp⟩
  | next _ _ ih => exact ih

/-- There are moments only of a content stream that is a program, whatever it calls. -/
theorem Arises.exists_program {a : Moment σ} (h : Arises ctx m content a) :
    ∃ p, ctx.program? m.scopes content = .ok p := by
  cases h with
  | own h => exact h.exists_program
  | nested h _ _ _ => exact h.exists_program

/-- A program is equally deep at all its moments, however deep its calls have been in between. -/
theorem Passes.depth_eq {a : Moment σ} (h : Passes ctx m content a) :
    a.machine.depth = m.depth := by
  obtain ⟨t, hrun⟩ := h.runs
  exact hrun.depth_eq

/-- The moments of what is called **at a moment** are moments of the whole. The induction is on how
deep the first moment itself has been called. -/
theorem Arises.of_calls {frame : Frame} {i : Instruction} {is : List Instruction} {a : Moment σ}
    {content' : Bytes} (h : Arises ctx m content ⟨n, frame, i :: is⟩)
    (hcalls : Calls ctx n i k content') (hdepth : n.depth < ctx.config.maxDepth)
    (ha : Arises ctx k.deeper content' a) : Arises ctx m content a := by
  generalize hb : (⟨n, frame, i :: is⟩ : Moment σ) = b at h
  induction h with
  | own h =>
      subst hb
      exact .nested h hcalls hdepth ha
  | nested h hcalls' hdepth' _ ih => exact .nested h hcalls' hdepth' (ih hb)

/-- The **bounds of the page** are the same at all moments. -/
theorem Arises.pageBounds_eq {a : Moment σ} (h : Arises ctx m content a) :
    a.machine.pageBounds = m.pageBounds := by
  induction h with
  | own h =>
      obtain ⟨t, hrun⟩ := h.runs
      exact hrun.pageBounds_eq
  | nested h hcalls _ _ ih =>
      obtain ⟨t, hrun⟩ := h.runs
      exact ih.trans (hcalls.pageBounds_eq.trans hrun.pageBounds_eq)

end

/-! ### The first moments -/

/-- Whether a program **begins by invoking** what is known by a name. -/
def Program.invokesFirst (name : String) (p : Program) : Bool :=
  (p.instructions.head?.bind Instruction.command?).any (Command.isInvokeOf name)

section

variable {ctx : Context σ} {m : Machine σ} {content : Bytes}

/-- The first moment of a program is when nothing has been done. -/
theorem Arises.exists_start (h : (ctx.program? m.scopes content).isOk = true) :
    ∃ a, Arises ctx m content a ∧ a.machine = m := by
  cases hp : ctx.program? m.scopes content with
  | error fault => simp [hp, Except.isOk, Except.toBool] at h
  | ok p => exact ⟨_, .own (.start hp), rfl⟩

/-- A program that invokes a form first comes to begin it at once: its first moment is when it is
about to do so. -/
theorem Passes.exists_beginsForm {name : String} {form : Form σ}
    (hfirst : (ctx.program? m.scopes content).toOption.any (Program.invokesFirst name) = true)
    (hfind : ctx.library.findXObject m.scopes name = .ok (.form form))
    (hform : form.identity ∉ m.forms) :
    ∃ frame i is, Passes ctx m content ⟨m, frame, i :: is⟩ ∧ BeginsForm ctx m i form := by
  cases hp : ctx.program? m.scopes content with
  | error fault => simp [hp, Except.toOption] at hfirst
  | ok p =>
      simp only [hp, Except.toOption, Option.any_some, Program.invokesFirst, Option.any_eq_true,
        Option.bind_eq_some_iff] at hfirst
      obtain ⟨command, ⟨i, hi, hcommand⟩, hname⟩ := hfirst
      obtain rfl := Command.eq_of_isInvokeOf hname
      obtain ⟨op, operands, rfl, hdecode⟩ := Instruction.exists_of_command? hcommand
      obtain ⟨is, hinstructions⟩ := List.head?_eq_some_iff.mp hi
      have hpasses := Passes.start hp
      rw [hinstructions] at hpasses
      exact ⟨_, _, is, hpasses, ⟨op, operands, name, rfl, hdecode, hfind⟩, hform⟩

/-- The moments of a form that a program invokes first are moments of the program. -/
theorem Arises.of_invokesFirst {name : String} {form : Form σ} {a : Moment σ}
    (hfirst : (ctx.program? m.scopes content).toOption.any (Program.invokesFirst name) = true)
    (hfind : ctx.library.findXObject m.scopes name = .ok (.form form))
    (hform : form.identity ∉ m.forms) (hdepth : m.depth < ctx.config.maxDepth)
    (ha : Arises ctx (m.enterForm form).deeper form.content a) : Arises ctx m content a := by
  obtain ⟨frame, i, is, hpasses, hbegins⟩ := Passes.exists_beginsForm hfirst hfind hform
  exact .nested hpasses (.form hbegins) hdepth ha

end

end ContentStream
