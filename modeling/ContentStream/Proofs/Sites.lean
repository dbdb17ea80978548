import ContentStream.Proofs.Calls

/-!
# Sites

What a content stream asks for depends on where it is executed: on the scopes in force, by which it
is decoded and in which its names have their meaning, and on the forms in execution, which it cannot
invoke again. A *site* is a content stream in such surroundings. It says which commands there are,
and which forms these may invoke, without running any of them.

## Main definitions

* `Site`: a content stream with the scopes and the forms around it.
* `Site.commands`: the commands of its program.
* `Site.Reaches`: from one site to those of the forms that are invoked there, and on from these.

## Main results

* `Site.mem_commands`: an instruction's command is among those of the site.
* `Site.Reaches.eq_of_any_isInvoke`, `Site.Reaches.eq_or_eq`: what is reached from a site that
  invokes nothing, and from one that invokes a single form.
-/

namespace ContentStream

variable {σ : Type}

/-- A **site**: a content stream, the scopes it is executed in, and the forms in execution. -/
structure Site (σ : Type) where
  scopes : List σ
  forms : List Nat
  content : Bytes

/-- The site of a **form** that is invoked from another site. -/
def Form.site (form : Form σ) (scopes : List σ) (forms : List Nat) : Site σ where
  scopes := form.scope.toList ++ scopes
  forms := form.identity :: forms
  content := form.content

/-- The **command** of an instruction, if it has one. -/
def Instruction.command? : Instruction → Option Command
  | .operate op operands => (Command.decode op operands).toOption
  | _ => none

/-- An instruction with a command is an operator whose operands are decoded, as inline images and
what is misspelled have no command at all. -/
theorem Instruction.exists_of_command? {i : Instruction} {command : Command}
    (h : i.command? = some command) :
    ∃ op operands, i = .operate op operands ∧ Command.decode op operands = .ok command := by
  cases i with
  | operate op operands =>
      refine ⟨op, operands, rfl, ?_⟩
      simp only [command?] at h
      cases hdecode : Command.decode op operands with
      | error fault => simp [hdecode, Except.toOption] at h
      | ok command' => simpa [hdecode, Except.toOption] using h
  | _ => cases h

/-- Whether a command **invokes** something. -/
def Command.isInvoke : Command → Bool
  | .invoke _ => true
  | _ => false

/-- Whether a command invokes what is **known by a name**. -/
def Command.isInvokeOf (name : String) : Command → Bool
  | .invoke name' => name' == name
  | _ => false

/-- A command that invokes what is known by a name is the one with this name. -/
theorem Command.eq_of_isInvokeOf {name : String} {c : Command} (h : c.isInvokeOf name = true) :
    c = .invoke name := by
  cases c with
  | invoke name' => rw [eq_of_beq h]
  | _ => cases h

namespace Site

/-- The **instructions** at a site; none if the content cannot be decoded or tokenized. -/
def instructions (ctx : Context σ) (s : Site σ) : List Instruction :=
  match ctx.program? s.scopes s.content with
  | .ok p => p.instructions
  | .error _ => []

/-- The instructions at a site are those of its program. -/
theorem instructions_eq {ctx : Context σ} {s : Site σ} {p : Program}
    (h : ctx.program? s.scopes s.content = .ok p) : s.instructions ctx = p.instructions := by
  rw [instructions, h]

/-- The **commands** at a site. -/
def commands (ctx : Context σ) (s : Site σ) : List Command :=
  (s.instructions ctx).filterMap Instruction.command?

/-- The commands at a site are those that its operators ask for. -/
theorem mem_commands {ctx : Context σ} {s : Site σ} {op : Operator} {operands : List Operand}
    {command : Command} (hmem : .operate op operands ∈ s.instructions ctx)
    (hdecode : Command.decode op operands = .ok command) : command ∈ s.commands ctx :=
  List.mem_filterMap.mpr ⟨_, hmem, by simp [Instruction.command?, hdecode, Except.toOption]⟩

/-- A site **invokes** a form if it has a command that does, and the form is not in execution. -/
structure Invokes (ctx : Context σ) (s : Site σ) (form : Form σ) : Prop where
  mem_commands : ∃ name, .invoke name ∈ s.commands ctx ∧
    ctx.library.findXObject s.scopes name = .ok (.form form)
  not_mem : form.identity ∉ s.forms

/-- A site **reaches** those of the forms that are invoked there, and all that these reach. -/
inductive Reaches (ctx : Context σ) : Site σ → Site σ → Prop
  | here {s : Site σ} : Reaches ctx s s
  | form {s s' : Site σ} {form : Form σ} (hform : s.Invokes ctx form) :
      Reaches ctx (form.site s.scopes s.forms) s' → Reaches ctx s s'

namespace Reaches

variable {ctx : Context σ} {s s' : Site σ}

/-- A site that invokes nothing reaches no other. -/
theorem eq_of_any_isInvoke (h : Reaches ctx s s')
    (hinvoke : (s.commands ctx).any Command.isInvoke = false) : s' = s := by
  cases h with
  | here => rfl
  | form hform _ =>
      obtain ⟨name, hname, -⟩ := hform.mem_commands
      exact absurd rfl (List.any_eq_false.mp hinvoke _ hname)

/-- A site that only invokes a form, which uses no name, reaches itself and the form. From the form
nothing is reached any further. -/
theorem eq_or_eq {name : String} {form : Form σ}
    (honly : (s.commands ctx).all (Command.isInvokeOf name) = true)
    (hfind : ctx.library.findXObject s.scopes name = .ok (.form form))
    (hform : ((form.site s.scopes s.forms).commands ctx).any Command.isInvoke = false)
    (h : Reaches ctx s s') : s' = s ∨ s' = form.site s.scopes s.forms := by
  cases h with
  | here => exact .inl rfl
  | form hinvokes h =>
      obtain ⟨name', hmem, hfind'⟩ := hinvokes.mem_commands
      cases Command.eq_of_isInvokeOf (List.all_eq_true.mp honly _ hmem)
      cases hfind.symm.trans hfind'
      exact .inr (h.eq_of_any_isInvoke hform)

end Reaches

end Site

end ContentStream
