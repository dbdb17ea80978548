import ContentStream.Proofs.Likeness
import ContentStream.Proofs.Moments

/-!
# Places

The tile of a pattern is rendered where the pattern is first selected, and then serves for the rest
of the page, so that it should not matter where that was. Nothing of the caller's graphics state is
seen by a cell, which begins in a state of its own. What is left around it are the scopes, the forms
in execution, and how deep the program is nested. The scopes do not matter to a program that finds
all its names in its own ones, as long as it selects no tile, of which it could make a difference
whether there is one already. The forms matter by the guard against forms that invoke themselves,
and the depth by the limit on nesting. Otherwise, the same is seen of a cell at all the moments of a
page.

## Main definitions

* `Site.SelfContained`: the program of a site depends on no names around it, and selects no tiles.
* `Site.FitsAlike`: the limit and the guard make no difference between two places.
* `placing`: how two runs compare that go on at one site, called from two places.
* `Outcome.RendersTile`: a tile is rendered, and what is shown in its cell.

## Main results

* `Action.same_step_at`: an instruction goes alike at both places, if the forms that it invokes do.
* `Action.same_call`: a nested program goes alike at both places.
* `tile_same_at_moments`: a tile shows the same wherever it is rendered.
* `tile_differs_between_places`: unless the limit or the guard makes a difference.
-/

namespace ContentStream

variable {σ : Type}

/-! ### Names that scopes define -/

namespace Library

variable {lib : Library σ} {scopes : List σ}

/-- What scopes say of a name, more scopes around them do not change: the innermost scope that knows
the name is still the first that is asked. -/
theorem find_append {ρ : Type} {lookup : σ → String → Option ρ} {kind : ResourceKind}
    {name : String} {found : ρ} (h : find lookup kind scopes name = .ok found) (outer : List σ) :
    find lookup kind (scopes ++ outer) name = .ok found := by
  unfold find at h ⊢
  rw [List.findSome?_append]
  split at h
  · rename_i found' hfound
    rw [hfound]
    exact h
  · cases h

/-- So it is with a color space that is found. -/
theorem spaceOf_append {name : String} {space : ColorSpace}
    (h : lib.spaceOf scopes name = .ok space) (outer : List σ) :
    lib.spaceOf (scopes ++ outer) name = .ok space := by
  unfold spaceOf at h ⊢
  split at h
  · exact h
  · exact find_append h outer

/-- Content is decoded by the innermost scope, if there is one. -/
theorem decode_append (h : scopes ≠ []) (outer : List σ) (raw : Bytes) :
    lib.decode (scopes ++ outer) raw = lib.decode scopes raw := by
  cases scopes with
  | nil => exact absurd rfl h
  | cons scope scopes => rfl

/-- An inline image is decoded by the innermost scope, too. -/
theorem inlineImage_append (h : scopes ≠ []) (outer : List σ) (dict : Dict) (data : Bytes) :
    lib.inlineImage (scopes ++ outer) dict data = lib.inlineImage scopes dict data := by
  cases scopes with
  | nil => exact absurd rfl h
  | cons scope scopes => rfl

end Library

namespace Command

/-- The scopes **define the names** that a command uses. -/
def Defined (lib : Library σ) (scopes : List σ) : Command → Prop
  | .font name _ => ∃ font, lib.findFont scopes name = .ok font
  | .extGState name => ∃ dict, lib.findExtGState scopes name = .ok dict ∧
    ∀ name size, .font name size ∈ Parameter.ofDict dict →
      ∃ font, lib.findFont scopes name = .ok font
  | .space _ name => ∃ space, lib.spaceOf scopes name = .ok space
  | .color _ op operands => ∀ name rest, (Take.name op).run operands = .ok (name, rest) →
    ∃ pattern, lib.findPattern scopes name = .ok pattern
  | .invoke name => ∃ x, lib.findXObject scopes name = .ok x
  | .shade name => ∃ shading, lib.findShading scopes name = .ok shading
  | _ => True

/-- A command **selects a tiling pattern**, if it is given in a pattern space. -/
def SelectsTiling (lib : Library σ) (scopes : List σ) : Command → Prop
  | .color _ op operands => ∃ name rest tiling, (Take.name op).run operands = .ok (name, rest) ∧
    lib.findPattern scopes name = .ok (.tiling tiling)
  | _ => False

/-- Whether a command uses **no name**. -/
def isNameless : Command → Bool
  | .font _ _ | .extGState _ | .space _ _ | .color _ _ _ | .invoke _ | .shade _ => false
  | _ => true

/-- A command without names asks nothing of the scopes. -/
theorem defined_of_isNameless {lib : Library σ} {scopes : List σ} {command : Command}
    (h : command.isNameless = true) :
    command.Defined lib scopes ∧ ¬ command.SelectsTiling lib scopes := by
  cases command with
  | font _ _ | extGState _ | space _ _ | color _ _ _ | invoke _ | shade _ => cases h
  | _ => exact ⟨trivial, id⟩

end Command

/-- A color that is selected by a name that is defined, and not as that of a tiling pattern, is the
same with more scopes around. -/
theorem Library.select_append {lib : Library σ} {scopes : List σ} {side : Side} {op : String}
    {operands : List Operand} (hdefined : (Command.color side op operands).Defined lib scopes)
    (htiling : ¬ (Command.color side op operands).SelectsTiling lib scopes) (space : ColorSpace) :
    (∃ fault, ∀ outer, lib.select (scopes ++ outer) op space operands = .error fault) ∨
    ∃ paint, ∀ outer, lib.select (scopes ++ outer) op space operands = .ok (.paint paint) := by
  unfold select
  -- A name is looked up in a pattern space only; elsewhere the operands are numbers.
  by_cases hpattern : space.isPattern = true
  · simp only [hpattern, if_true]
    rcases hname : (Take.name op).run operands with fault | ⟨name, rest⟩
    · exact .inl ⟨fault, fun _ => rfl⟩
    · obtain ⟨pattern, hfind⟩ := hdefined name rest hname
      have hfind' (outer : List σ) : lib.findPattern (scopes ++ outer) name = .ok pattern :=
        find_append hfind outer
      cases pattern with
      | tiling tiling => exact absurd ⟨name, rest, tiling, hname, hfind⟩ htiling
      | shading shading matrix =>
          exact .inr ⟨.shading shading matrix, fun outer => by simp [Except.bind, hfind']⟩
  · simp only [hpattern, Bool.false_eq_true, if_false]
    rcases (Take.numbers op space.components).run' operands with fault | color
    · exact .inl ⟨fault, fun _ => rfl⟩
    · exact .inr ⟨.solid color, fun _ => rfl⟩

/-! ### Places -/

/-- A machine is **at a site**, some levels deep in a nested program that was called from a place:
the scopes and forms in force are those of the site, and around them those of the place. -/
structure Machine.AtSite (m : Machine σ) (site : Site σ) (level : Nat) (place : Machine σ) :
    Prop where
  scopes_eq : m.scopes = site.scopes ++ place.scopes
  forms_eq : m.forms = site.forms ++ place.forms
  depth_eq : m.depth = place.depth + level

namespace Machine.AtSite

variable {m place : Machine σ} {site : Site σ} {level : Nat}

/-- A form is entered at its own site, at the same level. -/
theorem enterForm (h : m.AtSite site level place) (form : Form σ) :
    (m.enterForm form).AtSite (form.site site.scopes site.forms) level place where
  scopes_eq := by
    rw [Form.site, List.append_assoc, ← h.scopes_eq]
    rfl
  forms_eq := congrArg (form.identity :: ·) h.forms_eq
  depth_eq := h.depth_eq

/-- A machine that goes deeper is at the same site, one level further. -/
theorem deeper (h : m.AtSite site level place) : m.deeper.AtSite site (level + 1) place :=
  ⟨h.scopes_eq, h.forms_eq, congrArg (· + 1) h.depth_eq⟩

end Machine.AtSite

/-- Runs are compared that go on at a site, **for two places**. Their states are the same, and so is
what is seen of them. -/
def placing (site : Site σ) (level : Nat) (place place' : Machine σ) : Likeness σ where
  ink := Eq
  point := Eq
  saved := List.Forall₂ (GState.Like Eq Eq)
  rest m m' :=
    m.pageBounds = m'.pageBounds ∧ m.AtSite site level place ∧ m'.AtSite site level place'
  trace := Eq
  laws := .eq
  rest_stack _ _ h := ⟨h.1, ⟨h.2.1.1, h.2.1.2, h.2.1.3⟩, ⟨h.2.2.1, h.2.2.2, h.2.2.3⟩⟩
  pageBounds_eq h := h.1

/-- The states of runs that are compared in this way are the same, one by one. -/
theorem exact_placing (site : Site σ) (level : Nat) (place place' : Machine σ) :
    (placing site level place place').Exact :=
  ⟨rfl, rfl, rfl⟩

namespace Likeness.Holds

variable {site : Site σ} {level : Nat} {place place' m m' : Machine σ}

/-- It is enough that the stacks are the same and that both machines are at the site. -/
theorem of_stack_eq (hstack : m.stack = m'.stack)
    (h : (placing site level place place').rest m m') :
    (placing site level place place').Holds m m' :=
  (exact_placing site level place place').holds_iff.mpr ⟨hstack, h⟩

/-- The stacks are the same, at both places. -/
theorem stack_eq (h : (placing site level place place').Holds m m') : m.stack = m'.stack :=
  ((exact_placing site level place place').holds_iff.mp h).1

/-- A form is entered alike from both places. -/
theorem enterForm_at (h : (placing site level place place').Holds m m') (form : Form σ) :
    (placing (form.site site.scopes site.forms) level place place').Holds (m.enterForm form)
      (m'.enterForm form) := by
  have hstack : (m.enterForm form).stack = (m'.enterForm form).stack := by
    simp only [Machine.enterForm, Machine.enter, h.stack_eq]
  exact .of_stack_eq hstack ⟨h.rest.1, h.rest.2.1.enterForm form, h.rest.2.2.enterForm form⟩

/-- Both machines may go deeper. -/
theorem deeper (h : (placing site level place place').Holds m m') :
    (placing site (level + 1) place place').Holds m.deeper m'.deeper :=
  .of_stack_eq h.stack_eq ⟨h.rest.1, h.rest.2.1.deeper, h.rest.2.2.deeper⟩

/-- Both may come back from there. -/
theorem shallower (h : (placing site (level + 1) place place').Holds m m') :
    (placing site level place place').Holds { m with depth := m.depth - 1 }
      { m' with depth := m'.depth - 1 } := by
  obtain ⟨hbounds, hm, hm'⟩ := h.rest
  refine .of_stack_eq h.stack_eq ⟨hbounds, ⟨hm.scopes_eq, hm.forms_eq, ?_⟩,
    ⟨hm'.scopes_eq, hm'.forms_eq, ?_⟩⟩
  · simp only [hm.depth_eq, Nat.add_succ_sub_one]
  · simp only [hm'.depth_eq, Nat.add_succ_sub_one]

end Likeness.Holds

/-- A site whose program **depends on nothing around it**: the names that its commands use are
defined by its own scopes, and none of them selects a tiling pattern. -/
structure Site.SelfContained (ctx : Context σ) (s : Site σ) : Prop where
  defined : ∀ c ∈ s.commands ctx, c.Defined ctx.library s.scopes
  noTiling : ∀ c ∈ s.commands ctx, ¬ c.SelectsTiling ctx.library s.scopes

/-- A site **reaches another from a place** if none of the forms that are invoked on the way is in
execution there. -/
structure Site.ReachesFrom (ctx : Context σ) (s : Site σ) (place : Machine σ) (s' : Site σ) :
    Prop where
  reaches : s.Reaches ctx s'
  apart : s'.forms.Disjoint place.forms

/-- Two places where a program may be called are **equally good** for it: of the programs that it
reaches from the first of them, the limit on nesting admits the same at both, and of the forms that
are invoked by these, the same are in execution. -/
structure Site.FitsAlike (ctx : Context σ) (s : Site σ) (place place' : Machine σ) : Prop where
  limit : ∀ s', s.ReachesFrom ctx place s' →
    (place.depth + s'.forms.length < ctx.config.maxDepth ↔
      place'.depth + s'.forms.length < ctx.config.maxDepth)
  forms : ∀ s' form, s.ReachesFrom ctx place s' →
    place.depth + s'.forms.length < ctx.config.maxDepth → s'.Invokes ctx form →
    (form.identity ∈ place.forms ↔ form.identity ∈ place'.forms)

/-- Places that are equally good for a program are so for the forms that it invokes. -/
theorem Site.FitsAlike.invokes {ctx : Context σ} {s : Site σ} {place place' : Machine σ}
    (h : s.FitsAlike ctx place place') {form : Form σ} (hform : s.Invokes ctx form) :
    (form.site s.scopes s.forms).FitsAlike ctx place place' where
  limit s' hs' := h.limit s' ⟨.form hform hs'.reaches, hs'.apart⟩
  forms s' form' hs' := h.forms s' form' ⟨.form hform hs'.reaches, hs'.apart⟩

namespace Action

variable {ctx : Context σ} {site : Site σ} {level : Nat} {place place' m m' : Machine σ}

/-- Commands with names that are defined at the site find the same at both places. A parameter
dictionary does so with the fonts that it names, which are looked up later. -/
theorem agrees_placing {command : Command} (h : command.Defined ctx.library site.scopes) :
    command.Agrees (placing site level place place') ctx ctx := by
  cases command with
  | font name size =>
      obtain ⟨font, hfont⟩ := h
      rintro n n' ⟨-, hn, hn'⟩
      rw [hn.scopes_eq, hn'.scopes_eq]
      exact (Library.find_append hfont _).trans (Library.find_append hfont _).symm
  | extGState name =>
      obtain ⟨dict, hdict, hfonts⟩ := h
      rintro n n' ⟨-, hn, hn'⟩
      have hfind := Library.find_append hdict place.scopes
      rw [hn.scopes_eq, hn'.scopes_eq]
      refine ⟨hfind.trans (Library.find_append hdict _).symm, ?_⟩
      rintro dict' hdict' name size hmem k k' ⟨-, hk, hk'⟩
      obtain rfl := Except.ok.inj (hfind.symm.trans hdict')
      obtain ⟨font, hfont⟩ := hfonts name size hmem
      rw [hk.scopes_eq, hk'.scopes_eq]
      exact (Library.find_append hfont _).trans (Library.find_append hfont _).symm
  | space side name =>
      obtain ⟨space, hspace⟩ := h
      rintro n n' ⟨-, hn, hn'⟩
      rw [hn.scopes_eq, hn'.scopes_eq, Library.spaceOf_append hspace, Library.spaceOf_append hspace]
      exact ⟨rfl, fun _ _ => rfl⟩
  | device side model color => rfl
  | shade name =>
      obtain ⟨shading, hshading⟩ := h
      rintro n n' ⟨-, hn, hn'⟩
      rw [hn.scopes_eq, hn'.scopes_eq]
      exact (Library.find_append hshading _).trans (Library.find_append hshading _).symm
  | _ => trivial

section Calling

variable {call : Bytes → Action σ Unit}
  (hcall : ∀ floor content, Keeps ctx floor anything (call content))
  (h : (placing site level place place').Holds m m')

include h

/-- Where no tile is selected, a color is the same at both places: the space is that of the state,
and a pattern is found in the scopes of the site. -/
theorem same_selectColor_of_defined {side : Side} {op : String} {operands : List Operand}
    (hdefined : (Command.color side op operands).Defined ctx.library site.scopes)
    (htiling : ¬ (Command.color side op operands).SelectsTiling ctx.library site.scopes) :
    (placing site level place place').Same ((selectColor ctx call side op operands).run m)
      ((selectColor ctx call side op operands).run m') := by
  rw [run_selectColor, run_selectColor, h.rest.2.1.scopes_eq, h.rest.2.2.scopes_eq, ← h.stack_eq]
  obtain ⟨fault, hselect⟩ | ⟨paint, hselect⟩ :=
    Library.select_append hdefined htiling (m.stack.current.ink side).space
  · rw [hselect, hselect]
    exact same_fail h fault
  · rw [hselect, hselect]
    exact same_modifyState h (h.current.setInk side rfl)

include hcall

/-- A form is passed over at both places, or goes alike if its content does. It is passed over if
the site is inside of it, or if the place is. -/
theorem same_runForm_at {form : Form σ}
    (hid : form.identity ∉ site.forms →
      (form.identity ∈ place.forms ↔ form.identity ∈ place'.forms))
    (hform : form.identity ∉ site.forms → form.identity ∉ place.forms →
      (placing (form.site site.scopes site.forms) level place place').Same
        ((call form.content).run (m.enterForm form))
        ((call form.content).run (m'.enterForm form))) :
    (placing site level place place').Same ((runForm call form).run m)
      ((runForm call form).run m') := by
  -- The guard sees the forms of the site and those around it, and only the latter can differ.
  have hmem : form.identity ∈ m.forms ↔ form.identity ∈ m'.forms := by
    rw [h.rest.2.1.forms_eq, h.rest.2.2.forms_eq, List.mem_append, List.mem_append]
    by_cases hsite : form.identity ∈ site.forms
    · simp [hsite]
    · rw [hid hsite]
  refine same_runForm hcall hcall h hmem fun hm => ?_
  rw [h.rest.2.1.forms_eq, List.mem_append, not_or] at hm
  have hrun := (hform hm.1 hm.2).both
  generalize (call form.content).run (m.enterForm form) = o at hrun
  generalize (call form.content).run (m'.enterForm form) = o' at hrun
  obtain ⟨-, ht, hmachine⟩ := hrun
  have htrace : o.trace = o'.trace := ht
  have hplaces := h.rest.2
  refine ⟨?_, .of_stack_eq h.stack_eq ⟨h.rest.1, ?_, ?_⟩⟩
  · rw [htrace, hmachine.stack_eq, h.stack_eq]
    rfl
  · exact ⟨hplaces.1.scopes_eq, hplaces.1.forms_eq, hplaces.1.depth_eq⟩
  · exact ⟨hplaces.2.scopes_eq, hplaces.2.forms_eq, hplaces.2.depth_eq⟩

variable (hself : site.SelfContained ctx)
  (hforms : ∀ form, site.Invokes ctx form →
    (form.identity ∈ place.forms ↔ form.identity ∈ place'.forms))
  (hcalls : ∀ form, site.Invokes ctx form → form.identity ∉ place.forms → ∀ n n' : Machine σ,
    (placing (form.site site.scopes site.forms) level place place').Holds n n' →
    (placing (form.site site.scopes site.forms) level place place').Same
      ((call form.content).run n) ((call form.content).run n'))

include hself hforms hcalls

/-- An object that the program invokes is the same image at both places, or a form that goes
alike. -/
theorem same_invoke_at {name : String} (hmem : .invoke name ∈ site.commands ctx) :
    (placing site level place place').Same ((invoke ctx call name).run m)
      ((invoke ctx call name).run m') := by
  obtain ⟨x, hx⟩ := hself.defined _ hmem
  have hfind (n k : Machine σ) (hn : n.AtSite site level k) :
      ctx.library.findXObject n.scopes name = .ok x := by
    rw [hn.scopes_eq]
    exact Library.find_append hx _
  rw [run_invoke, run_invoke, hfind m _ h.rest.2.1, hfind m' _ h.rest.2.2]
  cases x with
  | image image => exact same_drawImage h image
  | form form =>
      have hinvokes (hid : form.identity ∉ site.forms) : site.Invokes ctx form :=
        ⟨⟨name, hmem, hx⟩, hid⟩
      exact same_runForm_at hcall h (fun hid => hforms form (hinvokes hid))
        fun hid hplace => hcalls form (hinvokes hid) hplace _ _ (h.enterForm_at form)

/-- An instruction at a site goes alike at both places, if the forms do that it invokes. All of its
names are defined at the site, and the inline images need a scope only to be there. -/
theorem same_step_at (hscopes : site.scopes ≠ []) {i : Instruction}
    (hi : i ∈ site.instructions ctx) (frame : Frame) :
    (placing site level place place').Same ((step ctx call frame i).run m)
      ((step ctx call frame i).run m') := by
  refine same_step h (fun op operands command hop hdecode => ?_) fun dict data _ => ?_
  · subst hop
    have hmem : command ∈ site.commands ctx := Site.mem_commands hi hdecode
    have hdefined : command.Defined ctx.library site.scopes := hself.defined command hmem
    refine same_perform_of_even (exact_placing site level place place').even h
      (agrees_placing hdefined) frame ?_ ?_
    · rintro side spelling args rfl
      exact same_selectColor_of_defined h hdefined (hself.noTiling _ hmem)
    · rintro name rfl
      exact same_invoke_at hcall h hself hforms hcalls hmem
  · obtain ⟨scope, scopes, hs⟩ := List.exists_cons_of_ne_nil hscopes
    refine same_drawInlineImage h ?_ ?_
    · rw [h.rest.2.1.scopes_eq, h.rest.2.2.scopes_eq, Library.inlineImage_append hscopes,
        Library.inlineImage_append hscopes]
    · rw [h.rest.2.1.scopes_eq, h.rest.2.2.scopes_eq, hs]
      rfl

end Calling

/-- A content stream at a site goes alike at both places, if the forms do that it invokes. It is the
same program at both of them, and its instructions are those of the site. -/
theorem same_execute_at (hscopes : site.scopes ≠ []) (hself : site.SelfContained ctx)
    (hforms : ∀ form, site.Invokes ctx form →
      (form.identity ∈ place.forms ↔ form.identity ∈ place'.forms))
    (hcalls : ∀ form, site.Invokes ctx form → form.identity ∉ place.forms → ∀ n n' : Machine σ,
      (placing (form.site site.scopes site.forms) level place place').Holds n n' →
      (placing (form.site site.scopes site.forms) level place place').Same
        ((call ctx form.content).run n) ((call ctx form.content).run n'))
    (h : (placing site level place place').Holds m m') :
    (placing site level place place').Same ((execute ctx site.content).run m)
      ((execute ctx site.content).run m') := by
  have hprogram (n k : Machine σ) (hn : n.AtSite site level k) :
      ctx.program? n.scopes site.content = ctx.program? site.scopes site.content := by
    rw [Context.program?, Context.program?, hn.scopes_eq, Library.decode_append hscopes]
  have hrun : Outcome.Alike (placing site level place place').trace
      (placing site level place place').Holds
      (fun _ _ n n' => (placing site level place place').Holds n n')
      ((runContent ctx (call ctx) site.content).run m)
      ((runContent ctx (call ctx) site.content).run m') := by
    refine alike_runContent h ?_ (by rw [h.stack_eq]) fun p hp => ?_
    · rw [hprogram m _ h.rest.2.1, hprogram m' _ h.rest.2.2]
    · have hinstructions : site.instructions ctx = p.instructions :=
        Site.instructions_eq (hprogram m _ h.rest.2.1 ▸ hp)
      refine (same_steps (fun i hi frame n n' hn => ?_) h _).mono (fun _ _ h => h) (fun _ _ h => h)
        fun _ _ _ _ h => h.2
      exact same_step_at keeps_call hn hself hforms hcalls hscopes (hinstructions ▸ hi) frame
  exact hrun.mono (fun _ _ h => h) (fun _ _ h => h) fun _ _ _ _ h => ⟨rfl, h⟩

/-- A nested program goes alike at two places that are equally good for it. The induction is on the
levels that are left at the first of them. -/
theorem same_call {site : Site σ} (hscopes : site.scopes ≠ [])
    (hself : ∀ s, site.Reaches ctx s → s.SelfContained ctx)
    (hfits : site.FitsAlike ctx place place') (hapart : site.forms.Disjoint place.forms)
    (h : (placing site site.forms.length place place').Holds m m') :
    (placing site site.forms.length place place').Same ((call ctx site.content).run m)
      ((call ctx site.content).run m') := by
  induction hlevels : ctx.config.maxDepth - m.depth using Nat.strongRecOn
    generalizing site m m' with
  | _ levels ih =>
  subst hlevels
  have hlimit := hfits.limit site ⟨.here, hapart⟩
  rw [← h.rest.2.1.depth_eq, ← h.rest.2.2.depth_eq] at hlimit
  rw [run_call, run_call]
  by_cases hm : m.depth < ctx.config.maxDepth
  · have hlevel : place.depth + site.forms.length < ctx.config.maxDepth :=
      h.rest.2.1.depth_eq ▸ hm
    have hrun : (placing site (site.forms.length + 1) place place').Same
        ((execute ctx site.content).run { m with depth := m.depth + 1 })
        ((execute ctx site.content).run { m' with depth := m'.depth + 1 }) := by
      refine same_execute_at hscopes (hself site .here)
        (fun form => hfits.forms site form ⟨.here, hapart⟩ hlevel)
        (fun form hform hplace n n' hn => ?_) h.deeper
      -- A form that is invoked here is called one level deeper, with fewer levels left.
      have hdepth : n.depth = m.depth + 1 := by
        rw [hn.rest.2.1.depth_eq, h.rest.2.1.depth_eq]
        rfl
      have hscopes' : (form.site site.scopes site.forms).scopes ≠ [] :=
        List.append_ne_nil_of_right_ne_nil _ hscopes
      have hapart' : (form.site site.scopes site.forms).forms.Disjoint place.forms :=
        List.disjoint_cons_left.mpr ⟨hplace, hapart⟩
      exact ih _ (by omega) hscopes' (fun s hs => hself s (.form hform hs)) (hfits.invokes hform)
        hapart' hn rfl
    rw [if_pos hm, if_pos (hlimit.mp hm), run_deeper, run_deeper]
    generalize (execute ctx site.content).run { m with depth := m.depth + 1 } = o at hrun
    generalize (execute ctx site.content).run { m' with depth := m'.depth + 1 } = o' at hrun
    cases hrun with
    | ok ht hn => exact .ok ht ⟨hn.1, hn.2.shallower⟩
    | error fault ht hn => exact .error fault ht hn.shallower
  · rw [if_neg hm, if_neg (fun hm' => hm (hlimit.mpr hm'))]
    exact .error _ rfl h

end Action

/-! ### Tiles -/

/-- The site of a **cell**, apart from what is around it. -/
def Tiling.site (tiling : Tiling σ) : Site σ where
  scopes := tiling.scope.toList
  forms := []
  content := tiling.content

/-- A **tile is rendered** and kept for later, as that of a pattern whose cell shows some events. -/
structure Outcome.RendersTile (o : Outcome σ Tile) (key : TileKey) (tiling : Tiling σ)
    (cell : List Event) : Prop where
  tile : ∃ surface, o.result = .ok (tiling.tile surface) ∧
    o.machine.tiles.lookup key = some (tiling.tile surface)
  events : o.events = .beginTile tiling.bbox tiling.matrix :: (cell ++ [.endTile])

/-- All that is **shown in a cell**, with the states that are restored when it is left. -/
def Outcome.shown (o : Outcome σ Unit) : List Event :=
  (o.trace ++ o.machine.stack.leaving 1).events

/-- A pattern of which there is no tile yet is rendered, and what is seen of it is what its cell
shows. -/
theorem Action.renders_tile {ctx : Context σ} {m : Machine σ} {tiling : Tiling σ}
    {tint : Option Tint} (hmiss : m.tiles.lookup (ctx.config.tileSharing.key tiling tint) = none) :
    ((tile ctx (call ctx) tiling tint).run m).RendersTile (ctx.config.tileSharing.key tiling tint)
      tiling ((call ctx tiling.content).run (m.enterCell tiling tint)).shown := by
  rw [run_tile_eq keeps_call hmiss]
  exact ⟨⟨_, rfl, List.lookup_cons_self⟩, by simp [Outcome.events, Outcome.shown]⟩

/-- **A tile shows the same wherever it is rendered**, as far as the places are equally good for it.
Let a pattern have a scope of its own, by which the names are defined that its cell uses and the
forms that this reaches, and let none of them select a tiling pattern. At any two moments of the
same page at which there is no tile yet, the same is seen of rendering it, provided that at both the
limit on nesting admits the same of these programs, and the same of these forms are in execution. -/
theorem tile_same_at_moments (ctx : Context σ) (page : Page σ) (m m' : Machine σ) {a a' : Moment σ}
    (ha : Arises ctx (m.turnTo page) page.content a)
    (ha' : Arises ctx (m'.turnTo page) page.content a') (tiling : Tiling σ) (tint : Option Tint)
    (hscope : tiling.scope.isSome = true)
    (hself : ∀ s, tiling.site.Reaches ctx s → s.SelfContained ctx)
    (hfits : tiling.site.FitsAlike ctx a.machine a'.machine)
    (hmiss : a.machine.tiles.lookup (ctx.config.tileSharing.key tiling tint) = none)
    (hmiss' : a'.machine.tiles.lookup (ctx.config.tileSharing.key tiling tint) = none) :
    let key := ctx.config.tileSharing.key tiling tint
    let render := Action.tile ctx (Action.call ctx) tiling tint
    ∃ cell, (render.run a.machine).RendersTile key tiling cell ∧
      (render.run a'.machine).RendersTile key tiling cell := by
  have hscopes : tiling.site.scopes ≠ [] := by
    obtain ⟨scope, hs⟩ := Option.isSome_iff_exists.mp hscope
    simp [Tiling.site, hs]
  have hbounds : a.machine.pageBounds = a'.machine.pageBounds :=
    ha.pageBounds_eq.trans ha'.pageBounds_eq.symm
  have hcell : (placing tiling.site 0 a.machine a'.machine).Holds
      (a.machine.enterCell tiling tint) (a'.machine.enterCell tiling tint) :=
    .of_stack_eq rfl ⟨hbounds, ⟨rfl, rfl, rfl⟩, ⟨rfl, rfl, rfl⟩⟩
  obtain ⟨-, ht, hmachine⟩ :=
    (Action.same_call hscopes hself hfits (List.disjoint_nil_left _) hcell).both
  have hshown : ((Action.call ctx tiling.content).run (a.machine.enterCell tiling tint)).shown =
      ((Action.call ctx tiling.content).run (a'.machine.enterCell tiling tint)).shown :=
    congrArg₂ (fun t stack => (t ++ GStack.leaving stack 1).events) ht hmachine.stack_eq
  exact ⟨_, Action.renders_tile hmiss, hshown ▸ Action.renders_tile hmiss'⟩

/-! ### A page and a form on it -/

namespace Site

variable {ctx : Context σ} {s s' : Site σ}

/-- A site at which no name is used is self-contained. -/
theorem selfContained_of_isNameless (h : (s.commands ctx).all Command.isNameless = true) :
    s.SelfContained ctx :=
  have hall : ∀ c ∈ s.commands ctx,
      c.Defined ctx.library s.scopes ∧ ¬ c.SelectsTiling ctx.library s.scopes :=
    fun c hc => Command.defined_of_isNameless (List.all_eq_true.mp h c hc)
  ⟨fun c hc => (hall c hc).1, fun c hc => (hall c hc).2⟩

end Site

namespace TwoPlaces

/-- A form that **fills a square**. -/
def form (identity : Nat) : Form Nat where
  identity := identity
  bbox := ⟨0.0, 0.0, 10.0, 10.0⟩
  matrix := Matrix.identity
  content := Utf8.encode "0 0 1 1 re f"
  scope := none

/-- A form is known to the page, in the first table, and this form and another **to the pattern**,
in the second. -/
def directory : Directory :=
  #[{ xobjects := [("F", .form (form 1))] },
    { xobjects := [("F", .form (form 1)), ("G", .form (form 2))] }]

/-- A context with some **limit on nesting**. -/
def ctx (maxDepth : Nat) : Context Nat where
  library := directory.library
  config := { maxDepth }
  surface := some

/-- A page that **invokes the form**. -/
def page : Page Nat where
  mediaBox := ⟨0.0, 0.0, 10.0, 10.0⟩
  content := Utf8.encode "/F Do"
  scope := 0

/-- A pattern with a **given cell**. -/
def tiling (cell : String) : Tiling Nat where
  identity := 7
  kind := .colored
  bbox := ⟨0.0, 0.0, 1.0, 1.0⟩
  xStep := 1.0
  yStep := 1.0
  matrix := Matrix.identity
  content := Utf8.encode cell
  scope := some 1

/-- The machine at the **beginning of the page**. -/
def pageStart : Machine Nat :=
  Machine.turnTo { scopes := [] } page

/-- The machine at the **beginning of the form** on the page. -/
def formStart : Machine Nat :=
  (pageStart.enterForm (form 1)).deeper

/-- There is a moment at the beginning of the page, and one at the beginning of the form on it. The
page begins with the operator that invokes the form. -/
theorem exists_moments {maxDepth : Nat} (h : 0 < maxDepth) :
    ∃ a a', Arises (ctx maxDepth) pageStart page.content a ∧
      Arises (ctx maxDepth) pageStart page.content a' ∧
      a.machine = pageStart ∧ a'.machine = formStart := by
  have hstart : ((ctx maxDepth).program? pageStart.scopes page.content).isOk = true :=
    show ((ctx 0).program? pageStart.scopes page.content).isOk = true by decide +kernel
  have hfirst : ((ctx maxDepth).program? pageStart.scopes page.content).toOption.any
      (Program.invokesFirst "F") = true :=
    show ((ctx 0).program? pageStart.scopes page.content).toOption.any
      (Program.invokesFirst "F") = true by decide +kernel
  have hstart' : ((ctx maxDepth).program? formStart.scopes (form 1).content).isOk = true :=
    show ((ctx 0).program? formStart.scopes (form 1).content).isOk = true by decide +kernel
  obtain ⟨a, ha, hpage⟩ := Arises.exists_start hstart
  obtain ⟨a', ha', hform⟩ := Arises.exists_start hstart'
  exact ⟨a, a', ha, .of_invokesFirst hfirst rfl (List.not_mem_nil) h ha', hpage, hform⟩

/-- What is reached from a cell that invokes a form: the cell, and the form. -/
theorem reaches_cell {maxDepth identity : Nat} {cell name : String} {s : Site Nat}
    (honly : ((tiling cell).site.commands (ctx maxDepth)).all (Command.isInvokeOf name) = true)
    (hfind : (ctx maxDepth).library.findXObject [1] name = .ok (.form (form identity)))
    (h : (tiling cell).site.Reaches (ctx maxDepth) s) :
    s = (tiling cell).site ∨ s = (form identity).site [1] [] := by
  have hform : (((form identity).site [1] []).commands (ctx maxDepth)).any
      Command.isInvoke = false :=
    show (((form 0).site [1] []).commands (ctx 0)).any Command.isInvoke = false by decide +kernel
  exact h.eq_or_eq honly hfind hform

/-- A cell is self-contained if it invokes forms by one name, and the pattern's table knows it. It
reaches but itself and that form, which has no names. -/
theorem selfContained_cell {maxDepth identity : Nat} {cell name : String} {s : Site Nat}
    (honly : ((tiling cell).site.commands (ctx maxDepth)).all (Command.isInvokeOf name) = true)
    (hfind : (ctx maxDepth).library.findXObject [1] name = .ok (.form (form identity)))
    (h : (tiling cell).site.Reaches (ctx maxDepth) s) : s.SelfContained (ctx maxDepth) := by
  obtain rfl | rfl := reaches_cell honly hfind h
  · refine ⟨fun c hc => ?_, fun c hc => ?_⟩
    all_goals cases Command.eq_of_isInvokeOf (List.all_eq_true.mp honly c hc)
    · exact ⟨_, hfind⟩
    · exact id
  · have hnameless : (((form identity).site [1] []).commands (ctx maxDepth)).all
        Command.isNameless = true :=
      show (((form 0).site [1] []).commands (ctx 0)).all Command.isNameless = true by decide +kernel
    exact Site.selfContained_of_isNameless hnameless

/-- The cell invokes the other form, and does nothing else. -/
theorem onlyInvokes_other :
    ((tiling "/G Do").site.commands (ctx 32)).all (Command.isInvokeOf "G") = true := by
  decide +kernel

/-- The beginning of the page and the beginning of the form on it are equally good for a cell that
invokes the other form. -/
theorem fitsAlike_other : (tiling "/G Do").site.FitsAlike (ctx 32) pageStart formStart where
  limit s hs := by
    obtain rfl | rfl := reaches_cell onlyInvokes_other rfl hs.reaches <;> decide
  forms s form' hs _ hform := by
    obtain ⟨name, hname, hfind⟩ := hform.mem_commands
    obtain rfl | rfl := reaches_cell onlyInvokes_other rfl hs.reaches
    · cases Command.eq_of_isInvokeOf (List.all_eq_true.mp onlyInvokes_other _ hname)
      cases hfind
      decide
    · have hinvoke : (((form 2).site [1] []).commands (ctx 32)).any Command.isInvoke = false := by
        decide +kernel
      exact absurd rfl (List.any_eq_false.mp hinvoke _ hname)

end TwoPlaces

open TwoPlaces in
/-- A cell that fills a square by way of a form shows the same at the beginning of the page, and in
another form on it. -/
theorem tile_same_at_moments_of_other_form :
    (∀ s, (tiling "/G Do").site.Reaches (ctx 32) s → s.SelfContained (ctx 32)) ∧
    (tiling "/G Do").site.FitsAlike (ctx 32) pageStart formStart ∧
    let render := Action.tile (ctx 32) (Action.call (ctx 32)) (tiling "/G Do") none
    ∃ a a' cell, Arises (ctx 32) pageStart page.content a ∧
      Arises (ctx 32) pageStart page.content a' ∧
      a.machine = pageStart ∧ a'.machine = formStart ∧
      (render.run a.machine).RendersTile ⟨7, []⟩ (tiling "/G Do") cell ∧
      (render.run a'.machine).RendersTile ⟨7, []⟩ (tiling "/G Do") cell := by
  have hself : ∀ s, (tiling "/G Do").site.Reaches (ctx 32) s → s.SelfContained (ctx 32) :=
    fun s hs => selfContained_cell onlyInvokes_other rfl hs
  refine ⟨hself, fitsAlike_other, ?_⟩
  obtain ⟨a, a', ha, ha', hpage, hform⟩ := exists_moments (show 0 < 32 by decide)
  have hfits : (tiling "/G Do").site.FitsAlike (ctx 32) a.machine a'.machine := by
    rw [hpage, hform]
    exact fitsAlike_other
  obtain ⟨cell, hcell, hcell'⟩ :=
    tile_same_at_moments (ctx 32) page { scopes := [] } { scopes := [] } ha ha' (tiling "/G Do")
      none rfl hself hfits (by rw [hpage]; rfl) (by rw [hform]; rfl)
  exact ⟨a, a', cell, ha, ha', hpage, hform, hcell, hcell'⟩

namespace TwoPlaces

/-- A cell is that of a self-contained pattern, but **shows different things** at two moments of the
page at which there is no tile of it. -/
structure Differs (maxDepth : Nat) (cell : String) : Prop where
  scope : (tiling cell).scope.isSome = true
  selfContained : ∀ s, (tiling cell).site.Reaches (ctx maxDepth) s → s.SelfContained (ctx maxDepth)
  moments : ∃ a a', Arises (ctx maxDepth) pageStart page.content a ∧
    Arises (ctx maxDepth) pageStart page.content a' ∧
    a.machine.tiles.lookup ⟨7, []⟩ = none ∧ a'.machine.tiles.lookup ⟨7, []⟩ = none ∧
    let render := Action.tile (ctx maxDepth) (Action.call (ctx maxDepth)) (tiling cell) none
    (render.run a.machine).events ≠ (render.run a'.machine).events

/-- What is seen differs if there is more of it at one of the moments. The two are moments of the
page and of the form, where the cell is self-contained. -/
theorem differs_of_length_ne {maxDepth : Nat} {cell : String} (h : 0 < maxDepth)
    (hself : ∀ s, (tiling cell).site.Reaches (ctx maxDepth) s → s.SelfContained (ctx maxDepth))
    (hlength :
      let render := Action.tile (ctx maxDepth) (Action.call (ctx maxDepth)) (tiling cell) none
      (render.run pageStart).events.length ≠ (render.run formStart).events.length) :
    Differs maxDepth cell := by
  obtain ⟨a, a', ha, ha', hpage, hform⟩ := exists_moments h
  refine ⟨rfl, hself, a, a', ha, ha', by rw [hpage]; rfl, by rw [hform]; rfl, ?_⟩
  rw [hpage, hform]
  exact fun hevents => hlength (congrArg List.length hevents)

end TwoPlaces

/-- **Where a cell is rendered matters** to the limit on nesting, and to the guard against forms
that invoke themselves. Under a limit of one level, a cell that fills a square shows it at the
beginning of the page, but is empty in a form. Under a limit that is not met, a cell that invokes a
form shows it at the beginning of the page, but is empty in the form itself. -/
theorem tile_differs_between_places :
    TwoPlaces.Differs 1 "0 0 1 1 re f" ∧ TwoPlaces.Differs 32 "/F Do" := by
  constructor
  · refine TwoPlaces.differs_of_length_ne (by decide) (fun s hs => ?_) (by decide +kernel)
    obtain rfl := hs.eq_of_any_isInvoke (by decide +kernel)
    exact Site.selfContained_of_isNameless (by decide +kernel)
  · have honly : ((TwoPlaces.tiling "/F Do").site.commands (TwoPlaces.ctx 32)).all
        (Command.isInvokeOf "F") = true := by
      decide +kernel
    exact TwoPlaces.differs_of_length_ne (by decide)
      (fun s hs => TwoPlaces.selfContained_cell honly rfl hs) (by decide +kernel)

end ContentStream
