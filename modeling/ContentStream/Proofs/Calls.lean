import ContentStream.Proofs.Containment

/-!
# Calls

What a run of a nested program comes to, as equations. The program is called on a machine that is
made of its caller's; when it is done, all that the caller is left with are the tiles that were
rendered and the count of those, and what is seen of it is what it shows itself, between the states
that are saved before and those restored after.

The commands that look something up are read in the same way: what they come to is said by what is
found, and not by the order in which they go about it.

Nested programs are run by a parameter `call`, as before. Of the interpreter's own way to call one,
the last section says that it is an execution of the content, one level deeper, as long as the
limit allows.

## Main definitions

* `Machine.enter`, `Machine.enterForm`, `Machine.enterCell`: the machines that nested programs are
  called on.
* `Machine.returned`: the machine that their callers go on with.
* `Library.select`: what a color operator selects.
* `Context.program?`: the program of a content stream.

## Main results

* `Action.run_subProgram_eq`, `Action.run_runForm_eq`, `Action.run_tile_eq`: nested programs.
* `Action.run_selectColor`, `Action.run_runContent`, `Action.run_invoke`: the commands and streams
  that lead to them.
* `Action.run_perform_congr`: the calls that a command asks for.
* `Action.run_steps_congr`: instructions depend on calls no deeper than they are themselves.
* `Action.run_call`: how the interpreter calls a program.
-/

namespace ContentStream

variable {σ α : Type}

/-! ### Machines that are called on -/

/-- The **restores** that cut a stack down to a depth. -/
def GStack.leaving (s : GStack) (depth : Nat) : Trace :=
  (s.saved.take (s.depth - depth)).map fun gs => .event (.restore gs)

/-- What is seen of a nested program **before it runs**: its caller's state is saved, and clipped to
a box if one is given. -/
def GState.entering (gs : GState) (transform : Matrix Float) : Option (Rect Float) → Trace
  | none => [.event (.save gs)]
  | some box =>
    [.event (.save gs), .event (.clip ((Path.ofRect box).transform (transform.concat gs.ctm)))]

namespace Machine

/-- The machine that a **sub-program** is called on. -/
def enter (m : Machine σ) (transform : Matrix Float) (clip : Option (Rect Float))
    (scope : Option σ) : Machine σ :=
  { m with
    stack := ⟨m.stack.current.nested transform clip, m.stack.current :: m.stack.saved⟩
    scopes := scope.toList ++ m.scopes }

/-- The machine that a **form** is called on. -/
def enterForm (m : Machine σ) (form : Form σ) : Machine σ :=
  { m.enter form.matrix (some form.bbox) form.scope with forms := form.identity :: m.forms }

/-- The machine that a **cell** is called on. -/
def enterCell (m : Machine σ) (tiling : Tiling σ) (tint : Option Tint) : Machine σ :=
  { m with
    stack := ⟨tiling.initialState tint, []⟩
    scopes := tiling.scope.toList ++ m.scopes }

/-- A machine that a nested program has **returned to**: all that is left of the program are tiles,
and the count of those. -/
def returned (m n : Machine σ) : Machine σ :=
  { m with tiles := n.tiles, finished := n.finished }

end Machine

namespace Action

/-! ### Unwinding -/

section Unwinding

variable {m : Machine σ}

/-- Restoring some of the states shows each of them, latest first. This is `run_restoreAll` with the
trace that is left open there. -/
theorem run_restoreAll_eq {n : Nat} (h : n < m.stack.depth) :
    (restoreAll n).run m =
      ⟨.ok (), { m with stack := m.stack.truncate (m.stack.depth - n) },
        (m.stack.saved.take n).map fun gs => .event (.restore gs)⟩ := by
  induction n generalizing m with
  | zero => simp [restoreAll, GStack.truncate_of_depth_le]
  | succ n ih =>
      obtain ⟨stack, hs⟩ := GStack.exists_restore? (s := m.stack) (by omega)
      have hdepth := GStack.depth_restore? hs
      have hrest := ih (m := { m with stack }) (by simp only; omega)
      have hle : m.stack.depth - (n + 1) = stack.depth - n := by omega
      rw [restoreAll, run_bind, run_restore hs, hle, GStack.truncate_of_restore? hs (by omega),
        GStack.saved_of_restore? hs]
      simp [hrest, Outcome.after]

/-- To unwind a stack is to cut it down, and to show the states that are restored by that. There are
none if the stack is not deeper than that. -/
theorem run_unwind_eq {depth : Nat} (h : 1 ≤ depth) :
    (unwind depth).run m =
      ⟨.ok (), { m with stack := m.stack.truncate depth }, m.stack.leaving depth⟩ := by
  have hlt : m.stack.depth - depth < m.stack.depth := by
    have := m.stack.one_le_depth
    omega
  rw [unwind, run_bind, run_machine]
  simp only [Outcome.after_nil, run_restoreAll_eq hlt]
  by_cases hle : m.stack.depth ≤ depth
  · rw [GStack.truncate_of_depth_le hle, GStack.truncate_of_depth_le (by omega)]
    rfl
  · rw [show m.stack.depth - (m.stack.depth - depth) = depth by omega]
    rfl

/-- To act within a scope is to act with it in front, and to have the scopes back as they were. -/
theorem run_within {scope : Option σ} {x : Action σ α} {o : Outcome σ α}
    (ho : x.run { m with scopes := scope.toList ++ m.scopes } = o)
    (h : o.machine.scopes = scope.toList ++ m.scopes) :
    (within scope x).run m = ⟨o.result, { o.machine with scopes := m.scopes }, o.trace⟩ := by
  simp [within, run_bind, Outcome.after, ho, h]

end Unwinding

/-! ### Nested programs -/

section Nesting

variable {ctx : Context σ} {call : Bytes → Action σ Unit}
  (hcall : ∀ floor content, Keeps ctx floor anything (call content))

include hcall

/-- A sub-program leaves its caller with the caller's own machine, apart from tiles and their
count. -/
theorem run_subProgram_eq (content : Bytes) (transform : Matrix Float)
    (clip : Option (Rect Float)) (scope : Option σ) (m : Machine σ) :
    (subProgram call content transform clip scope).run m =
      let o := (call content).run (m.enter transform clip scope)
      ⟨o.result, m.returned o.machine, m.stack.current.entering transform clip ++
        (o.trace ++ o.machine.stack.leaving m.stack.depth)⟩ := by
  have hrun := (hcall (m.stack.saved.length + 2) content).runs
    (m := m.enter transform clip scope) (Nat.le_refl _)
  generalize ho : (call content).run (m.enter transform clip scope) = o at hrun
  have hwithin : (within scope (call content)).run { m with
      stack := ⟨m.stack.current.nested transform clip, m.stack.current :: m.stack.saved⟩ } =
      ⟨o.result, { o.machine with scopes := m.scopes }, o.trace⟩ :=
    run_within ho hrun.scopes_eq
  have hstack : o.machine.stack.truncate m.stack.depth = m.stack :=
    GStack.truncate_of_below_eq ((hrun.below_eq (Nat.le_refl _)).trans (GStack.below_depth _))
  have hforms : o.machine.forms = m.forms := hrun.forms_eq
  have hdepth : o.machine.depth = m.depth := hrun.depth_eq
  have hbounds : o.machine.pageBounds = m.pageBounds := hrun.pageBounds_eq
  cases clip with
  | none =>
      simp only [GState.nested] at hwithin
      simp [subProgram, run_bind, GStack.save, GStack.modify, hwithin, hstack,
        run_unwind_eq m.stack.one_le_depth, Outcome.after, hforms, hdepth, hbounds,
        Machine.returned, GState.entering]
  | some box =>
      simp only [GState.nested] at hwithin
      simp [subProgram, narrowClip, run_bind, GStack.save, GStack.modify, hwithin, hstack,
        run_unwind_eq m.stack.one_le_depth, Outcome.after, hforms, hdepth, hbounds,
        Machine.returned, GState.entering]

/-- So does a form that is not in execution already, and it cannot fail. -/
theorem run_runForm_eq {form : Form σ} {m : Machine σ} (hid : form.identity ∉ m.forms) :
    (runForm call form).run m =
      let o := (call form.content).run (m.enterForm form)
      ⟨.ok (), m.returned o.machine, m.stack.current.entering form.matrix (some form.bbox) ++
        (o.trace ++ o.machine.stack.leaving m.stack.depth)⟩ := by
  rw [run_runForm m hid, run_subProgram_eq hcall]
  rfl

/-- A cell leaves its caller with one more tile, which is kept under the key that it was looked up
by. -/
theorem run_tile_eq {tiling : Tiling σ} {tint : Option Tint} {m : Machine σ}
    (hmiss : m.tiles.lookup (ctx.config.tileSharing.key tiling tint) = none) :
    (tile ctx call tiling tint).run m =
      let key := ctx.config.tileSharing.key tiling tint
      let o := (call tiling.content).run (m.enterCell tiling tint)
      let tile := tiling.tile (ctx.surface (o.machine.finished + 1))
      ⟨.ok tile,
        { m with
          tiles := (key, tile) :: o.machine.tiles.filter fun entry => entry.1 != key
          finished := o.machine.finished + 1 },
        .note (.begun key) :: .event (.beginTile tiling.bbox tiling.matrix) ::
          (o.trace ++
            (o.machine.stack.leaving 1 ++ [.event .endTile, .note (.obtained key tile)]))⟩ := by
  have hrun := (hcall 1 tiling.content).runs (m := m.enterCell tiling tint) (Nat.le_refl _)
  rw [run_tile_of_none m hmiss (run_renderCell m ctx call tiling tint) rfl]
  generalize ho : (call tiling.content).run (m.enterCell tiling tint) = o at hrun
  have hwithin : (within tiling.scope (call tiling.content)).run { m with
      stack := ⟨tiling.initialState tint, []⟩ } =
      ⟨o.result, { o.machine with scopes := m.scopes }, o.trace⟩ :=
    run_within ho hrun.scopes_eq
  have hforms : o.machine.forms = m.forms := hrun.forms_eq
  have hdepth : o.machine.depth = m.depth := hrun.depth_eq
  have hbounds : o.machine.pageBounds = m.pageBounds := hrun.pageBounds_eq
  simp [run_bind, hwithin, run_unwind_eq (Nat.le_refl 1), Outcome.after, hforms, hdepth, hbounds]

end Nesting

end Action

/-! ### What names and operands stand for -/

/-- What a color operator **selects**. -/
inductive Selection (σ : Type) where
  | paint (paint : Paint)
  | tiling (tiling : Tiling σ) (tint : Option Tint)

/-- What the operands of a color operator **select** in a color space. -/
def Library.select (lib : Library σ) (scopes : List σ) (op : String) (space : ColorSpace)
    (operands : List Operand) : Except Fault (Selection σ) :=
  if space.isPattern then
    ((Take.name op).run operands).bind fun (name, rest) =>
      (lib.findPattern scopes name).bind fun
        | .shading shading matrix => .ok (.paint (.shading shading matrix))
        | .tiling tiling => (Action.takeTint op space tiling rest).map (.tiling tiling)
  else
    ((Take.numbers op space.components).run' operands).map fun color => .paint (.solid color)

/-- The **color space** of a name. -/
def Library.spaceOf (lib : Library σ) (scopes : List σ) (name : String) :
    Except Fault ColorSpace :=
  match ColorSpace.predefined? name with
  | some space => .ok space
  | none => lib.findColorSpace scopes name

/-- The **program of a content stream**, if it can be decoded and tokenized. -/
def Context.program? (ctx : Context σ) (scopes : List σ) (content : Bytes) :
    Except Fault Program :=
  (ctx.library.decode scopes content).bind (tokenize ctx.config.strictImageEnd)

namespace Action

variable {ctx : Context σ} {call : Bytes → Action σ Unit}

/-- A color space comes with its initial color, if its name is known. Names of spaces of the device
are known without a look into the scopes. -/
theorem run_selectSpace (side : Side) (name : String) (m : Machine σ) :
    (selectSpace ctx side name).run m =
      match ctx.library.spaceOf m.scopes name with
      | .error fault => ⟨.error fault, m, []⟩
      | .ok space =>
        ⟨.ok (), { m with stack := m.stack.modify fun gs => gs.setInk side (Ink.initial space) },
          []⟩ := by
  unfold selectSpace Library.spaceOf
  cases ColorSpace.predefined? name with
  | some space => rfl
  | none =>
      cases h : ctx.library.findColorSpace m.scopes name <;> simp [run_bind, h]

/-- Selecting a color leads to a nested program only by way of a tile. All that can be refused is
refused before, when operands are taken and names are looked up. -/
theorem run_selectColor (side : Side) (op : String) (operands : List Operand) (m : Machine σ) :
    (selectColor ctx call side op operands).run m =
      match ctx.library.select m.scopes op (m.stack.current.ink side).space operands with
      | .error fault => ⟨.error fault, m, []⟩
      | .ok (.paint paint) =>
        (modifyState fun gs => gs.setInk side ⟨paint, (m.stack.current.ink side).space⟩).run m
      | .ok (.tiling tiling tint) =>
        (do
          let tile ← tile ctx call tiling tint
          modifyState fun gs => gs.setInk side
            ⟨.tiling tile (tint.map Tint.color), (m.stack.current.ink side).space⟩ :
          Action σ Unit).run m := by
  unfold selectColor paintOf Library.select
  rw [run_bind, run_state]
  simp only [Outcome.after_nil]
  generalize (m.stack.current.ink side).space = space
  by_cases hpattern : space.isPattern = true
  · simp only [hpattern, if_true]
    cases (Take.name op).run operands with
    | error fault => rfl
    | ok x =>
      cases hfind : ctx.library.findPattern m.scopes x.1 with
      | error fault => simp [run_bind, hfind, Except.bind]
      | ok pattern =>
        cases pattern with
        | shading shading matrix => simp [run_bind, hfind, Except.bind]
        | tiling tiling =>
          cases htint : takeTint op space tiling x.2 with
          | error fault => simp [run_bind, hfind, Except.bind, htint, Except.map]
          | ok tint =>
            rcases htile : (tile ctx call tiling tint).run m with ⟨_ | _, _, _⟩ <;>
              simp [run_bind, hfind, Except.bind, htint, Except.map, htile, Outcome.after]
  · simp only [hpattern]
    cases (Take.numbers op space.components).run' operands <;> rfl

/-- An external object is an image, which is drawn, or a form, which is run. If its name is unknown,
that is the only fault there can be. -/
theorem run_invoke (name : String) (m : Machine σ) :
    (invoke ctx call name).run m =
      match ctx.library.findXObject m.scopes name with
      | .error fault => ⟨.error fault, m, []⟩
      | .ok (.image image) => (drawImage image).run m
      | .ok (.form form) => (runForm call form).run m := by
  unfold invoke
  rw [run_bind, run_machine]
  simp only [Outcome.after_nil]
  rw [run_bind, run_ofExcept]
  rcases ctx.library.findXObject m.scopes name with fault | image | form <;> rfl

/-- A content stream is run as the program that it stands for, if it stands for one. It may fail to
be decoded or to be tokenized, and the machine is left alone then. -/
theorem run_runContent (content : Bytes) (m : Machine σ) :
    (runContent ctx call content).run m =
      match ctx.program? m.scopes content with
      | .error fault => ⟨.error fault, m, []⟩
      | .ok p =>
        let o := (steps ctx call { base := m.stack.depth } p.instructions).run m
        ⟨o.result.map fun _ => (), o.machine, o.trace⟩ := by
  unfold runContent Context.program?
  cases hdecode : ctx.library.decode m.scopes content with
  | error fault => simp [run_bind, hdecode, Except.bind]
  | ok decoded =>
    cases hprogram : tokenize ctx.config.strictImageEnd decoded with
    | error fault => simp [run_bind, hdecode, hprogram, Except.bind]
    | ok p =>
      rcases hsteps : (steps ctx call { base := m.stack.depth } p.instructions).run m with
        ⟨_ | _, _, _⟩ <;>
      simp [run_bind, hdecode, hprogram, Except.bind, runProgram, hsteps, Outcome.after, Except.map]

/-! ### What a run asks of its calls -/

section Congruence

variable {call' : Bytes → Action σ Unit} {m : Machine σ}

/-- Actions that come to the same within a scope do so from outside of it. -/
theorem run_within_congr {scope : Option σ} {x y : Action σ α}
    (h : x.run { m with scopes := scope.toList ++ m.scopes } =
      y.run { m with scopes := scope.toList ++ m.scopes }) :
    (within scope x).run m = (within scope y).run m := by
  simp [within, run_bind, h]

/-- A sub-program asks for one call, on the machine that is entered. Whether there is a box to clip
to makes a difference to that machine, and not to the number of calls. -/
theorem run_subProgram_congr {content : Bytes} {transform : Matrix Float}
    {clip : Option (Rect Float)} {scope : Option σ}
    (h : (call content).run (m.enter transform clip scope) =
      (call' content).run (m.enter transform clip scope)) :
    (subProgram call content transform clip scope).run m =
      (subProgram call' content transform clip scope).run m := by
  have hwithin := run_within_congr (m := { m with
    stack := ⟨m.stack.current.nested transform clip, m.stack.current :: m.stack.saved⟩ }) h
  cases clip with
  | none =>
      simp only [GState.nested] at hwithin
      simp [subProgram, run_bind, GStack.save, GStack.modify, hwithin, Outcome.after]
  | some box =>
      simp only [GState.nested] at hwithin
      simp [subProgram, narrowClip, run_bind, GStack.save, GStack.modify, hwithin, Outcome.after]

/-- So does a form, unless it is being executed, in which case it asks for none. -/
theorem run_runForm_congr {form : Form σ} (hid : form.identity ∉ m.forms)
    (h : (call form.content).run (m.enterForm form) =
      (call' form.content).run (m.enterForm form)) :
    (runForm call form).run m = (runForm call' form).run m := by
  have hsub := run_subProgram_congr (m := { m with forms := form.identity :: m.forms }) h
  simp only [run_runForm m hid, hsub]

/-- So does a cell of which there is no tile. -/
theorem run_tile_congr {tiling : Tiling σ} {tint : Option Tint}
    (hmiss : m.tiles.lookup (ctx.config.tileSharing.key tiling tint) = none)
    (h : (call tiling.content).run (m.enterCell tiling tint) =
      (call' tiling.content).run (m.enterCell tiling tint)) :
    (tile ctx call tiling tint).run m = (tile ctx call' tiling tint).run m := by
  have hwithin := run_within_congr (m := { m with stack := ⟨tiling.initialState tint, []⟩ }) h
  rw [run_tile_of_none m hmiss (run_renderCell m ctx call tiling tint) rfl,
    run_tile_of_none m hmiss (run_renderCell m ctx call' tiling tint) rfl]
  simp only [run_bind, run_attempt, hwithin]

/-- A command asks for a call of a form that it finds, if that is not in execution, or of the cell
of a pattern that it selects, if there is no tile of it. It asks for no other call. -/
theorem run_perform_congr {frame : Frame} {command : Command}
    (hform : ∀ name form, command = .invoke name →
      ctx.library.findXObject m.scopes name = .ok (.form form) → form.identity ∉ m.forms →
      (call form.content).run (m.enterForm form) = (call' form.content).run (m.enterForm form))
    (hcell : ∀ side op operands tiling tint, command = .color side op operands →
      ctx.library.select m.scopes op (m.stack.current.ink side).space operands =
        .ok (.tiling tiling tint) →
      m.tiles.lookup (ctx.config.tileSharing.key tiling tint) = none →
      (call tiling.content).run (m.enterCell tiling tint) =
        (call' tiling.content).run (m.enterCell tiling tint)) :
    (perform ctx call frame command).run m = (perform ctx call' frame command).run m := by
  cases command with
  | invoke name =>
      have hinvoke : (invoke ctx call name).run m = (invoke ctx call' name).run m := by
        rw [run_invoke, run_invoke]
        rcases hfind : ctx.library.findXObject m.scopes name with fault | image | form
        · rfl
        · rfl
        · by_cases hid : form.identity ∈ m.forms
          · simp only [run_runForm_of_mem m hid]
          · exact run_runForm_congr hid (hform name form rfl hfind hid)
      simp only [perform, run_bind, hinvoke]
  | color side op operands =>
      have hcolor : (selectColor ctx call side op operands).run m =
          (selectColor ctx call' side op operands).run m := by
        rw [run_selectColor, run_selectColor]
        rcases hselect : ctx.library.select m.scopes op (m.stack.current.ink side).space
          operands with fault | paint | ⟨tiling, tint⟩
        · rfl
        · rfl
        · rcases hkey : m.tiles.lookup (ctx.config.tileSharing.key tiling tint) with _ | tile
          · simp only [run_bind, run_tile_congr hkey (hcell side op operands tiling tint rfl
              hselect hkey)]
          · simp only [run_bind, run_tile_of_some m hkey]
      simp only [perform, run_bind, hcolor]
  | _ => rfl

end Congruence

/-! ### Levels -/

section Congruence

variable {call' : Bytes → Action σ Unit}
  (hcall : ∀ floor content, Keeps ctx floor anything (call content))
  {d : Nat} (hd : ∀ content n, n.depth = d → (call content).run n = (call' content).run n)

include hd in
/-- An instruction calls programs on machines that are as deep as its own. What it comes to does not
depend on what calls would do on any others. -/
theorem run_step_congr {m : Machine σ} (hm : m.depth = d) (frame : Frame) (i : Instruction) :
    (step ctx call frame i).run m = (step ctx call' frame i).run m := by
  cases i with
  | operate op operands =>
      simp only [step, run_bind, run_ofExcept]
      cases Command.decode op operands with
      | error fault => rfl
      | ok command =>
          have hperform : (perform ctx call frame command).run m =
              (perform ctx call' frame command).run m :=
            run_perform_congr (fun _ form _ _ _ => hd form.content (m.enterForm form) hm)
              (fun _ _ _ tiling tint _ _ _ => hd tiling.content (m.enterCell tiling tint) hm)
          simp only [hperform]
  | _ => rfl

include hcall hd in
/-- Instructions go the same way with two ways to call programs that do not differ as deep as they
are. -/
theorem run_steps_congr {m : Machine σ} (hm : m.depth = d) (frame : Frame)
    (is : List Instruction) :
    (steps ctx call frame is).run m = (steps ctx call' frame is).run m := by
  induction is generalizing m frame with
  | nil => rfl
  | cons i is ih =>
      have hrun := (keeps_step hcall (Nat.zero_le frame.base) i).runs (Nat.zero_le m.stack.depth)
      simp only [steps, run_bind, ← run_step_congr hd hm]
      rcases hstep : (step ctx call frame i).run m with ⟨fault | frame', m', t⟩
      · rfl
      · rw [hstep] at hrun
        simp only [ih (hrun.depth_eq.trans hm)]

end Congruence

/-- A nested program is executed one level deeper, if the limit allows. The interpreter counts the
levels that are left, and the machine those that have been entered; the two counts add up to the
limit. -/
theorem run_call (content : Bytes) (m : Machine σ) :
    (Action.call ctx content).run m =
      if m.depth < ctx.config.maxDepth then (deeper (execute ctx content)).run m
      else ⟨.error (.nestingTooDeep ctx.config.maxDepth), m, []⟩ := by
  have hlevels : (Action.call ctx content).run m =
      (callWith ctx (ctx.config.maxDepth - m.depth) content).run m := rfl
  rw [hlevels]
  rcases hn : ctx.config.maxDepth - m.depth with _ | n
  · rw [if_neg (by omega)]
    rfl
  · rw [if_pos (by omega), callWith, run_deeper, run_deeper]
    have hd : ∀ (content : Bytes) (n' : Machine σ), n'.depth = m.depth + 1 →
        (callWith ctx n content).run n' = (Action.call ctx content).run n' := by
      intro content n' hn'
      have hlevels' : ctx.config.maxDepth - n'.depth = n := by omega
      rw [← hlevels']
      rfl
    have hcontent : (runContent ctx (callWith ctx n) content).run { m with depth := m.depth + 1 } =
        (execute ctx content).run { m with depth := m.depth + 1 } := by
      rw [execute, run_runContent, run_runContent]
      cases ctx.program? m.scopes content with
      | error fault => rfl
      | ok p =>
          simp only [run_steps_congr (m := { m with depth := m.depth + 1 }) (keeps_callWith n)
            hd rfl]
    rw [hcontent]

end Action

end ContentStream
