import ContentStream.Proofs.Arity

/-!
# Sides

Color operators come in pairs, one for the inside of shapes and one for their outline. The two of a
pair are mirror images: let every operator of a sequence be replaced by its counterpart, and let the
two inks of the state that it starts in be exchanged; then the same is seen, the same tiles are
rendered and kept, and in the state that is left the two inks are exchanged. If it ends in a fault,
it is the same fault, with the name of the counterpart.

What carries this is that an operator has its side in one place only, which is the ink that it sets
and the space that it looks up; and that a cell is rendered in a state of its own, which has nothing
of the inks of the state that asks for it.

## Main definitions

* `Keyword.side?`: the side of a color operator.
* `Keyword.mirror`, `GState.mirror`, `Fault.mirror`, `Outcome.mirror`: counterparts.
* `Take.Mirrors`: taking operands differs in the name of the operator alone.

## Main results

* `Command.decode_mirror`: counterparts ask for mirrored commands.
* `Action.run_tile_mirror`: a tile does not depend on the inks of the state that asks for it.
* `Action.run_step_mirror`, `Action.ink_run_step`: what a color operator comes to.
* `colors_mirror`: sequences of color operators are mirror images.
-/

namespace ContentStream

variable {α β σ : Type}

/-! ### Counterparts -/

/-- The **other** side. -/
def Side.other : Side → Side
  | .fill => .stroke
  | .stroke => .fill

/-- The **side** of a color operator; none for other operators. -/
def Keyword.side? : Keyword → Option Side
  | .strokeSpace | .strokeColor | .strokeColorN | .strokeGray | .strokeRgb | .strokeCmyk =>
    some .stroke
  | .fillSpace | .fillColor | .fillColorN | .fillGray | .fillRgb | .fillCmyk => some .fill
  | _ => none

/-- The **counterpart** of a color operator, which is for the other side. Other operators are their
own. -/
def Keyword.mirror : Keyword → Keyword
  | .strokeSpace => .fillSpace
  | .fillSpace => .strokeSpace
  | .strokeColor => .fillColor
  | .fillColor => .strokeColor
  | .strokeColorN => .fillColorN
  | .fillColorN => .strokeColorN
  | .strokeGray => .fillGray
  | .fillGray => .strokeGray
  | .strokeRgb => .fillRgb
  | .fillRgb => .strokeRgb
  | .strokeCmyk => .fillCmyk
  | .fillCmyk => .strokeCmyk
  | k => k

/-- The counterpart of an **operator**. -/
def Operator.mirror : Operator → Operator
  | known k => known k.mirror
  | unknown spelling => unknown spelling

/-- The side of an **instruction**. -/
def Instruction.side? : Instruction → Option Side
  | operate (.known k) _ => k.side?
  | _ => none

/-- The counterpart of an **instruction**: another operator, with the same operands. -/
def Instruction.mirror : Instruction → Instruction
  | operate op operands => operate op.mirror operands
  | i => i

/-- The **name of the counterpart** of an operator. -/
def mirrorName (name : String) : String :=
  (Operator.ofText name).mirror.spelling

/-- A fault of the **counterpart**, which has its name. -/
def Fault.mirror : Fault → Fault
  | missingOperands operator expected found => missingOperands (mirrorName operator) expected found
  | operandType operator expected => operandType (mirrorName operator) expected
  | fault => fault

/-- A state with its **inks exchanged**. -/
def GState.mirror (gs : GState) : GState :=
  { gs with fill := gs.stroke, stroke := gs.fill }

/-- A machine with the inks of its **current state** exchanged. -/
def Machine.mirror (m : Machine σ) : Machine σ :=
  { m with stack := m.stack.modify GState.mirror }

/-- An outcome with the inks exchanged, and with the **counterpart's fault** if it is one. -/
def Outcome.mirror (o : Outcome σ α) : Outcome σ α where
  result := o.result.mapError Fault.mirror
  machine := o.machine.mirror
  trace := o.trace

/-- The side of a **command**. -/
def Command.side? : Command → Option Side
  | space side _ | color side _ _ | device side _ _ => some side
  | _ => none

/-- The counterpart of a **command**. -/
def Command.mirror : Command → Command
  | space side name => space side.other name
  | color side op operands => color side.other (mirrorName op) operands
  | device side cs c => device side.other cs c
  | command => command

/-- The operator of a keyword's spelling is that keyword. -/
theorem Operator.ofText_spelling (k : Keyword) : ofText k.spelling = known k := by
  cases k <;> decide +kernel

/-- A counterpart is spelled by the name of the counterpart. -/
theorem Keyword.spelling_mirror (k : Keyword) : k.mirror.spelling = mirrorName k.spelling := by
  rw [mirrorName, Operator.ofText_spelling]
  rfl

/-- The ink of a side in the mirror is that of the other. -/
@[simp]
theorem GState.ink_mirror (gs : GState) (side : Side) : gs.mirror.ink side = gs.ink side.other := by
  cases side <;> rfl

/-- There are two sides. -/
theorem Side.other_other (side : Side) : side.other.other = side := by
  cases side <;> rfl

/-- To set an ink leaves that of the other side. -/
theorem GState.ink_setInk_other (gs : GState) (side : Side) (ink : Ink) :
    (gs.setInk side ink).ink side.other = gs.ink side.other := by
  cases side <;> rfl

/-! ### Operands -/

namespace Take

/-- Taking operands **mirrors** another way to take them: it takes the same ones, to the same result
or to the counterpart's fault. -/
def Mirrors (x y : Take α) : Prop :=
  ∀ operands, y.run operands = (x.run operands).mapError Fault.mirror

/-- What takes nothing mirrors itself. -/
theorem Mirrors.pure (a : α) : Mirrors (pure a) (pure a) :=
  fun _ => rfl

/-- Faults mirror each other if one names the counterpart of the other. -/
theorem Mirrors.throw {fault fault' : Fault} (h : fault' = fault.mirror) :
    Mirrors (throw fault : Take α) (throw fault') := by
  subst h
  exact fun _ => rfl

/-- Sequences mirror each other if their parts do. -/
theorem Mirrors.bind {x y : Take α} {f g : α → Take β} (hxy : Mirrors x y)
    (hfg : ∀ a, Mirrors (f a) (g a)) : Mirrors (x >>= f) (y >>= g) := by
  intro operands
  rw [StateT.run_bind, StateT.run_bind, hxy operands]
  rcases x.run operands with fault | ⟨a, rest⟩
  · rfl
  · exact hfg a rest

/-- Without regard to what is left over, results are the same and faults are mirrored. -/
theorem Mirrors.run' {x y : Take α} (hxy : Mirrors x y) (operands : List Operand) :
    y.run' operands = (x.run' operands).mapError Fault.mirror := by
  rw [run'_eq, run'_eq, hxy operands]
  rcases x.run operands with fault | ⟨a, rest⟩ <;> rfl

section

variable {op op' : String} (h : op' = mirrorName op)

include h

/-- If operands are missing, each operator says so of itself. -/
theorem mirrors_require (n : Nat) : Mirrors (require op n) (require op' n) := by
  subst h
  intro operands
  rw [run_require, run_require]
  split <;> rfl

/-- So it does of a single operand. The kinds of operands follow, one by one. -/
theorem mirrors_operand : Mirrors (operand op) (operand op') := by
  subst h
  intro operands
  cases operands <;> rfl

/-- An operand that is no number is refused by both. -/
theorem mirrors_numeral : Mirrors (numeral op) (numeral op') := by
  refine (mirrors_operand h).bind fun operand => ?_
  cases operand with
  | number numeral => exact .pure numeral
  | _ => exact .throw (by rw [h]; rfl)

theorem mirrors_number : Mirrors (number op) (number op') :=
  (mirrors_numeral h).bind fun _ => .pure _

/-- So is one that is no name. -/
theorem mirrors_name : Mirrors (name op) (name op') := by
  refine (mirrors_operand h).bind fun operand => ?_
  cases operand with
  | name text => exact .pure text
  | _ => exact .throw (by rw [h]; rfl)

/-- Numerals are taken one by one, by induction on how many there are to come. -/
theorem mirrors_numeralsOnto (n : Nat) (taken : List Numeral) :
    Mirrors (numeralsOnto op n taken) (numeralsOnto op' n taken) := by
  induction n generalizing taken with
  | zero => exact .pure taken
  | succ n ih => exact (mirrors_numeral h).bind fun x => ih _

theorem mirrors_numerals (n : Nat) : Mirrors (numerals op n) (numerals op' n) :=
  (mirrors_require h n).bind fun _ => mirrors_numeralsOnto h n []

/-- Numbers that are taken together are required together, by both. -/
theorem mirrors_numbers (n : Nat) : Mirrors (numbers op n) (numbers op' n) :=
  (mirrors_numerals h n).bind fun _ => .pure _

theorem mirrors_two : Mirrors (two op) (two op') :=
  (mirrors_require h 2).bind fun _ => (mirrors_number h).bind fun _ =>
    (mirrors_number h).bind fun _ => .pure _

theorem mirrors_three : Mirrors (three op) (three op') :=
  (mirrors_require h 3).bind fun _ => (mirrors_number h).bind fun _ =>
    (mirrors_two h).bind fun _ => .pure _

theorem mirrors_four : Mirrors (four op) (four op') :=
  (mirrors_require h 4).bind fun _ => (mirrors_two h).bind fun _ =>
    (mirrors_two h).bind fun _ => .pure _

end

end Take

namespace Command

/-- What is made of mirrored operands is a mirrored command, and a fault of theirs is mirrored, too.
It names the operator of the other side. -/
theorem mirror_run' {x y : Take α} (hxy : Take.Mirrors x y) (c : α → Command)
    (operands : List Operand) :
    (y >>= fun a => pure (c a).mirror : Take Command).run' operands =
      (((x >>= fun a => pure (c a) : Take Command).run' operands).map mirror).mapError
        Fault.mirror := by
  have hrun (z : Take α) (c : α → Command) :
      (z >>= fun a => pure (c a) : Take Command).run' operands = (z.run' operands).map c := by
    rw [Take.run'_eq, Take.run'_eq, StateT.run_bind]
    rcases z.run operands with fault | ⟨a, rest⟩ <;> rfl
  rw [hrun, hrun, hxy.run']
  cases x.run' operands <;> rfl

/-- A command is for the side of its operator. -/
theorem side?_of_decode {k : Keyword} {side : Side} (hk : k.side? = some side)
    {operands : List Operand} {command : Command} (h : decode (.known k) operands = .ok command) :
    command.side? = some side := by
  cases Operator.AsksFor.of_decode h with
  | strokeSpace | fillSpace | strokeColor | strokeColorN | fillColor | fillColorN | strokeGray
  | fillGray | strokeRgb | fillRgb | strokeCmyk | fillCmyk => exact hk
  | _ => cases hk

/-- **Counterparts ask for mirrored commands.** Each of the twelve operators takes what its
counterpart takes, and its spelling stands in the faults. -/
theorem decode_mirror {k : Keyword} {side : Side} (hk : k.side? = some side)
    (operands : List Operand) :
    decode (.known k.mirror) operands =
      ((decode (.known k) operands).map mirror).mapError Fault.mirror := by
  have hname := k.spelling_mirror
  cases k with
  | strokeSpace => exact mirror_run' (Take.mirrors_name hname) (.space .stroke) operands
  | fillSpace => exact mirror_run' (Take.mirrors_name hname) (.space .fill) operands
  | strokeGray =>
      exact mirror_run' (Take.mirrors_number hname) (fun x => .device .stroke .deviceGray [x])
        operands
  | fillGray =>
      exact mirror_run' (Take.mirrors_number hname) (fun x => .device .fill .deviceGray [x])
        operands
  | strokeRgb =>
      exact mirror_run' (Take.mirrors_three hname)
        (fun x => .device .stroke .deviceRgb [x.1, x.2.1, x.2.2]) operands
  | fillRgb =>
      exact mirror_run' (Take.mirrors_three hname)
        (fun x => .device .fill .deviceRgb [x.1, x.2.1, x.2.2]) operands
  | strokeCmyk =>
      exact mirror_run' (Take.mirrors_four hname)
        (fun x => .device .stroke .deviceCmyk [x.1, x.2.1, x.2.2.1, x.2.2.2]) operands
  | fillCmyk =>
      exact mirror_run' (Take.mirrors_four hname)
        (fun x => .device .fill .deviceCmyk [x.1, x.2.1, x.2.2.1, x.2.2.2]) operands
  | strokeColor | strokeColorN | fillColor | fillColorN =>
      rw [decode_of_colors? rfl, decode_of_colors? rfl, hname]
      rfl
  | _ => cases hk

end Command

/-! ### What names and operands stand for -/

namespace Library

variable (lib : Library σ) (scopes : List σ)

/-- A name that is not found is nobody's fault in particular. -/
theorem mirror_find {ρ : Type} (lookup : σ → String → Option ρ) (kind : ResourceKind)
    (name : String) :
    (find lookup kind scopes name).mapError Fault.mirror = find lookup kind scopes name := by
  unfold find
  split <;> rfl

/-- So it is with the name of a color space. -/
theorem mirror_spaceOf (name : String) :
    (lib.spaceOf scopes name).mapError Fault.mirror = lib.spaceOf scopes name := by
  unfold spaceOf
  split
  · rfl
  · exact mirror_find scopes lib.colorSpace .colorSpace name

/-- A tint is taken by each operator for itself. It depends on the space of the pattern and on the
operands, and its faults name the operator. -/
theorem mirror_takeTint (op : String) (space : ColorSpace) (tiling : Tiling σ)
    (operands : List Operand) :
    Action.takeTint (mirrorName op) space tiling operands =
      (Action.takeTint op space tiling operands).mapError Fault.mirror := by
  unfold Action.takeTint
  split
  · rfl
  · dsimp only
    rw [(Take.mirrors_numerals rfl _).run']
    generalize Take.numerals op _ = x
    cases x.run' operands <;> rfl

/-- Operands select the same for either side. Patterns are looked up by name, and whatever is not
found has the same fault, as it does not name the operator. -/
theorem select_mirror (op : String) (space : ColorSpace) (operands : List Operand) :
    lib.select scopes (mirrorName op) space operands =
      (lib.select scopes op space operands).mapError Fault.mirror := by
  unfold select
  split
  · rw [Take.mirrors_name rfl operands]
    rcases (Take.name op).run operands with fault | ⟨name, rest⟩
    · rfl
    · have hfind : (lib.findPattern scopes name).mapError Fault.mirror =
          lib.findPattern scopes name := mirror_find scopes lib.pattern .pattern name
      change (lib.findPattern scopes name).bind _ =
        ((lib.findPattern scopes name).bind _).mapError _
      rcases hpattern : lib.findPattern scopes name with fault | tiling | ⟨shading, matrix⟩
      · rw [hpattern] at hfind
        exact congrArg Except.error (Except.error.inj hfind).symm
      · have htint := mirror_takeTint op space tiling rest
        simp only [Except.bind, htint]
        cases Action.takeTint op space tiling rest <;> rfl
      · rfl
  · rw [(Take.mirrors_numbers rfl space.components).run']
    cases (Take.numbers op space.components).run' operands <;> rfl

end Library

namespace Action

variable {ctx : Context σ} {call : Bytes → Action σ Unit} {m : Machine σ}

/-- Sequencing: mirror images, one after the other. -/
theorem run_bind_mirror {x y : Action σ α} {f g : α → Action σ β}
    (hxy : y.run m.mirror = (x.run m).mirror)
    (hfg : ∀ a n, (g a).run n.mirror = ((f a).run n).mirror) :
    (y >>= g).run m.mirror = ((x >>= f).run m).mirror := by
  rw [run_bind, run_bind, hxy]
  rcases x.run m with ⟨fault | a, n, t⟩
  · rfl
  · exact congrArg (Outcome.after t) (hfg a n)

/-- To set the ink of the other side in the mirror is to set that of this side. -/
theorem run_setInk_mirror (side : Side) (ink : Ink) (m : Machine σ) :
    (modifyState fun gs => gs.setInk side.other ink).run m.mirror =
      ((modifyState fun gs => gs.setInk side ink).run m).mirror := by
  cases side <;> rfl

/-- A tile is rendered in a state of its own, so it does not depend on the inks of the state that
asks for it. -/
theorem run_tile_mirror (tiling : Tiling σ) (tint : Option Tint) (m : Machine σ) :
    (tile ctx call tiling tint).run m.mirror = ((tile ctx call tiling tint).run m).mirror := by
  rcases hlookup : m.tiles.lookup (ctx.config.tileSharing.key tiling tint) with _ | tile
  · rw [run_tile_of_none m hlookup (run_renderCell m ctx call tiling tint) rfl,
      run_tile_of_none m.mirror hlookup (run_renderCell m.mirror ctx call tiling tint) rfl]
    rfl
  · rw [run_tile_of_some m hlookup, run_tile_of_some m.mirror hlookup]
    rfl

/-- A color space is found alike from both sides, and its initial color set. If it is not found, the
fault is its own mirror image. -/
theorem run_selectSpace_mirror (side : Side) (name : String) (m : Machine σ) :
    (selectSpace ctx side.other name).run m.mirror =
      ((selectSpace ctx side name).run m).mirror := by
  have hscopes : m.mirror.scopes = m.scopes := rfl
  have hspace := ctx.library.mirror_spaceOf m.scopes name
  rw [run_selectSpace, run_selectSpace, hscopes]
  rcases hname : ctx.library.spaceOf m.scopes name with fault | space
  · rw [hname] at hspace
    have hfault : fault.mirror = fault := Except.error.inj hspace
    change (⟨.error fault, m.mirror, []⟩ : Outcome σ Unit) = ⟨.error fault.mirror, m.mirror, []⟩
    rw [hfault]
  · exact run_setInk_mirror side (Ink.initial space) m

/-- A color is selected alike from both sides, as both have the same space in the mirror. A tile is
rendered alike, too, for it does not depend on the side. -/
theorem run_selectColor_mirror (side : Side) (op : String) (operands : List Operand)
    (m : Machine σ) :
    (selectColor ctx call side.other (mirrorName op) operands).run m.mirror =
      ((selectColor ctx call side op operands).run m).mirror := by
  have hscopes : m.mirror.scopes = m.scopes := rfl
  have hink : m.mirror.stack.current.ink side.other = m.stack.current.ink side := by
    rw [Machine.mirror, GStack.modify, GState.ink_mirror, Side.other_other]
  rw [run_selectColor, run_selectColor, hscopes, hink, Library.select_mirror]
  rcases ctx.library.select m.scopes op (m.stack.current.ink side).space operands with
    fault | paint | ⟨tiling, tint⟩
  · rfl
  · exact run_setInk_mirror side _ m
  · exact run_bind_mirror (run_tile_mirror tiling tint m) fun tile n => run_setInk_mirror side _ n

/-- A color command **comes to the mirror image** of what its counterpart comes to. It sets a space,
a color in the space, or both at once for a device. -/
theorem run_perform_mirror {command : Command} {side : Side} (h : command.side? = some side)
    (frame : Frame) (m : Machine σ) :
    (perform ctx call frame command.mirror).run m.mirror =
      ((perform ctx call frame command).run m).mirror := by
  have hpure (_ : Unit) (n : Machine σ) :
      (pure frame : Action σ Frame).run n.mirror = ((pure frame : Action σ Frame).run n).mirror :=
    rfl
  cases command with
  | space side name => exact run_bind_mirror (run_selectSpace_mirror side name m) hpure
  | color side op operands =>
      exact run_bind_mirror (run_selectColor_mirror side op operands m) hpure
  | device side space color => exact run_bind_mirror (run_setInk_mirror side _ m) hpure
  | _ => cases h

/-! ### Color operators -/

section

variable (ctx : Context σ) (call : Bytes → Action σ Unit)

/-- An instruction with a side is the operator of a keyword with that side. -/
theorem exists_known_of_side? {i : Instruction} {side : Side} (h : i.side? = some side) :
    ∃ k operands, i = .operate (.known k) operands ∧ k.side? = some side := by
  rcases i with ⟨k | spelling, operands⟩ | ⟨dict, data⟩ | flaw
  · exact ⟨k, operands, rfl, h⟩
  · cases h
  · cases h
  · cases h

/-- A color operator comes to the mirror image of what its counterpart comes to. -/
theorem run_step_mirror {i : Instruction} {side : Side} (h : i.side? = some side) (frame : Frame)
    (m : Machine σ) :
    (step ctx call frame i.mirror).run m.mirror = ((step ctx call frame i).run m).mirror := by
  obtain ⟨k, operands, rfl, hk⟩ := exists_known_of_side? h
  have hdecode := Command.decode_mirror hk operands
  rw [Instruction.mirror, Operator.mirror, step, step, hdecode]
  rcases hcommand : Command.decode (.known k) operands with fault | command
  · rfl
  · exact run_perform_mirror (Command.side?_of_decode hk hcommand) frame m

/-- A tile leaves the stack as it was. -/
theorem stack_run_tile (tiling : Tiling σ) (tint : Option Tint) (m : Machine σ) :
    ((tile ctx call tiling tint).run m).machine.stack = m.stack := by
  rcases hlookup : m.tiles.lookup (ctx.config.tileSharing.key tiling tint) with _ | tile
  · rw [run_tile_of_none m hlookup (run_renderCell m ctx call tiling tint) rfl]
  · rw [run_tile_of_some m hlookup]

/-- A color command leaves the ink of the other side as it is. This is so even if it renders a cell,
which has a state of its own. -/
theorem ink_run_perform {command : Command} {side : Side} (h : command.side? = some side)
    (frame : Frame) (m : Machine σ) :
    ((perform ctx call frame command).run m).machine.stack.current.ink side.other =
      m.stack.current.ink side.other := by
  cases command with
  | space side name =>
      cases h
      rw [perform, machine_run_bind_pure, run_selectSpace]
      rcases ctx.library.spaceOf m.scopes name with fault | space
      · rfl
      · exact GState.ink_setInk_other _ _ _
  | color side op operands =>
      cases h
      rw [perform, machine_run_bind_pure, run_selectColor]
      rcases ctx.library.select m.scopes op (m.stack.current.ink side).space operands with
        fault | paint | ⟨tiling, tint⟩
      · rfl
      · exact GState.ink_setInk_other _ _ _
      · have hstack := stack_run_tile ctx call tiling tint m
        dsimp only
        rw [run_bind]
        rcases htile : (tile ctx call tiling tint).run m with ⟨fault | tile, n, t⟩ <;>
          rw [htile] at hstack
        · exact congrArg (fun s : GStack => s.current.ink side.other) hstack
        · exact (GState.ink_setInk_other _ _ _).trans
            (congrArg (fun s : GStack => s.current.ink side.other) hstack)
  | device side space color =>
      cases h
      exact GState.ink_setInk_other _ _ _
  | _ => cases h

/-- A color operator leaves the ink of the other side as it is. -/
theorem ink_run_step {i : Instruction} {side : Side} (h : i.side? = some side) (frame : Frame)
    (m : Machine σ) :
    ((step ctx call frame i).run m).machine.stack.current.ink side.other =
      m.stack.current.ink side.other := by
  obtain ⟨k, operands, rfl, hk⟩ := exists_known_of_side? h
  rw [step]
  rcases hcommand : Command.decode (.known k) operands with fault | command
  · rfl
  · exact ink_run_perform ctx call (Command.side?_of_decode hk hcommand) frame m

/-- Color operators of one side leave the ink of the other side as it is, by induction on them. They
may also end in a fault, which changes no ink. -/
theorem ink_run_steps {is : List Instruction} {side : Side} (h : ∀ i ∈ is, i.side? = some side)
    (frame : Frame) (m : Machine σ) :
    ((steps ctx call frame is).run m).machine.stack.current.ink side.other =
      m.stack.current.ink side.other := by
  induction is generalizing frame m with
  | nil => rfl
  | cons i is ih =>
      rw [List.forall_mem_cons] at h
      have hstep := ink_run_step ctx call h.1 frame m
      rw [steps, run_bind]
      rcases hi : (step ctx call frame i).run m with ⟨fault | next, n, t⟩ <;> rw [hi] at hstep
      · exact hstep
      · exact (ih h.2 next n).trans hstep

/-- A sequence of color operators comes to the mirror image of what its counterparts come to. Each
of them starts from the mirror image that the one before has left. -/
theorem run_steps_mirror {is : List Instruction} (h : ∀ i ∈ is, i.side?.isSome = true)
    (frame : Frame) (m : Machine σ) :
    (steps ctx call frame (is.map Instruction.mirror)).run m.mirror =
      ((steps ctx call frame is).run m).mirror := by
  induction is generalizing frame m with
  | nil => rfl
  | cons i is ih =>
      rw [List.forall_mem_cons] at h
      obtain ⟨side, hside⟩ := Option.isSome_iff_exists.mp h.1
      exact run_bind_mirror (run_step_mirror ctx call hside frame m) fun next n => ih h.2 next n

end

end Action

/-- Color operators for the inside of shapes and for their outline are **mirror images**. If every
operator of a sequence is replaced by its counterpart, and the inks of the state are exchanged that
it starts in, then the sequence comes to the same, with the inks exchanged: the same is seen, the
same tiles are kept, and if there is a fault, it is the counterpart's. Neither kind of operator
changes the ink of the other side. -/
theorem colors_mirror (ctx : Context σ) (call : Bytes → Action σ Unit) (frame : Frame)
    {is : List Instruction} (h : ∀ i ∈ is, i.side?.isSome = true) (m : Machine σ) :
    (Action.steps ctx call frame (is.map Instruction.mirror)).run m.mirror =
        ((Action.steps ctx call frame is).run m).mirror ∧
      ∀ side, (∀ i ∈ is, i.side? = some side) →
        ((Action.steps ctx call frame is).run m).machine.stack.current.ink side.other =
          m.stack.current.ink side.other :=
  ⟨Action.run_steps_mirror ctx call h frame m,
    fun _ hside => Action.ink_run_steps ctx call hside frame m⟩

namespace RedOutline

/-- A context **without resources**. -/
def ctx : Context Nat where
  library := Directory.library #[]
  surface := fun _ => none

/-- The operands of the color **red**, the last one first. -/
def red : List Operand :=
  [.number (.ofValue 0.0), .number (.ofValue 0.0), .number (.ofValue 1.0)]

end RedOutline

open RedOutline in
/-- A red outline, and then a color for the inside that is not given. The mirror image is a red
inside, and a color for the outline that is not given. -/
theorem colors_mirror_of_red :
    let m : Machine Nat := { scopes := [0] }
    let outline : Instruction := .operate (.known .strokeRgb) red
    let is : List Instruction := [outline, .operate (.known .fillColor) []]
    (∀ i ∈ is, i.side?.isSome = true) ∧
    (Action.steps ctx (Action.call ctx) { base := 1 }
        [.operate (.known .fillRgb) red, .operate (.known .strokeColor) []]).run m.mirror =
      ((Action.steps ctx (Action.call ctx) { base := 1 } is).run m).mirror ∧
    (∀ i ∈ [outline], i.side? = some .stroke) ∧
    ((Action.steps ctx (Action.call ctx) { base := 1 } [outline]).run
        m).machine.stack.current.fill = m.stack.current.fill := by
  intro m outline is
  have his : ∀ i ∈ is, i.side?.isSome = true := by decide
  have hall : ∀ i ∈ [outline], i.side?.isSome = true := by decide
  have hstroke : ∀ i ∈ [outline], i.side? = some .stroke := by decide
  exact ⟨his, (colors_mirror ctx (Action.call ctx) { base := 1 } his m).1, hstroke,
    (colors_mirror ctx (Action.call ctx) { base := 1 } hall m).2 .stroke hstroke⟩

end ContentStream
