import ContentStream.Proofs.Moments
import ContentStream.Proofs.Operands
import ContentStream.Proofs.Splitting

/-!
# Balance

Two pairs of operators work like brackets: those that save and restore the graphics state, and those
that begin and end a compatibility section. A closing operator fails if its own program has opened
no more brackets of that kind than it has closed, and for no other reason. What the caller of the
program has saved does not count, and neither does anything that happens in the forms and cells that
the program calls, however unbalanced these are themselves: a call gives the stack back as it was,
and a frame of its own keeps account of the sections of each program.

So there is an invariant of the instructions of a program: the brackets that are open, by the depth
of the stack and the count in the frame, are as many as the opening operators that were carried out
less the closing ones. All other operators are *level*: they leave the open brackets alone, and do
not fail in the way that a closing operator does.

## Main definitions

* `Bracket`: the two pairs of operators, with the fault of each.
* `Bracket.opened`: the brackets that are open.
* `Outcome.Level`: an outcome that has to do with no brackets.
* `Program.ComesTo`: a program comes to an instruction.

## Main results

* `Action.level_step`: instructions other than the four operators are level.
* `Action.opened_opening`, `Action.opened_closing`: what each of the four does to open brackets.
* `Action.opened_steps`: the brackets that are open are those opened and not closed.
* `Action.result_closing_iff`: a closing operator fails if nothing is open.
* `imbalance_iff`: faults of imbalance are exactly the imbalance of the program itself.
-/

namespace ContentStream

variable {σ α β : Type}

/-! ### Brackets -/

/-- A **bracket**: a pair of operators of which the second undoes the first. -/
inductive Bracket where
  /-- A graphics state that is saved, and restored. -/
  | state
  /-- A compatibility section. -/
  | compatibility
deriving DecidableEq

namespace Bracket

/-- The keyword that **opens** a bracket. -/
def opening : Bracket → Keyword
  | state => .save
  | compatibility => .beginCompatibility

/-- The keyword that **closes** a bracket. -/
def closing : Bracket → Keyword
  | state => .restore
  | compatibility => .endCompatibility

/-- The fault of a closing keyword when **nothing is open**. -/
def fault : Bracket → Fault
  | state => .stackUnderflow
  | compatibility => .unbalancedCompatibility

/-- How many brackets a program **has open**. -/
def opened (frame : Frame) (m : Machine σ) : Bracket → Nat
  | state => m.stack.depth - frame.base
  | compatibility => frame.compatibility

/-- A fault tells its bracket, so that a program which fails with it has met the closing operator of
this pair and not of the other. -/
theorem eq_of_fault_eq {b b' : Bracket} (h : b.fault = b'.fault) : b = b' := by
  cases b with
  | state =>
      cases b' with
      | state => rfl
      | compatibility => cases h
  | compatibility =>
      cases b' with
      | state => cases h
      | compatibility => rfl

end Bracket

/-- A command is **level** if it neither opens nor closes a bracket. -/
def Command.isLevel : Command → Bool
  | .save | .restore | .beginCompatibility | .endCompatibility => false
  | _ => true

/-- Whether an operator **opens or closes** a bracket. -/
def Operator.isBracket : Operator → Bool
  | .known .save | .known .restore => true
  | .known .beginCompatibility | .known .endCompatibility => true
  | _ => false

/-- An operator opens or closes a bracket if its keyword does. Of an operator that is no such
keyword, this is how it is known to be level. -/
theorem Operator.isBracket_iff {op : Operator} :
    op.isBracket = true ↔ ∃ b : Bracket, op = .known b.opening ∨ op = .known b.closing := by
  constructor
  · intro h
    unfold isBracket at h
    split at h
    · exact ⟨.state, .inl rfl⟩
    · exact ⟨.state, .inr rfl⟩
    · exact ⟨.compatibility, .inl rfl⟩
    · exact ⟨.compatibility, .inr rfl⟩
    · cases h
  · rintro ⟨_ | _, rfl | rfl⟩ <;> rfl

/-- Only brackets give commands that are not level, so that a level command is recognized by its
operator alone, whatever the operands are. -/
theorem Command.isLevel_of_decode {op : Operator} {operands : List Operand} {command : Command}
    (h : Command.decode op operands = .ok command) (hop : op.isBracket = false) :
    command.isLevel = true := by
  cases Operator.AsksFor.of_decode h with
  | save | restore | beginCompatibility | endCompatibility => cases hop
  | _ => rfl

/-! ### Faults of other kinds -/

/-- A fault that is **no imbalance**. -/
def Fault.Other (fault : Fault) : Prop :=
  ∀ b : Bracket, fault ≠ b.fault

/-- A result **fails otherwise** than by an imbalance, if it is a fault at all. -/
def FailsOtherwise (x : Except Fault α) : Prop :=
  ∀ fault, x = .error fault → fault.Other

namespace FailsOtherwise

/-- What does not fail fails in no such way. -/
theorem ok (a : α) : FailsOtherwise (.ok a) := by
  rintro fault ⟨⟩

/-- A single fault that is no imbalance. -/
theorem error {fault : Fault} (h : fault.Other) :
    FailsOtherwise (.error fault : Except Fault α) := by
  rintro _ ⟨⟩
  exact h

/-- A sequence fails otherwise if both parts do. -/
theorem bind {x : Except Fault α} {f : α → Except Fault β} (hx : FailsOtherwise x)
    (hf : ∀ a, FailsOtherwise (f a)) : FailsOtherwise (x.bind f) := by
  cases x with
  | error fault => exact .error (hx fault rfl)
  | ok a => exact hf a

/-- To go on with a result adds no faults. -/
theorem map {x : Except Fault α} {f : α → β} (hx : FailsOtherwise x) :
    FailsOtherwise (x.map f) := by
  cases x with
  | error fault => exact .error (hx fault rfl)
  | ok a => exact .ok (f a)

/-- Operands that are refused are no imbalance, because that is a fault of its own kind. -/
theorem of_isOperand {x : Except Fault α}
    (hx : ∀ fault, x = .error fault → fault.isOperand = true) : FailsOtherwise x := by
  rintro fault h (_ | _) rfl <;> cases hx _ h

end FailsOtherwise

/-- A library **fails otherwise** when it decodes something. -/
structure Library.FailsOtherwise (lib : Library σ) : Prop where
  stream : ∀ scope raw, ContentStream.FailsOtherwise (lib.decodeStream scope raw)
  image : ∀ scope dict data, ContentStream.FailsOtherwise (lib.decodeInlineImage scope dict data)

section

variable {lib : Library σ} {scopes : List σ}

/-- A name that is not found is no imbalance, whatever it is to name. -/
theorem failsOtherwise_find {ρ : Type} (lookup : σ → String → Option ρ) (kind : ResourceKind)
    (name : String) : FailsOtherwise (Library.find lookup kind scopes name) := by
  unfold Library.find
  split
  · exact .ok _
  · exact .error (by rintro (_ | _) ⟨⟩)

/-- Neither is the name of a color space: those that are given by their names are found anyway, and
the others are looked up. -/
theorem failsOtherwise_spaceOf (name : String) : FailsOtherwise (lib.spaceOf scopes name) := by
  unfold Library.spaceOf
  split
  · exact .ok _
  · exact failsOtherwise_find _ _ _

/-- Neither is a tint for which there are too few operands, or operands that are no numbers. -/
theorem failsOtherwise_takeTint (op : String) (space : ColorSpace) (tiling : Tiling σ)
    (operands : List Operand) : FailsOtherwise (Action.takeTint op space tiling operands) := by
  unfold Action.takeTint
  split
  · exact .ok _
  · exact .map (.of_isOperand fun _ => (Take.asks_numerals op _).run')

/-- Neither is what selects no color. The operands may be refused, and the pattern may be
missing. -/
theorem failsOtherwise_select (op : String) (space : ColorSpace) (operands : List Operand) :
    FailsOtherwise (lib.select scopes op space operands) := by
  unfold Library.select
  split
  · refine .bind (.of_isOperand fun _ => Take.asks_name op operands _) fun x => ?_
    refine .bind (failsOtherwise_find _ _ _) fun pattern => ?_
    cases pattern with
    | shading shading matrix => exact .ok _
    | tiling tiling => exact .map (failsOtherwise_takeTint op space tiling x.2)
  · exact .map (.of_isOperand fun _ => (Take.asks_numbers op space.components).run')

/-- Neither is a dictionary that describes no image. It lacks a width or a height, or has something
other than a number there. -/
theorem failsOtherwise_ofDict (dict : Dict) (data : Bytes) :
    FailsOtherwise (Image.ofDict dict data) := by
  have hdimension (key : String) : FailsOtherwise (Image.dimension dict key) := by
    unfold Image.dimension
    split
    · split
      · exact .ok _
      · exact .error (by rintro (_ | _) ⟨⟩)
    · exact .error (by rintro (_ | _) ⟨⟩)
  exact (hdimension _).bind fun _ => (hdimension _).bind fun _ => .ok _

/-- Neither is an inline image that the library does not decode. -/
theorem failsOtherwise_inlineImage (hlib : lib.FailsOtherwise) (dict : Dict) (data : Bytes) :
    FailsOtherwise (lib.inlineImage scopes dict data) := by
  cases scopes with
  | nil => exact failsOtherwise_ofDict dict data
  | cons scope scopes => exact hlib.image scope dict data

/-- A content stream that is no program is no imbalance: it cannot be decoded, or it cannot be
tokenized. -/
theorem failsOtherwise_program? {ctx : Context σ} (hlib : ctx.library.FailsOtherwise)
    (content : Bytes) : FailsOtherwise (ctx.program? scopes content) := by
  have hdecode : FailsOtherwise (ctx.library.decode scopes content) := by
    cases scopes with
    | nil => exact .ok content
    | cons scope scopes => exact hlib.stream scope content
  refine hdecode.bind fun decoded => ?_
  rw [tokenize_eq]
  refine .map fun fault hfault => ?_
  obtain ⟨position, flaw, rfl⟩ := exists_lexical_of_assemble hfault
  rintro (_ | _) ⟨⟩

/-- What the tables of a directory refuse is no imbalance. So the assumption on libraries holds of
those that are given by tables. -/
theorem Directory.failsOtherwise (d : Directory) : d.library.FailsOtherwise where
  stream scope raw := by
    unfold library
    dsimp only
    split
    · exact .error (by rintro (_ | _) ⟨⟩)
    · exact .ok _
  image scope dict data := by
    unfold library
    dsimp only
    split
    · exact .error (by rintro (_ | _) ⟨⟩)
    · exact failsOtherwise_ofDict dict data

end

/-! ### Actions that are level -/

/-- An outcome is **level** if the stack is as deep as it was, the result is of some kind, and a
fault is no imbalance as long as the library fails otherwise. -/
structure Outcome.Level (ctx : Context σ) (Q : α → Prop) (m : Machine σ) (o : Outcome σ α) :
    Prop where
  depth : o.machine.stack.depth = m.stack.depth
  result : ∀ a, o.result = .ok a → Q a
  fault : ctx.library.FailsOtherwise → FailsOtherwise o.result

/-- A frame that keeps **the same account** of what is open. -/
structure Frame.SameAccount (frame frame' : Frame) : Prop where
  base_eq : frame'.base = frame.base
  compatibility_eq : frame'.compatibility = frame.compatibility

/-- Commands that are level keep the account: whatever else they alter in the frame, they leave its
base and its count of sections. -/
theorem Command.Alters.sameAccount {frame f : Frame} {command : Command}
    (h : command.Alters frame f) (hlevel : command.isLevel = true) : frame.SameAccount f := by
  refine ⟨h.base_eq, ?_⟩
  cases command with
  | beginCompatibility | endCompatibility => cases hlevel
  | construct | clip | beginText | endText | write =>
      obtain ⟨_, rfl⟩ := h
      rfl
  | _ =>
      obtain rfl := h
      rfl

namespace Action

variable {ctx : Context σ}

/-- An action is **level** if its outcome is, on every machine. -/
def Level (ctx : Context σ) (Q : α → Prop) (x : Action σ α) : Prop :=
  ∀ m, (x.run m).Level ctx Q m

namespace Level

/-- What never fails is level if it leaves the stack as deep as it was. -/
theorem of_ok {x : Action σ α}
    (h : ∀ m, ∃ a n t, x.run m = ⟨.ok a, n, t⟩ ∧ n.stack.depth = m.stack.depth) :
    Level ctx anything x := by
  intro m
  obtain ⟨a, n, t, hrun, hdepth⟩ := h m
  rw [hrun]
  exact ⟨hdepth, fun _ _ => trivial, fun _ => .ok a⟩

/-- What is known of the results anyway is known of them here. -/
theorem of_result {Q : α → Prop} {x : Action σ α} (hx : Level ctx anything x)
    (hQ : ∀ m a, (x.run m).result = .ok a → Q a) : Level ctx Q x :=
  fun m => ⟨(hx m).depth, hQ m, (hx m).fault⟩

/-- To give a result is level if the result is of the kind in question. -/
theorem pure {Q : α → Prop} {a : α} (ha : Q a) : Level ctx Q (pure a) := by
  refine fun m => ⟨rfl, ?_, fun _ => .ok a⟩
  rintro _ ⟨⟩
  exact ha

/-- To fail otherwise is level. -/
theorem fail {Q : α → Prop} {fault : Fault} (h : fault.Other) :
    Level ctx Q (fail fault : Action σ α) :=
  fun _ => ⟨rfl, nofun, fun _ => .error h⟩

/-- What is looked up fails as the library does, and changes nothing. -/
theorem ofExcept {x : Except Fault α} (hx : ctx.library.FailsOtherwise → FailsOtherwise x) :
    Level ctx anything (ofExcept x) :=
  fun _ => ⟨rfl, fun _ _ => trivial, hx⟩

/-- Sequencing. What is known of the first result may be used for the second action. If the first
fails, the second has no say in the depth, nor in the fault. -/
theorem bind {P : α → Prop} {Q : β → Prop} {x : Action σ α} {f : α → Action σ β}
    (hx : Level ctx P x) (hf : ∀ a, P a → Level ctx Q (f a)) : Level ctx Q (x >>= f) := by
  intro m
  obtain ⟨hdepth, hresult, hfault⟩ := hx m
  rw [run_bind]
  generalize x.run m = o at hdepth hresult hfault
  obtain ⟨fault | a, n, t⟩ := o
  · exact ⟨hdepth, nofun, fun hlib => .error (hfault hlib fault rfl)⟩
  · obtain ⟨hdepth', hresult', hfault'⟩ := hf a (hresult a rfl) n
    exact ⟨hdepth'.trans hdepth, hresult', hfault'⟩

/-- Sequencing when the first action gives no result of interest. -/
theorem andThen {Q : β → Prop} {x : Action σ α} {f : α → Action σ β}
    (hx : Level ctx anything x) (hf : ∀ a, Level ctx Q (f a)) : Level ctx Q (x >>= f) :=
  hx.bind fun a _ => hf a

/-- To be level is composable, and so it holds of all actions that are made of level steps. -/
theorem composable : Composable (Level ctx anything) where
  pure _ := .pure trivial
  bind := .andThen

/-- To look at the machine is level. -/
theorem machine : Level ctx anything (machine : Action σ (Machine σ)) :=
  .of_ok fun m => ⟨m, m, [], rfl, rfl⟩

/-- So it is to look at the state. -/
theorem state : Level ctx anything (state : Action σ GState) :=
  .of_ok fun m => ⟨m.stack.current, m, [], rfl, rfl⟩

/-- The current state may be changed in any way: no other is touched, and the stack is as deep as
before. -/
theorem modifyState (f : GState → GState) : Level ctx anything (modifyState f : Action σ Unit) :=
  .of_ok fun m => ⟨(), _, [], run_modifyState m f, GStack.depth_modify m.stack f⟩

/-- What is seen has no part in the stack. -/
theorem emit (e : Event) : Level ctx anything (emit e : Action σ Unit) :=
  .of_ok fun m => ⟨(), m, _, rfl, rfl⟩

/-- Neither have several events. -/
theorem emitAll (es : List Event) : Level ctx anything (emitAll es : Action σ Unit) :=
  .of_ok fun m => ⟨(), m, _, rfl, rfl⟩

end Level

/-! ### Painting and writing -/

/-- To narrow the clip changes the current state only. -/
theorem level_narrowClip (path : Path Float) :
    Level ctx anything (narrowClip path : Action σ Unit) :=
  Level.state.andThen fun _ => (Level.modifyState _).andThen fun _ => .emit _

/-- To end a path does so, too. -/
theorem level_endPath (frame : Frame) :
    Level ctx anything (endPath frame : Action σ Frame) :=
  Level.composable.endPath level_narrowClip (.modifyState _) frame

/-- To paint a shading is to look it up, and to end the path. -/
theorem level_shade (name : String) (frame : Frame) :
    Level ctx anything (shade ctx name frame) := by
  refine Level.machine.andThen fun m =>
    (Level.ofExcept fun _ => failsOtherwise_find _ _ _).andThen fun shading => ?_
  cases shadedRegion? m.stack.current.ctm m.stack.current.clip m.pageBounds shading.bbox with
  | none => exact .fail (by rintro (_ | _) ⟨⟩)
  | some region => exact (Level.emit _).andThen fun _ => level_endPath frame

/-- Steps of writing set parameters of text and show strings; no state is saved or restored. -/
theorem level_write (step : Writing) (frame : Frame) :
    Level ctx anything (write step frame : Action σ Frame) :=
  Level.composable.write (Level.composable.ofText .state) (fun _ => .modifyState _)
    (Level.composable.showText .state fun _ _ => .emitAll _) step frame

/-! ### Looking things up -/

/-- A font that is not found is no imbalance. -/
theorem level_selectFont (name : String) (size : Float) :
    Level ctx anything (selectFont ctx name size) :=
  Level.machine.andThen fun _ =>
    (Level.ofExcept fun _ => failsOtherwise_find _ _ _).andThen fun _ => .modifyState _

/-- To draw an image changes nothing. -/
theorem level_drawImage (image : Image) :
    Level ctx anything (drawImage image : Action σ Unit) :=
  Level.state.andThen fun _ => .emit _

/-- An inline image is decoded and drawn. -/
theorem level_drawInlineImage (dict : Dict) (data : Bytes) :
    Level ctx anything (drawInlineImage ctx dict data) :=
  Level.composable.drawInlineImage (fun hf => Level.machine.andThen fun m => hf m.scopes)
    (fun _ => .emit _) (fun _ => .ofExcept fun hlib => failsOtherwise_inlineImage hlib dict data)
    level_drawImage

/-- A color space that is not found is no imbalance. -/
theorem level_selectSpace (side : Side) (name : String) :
    Level ctx anything (selectSpace ctx side name) := by
  intro m
  rw [run_selectSpace]
  rcases hspace : ctx.library.spaceOf m.scopes name with fault | space
  · exact Level.fail (failsOtherwise_spaceOf name fault hspace) m
  · exact Level.modifyState _ m

section Calling

variable {call : Bytes → Action σ Unit}
  (hcall : ∀ floor content, Keeps ctx floor anything (call content))

include hcall

/-- Forms are level, however unbalanced their content is: the stack is cut down to what the caller
had, and the faults of the form are not the caller's. -/
theorem level_runForm (form : Form σ) : Level ctx anything (runForm call form) := by
  refine .of_ok fun m => ?_
  obtain ⟨tiles, n, t, hrun⟩ := exists_run_runForm hcall form m
  exact ⟨(), _, t, hrun, rfl⟩

/-- So are cells, which start from a stack of their own. -/
theorem level_tile (tiling : Tiling σ) (tint : Option Tint) :
    Level ctx anything (tile ctx call tiling tint) := by
  refine .of_ok fun m => ?_
  obtain ⟨answer, tiles, n, t, hrun⟩ := exists_run_tile hcall tiling tint m
  exact ⟨answer, _, t, hrun, rfl⟩

/-- To select a color is to look it up, and to have a cell rendered perhaps. -/
theorem level_selectColor (side : Side) (op : String) (operands : List Operand) :
    Level ctx anything (selectColor ctx call side op operands) := by
  intro m
  rw [run_selectColor]
  rcases hselect : ctx.library.select m.scopes op (m.stack.current.ink side).space operands with
    fault | paint | ⟨tiling, tint⟩
  · exact Level.fail (failsOtherwise_select op _ operands fault hselect) m
  · exact Level.modifyState _ m
  · exact (level_tile hcall tiling tint).andThen (fun _ => .modifyState _) m

/-- To invoke an external object is to draw it or to run it as a form. -/
theorem level_invoke (name : String) : Level ctx anything (invoke ctx call name) := by
  refine Level.machine.andThen fun m =>
    (Level.ofExcept fun _ => failsOtherwise_find _ _ _).andThen fun xobject => ?_
  cases xobject with
  | image image => exact level_drawImage image
  | form form => exact level_runForm hcall form

/-- Commands are level if they say so. This goes by the commands, and for each it is put together
from what has been said of the steps. -/
theorem level_perform (frame : Frame) {command : Command} (h : command.isLevel = true) :
    Level ctx frame.SameAccount (perform ctx call frame command) := by
  have hsame {x : Action σ Unit} (hx : Level ctx anything x) :
      Level ctx anything (do x; pure frame : Action σ Frame) :=
    hx.andThen fun _ => .pure trivial
  refine .of_result ?_ fun m f hf => (alters_of_run_perform hf).sameAccount h
  cases command with
  | save | restore | beginCompatibility | endCompatibility => cases h
  | set setting => exact hsame (.modifyState _)
  | font name size => exact hsame (level_selectFont name size)
  | extGState name =>
      exact Level.machine.andThen fun _ =>
        (Level.ofExcept fun _ => failsOtherwise_find _ _ _).andThen fun _ =>
          hsame (Level.composable.applyParameters (fun _ => .modifyState _) level_selectFont _)
  | construct step => exact Level.composable.construct .state (fun _ => .modifyState _) step frame
  | paint painting =>
      exact Level.composable.paint .state (fun _ _ => .emitAll _) (level_endPath frame)
  | clip rule | endText | ignore => exact .pure trivial
  | beginText => exact Level.state.andThen fun _ => .pure trivial
  | write step => exact level_write step frame
  | space side name => exact hsame (level_selectSpace side name)
  | color side op operands => exact hsame (level_selectColor hcall side op operands)
  | device side space color => exact hsame (.modifyState _)
  | invoke name => exact hsame (level_invoke hcall name)
  | shade name => exact level_shade name frame
  | unknown spelling => exact hsame (.emit _)

/-- Instructions are level, apart from those that open and close brackets. An operator is refused
for its operands, or it does what its command does. -/
theorem level_step (frame : Frame) {i : Instruction}
    (hi : ∀ op operands, i = .operate op operands → op.isBracket = false) :
    Level ctx frame.SameAccount (step ctx call frame i) := by
  cases i with
  | drawImage dict data => exact (level_drawInlineImage dict data).andThen fun _ => .pure ⟨rfl, rfl⟩
  | misspelled flaw => exact .fail (by rintro (_ | _) ⟨⟩)
  | operate op operands =>
      rcases hdecode : Command.decode op operands with fault | command
      · rw [step, hdecode]
        have hfault : fault.Other :=
          FailsOtherwise.of_isOperand (fun _ => Command.isOperand_of_decode) fault hdecode
        exact .fail hfault
      · have hstep : step ctx call frame (.operate op operands) =
            perform ctx call frame command := by
          rw [step, hdecode]
          rfl
        rw [hstep]
        exact level_perform hcall frame (Command.isLevel_of_decode hdecode (hi op operands rfl))

end Calling

end Action

/-! ### Brackets that are opened and closed -/

/-- A frame **stands on** a machine if the stack is at least as deep as it was when the program
began. -/
structure Frame.StandsOn (frame : Frame) (m : Machine σ) : Prop where
  one_le : 1 ≤ frame.base
  base_le : frame.base ≤ m.stack.depth

/-- A program begins with a frame that stands on its machine, since a stack is never empty. -/
theorem Frame.standsOn_fresh (m : Machine σ) :
    Frame.StandsOn { base := m.stack.depth } m :=
  ⟨m.stack.one_le_depth, Nat.le_refl _⟩

/-- When a program begins, it has nothing open. -/
theorem Bracket.opened_fresh (m : Machine σ) (b : Bracket) :
    b.opened { base := m.stack.depth } m = 0 := by
  cases b with
  | state => exact Nat.sub_self _
  | compatibility => rfl

/-- Brackets stay open if the account is the same and the stack is as deep. -/
theorem Frame.SameAccount.opened_eq {frame frame' : Frame} {m n : Machine σ}
    (h : frame.SameAccount frame') (hdepth : n.stack.depth = m.stack.depth) (b : Bracket) :
    b.opened frame' n = b.opened frame m := by
  cases b with
  | state => simp only [Bracket.opened, hdepth, h.base_eq]
  | compatibility => exact h.compatibility_eq

namespace Action

variable {ctx : Context σ} {call : Bytes → Action σ Unit} {m n : Machine σ} {frame frame' : Frame}
  {t : Trace}

/-- To save a state is to put a copy on the stack, which is announced. -/
theorem run_step_save (operands : List Operand) :
    (step ctx call frame (.operate (.known .save) operands)).run m =
      ⟨.ok frame, { m with stack := m.stack.save }, [.event (.save m.stack.current)]⟩ :=
  rfl

/-- A state that the program has not saved itself is not restored, and the restore is refused. -/
theorem run_step_restore_of_le (operands : List Operand) (h : m.stack.depth ≤ frame.base) :
    (step ctx call frame (.operate (.known .restore) operands)).run m =
      ⟨.error .stackUnderflow, m, []⟩ := by
  have hstep : step ctx call frame (.operate (.known .restore) operands) =
      (do restoreOwn frame; pure frame) := rfl
  rw [hstep, run_bind, run_restoreOwn_of_le h]

/-- A state that the program has saved itself can be restored, and then the stack is less deep by
one. -/
theorem exists_run_step_restore (operands : List Operand) (hbase : frame.base < m.stack.depth)
    (hpos : 1 ≤ frame.base) :
    ∃ n t, (step ctx call frame (.operate (.known .restore) operands)).run m = ⟨.ok frame, n, t⟩ ∧
      n.stack.depth + 1 = m.stack.depth := by
  have hstep : step ctx call frame (.operate (.known .restore) operands) =
      (do restoreOwn frame; pure frame) := rfl
  rcases hs : m.stack.saved with _ | ⟨gs, saved⟩
  · simp only [GStack.depth, hs, List.length_nil] at hbase
    omega
  · have hrun : (step ctx call frame (.operate (.known .restore) operands)).run m =
        ⟨.ok frame, { m with stack := ⟨gs, saved⟩ }, [.event (.restore gs)]⟩ := by
      rw [hstep, run_bind, run_restoreOwn hbase hs]
      rfl
    exact ⟨_, _, hrun, by simp only [GStack.depth, hs, List.length_cons]⟩

/-- To begin a section is to count it in the frame; nothing is seen of it. -/
theorem run_step_beginCompatibility (operands : List Operand) :
    (step ctx call frame (.operate (.known .beginCompatibility) operands)).run m =
      ⟨.ok { frame with compatibility := frame.compatibility + 1 }, m, []⟩ :=
  rfl

/-- To end a section is to count it no longer. If none has been begun by the program itself, that is
a fault, whatever its caller has begun. -/
theorem run_step_endCompatibility (operands : List Operand) :
    (step ctx call frame (.operate (.known .endCompatibility) operands)).run m =
      match frame.compatibility with
      | 0 => ⟨.error .unbalancedCompatibility, m, []⟩
      | k + 1 => ⟨.ok { frame with compatibility := k }, m, []⟩ := by
  have hstep : step ctx call frame (.operate (.known .endCompatibility) operands) =
      match frame.compatibility with
      | 0 => fail .unbalancedCompatibility
      | k + 1 => pure { frame with compatibility := k } := rfl
  rw [hstep]
  cases frame.compatibility <;> rfl

/-- A closing operator fails exactly if nothing is open. That the frame stands on the machine is
needed for the states: a difference of natural numbers says nothing if it is cut off at zero. -/
theorem result_closing_iff (h : frame.StandsOn m) (b : Bracket) (operands : List Operand) :
    ((step ctx call frame (.operate (.known b.closing) operands)).run m).result = .error b.fault ↔
      b.opened frame m = 0 := by
  cases b with
  | state =>
      have hopened : Bracket.state.opened frame m = 0 ↔ m.stack.depth ≤ frame.base :=
        Nat.sub_eq_zero_iff_le
      rw [hopened, Bracket.closing]
      constructor
      · intro hfault
        by_contra hbase
        obtain ⟨n, t, hrun, -⟩ := exists_run_step_restore operands (Nat.lt_of_not_le hbase) h.one_le
        rw [hrun] at hfault
        cases hfault
      · intro hbase
        rw [run_step_restore_of_le operands hbase]
        rfl
  | compatibility =>
      rw [Bracket.closing, run_step_endCompatibility, Bracket.opened]
      cases hopen : frame.compatibility with
      | zero => simp [Bracket.fault]
      | succ k => simp

/-- A closing operator fails for no other reason. It takes no operands, so that it is not refused
for those. -/
theorem eq_fault_of_closing {b : Bracket} {operands : List Operand} {fault : Fault}
    (hfault : ((step ctx call frame (.operate (.known b.closing) operands)).run m).result =
      .error fault) : fault = b.fault := by
  cases b with
  | state =>
      have hstep : step ctx call frame (.operate (.known Bracket.state.closing) operands) =
          (do restoreOwn frame; pure frame) := rfl
      rw [hstep, run_bind] at hfault
      rcases Nat.lt_or_ge frame.base m.stack.depth with hbase | hbase
      · rcases hs : m.stack.saved with _ | ⟨gs, saved⟩
        · rw [run_restoreOwn_of_saved_eq_nil hs] at hfault
          exact (Except.error.inj hfault).symm
        · rw [run_restoreOwn hbase hs] at hfault
          cases hfault
      · rw [run_restoreOwn_of_le hbase] at hfault
        exact (Except.error.inj hfault).symm
  | compatibility =>
      rw [Bracket.closing, run_step_endCompatibility] at hfault
      cases hopen : frame.compatibility with
      | zero =>
          rw [hopen] at hfault
          exact (Except.error.inj hfault).symm
      | succ k =>
          rw [hopen] at hfault
          cases hfault

/-- An opening operator does not fail. -/
theorem result_opening (b : Bracket) (operands : List Operand) :
    ∃ frame', ((step ctx call frame (.operate (.known b.opening) operands)).run m).result =
      .ok frame' := by
  cases b <;> exact ⟨_, rfl⟩

/-- An instruction opens a bracket, closes one, or does neither. All that follows goes by these
three cases. -/
theorem bracket_or_level (i : Instruction) :
    (∃ (b : Bracket) (operands : List Operand), i = .operate (.known b.opening) operands ∨
      i = .operate (.known b.closing) operands) ∨
    ∀ op operands, i = .operate op operands → op.isBracket = false := by
  by_cases hi : ∃ op operands, i = .operate op operands ∧ op.isBracket = true
  · obtain ⟨op, operands, rfl, hop⟩ := hi
    obtain ⟨b, rfl | rfl⟩ := Operator.isBracket_iff.mp hop
    · exact .inl ⟨b, operands, .inl rfl⟩
    · exact .inl ⟨b, operands, .inr rfl⟩
  · exact .inr fun op operands h =>
      Bool.eq_false_iff.mpr fun hbracket => hi ⟨op, operands, h, hbracket⟩

/-- An instruction that does neither is not counted for any bracket, so that counts agree before and
after it. -/
theorem isOperate_eq_false {i : Instruction}
    (hi : ∀ op operands, i = .operate op operands → op.isBracket = false) (b : Bracket) :
    i.isOperate b.opening = false ∧ i.isOperate b.closing = false := by
  cases i with
  | operate op operands =>
      have hop {k : Keyword} (hk : (Operator.known k).isBracket = true) :
          (op == .known k) = false :=
        beq_false_of_ne fun h => by simp [← h, hi op operands rfl] at hk
      exact ⟨hop (Operator.isBracket_iff.mpr ⟨b, .inl rfl⟩),
        hop (Operator.isBracket_iff.mpr ⟨b, .inr rfl⟩)⟩
  | _ => exact ⟨rfl, rfl⟩

/-- An opening operator counts for its own bracket, and as opened. -/
theorem isOperate_opening (b b' : Bracket) (operands : List Operand) :
    (Instruction.operate (.known b'.opening) operands).isOperate b.opening = decide (b = b') ∧
      (Instruction.operate (.known b'.opening) operands).isOperate b.closing = false := by
  cases b <;> cases b' <;> exact ⟨rfl, rfl⟩

/-- A closing operator counts for its own bracket, and as closed. -/
theorem isOperate_closing (b b' : Bracket) (operands : List Operand) :
    (Instruction.operate (.known b'.closing) operands).isOperate b.opening = false ∧
      (Instruction.operate (.known b'.closing) operands).isOperate b.closing = decide (b = b') := by
  cases b <;> cases b' <;> exact ⟨rfl, rfl⟩

/-- An opening operator opens its own bracket and no other: a state is saved on the stack, and a
section is counted in the frame. -/
theorem opened_opening (h : frame.StandsOn m) {b : Bracket} {operands : List Operand}
    (hrun : (step ctx call frame (.operate (.known b.opening) operands)).run m =
      ⟨.ok frame', n, t⟩) :
    b.opened frame' n = b.opened frame m + 1 ∧
      ∀ b', b' ≠ b → b'.opened frame' n = b'.opened frame m := by
  cases b with
  | state =>
      rw [Bracket.opening, run_step_save] at hrun
      cases hrun
      refine ⟨Nat.succ_sub h.base_le, fun b' hb' => ?_⟩
      cases b' with
      | state => exact absurd rfl hb'
      | compatibility => rfl
  | compatibility =>
      rw [Bracket.opening, run_step_beginCompatibility] at hrun
      cases hrun
      refine ⟨rfl, fun b' hb' => ?_⟩
      cases b' with
      | state => rfl
      | compatibility => exact absurd rfl hb'

/-- A closing operator that is carried out closes its own bracket and no other. That it is carried
out means that one was open, as it would have failed otherwise. -/
theorem opened_closing (h : frame.StandsOn m) {b : Bracket} {operands : List Operand}
    (hrun : (step ctx call frame (.operate (.known b.closing) operands)).run m =
      ⟨.ok frame', n, t⟩) :
    b.opened frame' n + 1 = b.opened frame m ∧
      ∀ b', b' ≠ b → b'.opened frame' n = b'.opened frame m := by
  cases b with
  | state =>
      rcases Nat.lt_or_ge frame.base m.stack.depth with hlt | hge
      · obtain ⟨n', t', hrun', hdepth⟩ := exists_run_step_restore operands hlt h.one_le
        rw [Bracket.closing, hrun'] at hrun
        cases hrun
        refine ⟨?_, fun b' hb' => ?_⟩
        · simp only [Bracket.opened]
          omega
        · cases b' with
          | state => exact absurd rfl hb'
          | compatibility => rfl
      · rw [Bracket.closing, run_step_restore_of_le operands hge] at hrun
        cases hrun
  | compatibility =>
      rw [Bracket.closing, run_step_endCompatibility] at hrun
      cases hopen : frame.compatibility with
      | zero =>
          rw [hopen] at hrun
          cases hrun
      | succ k =>
          rw [hopen] at hrun
          cases hrun
          refine ⟨hopen.symm, fun b' hb' => ?_⟩
          cases b' with
          | state => rfl
          | compatibility => exact absurd rfl hb'

section Calling

variable (hcall : ∀ floor content, Keeps ctx floor anything (call content))

include hcall

/-- What an instruction that is carried out does to the brackets that are open: one more if it
opens, one less if it closes, and as many as before otherwise. -/
theorem opened_step (h : frame.StandsOn m) {i : Instruction}
    (hrun : (step ctx call frame i).run m = ⟨.ok frame', n, t⟩) (b : Bracket) :
    b.opened frame' n + (if i.isOperate b.closing then 1 else 0) =
      b.opened frame m + (if i.isOperate b.opening then 1 else 0) := by
  rcases bracket_or_level i with ⟨b', operands, rfl | rfl⟩ | hlevel
  · obtain ⟨hself, hother⟩ := opened_opening h hrun
    obtain ⟨hopening, hclosing⟩ := isOperate_opening b b' operands
    rw [hopening, hclosing]
    by_cases hb : b = b'
    · simp [hb, hself]
    · simp [hb, hother b hb]
  · obtain ⟨hself, hother⟩ := opened_closing h hrun
    obtain ⟨hopening, hclosing⟩ := isOperate_closing b b' operands
    rw [hopening, hclosing]
    by_cases hb : b = b'
    · simp [hb, hself]
    · simp [hb, hother b hb]
  · obtain ⟨hdepth, hresult, -⟩ := level_step hcall frame hlevel m
    rw [hrun] at hdepth hresult
    rw [(hresult frame' rfl).opened_eq hdepth, (isOperate_eq_false hlevel b).1,
      (isOperate_eq_false hlevel b).2]

/-- A frame still stands on its machine after an instruction: no program restores what its caller
has saved. -/
theorem standsOn_step (h : frame.StandsOn m) {i : Instruction}
    (hrun : (step ctx call frame i).run m = ⟨.ok frame', n, t⟩) : frame'.StandsOn n := by
  obtain ⟨hruns, hbase⟩ := keeps_step hcall (Nat.le_refl frame.base) i m h.base_le
  rw [hrun] at hruns hbase
  have hframe : frame'.base = frame.base := hbase frame' rfl
  exact ⟨hframe ▸ h.one_le, hframe ▸ hruns.floor_le h.base_le⟩

/-- The brackets that are open after some instructions are those that were open before, and those
opened and not closed since. This is the step above, by induction on the instructions. -/
theorem opened_steps (h : frame.StandsOn m) {is : List Instruction}
    (hrun : (steps ctx call frame is).run m = ⟨.ok frame', n, t⟩) :
    frame'.StandsOn n ∧ ∀ b : Bracket,
      b.opened frame' n + is.countP (Instruction.isOperate b.closing) =
        b.opened frame m + is.countP (Instruction.isOperate b.opening) := by
  induction is generalizing frame m t with
  | nil =>
      cases hrun
      exact ⟨h, fun b => rfl⟩
  | cons i is ih =>
      rw [steps, run_bind] at hrun
      rcases hstep : (step ctx call frame i).run m with ⟨fault | frame₁, m₁, t₁⟩
      · rw [hstep] at hrun
        cases hrun
      · rw [hstep] at hrun
        rcases hrest : (steps ctx call frame₁ is).run m₁ with ⟨result, n₁, t₂⟩
        simp only [hrest] at hrun
        cases hrun
        obtain ⟨hstands, hopened⟩ := ih (standsOn_step hcall h hstep) hrest
        refine ⟨hstands, fun b => ?_⟩
        have hfirst := opened_step hcall h hstep b
        have hlater := hopened b
        rw [List.countP_cons, List.countP_cons]
        omega

/-- Only a closing operator fails with the fault of its bracket, as long as the library fails
otherwise. -/
theorem eq_closing_of_fault (hlib : ctx.library.FailsOtherwise) {i : Instruction} {b : Bracket}
    (hfault : ((step ctx call frame i).run m).result = .error b.fault) :
    ∃ operands, i = .operate (.known b.closing) operands := by
  rcases bracket_or_level i with ⟨b', operands, rfl | rfl⟩ | hlevel
  · have hok : ∃ frame', ((step ctx call frame (.operate (.known b'.opening) operands)).run
        m).result = .ok frame' := result_opening b' operands
    obtain ⟨frame', hresult⟩ := hok
    rw [hresult] at hfault
    cases hfault
  · obtain rfl := Bracket.eq_of_fault_eq (eq_fault_of_closing hfault)
    exact ⟨operands, rfl⟩
  · exact absurd rfl ((level_step hcall frame hlevel m).fault hlib _ hfault b)

end Calling

end Action

/-! ### Programs that come to an instruction -/

/-- A program **comes to an instruction**, the operator of which is the token at an index: those
before it are all carried out, which leads to a frame and a machine. -/
def Program.ComesTo (p : Program) (ctx : Context σ) (m : Machine σ) (index : Nat) (i : Instruction)
    (frame : Frame) (n : Machine σ) : Prop :=
  ∃ before after t, p.placed = before ++ (index, i) :: after ∧
    (Action.steps ctx (Action.call ctx) { base := m.stack.depth } (before.map Prod.snd)).run m =
      ⟨.ok frame, n, t⟩

namespace Program.ComesTo

variable {p : Program} {ctx : Context σ} {m n : Machine σ} {index : Nat} {i : Instruction}
  {frame : Frame}

/-- The brackets that are open when a program comes to an instruction are those that it has opened
and not closed, by the operators written before. All of those have been carried out. -/
theorem opened (h : p.ComesTo ctx m index i frame n) :
    frame.StandsOn n ∧ ∀ b : Bracket,
      b.opened frame n + p.countBefore b.closing index = p.countBefore b.opening index := by
  obtain ⟨before, after, t, hplaced, hrun⟩ := h
  obtain ⟨hstands, hopened⟩ :=
    Action.opened_steps Action.keeps_call (Frame.standsOn_fresh m) hrun
  have hresult : ((Action.steps ctx (Action.call ctx) { base := m.stack.depth }
      (before.map Prod.snd)).run m).result = .ok frame := by rw [hrun]
  have hspelled : ∀ x ∈ before, x.2.isMisspelled = false := fun x hx =>
    Action.isMisspelled_of_steps hresult x.2 (List.mem_map_of_mem hx)
  have hcount {k : Keyword} (hk : k ≠ .beginImage) :
      (before.map Prod.snd).countP (Instruction.isOperate k) = p.countBefore k index := by
    rw [List.countP_map]
    exact countP_before hplaced hspelled hk
  refine ⟨hstands, fun b => ?_⟩
  have hb := hopened b
  rw [Bracket.opened_fresh, Nat.zero_add, hcount (by cases b <;> exact nofun),
    hcount (by cases b <;> exact nofun)] at hb
  exact hb

/-- A program that comes to an instruction fails with it: those before it are carried out, and those
behind it are not reached. -/
theorem result_runProgram (h : p.ComesTo ctx m index i frame n) {fault : Fault}
    (hfault : ((Action.step ctx (Action.call ctx) frame i).run n).result = .error fault) :
    ((Action.runProgram ctx (Action.call ctx) p).run m).result = .error fault := by
  obtain ⟨before, after, t, hplaced, hrun⟩ := h
  have hinstructions : p.instructions = before.map Prod.snd ++ i :: after.map Prod.snd := by
    rw [instructions, ← map_snd_readFrom 0]
    exact (congrArg (List.map Prod.snd) hplaced).trans List.map_append
  have hresult : ((Action.steps ctx (Action.call ctx) { base := m.stack.depth }
      (before.map Prod.snd)).run m).result = .ok frame := by rw [hrun]
  have hall := Action.run_steps_append hresult (i :: after.map Prod.snd)
  rw [Action.run_runProgram, hinstructions, hall, hrun]
  simp only [Outcome.result_after, Action.steps, Action.run_bind]
  generalize (Action.step ctx (Action.call ctx) frame i).run n = o at hfault
  obtain ⟨result, k, u⟩ := o
  obtain rfl : result = .error fault := hfault
  rfl

end Program.ComesTo

/-- An instruction that calls a program does not fail, whatever the program does. -/
theorem Calls.result_step {ctx : Context σ} {n k : Machine σ} {i : Instruction} {content : Bytes}
    (h : Calls ctx n i k content) (frame : Frame) :
    ((Action.step ctx (Action.call ctx) frame i).run n).result = .ok frame := by
  cases h with
  | @form form h =>
      obtain ⟨⟨op, operands, name, rfl, hdecode, hfind⟩, -⟩ := h
      obtain ⟨tiles, finished, t, hrun⟩ :=
        Action.exists_run_runForm (@Action.keeps_call σ ctx) form n
      rw [Action.step, hdecode, Action.run_ok_bind, Action.perform, Action.run_bind,
        Action.run_invoke, hfind]
      simp only [hrun]
      rfl
  | @cell tiling tint h =>
      obtain ⟨⟨op, operands, side, spelling, args, rfl, hdecode, hselect⟩, -⟩ := h
      obtain ⟨answer, tiles, finished, t, hrun⟩ :=
        Action.exists_run_tile (@Action.keeps_call σ ctx) tiling tint n
      rw [Action.step, hdecode, Action.run_ok_bind, Action.perform, Action.run_bind,
        Action.run_selectColor, hselect]
      simp only [Action.run_bind, hrun]
      rfl

/-- A program comes to a closing operator **in excess**: as many of its kind are written before it
as opening ones. -/
def Program.Exceeds (p : Program) (ctx : Context σ) (m : Machine σ) (b : Bracket) : Prop :=
  ∃ index operands frame n, p.ComesTo ctx m index (.operate (.known b.closing) operands) frame n ∧
    p.countBefore b.closing index = p.countBefore b.opening index

/-- A program that fails comes to the instruction that does. -/
theorem Program.exists_comesTo {p : Program} {ctx : Context σ} {m : Machine σ} {fault : Fault}
    (h : ((Action.runProgram ctx (Action.call ctx) p).run m).result = .error fault) :
    ∃ index i frame n, p.ComesTo ctx m index i frame n ∧
      ((Action.step ctx (Action.call ctx) frame i).run n).result = .error fault := by
  have hplaced : p.placed.map Prod.snd = p.instructions := p.map_snd_readFrom 0 0 [] p.tokens
  rw [Action.run_runProgram, ← hplaced] at h
  rcases hstop : p.stop? ctx m with _ | ⟨index, i⟩
  · obtain ⟨frame, hresult⟩ := Action.steps_of_stop?_eq_none hstop
    simp [hresult, Except.map] at h
  · obtain ⟨before, after, frame, n, t, fault', hsplit, hbefore, hfault, hall⟩ :=
      Action.steps_of_stop?_eq_some hstop
    simp only [hall, Outcome.result_after, hfault, Except.map, Except.error.injEq] at h
    exact ⟨index, i, frame, n, ⟨before, after, t, hsplit, hbefore⟩, h ▸ hfault⟩

/-- **Imbalance is a program's own.** A program that comes to a closing operator fails there with
the fault of the bracket exactly if it has closed as many as it has opened. That does not depend on
the machine it was started on, nor on what the forms and cells do that it calls, which never fail at
the place where they are called. As long as the library fails otherwise, no other instruction fails
with such a fault; so a program fails with it exactly if it comes to a closing operator in excess,
and a content stream exactly if its program does. -/
theorem imbalance_iff (ctx : Context σ) (m : Machine σ) :
    (∀ (p : Program) (b : Bracket) index operands frame n,
      p.ComesTo ctx m index (.operate (.known b.closing) operands) frame n →
        (((Action.step ctx (Action.call ctx) frame (.operate (.known b.closing) operands)).run
          n).result = .error b.fault ↔
            p.countBefore b.closing index = p.countBefore b.opening index)) ∧
    (∀ frame n i k content, Calls ctx n i k content →
      ((Action.step ctx (Action.call ctx) frame i).run n).result = .ok frame) ∧
    (ctx.library.FailsOtherwise →
      (∀ (b : Bracket) frame n i,
        ((Action.step ctx (Action.call ctx) frame i).run n).result = .error b.fault →
          ∃ operands, i = .operate (.known b.closing) operands) ∧
      (∀ (p : Program) (b : Bracket),
        ((Action.runProgram ctx (Action.call ctx) p).run m).result = .error b.fault ↔
          p.Exceeds ctx m b) ∧
      ∀ content (b : Bracket),
        ((Action.execute ctx content).run m).result = .error b.fault ↔
          ∃ p, ctx.program? m.scopes content = .ok p ∧ p.Exceeds ctx m b) := by
  have hclosing {p : Program} {b : Bracket} {index operands frame n}
      (h : p.ComesTo ctx m index (.operate (.known b.closing) operands) frame n) :
      ((Action.step ctx (Action.call ctx) frame (.operate (.known b.closing) operands)).run
        n).result = .error b.fault ↔
          p.countBefore b.closing index = p.countBefore b.opening index := by
    obtain ⟨hstands, hopened⟩ := h.opened
    rw [Action.result_closing_iff hstands, ← hopened b]
    omega
  have hother (hlib : ctx.library.FailsOtherwise) {b : Bracket} {frame n i}
      (h : ((Action.step ctx (Action.call ctx) frame i).run n).result = .error b.fault) :
      ∃ operands, i = .operate (.known b.closing) operands :=
    Action.eq_closing_of_fault Action.keeps_call hlib h
  have hprogram (hlib : ctx.library.FailsOtherwise) (p : Program) (b : Bracket) :
      ((Action.runProgram ctx (Action.call ctx) p).run m).result = .error b.fault ↔
        p.Exceeds ctx m b := by
    constructor
    · intro h
      obtain ⟨index, i, frame, n, hcomes, hfault⟩ := Program.exists_comesTo h
      obtain ⟨operands, rfl⟩ := hother hlib hfault
      exact ⟨index, operands, frame, n, hcomes, (hclosing hcomes).mp hfault⟩
    · rintro ⟨index, operands, frame, n, hcomes, hcount⟩
      exact hcomes.result_runProgram ((hclosing hcomes).mpr hcount)
  refine ⟨fun p b index operands frame n => hclosing,
    fun frame n i k content h => h.result_step frame,
    fun hlib => ⟨fun b frame n i => hother hlib, hprogram hlib, fun content b => ?_⟩⟩
  rw [Action.execute, Action.run_runContent]
  rcases hp : ctx.program? m.scopes content with fault | p
  · have hfault := failsOtherwise_program? hlib content fault hp b
    simp [hfault]
  · have hrun := hprogram hlib p b
    rw [Action.run_runProgram] at hrun
    simpa using hrun

namespace UnbalancedForm

/-- A **form** that restores a state too many, and would end a section that it has not begun. -/
def form : Form Nat where
  identity := 1
  bbox := ⟨0.0, 0.0, 1.0, 1.0⟩
  matrix := Matrix.identity
  content := Utf8.encode "q Q Q EX"
  scope := none

/-- A context that knows **the form** alone. -/
def ctx : Context Nat where
  library := Directory.library #[{ xobjects := [("F", .form form)] }]
  surface := fun _ => none

/-- A machine on which **a state is saved** already. -/
def start : Machine Nat where
  stack := ⟨{}, [{}]⟩
  scopes := [0]

/-- A program that saves a state, **invokes the form**, and restores twice. -/
def program : Program where
  source := []
  arena := [0x46]
  tokens := [.operator (.known .save), .name ⟨0, 1⟩, .operator (.known .invoke),
    .operator (.known .restore), .operator (.known .restore)]

/-- The instruction that **invokes the form**. -/
def invocation : Instruction :=
  .operate (.known .invoke) [.name "F"]

/-- The form is called on the machine that is entered for it. -/
theorem calls_invocation : Calls ctx start invocation (start.enterForm form) form.content :=
  .form ⟨⟨_, _, "F", rfl, rfl, rfl⟩, List.not_mem_nil⟩

/-- The program comes to its second restore: what is written before is carried out, the form
included. -/
theorem exists_comesTo_restore :
    ∃ frame n, program.ComesTo ctx start 4 (.operate (.known .restore) []) frame n := by
  let o := (Action.steps ctx (Action.call ctx) { base := start.stack.depth }
    ((program.placed.take 3).map Prod.snd)).run start
  have hok : o.result.isOk = true := by decide +kernel
  rcases hresult : o.result with fault | frame
  · rw [hresult] at hok
    cases hok
  · have hrun : o = ⟨.ok frame, o.machine, o.trace⟩ := by rw [← hresult]
    exact ⟨frame, o.machine, program.placed.take 3, [], o.trace, rfl, hrun⟩

end UnbalancedForm

open UnbalancedForm in
/-- The second restore of a program that saves once fails, although the caller has saved a state
too; what the form does in between does not count, and its own faults are not reported. -/
theorem imbalance_iff_of_form :
    Calls ctx start invocation (start.enterForm form) form.content ∧
    ((Action.step ctx (Action.call ctx) { base := 2 } invocation).run start).result =
      .ok { base := 2 } ∧
    (∃ frame n, program.ComesTo ctx start 4 (.operate (.known .restore) []) frame n ∧
      ((Action.step ctx (Action.call ctx) frame (.operate (.known .restore) [])).run n).result =
        .error .stackUnderflow) ∧
    program.countBefore .restore 4 = 1 ∧ program.countBefore .save 4 = 1 ∧
    ctx.library.FailsOtherwise ∧
    ((Action.runProgram ctx (Action.call ctx) program).run start).result =
      .error .stackUnderflow := by
  obtain ⟨hclosing, hcalls, hprogram⟩ := imbalance_iff ctx start
  obtain ⟨frame, n, hcomes⟩ := exists_comesTo_restore
  have hlib : ctx.library.FailsOtherwise := Directory.failsOtherwise _
  have hexceeds : program.Exceeds ctx start .state := ⟨4, [], frame, n, hcomes, by decide⟩
  exact ⟨calls_invocation, hcalls _ _ _ _ _ calls_invocation,
    ⟨frame, n, hcomes, (hclosing program .state 4 [] frame n hcomes).mpr (by decide)⟩,
    by decide, by decide, hlib, ((hprogram hlib).2.1 program .state).mpr hexceeds⟩

end ContentStream
