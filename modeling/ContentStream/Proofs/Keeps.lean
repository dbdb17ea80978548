import ContentStream.Page
import ContentStream.Proofs.Composition
import ContentStream.Proofs.Runs

/-!
# Actions that keep a floor

Every action of the interpreter is a run, whether it ends in a fault or not. It stays above the
depth at which the program in execution began: a program restores no state but those it has saved,
and whatever it leaves behind is unwound by the action that called it.

Nested programs are run by a parameter, of which it is assumed here that it keeps every floor. The
interpreter's own way of calling a program does, by induction on the levels that are left.

## Main definitions

* `Action.Keeps`: an action does nothing but run above a floor.

## Main results

* `Action.Keeps.bind`: the rule of sequencing, from which most of the others follow.
* `Action.keeps_perform`: commands keep the depth at which their program began.
* `Action.keeps_call`, `Action.keeps_execute`: content streams keep every floor, as nested programs
  and by themselves.
-/

namespace ContentStream

namespace Action

variable {σ α β : Type} {ctx : Context σ} {floor : Nat}

/-- An action **keeps a floor**: on every machine that is above the floor it runs above it, whether
it ends in a fault or not. The results it gives satisfy `Q`. -/
def Keeps (ctx : Context σ) (floor : Nat) (Q : α → Prop) (x : Action σ α) : Prop :=
  ∀ m, floor ≤ m.stack.depth →
    Runs ctx floor m (x.run m).trace (x.run m).machine ∧ ∀ a, (x.run m).result = .ok a → Q a

/-- The trivial condition on results. -/
abbrev anything : α → Prop := fun _ => True

/-! ### Rules -/

namespace Keeps

/-- What is known of no result at all is a run alone. -/
theorem of_runs {x : Action σ α}
    (h : ∀ m, floor ≤ m.stack.depth → Runs ctx floor m (x.run m).trace (x.run m).machine) :
    Keeps ctx floor anything x :=
  fun m hm => ⟨h m hm, fun _ _ => trivial⟩

/-- Above the floor, an action that keeps it is a run. -/
theorem runs {Q : α → Prop} {x : Action σ α} {m : Machine σ} (hx : Keeps ctx floor Q x)
    (hm : floor ≤ m.stack.depth) : Runs ctx floor m (x.run m).trace (x.run m).machine :=
  (hx m hm).1

/-- To give a result is the empty run. -/
theorem pure {Q : α → Prop} {a : α} (ha : Q a) : Keeps ctx floor Q (pure a) := by
  intro m _
  refine ⟨.stay, fun b hb => ?_⟩
  obtain rfl : a = b := by simpa using hb
  exact ha

/-- So is a fault, whatever would be said of a result. -/
theorem fail {Q : α → Prop} (fault : Fault) : Keeps ctx floor Q (fail fault : Action σ α) :=
  fun _ _ => ⟨.stay, fun _ hb => by simp at hb⟩

/-- So is looking things up, found or not. -/
theorem ofExcept (x : Except Fault α) : Keeps ctx floor anything (ofExcept x) :=
  of_runs fun _ _ => .stay

/-- Sequencing. What is known of the first result may be used for the second action, which starts
above the floor as well. -/
theorem bind {P : α → Prop} {Q : β → Prop} {x : Action σ α} {f : α → Action σ β}
    (hx : Keeps ctx floor P x) (hf : ∀ a, P a → Keeps ctx floor Q (f a)) :
    Keeps ctx floor Q (x >>= f) := by
  intro m hm
  obtain ⟨hr, hP⟩ := hx m hm
  rw [run_bind]
  rcases h : x.run m with ⟨fault | a, m', t⟩
  · rw [h] at hr
    exact ⟨hr, fun _ hb => by simp at hb⟩
  · rw [h] at hr hP
    obtain ⟨hr', hQ⟩ := hf a (hP a rfl) m' (hr.floor_le hm)
    exact ⟨hr.trans hr', hQ⟩

/-- Sequencing when the first action gives no result of interest. -/
theorem andThen {Q : β → Prop} {x : Action σ α} {f : α → Action σ β}
    (hx : Keeps ctx floor anything x) (hf : ∀ a, Keeps ctx floor Q (f a)) :
    Keeps ctx floor Q (x >>= f) :=
  hx.bind fun a _ => hf a

/-- To keep a floor is composable. So it holds of all that is put together from a few steps, and
those that follow are the steps. -/
theorem composable : Composable (Keeps (σ := σ) ctx floor anything) where
  pure _ := .pure trivial
  bind := .andThen

/-- What is known of the results anyway is known of them here. -/
theorem of_result {Q : α → Prop} {x : Action σ α} (hx : Keeps ctx floor anything x)
    (hQ : ∀ m a, (x.run m).result = .ok a → Q a) : Keeps ctx floor Q x :=
  fun m hm => ⟨hx.runs hm, hQ m⟩

/-- An action that is attempted is the same run, with its fault as a result. -/
theorem attempt {Q : α → Prop} {x : Action σ α} (hx : Keeps ctx floor Q x) :
    Keeps ctx floor anything x.attempt :=
  of_runs fun _ hm => hx.runs hm

/-- An event that opens and closes nothing is a run by itself. -/
theorem emit {e : Event} (he : e.isPlain = true) : Keeps ctx floor anything (emit e) :=
  of_runs fun _ _ => .plain he

/-- So are several of them. -/
theorem emitAll {es : List Event} (hes : ∀ e ∈ es, e.isPlain = true) :
    Keeps ctx floor anything (emitAll es) := by
  refine of_runs fun m _ => ?_
  rw [run_emitAll]
  induction es with
  | nil => exact .stay
  | cons e es ih =>
      have hrest := ih fun e' he' => hes e' (List.mem_cons_of_mem _ he')
      exact .trans (.plain (hes e List.mem_cons_self)) hrest

/-- The machine that an action is given is above the floor. -/
theorem machine : Keeps ctx floor (fun m => floor ≤ m.stack.depth) (machine : Action σ _) := by
  intro m hm
  refine ⟨.stay, fun a ha => ?_⟩
  obtain rfl : m = a := by simpa using ha
  exact hm

/-- To look at the state is to look at the machine. -/
theorem state : Keeps ctx floor anything (state : Action σ GState) :=
  of_runs fun _ _ => .stay

/-- The current state may be changed without a run getting deeper or less deep. -/
theorem modifyState (f : GState → GState) : Keeps ctx floor anything (modifyState f) :=
  of_runs fun _ _ => .change f

/-- To save a state makes the stack deeper, so that it stays above any floor. -/
theorem save : Keeps ctx floor anything (save : Action σ Unit) :=
  of_runs fun _ _ => .save

end Keeps

/-! ### Restoring -/

/-- Restoring states is a run above the depth that is reached. Each of the restores is a run by
itself, as long as the floor is not above what is left. -/
theorem runs_restoreAll {m : Machine σ} {n : Nat} (hn : n < m.stack.depth)
    (hfloor : floor + n ≤ m.stack.depth) :
    Runs ctx floor m ((restoreAll n).run m).trace ((restoreAll n).run m).machine := by
  induction n generalizing m with
  | zero => exact .stay
  | succ n ih =>
      obtain ⟨stack, hs⟩ := GStack.exists_restore? (s := m.stack) (by omega)
      have hdepth := GStack.depth_restore? hs
      have hrest := ih (m := { m with stack }) (by simp only; omega) (by simp only; omega)
      rw [restoreAll, run_bind, run_restore hs]
      exact .trans (.restore (by omega) hs) hrest

/-- To unwind a stack keeps a floor that is not above the depth it goes down to. -/
theorem keeps_unwind {depth : Nat} (hpos : 1 ≤ depth) (hdepth : floor ≤ depth) :
    Keeps ctx floor anything (unwind depth : Action σ Unit) := by
  refine Keeps.of_runs fun m hm => ?_
  have := m.stack.one_le_depth
  exact runs_restoreAll (n := m.stack.depth - depth) (by omega) (by omega)

/-- A program restores no state below its own base, which the floor does not exceed. Where it would
have to, it fails instead. -/
theorem keeps_restoreOwn {frame : Frame} (hbase : floor ≤ frame.base) :
    Keeps ctx floor anything (restoreOwn frame : Action σ Unit) := by
  refine Keeps.of_runs fun m hm => ?_
  rw [restoreOwn, run_bind, run_machine]
  by_cases hdepth : m.stack.depth ≤ frame.base
  · simp only [hdepth, if_true, run_fail, Outcome.after_nil]
    exact .stay
  · simp only [hdepth, if_false, Outcome.after_nil]
    rcases hs : m.stack.restore? with _ | stack
    · rw [run_restore_of_none hs]
      exact .stay
    · rw [run_restore hs]
      exact .restore (by omega) hs

/-! ### Painting and writing -/

/-- The clip is narrowed in the current state. -/
theorem keeps_narrowClip (path : Path Float) :
    Keeps ctx floor anything (narrowClip path : Action σ Unit) :=
  Keeps.state.andThen fun _ => (Keeps.modifyState _).andThen fun _ => Keeps.emit rfl

/-- The end of a path narrows it, or does not. -/
theorem keeps_endPath (frame : Frame) :
    Keeps ctx floor anything (endPath frame : Action σ Frame) :=
  Keeps.composable.endPath keeps_narrowClip (.modifyState _) frame

/-- Painting a path opens and closes nothing. -/
theorem isPlain_of_mem_paintEvents {painting : Painting} {gs : GState} {path : Path Float}
    {e : Event} (he : e ∈ paintEvents painting gs path) : e.isPlain = true := by
  rcases hfill : painting.fill with _ | rule <;> rcases hstroke : painting.stroke with _ | _ <;>
    simp only [paintEvents, hfill, hstroke, if_true, Bool.false_eq_true, if_false, List.mem_cons,
      List.not_mem_nil, or_false] at he
  · exact he ▸ rfl
  · exact he ▸ rfl
  · rcases he with rfl | rfl <;> rfl

/-- A path is painted by such events, and then ended. -/
theorem keeps_paint (painting : Painting) (frame : Frame) :
    Keeps ctx floor anything (paint painting frame : Action σ Frame) :=
  Keeps.composable.paint .state (fun _ _ => .emitAll fun _ => isPlain_of_mem_paintEvents)
    (keeps_endPath frame)

/-- A shading is painted in the same way. -/
theorem keeps_shade (name : String) (frame : Frame) :
    Keeps ctx floor anything (shade ctx name frame) := by
  refine Keeps.machine.bind fun m _ => (Keeps.ofExcept _).andThen fun shading => ?_
  cases shadedRegion? m.stack.current.ctm m.stack.current.clip m.pageBounds shading.bbox with
  | none => exact Keeps.fail _
  | some region => exact (Keeps.emit rfl).andThen fun _ => keeps_endPath frame

/-- Glyphs open and close nothing. -/
theorem keeps_showText (bytes : Bytes) (t : TextObject) :
    Keeps ctx floor anything (showText bytes t : Action σ TextObject) := by
  refine Keeps.composable.showText .state (fun gs placed => .emitAll fun e he => ?_) bytes t
  obtain ⟨_, -, rfl⟩ := List.mem_map.mp he
  rfl

/-- Writing sets parameters and shows glyphs. -/
theorem keeps_write (step : Writing) (frame : Frame) :
    Keeps ctx floor anything (write step frame : Action σ Frame) :=
  Keeps.composable.write (Keeps.composable.ofText .state) (fun _ => .modifyState _) keeps_showText
    step frame

/-! ### Looking things up -/

/-- To select a font changes the current state. -/
theorem keeps_selectFont (name : String) (size : Float) :
    Keeps ctx floor anything (selectFont ctx name size) :=
  Keeps.machine.bind fun _ _ => (Keeps.ofExcept _).andThen fun _ => Keeps.modifyState _

/-- To draw an image is one event. -/
theorem keeps_drawImage (image : Image) :
    Keeps ctx floor anything (drawImage image : Action σ Unit) :=
  Keeps.state.andThen fun _ => Keeps.emit rfl

/-- To draw an inline image is one event, and one request before it. -/
theorem keeps_drawInlineImage (dict : Dict) (data : Bytes) :
    Keeps ctx floor anything (drawInlineImage ctx dict data) :=
  Keeps.composable.drawInlineImage (fun hf => Keeps.machine.bind fun m _ => hf m.scopes)
    (fun _ => .emit rfl) (fun _ => .ofExcept _) keeps_drawImage

/-- To select a color space changes the current state. -/
theorem keeps_selectSpace (side : Side) (name : String) :
    Keeps ctx floor anything (selectSpace ctx side name) := by
  unfold selectSpace
  cases ColorSpace.predefined? name with
  | some space => exact (Keeps.pure trivial).andThen fun _ => Keeps.modifyState _
  | none =>
      exact Keeps.machine.bind fun _ _ => (Keeps.ofExcept _).andThen fun _ => Keeps.modifyState _

/-! ### Nested programs -/

/-- Within a scope the stack is the same as from outside. The scope is taken away again, which can
be said because a run leaves the scopes as they were. -/
theorem keeps_within {Q : α → Prop} {x : Action σ α} (scope : Option σ)
    (hx : Keeps ctx floor Q x) : Keeps ctx floor Q (within scope x) := by
  intro m hm
  cases scope with
  | none =>
      rw [run_within_none m x (hx.runs hm).scopes_eq]
      exact hx m hm
  | some scope =>
      obtain ⟨hr, hQ⟩ := hx { m with scopes := scope :: m.scopes } hm
      rw [run_within_some m rfl hr.scopes_eq]
      exact ⟨.within scope hr, hQ⟩

/-- So it is one level deeper, where only the count of levels differs. -/
theorem keeps_deeper {Q : α → Prop} {x : Action σ α} (hx : Keeps ctx floor Q x) :
    Keeps ctx floor Q (deeper x) := by
  intro m hm
  obtain ⟨hr, hQ⟩ := hx { m with depth := m.depth + 1 } hm
  have hdepth := hr.depth_eq
  rw [run_deeper]
  refine ⟨?_, hQ⟩
  simp only [hdepth, Nat.add_sub_cancel]
  exact .deeper hr

section Calling

variable {call : Bytes → Action σ Unit}
  (hcall : ∀ floor content, Keeps ctx floor anything (call content))

include hcall

/-- A sub-program saves the state, and unwinds to where it has saved it, whatever its content has
done in between. -/
theorem keeps_subProgram (content : Bytes) (transform : Matrix Float) (clip : Option (Rect Float))
    (scope : Option σ) :
    Keeps ctx floor anything (subProgram call content transform clip scope) := by
  refine Keeps.machine.bind fun m hm => Keeps.save.andThen fun _ =>
    (Keeps.modifyState _).andThen fun _ => ?_
  have hrun : Keeps ctx floor anything (do
      let result ← attempt (within scope (call content))
      unwind m.stack.depth
      ofExcept result : Action σ Unit) :=
    (keeps_within scope (hcall floor content)).attempt.andThen fun _ =>
      (keeps_unwind m.stack.one_le_depth hm).andThen fun _ => Keeps.ofExcept _
  cases clip with
  | none => exact hrun
  | some box => exact (keeps_narrowClip _).andThen fun _ => hrun

/-- A form is a sub-program, or nothing if it is being executed. Afterwards the list of forms is as
it was before. -/
theorem keeps_runForm (form : Form σ) : Keeps ctx floor anything (runForm call form) := by
  refine Keeps.of_runs fun m hm => ?_
  by_cases hid : form.identity ∈ m.forms
  · rw [run_runForm_of_mem m hid]
    exact .stay
  · have hr := (keeps_subProgram hcall form.content form.matrix (some form.bbox) form.scope).runs
      (m := { m with forms := form.identity :: m.forms }) hm
    have hforms := hr.forms_eq
    rw [run_runForm m hid]
    simp only [hforms, List.drop_one, List.tail_cons]
    exact .form hid hr

/-- A cell has a stack of its own, on which its content is run, and the caller's is put back. So the
run of the caller is a single step. -/
theorem keeps_tile (tiling : Tiling σ) (tint : Option Tint) :
    Keeps ctx floor anything (tile ctx call tiling tint) := by
  refine Keeps.of_runs fun m _ => ?_
  rcases hkey : m.tiles.lookup (ctx.config.tileSharing.key tiling tint) with _ | tile
  · rw [run_tile_of_none m hkey (run_renderCell m ctx call tiling tint) rfl]
    have hrun : Keeps ctx 1 anything (do
        let _ ← attempt (within tiling.scope (call tiling.content))
        unwind 1 : Action σ Unit) :=
      (keeps_within tiling.scope (hcall 1 tiling.content)).attempt.andThen fun _ =>
        keeps_unwind (Nat.le_refl 1) (Nat.le_refl 1)
    have hcell := hrun.runs (m := { m with stack := ⟨tiling.initialState tint, []⟩ })
      (GStack.one_le_depth _)
    simp only [List.cons_append, List.append_assoc, List.nil_append]
    exact .cell hkey (saved_run_unwind_one _ _) hcell
  · rw [run_tile_of_some m hkey]
    exact .reuse hkey

/-- A paint is looked up, or a tile is made for it. All that comes before is looking things up,
which is no doing at all. -/
theorem keeps_paintOf (op : String) (space : ColorSpace) (operands : List Operand) :
    Keeps ctx floor anything (paintOf ctx call op space operands) := by
  unfold paintOf
  by_cases hspace : space.isPattern = true
  · simp only [hspace, if_true]
    refine (Keeps.ofExcept _).andThen fun x => Keeps.machine.bind fun m _ =>
      (Keeps.ofExcept _).andThen fun pattern => ?_
    cases pattern with
    | shading shading matrix => exact Keeps.pure trivial
    | tiling tiling =>
        exact (Keeps.ofExcept _).andThen fun tint =>
          (keeps_tile hcall tiling tint).andThen fun _ => Keeps.pure trivial
  · simp only [hspace]
    exact (Keeps.ofExcept _).andThen fun _ => Keeps.pure trivial

/-- When it is found, the color of the current state is set. -/
theorem keeps_selectColor (side : Side) (op : String) (operands : List Operand) :
    Keeps ctx floor anything (selectColor ctx call side op operands) :=
  Keeps.state.andThen fun _ => (keeps_paintOf hcall op _ operands).andThen fun _ =>
    Keeps.modifyState _

/-- An external object is an image or a form. -/
theorem keeps_invoke (name : String) : Keeps ctx floor anything (invoke ctx call name) := by
  refine Keeps.machine.bind fun m _ => (Keeps.ofExcept _).andThen fun xobject => ?_
  cases xobject with
  | image image => exact keeps_drawImage image
  | form form => exact keeps_runForm hcall form

/-! ### Programs -/

/-- A command keeps a floor that is not above the base of the frame. This puts together what has
been said of all the steps. -/
theorem keeps_perform {frame : Frame} (hbase : floor ≤ frame.base) (command : Command) :
    Keeps ctx floor anything (perform ctx call frame command) := by
  have hsame {x : Action σ Unit} (hx : Keeps ctx floor anything x) :
      Keeps ctx floor anything (do x; pure frame : Action σ Frame) :=
    hx.andThen fun _ => .pure trivial
  cases command with
  | save => exact hsame .save
  | restore => exact hsame (keeps_restoreOwn hbase)
  | set setting => exact hsame (.modifyState _)
  | font name size => exact hsame (keeps_selectFont name size)
  | extGState name =>
      exact Keeps.machine.bind fun _ _ => (Keeps.ofExcept _).andThen fun _ =>
        hsame (Keeps.composable.applyParameters (fun _ => .modifyState _) keeps_selectFont _)
  | construct step => exact Keeps.composable.construct .state (fun _ => .modifyState _) step frame
  | paint painting => exact keeps_paint painting frame
  | clip rule | endText | beginCompatibility | ignore => exact .pure trivial
  | beginText => exact Keeps.state.andThen fun _ => .pure trivial
  | write step => exact keeps_write step frame
  | space side name => exact hsame (keeps_selectSpace side name)
  | color side op operands => exact hsame (keeps_selectColor hcall side op operands)
  | device side space color => exact hsame (.modifyState _)
  | invoke name => exact hsame (keeps_invoke hcall name)
  | shade name => exact keeps_shade name frame
  | endCompatibility => exact Keeps.composable.endCompatibility (.fail _)
  | unknown spelling => exact hsame (.emit rfl)

/-- So does an instruction, and it leaves the base. A misspelled image only fails, and an inline
image is drawn. -/
theorem keeps_step {frame : Frame} (hbase : floor ≤ frame.base) (instruction : Instruction) :
    Keeps ctx floor (fun frame' => frame'.base = frame.base)
      (step ctx call frame instruction) := by
  refine .of_result ?_ fun _ _ => base_of_run_step
  cases instruction with
  | operate op operands =>
      exact (Keeps.ofExcept _).andThen fun command => keeps_perform hcall hbase command
  | drawImage dict data =>
      exact (keeps_drawInlineImage dict data).andThen fun _ => Keeps.pure trivial
  | misspelled flaw => exact Keeps.fail _

/-- Instructions leave the frame with the base that it had. -/
theorem keeps_steps {frame : Frame} (hbase : floor ≤ frame.base) (instructions : List Instruction) :
    Keeps ctx floor (fun frame' => frame'.base = frame.base)
      (steps ctx call frame instructions) := by
  induction instructions generalizing frame with
  | nil => exact Keeps.pure rfl
  | cons i is ih =>
      exact (keeps_step hcall hbase i).bind fun frame' hframe' => hframe' ▸ ih (hframe' ▸ hbase)

/-- A program begins at the depth that the stack has, which is its floor. -/
theorem keeps_runProgram (p : Program) : Keeps ctx floor anything (runProgram ctx call p) :=
  Keeps.machine.bind fun _ hm =>
    (keeps_steps hcall (show floor ≤ Frame.base { base := _ } from hm) _).bind fun _ _ =>
      Keeps.pure trivial

/-- A content stream is a program, or it is none and nothing is done. -/
theorem keeps_runContent (content : Bytes) :
    Keeps ctx floor anything (runContent ctx call content) :=
  Keeps.machine.bind fun _ _ => (Keeps.ofExcept _).andThen fun _ =>
    (Keeps.ofExcept _).andThen fun p => keeps_runProgram hcall p

end Calling

/-- Nested programs keep every floor, however many levels are left. This is the induction that all
the assumptions on `call` above are there for. -/
theorem keeps_callWith (n floor : Nat) (content : Bytes) :
    Keeps ctx floor anything (callWith ctx n content) := by
  induction n generalizing floor content with
  | zero => exact Keeps.fail _
  | succ n ih => exact keeps_deeper (keeps_runContent ih content)

/-- So the interpreter's own way to call a program keeps every floor. -/
theorem keeps_call (floor : Nat) (content : Bytes) :
    Keeps ctx floor anything (call ctx content) :=
  Keeps.machine.bind fun _ _ => keeps_callWith _ floor content

/-- Instructions leave the scopes as they were, and the frame with the base that it had. -/
theorem scopes_run_steps (frame : Frame) (is : List Instruction) (m : Machine σ) :
    ((steps ctx (call ctx) frame is).run m).machine.scopes = m.scopes ∧
      ∀ frame', ((steps ctx (call ctx) frame is).run m).result = .ok frame' →
        frame'.base = frame.base := by
  obtain ⟨hrun, hbase⟩ := keeps_steps keeps_call (Nat.zero_le frame.base) is m (Nat.zero_le _)
  exact ⟨hrun.scopes_eq, hbase⟩

/-- A content stream keeps every floor it starts above. -/
theorem keeps_execute (floor : Nat) (content : Bytes) :
    Keeps ctx floor anything (execute ctx content) :=
  keeps_runContent keeps_call content

end Action

end ContentStream
