import ContentStream.Proofs.Indifference
import ContentStream.Proofs.Instructions

/-!
# Faults

A program that ends in a fault has done exactly what the tokens before the faulty operator ask for.
The operator itself has done nothing, although it may fail for many reasons: whatever it is to
change or to show comes after everything that can go wrong. There is one exception. A dictionary of
graphics state parameters takes effect entry by entry, so that an entry whose font is missing leaves
those before it in force.

Most actions cannot fail at all, those that run nested programs among them. An action that can fail
is *clean*: on a fault the machine is what it was, and the device has received nothing. That is so
if it looks things up first and goes on with an action that cannot fail.

## Main definitions

* `Trace.calls`: the calls that a device receives.
* `Action.Sure`: an action that cannot fail.
* `Outcome.Clean`: a fault leaves nothing behind.
* `Dict.MissesFont`: a dictionary of parameters has an entry whose font is missing.
* `Program.stop?`: where a program ends in a fault.

## Main results

* `Action.clean_perform`: commands are clean, apart from the exception.
* `Action.run_step_of_error`: what an instruction that fails leaves behind.
* `Action.steps_of_stop?`: the instructions before the one that fails.
* `execute_eq_prefix`: a program that fails is its successful prefix.
-/

namespace ContentStream

variable {σ α β : Type}

/-! ### Calls -/

/-- Whether an event is a **request to the resources**, rather than a call of the device. -/
def Event.isRequest : Event → Bool
  | .inlineImage _ _ _ => true
  | _ => false

namespace Trace

/-- The **calls** that a device receives. -/
def calls (t : Trace) : List Event :=
  t.events.filter fun e => !e.isRequest

/-- Nothing seen is no call. -/
@[simp]
theorem calls_nil : calls [] = [] :=
  rfl

/-- The calls of two traces, one after the other, are the calls of the first and then those of the
second. This is how a trace is taken apart along the instructions that made it. -/
@[simp]
theorem calls_append (t₁ t₂ : Trace) : calls (t₁ ++ t₂) = calls t₁ ++ calls t₂ := by
  rw [calls, events_append, List.filter_append, calls, calls]

end Trace

/-! ### Actions that cannot fail -/

namespace Action

/-- An action is **sure** if it gives a result on every machine. -/
def Sure (x : Action σ α) : Prop :=
  ∀ m, ∃ a, (x.run m).result = .ok a

namespace Sure

/-- To give a result is to fail in nothing. -/
theorem pure (a : α) : Sure (pure a : Action σ α) :=
  fun _ => ⟨a, rfl⟩

/-- A sequence cannot fail if neither part can, whatever the first part hands on to the second. -/
theorem bind {x : Action σ α} {f : α → Action σ β} (hx : Sure x) (hf : ∀ a, Sure (f a)) :
    Sure (x >>= f) := by
  intro m
  obtain ⟨a, ha⟩ := hx m
  rw [run_bind]
  generalize x.run m = o at ha
  obtain ⟨result, n, t⟩ := o
  obtain rfl : result = .ok a := ha
  exact hf a n

/-- That an action cannot fail is composable, so that it holds of an action as soon as it holds of
the steps that the action is made of. -/
theorem composable : Composable (Sure (σ := σ)) where
  pure := .pure
  bind := .bind

/-- The state can always be read. -/
theorem state : Sure (state : Action σ GState) :=
  fun _ => ⟨_, rfl⟩

/-- To change the state never fails, since the change is a function of states. -/
theorem modifyState (f : GState → GState) : Sure (modifyState f : Action σ Unit) :=
  fun _ => ⟨(), rfl⟩

/-- The device takes every event: what it is shown cannot be refused. -/
theorem emit (e : Event) : Sure (emit e : Action σ Unit) :=
  fun _ => ⟨(), rfl⟩

/-- So it does with several events. -/
theorem emitAll (es : List Event) : Sure (emitAll es : Action σ Unit) :=
  fun _ => ⟨(), rfl⟩

end Sure

/-- To narrow the clip is to change the state and to show it. -/
theorem sure_narrowClip (path : Path Float) : Sure (narrowClip path : Action σ Unit) :=
  fun _ => ⟨(), rfl⟩

/-- To end a path cannot fail either, with a clip that is awaited or without. -/
theorem sure_endPath (frame : Frame) : Sure (endPath frame : Action σ Frame) :=
  Sure.composable.endPath sure_narrowClip (.modifyState _) frame

/-- To write is to set parameters of text and to show strings, and neither can fail. -/
theorem sure_write (step : Writing) (frame : Frame) : Sure (write step frame : Action σ Frame) :=
  Sure.composable.write (Sure.composable.ofText .state) (fun _ => .modifyState _)
    (Sure.composable.showText .state fun _ _ => .emitAll _) step frame

/-- An image that has been found can be drawn. -/
theorem sure_drawImage (image : Image) : Sure (drawImage image : Action σ Unit) :=
  Sure.state.bind fun _ => .emit _

section Calling

variable {ctx : Context σ} {call : Bytes → Action σ Unit}
  (hcall : ∀ floor content, Keeps ctx floor anything (call content))

include hcall

/-- A form never fails at the place where it is invoked: what goes wrong in it stays in it, and to
invoke one that is being executed already does nothing. -/
theorem sure_runForm (form : Form σ) : Sure (runForm call form) := by
  intro m
  obtain ⟨tiles, n, t, hrun⟩ := exists_run_runForm hcall form m
  exact ⟨(), by rw [hrun]⟩

/-- A cell never fails at the place where its pattern is selected, for the same reason. -/
theorem sure_tile (tiling : Tiling σ) (tint : Option Tint) : Sure (tile ctx call tiling tint) := by
  intro m
  obtain ⟨answer, tiles, n, t, hrun⟩ := exists_run_tile hcall tiling tint m
  exact ⟨answer, by rw [hrun]⟩

end Calling

end Action

/-! ### Actions that fail cleanly -/

/-- An outcome is **clean** if a fault leaves the machine as it was, and the device has received
nothing. -/
def Outcome.Clean (m : Machine σ) (o : Outcome σ α) : Prop :=
  ∀ fault, o.result = .error fault → o.machine = m ∧ o.trace.calls = []

namespace Outcome.Clean

variable {m : Machine σ}

/-- What cannot fail is clean, since there is no fault to speak of. -/
theorem of_sure {x : Action σ α} (hx : x.Sure) : (x.run m).Clean m := by
  intro fault hfault
  obtain ⟨a, ha⟩ := hx m
  rw [ha] at hfault
  cases hfault

/-- To fail at once is clean: nothing has been done before. -/
theorem fail (fault : Fault) : ((Action.fail fault : Action σ α).run m).Clean m :=
  fun _ _ => ⟨rfl, rfl⟩

/-- What is looked up may be missing, which leaves nothing behind. This is the only way in which an
action that goes on afterwards may begin. -/
theorem lookup (x : Except Fault α) {f : α → Action σ β}
    (hf : ∀ a, ((f a).run m).Clean m) : ((Action.ofExcept x >>= f).run m).Clean m := by
  cases x with
  | error fault => exact fail fault
  | ok a => exact hf a

/-- What cannot fail may follow. Together with `lookup` it gives the order of every clean command:
first all that can go wrong, and then all that changes something. -/
theorem andThen {x : Action σ α} {f : α → Action σ β} (hx : (x.run m).Clean m)
    (hf : ∀ a, (f a).Sure) : ((x >>= f).run m).Clean m := by
  rw [Action.run_bind]
  generalize x.run m = o at hx
  obtain ⟨fault | a, n, t⟩ := o
  · exact fun _ _ => hx fault rfl
  · intro fault hfault
    obtain ⟨b, hb⟩ := hf a n
    rw [Outcome.result_after, hb] at hfault
    cases hfault

end Outcome.Clean

namespace Action

variable {ctx : Context σ} {call : Bytes → Action σ Unit} {m : Machine σ}

/-- A restore that is refused is refused before it takes anything off the stack. There are two
reasons for that: the state is not the program's own, or there is none. -/
theorem clean_restoreOwn (frame : Frame) :
    ((restoreOwn frame : Action σ Unit).run m).Clean m := by
  rcases Nat.lt_or_ge frame.base m.stack.depth with hbase | hbase
  · rcases hs : m.stack.saved with _ | ⟨gs, saved⟩
    · rw [run_restoreOwn_of_saved_eq_nil hs]
      exact .fail _
    · rw [run_restoreOwn hbase hs]
      exact fun _ hfault => by cases hfault
  · rw [run_restoreOwn_of_le hbase]
    exact .fail _

/-- The font is looked up before the parameters of text are set. -/
theorem clean_selectFont (name : String) (size : Float) :
    ((selectFont ctx name size).run m).Clean m :=
  .lookup _ fun _ => .of_sure (.modifyState _)

/-- The color space is looked up before the color is set to its initial one. -/
theorem clean_selectSpace (side : Side) (name : String) :
    ((selectSpace ctx side name).run m).Clean m := by
  rw [run_selectSpace]
  cases ctx.library.spaceOf m.scopes name with
  | error fault => exact .fail fault
  | ok space => exact fun _ hfault => by cases hfault

/-- The shading is looked up, and the transform inverted, before anything is painted. -/
theorem clean_shade (name : String) (frame : Frame) : ((shade ctx name frame).run m).Clean m := by
  unfold shade
  rw [run_machine_bind]
  refine .lookup _ fun shading => ?_
  cases shadedRegion? m.stack.current.ctm m.stack.current.clip m.pageBounds shading.bbox with
  | none => exact .fail _
  | some region => exact .of_sure ((Sure.emit _).bind fun _ => sure_endPath frame)

/-- An inline image that is refused was asked for, but not of the device: the request goes to the
resources, which is why it does not count as a call. -/
theorem clean_drawInlineImage (dict : Dict) (data : Bytes) :
    ((drawInlineImage ctx dict data).run m).Clean m := by
  rw [run_drawInlineImage]
  have hrequest : Trace.calls (m.scopes.head?.elim [] fun scope =>
      [.event (.inlineImage (ctx.library.label scope) dict data)]) = [] := by
    cases m.scopes <;> rfl
  have hdraw : ((do drawImage (← ofExcept (ctx.library.inlineImage m.scopes dict data)) :
      Action σ Unit).run m).Clean m := .lookup _ fun image => .of_sure (sure_drawImage image)
  intro fault hfault
  obtain ⟨hmachine, hcalls⟩ := hdraw fault hfault
  exact ⟨hmachine, by rw [Outcome.trace_after, Trace.calls_append, hrequest, hcalls]; rfl⟩

section Calling

variable (hcall : ∀ floor content, Keeps ctx floor anything (call content))

include hcall

/-- All operands of a color are taken, and its pattern is looked up, before a tile is made of a
cell. -/
theorem clean_selectColor (side : Side) (op : String) (operands : List Operand) :
    ((selectColor ctx call side op operands).run m).Clean m := by
  rw [run_selectColor]
  rcases ctx.library.select m.scopes op (m.stack.current.ink side).space operands with
    fault | paint | ⟨tiling, tint⟩
  · exact .fail fault
  · exact .of_sure (.modifyState _)
  · exact .of_sure ((sure_tile hcall tiling tint).bind fun _ => .modifyState _)

/-- The external object is looked up before it is drawn or run. -/
theorem clean_invoke (name : String) : ((invoke ctx call name).run m).Clean m := by
  rw [run_invoke]
  rcases ctx.library.findXObject m.scopes name with fault | image | form
  · exact .fail fault
  · exact .of_sure (sure_drawImage image)
  · exact .of_sure (sure_runForm hcall form)

/-- Commands are clean, apart from those that apply graphics state parameters. Most of them cannot
fail, and the others look things up first. -/
theorem clean_perform (frame : Frame) {command : Command}
    (hcommand : ∀ name, command ≠ .extGState name) :
    ((perform ctx call frame command).run m).Clean m := by
  have hsame {x : Action σ Unit} (hx : (x.run m).Clean m) :
      ((do x; pure frame : Action σ Frame).run m).Clean m :=
    hx.andThen fun _ => .pure frame
  cases command with
  | extGState name => exact absurd rfl (hcommand name)
  | save => exact hsame fun _ hfault => by cases hfault
  | restore => exact hsame (clean_restoreOwn frame)
  | set setting => exact hsame (.of_sure (.modifyState _))
  | font name size => exact hsame (clean_selectFont name size)
  | construct step =>
      exact .of_sure (Sure.composable.construct .state (fun _ => .modifyState _) step frame)
  | paint painting =>
      exact .of_sure (Sure.composable.paint .state (fun _ _ => .emitAll _) (sure_endPath frame))
  | clip rule | endText | beginCompatibility | ignore => exact .of_sure (.pure _)
  | beginText => exact .of_sure (Sure.state.bind fun _ => .pure _)
  | write step => exact .of_sure (sure_write step frame)
  | space side name => exact hsame (clean_selectSpace side name)
  | color side op operands => exact hsame (clean_selectColor hcall side op operands)
  | device side space color => exact hsame (.of_sure (.modifyState _))
  | invoke name => exact hsame (clean_invoke hcall name)
  | shade name => exact clean_shade name frame
  | endCompatibility =>
      simp only [perform]
      cases frame.compatibility with
      | zero => exact .fail _
      | succ n => exact .of_sure (.pure _)
  | unknown spelling => exact hsame (.of_sure (.emit _))

end Calling

end Action

/-! ### Fonts that are missing -/

namespace Parameter

/-- An entry that stands for no parameter does not count. -/
theorem ofDict_cons_of_none {entry : String × Object} (h : ofEntry? entry.1 entry.2 = none)
    (dict : Dict) : ofDict (entry :: dict) = ofDict dict :=
  List.filterMap_cons_none h

/-- An entry that stands for a parameter comes before those that follow it. -/
theorem ofDict_cons_of_some {entry : String × Object} {parameter : Parameter}
    (h : ofEntry? entry.1 entry.2 = some parameter) (dict : Dict) :
    ofDict (entry :: dict) = parameter :: ofDict dict :=
  List.filterMap_cons_some h

/-- Only the entry with the key of fonts selects a font, so that a missing font is one of that
entry. -/
theorem eq_font_of_ofEntry? {key : String} {value : Object} {name : String} {size : Float}
    (h : ofEntry? key value = some (.font name size)) : key = "Font" := by
  unfold ofEntry? at h
  split at h
  all_goals first
    | rfl
    | simp [ofNumber, ofCode, ofBoolean] at h

end Parameter

/-- A dictionary of graphics state parameters has an entry whose **font is missing**. The entries
before it ask for no font, or for fonts that are found. -/
structure Dict.MissesFont (lib : Library σ) (scopes : List σ) (dict before : Dict)
    (fault : Fault) : Prop where
  split : ∃ value after name size, dict = before ++ ("Font", value) :: after ∧
    Parameter.ofEntry? "Font" value = some (.font name size) ∧
    lib.findFont scopes name = .error fault
  earlier : ∀ name size, .font name size ∈ Parameter.ofDict before →
    ∃ font, lib.findFont scopes name = .ok font

namespace Action

variable {ctx : Context σ} {m : Machine σ}

/-- A parameter that is set changes the state, and the rest is applied to that. -/
theorem run_applyParameters_set (setting : Setting) (rest : List Parameter) :
    (applyParameters ctx (.set setting :: rest)).run m =
      (applyParameters ctx rest).run
        { m with stack := m.stack.modify fun gs => setting.apply gs } :=
  rfl

/-- So does a font that is found, which sets two parameters of text. -/
theorem run_applyParameters_font {name : String} {size : Float} {font : Font}
    (hfont : ctx.library.findFont m.scopes name = .ok font) (rest : List Parameter) :
    (applyParameters ctx (.font name size :: rest)).run m =
      (applyParameters ctx rest).run { m with stack := m.stack.modify fun gs =>
        { gs with text.font := some font, text.size := size } } := by
  rw [applyParameters, run_bind, selectFont, run_machine_bind, hfont]
  rfl

/-- With a font that is missing, neither it nor the parameters behind it take effect. -/
theorem run_applyParameters_missing {name : String} {size : Float} {fault : Fault}
    (hfont : ctx.library.findFont m.scopes name = .error fault) (rest : List Parameter) :
    (applyParameters ctx (.font name size :: rest)).run m = ⟨.error fault, m, []⟩ := by
  rw [applyParameters, run_bind, selectFont, run_machine_bind, hfont]
  rfl

/-- Parameters up to a font that is missing take effect, and no more. The induction is on those
before it, each of which leaves the scopes alone, so that the font is missing from the changed
machine too. -/
theorem run_applyParameters_upto {first : List Parameter} {name : String} {size : Float}
    {fault : Fault}
    (hfound : ∀ name size, .font name size ∈ first →
      ∃ font, ctx.library.findFont m.scopes name = .ok font)
    (hmissing : ctx.library.findFont m.scopes name = .error fault) (rest : List Parameter) :
    ∃ n, (applyParameters ctx first).run m = ⟨.ok (), n, []⟩ ∧
      (applyParameters ctx (first ++ .font name size :: rest)).run m = ⟨.error fault, n, []⟩ := by
  induction first generalizing m with
  | nil => exact ⟨m, rfl, run_applyParameters_missing hmissing rest⟩
  | cons parameter first ih =>
      have hfirst := fun name size hmem => hfound name size (List.mem_cons_of_mem parameter hmem)
      cases parameter with
      | set setting =>
          simp only [List.cons_append, run_applyParameters_set]
          exact ih hfirst hmissing
      | font name' size' =>
          obtain ⟨font, hfont⟩ := hfound name' size' List.mem_cons_self
          simp only [List.cons_append, run_applyParameters_font hfont]
          exact ih hfirst hmissing

end Action

namespace Dict.MissesFont

variable {ctx : Context σ} {m : Machine σ} {lib : Library σ} {scopes : List σ}
  {dict before : Dict} {fault : Fault}

/-- An entry in front changes nothing, if it asks for no font or for one that is found. So the font
that is missing is still the first one that is. -/
theorem cons (h : dict.MissesFont lib scopes before fault) {entry : String × Object}
    (hentry : ∀ name size, Parameter.ofEntry? entry.1 entry.2 = some (.font name size) →
      ∃ font, lib.findFont scopes name = .ok font) :
    Dict.MissesFont lib scopes (entry :: dict) (entry :: before) fault := by
  obtain ⟨⟨value, after, name, size, rfl, hvalue, hmissing⟩, hearlier⟩ := h
  refine ⟨⟨value, after, name, size, rfl, hvalue, hmissing⟩, fun name' size' hmem => ?_⟩
  rw [Parameter.ofDict, List.mem_filterMap] at hmem
  obtain ⟨entry', hmem, hentry'⟩ := hmem
  obtain rfl | hmem := List.mem_cons.mp hmem
  · exact hentry name' size' hentry'
  · exact hearlier name' size' (List.mem_filterMap.mpr ⟨entry', hmem, hentry'⟩)

/-- The entries before the one whose font is missing take effect, and no more: the machine is that
which they alone would have left. -/
theorem run_applyParameters (h : dict.MissesFont ctx.library m.scopes before fault) :
    ∃ n, (Action.applyParameters ctx (Parameter.ofDict before)).run m = ⟨.ok (), n, []⟩ ∧
      (Action.applyParameters ctx (Parameter.ofDict dict)).run m = ⟨.error fault, n, []⟩ := by
  obtain ⟨⟨value, after, name, size, rfl, hvalue, hmissing⟩, hearlier⟩ := h
  have hdict : Parameter.ofDict (before ++ ("Font", value) :: after) =
      Parameter.ofDict before ++ .font name size :: Parameter.ofDict after := by
    have hentry : Parameter.ofDict (("Font", value) :: after) =
        .font name size :: Parameter.ofDict after := Parameter.ofDict_cons_of_some hvalue after
    rw [← hentry, Parameter.ofDict, List.filterMap_append]
    rfl
  rw [hdict]
  exact Action.run_applyParameters_upto hearlier hmissing _

end Dict.MissesFont

namespace Action

variable {ctx : Context σ} {call : Bytes → Action σ Unit} {m : Machine σ}

/-- A dictionary of parameters fails for no other reason than that a font is missing. The induction
is on the entries, and the first missing font is the one that counts. -/
theorem run_applyParameters_or (dict : Dict) (m : Machine σ) :
    ((applyParameters ctx (Parameter.ofDict dict)).run m).result = .ok () ∨
      ∃ before fault, dict.MissesFont ctx.library m.scopes before fault := by
  -- The machine changes with each entry, but not its scopes, in which the fonts are looked up.
  induction dict generalizing m with
  | nil => exact .inl rfl
  | cons entry dict ih =>
      rcases hentry : Parameter.ofEntry? entry.1 entry.2 with _ | setting | ⟨name, size⟩
      · rw [Parameter.ofDict_cons_of_none hentry]
        refine (ih m).imp id ?_
        rintro ⟨before, fault, h⟩
        exact ⟨entry :: before, fault, h.cons fun _ _ hfont => by rw [hentry] at hfont; cases hfont⟩
      · rw [Parameter.ofDict_cons_of_some hentry, run_applyParameters_set]
        refine (ih _).imp id ?_
        rintro ⟨before, fault, h⟩
        exact ⟨entry :: before, fault, h.cons fun _ _ hfont => by rw [hentry] at hfont; cases hfont⟩
      · rcases hfont : ctx.library.findFont m.scopes name with fault | font
        · obtain ⟨key, value⟩ := entry
          obtain rfl := Parameter.eq_font_of_ofEntry? hentry
          exact .inr ⟨[], fault, ⟨value, dict, name, size, rfl, hentry, hfont⟩,
            fun _ _ hmem => by cases hmem⟩
        · rw [Parameter.ofDict_cons_of_some hentry, run_applyParameters_font hfont]
          refine (ih _).imp id ?_
          rintro ⟨before, fault, h⟩
          refine ⟨entry :: before, fault, h.cons fun name' size' hfont' => ?_⟩
          rw [hentry] at hfont'
          cases hfont'
          exact ⟨font, hfont⟩

/-- The command to apply parameters looks the dictionary up by its name, and then applies its
entries. -/
theorem run_perform_extGState (frame : Frame) (name : String) (m : Machine σ) :
    (perform ctx call frame (.extGState name)).run m =
      match ctx.library.findExtGState m.scopes name with
      | .error fault => ⟨.error fault, m, []⟩
      | .ok dict =>
        (do applyParameters ctx (Parameter.ofDict dict); pure frame : Action σ Frame).run m := by
  rw [perform, run_machine_bind]
  cases ctx.library.findExtGState m.scopes name <;> rfl

end Action

/-! ### Instructions that fail -/

/-- An instruction applies a dictionary of graphics state parameters in which a **font is missing**,
after some entries. -/
def Instruction.MissesFont (ctx : Context σ) (scopes : List σ) (before : Dict) :
    Instruction → Prop
  | .operate op operands => ∃ name dict fault, Command.decode op operands = .ok (.extGState name) ∧
    ctx.library.findExtGState scopes name = .ok dict ∧
    dict.MissesFont ctx.library scopes before fault
  | _ => False

/-- An instruction that fails **leaves behind** no calls, and the machine as it was; or, if a font
is missing, the machine after the entries before that of the font. -/
structure Instruction.Leaves (ctx : Context σ) (m : Machine σ) (i : Instruction)
    (o : Outcome σ Frame) : Prop where
  calls : o.trace.calls = []
  machine : (∀ before, ¬ i.MissesFont ctx m.scopes before) → o.machine = m
  entries : ∀ before, i.MissesFont ctx m.scopes before →
    (Action.applyParameters ctx (Parameter.ofDict before)).run m = ⟨.ok (), o.machine, []⟩

/-- What fails cleanly leaves behind what an instruction may leave that applies no parameters. -/
theorem Outcome.Clean.leaves {ctx : Context σ} {m : Machine σ} {i : Instruction}
    {o : Outcome σ Frame} {fault : Fault} (h : o.Clean m) (hfault : o.result = .error fault)
    (hi : ∀ before, ¬ i.MissesFont ctx m.scopes before) : i.Leaves ctx m o where
  calls := (h fault hfault).2
  machine _ := (h fault hfault).1
  entries before hbefore := absurd hbefore (hi before)

namespace Action

variable {ctx : Context σ} {call : Bytes → Action σ Unit} {m : Machine σ}
  (hcall : ∀ floor content, Keeps ctx floor anything (call content))

include hcall

omit hcall in
/-- A dictionary of parameters that fails leaves the entries before the missing font in force. If
the dictionary itself is not found, nothing is in force of it. -/
theorem leaves_extGState {frame : Frame} {op : Operator} {operands : List Operand} {name : String}
    {fault : Fault} (hdecode : Command.decode op operands = .ok (.extGState name))
    (hfault : ((perform ctx call frame (.extGState name)).run m).result = .error fault) :
    (Instruction.operate op operands).Leaves ctx m
      ((perform ctx call frame (.extGState name)).run m) := by
  have hmisses {before : Dict} : (Instruction.operate op operands).MissesFont ctx m.scopes before →
      ∃ dict fault, ctx.library.findExtGState m.scopes name = .ok dict ∧
        dict.MissesFont ctx.library m.scopes before fault := by
    rintro ⟨name', dict, fault, hname, h⟩
    rw [hdecode] at hname
    cases hname
    exact ⟨dict, fault, h⟩
  rw [run_perform_extGState] at hfault ⊢
  rcases hdict : ctx.library.findExtGState m.scopes name with fault' | dict
  · refine (Outcome.Clean.fail fault').leaves rfl fun before hbefore => ?_
    obtain ⟨dict, -, hdict', -⟩ := hmisses hbefore
    rw [hdict] at hdict'
    cases hdict'
  · simp only [hdict] at hfault ⊢
    obtain ⟨before, fault', hmissing⟩ :
        ∃ before fault, dict.MissesFont ctx.library m.scopes before fault := by
      refine (run_applyParameters_or dict m).resolve_left fun hok => ?_
      rw [run_bind] at hfault
      generalize (applyParameters ctx (Parameter.ofDict dict)).run m = o at hok hfault
      obtain ⟨_ | _, _, _⟩ := o
      · cases hok
      · cases hfault
    obtain ⟨n, -, hrun⟩ := hmissing.run_applyParameters
    rw [run_bind, hrun]
    refine ⟨rfl, fun hnone => ?_, fun before' hbefore' => ?_⟩
    · exact absurd ⟨name, dict, fault', hdecode, hdict, hmissing⟩ (hnone before)
    · obtain ⟨dict', fault'', hdict', hmissing'⟩ := hmisses hbefore'
      obtain rfl := Except.ok.inj (hdict.symm.trans hdict')
      obtain ⟨n', hrun', hall⟩ := hmissing'.run_applyParameters
      obtain rfl : n' = n := (congrArg Outcome.machine (hrun.symm.trans hall) :).symm
      exact hrun'

/-- An instruction that fails leaves nothing behind, but for the entries before a font that is
missing. -/
theorem leaves_step {frame : Frame} {i : Instruction} {fault : Fault}
    (hfault : ((step ctx call frame i).run m).result = .error fault) :
    i.Leaves ctx m ((step ctx call frame i).run m) := by
  cases i with
  | drawImage dict data =>
      have hclean : ((step ctx call frame (.drawImage dict data)).run m).Clean m :=
        (clean_drawInlineImage dict data).andThen fun _ => .pure frame
      exact hclean.leaves hfault fun _ => id
  | misspelled flaw => exact (Outcome.Clean.fail _).leaves hfault fun _ => id
  | operate op operands =>
      rcases hdecode : Command.decode op operands with fault' | command
      · have hclean : ((step ctx call frame (.operate op operands)).run m).Clean m := by
          rw [step, hdecode]
          exact .fail fault'
        refine hclean.leaves hfault ?_
        rintro before ⟨name, dict, _, h, -⟩
        rw [hdecode] at h
        cases h
      · have hstep : (step ctx call frame (.operate op operands)).run m =
            (perform ctx call frame command).run m := by
          rw [step, hdecode, run_ok_bind]
        rw [hstep] at hfault ⊢
        by_cases hgs : ∃ name, command = .extGState name
        · obtain ⟨name, rfl⟩ := hgs
          exact leaves_extGState hdecode hfault
        · refine (clean_perform hcall frame fun name h => hgs ⟨name, h⟩).leaves hfault ?_
          rintro before ⟨name, dict, _, h, -⟩
          rw [hdecode] at h
          exact hgs ⟨name, Except.ok.inj h⟩

end Action

/-! ### Programs that fail -/

/-- Where instructions **stop**: the one that ends in a fault, in its place; none if all of them are
carried out. -/
def Action.stop? (ctx : Context σ) (call : Bytes → Action σ Unit) :
    Frame → List (Nat × Instruction) → Machine σ → Option (Nat × Instruction)
  | _, [], _ => none
  | frame, (k, i) :: is, m =>
    match (step ctx call frame i).run m with
    | ⟨.error _, _, _⟩ => some (k, i)
    | ⟨.ok frame', m', _⟩ => stop? ctx call frame' is m'

/-- Where a **program stops** that is run on a machine. -/
def Program.stop? (p : Program) (ctx : Context σ) (m : Machine σ) : Option (Nat × Instruction) :=
  Action.stop? ctx (Action.call ctx) { base := m.stack.depth } p.placed m

namespace Action

variable {ctx : Context σ} {call : Bytes → Action σ Unit} {m : Machine σ} {frame : Frame}

/-- Instructions that do not stop are all carried out. The induction is on the instructions, each of
which leads to the frame and the machine of the next. -/
theorem steps_of_stop?_eq_none {is : List (Nat × Instruction)}
    (h : stop? ctx call frame is m = none) :
    ∃ frame', ((steps ctx call frame (is.map Prod.snd)).run m).result = .ok frame' := by
  induction is generalizing m frame with
  | nil => exact ⟨frame, rfl⟩
  | cons x is ih =>
      obtain ⟨k, i⟩ := x
      rw [stop?] at h
      rw [List.map_cons, steps, run_bind]
      rcases hstep : (step ctx call frame i).run m with ⟨fault | frame', n, t⟩
      · rw [hstep] at h
        cases h
      · rw [hstep] at h
        exact ih h

/-- The instructions before the one that fails are carried out, and those after it are not. What is
seen is what they show, and what the failing instruction adds to it. -/
theorem steps_of_stop?_eq_some {is : List (Nat × Instruction)} {k : Nat} {i : Instruction}
    (h : stop? ctx call frame is m = some (k, i)) :
    ∃ before after frame' n t fault, is = before ++ (k, i) :: after ∧
      (steps ctx call frame (before.map Prod.snd)).run m = ⟨.ok frame', n, t⟩ ∧
      ((step ctx call frame' i).run n).result = .error fault ∧
      (steps ctx call frame (is.map Prod.snd)).run m =
        ((step ctx call frame' i).run n).after t := by
  induction is generalizing m frame with
  | nil => cases h
  | cons x is ih =>
      obtain ⟨k', i'⟩ := x
      rw [stop?] at h
      rcases hstep : (step ctx call frame i').run m with ⟨fault | frame', n, t⟩
      · rw [hstep] at h
        obtain ⟨rfl, rfl⟩ := Prod.mk.inj (Option.some.inj h)
        refine ⟨[], is, frame, m, [], fault, rfl, rfl, by rw [hstep], ?_⟩
        rw [List.map_cons, steps, run_bind, hstep]
        rfl
      · rw [hstep] at h
        obtain ⟨before, after, frame'', n', t', fault, rfl, hbefore, hfault, hall⟩ := ih h
        refine ⟨(k', i') :: before, after, frame'', n', t ++ t', fault, rfl, ?_, hfault, ?_⟩
        · rw [List.map_cons, steps, run_bind, hstep]
          simp only [hbefore]
          rfl
        · rw [List.map_cons, steps, run_bind, hstep]
          simp only [hall, Outcome.after_after]

/-- To run a program is to carry out its instructions from a fresh frame, and to undo in the end
whatever it has saved and not restored. -/
theorem run_runProgram (p : Program) (m : Machine σ) :
    (runProgram ctx call p).run m =
      let o := (steps ctx call { base := m.stack.depth } p.instructions).run m
      ⟨o.result.map fun _ => (), o.machine, o.trace⟩ := by
  rw [runProgram, run_machine_bind, run_bind]
  rcases (steps ctx call { base := m.stack.depth } p.instructions).run m with ⟨_ | _, _, _⟩ <;>
    simp [Outcome.after, Except.map]

end Action

/-- **A program that fails is its successful prefix.** A content stream that cannot be decoded or
tokenized leaves the machine as it was, and the device receives nothing; any other is run as a
program. A program that stops at an instruction, the operator of which is the token at some index,
has done the same as the tokens before that index do by themselves, which succeed: the device has
received the same calls, and the machine is the same. If the instruction applies a dictionary of
graphics state parameters in which a font is missing, the entries before that of the font are in
force besides. -/
theorem execute_eq_prefix (ctx : Context σ) (m : Machine σ) :
    (∀ content fault, ctx.program? m.scopes content = .error fault →
      (Action.execute ctx content).run m = ⟨.error fault, m, []⟩) ∧
    (∀ content p, ctx.program? m.scopes content = .ok p →
      (Action.execute ctx content).run m = (Action.runProgram ctx (Action.call ctx) p).run m) ∧
    ∀ p : Program,
      let o := (Action.runProgram ctx (Action.call ctx) p).run m
      match p.stop? ctx m with
      | none => o.result = .ok ()
      | some (k, i) =>
        let o' := (Action.runProgram ctx (Action.call ctx) (p.take k)).run m
        (∃ op, p.tokens[k]? = some (.operator op)) ∧ (∃ fault, o.result = .error fault) ∧
        o'.result = .ok () ∧ o'.trace.calls = o.trace.calls ∧
        ((∀ before, ¬ i.MissesFont ctx m.scopes before) → o.machine = o'.machine) ∧
        ∀ before, i.MissesFont ctx m.scopes before →
          (Action.applyParameters ctx (Parameter.ofDict before)).run o'.machine =
            ⟨.ok (), o.machine, []⟩ := by
  refine ⟨fun content fault h => ?_, fun content p h => ?_, fun p => ?_⟩
  · rw [Action.execute, Action.run_runContent, h]
  · rw [Action.execute, Action.run_runContent, h, Action.run_runProgram]
  · have hplaced : p.placed.map Prod.snd = p.instructions := p.map_snd_readFrom 0 0 [] p.tokens
    intro o
    have ho : o = _ := Action.run_runProgram p m
    rw [← hplaced] at ho
    rcases hstop : p.stop? ctx m with _ | ⟨k, i⟩
    · obtain ⟨frame, hresult⟩ := Action.steps_of_stop?_eq_none hstop
      simp only [ho, hresult, Except.map]
    · obtain ⟨before, after, frame, n, t, fault, hsplit, hbefore, hfault, hall⟩ :=
        Action.steps_of_stop?_eq_some hstop
      obtain ⟨htake, hop⟩ := Program.instructions_take hsplit
      have ho' : (Action.runProgram ctx (Action.call ctx) (p.take k)).run m = ⟨.ok (), n, t⟩ := by
        rw [Action.run_runProgram, htake, hbefore]
        rfl
      have hscopes : n.scopes = m.scopes := by
        rw [← (Action.scopes_run_steps { base := m.stack.depth } (before.map Prod.snd) m).1,
          hbefore]
      -- What the device has received and what the machine is are left to the failing instruction.
      have hleaves := Action.leaves_step Action.keeps_call hfault
      rw [hall] at ho
      simp only [ho', ho, Outcome.result_after, Outcome.machine_after, Outcome.trace_after, hfault,
        Trace.calls_append, hleaves.calls, List.append_nil, ← hscopes]
      exact ⟨hop, ⟨fault, rfl⟩, trivial, trivial, hleaves.machine, hleaves.entries⟩

namespace MissingFont

/-- A dictionary of parameters whose **font is missing**. -/
def dict : Dict :=
  [("LW", .number 3.0), ("Font", .array [.name "F", .number 12.0]), ("FL", .number 1.0)]

/-- A context that knows **no fonts**. -/
def ctx : Context Nat where
  library := Directory.library #[{ extGStates := [("G", dict)] }]
  surface := fun _ => none

def start : Machine Nat where
  scopes := [0]

/-- A program that saves the state, **applies the dictionary** by its name, and would go on. -/
def program : Program where
  source := []
  arena := [0x47]
  tokens := [.operator (.known .save), .name ⟨0, 1⟩, .operator (.known .extGState),
    .operator (.known .restore)]

/-- The program stops at the operator that applies the dictionary, which is its third token. -/
theorem stop?_program :
    program.stop? ctx start = some (2, .operate (.known .extGState) [.name "G"]) :=
  rfl

/-- The entry before that of the font sets the width of lines, which is in force when the font is
missed. -/
theorem missesFont : (Instruction.operate (.known .extGState) [.name "G"]).MissesFont ctx
    start.scopes [("LW", .number 3.0)] := by
  have hsplit : dict = [("LW", .number 3.0)] ++
      ("Font", .array [.name "F", .number 12.0]) :: [("FL", .number 1.0)] := rfl
  refine ⟨"G", dict, .missingResource .font "F", rfl, rfl,
    ⟨_, _, "F", 12.0, hsplit, rfl, rfl⟩, fun name size h => ?_⟩
  simp [Parameter.ofDict, Parameter.ofEntry?, Parameter.ofNumber, Object.number?] at h

end MissingFont

open MissingFont in
/-- Only the line width is in force after a dictionary in which it stands before the font. The state
that was saved before is saved in both runs. -/
theorem execute_eq_prefix_of_missing_font :
    let o := (Action.runProgram ctx (Action.call ctx) program).run start
    let o' := (Action.runProgram ctx (Action.call ctx) (program.take 2)).run start
    (∃ fault, o.result = .error fault) ∧ o'.result = .ok () ∧ o'.trace.calls = o.trace.calls ∧
    (Action.applyParameters ctx (Parameter.ofDict [("LW", .number 3.0)])).run o'.machine =
      ⟨.ok (), o.machine, []⟩ := by
  intro o o'
  obtain ⟨-, -, h⟩ := execute_eq_prefix ctx start
  have hprogram := h program
  rw [stop?_program] at hprogram
  obtain ⟨-, hfault, hresult, hcalls, -, hentries⟩ := hprogram
  exact ⟨hfault, hresult, hcalls, hentries _ missesFont⟩

end ContentStream
