import ContentStream.Proofs.Bearings

/-!
# What instructions emit

Most commands emit no event at all, and those that do emit events of a few kinds. So the kinds of
events that come of an instruction are known beforehand, unless it calls a program, whose events are
then in between its own. Of an instruction that calls a program, all of the outcome is known but for
what the program does.

## Main definitions

* `EventKind`, `Instruction.kinds`: the kinds of events, and those that an instruction emits.
* `Action.EmitsOnly`: an action emits only events of some kinds.
* `Trace.pick`: what is picked from the events of a trace.

## Main results

* `Action.emitsOnly_perform`: commands emit events of their own kinds, if they call no program.
* `Stride.outcome_of_beginsForm`, `Stride.outcome_of_beginsCell`: what comes of a stride that calls
  a program.
* `Stride.kind_mem_of_not_calls`: a stride that calls none emits events of its instruction's kinds.
-/

namespace ContentStream

variable {σ α β : Type}

/-! ### Kinds of events -/

/-- The **kinds of events**. -/
inductive EventKind where
  | page
  | save
  | restore
  | fill
  | stroke
  | image
  | glyph
  | clip
  | tile
  | unknownOperator
  | inlineImage
deriving DecidableEq

/-- The **kind** of an event. -/
def Event.kind : Event → EventKind
  | .beginPage _ _ | .endPage => .page
  | .save _ => .save
  | .restore _ => .restore
  | .fill _ _ => .fill
  | .stroke _ _ => .stroke
  | .image _ _ _ => .image
  | .glyph _ _ _ => .glyph
  | .clip _ => .clip
  | .beginTile _ _ | .endTile => .tile
  | .unknownOperator _ => .unknownOperator
  | .inlineImage _ _ _ => .inlineImage

/-- What a step in writing text **emits**: glyphs, if it shows a string. -/
def Writing.kinds : Writing → List EventKind
  | .moveLine _ _ | .moveLineLeading _ _ | .setMatrix _ | .nextLine => []
  | .write _ | .writeAdjusted _ | .nextLineWrite _ | .nextLineWriteSpaced _ _ _ => [.glyph]

/-- The kinds of events that a command **emits**, apart from those of a program that it calls. -/
def Command.kinds : Command → List EventKind
  | .save => [.save]
  | .restore => [.restore]
  | .paint _ => [.fill, .stroke, .clip]
  | .shade _ => [.fill, .clip]
  | .write step => step.kinds
  | .invoke _ => [.image]
  | .unknown _ => [.unknownOperator]
  | _ => []

/-- The kinds of events that an instruction **emits**, apart from those of a program that it
calls. -/
def Instruction.kinds : Instruction → List EventKind
  | .operate op operands =>
    match Command.decode op operands with
    | .ok command => command.kinds
    | .error _ => []
  | .drawImage _ _ => [.inlineImage, .image]
  | .misspelled _ => []

/-! ### Picking from a trace -/

namespace Trace

variable (f : Event → Option β)

/-- What is **picked** from the events of a trace. -/
def pick (t : Trace) : List β :=
  t.events.filterMap f

/-- There is nothing to pick from an empty trace. -/
@[simp]
theorem pick_nil : pick f [] = [] :=
  rfl

/-- What is picked from two traces, one after the other, is picked from each. -/
@[simp]
theorem pick_append (t₁ t₂ : Trace) : pick f (t₁ ++ t₂) = pick f t₁ ++ pick f t₂ := by
  rw [pick, events_append, List.filterMap_append, pick, pick]

/-- The same is true of any number of traces. -/
theorem pick_flatMap (g : α → Trace) (xs : List α) :
    pick f (xs.flatMap g) = xs.flatMap fun x => pick f (g x) := by
  induction xs with
  | nil => rfl
  | cons x xs ih => rw [List.flatMap_cons, List.flatMap_cons, pick_append, ih]

/-- What is picked from events that are shown one by one. -/
theorem pick_map_event (es : List Event) : pick f (es.map .event) = es.filterMap f := by
  rw [pick, events, List.filterMap_map]
  exact congrArg _ (List.filterMap_some (l := es))

/-- Nothing is picked that is of no kind in the trace. -/
theorem pick_eq_nil {kinds : List EventKind} {t : Trace} (ht : ∀ e ∈ t.events, e.kind ∈ kinds)
    (hf : ∀ e : Event, e.kind ∈ kinds → f e = none) : pick f t = [] :=
  List.filterMap_eq_nil_iff.mpr fun e he => hf e (ht e he)

/-- What is seen of the states that are left on a stack are restorations. -/
theorem kind_of_mem_leaving {s : GStack} {depth : Nat} {e : Event}
    (he : e ∈ (s.leaving depth).events) : e.kind ∈ [EventKind.restore] := by
  have hmap : s.leaving depth =
      ((s.saved.take (s.depth - depth)).map Event.restore).map .event := List.map_map.symm
  rw [hmap, events, List.filterMap_map, List.mem_filterMap] at he
  obtain ⟨_, hmem, ⟨⟩⟩ := he
  obtain ⟨gs, -, rfl⟩ := List.mem_map.mp hmem
  exact List.mem_cons_self

end Trace

/-! ### Commands -/

namespace Action

/-- An action **emits only** events of some kinds. -/
def EmitsOnly (kinds : List EventKind) (x : Action σ α) : Prop :=
  ∀ m, ∀ e ∈ (x.run m).events, e.kind ∈ kinds

namespace EmitsOnly

variable {kinds : List EventKind}

/-- To give a result emits nothing. -/
theorem pure (a : α) : EmitsOnly kinds (pure a : Action σ α) :=
  fun _ _ he => absurd he List.not_mem_nil

/-- Neither does a fault. -/
theorem fail (fault : Fault) : EmitsOnly kinds (fail fault : Action σ α) :=
  fun _ _ he => absurd he List.not_mem_nil

/-- Neither does looking things up. -/
theorem ofExcept (x : Except Fault α) : EmitsOnly kinds (ofExcept x : Action σ α) :=
  fun _ _ he => absurd he List.not_mem_nil

/-- Neither does looking at the machine. -/
theorem machine : EmitsOnly kinds (machine : Action σ (Machine σ)) :=
  fun _ _ he => absurd he List.not_mem_nil

/-- Neither does looking at the state. -/
theorem state : EmitsOnly kinds (state : Action σ GState) :=
  fun _ _ he => absurd he List.not_mem_nil

/-- To change the machine is not seen in itself. -/
theorem modify (f : Machine σ → Machine σ) : EmitsOnly kinds (modify f : Action σ Unit) :=
  fun _ _ he => absurd he List.not_mem_nil

/-- Neither is a change of the state. -/
theorem modifyState (f : GState → GState) : EmitsOnly kinds (modifyState f : Action σ Unit) :=
  modify _

/-- An event is emitted that is of one of the kinds. -/
theorem emit {e : Event} (h : e.kind ∈ kinds) : EmitsOnly kinds (emit e : Action σ Unit) := by
  intro m e' he'
  obtain rfl : e' = e := List.mem_singleton.mp he'
  exact h

/-- Several events are emitted that all are. -/
theorem emitAll {es : List Event} (h : ∀ e ∈ es, e.kind ∈ kinds) :
    EmitsOnly kinds (emitAll es : Action σ Unit) := by
  intro m e he
  rw [run_emitAll, Outcome.events, Trace.events, List.filterMap_map] at he
  have hmem : e ∈ es.filterMap some := he
  exact h e (List.filterMap_some (l := es) ▸ hmem)

/-- A sequence emits what its parts do. If the first ends in a fault, only its own events are
seen. -/
theorem bind {x : Action σ α} {f : α → Action σ β} (hx : EmitsOnly kinds x)
    (hf : ∀ a, EmitsOnly kinds (f a)) : EmitsOnly kinds (x >>= f) := by
  intro m
  have hfirst := hx m
  rw [run_bind]
  generalize x.run m = o at hfirst
  obtain ⟨fault | a, n, t⟩ := o
  · exact hfirst
  · intro e he
    rw [Outcome.events, Outcome.trace_after, Trace.events_append] at he
    rcases List.mem_append.mp he with he | he
    · exact hfirst e he
    · exact hf a n e he

/-- To emit events of some kinds only is composable. -/
theorem composable : Composable (EmitsOnly (σ := σ) kinds) where
  pure := .pure
  bind := .bind

end EmitsOnly

/-- To restore a state is seen, and nothing else is. -/
theorem emitsOnly_restoreOwn (frame : Frame) :
    EmitsOnly [.restore] (restoreOwn frame : Action σ Unit) := by
  refine .bind .machine fun m => ?_
  split
  · exact .fail _
  · refine .bind .machine fun n => ?_
    cases n.stack.restore? with
    | none => exact .fail _
    | some stack => exact .bind (.modify _) fun _ => .emit List.mem_cons_self

/-- To narrow the clip is seen as a clip. -/
theorem emitsOnly_narrowClip {kinds : List EventKind} (h : .clip ∈ kinds) (path : Path Float) :
    EmitsOnly kinds (narrowClip path : Action σ Unit) :=
  .bind .state fun _ => .bind (.modifyState _) fun _ => .emit h

/-- So is the end of a path, or it is not seen. -/
theorem emitsOnly_endPath {kinds : List EventKind} (h : .clip ∈ kinds) (frame : Frame) :
    EmitsOnly kinds (endPath frame : Action σ Frame) :=
  EmitsOnly.composable.endPath (emitsOnly_narrowClip h) (.modifyState _) frame

/-- Painting is seen as what is filled, what is stroked, and what the clip is narrowed to. -/
theorem emitsOnly_paint (painting : Painting) (frame : Frame) :
    EmitsOnly [.fill, .stroke, .clip] (paint painting frame : Action σ Frame) := by
  have hevents (gs : GState) (path : Path Float) : ∀ e ∈ paintEvents painting gs path,
      e.kind ∈ [EventKind.fill, .stroke, .clip] := by
    obtain ⟨close, _ | rule, _ | _⟩ := painting <;> simp [paintEvents, Event.kind]
  exact EmitsOnly.composable.paint .state (fun gs path => .emitAll (hevents gs path))
    (emitsOnly_endPath (by decide) frame)

/-- A string is seen as glyphs. -/
theorem emitsOnly_showText (bytes : Bytes) (t : TextObject) :
    EmitsOnly [.glyph] (showText bytes t : Action σ TextObject) := by
  refine EmitsOnly.composable.showText .state (fun gs placed => .emitAll fun e he => ?_) bytes t
  obtain ⟨_, -, rfl⟩ := List.mem_map.mp he
  exact List.mem_cons_self

/-- A step of writing emits glyphs if it shows a string, and nothing otherwise. -/
theorem emitsOnly_writeOpen (step : Writing) (t : TextObject) :
    EmitsOnly step.kinds (writeOpen step t : Action σ TextObject) := by
  cases step with
  | moveLine tx ty | setMatrix m => exact .pure _
  | moveLineLeading tx ty => exact .bind (.modifyState _) fun _ => .pure _
  | nextLine => exact EmitsOnly.composable.nextLine (EmitsOnly.composable.ofText .state) t
  | _ =>
      exact EmitsOnly.composable.writeOpen (EmitsOnly.composable.ofText .state)
        (fun _ => .modifyState _) emitsOnly_showText _ t

/-- Outside of a text object it emits nothing at all. -/
theorem emitsOnly_write (step : Writing) (frame : Frame) :
    EmitsOnly step.kinds (write step frame : Action σ Frame) := by
  unfold write
  split
  · exact .bind (emitsOnly_writeOpen step frame.text) fun _ => .pure _
  · exact .pure frame

/-- Nothing is seen of an action that leaves no trace after another. -/
theorem trace_run_bind {x : Action σ α} {f : α → Action σ β}
    (hf : ∀ a n, ((f a).run n).trace = []) (m : Machine σ) :
    ((x >>= f).run m).trace = (x.run m).trace := by
  rw [run_bind]
  rcases x.run m with ⟨fault | a, n, t⟩
  · rfl
  · rw [Outcome.trace_after, hf a n, List.append_nil]

/-- An image is seen as an image. -/
theorem emitsOnly_drawImage {kinds : List EventKind} (h : .image ∈ kinds) (image : Image) :
    EmitsOnly kinds (drawImage image : Action σ Unit) :=
  .bind .state fun _ => .emit h

section

variable {ctx : Context σ} {call : Bytes → Action σ Unit} {kinds : List EventKind}

/-- To select a font is not seen, so that any kinds will do. -/
theorem emitsOnly_selectFont (name : String) (size : Float) :
    EmitsOnly kinds (selectFont ctx name size) :=
  .bind .machine fun _ => .bind (.ofExcept _) fun _ => .modifyState _

/-- An inline image is asked for, and drawn if it can be decoded. -/
theorem emitsOnly_drawInlineImage (dict : Dict) (data : Bytes) :
    EmitsOnly [.inlineImage, .image] (drawInlineImage ctx dict data) :=
  EmitsOnly.composable.drawInlineImage (fun hf => .bind .machine fun m => hf m.scopes)
    (fun _ => .emit List.mem_cons_self) (fun _ => .ofExcept _) (emitsOnly_drawImage (by decide))

/-- To select a color space is not seen. -/
theorem emitsOnly_selectSpace (side : Side) (name : String) :
    EmitsOnly kinds (selectSpace ctx side name) := by
  intro m
  rw [run_selectSpace]
  cases ctx.library.spaceOf m.scopes name <;> exact fun _ he => absurd he List.not_mem_nil

/-- A shading is seen as a region that is filled, and as the end of the path. -/
theorem emitsOnly_shade (name : String) (frame : Frame) :
    EmitsOnly [.fill, .clip] (shade ctx name frame) := by
  refine .bind .machine fun m => .bind (.ofExcept _) fun shading => ?_
  split
  · exact .fail _
  · exact .bind (.emit List.mem_cons_self) fun _ =>
      emitsOnly_endPath (List.mem_cons_of_mem _ List.mem_cons_self) frame

/-- Commands that are not there to call a program emit only events of their kinds. The two that may
call one have events of another program in between their own. -/
theorem emitsOnly_perform (frame : Frame) {command : Command}
    (hinvoke : ∀ name, command ≠ .invoke name)
    (hcolor : ∀ side op operands, command ≠ .color side op operands) :
    EmitsOnly command.kinds (perform ctx call frame command) := by
  have hsame {kinds : List EventKind} {x : Action σ Unit} (hx : EmitsOnly kinds x) :
      EmitsOnly kinds (do x; pure frame : Action σ Frame) :=
    hx.bind fun _ => .pure frame
  cases command with
  | invoke name => exact absurd rfl (hinvoke name)
  | color side op operands => exact absurd rfl (hcolor side op operands)
  | save =>
      exact hsame (.bind (.modify _) fun _ => .bind .state fun _ => .emit List.mem_cons_self)
  | restore => exact hsame (emitsOnly_restoreOwn frame)
  | set setting => exact hsame (.modifyState _)
  | font name size => exact hsame (emitsOnly_selectFont name size)
  | extGState name =>
      exact .bind .machine fun _ => .bind (.ofExcept _) fun _ =>
        hsame (EmitsOnly.composable.applyParameters (fun _ => .modifyState _)
          emitsOnly_selectFont _)
  | construct step =>
      exact EmitsOnly.composable.construct .state (fun _ => .modifyState _) step frame
  | paint painting => exact emitsOnly_paint painting frame
  | clip rule | endText | beginCompatibility | ignore => exact .pure _
  | beginText => exact .bind .state fun _ => .pure _
  | write step => exact emitsOnly_write step frame
  | space side name => exact hsame (emitsOnly_selectSpace side name)
  | device side space color => exact hsame (.modifyState _)
  | shade name => exact emitsOnly_shade name frame
  | endCompatibility => exact EmitsOnly.composable.endCompatibility (.fail _)
  | unknown spelling => exact hsame (.emit List.mem_cons_self)

end

end Action

/-! ### Strides -/

/-- The graphics **state** that a stride is begun in. -/
def Stride.state (s : Stride σ) : GState :=
  s.machine.stack.current

/-- What is picked from a program that is called is picked from its execution, if it is not nested
too deeply. -/
theorem pick_run_call {ctx : Context σ} (f : Event → Option β) (m : Machine σ) (content : Bytes) :
    ((Action.call ctx content).run m).trace.pick f =
      if m.depth < ctx.config.maxDepth then
        ((Action.execute ctx content).run m.deeper).trace.pick f
      else [] := by
  rw [Action.run_call]
  split
  · rw [Action.run_deeper]
    rfl
  · rfl

namespace Stride

variable {ctx : Context σ} {s : Stride σ}

/-- What comes of a stride that begins a form: the frame is as before, and the machine as well but
for the tiles. -/
theorem outcome_of_beginsForm {form : Form σ}
    (h : BeginsForm ctx s.machine s.instruction form) :
    s.outcome ctx =
      let o := (Action.call ctx form.content).run (s.machine.enterForm form)
      ⟨.ok s.frame, s.machine.returned o.machine,
        s.state.entering form.matrix (some form.bbox) ++
          (o.trace ++ o.machine.stack.leaving s.machine.stack.depth)⟩ := by
  obtain ⟨⟨op, operands, name, hi, hdecode, hfind⟩, hid⟩ := h
  have hinvoke : (Action.invoke ctx (Action.call ctx) name).run s.machine =
      (Action.runForm (Action.call ctx) form).run s.machine := by
    rw [Action.run_invoke, hfind]
  rw [outcome_of_decode ctx hi hdecode, Action.perform, Action.run_bind, hinvoke,
    Action.run_runForm_eq Action.keeps_call hid]
  simp only [Action.run_pure, Outcome.after, List.append_nil]
  rfl

/-- What comes of a stride that begins a cell: the frame is as before, and the machine as well but
for the tiles and the color that is selected. -/
theorem outcome_of_beginsCell {tiling : Tiling σ} {tint : Option Tint}
    (h : BeginsCell ctx s.machine s.instruction tiling tint) :
    ∃ side ink tiles finished, s.outcome ctx =
      let key := ctx.config.tileSharing.key tiling tint
      let o := (Action.call ctx tiling.content).run (s.machine.enterCell tiling tint)
      let tile := tiling.tile (ctx.surface (o.machine.finished + 1))
      ⟨.ok s.frame,
        { s.machine with
          stack := s.machine.stack.modify fun gs => gs.setInk side ink
          tiles
          finished },
        .note (.begun key) :: .event (.beginTile tiling.bbox tiling.matrix) ::
          (o.trace ++
            (o.machine.stack.leaving 1 ++ [.event .endTile, .note (.obtained key tile)]))⟩ := by
  obtain ⟨⟨op, operands, side, spelling, args, hi, hdecode, hselect⟩, hmiss⟩ := h
  rw [outcome_of_decode ctx hi hdecode, Action.perform, Action.run_bind, Action.run_selectColor,
    hselect]
  simp only [Action.run_bind, Action.run_tile_eq Action.keeps_call hmiss, Action.run_modifyState,
    Action.run_pure, Outcome.after, List.append_nil]
  exact ⟨side, _, _, _, rfl⟩

/-- What is picked from a stride that begins a cell is picked from its program, unless it is about
the tile itself or about states that the program has left. -/
theorem pick_of_beginsCell {f : Event → Option β}
    (hf : ∀ e : Event, e.kind ∈ [EventKind.tile, .restore] → f e = none) {tiling : Tiling σ}
    {tint : Option Tint} (h : BeginsCell ctx s.machine s.instruction tiling tint) :
    (s.outcome ctx).trace.pick f =
      ((Action.call ctx tiling.content).run (s.machine.enterCell tiling tint)).trace.pick f := by
  obtain ⟨side, ink, tiles, finished, ho⟩ := outcome_of_beginsCell h
  have hleaving (stack : GStack) : (stack.leaving 1).pick f = [] :=
    Trace.pick_eq_nil f (fun _ => Trace.kind_of_mem_leaving) fun e he =>
      hf e (List.mem_cons_of_mem _ he)
  have hbegin : f (.beginTile tiling.bbox tiling.matrix) = none := hf _ List.mem_cons_self
  have hend : f .endTile = none := hf _ List.mem_cons_self
  have hbegun (key : TileKey) (t : Trace) :
      Trace.pick f (.note (.begun key) :: .event (.beginTile tiling.bbox tiling.matrix) :: t) =
        t.pick f := by
    simp [Trace.pick, hbegin]
  have hended (key : TileKey) (tile : Tile) :
      Trace.pick f [.event .endTile, .note (.obtained key tile)] = [] := by
    simp [Trace.pick, hend]
  rw [ho]
  simp only [hbegun, hended, hleaving, Trace.pick_append, List.append_nil]

/-- An object that is invoked without a call of a program is at most an image. It may be a form that
is being executed already, of which nothing is seen. -/
theorem kind_mem_of_invoke {op : Operator} {operands : List Operand} {name : String}
    (hi : s.instruction = .operate op operands)
    (hdecode : Command.decode op operands = .ok (.invoke name))
    (h : ∀ k content, ¬ Calls ctx s.machine s.instruction k content) :
    ∀ e ∈ (s.outcome ctx).events, e.kind ∈ [EventKind.image] := by
  rw [outcome_of_decode ctx hi hdecode, Action.perform, Outcome.events,
    Action.trace_run_bind fun _ _ => rfl, Action.run_invoke]
  rcases hfind : ctx.library.findXObject s.machine.scopes name with fault | image | form
  · exact fun _ he => absurd he List.not_mem_nil
  · exact Action.emitsOnly_drawImage List.mem_cons_self image s.machine
  · by_cases hid : form.identity ∈ s.machine.forms
    · simp only [Action.run_runForm_of_mem s.machine hid]
      exact fun _ he => absurd he List.not_mem_nil
    · exact absurd (.form ⟨⟨op, operands, name, hi, hdecode, hfind⟩, hid⟩) (h _ _)

/-- A color that is selected without a call of a program emits nothing. If it is that of a pattern,
then there is a tile of it. -/
theorem kind_mem_of_color {op : Operator} {operands : List Operand} {side : Side}
    {spelling : String} {args : List Operand} (hi : s.instruction = .operate op operands)
    (hdecode : Command.decode op operands = .ok (.color side spelling args))
    (h : ∀ k content, ¬ Calls ctx s.machine s.instruction k content) :
    ∀ e ∈ (s.outcome ctx).events, e.kind ∈ ([] : List EventKind) := by
  rw [outcome_of_decode ctx hi hdecode, Action.perform, Outcome.events,
    Action.trace_run_bind fun _ _ => rfl, Action.run_selectColor]
  rcases hselect : ctx.library.select s.machine.scopes spelling
    (s.machine.stack.current.ink side).space args with fault | paint | ⟨tiling, tint⟩
  · exact fun _ he => absurd he List.not_mem_nil
  · exact fun _ he => absurd he List.not_mem_nil
  · dsimp only
    rw [Action.trace_run_bind fun _ _ => rfl]
    cases hkey : s.machine.tiles.lookup (ctx.config.tileSharing.key tiling tint) with
    | some tile =>
        rw [Action.run_tile_of_some s.machine hkey]
        exact fun _ he => absurd he List.not_mem_nil
    | none =>
        exact absurd (.cell ⟨⟨op, operands, side, spelling, args, hi, hdecode, hselect⟩, hkey⟩)
          (h _ _)

/-- A stride that calls no program emits only events of its instruction's kinds. Only to invoke
something and to select a color had to be looked at more closely. -/
theorem kind_mem_of_not_calls
    (h : ∀ k content, ¬ Calls ctx s.machine s.instruction k content) :
    ∀ e ∈ (s.outcome ctx).events, e.kind ∈ s.instruction.kinds := by
  rcases hi : s.instruction with ⟨op, operands⟩ | ⟨dict, data⟩ | flaw
  · rcases hdecode : Command.decode op operands with fault | command
    · rw [outcome, hi, Action.step, hdecode]
      exact fun _ he => absurd he List.not_mem_nil
    · rw [Instruction.kinds, hdecode]
      cases command with
      | invoke name => exact kind_mem_of_invoke hi hdecode h
      | color side spelling args => exact kind_mem_of_color hi hdecode h
      | _ =>
          rw [outcome_of_decode ctx hi hdecode]
          exact Action.emitsOnly_perform s.frame (by simp) (by simp) s.machine
  · rw [outcome, hi]
    exact (Action.emitsOnly_drawInlineImage dict data).bind (fun _ => .pure s.frame) s.machine
  · rw [outcome, hi]
    exact fun _ he => absurd he List.not_mem_nil

end Stride

end ContentStream
