import ContentStream.Proofs.Emissions

/-!
# Deferred clips

A clip is asked for by one operator and takes effect with another, and in between the path may go
on, the transform may change, and another clip may be asked for. What takes effect is the path as it
stood when it was asked for last, under the transform that is in force in the end; and it takes
effect after the painting that it comes with, so that this is done in the state as it was before.

Besides, the clip is narrowed only to the box of a form or sub-program that is entered. Every other
stride leaves the clip alone, but for what the programs do that it calls.

## Main definitions

* `Trace.clips`: the paths to which the clip is narrowed in a trace.
* `GState.Outlines`: the outline of a box that is entered, in device space.
* `Stride.PaintsThenClips`: what comes of a painting operator.
* `Stride.Narrows`: where the clips of a stride come from.
* `Stride.DefersClips`: both, along with what came before the stride.

## Main results

* `Stride.paintsThenClips`, `Stride.narrows`: what comes of a stride.
* `clips_deferred`: all of this at every stride of an execution, and the clips of executions, of
  sub-programs and of pages.
-/

namespace ContentStream

variable {σ : Type}

/-! ### The clips of a trace -/

/-- The path that an event **narrows the clip** to, if it does. -/
def Event.clip? : Event → Option (Path Float)
  | .clip path => some path
  | _ => none

namespace Trace

/-- The **clips** of a trace. -/
def clips (t : Trace) : List (Path Float) :=
  t.events.filterMap Event.clip?

/-- The clips of two traces, one after the other. -/
@[simp]
theorem clips_append (t₁ t₂ : Trace) : clips (t₁ ++ t₂) = clips t₁ ++ clips t₂ :=
  pick_append _ t₁ t₂

/-- The clips of events that are shown one by one. -/
theorem clips_map_event (es : List Event) : clips (es.map .event) = es.filterMap Event.clip? :=
  pick_map_event _ es

/-- There are no clips among events of other kinds. -/
theorem clips_eq_nil {kinds : List EventKind} {t : Trace} (ht : ∀ e ∈ t.events, e.kind ∈ kinds)
    (h : .clip ∉ kinds) : clips t = [] := by
  refine pick_eq_nil _ ht fun e he => ?_
  cases e with
  | clip path => exact absurd he h
  | _ => rfl

/-- To restore states narrows no clip: it brings back the one that was saved. -/
theorem clips_leaving (s : GStack) (depth : Nat) : clips (s.leaving depth) = [] :=
  clips_eq_nil (fun _ => kind_of_mem_leaving) (by decide)

end Trace

/-! ### What comes of a painting operator -/

/-- A stride **paints, and then clips** to a path, if one is given. -/
structure Stride.PaintsThenClips (ctx : Context σ) (painting : Painting)
    (clip : Option (Path Float)) (s : Stride σ) : Prop where
  /-- The path, if there is one, is shown in the state that the stride is begun in. After that the
  clip is narrowed. -/
  trace_eq : (s.outcome ctx).trace =
    (painting.shown s.state s.frame.path ++ clip.toList.map Event.clip).map .event
  /-- There is no path any more, and no clip is asked for. -/
  result_eq : (s.outcome ctx).result = .ok { s.frame with path := none, pendingClip := none }
  /-- On the machine nothing else has changed than the current point and the clip. -/
  machine_eq : (s.outcome ctx).machine = { s.machine with
    stack := ⟨s.state.afterPath clip, s.machine.stack.saved⟩ }

/-- Painting operators paint, and then clip to the path that is computed when the path ends. What is
painted is shown in the state as it was before. -/
theorem Stride.paintsThenClips {ctx : Context σ} {s : Stride σ} {painting : Painting}
    (hsound : s.frame.Sound) (h : s.instruction.bearing = .paints painting) :
    s.PaintsThenClips ctx painting (s.frame.awaited? s.state) := by
  have hpath : (s.frame.path.filter fun p => !p.isEmpty) = s.frame.path := by
    cases hp : s.frame.path with
    | none => rfl
    | some p =>
        obtain ⟨start, rest, hsegments⟩ := hsound.path p hp
        simp [Path.isEmpty, hsegments]
  have houtcome : s.outcome ctx = (Action.paint painting s.frame).run s.machine := by
    rcases hi : s.instruction with ⟨_ | _, operands⟩ | _ | _
    · rw [hi] at h
      exact outcome_of_decode ctx hi (Command.decode_of_bearing h operands)
    all_goals
      rw [hi] at h
      cases h
  rw [Action.run_paint_eq, Action.run_endPath_eq, hpath] at houtcome
  exact {
    trace_eq := by simp [houtcome, Outcome.after, state]
    result_eq := by rw [houtcome]; rfl
    machine_eq := by rw [houtcome]; rfl }

/-! ### Where clips come from -/

/-- The clips of an **execution**. -/
def clipsOf (ctx : Context σ) (m : Machine σ) (content : Bytes) : List (Path Float) :=
  ((Action.execute ctx content).run m).trace.clips

/-- The clips of a program that is **called**: it is executed, if it is not nested too deeply. -/
def clipsCalled (ctx : Context σ) (m : Machine σ) (content : Bytes) : List (Path Float) :=
  if m.depth < ctx.config.maxDepth then clipsOf ctx m.deeper content else []

/-- A **box that is entered**, in device space. -/
def GState.boxEntered (gs : GState) (transform : Matrix Float) (box : Rect Float) : Path Float :=
  (Path.ofRect box).transform (transform.concat gs.ctm)

/-- A path **outlines a box** that is entered from a state. The outline goes around the box from its
first corner, and is taken to device space by the transform of what is entered, followed by the one
that is in force. -/
def GState.Outlines (gs : GState) (transform : Matrix Float) (box : Rect Float)
    (outline : Path Float) : Prop :=
  ∃ k : Matrix Float, k.IsComposite transform gs.ctm ∧
    outline.IsImageOf k
      { segments :=
          [.move ⟨box.x0, box.y0⟩, .line ⟨box.x0 + (box.x1 - box.x0), box.y0⟩,
            .line ⟨box.x0 + (box.x1 - box.x0), box.y0 + (box.y1 - box.y0)⟩,
            .line ⟨box.x0, box.y0 + (box.y1 - box.y0)⟩, .close]
        winding := .nonzero }

/-- What is computed when a box is entered is its outline, point by point. -/
theorem GState.outlines_boxEntered (gs : GState) (transform : Matrix Float) (box : Rect Float) :
    gs.Outlines transform box (gs.boxEntered transform box) :=
  ⟨_, transform.isComposite_concat gs.ctm, (Path.ofRect box).isImageOf_transform _⟩

/-- A stride **narrows the clip** to some paths. -/
inductive Stride.Narrows (ctx : Context σ) (s : Stride σ) : List (Path Float) → Prop
  /-- It ends the path: to the clip that is awaited. -/
  | ends {frame : Frame} {clip : Option (Path Float)}
      (hends : s.instruction.bearing.ends = true) (hok : (s.outcome ctx).result = .ok frame)
      (hclip : s.frame.Awaits s.state clip) : Narrows ctx s clip.toList
  /-- It enters a form: to its box, and then as its program does. -/
  | form {form : Form σ} {box : Path Float} (h : BeginsForm ctx s.machine s.instruction form)
      (hbox : s.state.Outlines form.matrix form.bbox box) :
      Narrows ctx s (box :: clipsCalled ctx (s.machine.enterForm form) form.content)
  /-- It begins a cell: as its program does. -/
  | cell {tiling : Tiling σ} {tint : Option Tint}
      (h : BeginsCell ctx s.machine s.instruction tiling tint) :
      Narrows ctx s (clipsCalled ctx (s.machine.enterCell tiling tint) tiling.content)
  /-- Otherwise: to nothing. -/
  | nothing (hends : s.instruction.bearing.ends = true →
        ∃ fault, (s.outcome ctx).result = .error fault)
      (hcalls : ∀ k content, ¬ Calls ctx s.machine s.instruction k content) : Narrows ctx s []

section

variable {ctx : Context σ} {m : Machine σ}

/-- The clips of a call are those of the program, if it is executed. -/
theorem clips_run_call (m : Machine σ) (content : Bytes) :
    ((Action.call ctx content).run m).trace.clips = clipsCalled ctx m content :=
  pick_run_call _ m content

/-- The clips of a sub-program: its box, if it has one, and those of its content. To leave it adds
none, since a restored state brings its clip along. -/
theorem clips_run_subProgram (content : Bytes) (transform : Matrix Float)
    (box : Option (Rect Float)) (scope : Option σ) (m : Machine σ) :
    ((Action.subProgram (Action.call ctx) content transform box scope).run m).trace.clips =
      box.toList.map (m.stack.current.boxEntered transform) ++
        clipsCalled ctx (m.enter transform box scope) content := by
  have hentering : (m.stack.current.entering transform box).clips =
      box.toList.map (m.stack.current.boxEntered transform) := by
    cases box <;> rfl
  rw [Action.run_subProgram_eq Action.keeps_call]
  simp only [Trace.clips_append, hentering, clips_run_call, Trace.clips_leaving, List.append_nil]

namespace Action

/-- There are no clips among what a painting operator paints. -/
theorem clips_shown (painting : Painting) (gs : GState) (path : Option (Path Float)) :
    (painting.shown gs path).filterMap Event.clip? = [] := by
  obtain ⟨close, _ | rule, _ | _⟩ := painting <;> cases path <;> rfl

/-- When a path ends, the clip is narrowed to what is awaited, or not at all. -/
theorem clips_run_endPath (frame : Frame) (m : Machine σ) :
    ((endPath frame).run m).trace.clips = (frame.awaited? m.stack.current).toList := by
  rw [run_endPath_eq]
  cases frame.awaited? m.stack.current <;> rfl

end Action

/-- An instruction that does not end the path never narrows the clip itself. Asking for a clip is
seen of no device. -/
theorem Instruction.clip_not_mem_kinds {i : Instruction} (h : i.bearing.ends = false) :
    EventKind.clip ∉ i.kinds := by
  rcases i with ⟨op, operands⟩ | ⟨dict, data⟩ | flaw
  · rw [Instruction.kinds]
    rcases hdecode : Command.decode op operands with fault | command
    · exact List.not_mem_nil
    · rw [← Command.bearing_of_decode hdecode] at h
      cases command with
      | paint painting | shade name => cases h
      | write step => cases step <;> simp [Command.kinds, Writing.kinds]
      | _ => simp [Command.kinds]
  · simp [Instruction.kinds]
  · exact List.not_mem_nil

namespace Stride

variable {s : Stride σ}

/-- An operator that ends the path has narrowed the clip as the end of the path does, and has shown
other things before. -/
theorem narrows_of_endPath {t : Trace} (hends : s.instruction.bearing.ends = true)
    (ho : s.outcome ctx = ((Action.endPath s.frame).run s.machine).after t) (ht : t.clips = []) :
    s.Narrows ctx (s.outcome ctx).trace.clips := by
  have hclips : (s.outcome ctx).trace.clips = (s.frame.awaited? s.state).toList := by
    rw [ho, Outcome.trace_after, Trace.clips_append, ht, Action.clips_run_endPath]
    rfl
  rw [hclips]
  exact .ends hends (by rw [ho, Action.run_endPath_eq]; rfl) (s.frame.awaits_awaited? s.state)

/-- The clips of a stride that enters a form. -/
theorem clips_of_beginsForm {form : Form σ} (h : BeginsForm ctx s.machine s.instruction form) :
    (s.outcome ctx).trace.clips = s.state.boxEntered form.matrix form.bbox ::
      clipsCalled ctx (s.machine.enterForm form) form.content := by
  have hentering : (s.state.entering form.matrix (some form.bbox)).clips =
      [s.state.boxEntered form.matrix form.bbox] := rfl
  rw [outcome_of_beginsForm h]
  simp only [Trace.clips_append, hentering, clips_run_call, Trace.clips_leaving, List.append_nil,
    List.singleton_append]

/-- The clips of a stride that begins a cell. -/
theorem clips_of_beginsCell {tiling : Tiling σ} {tint : Option Tint}
    (h : BeginsCell ctx s.machine s.instruction tiling tint) :
    (s.outcome ctx).trace.clips =
      clipsCalled ctx (s.machine.enterCell tiling tint) tiling.content := by
  refine (pick_of_beginsCell (fun e he => ?_) h).trans (clips_run_call _ _)
  cases e <;> first | rfl | simp [Event.kind] at he

/-- Where the clips of an operator come from that ends the path, if it can be carried out. It paints
a path or a shading, and the clip comes with the end of the path in both cases. -/
theorem narrows_of_ends {op : Operator} {operands : List Operand} {command : Command}
    (hi : s.instruction = .operate op operands)
    (hdecode : Command.decode op operands = .ok command) (hends : command.bearing.ends = true)
    (hcalls : ∀ k content, ¬ Calls ctx s.machine s.instruction k content) :
    s.Narrows ctx (s.outcome ctx).trace.clips := by
  have ho := outcome_of_decode ctx hi hdecode
  have hends' : s.instruction.bearing.ends = true :=
    (congrArg Bearing.ends (bearing_of_decode hi hdecode)).trans hends
  cases command with
  | paint painting =>
      refine narrows_of_endPath hends' (ho.trans (Action.run_paint_eq _ _ _)) ?_
      rw [Trace.clips_map_event, Action.clips_shown]
  | shade name =>
      rcases Action.run_shade_cases ctx name s.frame s.machine with
        ⟨fault, hrun⟩ | ⟨gs, region, hrun⟩
      · rw [ho, Action.perform, hrun]
        exact .nothing (fun _ => ⟨fault, by rw [ho, Action.perform, hrun]⟩) hcalls
      · exact narrows_of_endPath hends' (ho.trans hrun) rfl
  | construct step => cases step <;> cases hends
  | _ => cases hends

/-- Where the clips of a stride come from: the end of a path, or a program that is called. An
instruction that does neither is known by its kinds of events to narrow nothing. -/
theorem narrows (ctx : Context σ) (s : Stride σ) : s.Narrows ctx (s.outcome ctx).trace.clips := by
  by_cases hcalled : ∃ k content, Calls ctx s.machine s.instruction k content
  · obtain ⟨k, content, h | h⟩ := hcalled
    · rw [clips_of_beginsForm h]
      exact .form h (s.state.outlines_boxEntered _ _)
    · rw [clips_of_beginsCell h]
      exact .cell h
  · have hcalls (k : Machine σ) (content : Bytes) :
        ¬ Calls ctx s.machine s.instruction k content :=
      fun h => hcalled ⟨k, content, h⟩
    by_cases hends : s.instruction.bearing.ends = true
    · rcases hi : s.instruction with ⟨op, operands⟩ | _ | _
      · rcases hdecode : Command.decode op operands with fault | command
        · have ho : s.outcome ctx = ⟨.error fault, s.machine, []⟩ := by
            rw [outcome, hi, Action.step, hdecode]
            rfl
          rw [ho]
          exact .nothing (fun _ => ⟨fault, by rw [ho]⟩) hcalls
        · exact narrows_of_ends hi hdecode
            ((congrArg Bearing.ends (bearing_of_decode hi hdecode)).symm.trans hends) hcalls
      all_goals
        rw [hi] at hends
        cases hends
    · have hclips : (s.outcome ctx).trace.clips = [] :=
        Trace.clips_eq_nil (kind_mem_of_not_calls hcalls)
          (Instruction.clip_not_mem_kinds (Bool.not_eq_true _ ▸ hends))
      rw [hclips]
      exact .nothing (fun h => absurd h hends) hcalls

end Stride

/-! ### Executions -/

/-- A stride **defers clips**, after those that came before. -/
structure Stride.DefersClips (ctx : Context σ) (past : List (Stride σ)) (s : Stride σ) : Prop where
  /-- There is a path to paint if one was begun. -/
  path_iff : s.frame.path.isSome = true ↔ Begun past
  /-- The clip that is asked for is the one that was requested last. -/
  clip_iff (clip : Path Float) : s.frame.pendingClip = some clip ↔ Requested past clip
  /-- A painting operator paints first, and then narrows the clip to the one that is awaited. -/
  paints (painting : Painting) (h : s.instruction.bearing = .paints painting) :
    ∃ clip, s.frame.Awaits s.state clip ∧ s.PaintsThenClips ctx painting clip
  /-- All the clips of the stride have their reason. -/
  narrows : s.Narrows ctx (s.outcome ctx).trace.clips

/-- **Clips are deferred** at every stride of every execution, and those of its strides are all the
clips that an execution has. A clip that is awaited is known point by point: it is the image of the
path that was asked for, under the transform that is in force when the path ends. A sub-program has
the outline of its box besides, if it has one, and a page has nothing besides. -/
theorem clips_deferred (ctx : Context σ) (m : Machine σ) (content : Bytes) :
    (∀ past s later, strides ctx m content = past ++ s :: later → s.DefersClips ctx past) ∧
    clipsOf ctx m content =
      (strides ctx m content).flatMap (fun s => (s.outcome ctx).trace.clips) ∧
    (∀ transform scope,
      ((Action.subProgram (Action.call ctx) content transform none scope).run m).trace.clips =
        clipsCalled ctx (m.enter transform none scope) content) ∧
    (∀ transform box scope, ∃ outline, m.stack.current.Outlines transform box outline ∧
      ((Action.subProgram (Action.call ctx) content transform (some box) scope).run m).trace.clips =
        outline :: clipsCalled ctx (m.enter transform (some box) scope) content) ∧
    ∀ page : Page σ, ((Action.renderPage ctx page).run m).trace.clips =
      clipsOf ctx (m.turnTo page) page.content := by
  refine ⟨fun past s later h => ?_, ?_, fun transform scope => ?_, fun transform box scope => ?_,
    fun page => ?_⟩
  · have haccords := accords_of_strides h
    exact {
      path_iff := haccords.path
      clip_iff := haccords.clip
      paints := fun _ hpaints =>
        ⟨_, s.frame.awaits_awaited? s.state, Stride.paintsThenClips haccords.sound hpaints⟩
      narrows := s.narrows ctx }
  · rw [clipsOf, trace_execute]
    exact Trace.pick_flatMap _ _ _
  · exact clips_run_subProgram content transform none scope m
  · exact ⟨_, m.stack.current.outlines_boxEntered transform box,
      clips_run_subProgram content transform (some box) scope m⟩
  · rw [Action.run_renderPage]
    change Trace.clips (_ ++ _) = _
    rw [Trace.clips_append]
    exact List.append_nil _

end

namespace DeferredClip

/-- A context **without resources**. -/
def ctx : Context Nat where
  library := Directory.library #[]
  surface := fun _ => none

/-- A square that becomes the clip when it is stroked, **together with a line** that is added after
the clip is asked for, and under a transform that is set up after that. -/
def content : Bytes :=
  Utf8.encode "0 0 4 4 re W 2 0 0 2 0 0 cm 5 5 m 9 9 l S"

/-- The **strides** of the square and of the line. -/
def all : List (Stride Nat) :=
  strides ctx { scopes := [0] } content

/-- There are six strides, one for each operator. -/
theorem length_all : all.length = 6 := by
  decide +kernel

/-- The **stroke** is the last of them. -/
def stroke : Stride Nat :=
  all.get ⟨5, by rw [length_all]; decide⟩

/-- Five of them come before the stroke. -/
theorem all_eq : all = all.take 5 ++ [stroke] := by
  have hdrop : all.drop 6 = [] := List.drop_eq_nil_of_le (Nat.le_of_eq length_all)
  rw [← hdrop, stroke, List.get_eq_getElem, List.getElem_cons_drop, List.take_append_drop]

end DeferredClip

open DeferredClip in
/-- The line is stroked with the square, but the clip is the square alone, of twice the size that it
was drawn in: its corner at `(4, 4)` has gone to `(8, 8)`. -/
theorem clips_deferred_of_stroke :
    ∃ path clip image, stroke.frame.path = some path ∧ path.segments.length = 7 ∧
      Requested (all.take 5) clip ∧ clip.segments.length = 5 ∧
      image.IsImageOf stroke.state.ctm clip ∧
      (image.points == [⟨0.0, 0.0⟩, ⟨8.0, 0.0⟩, ⟨8.0, 8.0⟩, ⟨0.0, 8.0⟩]) = true ∧
      (stroke.outcome ctx).trace =
        [.event (.stroke stroke.state path), .event (.clip image)] ∧
      ((stroke.outcome ctx).machine.stack.current.clipBounds == some ⟨0.0, 0.0, 8.0, 8.0⟩) =
        true := by
  have hdefers := (clips_deferred ctx { scopes := [0] } content).1 _ _ _ all_eq
  have hpath : (stroke.frame.path.any fun p => p.segments.length == 7) = true := by decide +kernel
  have hclip : (stroke.frame.pendingClip.any fun p => p.segments.length == 5) = true := by
    decide +kernel
  obtain ⟨path, hpath, hpathLength⟩ := (Option.any_eq_true _ _).mp hpath
  obtain ⟨clip, hclip, hclipLength⟩ := (Option.any_eq_true _ _).mp hclip
  obtain ⟨awaited, hawaits, hpaints⟩ := hdefers.paints { stroke := true } (by decide +kernel)
  cases hawaits with
  | nothing h => cases hclip.symm.trans h
  | @clip kept image h himage =>
      obtain rfl : clip = kept := Option.some.inj (hclip.symm.trans h)
      have hpoints : (stroke.frame.pendingClip.any fun clip =>
          let m := stroke.state.ctm
          (clip.points.map fun p =>
            (⟨m.a * p.x + m.c * p.y + m.e, m.b * p.x + m.d * p.y + m.f⟩ : Point Float)) ==
              [⟨0.0, 0.0⟩, ⟨8.0, 0.0⟩, ⟨8.0, 8.0⟩, ⟨0.0, 8.0⟩]) = true := by
        decide +kernel
      rw [hclip, Option.any_some] at hpoints
      refine ⟨path, clip, image, hpath, eq_of_beq hpathLength, (hdefers.clip_iff clip).mp hclip,
        eq_of_beq hclipLength, himage, ?_, ?_, by decide +kernel⟩
      · rw [himage.points]
        exact hpoints
      · rw [hpaints.trace_eq, hpath]
        rfl

end ContentStream
