import ContentStream.Page
import ContentStream.Proofs.Likeness

/-!
# Runs and their clips

What an interpretation does to the clips of the states on the stack is seen in its events. A clip is
only ever narrowed, to a path that is announced; states are saved and restored with their clips; the
cell of a tile begins without one. Nothing else has to do with clips, and all that is shown comes
with the clip that is current. `ClipRun s es s'` says that such doings lead from the stack `s` to
`s'` under the events `es`.

The paths that are announced have bounds, since they begin with a move. That holds of the boxes of
forms, and of the paths that a program constructs: a segment that finds no path begins one. What a
frame remembers of its program is *sound* in this sense.

## Main definitions

* `Path.Opened`: a path begins with a move.
* `Frame.Sound`: the paths of a frame are opened, and a text object that is not open is closed.
* `Clip.of`: the clip of a graphics state.
* `ClipRun`: the runs of a stack, as far as clips are concerned.

## Main results

* `Construction.opened_apply`: construction steps begin paths with a move.
* `Action.clips_perform`: commands are such runs, and keep their frame sound.
* `Action.clips_execute`: so are content streams.
-/

namespace ContentStream

variable {σ α β : Type}

/-! ### Paths that are opened -/

/-- A path is **opened** if it begins with a move. -/
def Path.Opened (p : Path Float) : Prop :=
  ∃ start rest, p.segments = .move start :: rest

namespace Path.Opened

variable {p : Path Float}

/-- Segments that are added at the end leave the move at the beginning of a path where it is. -/
theorem extend (h : p.Opened) (more : List (Segment Float)) : (p.extend more).Opened := by
  obtain ⟨start, rest, h⟩ := h
  exact ⟨start, rest ++ more, by rw [Path.extend, h, List.cons_append]⟩

/-- The image of a path that begins with a move does so too, at the image of the first point. -/
theorem transform (h : p.Opened) (m : Matrix Float) : (p.transform m).Opened := by
  obtain ⟨start, rest, h⟩ := h
  exact ⟨m.apply start, rest.map (Segment.transform m), by rw [Path.transform, h]; rfl⟩

/-- Whether a path is opened is a matter of its segments. Painters and clipping operators, which
change the winding rule only, do not affect it. -/
theorem withRule (h : p.Opened) (rule : Winding) : Path.Opened { p with winding := rule } :=
  h

/-- A move that is added to a path without segments opens it. -/
theorem push_move (winding : Winding) (start : Point Float) :
    Path.Opened (Path.push { segments := [], winding } (.move start)) :=
  ⟨start, [], rfl⟩

/-- The outline of a box begins with a move to its first corner. So the clips of forms are
opened. -/
theorem ofRect (r : Rect Float) : (Path.ofRect r).Opened :=
  ⟨_, _, rfl⟩

/-- A path that is opened has at least the point that it begins with, and therefore has bounds. This
is why clipping to it always narrows the bounds of the clip. -/
theorem exists_bounds (h : p.Opened) : ∃ bounds, p.bounds? = some bounds := by
  obtain ⟨start, rest, h⟩ := h
  have hpoints : p.points = start :: rest.flatMap Segment.points := by
    rw [Path.points, h]
    rfl
  rw [Path.bounds?, hpoints]
  exact ⟨_, rfl⟩

end Path.Opened

namespace Construction

variable {path : Option (Path Float)} (hpath : ∀ p, path = some p → p.Opened)

include hpath

/-- A segment that continues a path finds one that is opened: either the path was begun before, and
is opened by assumption, or it is begun now. -/
theorem opened_begun (point : Option (Point Float)) (start : Point Float) :
    (begun path point start).Opened := by
  cases path with
  | none =>
      have hempty : (Path.empty : Path Float).isEmpty = true := rfl
      simp only [begun, Option.getD_none, hempty, Bool.or_true, if_true]
      exact .push_move .nonzero start
  | some p =>
      have hp : p.Opened := hpath p rfl
      simp only [begun, Option.getD_some]
      split
      · exact hp.extend _
      · exact hp

/-- A move opens the path if there was none, and otherwise is added to one that is opened
already. -/
theorem opened_move (start : Point Float) :
    ((path.getD Path.empty).push (.move start)).Opened := by
  cases path with
  | none => exact .push_move .nonzero start
  | some p => exact (hpath p rfl).extend _

/-- Every construction step leaves a path that begins with a move, or none. A rectangle brings a
move of its own, and closing adds a segment only to a path that is there. -/
theorem opened_apply (point : Option (Point Float)) (step : Construction) :
    ∀ p, (step.apply path point).1 = some p → p.Opened := by
  intro p hp
  cases step with
  | move start =>
      obtain rfl := Option.some.inj hp
      exact opened_move hpath start
  | line q | curve c₁ c₂ q | curveFromCurrent c₂ q | curveToEnd c₁ q =>
      obtain rfl := Option.some.inj hp
      exact (opened_begun hpath point _).extend _
  | close =>
      cases path with
      | none => cases hp
      | some q =>
          obtain rfl := Option.some.inj hp
          exact (hpath q rfl).extend _
  | rectangle x y w h =>
      obtain rfl := Option.some.inj hp
      cases path with
      | none => exact ⟨_, _, rfl⟩
      | some q => exact (hpath q rfl).extend _

end Construction

/-! ### Frames -/

/-- A frame is **sound** if its paths are opened, and if its text object is closed whenever it is
not open: positions of text do not outlive the text object. -/
structure Frame.Sound (frame : Frame) : Prop where
  path : ∀ p, frame.path = some p → p.Opened
  pendingClip : ∀ p, frame.pendingClip = some p → p.Opened
  text : frame.text.active = false → frame.text = TextObject.closed

/-- The frame that a program starts with is sound, since there is nothing in it yet. -/
theorem Frame.sound_fresh (base : Nat) : Frame.Sound { base } where
  path _ hp := by cases hp
  pendingClip _ hp := by cases hp
  text _ := rfl

namespace Frame.Sound

variable {frame : Frame} (h : frame.Sound)

include h

/-- A frame with another path is sound if that path is opened. -/
theorem setPath {path : Option (Path Float)} (hpath : ∀ p, path = some p → p.Opened) :
    Frame.Sound { frame with path } :=
  { h with path := hpath }

/-- When a path ends, the frame has neither a path nor a clip that is asked for, so that nothing is
left to be opened. -/
theorem endPath : Frame.Sound { frame with path := none, pendingClip := none } where
  path _ hp := by cases hp
  pendingClip _ hp := by cases hp
  text := h.text

/-- Asking for a clip keeps the path of the frame, with another rule; it is opened as the path
is. -/
theorem requestClip (rule : Winding) : Frame.Sound
    { frame with pendingClip := frame.path.map fun path => { path with winding := rule } } where
  path := h.path
  pendingClip p hp := by
    obtain ⟨path, hpath, rfl⟩ := Option.map_eq_some_iff.mp hp
    exact (h.path path hpath).withRule rule
  text := h.text

/-- A frame with another text object is sound if that object is closed whenever it is not open. -/
theorem setText {text : TextObject} (htext : text.active = false → text = TextObject.closed) :
    Frame.Sound { frame with text } :=
  { h with text := htext }

/-- The count of compatibility sections has nothing to do with paths or text. -/
theorem setCompatibility (n : Nat) : Frame.Sound { frame with compatibility := n } where
  path := h.path
  pendingClip := h.pendingClip
  text := h.text

end Frame.Sound

/-! ### Clips -/

/-- A **clip**: the latest clip path, and the intersection of the bounds of all so far. -/
structure Clip where
  path : Option (Path Float) := none
  bounds : Option (Rect Float) := none

/-- The **clip of a graphics state**: what the state says of clips, and nothing besides. -/
def Clip.of (gs : GState) : Clip :=
  ⟨gs.clip, gs.clipBounds⟩

namespace Clip

/-- No setting of a parameter touches the clip, whatever becomes of the parameter. -/
theorem of_apply (setting : Setting) (gs : GState) : of (setting.apply gs) = of gs := by
  cases setting with
  | lineCap code => simp only [Setting.apply]; cases LineCap.ofCode? code <;> rfl
  | lineJoin code => simp only [Setting.apply]; cases LineJoin.ofCode? code <;> rfl
  | renderMode code => simp only [Setting.apply]; cases RenderMode.ofCode? code <;> rfl
  | _ => rfl

/-- A change of ink does not touch the clip, on either side. -/
theorem of_setInk (gs : GState) (side : Side) (ink : Ink) : of (gs.setInk side ink) = of gs := by
  cases side <;> rfl

/-- The state in which a cell begins is a default state but for its inks, and has no clip. What
clips the caller has are not seen inside of the cell. -/
theorem of_initialState (tiling : Tiling σ) (tint : Option Tint) :
    of (tiling.initialState tint) = {} := by
  unfold Tiling.initialState
  split <;> rfl

end Clip

/-- An event **shows something under a clip**, if it comes with a state: it paints, or it reports
what has nothing to do with clips. -/
inductive Event.ShownUnder (c : Clip) : Event → Prop
  | fill {gs : GState} {path : Path Float} (h : Clip.of gs = c) : ShownUnder c (.fill gs path)
  | stroke {gs : GState} {path : Path Float} (h : Clip.of gs = c) : ShownUnder c (.stroke gs path)
  | image {gs : GState} {image : Image} {transform : Matrix Float} (h : Clip.of gs = c) :
      ShownUnder c (.image gs image transform)
  | glyph {gs : GState} {glyph : Glyph} {transform : Matrix Float} (h : Clip.of gs = c) :
      ShownUnder c (.glyph gs glyph transform)
  | unknownOperator (spelling : String) : ShownUnder c (.unknownOperator spelling)
  | inlineImage (scope : String) (dict : Dict) (data : Bytes) :
      ShownUnder c (.inlineImage scope dict data)

/-- A **run of a stack**, as far as clips are concerned. The clip is narrowed only under an event
that says so; `change` stands for all that is done to the current state besides. The run of a cell
begins on a stack of its own, and leaves the one outside as it was. -/
inductive ClipRun : GStack → List Event → GStack → Prop
  | stay {s : GStack} : ClipRun s [] s
  | trans {s s' s'' : GStack} {es es' : List Event} :
      ClipRun s es s' → ClipRun s' es' s'' → ClipRun s (es ++ es') s''
  | change {s : GStack} {f : GState → GState} (hf : ∀ gs, Clip.of (f gs) = Clip.of gs) :
      ClipRun s [] (s.modify f)
  | narrow {s : GStack} {path : Path Float} (hpath : path.Opened) :
      ClipRun s [.clip path] (s.modify fun gs => gs.narrow path)
  | shown {s : GStack} {e : Event} (he : e.ShownUnder (Clip.of s.current)) : ClipRun s [e] s
  | save {s : GStack} : ClipRun s [.save s.current] s.save
  | restore {s s' : GStack} (hs : s.restore? = some s') : ClipRun s [.restore s'.current] s'
  | cell {s s' : GStack} {gs : GState} {es : List Event} {bbox : Rect Float} {matrix : Matrix Float}
      (hfresh : Clip.of gs = {}) :
      ClipRun ⟨gs, []⟩ es s' → ClipRun s (.beginTile bbox matrix :: (es ++ [.endTile])) s

/-- An outcome is a run of a stack **as far as clips are concerned**. If there is a result, it
satisfies `Q`, by which soundness of frames is handed on from one action to the next. -/
structure Outcome.Clips (s : GStack) (Q : α → Prop) (o : Outcome σ α) : Prop where
  run : ClipRun s o.events o.machine.stack
  result : ∀ a, o.result = .ok a → Q a

namespace Outcome.Clips

variable {s : GStack} {Q : α → Prop} {m : Machine σ}

/-- If nothing is asked of the result, an outcome is such a run already by its events and its
stack. -/
theorem of_run {o : Outcome σ α} (h : ClipRun s o.events o.machine.stack) :
    o.Clips s Action.anything :=
  ⟨h, fun _ _ => trivial⟩

/-- An action that only gives a value does nothing to the stack. -/
theorem pure {a : α} (ha : Q a) : ((pure a : Action σ α).run m).Clips m.stack Q := by
  refine ⟨.stay, fun b hb => ?_⟩
  obtain rfl := Except.ok.inj hb
  exact ha

/-- An action that fails at once does nothing to the stack, and has no result of which anything
could be asked. -/
theorem fail (fault : Fault) : ((Action.fail fault : Action σ α).run m).Clips m.stack Q :=
  ⟨.stay, fun _ hb => by cases hb⟩

/-- Looking something up does nothing to the stack, whether it is found or not. -/
theorem ofExcept (x : Except Fault α) :
    ((Action.ofExcept x).run m).Clips m.stack Action.anything :=
  .of_run .stay

/-- Sequencing puts runs together. If the first action fails, its own run is all that there is; if
not, the second one goes on from the stack that it finds, with a result that satisfies `P`. -/
theorem bind {P : α → Prop} {Q : β → Prop} {x : Action σ α} {f : α → Action σ β}
    (hx : (x.run m).Clips m.stack P)
    (hf : ∀ a n, P a → ((f a).run n).Clips n.stack Q) : ((x >>= f).run m).Clips m.stack Q := by
  rw [Action.run_bind]
  rcases h : x.run m with ⟨fault | a, n, t⟩
  · rw [h] at hx
    exact ⟨hx.run, fun _ hb => by cases hb⟩
  · rw [h] at hx
    have hrest := hf a n (hx.result a rfl)
    refine ⟨?_, hrest.result⟩
    rw [Outcome.events, trace_after, Trace.events_append]
    exact hx.run.trans hrest.run

/-- Sequencing when nothing is known, or needed, of the result of the first action. -/
theorem andThen {Q : β → Prop} {x : Action σ α} {f : α → Action σ β}
    (hx : (x.run m).Clips m.stack Action.anything)
    (hf : ∀ a n, ((f a).run n).Clips n.stack Q) : ((x >>= f).run m).Clips m.stack Q :=
  hx.bind fun a n _ => hf a n

/-- To catch a fault does not undo what was done before it, so that the run is the same. -/
theorem attempt {x : Action σ α} (hx : (x.run m).Clips m.stack Q) :
    (x.attempt.run m).Clips m.stack Action.anything :=
  .of_run hx.run

/-- Looking at the current state does nothing to the stack. -/
theorem state : ((Action.state : Action σ GState).run m).Clips m.stack Action.anything :=
  .of_run .stay

/-- Looking at the machine does nothing to the stack. -/
theorem machine : ((Action.machine : Action σ _).run m).Clips m.stack Action.anything :=
  .of_run .stay

/-- Changes of a machine that leave its stack as it is do not matter: scopes, the depth, the forms
that are running and the tiles that are kept are no part of the run. -/
theorem modify {f : Machine σ → Machine σ} (hf : ∀ n, (f n).stack = n.stack) :
    ((Action.modify f).run m).Clips m.stack Action.anything := by
  refine .of_run ?_
  rw [Action.run_modify, hf]
  exact .stay

/-- A change of the current state is part of a run if it leaves the clip alone. -/
theorem modifyState {f : GState → GState} (hf : ∀ gs, Clip.of (f gs) = Clip.of gs) :
    ((Action.modifyState f).run m).Clips m.stack Action.anything :=
  .of_run (.change hf)

/-- An event is part of a run if it comes with the current clip, or with no state at all. -/
theorem emit {e : Event} (he : e.ShownUnder (Clip.of m.stack.current)) :
    ((Action.emit e).run m).Clips m.stack Action.anything :=
  .of_run (.shown he)

/-- So are several events, one after the other, since no event changes the state. -/
theorem emitAll {es : List Event} (hes : ∀ e ∈ es, e.ShownUnder (Clip.of m.stack.current)) :
    ((Action.emitAll es).run m).Clips m.stack Action.anything := by
  refine of_run ?_
  induction es with
  | nil => exact .stay
  | cons e es ih =>
      have hrest := ih fun e' he' => hes e' (List.mem_cons_of_mem _ he')
      exact .trans (.shown (hes e List.mem_cons_self)) hrest

end Outcome.Clips

/-! ### The interpreter -/

namespace Action

variable {ctx : Context σ} {m : Machine σ}

/-- To restore is one step of a run if there is something to restore, and does nothing otherwise. -/
theorem clips_restore : ((restore : Action σ Unit).run m).Clips m.stack anything := by
  rcases hs : m.stack.restore? with _ | stack
  · rw [run_restore_of_none hs]
    exact .of_run .stay
  · rw [run_restore hs]
    exact .of_run (.restore hs)

/-- To restore several times over is to restore once, and then so many times less one. -/
theorem clips_restoreAll (n : Nat) :
    ((restoreAll n : Action σ Unit).run m).Clips m.stack anything := by
  induction n generalizing m with
  | zero => exact .pure trivial
  | succ n ih => exact clips_restore.andThen fun _ _ => ih

/-- Unwinding to a depth is restoring as often as there are states above it. -/
theorem clips_unwind (depth : Nat) :
    ((unwind depth : Action σ Unit).run m).Clips m.stack anything :=
  clips_restoreAll (m.stack.depth - depth)

/-- The operator that restores fails if its program has saved nothing, and restores otherwise. -/
theorem clips_restoreOwn (frame : Frame) :
    ((restoreOwn frame : Action σ Unit).run m).Clips m.stack anything := by
  rw [restoreOwn, run_machine_bind]
  split
  · exact .fail _
  · exact clips_restore

/-! ### Painting and writing -/

/-- To narrow the clip is one step of a run, announced under the transform that is in force. The
path has to be opened, for its image to have bounds. -/
theorem clips_narrowClip {path : Path Float} (hpath : path.Opened) :
    ((narrowClip path : Action σ Unit).run m).Clips m.stack anything :=
  .of_run (.narrow (hpath.transform m.stack.current.ctm))

/-- A construction step touches the current point, which is no part of a clip. Its frame stays sound
by `Construction.opened_apply`. -/
theorem clips_construct {frame : Frame} (hframe : frame.Sound) (step : Construction) :
    ((construct step frame : Action σ Frame).run m).Clips m.stack Frame.Sound := by
  rw [construct, run_state_bind]
  exact .andThen (.modifyState fun _ => rfl) fun _ _ =>
    .pure (hframe.setPath (Construction.opened_apply hframe.path _ step))

/-- To end a path narrows the clip if this was asked for. The path that is kept in the frame for
that is opened because the frame is sound. -/
theorem clips_endPath {frame : Frame} (hframe : frame.Sound) :
    ((endPath frame : Action σ Frame).run m).Clips m.stack Frame.Sound := by
  have hend (n : Machine σ) : ((do
      modifyState fun gs => { gs with point := none }
      pure { frame with path := none, pendingClip := none } : Action σ Frame).run n).Clips
        n.stack Frame.Sound :=
    .andThen (.modifyState fun _ => rfl) fun _ _ => .pure hframe.endPath
  unfold endPath
  rcases hclip : frame.pendingClip with _ | clip
  · exact hend m
  · exact (clips_narrowClip (hframe.pendingClip clip hclip)).andThen fun _ n => hend n

/-- All that is shown when a path is painted comes with the state it is painted in, and so with the
clip as it was before the path ends. -/
theorem shownUnder_of_mem_paintEvents {painting : Painting} {gs : GState} {path : Path Float}
    {e : Event} (he : e ∈ paintEvents painting gs path) : e.ShownUnder (Clip.of gs) := by
  obtain ⟨close, _ | rule, _ | _⟩ := painting
  · cases he
  · obtain rfl := List.mem_singleton.mp he
    exact .stroke rfl
  · obtain rfl := List.mem_singleton.mp he
    exact .fill rfl
  · obtain rfl | he := List.mem_cons.mp he
    · exact .fill rfl
    · obtain rfl := List.mem_singleton.mp he
      exact .stroke rfl

/-- To paint is to show the path under the clip that there is, and then to end it. What is shown
comes before the clip is narrowed, if one is awaited. -/
theorem clips_paint {frame : Frame} (hframe : frame.Sound) (painting : Painting) :
    ((paint painting frame : Action σ Frame).run m).Clips m.stack Frame.Sound := by
  unfold paint
  cases frame.path with
  | none => exact clips_endPath hframe
  | some path =>
      by_cases hempty : path.isEmpty = true
      · simp only [hempty, if_true]
        exact clips_endPath hframe
      · simp only [hempty, Bool.false_eq_true, if_false, run_state_bind]
        exact .andThen (.emitAll fun _ => shownUnder_of_mem_paintEvents) fun _ _ =>
          clips_endPath hframe

/-- A shading is shown in the current state but for its ink, which is no part of the clip; then the
path ends. If it cannot be painted, nothing is done at all. -/
theorem clips_shade {frame : Frame} (hframe : frame.Sound) (name : String) :
    ((shade ctx name frame).run m).Clips m.stack Frame.Sound := by
  unfold shade
  rw [run_machine_bind]
  cases ctx.library.findShading m.scopes name with
  | error fault => exact .fail fault
  | ok shading =>
      rw [run_ok_bind]
      cases shadedRegion? m.stack.current.ctm m.stack.current.clip m.pageBounds shading.bbox with
      | none => exact .fail _
      | some region =>
          exact .andThen (.emit (.fill (Clip.of_setInk _ _ _))) fun _ _ => clips_endPath hframe

/-- Placing glyphs moves the text object along, but does not close it. -/
theorem active_place (t : TextObject) (text : TextState) (glyphs : List Glyph) :
    (t.place text glyphs).2.active = t.active := by
  induction glyphs generalizing t with
  | nil => rfl
  | cons g gs ih => exact ih _

/-- Showing text is a sequence of events that come with the current state. The text object is as
open afterwards as it was before. -/
theorem clips_showText (bytes : Bytes) (t : TextObject) :
    ((showText bytes t : Action σ TextObject).run m).Clips m.stack
      fun t' => t'.active = t.active := by
  unfold showText
  rw [run_state_bind]
  rcases m.stack.current.text.font with _ | font
  · exact .pure rfl
  · refine .andThen (.emitAll fun e he => ?_) fun _ _ => .pure (active_place t _ _)
    obtain ⟨placed, -, rfl⟩ := List.mem_map.mp he
    exact .glyph rfl

/-- The items of an array are strings to be shown and numbers to move by; the induction is on the
items, and the text object goes through it as open as it was. -/
theorem clips_showItems (items : List Operand) (t : TextObject) :
    ((showItems items t : Action σ TextObject).run m).Clips m.stack
      fun t' => t'.active = t.active := by
  induction items generalizing m t with
  | nil => exact .pure rfl
  | cons item items ih =>
      cases item with
      | string bytes =>
          refine (clips_showText bytes t).bind fun t' n ht => ?_
          exact ht ▸ ih t'
      | number amount => exact .andThen .state fun gs n => ih (t.adjust amount.value gs.text)
      | _ => exact ih t

/-- To start the next line moves the text object, and looks at the state for the leading only. -/
theorem clips_nextLine (t : TextObject) :
    ((nextLine t : Action σ TextObject).run m).Clips m.stack fun t' => t'.active = t.active :=
  .andThen .state fun _ _ => .pure rfl

/-- Every writing step shows strings, sets parameters of text and moves the text object, and in no
other way has to do with the state. -/
theorem clips_writeOpen (step : Writing) (t : TextObject) :
    ((writeOpen step t : Action σ TextObject).run m).Clips m.stack
      fun t' => t'.active = t.active := by
  have hset {n : Machine σ} (setting : Setting) :
      ((modifyState fun gs => setting.apply gs).run n).Clips n.stack anything :=
    .modifyState (Clip.of_apply setting)
  have hnext {n : Machine σ} (bytes : Bytes) : ((do
      showText bytes (← nextLine t) : Action σ TextObject).run n).Clips n.stack
        fun t' => t'.active = t.active :=
    (clips_nextLine t).bind fun t' _ ht => ht ▸ clips_showText bytes t'
  cases step with
  | moveLine tx ty => exact .pure rfl
  | moveLineLeading tx ty => exact (hset (.leading (-ty))).andThen fun _ _ => .pure rfl
  | setMatrix matrix => exact .pure rfl
  | nextLine => exact clips_nextLine t
  | write bytes => exact clips_showText bytes t
  | writeAdjusted items => exact clips_showItems items t
  | nextLineWrite bytes => exact hnext bytes
  | nextLineWriteSpaced wordSpacing charSpacing bytes =>
      exact (hset (.wordSpacing wordSpacing)).andThen fun _ _ =>
        (hset (.charSpacing charSpacing)).andThen fun _ _ => hnext bytes

/-- Writing does nothing if no text object is open, and else is as `clips_writeOpen` says. The text
object is closed in the frame afterwards only if it was so before. -/
theorem clips_write {frame : Frame} (hframe : frame.Sound) (step : Writing) :
    ((write step frame : Action σ Frame).run m).Clips m.stack Frame.Sound := by
  unfold write
  by_cases hactive : frame.text.active = true
  · simp only [hactive, if_true]
    refine (clips_writeOpen step frame.text).bind fun t n ht => .pure (hframe.setText ?_)
    rw [ht, hactive]
    exact fun hclosed => by cases hclosed
  · simp only [hactive]
    exact .pure hframe

/-! ### Looking things up -/

/-- To select a font looks it up, and sets a parameter of text. -/
theorem clips_selectFont (name : String) (size : Float) :
    ((selectFont ctx name size).run m).Clips m.stack anything :=
  .andThen .machine fun _ _ => .andThen (.ofExcept _) fun _ _ => .modifyState fun _ => rfl

/-- Parameters of a dictionary are set one after the other. None is a clip. -/
theorem clips_applyParameters (parameters : List Parameter) :
    ((applyParameters ctx parameters).run m).Clips m.stack anything := by
  induction parameters generalizing m with
  | nil => exact .pure trivial
  | cons parameter rest ih =>
      cases parameter with
      | set setting => exact .andThen (.modifyState (Clip.of_apply setting)) fun _ _ => ih
      | font name size => exact (clips_selectFont name size).andThen fun _ _ => ih

/-- An image is one event, in the current state. -/
theorem clips_drawImage (image : Image) :
    ((drawImage image : Action σ Unit).run m).Clips m.stack anything := by
  rw [drawImage, run_state_bind]
  exact .emit (.image rfl)

/-- The request for an inline image comes with no state; the image is then drawn like any other.
Without a scope there is nobody to ask, and only the drawing is left. -/
theorem clips_drawInlineImage (dict : Dict) (data : Bytes) :
    ((drawInlineImage ctx dict data).run m).Clips m.stack anything := by
  have hdraw (n : Machine σ) : ((do
      drawImage (← ofExcept (ctx.library.inlineImage m.scopes dict data)) : Action σ Unit).run
        n).Clips n.stack anything :=
    .andThen (.ofExcept _) fun image _ => clips_drawImage image
  unfold drawInlineImage
  rw [run_machine_bind]
  generalize m.scopes = scopes at hdraw ⊢
  cases scopes with
  | nil => exact hdraw m
  | cons scope scopes => exact .andThen (.emit (.inlineImage _ dict data)) fun _ n => hdraw n

/-- To select a color space changes an ink, whether the space is predefined or looked up. -/
theorem clips_selectSpace (side : Side) (name : String) :
    ((selectSpace ctx side name).run m).Clips m.stack anything := by
  rw [run_selectSpace]
  cases ctx.library.spaceOf m.scopes name with
  | error fault => exact .fail fault
  | ok space => exact .modifyState fun gs => Clip.of_setInk gs side _

/-! ### Nested programs -/

/-- A scope is pushed and popped around an action, which leaves the stack to the action. -/
theorem clips_within {Q : α → Prop} {x : Action σ α} (scope : Option σ)
    (hx : ∀ n : Machine σ, (x.run n).Clips n.stack Q) :
    ((within scope x).run m).Clips m.stack anything :=
  .andThen .machine fun _ _ => .andThen (.modify fun _ => rfl) fun _ n =>
    .andThen (hx n).attempt fun _ _ => .andThen (.modify fun _ => rfl) fun _ _ => .ofExcept _

/-- A program one level further down is on the same stack. Where there are no more levels, the
action is not begun. -/
theorem clips_deeper {Q : α → Prop} {x : Action σ α}
    (hx : ∀ n : Machine σ, (x.run n).Clips n.stack Q) :
    ((deeper x).run m).Clips m.stack anything :=
  .andThen (.modify fun _ => rfl) fun _ n => .andThen (hx n).attempt fun _ _ =>
    .andThen (.modify fun _ => rfl) fun _ _ => .ofExcept _

section Calling

variable {call : Bytes → Action σ Unit}
  (hcall : ∀ content (n : Machine σ), ((call content).run n).Clips n.stack anything)

include hcall

/-- A sub-program saves the state, may set up a transform, narrows the clip to its box, runs its
content and unwinds. Each of these is a run of this kind, given that the content is. -/
theorem clips_subProgram (content : Bytes) (transform : Matrix Float) (clip : Option (Rect Float))
    (scope : Option σ) :
    ((subProgram call content transform clip scope).run m).Clips m.stack anything := by
  unfold subProgram
  rw [run_machine_bind]
  refine .andThen (.of_run .save) fun _ _ => .andThen (.modifyState fun _ => rfl) fun _ n => ?_
  have hrun (n : Machine σ) : ((do
      let result ← attempt (within scope (call content))
      unwind m.stack.depth
      ofExcept result : Action σ Unit).run n).Clips n.stack anything :=
    .andThen (clips_within scope (hcall content)).attempt fun _ _ =>
      (clips_unwind _).andThen fun _ _ => .ofExcept _
  cases clip with
  | none => exact hrun n
  | some box => exact (clips_narrowClip (.ofRect box)).andThen fun _ n => hrun n

/-- A form is a sub-program with a box, if it is not running already. -/
theorem clips_runForm (form : Form σ) : ((runForm call form).run m).Clips m.stack anything := by
  unfold runForm
  rw [run_machine_bind]
  split
  · exact .pure trivial
  · exact .andThen (.modify fun _ => rfl) fun _ _ =>
      .andThen (clips_subProgram hcall _ _ _ _).attempt fun _ _ => .modify fun _ => rfl

/-- The cell of a tile begins without a clip, on a stack of its own, and leaves the stack of the
caller alone. A tile that is kept is found without any run. -/
theorem clips_tile (tiling : Tiling σ) (tint : Option Tint) :
    ((tile ctx call tiling tint).run m).Clips m.stack anything := by
  rcases hkey : m.tiles.lookup (ctx.config.tileSharing.key tiling tint) with _ | tile
  · have hcell (n : Machine σ) : ((do
        let _ ← attempt (within tiling.scope (call tiling.content))
        unwind 1 : Action σ Unit).run n).Clips n.stack anything :=
      .andThen (clips_within tiling.scope (hcall tiling.content)).attempt fun _ _ => clips_unwind 1
    rw [run_tile_of_none m hkey (run_renderCell m ctx call tiling tint) rfl]
    -- The cell runs on a stack of its own, so its run is one of that stack.
    refine .of_run ?_
    have hrun := (hcell { m with stack := ⟨tiling.initialState tint, []⟩ }).run
    simp only [Outcome.events, Trace.events_cons_note, List.cons_append, Trace.events_cons_event,
      Trace.events_append, Trace.events_nil, List.append_nil]
    exact .cell (Clip.of_initialState tiling tint) hrun
  · rw [run_tile_of_some m hkey]
    exact .of_run .stay

/-- A color may need a tile, by `clips_tile`; for the rest it is a change of ink. -/
theorem clips_selectColor (side : Side) (op : String) (operands : List Operand) :
    ((selectColor ctx call side op operands).run m).Clips m.stack anything := by
  rw [run_selectColor]
  rcases ctx.library.select m.scopes op (m.stack.current.ink side).space operands with
    fault | paint | ⟨tiling, tint⟩
  · exact .fail fault
  · exact .modifyState fun gs => Clip.of_setInk gs side _
  · exact (clips_tile hcall tiling tint).andThen fun _ _ =>
      .modifyState fun gs => Clip.of_setInk gs side _

/-- To invoke a name is to run a form or to draw an image, whichever the name stands for. -/
theorem clips_invoke (name : String) : ((invoke ctx call name).run m).Clips m.stack anything := by
  rw [run_invoke]
  rcases ctx.library.findXObject m.scopes name with fault | image | form
  · exact .fail fault
  · exact clips_drawImage image
  · exact clips_runForm hcall form

/-! ### Programs -/

/-- Every command is a run of this kind and keeps its frame sound. Of the frame nothing changes but
the part that the command is about, so that one law of `Frame.Sound` is enough for each. -/
theorem clips_perform {frame : Frame} (hframe : frame.Sound) (command : Command) :
    ((perform ctx call frame command).run m).Clips m.stack Frame.Sound := by
  have hsame {n : Machine σ} : ((pure frame : Action σ Frame).run n).Clips n.stack Frame.Sound :=
    .pure hframe
  cases command with
  | save => exact .andThen (.of_run .save) fun _ _ => hsame
  | restore => exact (clips_restoreOwn frame).andThen fun _ _ => hsame
  | set setting => exact .andThen (.modifyState (Clip.of_apply setting)) fun _ _ => hsame
  | font name size => exact (clips_selectFont name size).andThen fun _ _ => hsame
  | extGState name =>
      exact .andThen .machine fun _ _ => .andThen (.ofExcept _) fun _ _ =>
        (clips_applyParameters _).andThen fun _ _ => hsame
  | construct step => exact clips_construct hframe step
  | paint painting => exact clips_paint hframe painting
  | clip rule => exact .pure (hframe.requestClip rule)
  | beginText => exact .andThen .state fun _ _ => .pure (hframe.setText fun h => by cases h)
  | endText => exact .pure (hframe.setText fun _ => rfl)
  | write step => exact clips_write hframe step
  | space side name => exact (clips_selectSpace side name).andThen fun _ _ => hsame
  | color side op operands =>
      exact (clips_selectColor hcall side op operands).andThen fun _ _ => hsame
  | device side space color =>
      exact .andThen (.modifyState fun gs => Clip.of_setInk gs side _) fun _ _ => hsame
  | invoke name => exact (clips_invoke hcall name).andThen fun _ _ => hsame
  | shade name => exact clips_shade hframe name
  | beginCompatibility => exact .pure (hframe.setCompatibility _)
  | endCompatibility =>
      simp only [perform]
      cases frame.compatibility with
      | zero => exact .fail _
      | succ n => exact .pure (hframe.setCompatibility n)
  | ignore => exact hsame
  | unknown spelling => exact .andThen (.emit (.unknownOperator spelling)) fun _ _ => hsame

/-- Instructions are commands, inline images, or inline images that are misspelled and fail. -/
theorem clips_step {frame : Frame} (hframe : frame.Sound) (instruction : Instruction) :
    ((step ctx call frame instruction).run m).Clips m.stack Frame.Sound := by
  cases instruction with
  | operate op operands =>
      exact .andThen (.ofExcept _) fun command _ => clips_perform hcall hframe command
  | drawImage dict data =>
      exact (clips_drawInlineImage dict data).andThen fun _ _ => .pure hframe
  | misspelled flaw => exact .fail _

/-- So are instructions one after the other, each with the frame that the one before has left. -/
theorem clips_steps {frame : Frame} (hframe : frame.Sound) (instructions : List Instruction) :
    ((steps ctx call frame instructions).run m).Clips m.stack Frame.Sound := by
  induction instructions generalizing m frame with
  | nil => exact .pure hframe
  | cons i is ih => exact (clips_step hcall hframe i).bind fun _ _ hframe' => ih hframe'

/-- Content that is decoded and tokenized is run with a fresh frame. Content that cannot be does
nothing. -/
theorem clips_runContent (content : Bytes) :
    ((runContent ctx call content).run m).Clips m.stack anything := by
  rw [run_runContent]
  cases ctx.program? m.scopes content with
  | error fault => exact .fail fault
  | ok p => exact .of_run (clips_steps hcall (Frame.sound_fresh _) p.instructions).run

end Calling

/-- Nested programs are runs of this kind however many levels are left, by induction on the levels:
with none left they fail at once. -/
theorem clips_callWith (n : Nat) (content : Bytes) :
    ((callWith ctx n content).run m).Clips m.stack anything := by
  induction n generalizing m content with
  | zero => exact .fail _
  | succ n ih => exact clips_deeper fun _ => clips_runContent (fun _ _ => ih _) content

/-- In particular those that the configuration allows are. -/
theorem clips_call (content : Bytes) : ((call ctx content).run m).Clips m.stack anything :=
  clips_callWith (ctx.config.maxDepth - m.depth) content

/-- A content stream has nothing else to do with clips, whatever is in it: its events tell all that
happens to the clips on the stack. -/
theorem clips_execute (content : Bytes) : ((execute ctx content).run m).Clips m.stack anything :=
  clips_runContent (fun _ _ => clips_call _) content

end Action

end ContentStream
