import ContentStream.Proofs.Clipping
import ContentStream.Proofs.Faults
import ContentStream.Proofs.Origins

/-!
# Shapes

Whether a segment that is added to a path begins a subpath is decided by two things that are kept in
different places, the path of the frame and the current point of the graphics state, and these
change independently of each other. Whatever comes of that, a device never sees a path that does not
begin with a move, and never a clip path without its bounds.

What is said here of a device holds of an interpreter for as long as it is in use. It may be asked
for anything in any order, a request may end in a fault, and the next one begins with what that has
left behind. The states on the stack are *sound* all the time, which is an invariant of each
instruction and is handed on to every program that an instruction calls.

## Main definitions

* `Clip.Sound`, `GStack.Sound`: clips have paths that begin with a move, and bounds.
* `Event.Sound`: so has all that comes with an event.
* `Request`: what an interpreter can be asked for, with `Action.serve`.
* `Request.Visits`: the machines that there are while a request is served.

## Main results

* `Clip.sound_of_clipRun`: runs of a stack keep its clips sound.
* `Arises.sound`: they are sound at all moments of an execution.
* `Stride.opened_of_painted`: what an instruction paints begins with a move.
* `shapes_sound`: everything a device is given is sound, whatever an interpreter is asked for.
-/

namespace ContentStream

variable {σ : Type}

/-! ### Sound clips -/

/-- A clip is **sound** if its path begins with a move, and if there are bounds exactly with a
path. -/
structure Clip.Sound (c : Clip) : Prop where
  opened : ∀ path, c.path = some path → path.Opened
  path_eq_none_iff : c.path = none ↔ c.bounds = none

namespace Clip

/-- There is no clip at the start. -/
theorem sound_empty : Sound {} where
  opened _ hpath := by cases hpath
  path_eq_none_iff := ⟨fun _ => rfl, fun _ => rfl⟩

/-- Clips are sound once they are narrowed to a path that begins with a move. -/
theorem sound_narrow {gs : GState} {path : Path Float} (hpath : path.Opened) :
    (of (gs.narrow path)).Sound := by
  obtain ⟨bounds, hbounds⟩ := hpath.exists_bounds
  rw [of_narrow hpath, narrow, hbounds, Option.map_some]
  refine ⟨fun p hp => ?_, iff_of_false (Option.some_ne_none _) (Option.some_ne_none _)⟩
  obtain rfl := Option.some.inj hp
  exact hpath

end Clip

/-- A stack is **sound** if the clips of all its states are. -/
def GStack.Sound (s : GStack) : Prop :=
  ∀ gs ∈ s.current :: s.saved, (Clip.of gs).Sound

namespace GStack.Sound

variable {s : GStack}

/-- The clip of the current state of a sound stack is sound. -/
theorem current (h : s.Sound) : (Clip.of s.current).Sound :=
  h _ List.mem_cons_self

/-- A stack is sound with another current state that has a sound clip. -/
theorem setCurrent (h : s.Sound) {gs : GState} (hgs : (Clip.of gs).Sound) :
    GStack.Sound ⟨gs, s.saved⟩ :=
  List.forall_mem_cons.mpr ⟨hgs, (List.forall_mem_cons.mp h).2⟩

/-- A stack of a single state is sound if that is. -/
theorem singleton {gs : GState} (hgs : (Clip.of gs).Sound) : GStack.Sound ⟨gs, []⟩ :=
  List.forall_mem_singleton.mpr hgs

/-- A state that is saved is there twice. -/
theorem save (h : s.Sound) : s.save.Sound :=
  List.forall_mem_cons.mpr ⟨h.current, h⟩

/-- A state that is restored was on the stack before. -/
theorem restore {s' : GStack} (h : s.Sound) (hs : s.restore? = some s') : s'.Sound := by
  intro gs hgs
  rw [← GStack.saved_of_restore? hs] at hgs
  exact h gs (List.mem_cons_of_mem _ hgs)

end GStack.Sound

/-! ### Sound events -/

/-- The path that an event **paints**, if it paints one. -/
def Event.painted? : Event → Option (Path Float)
  | .fill _ path | .stroke _ path => some path
  | _ => none

/-- What an event has to do with **clips** is sound. -/
structure Event.Clipped (e : Event) : Prop where
  state : ∀ gs, e.state? = some gs → (Clip.of gs).Sound
  clip : ∀ path, e = .clip path → path.Opened

/-- An event is **sound** if the clip of the state that it comes with is, and if its path begins
with a move. A path that does so is not empty. -/
structure Event.Sound (e : Event) : Prop extends e.Clipped where
  painted : ∀ path, e.painted? = some path → path.Opened

namespace Event

/-- An event that comes with a state has a sound clip if the state does. -/
theorem Clipped.of_state? {e : Event} {gs : GState} (he : e.state? = some gs)
    (hgs : (Clip.of gs).Sound) : e.Clipped where
  state gs' hgs' := by
    obtain rfl := Option.some.inj (he.symm.trans hgs')
    exact hgs
  clip path hpath := by
    rw [hpath] at he
    cases he

/-- An event of a clip is sound if the path begins with a move. -/
theorem Clipped.of_clip {path : Path Float} (hpath : path.Opened) : (Event.clip path).Clipped where
  state gs hgs := by cases hgs
  clip p hp := by
    cases hp
    exact hpath

/-- An event that has neither a state nor a path is sound, as there is nothing in it to be checked:
there are four kinds of such events. -/
theorem Sound.of_kind {e : Event}
    (h : e.kind ∈ [EventKind.page, .tile, .unknownOperator, .inlineImage]) : e.Sound := by
  have hstate : e.state? = none := by
    cases e <;> first | rfl | simp [kind] at h
  have hpainted : e.painted? = none := by
    cases e <;> first | rfl | simp [kind] at h
  refine ⟨⟨fun gs hgs => ?_, fun path hpath => ?_⟩, fun path hpath => ?_⟩
  · rw [hstate] at hgs
    cases hgs
  · rw [hpath] at h
    simp [kind] at h
  · rw [hpainted] at hpath
    cases hpath

/-- An event that is shown under a sound clip comes with that clip, or comes without a state. -/
theorem Clipped.of_shownUnder {e : Event} {c : Clip} (he : e.ShownUnder c) (hc : c.Sound) :
    e.Clipped := by
  cases he with
  | fill h | stroke h | image h | glyph h => exact .of_state? rfl (h ▸ hc)
  | unknownOperator spelling | inlineImage scope dict data =>
      exact (Sound.of_kind (by simp [kind])).toClipped

/-- What passes from one program to another paints nothing. -/
theorem not_isPassage_of_painted {e : Event} {path : Path Float} (h : e.painted? = some path) :
    e.kind.isPassage = false := by
  cases e with
  | fill gs p | stroke gs p => rfl
  | _ => cases h

end Event

/-- Runs of a stack keep its clips sound, and show only sound clips. The induction is on runs; a
cell is rendered on a stack of its own, which begins without a clip. -/
theorem Clip.sound_of_clipRun {s s' : GStack} {es : List Event} (h : ClipRun s es s')
    (hs : s.Sound) : s'.Sound ∧ ∀ e ∈ es, e.Clipped := by
  induction h with
  | stay => exact ⟨hs, List.forall_mem_nil _⟩
  | trans _ _ ih₁ ih₂ =>
      obtain ⟨hmiddle, hevents₁⟩ := ih₁ hs
      obtain ⟨hend, hevents₂⟩ := ih₂ hmiddle
      exact ⟨hend, List.forall_mem_append.mpr ⟨hevents₁, hevents₂⟩⟩
  | @change s f hf => exact ⟨hs.setCurrent (hf s.current ▸ hs.current), List.forall_mem_nil _⟩
  | narrow hpath =>
      exact ⟨hs.setCurrent (sound_narrow hpath), List.forall_mem_singleton.mpr (.of_clip hpath)⟩
  | shown he => exact ⟨hs, List.forall_mem_singleton.mpr (.of_shownUnder he hs.current)⟩
  | save => exact ⟨hs.save, List.forall_mem_singleton.mpr (.of_state? rfl hs.current)⟩
  | restore hrestore =>
      have hrest := hs.restore hrestore
      exact ⟨hrest, List.forall_mem_singleton.mpr (.of_state? rfl hrest.current)⟩
  | cell hfresh _ ih =>
      obtain ⟨-, hevents⟩ := ih (.singleton (hfresh ▸ sound_empty))
      have htile {e : Event} (he : e.kind = .tile) : e.Clipped :=
        (Event.Sound.of_kind (by simp [he])).toClipped
      exact ⟨hs, List.forall_mem_cons.mpr ⟨htile rfl,
        List.forall_mem_append.mpr ⟨hevents, List.forall_mem_singleton.mpr (htile rfl)⟩⟩⟩

/-- So an outcome leaves a sound stack, and its events have to do with sound clips only. -/
theorem Outcome.Clips.sound {α : Type} {s : GStack} {Q : α → Prop} {o : Outcome σ α}
    (h : o.Clips s Q) (hs : s.Sound) : o.machine.stack.Sound ∧ ∀ e ∈ o.events, e.Clipped :=
  Clip.sound_of_clipRun h.run hs

/-! ### All moments -/

section

variable {ctx : Context σ} {m : Machine σ} {content : Bytes}

/-- One stride keeps the stack and the frame sound. -/
theorem Stride.sound (ctx : Context σ) {s : Stride σ} (hstack : s.machine.stack.Sound)
    (hframe : s.frame.Sound) :
    (s.outcome ctx).machine.stack.Sound ∧
      ∀ frame, (s.outcome ctx).result = .ok frame → frame.Sound := by
  have hclips : (s.outcome ctx).Clips s.machine.stack Frame.Sound :=
    Action.clips_step (fun content _ => Action.clips_call content) hframe s.instruction
  exact ⟨(hclips.sound hstack).1, hclips.result⟩

/-- The strides of instructions begin on sound stacks, and in sound frames. This goes by induction
on the instructions, each of which keeps both sound for the next. -/
theorem sound_of_mem_stridesFrom {s : Stride σ} {frame : Frame} {is : List Instruction}
    (hstack : m.stack.Sound) (hframe : frame.Sound) (hs : s ∈ stridesFrom ctx m frame is) :
    s.machine.stack.Sound ∧ s.frame.Sound := by
  induction is generalizing m frame with
  | nil => exact absurd hs List.not_mem_nil
  | cons i is ih =>
      obtain ⟨hmachine, hresult⟩ := Stride.sound ctx (s := ⟨m, frame, i⟩) hstack hframe
      rcases ho : Stride.outcome ctx ⟨m, frame, i⟩ with ⟨fault | frame', m', t⟩
      · rw [stridesFrom_cons_of_error ho, List.mem_singleton] at hs
        subst hs
        exact ⟨hstack, hframe⟩
      · rw [ho] at hmachine hresult
        rw [stridesFrom_cons_of_ok ho] at hs
        rcases List.mem_cons.mp hs with rfl | hs
        · exact ⟨hstack, hframe⟩
        · exact ih hmachine (hresult frame' rfl) hs

/-- A program has a sound stack and a sound frame at all its moments. -/
theorem Passes.sound {a : Moment σ} (h : Passes ctx m content a) (hstack : m.stack.Sound) :
    a.machine.stack.Sound ∧ a.frame.Sound := by
  induction h with
  | start hp => exact ⟨hstack, Frame.sound_fresh _⟩
  | @next n n' frame frame' i is t _ hstep ih =>
      obtain ⟨hmachine, hresult⟩ := Stride.sound ctx (s := ⟨n, frame, i⟩) ih.1 ih.2
      rw [Stride.outcome, hstep] at hmachine hresult
      exact ⟨hmachine, hresult frame' rfl⟩

/-- A sub-program is entered with a sound clip: that of the caller, or one narrowed to a box. -/
theorem Machine.sound_enter (hstack : m.stack.Sound) (transform : Matrix Float)
    (clip : Option (Rect Float)) (scope : Option σ) :
    (m.enter transform clip scope).stack.Sound := by
  refine hstack.save.setCurrent ?_
  cases clip with
  | none => exact hstack.current
  | some box => exact Clip.sound_narrow ((Path.Opened.ofRect box).transform _)

/-- A cell is entered without a clip. -/
theorem Machine.sound_enterCell (m : Machine σ) (tiling : Tiling σ) (tint : Option Tint) :
    (m.enterCell tiling tint).stack.Sound :=
  .singleton (Clip.of_initialState tiling tint ▸ Clip.sound_empty)

/-- What is called starts with a sound stack, be it a form or a cell. -/
theorem Calls.sound {k : Machine σ} {i : Instruction} (h : Calls ctx m i k content)
    (hstack : m.stack.Sound) : k.stack.Sound := by
  cases h with
  | form _ => exact Machine.sound_enter hstack _ _ none
  | cell _ => exact m.sound_enterCell _ _

/-- The stack is sound **at all moments** of an execution, and so are the frames of its programs. -/
theorem Arises.sound {a : Moment σ} (h : Arises ctx m content a) (hstack : m.stack.Sound) :
    a.machine.stack.Sound ∧ a.frame.Sound := by
  induction h with
  | own h => exact h.sound hstack
  | nested h hcalls _ _ ih => exact ih (hcalls.sound (h.sound hstack).1)

end

/-! ### Painted paths -/

/-- The outline of a path begins with a move if the path does: to close it is to add a segment at
its end. -/
theorem Path.Opened.outline {path : Path Float} (h : path.Opened) (painting : Painting) :
    (painting.outline path).Opened := by
  unfold Painting.outline
  split
  · exact h.extend _
  · exact h

/-- The region of a shading begins with a move, as the clip does. It is the clip itself in the space
of the shading, or a rectangle where there is no clip. -/
theorem Path.Opened.of_shadedRegion? {c : Clip} (hclip : c.Sound) {ctm : Matrix Float}
    {page : Rect Float} {bbox : Option (Rect Float)} {region : Path Float}
    (h : shadedRegion? ctm c.path page bbox = some region) : region.Opened := by
  unfold shadedRegion? at h
  split at h
  · obtain rfl := Option.some.inj h
    exact .ofRect _
  · obtain ⟨inverse, -, rfl⟩ := Option.map_eq_some_iff.mp h
    cases hpath : c.path with
    | none => exact .ofRect _
    | some path => exact (hclip.opened path hpath).transform inverse

/-- Events of ending a path paint nothing. -/
theorem Action.painted?_of_mem_endPath {frame : Frame} {m : Machine σ} {e : Event}
    (he : e ∈ ((endPath frame).run m).events) : e.painted? = none := by
  have hkind : e.kind ∈ [EventKind.clip] := emitsOnly_endPath List.mem_cons_self frame m e he
  cases e with
  | clip path => rfl
  | _ => simp [Event.kind] at hkind

/-- What a painting operator shows is painted with the outline of the path, whether it is the event
for the filling or that for the stroke. -/
theorem Painting.painted_of_mem_shown {painting : Painting} {gs : GState}
    {path : Option (Path Float)} {e : Event} (he : e ∈ painting.shown gs path) :
    ∃ p, path = some p ∧ e.painted? = some (painting.outline p) := by
  cases path with
  | none => exact absurd he List.not_mem_nil
  | some p =>
      refine ⟨p, rfl, ?_⟩
      rcases List.mem_append.mp he with he | he
      · split at he
        · obtain rfl := List.mem_singleton.mp he
          rfl
        · exact absurd he List.not_mem_nil
      · split at he
        · obtain rfl := List.mem_singleton.mp he
          rfl
        · exact absurd he List.not_mem_nil

namespace Action

variable {ctx : Context σ} {m : Machine σ} {frame : Frame} {e : Event} {path : Path Float}

/-- So what it paints begins with a move, as the path of a sound frame does. The end of the path may
add a clip to it, but paints nothing. -/
theorem opened_of_mem_paint (hframe : frame.Sound) {painting : Painting}
    (he : e ∈ ((paint painting frame).run m).events) (hpath : e.painted? = some path) :
    path.Opened := by
  rw [run_paint_eq, Outcome.events, Outcome.trace_after, Trace.events_append] at he
  rcases List.mem_append.mp he with he | he
  · rw [Trace.events, List.filterMap_map] at he
    have hshown : e ∈ painting.shown m.stack.current (frame.path.filter fun p => !p.isEmpty) :=
      List.filterMap_some (l := painting.shown _ _) ▸ he
    obtain ⟨p, hp, hpainted⟩ := Painting.painted_of_mem_shown hshown
    obtain rfl := Option.some.inj (hpainted.symm.trans hpath)
    exact (hframe.path p (Option.filter_eq_some_iff.mp hp).1).outline painting
  · rw [painted?_of_mem_endPath he] at hpath
    cases hpath

/-- The region that a shading fills begins with a move, too. A shading that is not found or has no
region fills nothing at all. -/
theorem opened_of_mem_shade (hstack : m.stack.Sound) {name : String}
    (he : e ∈ ((shade ctx name frame).run m).events) (hpath : e.painted? = some path) :
    path.Opened := by
  rw [run_shade_eq] at he
  split at he
  · exact absurd he List.not_mem_nil
  · split at he
    · exact absurd he List.not_mem_nil
    · next hregion =>
        rcases List.mem_cons.mp he with rfl | he
        · obtain rfl := Option.some.inj hpath
          exact .of_shadedRegion? hstack.current hregion
        · rw [painted?_of_mem_endPath he] at hpath
          cases hpath

end Action

section

variable {ctx : Context σ} {m : Machine σ} {content : Bytes} {e : Event} {path : Path Float}

/-- A path that an instruction **paints** begins with a move, if it calls no program. It is the path
of the frame, or the region of a shading. -/
theorem Stride.opened_of_painted {s : Stride σ} (hstack : s.machine.stack.Sound)
    (hframe : s.frame.Sound) (hcalls : ∀ k content, ¬ Calls ctx s.machine s.instruction k content)
    (he : e ∈ (s.outcome ctx).events) (hpath : e.painted? = some path) : path.Opened := by
  have hkind := kind_mem_of_not_calls hcalls e he
  have hpaints : e.kind = .fill ∨ e.kind = .stroke := by
    cases e with
    | fill gs p => exact .inl rfl
    | stroke gs p => exact .inr rfl
    | _ => cases hpath
  rcases hi : s.instruction with ⟨op, operands⟩ | ⟨dict, data⟩ | flaw
  · rcases hdecode : Command.decode op operands with fault | command
    · rw [hi, Instruction.kinds, hdecode] at hkind
      exact absurd hkind List.not_mem_nil
    · rw [outcome_of_decode ctx hi hdecode] at he
      rw [hi, Instruction.kinds, hdecode] at hkind
      cases command with
      | paint painting => exact Action.opened_of_mem_paint hframe he hpath
      | shade name => exact Action.opened_of_mem_shade hstack he hpath
      | write step => cases step <;> simp_all [Command.kinds, Writing.kinds]
      | _ => rcases hpaints with h | h <;> simp [Command.kinds, h] at hkind
  · rcases hpaints with h | h <;> simp [hi, Instruction.kinds, h] at hkind
  · rw [hi] at hkind
    exact absurd hkind List.not_mem_nil

/-- All that an execution paints begins with a move. Each of its events comes of an instruction that
calls no program, at a moment when the stack and the frame are sound. -/
theorem opened_of_mem_execute (hstack : m.stack.Sound)
    (he : e ∈ ((Action.execute ctx content).run m).events) (hpath : e.painted? = some path) :
    path.Opened := by
  obtain ⟨s, is, harises, hcalls, he⟩ :=
    exists_arises_of_mem_events he (Event.not_isPassage_of_painted hpath)
  obtain ⟨hmachine, hframe⟩ := harises.sound hstack
  exact Stride.opened_of_painted hmachine hframe hcalls he hpath

/-- So does all that a program paints that is called. -/
theorem opened_of_mem_call (hstack : m.stack.Sound)
    (he : e ∈ ((Action.call ctx content).run m).events) (hpath : e.painted? = some path) :
    path.Opened :=
  opened_of_mem_execute (m := m.deeper) hstack (mem_events_of_call he).2 hpath

/-- All that instructions paint begins with a move, whether they call programs or not. What is
painted by a program that they call is its own, as passage paints nothing. -/
theorem opened_of_mem_steps {frame : Frame} {is : List Instruction} (hstack : m.stack.Sound)
    (hframe : frame.Sound)
    (he : e ∈ ((Action.steps ctx (Action.call ctx) frame is).run m).events)
    (hpath : e.painted? = some path) : path.Opened := by
  rw [Outcome.events, trace_steps, Trace.mem_events_flatMap] at he
  obtain ⟨s, hs, he⟩ := he
  obtain ⟨hmachine, hown⟩ := sound_of_mem_stridesFrom hstack hframe hs
  by_cases hcalled : ∃ k content', Calls ctx s.machine s.instruction k content'
  · obtain ⟨k, content', hcalls⟩ := hcalled
    obtain ⟨enclosure, hbegins, rfl, rfl⟩ := Enclosure.exists_begins hcalls
    have hmem := Stride.mem_of_begins hbegins he (Event.not_isPassage_of_painted hpath)
    exact opened_of_mem_call (hcalls.sound hmachine) hmem hpath
  · exact Stride.opened_of_painted hmachine hown
      (fun k content' h => hcalled ⟨k, content', h⟩) he hpath

end

/-! ### Requests -/

/-- What an interpreter can be **asked for**: to render a page, to execute a content stream or a
program that is tokenized already, in the present state, as a sub-program of it or not, and to
render the tile of a pattern. -/
inductive Request (σ : Type) where
  | page (page : Page σ)
  | content (content : Bytes)
  | program (program : Program)
  | subProgram (content : Bytes) (transform : Matrix Float) (clip : Option (Rect Float))
    (scope : Option σ)
  | tile (tiling : Tiling σ) (tint : Option Tint)

namespace Action

/-- **Answers** a request. -/
def answer (ctx : Context σ) : Request σ → Action σ Unit
  | .page page => renderPage ctx page
  | .content content => execute ctx content
  | .program program => runProgram ctx (call ctx) program
  | .subProgram content transform clip scope => subProgram (call ctx) content transform clip scope
  | .tile tiling tint => do let _ ← tile ctx (call ctx) tiling tint

/-- Serves requests **one after the other**, whether or not they end in faults. -/
def serve (ctx : Context σ) : List (Request σ) → Action σ Unit
  | [] => pure ()
  | request :: requests => do
    let _ ← attempt (answer ctx request)
    serve ctx requests

end Action

/-- The machines that there are **while a request is answered**: those at the moments of the content
that is executed for it, and of the programs that are called. -/
inductive Request.Visits (ctx : Context σ) (m : Machine σ) : Request σ → Machine σ → Prop
  | page {page : Page σ} {a : Moment σ} (h : Arises ctx (m.turnTo page) page.content a) :
      Visits ctx m (.page page) a.machine
  | content {content : Bytes} {a : Moment σ} (h : Arises ctx m content a) :
      Visits ctx m (.content content) a.machine
  | program {p : Program} {s : Stride σ}
      (h : s ∈ stridesFrom ctx m { base := m.stack.depth } p.instructions) :
      Visits ctx m (.program p) s.machine
  | called {p : Program} {s : Stride σ} {k : Machine σ} {content : Bytes} {a : Moment σ}
      (hs : s ∈ stridesFrom ctx m { base := m.stack.depth } p.instructions)
      (hcalls : Calls ctx s.machine s.instruction k content) (h : Arises ctx k.deeper content a) :
      Visits ctx m (.program p) a.machine
  | subProgram {content : Bytes} {transform : Matrix Float} {clip : Option (Rect Float)}
      {scope : Option σ} {a : Moment σ}
      (h : Arises ctx (m.enter transform clip scope).deeper content a) :
      Visits ctx m (.subProgram content transform clip scope) a.machine
  | tile {tiling : Tiling σ} {tint : Option Tint} {a : Moment σ}
      (h : Arises ctx (m.enterCell tiling tint).deeper tiling.content a) :
      Visits ctx m (.tile tiling tint) a.machine

section

variable (ctx : Context σ) {m : Machine σ}

/-- A page starts with a stack of a single state, which has no clip. -/
theorem Machine.sound_turnTo (m : Machine σ) (page : Page σ) : (m.turnTo page).stack.Sound :=
  .singleton Clip.sound_empty

/-- At any time while a request is answered the stack is sound: in its own program, in those that it
calls, and in the cell of a tile. -/
theorem Request.Visits.sound {ctx : Context σ} {request : Request σ} {n : Machine σ}
    (h : request.Visits ctx m n) (hstack : m.stack.Sound) : n.stack.Sound := by
  have hfresh : Frame.Sound { base := m.stack.depth } := Frame.sound_fresh _
  cases h with
  | page h => exact (h.sound (m.sound_turnTo _)).1
  | content h => exact (h.sound hstack).1
  | program h => exact (sound_of_mem_stridesFrom hstack hfresh h).1
  | called hs hcalls h =>
      have hcaller := (sound_of_mem_stridesFrom hstack hfresh hs).1
      exact (h.sound (hcalls.sound hcaller)).1
  | subProgram h => exact (h.sound (Machine.sound_enter hstack _ _ none)).1
  | tile h => exact (h.sound (m.sound_enterCell _ _)).1

/-- An outcome is **sound** if the stack is in the end, and if all its events are. -/
structure Outcome.Sound {α : Type} (o : Outcome σ α) : Prop where
  stack : o.machine.stack.Sound
  events : ∀ e ∈ o.events, e.Sound

namespace Action

/-- Outcomes are sound as far as clips go; what is left is what they paint. -/
theorem sound_of_clips {α : Type} {Q : α → Prop} {o : Outcome σ α} (h : o.Clips m.stack Q)
    (hstack : m.stack.Sound)
    (hpainted : ∀ e ∈ o.events, ∀ path, e.painted? = some path → path.Opened) : o.Sound where
  stack := (h.sound hstack).1
  events e he := ⟨(h.sound hstack).2 e he, hpainted e he⟩

/-- An execution is sound if it starts with a sound stack. -/
theorem sound_execute (hstack : m.stack.Sound) (content : Bytes) :
    ((execute ctx content).run m).Sound :=
  sound_of_clips (clips_execute content) hstack fun _ he _ hpath =>
    opened_of_mem_execute hstack he hpath

/-- A page is sound in any case, as it starts with a stack of its own. -/
theorem sound_renderPage (m : Machine σ) (page : Page σ) : ((renderPage ctx page).run m).Sound := by
  obtain ⟨hend, hevents⟩ := sound_execute ctx (m.sound_turnTo page) page.content
  rw [run_renderPage]
  refine ⟨hend, ?_⟩
  simp only [Outcome.events, Trace.events_cons_event, Trace.events_append, Trace.events_nil]
  refine List.forall_mem_cons.mpr ⟨.of_kind List.mem_cons_self, ?_⟩
  exact List.forall_mem_append.mpr
    ⟨hevents, List.forall_mem_singleton.mpr (.of_kind List.mem_cons_self)⟩

/-- So is a program that is run on a sound stack. -/
theorem sound_runProgram (hstack : m.stack.Sound) (p : Program) :
    ((runProgram ctx (call ctx) p).run m).Sound := by
  have hfresh : Frame.Sound { base := m.stack.depth } := Frame.sound_fresh _
  have hsteps : ((steps ctx (call ctx) { base := m.stack.depth } p.instructions).run m).Clips
      m.stack Frame.Sound :=
    clips_steps (fun content _ => clips_call content) hfresh p.instructions
  rw [run_runProgram]
  exact sound_of_clips (.of_run hsteps.run) hstack fun _ he _ hpath =>
    opened_of_mem_steps hstack hfresh he hpath

/-- So is a sub-program, which starts with the clip of its caller, or with that narrowed to its
box. -/
theorem sound_subProgram (hstack : m.stack.Sound) (content : Bytes) (transform : Matrix Float)
    (clip : Option (Rect Float)) (scope : Option σ) :
    ((subProgram (call ctx) content transform clip scope).run m).Sound := by
  refine sound_of_clips (clips_subProgram (fun _ _ => clips_call _) _ _ _ _) hstack
    fun e he path hpath => ?_
  have hmem := mem_events_of_subProgram he (Event.not_isPassage_of_painted hpath)
  exact opened_of_mem_call (Machine.sound_enter hstack _ _ _) hmem hpath

/-- So is a cell, which starts without a clip. -/
theorem sound_tile (hstack : m.stack.Sound) (tiling : Tiling σ) (tint : Option Tint) :
    ((tile ctx (call ctx) tiling tint).run m).Sound := by
  refine sound_of_clips (clips_tile (fun _ _ => clips_call _) _ _) hstack fun e he path hpath => ?_
  have hmem := mem_events_of_tile he (Event.not_isPassage_of_painted hpath)
  exact opened_of_mem_call (m.sound_enterCell _ _) hmem hpath

/-- Every answer is sound, to whatever an interpreter with a sound stack is asked for. A tile is
asked for by its pattern, and is dropped after it was made. -/
theorem sound_answer (hstack : m.stack.Sound) (request : Request σ) :
    ((answer ctx request).run m).Sound := by
  cases request with
  | page page => exact sound_renderPage ctx m page
  | content content => exact sound_execute ctx hstack content
  | program program => exact sound_runProgram ctx hstack program
  | subProgram content transform clip scope => exact sound_subProgram ctx hstack _ _ _ _
  | tile tiling tint =>
      have htile := sound_tile ctx hstack tiling tint
      have hmachine := machine_run_bind_pure m (tile ctx (call ctx) tiling tint) ()
      have htrace : ((answer ctx (.tile tiling tint)).run m).trace =
          ((tile ctx (call ctx) tiling tint).run m).trace :=
        trace_run_bind (fun _ _ => rfl) m
      refine ⟨hmachine ▸ htile.stack, fun e he => htile.events e ?_⟩
      rwa [Outcome.events, htrace] at he

/-- So are **any number of requests**, by induction: each of them leaves a sound stack to the next,
and the events of one after the other are those of all. -/
theorem sound_serve (hstack : m.stack.Sound) (requests : List (Request σ)) :
    ((serve ctx requests).run m).Sound := by
  induction requests generalizing m with
  | nil => exact ⟨hstack, List.forall_mem_nil _⟩
  | cons request requests ih =>
      obtain ⟨hmachine, hevents⟩ := sound_answer ctx hstack request
      obtain ⟨hend, hrest⟩ := ih hmachine
      rw [serve, run_bind, run_attempt]
      refine ⟨hend, fun e he => ?_⟩
      rw [Outcome.events, Outcome.trace_after, Trace.events_append] at he
      exact (List.mem_append.mp he).elim (hevents e) (hrest e)

end Action

end

/-- **Every path a device sees is well formed.** Let an interpreter that is fresh be asked for
anything, in any order and whatever faults come of it. Each path that is filled, stroked or clipped
to begins with a move, and is therefore not empty. Each state that is shown has bounds of its clip
exactly if it has a clip, and so has each state on the stack: after all of the requests, and at any
time while one more is answered, in the programs that are called for it too. -/
theorem shapes_sound (ctx : Context σ) (root : σ) (requests : List (Request σ)) :
    let o := (Action.serve ctx requests).run { scopes := [root] }
    (∀ e ∈ o.events, e.Sound) ∧ o.machine.stack.Sound ∧
      ∀ (request : Request σ) n, request.Visits ctx o.machine n → n.stack.Sound := by
  intro o
  have hfresh : GStack.Sound {} := .singleton Clip.sound_empty
  have hsound : o.Sound := Action.sound_serve ctx hfresh requests
  exact ⟨hsound.events, hsound.stack, fun request n h => h.sound hsound.stack⟩

namespace StalePoint

/-- A context **without resources**. -/
def ctx : Context Nat where
  library := Directory.library #[]
  surface := fun _ => none

/-- A stream that clips to a square, and then draws a line from a point **whose path has ended**. -/
def content : Bytes :=
  Utf8.encode "0 0 9 9 re W n 1 1 m q n Q 2 2 l S"

/-- An interpreter is asked for it **twice**. -/
def requests : List (Request Nat) :=
  [.content content, .content content]

/-- The **events** that come of this. -/
def events : List Event :=
  ((Action.serve ctx requests).run { scopes := [0] }).events

end StalePoint

open StalePoint in
/-- A line from a point whose path has ended begins with a move, and is stroked under a clip with
bounds. Whenever the stream is begun again, the clips on the stack are sound. -/
theorem shapes_sound_of_stale_point :
    let o := (Action.serve ctx requests).run { scopes := [0] }
    (∃ e ∈ o.events, e.painted?.isSome = true ∧ (e.state?.any fun gs => gs.clip.isSome) = true ∧
      e.Sound) ∧
    Request.Visits ctx o.machine (.content content) o.machine ∧ o.machine.stack.Sound := by
  intro o
  obtain ⟨hevents, -, hvisits⟩ := shapes_sound ctx 0 requests
  have hstroke : (events.any fun e =>
      e.painted?.isSome && e.state?.any fun gs => gs.clip.isSome) = true := by
    decide +kernel
  obtain ⟨e, he, hpainted⟩ := List.any_eq_true.mp hstroke
  obtain ⟨hpath, hclip⟩ := Bool.and_eq_true_iff.mp hpainted
  have hprogram : (ctx.program? o.machine.scopes content).isOk = true := by decide +kernel
  obtain ⟨a, harises, ha⟩ := Arises.exists_start hprogram
  have hvisit := Request.Visits.content harises
  rw [ha] at hvisit
  exact ⟨⟨e, he, hpath, hclip, hevents e he⟩, hvisit, hvisits _ _ hvisit⟩

end ContentStream
