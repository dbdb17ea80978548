import ContentStream.Proofs.ClipRuns
import ContentStream.Proofs.CurrentPoint
import ContentStream.Proofs.Images
import ContentStream.Proofs.Operands
import ContentStream.Proofs.Strides

/-!
# Paths and what came before

The path and the clip that is asked for are in the frame, but that is the interpreter's way to
remember them. They can be read off the strides that came before: there is a path if one was begun
and has not been ended since, and a clip is asked for if that was done while there was a path, and
since then neither has another been asked for nor has the path ended. The frame agrees with that at
every stride of an execution.

## Main definitions

* `Keyword.bearing`: what an operator has to do with the path.
* `Begun`, `Requested`: what the strides that came before say of the path and of the clip.
* `Frame.Accords`: a frame agrees with them.

## Main results

* `Command.bearing_of_decode`: commands have to do with the path what their operators have.
* `Action.run_endPath_eq`, `Action.run_paint_eq`, `Action.run_shade_eq`: how paths end.
* `Frame.Accords.next`, `accords_of_strides`: frames agree with what came before.
-/

namespace ContentStream

variable {σ : Type}

/-! ### What operators have to do with paths -/

deriving instance DecidableEq for Painting

/-- What an operator **has to do with the path**: it begins a path or goes on with it, asks for a
clip, paints the path and ends it, or ends it by painting a shading. Operators that are about
nothing of the kind, as well as the one that closes a subpath, have some *other* bearing. -/
inductive Bearing where
  | begins
  | asks (rule : Winding)
  | paints (painting : Painting)
  | shades
  | other
deriving DecidableEq

/-- Whether an operator **ends the path**. -/
def Bearing.ends : Bearing → Bool
  | paints _ | shades => true
  | _ => false

/-- What a **keyword** has to do with the path. -/
def Keyword.bearing : Keyword → Bearing
  | .moveTo | .lineTo | .curveTo | .curveFromCurrent | .curveToEnd | .rectangle => .begins
  | .clip => .asks .nonzero
  | .clipEvenOdd => .asks .evenOdd
  | .stroke => .paints { stroke := true }
  | .closeStroke => .paints { close := true, stroke := true }
  | .fill | .fillObsolete => .paints { fill := some .nonzero }
  | .fillEvenOdd | .fillEvenOddObsolete => .paints { fill := some .evenOdd }
  | .fillStroke => .paints { fill := some .nonzero, stroke := true }
  | .fillStrokeEvenOdd => .paints { fill := some .evenOdd, stroke := true }
  | .closeFillStroke => .paints { close := true, fill := some .nonzero, stroke := true }
  | .closeFillStrokeEvenOdd => .paints { close := true, fill := some .evenOdd, stroke := true }
  | .endPath => .paints {}
  | .shade => .shades
  | _ => .other

/-- What an **instruction** has to do with the path. -/
def Instruction.bearing : Instruction → Bearing
  | .operate (.known k) _ => k.bearing
  | _ => .other

/-- What a **command** has to do with the path. -/
def Command.bearing : Command → Bearing
  | .construct .close => .other
  | .construct _ => .begins
  | .clip rule => .asks rule
  | .paint painting => .paints painting
  | .shade _ => .shades
  | _ => .other

/-- A command has to do with the path what its operator has. The operands decide on the points of a
path, and not on whether there is one. -/
theorem Command.bearing_of_decode {op : Operator} {operands : List Operand} {command : Command}
    (h : Command.decode op operands = .ok command) :
    command.bearing = (Instruction.operate op operands).bearing := by
  cases Operator.AsksFor.of_decode h <;> rfl

/-- A painting operator is carried out whatever its operands are, as it takes none. -/
theorem Command.decode_of_bearing {k : Keyword} {painting : Painting}
    (h : k.bearing = .paints painting) (operands : List Operand) :
    Command.decode (.known k) operands = .ok (.paint painting) := by
  unfold Keyword.bearing at h
  split at h <;> cases h <;> rfl

/-! ### What came before -/

/-- The clip that a stride **asks for**: the path as it stands, with the rule of the operator. -/
def Stride.asked? (s : Stride σ) : Option (Path Float) :=
  match s.instruction.bearing with
  | .asks rule => s.frame.path.map fun path => { path with winding := rule }
  | _ => none

/-- A path was **begun**, and has not been ended since. -/
def Begun (past : List (Stride σ)) : Prop :=
  Since (fun s => s.instruction.bearing = .begins) (fun s => s.instruction.bearing.ends = false)
    past

/-- A clip was **requested**. Since then no other has been, and the path has not been ended. -/
def Requested (past : List (Stride σ)) (clip : Path Float) : Prop :=
  Since (fun s => s.asked? = some clip)
    (fun s => s.asked? = none ∧ s.instruction.bearing.ends = false) past

/-- A frame **accords** with what came before. -/
structure Frame.Accords (past : List (Stride σ)) (frame : Frame) : Prop where
  sound : frame.Sound
  path : frame.path.isSome = true ↔ Begun past
  clip : ∀ clip, frame.pendingClip = some clip ↔ Requested past clip
  /-- Without a path nothing is asked for. -/
  clip_of_path : frame.path = none → frame.pendingClip = none

/-- The **frames after** an operator, as far as paths are concerned. -/
inductive Bearing.Leads (frame : Frame) : Bearing → Frame → Prop
  | begins {frame' : Frame} (hpath : frame'.path.isSome = true)
      (hclip : frame'.pendingClip = frame.pendingClip) : Leads frame .begins frame'
  | asks {frame' : Frame} {rule : Winding} (hpath : frame'.path = frame.path)
      (hclip : frame'.pendingClip = frame.path.map fun path => { path with winding := rule }) :
      Leads frame (.asks rule) frame'
  | ends {b : Bearing} {frame' : Frame} (hends : b.ends = true) (hpath : frame'.path = none)
      (hclip : frame'.pendingClip = none) : Leads frame b frame'
  | other {frame' : Frame} (hpath : frame'.path.isSome = frame.path.isSome)
      (hclip : frame'.pendingClip = frame.pendingClip) : Leads frame .other frame'

/-! ### Ending a path -/

/-- The clip that a frame **awaits**, in device space. -/
def Frame.awaited? (frame : Frame) (gs : GState) : Option (Path Float) :=
  frame.pendingClip.map (Path.transform gs.ctm)

/-- A frame and a state **await a clip**: the image, under the transform that is in force now, of
the path that was kept when the clip was asked for. If none was asked for, none is awaited. -/
inductive Frame.Awaits (frame : Frame) (gs : GState) : Option (Path Float) → Prop
  | nothing (h : frame.pendingClip = none) : Awaits frame gs none
  | clip {path image : Path Float} (h : frame.pendingClip = some path)
      (himage : image.IsImageOf gs.ctm path) : Awaits frame gs (some image)

/-- What is computed when a path ends is the clip that is awaited, point by point. -/
theorem Frame.awaits_awaited? (frame : Frame) (gs : GState) :
    frame.Awaits gs (frame.awaited? gs) := by
  unfold awaited?
  cases hclip : frame.pendingClip with
  | none => exact .nothing hclip
  | some path => exact .clip hclip (path.isImageOf_transform gs.ctm)

/-- A state **after a path**: there is no current point, and the clip is narrowed if a path is
given. All the rest is as before. -/
def GState.afterPath (gs : GState) (clip : Option (Path Float)) : GState :=
  { gs with
    point := none
    clip := clip.or gs.clip
    clipBounds := (clip.elim gs gs.narrow).clipBounds }

/-- The path that is **painted**: closed if the operator says so, and with its rule. -/
def Painting.outline (painting : Painting) (path : Path Float) : Path Float :=
  let path := if painting.close then path.push .close else path
  { path with winding := painting.fill.getD path.winding }

/-- What a painting operator **shows**: the path is filled and then stroked, as it prescribes. -/
def Painting.shown (painting : Painting) (gs : GState) : Option (Path Float) → List Event
  | none => []
  | some path =>
    (if painting.fill.isSome then [.fill gs (painting.outline path)] else []) ++
      if painting.stroke then [.stroke gs (painting.outline path)] else []

namespace Action

variable {ctx : Context σ} {call : Bytes → Action σ Unit} {m : Machine σ}

/-- What is left when a path has ended, and what is seen of it: the clip that was awaited, if the
path that it was made of was there. -/
theorem run_endPath_eq (frame : Frame) (m : Machine σ) :
    (endPath frame).run m =
      ⟨.ok { frame with path := none, pendingClip := none },
        { m with stack :=
          ⟨m.stack.current.afterPath (frame.awaited? m.stack.current), m.stack.saved⟩ },
        (frame.awaited? m.stack.current).toList.map fun clip => .event (.clip clip)⟩ := by
  unfold endPath Frame.awaited?
  cases frame.pendingClip <;> rfl

/-- What is shown by the way, one event after the other, is what the operator is to show. -/
theorem paintEvents_eq (painting : Painting) (gs : GState) (path : Path Float) :
    paintEvents painting gs path = painting.shown gs (some path) := by
  obtain ⟨_ | _, _ | rule, _ | _⟩ := painting <;> rfl

/-- Painting a path ends it after it is shown, if it is not empty. -/
theorem run_paint_eq (painting : Painting) (frame : Frame) (m : Machine σ) :
    (paint painting frame).run m =
      ((endPath frame).run m).after
        ((painting.shown m.stack.current (frame.path.filter fun p => !p.isEmpty)).map .event) := by
  unfold paint
  rcases frame.path with _ | path
  · rfl
  · by_cases hempty : path.isEmpty = true
    · simp only [hempty, if_true, Option.filter_some, Bool.not_true, Bool.false_eq_true, if_false]
      rfl
    · simp only [hempty, Bool.false_eq_true, if_false, run_state_bind, paintEvents_eq,
        Option.filter_some, Bool.not_false, if_true]
      rfl

/-- Painting a shading ends the path after the region is filled, if there is a shading and a region
for it. Otherwise it does nothing, and the path is still there. -/
theorem run_shade_eq (ctx : Context σ) (name : String) (frame : Frame) (m : Machine σ) :
    (shade ctx name frame).run m =
      match ctx.library.findShading m.scopes name with
      | .error fault => ⟨.error fault, m, []⟩
      | .ok shading =>
        match shadedRegion? m.stack.current.ctm m.stack.current.clip m.pageBounds shading.bbox with
        | none => ⟨.error (.nonInvertibleTransform m.stack.current.ctm), m, []⟩
        | some region =>
          ((endPath frame).run m).after [.event (.fill (m.stack.current.setInk .fill
            ⟨.shading shading Matrix.identity, shading.space⟩) region)] := by
  unfold shade
  rw [run_machine_bind]
  cases ctx.library.findShading m.scopes name with
  | error fault => rfl
  | ok shading =>
      rw [run_ok_bind]
      dsimp only
      cases shadedRegion? m.stack.current.ctm m.stack.current.clip m.pageBounds shading.bbox <;> rfl

/-- So a shading fails with nothing done, or it fills something and ends the path. Which state and
which region it fills does not matter to clips. -/
theorem run_shade_cases (ctx : Context σ) (name : String) (frame : Frame) (m : Machine σ) :
    (∃ fault, (shade ctx name frame).run m = ⟨.error fault, m, []⟩) ∨
      ∃ gs region, (shade ctx name frame).run m =
        ((endPath frame).run m).after [.event (.fill gs region)] := by
  rw [run_shade_eq]
  split
  · exact .inl ⟨_, rfl⟩
  · split
    · exact .inl ⟨_, rfl⟩
    · exact .inr ⟨_, _, rfl⟩

/-- Every command leads on as its operator has to do with paths. What it does to the frame is known
from `alters_of_run_perform`, so that only construction and clips are looked at here. -/
theorem leads_perform {frame f : Frame} {command : Command}
    (h : ((perform ctx call frame command).run m).result = .ok f) :
    command.bearing.Leads frame f := by
  have halters := alters_of_run_perform h
  cases command with
  | construct step =>
      obtain rfl := Except.ok.inj h
      cases step with
      | close =>
          refine .other ?_ rfl
          cases frame.path <;> rfl
      | _ => exact .begins rfl rfl
  | clip rule =>
      obtain rfl := Except.ok.inj h
      exact .asks rfl rfl
  | paint | shade =>
      obtain rfl := halters
      exact .ends rfl rfl rfl
  | beginText | endText | write | beginCompatibility | endCompatibility =>
      obtain ⟨_, rfl⟩ := halters
      exact .other rfl rfl
  | _ =>
      obtain rfl := halters
      exact .other rfl rfl

end Action

namespace Stride

variable {ctx : Context σ} {s : Stride σ}

/-- What a stride comes to is what its command does. -/
theorem outcome_of_decode (ctx : Context σ) {op : Operator} {operands : List Operand}
    {command : Command} (hi : s.instruction = .operate op operands)
    (hdecode : Command.decode op operands = .ok command) :
    s.outcome ctx = (Action.perform ctx (Action.call ctx) s.frame command).run s.machine := by
  rw [outcome, hi, Action.step, hdecode]
  rfl

/-- What an instruction has to do with the path is what its command has. -/
theorem bearing_of_decode {op : Operator} {operands : List Operand} {command : Command}
    (hi : s.instruction = .operate op operands)
    (hdecode : Command.decode op operands = .ok command) :
    s.instruction.bearing = command.bearing := by
  rw [hi, Command.bearing_of_decode hdecode]

/-- Every stride leads on as its instruction has to do with paths. An inline image leaves the frame
alone, and one that is misspelled leads nowhere. -/
theorem leads {frame : Frame} (h : (s.outcome ctx).result = .ok frame) :
    s.instruction.bearing.Leads s.frame frame := by
  rcases hi : s.instruction with ⟨op, operands⟩ | ⟨dict, data⟩ | flaw
  · cases hdecode : Command.decode op operands with
    | error fault =>
        rw [outcome, hi, Action.step, hdecode] at h
        cases h
    | ok command =>
        rw [outcome_of_decode ctx hi hdecode] at h
        rw [← Command.bearing_of_decode hdecode]
        exact Action.leads_perform h
  · rw [outcome, hi] at h
    rw [Action.eq_of_run_bind_pure h]
    exact .other rfl rfl
  · rw [outcome, hi] at h
    cases h

end Stride

/-! ### Frames and what came before -/

/-- At the beginning of a program there is neither a path nor a clip that is asked for. -/
theorem Frame.accords_fresh (base : Nat) : Frame.Accords ([] : List (Stride σ)) { base } where
  sound := sound_fresh base
  path := iff_of_false Bool.false_ne_true not_since_nil
  clip _ := iff_of_false (by simp) not_since_nil
  clip_of_path _ := rfl

section

variable {past : List (Stride σ)} {s : Stride σ}

/-- A path was begun if the last stride has begun it, or if there was one and the last stride has
not ended it. -/
theorem begun_concat : Begun (past ++ [s]) ↔
    s.instruction.bearing = .begins ∨ Begun past ∧ s.instruction.bearing.ends = false :=
  since_concat

/-- A clip was requested by the last stride, or before if the last stride neither asks for another
nor ends the path. -/
theorem requested_concat {clip : Path Float} : Requested (past ++ [s]) clip ↔
    s.asked? = some clip ∨
      Requested past clip ∧ s.asked? = none ∧ s.instruction.bearing.ends = false :=
  since_concat

/-- An operator that asks for a clip asks for the path as it stands, if there is one. -/
theorem Stride.asked?_of_asks {rule : Winding} (h : s.instruction.bearing = .asks rule) :
    s.asked? = s.frame.path.map fun path => { path with winding := rule } := by
  rw [asked?, h]

/-- No other operator asks for a clip. -/
theorem Stride.asked?_eq_none (h : ∀ rule, s.instruction.bearing ≠ .asks rule) :
    s.asked? = none := by
  unfold asked?
  split
  · next rule hrule => exact absurd hrule (h rule)
  · rfl

/-- A stride that does not ask for a clip leaves what was requested, unless it ends the path. -/
theorem requested_concat_of_not_asks {clip : Path Float}
    (hasks : ∀ rule, s.instruction.bearing ≠ .asks rule)
    (hends : s.instruction.bearing.ends = false) :
    Requested (past ++ [s]) clip ↔ Requested past clip := by
  simp [requested_concat, Stride.asked?_eq_none hasks, hends]

section

variable {frame : Frame} (h : s.frame.Accords past)
  (hleads : s.instruction.bearing.Leads s.frame frame)

include h hleads

/-- The frame has a path after a stride exactly if one was begun by then. There is a case for each
way in which a stride may lead on. -/
theorem isSome_path_of_leads : frame.path.isSome = true ↔ Begun (past ++ [s]) := by
  rw [begun_concat]
  generalize s.instruction.bearing = b at hleads
  cases hleads with
  | begins hpath _ => simp [hpath]
  | asks hpath _ => simp [hpath, h.path, Bearing.ends]
  | ends hends hpath _ =>
      have hbegins : b ≠ .begins := by
        rintro rfl
        cases hends
      simp [hpath, hbegins, hends]
  | other hpath _ => simp [hpath, h.path, Bearing.ends]

/-- The clip that the frame keeps after a stride is the one that was requested by then. A stride
that asks for a clip without a path takes back nothing, since without a path none was kept. -/
theorem pendingClip_of_leads (clip : Path Float) :
    frame.pendingClip = some clip ↔ Requested (past ++ [s]) clip := by
  generalize hb : s.instruction.bearing = b at hleads
  cases hleads with
  | begins _ hclip | other _ hclip =>
      rw [hclip, requested_concat_of_not_asks (by simp [hb]) (by rw [hb]; rfl), h.clip]
  | asks _ hclip =>
      rw [requested_concat, Stride.asked?_of_asks hb, hclip, Option.map_eq_none_iff]
      refine ⟨.inl, ?_⟩
      rintro (hasked | ⟨hrequested, hnone, -⟩)
      · exact hasked
      · -- What was requested before is still asked for, so there is a path.
        have hpending := h.clip_of_path hnone
        rw [(h.clip clip).mpr hrequested] at hpending
        cases hpending
  | ends hends _ hclip =>
      have hasks (rule : Winding) : s.instruction.bearing ≠ .asks rule := by
        rw [hb]
        rintro rfl
        cases hends
      simp [requested_concat, Stride.asked?_eq_none hasks, hb, hends, hclip]

/-- Without a path, no clip is kept: what ends a path drops the clip as well, and no clip is asked
for without one. -/
theorem pendingClip_eq_none_of_leads (hnone : frame.path = none) : frame.pendingClip = none := by
  generalize s.instruction.bearing = b at hleads
  cases hleads with
  | begins hpath _ => simp [hnone] at hpath
  | asks hpath hclip =>
      rw [hclip, ← hpath, hnone]
      rfl
  | ends _ _ hclip => exact hclip
  | other hpath hclip =>
      have hbefore : s.frame.path = none := by simpa [hnone] using hpath.symm
      rw [hclip, h.clip_of_path hbefore]

end

/-- One stride further, a frame still accords with what came before. -/
theorem Frame.Accords.next {ctx : Context σ} {frame : Frame} (h : s.frame.Accords past)
    (ho : (s.outcome ctx).result = .ok frame) : frame.Accords (past ++ [s]) where
  sound :=
    (Action.clips_step (fun _ _ => Action.clips_call _) h.sound s.instruction).result frame ho
  path := isSome_path_of_leads h (Stride.leads ho)
  clip := pendingClip_of_leads h (Stride.leads ho)
  clip_of_path := pendingClip_eq_none_of_leads h (Stride.leads ho)

/-- At every stride of an execution, the frame accords with the strides that came before. The
strides are taken from the last, since accord is a matter of the past. -/
theorem accords_of_strides {ctx : Context σ} {m : Machine σ} {content : Bytes}
    {later : List (Stride σ)} (h : strides ctx m content = past ++ s :: later) :
    s.frame.Accords past :=
  strides_induction (P := fun past _ frame => frame.Accords past) (Frame.accords_fresh _)
    (fun _ _ _ _ _ h ho => h.next (congrArg Outcome.result ho)) h

end

end ContentStream
