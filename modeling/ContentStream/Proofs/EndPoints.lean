import ContentStream.Proofs.CurrentPoint
import ContentStream.Proofs.Shorthands

/-!
# End points

The current point and the path under construction are kept apart: the point belongs to the graphics
state, which is saved and restored, and the path to the frame, which is not. A program that saves
and restores states only while it constructs no path cannot tell. There is a current point exactly
while there is a path, and it is where the path ends.

This is an invariant of the instructions. Most of them leave the point and the path alone; those
that construct a path keep the two together, those that end it take both away, and the states that
the program has saved have no current point to bring back. Programs that are called begin with
frames of their own and give back the state of the caller, so nothing has to be asked of them.

## Main definitions

* `Path.endPoint?`: where a path ends.
* `EndsAt`: the current point is the end of the path, and is there if the path is.
* `Action.KeepsPoint`: an action leaves the current point and the saved states alone.
* `Frame.Traced`: the invariant of a program.

## Main results

* `Construction.endsAt_apply`: construction steps keep point and path together.
* `Action.keepsPoint_perform`: commands that have nothing to do with the path do not touch the
  point.
* `Frame.Traced.next`: one instruction keeps the invariant.
* `point_ends_path`: the current point is the end of the path, and segments go on from there.
-/

namespace ContentStream

variable {σ α β : Type}

/-! ### Where paths end -/

/-- The point at which a segment **ends**. A segment that closes a subpath does not say where. -/
def Segment.end? : Segment Float → Option (Point Float)
  | .move p | .line p | .quad _ p | .curve _ _ p => some p
  | .close => none

/-- The **end of a path**: that of its last segment, or the start of the last subpath if the last
segment closes it. -/
def Path.endPoint? (path : Path Float) : Option (Point Float) :=
  path.segments.getLast?.bind fun segment => segment.end?.or path.subpathStart?

namespace Path

variable {path : Path Float}

/-- A path that goes on ends where its new segment does, or where the last subpath starts if the
segment does not say. -/
theorem endPoint?_push (path : Path Float) (segment : Segment Float) :
    (path.push segment).endPoint? = segment.end?.or (path.push segment).subpathStart? := by
  rw [endPoint?, push, extend, List.getLast?_concat, Option.bind_some]

/-- A rectangle ends where it starts. -/
theorem endPoint?_rectangle (path : Path Float) (x y w h : Float) :
    (path.rectangle x y w h).endPoint? = some ⟨x, y⟩ := by
  rw [← push_outline, endPoint?_push, push_outline, subpathStart?_rectangle]
  rfl

/-- A path that begins with a move has a last subpath. -/
theorem Opened.exists_subpathStart? (h : path.Opened) :
    ∃ start, path.subpathStart? = some start := by
  obtain ⟨start, rest, hsegments⟩ := h
  refine Option.isSome_iff_exists.mp (List.findSome?_isSome_iff.mpr ?_)
  exact ⟨.move start, by simp [hsegments], rfl⟩

end Path

/-- The current point is **where the path ends**, and there is one exactly if there is a path. -/
structure EndsAt (path : Option (Path Float)) (point : Option (Point Float)) : Prop where
  isSome_iff : point.isSome = true ↔ path.isSome = true
  eq_endPoint? : ∀ p, path = some p → point = p.endPoint?

namespace EndsAt

/-- Without a path there is no point. -/
theorem none : EndsAt none none where
  isSome_iff := Iff.rfl
  eq_endPoint? _ hp := by cases hp

/-- With a path, the point is its end. -/
theorem some {path : Path Float} {e : Point Float} (h : path.endPoint? = some e) :
    EndsAt (some path) (some e) where
  isSome_iff := Iff.intro (fun _ => rfl) fun _ => rfl
  eq_endPoint? p hp := by
    obtain rfl := Option.some.inj hp
    exact h.symm

variable {path : Option (Path Float)} {point : Option (Point Float)}

/-- Where there is no path, there is no point either. -/
theorem eq_none (h : EndsAt path point) (hpath : path = Option.none) : point = Option.none := by
  have hiff := h.isSome_iff
  rw [hpath] at hiff
  cases point with
  | none => rfl
  | some e => simp at hiff

/-- Where there is a path, it has an end, and that is the point. -/
theorem exists_endPoint {p : Path Float} (h : EndsAt (Option.some p) point) :
    ∃ e, p.endPoint? = Option.some e ∧ point = Option.some e := by
  obtain ⟨e, he⟩ := Option.isSome_iff_exists.mp (h.isSome_iff.mpr rfl)
  exact ⟨e, (h.eq_endPoint? p rfl).symm.trans he, he⟩

end EndsAt

namespace Construction

/-- The **segment** that a step draws from a point; none if it does not go on from there. -/
def segment? (start : Point Float) : Construction → Option (Segment Float)
  | .line p => some (.line p)
  | .curve c₁ c₂ p => some (.curve c₁ c₂ p)
  | .curveFromCurrent c₂ p => some (.curve start c₂ p)
  | .curveToEnd c₁ p => some (.curve c₁ p p)
  | .move _ | .close | .rectangle _ _ _ _ => none

variable {path : Option (Path Float)} {point : Option (Point Float)}

/-- Every construction step leads from a path and its end to a path and its end. There is a case for
each step, with a path and without one. -/
theorem endsAt_apply (h : EndsAt path point) (hopened : ∀ p, path = some p → p.Opened)
    (step : Construction) : EndsAt (step.apply path point).1 (step.apply path point).2 := by
  cases step with
  | move p | line p | curve c₁ c₂ p | curveFromCurrent c₂ p | curveToEnd c₁ p =>
      exact .some (Path.endPoint?_push _ _)
  | close =>
      cases path with
      | none =>
          obtain rfl := h.eq_none rfl
          exact .none
      | some p =>
          obtain ⟨start, hstart⟩ := ((hopened p rfl).extend [.close]).exists_subpathStart?
          have hpoint : (p.push .close).subpathStart?.or point = some start := by
            rw [Path.push, hstart, Option.some_or]
          have hend : (p.push .close).endPoint? = some start := by
            rw [Path.endPoint?_push, Path.push, hstart]
            rfl
          simp only [apply, hpoint]
          exact .some hend
  | rectangle x y w h => exact .some (Path.endPoint?_rectangle _ x y w h)

/-- A path that is there is gone on with from its end. It has begun with a move, so that no other
move is put in front of the segment. -/
theorem apply_of_segment? {p : Path Float} (hopened : p.Opened) {e : Point Float}
    {step : Construction} {segment : Segment Float} (hstep : step.segment? e = some segment) :
    (step.apply (some p) (some e)).1 = some (p.push segment) := by
  have hempty : p.isEmpty = false := by
    obtain ⟨start, rest, hsegments⟩ := hopened
    rw [Path.isEmpty, hsegments]
    rfl
  have hbegun (q : Point Float) : begun (some p) (some e) q = p := by
    simp [begun, hempty]
  cases step with
  | line q | curve c₁ c₂ q | curveFromCurrent c₂ q | curveToEnd c₁ q =>
      obtain rfl := Option.some.inj hstep
      simp only [apply, hbegun, Option.getD_some]
  | move q | close | rectangle x y w h => cases hstep

end Construction

/-! ### Actions that leave the point alone -/

/-- A color does not move the current point. -/
theorem GState.point_setInk (gs : GState) (side : Side) (ink : Ink) :
    (gs.setInk side ink).point = gs.point := by
  cases side <;> rfl

namespace Action

/-- An action **keeps the point** if it leaves the current point and the saved states alone. -/
def KeepsPoint (x : Action σ α) : Prop :=
  ∀ m, (x.run m).machine.stack.saved = m.stack.saved ∧
    (x.run m).machine.stack.current.point = m.stack.current.point

namespace KeepsPoint

/-- To give a result leaves the point alone. -/
theorem pure (a : α) : KeepsPoint (pure a : Action σ α) :=
  fun _ => ⟨rfl, rfl⟩

/-- So does a fault. -/
theorem fail (fault : Fault) : KeepsPoint (fail fault : Action σ α) :=
  fun _ => ⟨rfl, rfl⟩

/-- So does looking things up. -/
theorem ofExcept (x : Except Fault α) : KeepsPoint (ofExcept x : Action σ α) :=
  fun _ => ⟨rfl, rfl⟩

/-- So does looking at the machine. -/
theorem machine : KeepsPoint (machine : Action σ (Machine σ)) :=
  fun _ => ⟨rfl, rfl⟩

/-- So does looking at the state. -/
theorem state : KeepsPoint (state : Action σ GState) :=
  fun _ => ⟨rfl, rfl⟩

/-- What is seen has no part in the point. -/
theorem emit (e : Event) : KeepsPoint (emit e : Action σ Unit) :=
  fun _ => ⟨rfl, rfl⟩

/-- Neither have several events. -/
theorem emitAll (es : List Event) : KeepsPoint (emitAll es : Action σ Unit) :=
  fun _ => ⟨rfl, rfl⟩

/-- The state may be changed in all but its point. -/
theorem modifyState {f : GState → GState} (hf : ∀ gs, (f gs).point = gs.point) :
    KeepsPoint (modifyState f : Action σ Unit) :=
  fun m => ⟨rfl, hf m.stack.current⟩

/-- A sequence leaves the point alone if both parts do, or if the first has failed and there is no
second. -/
theorem bind {x : Action σ α} {f : α → Action σ β} (hx : KeepsPoint x)
    (hf : ∀ a, KeepsPoint (f a)) : KeepsPoint (x >>= f) := by
  intro m
  have hfirst := hx m
  rw [run_bind]
  generalize x.run m = o at hfirst
  obtain ⟨fault | a, n, t⟩ := o
  · exact hfirst
  · obtain ⟨hsaved, hpoint⟩ := hf a n
    exact ⟨hsaved.trans hfirst.1, hpoint.trans hfirst.2⟩

/-- To keep the current point is composable. -/
theorem composable : Composable (KeepsPoint (σ := σ)) where
  pure := .pure
  bind := .bind

end KeepsPoint

/-- No setting moves the point, whichever field it sets. -/
theorem keepsPoint_set (setting : Setting) :
    KeepsPoint (modifyState fun gs => setting.apply gs : Action σ Unit) :=
  .modifyState (GState.passive_apply setting).point_eq

/-- Neither does a color. -/
theorem keepsPoint_setInk (side : Side) (ink : Ink) :
    KeepsPoint (modifyState fun gs => gs.setInk side ink : Action σ Unit) :=
  .modifyState fun gs => gs.point_setInk side ink

/-- An image is drawn without regard to the point. -/
theorem keepsPoint_drawImage (image : Image) : KeepsPoint (drawImage image : Action σ Unit) :=
  .bind .state fun _ => .emit _

section

variable {ctx : Context σ}

/-- A font sets parameters of text only. -/
theorem keepsPoint_selectFont (name : String) (size : Float) :
    KeepsPoint (selectFont ctx name size) :=
  .bind .machine fun _ => .bind (.ofExcept _) fun _ => .modifyState fun _ => rfl

/-- An inline image is drawn, as any other is. -/
theorem keepsPoint_drawInlineImage (dict : Dict) (data : Bytes) :
    KeepsPoint (drawInlineImage ctx dict data) :=
  KeepsPoint.composable.drawInlineImage (fun hf => .bind .machine fun m => hf m.scopes)
    (fun _ => .emit _) (fun _ => .ofExcept _) keepsPoint_drawImage

/-- A color space comes with a color. -/
theorem keepsPoint_selectSpace (side : Side) (name : String) :
    KeepsPoint (selectSpace ctx side name) := by
  intro m
  rw [run_selectSpace]
  cases ctx.library.spaceOf m.scopes name with
  | error fault => exact ⟨rfl, rfl⟩
  | ok space => exact keepsPoint_setInk side (Ink.initial space) m

/-- A tile is rendered on a stack of its own. -/
theorem keepsPoint_tile (tiling : Tiling σ) (tint : Option Tint) :
    KeepsPoint (tile ctx (call ctx) tiling tint) := by
  intro m
  rcases hkey : m.tiles.lookup (ctx.config.tileSharing.key tiling tint) with _ | tile
  · rw [run_tile_eq keeps_call hkey]
    exact ⟨rfl, rfl⟩
  · rw [run_tile_of_some m hkey]
    exact ⟨rfl, rfl⟩

/-- So a color may be selected while a path is under construction. -/
theorem keepsPoint_selectColor (side : Side) (op : String) (operands : List Operand) :
    KeepsPoint (selectColor ctx (call ctx) side op operands) := by
  intro m
  rw [run_selectColor]
  rcases ctx.library.select m.scopes op (m.stack.current.ink side).space operands with
    fault | paint | ⟨tiling, tint⟩
  · exact ⟨rfl, rfl⟩
  · exact keepsPoint_setInk side _ m
  · exact KeepsPoint.bind (keepsPoint_tile tiling tint) (fun _ => keepsPoint_setInk side _) m

/-- A form gives back the stack of its caller. -/
theorem keepsPoint_runForm (form : Form σ) : KeepsPoint (runForm (call ctx) form) := by
  intro m
  by_cases hid : form.identity ∈ m.forms
  · rw [run_runForm_of_mem m hid]
    exact ⟨rfl, rfl⟩
  · rw [run_runForm_eq keeps_call hid]
    exact ⟨rfl, rfl⟩

/-- So an object may be invoked in the middle of a path, too. -/
theorem keepsPoint_invoke (name : String) : KeepsPoint (invoke ctx (call ctx) name) := by
  intro m
  rw [run_invoke]
  rcases ctx.library.findXObject m.scopes name with fault | image | form
  · exact ⟨rfl, rfl⟩
  · exact keepsPoint_drawImage image m
  · exact keepsPoint_runForm form m

/-- Commands that neither construct a path nor end one, and do not save or restore states, do not
touch the current point. -/
theorem keepsPoint_perform {frame : Frame} {command : Command} (hsave : command ≠ .save)
    (hrestore : command ≠ .restore) (hconstruct : ∀ step, command ≠ .construct step)
    (hpaint : ∀ painting, command ≠ .paint painting) (hshade : ∀ name, command ≠ .shade name) :
    KeepsPoint (perform ctx (call ctx) frame command) := by
  have hsame {x : Action σ Unit} (hx : KeepsPoint x) :
      KeepsPoint (do x; pure frame : Action σ Frame) :=
    hx.bind fun _ => .pure frame
  cases command with
  | save => exact absurd rfl hsave
  | restore => exact absurd rfl hrestore
  | construct step => exact absurd rfl (hconstruct step)
  | paint painting => exact absurd rfl (hpaint painting)
  | shade name => exact absurd rfl (hshade name)
  | set setting => exact hsame (keepsPoint_set setting)
  | font name size => exact hsame (keepsPoint_selectFont name size)
  | extGState name =>
      exact .bind .machine fun _ => .bind (.ofExcept _) fun _ =>
        hsame (KeepsPoint.composable.applyParameters keepsPoint_set keepsPoint_selectFont _)
  | clip rule | endText | beginCompatibility | ignore => exact .pure _
  | beginText => exact .bind .state fun _ => .pure _
  | write step =>
      exact KeepsPoint.composable.write (KeepsPoint.composable.ofText .state) keepsPoint_set
        (KeepsPoint.composable.showText .state fun _ _ => .emitAll _) step frame
  | space side name => exact hsame (keepsPoint_selectSpace side name)
  | color side op operands => exact hsame (keepsPoint_selectColor side op operands)
  | device side space color => exact hsame (keepsPoint_setInk side _)
  | invoke name => exact hsame (keepsPoint_invoke name)
  | endCompatibility => exact KeepsPoint.composable.endCompatibility (.fail _)
  | unknown spelling => exact hsame (.emit _)

end

end Action

/-! ### The invariant -/

/-- Whether a command **saves or restores** a state. -/
def Command.isStacking : Command → Bool
  | save | restore => true
  | _ => false

/-- Whether an instruction **saves or restores** a state. -/
def Instruction.isStacking (i : Instruction) : Bool :=
  i.command?.any Command.isStacking

/-- A frame is **traced** by the current point of a machine: the point is the end of the path, and
the states that the program has saved, which are the latest, have none. -/
structure Frame.Traced (frame : Frame) (m : Machine σ) : Prop where
  sound : frame.Sound
  endsAt : EndsAt frame.path m.stack.current.point
  saved : ∃ own rest, m.stack.saved = own ++ rest ∧ rest.length + 1 = frame.base ∧
    ∀ gs ∈ own, gs.point = none

namespace Frame.Traced

variable {ctx : Context σ} {m n : Machine σ} {frame f : Frame}

/-- A program starts without a path. -/
theorem fresh (hpoint : m.stack.current.point = none) :
    Frame.Traced { base := m.stack.depth } m where
  sound := sound_fresh _
  endsAt := hpoint ▸ .none
  saved := ⟨[], m.stack.saved, rfl, rfl, List.forall_mem_nil _⟩

/-- What leaves the saved states alone keeps the invariant, if it keeps point and path together. -/
theorem of_saved_eq (h : frame.Traced m) (hsound : f.Sound) (hbase : f.base = frame.base)
    (hends : EndsAt f.path n.stack.current.point) (hsaved : n.stack.saved = m.stack.saved) :
    f.Traced n := by
  obtain ⟨own, rest, hsplit, hlength, hown⟩ := h.saved
  exact ⟨hsound, hends, own, rest, hsaved.trans hsplit, hlength.trans hbase.symm, hown⟩

/-- So does what leaves the point and the path alone. -/
theorem of_keepsPoint (h : frame.Traced m) {x : Action σ Frame} (hx : Action.KeepsPoint x)
    {t : Trace} (ho : x.run m = ⟨.ok f, n, t⟩) (hsound : f.Sound) (hbase : f.base = frame.base)
    (hpath : f.path = frame.path) : f.Traced n := by
  obtain ⟨hsaved, hpoint⟩ := hx m
  rw [ho] at hsaved hpoint
  refine h.of_saved_eq hsound hbase ?_ hsaved
  rw [hpath, hpoint]
  exact h.endsAt

/-- A state that is saved has no current point, as long as there is no path. -/
theorem save (h : frame.Traced m) (hpath : frame.path = none) :
    frame.Traced { m with stack := m.stack.save } := by
  obtain ⟨own, rest, hsplit, hlength, hown⟩ := h.saved
  have hpoint : m.stack.current.point = none := h.endsAt.eq_none hpath
  refine ⟨h.sound, h.endsAt, m.stack.current :: own, rest, ?_, hlength, ?_⟩
  · rw [GStack.save, hsplit, List.cons_append]
  · exact List.forall_mem_cons.mpr ⟨hpoint, hown⟩

/-- A state that is restored is one of those that the program has saved, and these have no current
point. Since no path is under construction either, the two agree. -/
theorem restoreOwn (h : frame.Traced m) (hpath : frame.path = none)
    (hok : ((Action.restoreOwn frame).run m).result = .ok ()) :
    frame.Traced ((Action.restoreOwn frame).run m).machine := by
  obtain ⟨own, rest, hsplit, hlength, hown⟩ := h.saved
  have hdepth : m.stack.depth = own.length + frame.base := by
    rw [GStack.depth, hsplit, List.length_append, ← hlength, Nat.add_assoc]
  cases own with
  | nil =>
      rw [Action.run_restoreOwn_of_le (by simp [hdepth])] at hok
      cases hok
  | cons gs own =>
      obtain ⟨hpoint, hown⟩ := List.forall_mem_cons.mp hown
      have hbase : frame.base < m.stack.depth := by
        rw [hdepth, List.length_cons]
        omega
      rw [Action.run_restoreOwn hbase hsplit]
      refine ⟨h.sound, ?_, own, rest, rfl, hlength, hown⟩
      rw [hpath, hpoint]
      exact .none

/-- Every command keeps the invariant, if states are saved and restored without a path. Those that
construct a path and those that end it change both parts of it; all others change none. -/
theorem perform (h : frame.Traced m) {command : Command}
    (hstacking : command.isStacking = true → frame.path = none) {t : Trace}
    (ho : (Action.perform ctx (Action.call ctx) frame command).run m = ⟨.ok f, n, t⟩)
    (hsound : f.Sound) (hbase : f.base = frame.base) : f.Traced n := by
  have hok : ((Action.perform ctx (Action.call ctx) frame command).run m).result = .ok f := by
    rw [ho]
  have hmachine : ((Action.perform ctx (Action.call ctx) frame command).run m).machine = n := by
    rw [ho]
  have hended (hend : f = { frame with path := none, pendingClip := none } ∧
      n.stack.current.point = none) : EndsAt f.path n.stack.current.point := by
    rw [hend.1, hend.2]
    exact .none
  cases command with
  | save =>
      cases ho
      exact h.save (hstacking rfl)
  | restore =>
      obtain ⟨_, hrestored, hrest, hlast⟩ := Action.exists_of_run_bind hok
      cases hrest
      rw [← hmachine, Action.perform, hlast]
      exact h.restoreOwn (hstacking rfl) hrestored
  | construct step =>
      cases ho
      exact h.of_saved_eq hsound rfl (Construction.endsAt_apply h.endsAt h.sound.path step) rfl
  | paint painting =>
      refine h.of_saved_eq hsound hbase (hended (hmachine ▸ Action.ended_of_run_paint hok)) ?_
      rw [← hmachine, Action.perform, Action.run_paint_eq, Action.run_endPath_eq]
      rfl
  | shade name =>
      refine h.of_saved_eq hsound hbase (hended (hmachine ▸ Action.ended_of_run_shade hok)) ?_
      rcases Action.run_shade_cases ctx name frame m with ⟨fault, hrun⟩ | ⟨gs, region, hrun⟩
      · rw [Action.perform, hrun] at hok
        cases hok
      · rw [← hmachine, Action.perform, hrun, Action.run_endPath_eq]
        rfl
  | _ =>
      refine h.of_keepsPoint (Action.keepsPoint_perform ?_ ?_ ?_ ?_ ?_) ho hsound hbase
        (Action.path_of_run_perform (by simp) (by simp) (by simp) hok) <;> simp

/-- One instruction keeps the invariant. That the frame is sound, and has the base that it had, is
known from the runs of clips and from the floors. -/
theorem next {s : Stride σ} (h : s.frame.Traced s.machine)
    (hstacking : s.instruction.isStacking = true → s.frame.path = none) {t : Trace}
    (ho : s.outcome ctx = ⟨.ok f, n, t⟩) : f.Traced n := by
  have hok : (s.outcome ctx).result = .ok f := congrArg Outcome.result ho
  have hsound : f.Sound :=
    (Action.clips_step (fun content _ => Action.clips_call content) h.sound s.instruction).result
      f hok
  have hbase : f.base = s.frame.base :=
    (Action.keeps_step Action.keeps_call (Nat.zero_le s.frame.base) s.instruction s.machine
      (Nat.zero_le _)).2 f hok
  rcases hi : s.instruction with ⟨op, operands⟩ | ⟨dict, data⟩ | flaw
  · cases hdecode : Command.decode op operands with
    | error fault =>
        rw [Stride.outcome, hi, Action.step, hdecode] at hok
        cases hok
    | ok command =>
        rw [Stride.outcome_of_decode ctx hi hdecode] at ho
        refine h.perform (fun hcommand => hstacking ?_) ho hsound hbase
        rw [hi, Instruction.isStacking, Instruction.command?, hdecode]
        exact hcommand
  · have hkeeps : Action.KeepsPoint (Action.step ctx (Action.call ctx) s.frame s.instruction) := by
      rw [hi]
      exact (Action.keepsPoint_drawInlineImage dict data).bind fun _ => .pure _
    refine h.of_keepsPoint hkeeps ho hsound hbase ?_
    rw [Stride.outcome, hi] at hok
    rw [Action.eq_of_run_bind_pure hok]
  · rw [Stride.outcome, hi] at hok
    cases hok

/-- The invariant holds at all moments of a program that starts with no current point. -/
theorem of_passes {content : Bytes} (hpoint : m.stack.current.point = none)
    (hstacking : ∀ s ∈ strides ctx m content, s.instruction.isStacking = true → s.frame.path = none)
    {a : Moment σ} (h : Passes ctx m content a) : a.frame.Traced a.machine := by
  induction h with
  | start hp => exact fresh hpoint
  | @next k k' frame frame' i is t hpasses hstep ih =>
      exact ih.next (s := ⟨k, frame, i⟩) (hstacking _ (mem_strides_iff.mpr ⟨is, hpasses⟩)) hstep

end Frame.Traced

/-- **The current point is the end of the path.** Let a program be started with no current point,
and let it save and restore states only while no path is under construction. Between any two of its
instructions there is a current point if and only if there is a path, and the point is where the
path ends. So whatever goes on from there continues the path at its end, without a move in between,
and the curve that takes its first control point from the current one takes it from the path. -/
theorem point_ends_path (ctx : Context σ) {m : Machine σ} {content : Bytes}
    (hpoint : m.stack.current.point = none)
    (hstacking : ∀ s ∈ strides ctx m content, s.instruction.isStacking = true → s.frame.path = none)
    {a : Moment σ} (ha : Passes ctx m content a) :
    let point := a.machine.stack.current.point
    (point.isSome = true ↔ a.frame.path.isSome = true) ∧
    ∀ path, a.frame.path = some path →
      ∃ e, path.endPoint? = some e ∧ point = some e ∧
        ∀ i step segment, i.command? = some (.construct step) → step.segment? e = some segment →
          (Stride.outcome ctx ⟨a.machine, a.frame, i⟩).result =
            .ok { a.frame with path := some (path.push segment) } := by
  intro point
  have htraced := Frame.Traced.of_passes hpoint hstacking ha
  refine ⟨htraced.endsAt.isSome_iff, fun path hpath => ?_⟩
  have hends := htraced.endsAt
  rw [hpath] at hends
  obtain ⟨e, hend, he⟩ := hends.exists_endPoint
  refine ⟨e, hend, he, fun i step segment hi hsegment => ?_⟩
  obtain ⟨op, operands, rfl, hdecode⟩ := Instruction.exists_of_command? hi
  rw [Stride.outcome_of_decode ctx rfl hdecode]
  have happly := Construction.apply_of_segment? (htraced.sound.path path hpath) hsegment
  have hresult : ((Action.construct step a.frame).run a.machine).result =
      .ok { a.frame with path := (step.apply a.frame.path point).1 } := rfl
  rw [Action.perform, hresult, hpath, show point = some e from he, happly]

namespace DrawnCurve

/-- A context **without resources**. -/
def ctx : Context Nat where
  library := Directory.library #[]
  surface := fun _ => none

/-- A machine on which **nothing has been drawn**. -/
def machine : Machine Nat where
  scopes := [0]

/-- A program that strokes a line in a state of its own, and then draws **a curve from the current
point**. -/
def content : Bytes :=
  Utf8.encode "q 1 1 m 2 2 l S Q 1 2 m 3 4 5 6 v"

/-- Whether a stride draws a curve **from the current point**, on a path that is there. -/
def isCurve (s : Stride Nat) : Bool :=
  s.frame.path.isSome && s.instruction.command?.any fun command =>
    command matches .construct (.curveFromCurrent _ _)

end DrawnCurve

open DrawnCurve in
/-- The first control point of a curve is where the path that it continues ends, in a program that
saves and restores states in front of that path. -/
theorem point_ends_path_of_curve :
    machine.stack.current.point = none ∧
    (∀ s ∈ strides ctx machine content, s.instruction.isStacking = true → s.frame.path = none) ∧
    ∃ s ∈ strides ctx machine content, ∃ path e c₂ p, s.frame.path = some path ∧
      path.endPoint? = some e ∧
      s.instruction.command? = some (.construct (.curveFromCurrent c₂ p)) ∧
      (s.outcome ctx).result = .ok { s.frame with path := some (path.push (.curve e c₂ p)) } := by
  have hstates : ((strides ctx machine content).all fun s =>
      !s.instruction.isStacking || s.frame.path.isNone) = true := by
    decide +kernel
  have hstacking : ∀ s ∈ strides ctx machine content,
      s.instruction.isStacking = true → s.frame.path = none := by
    intro s hs hi
    simpa [hi] using List.all_eq_true.mp hstates s hs
  have hcurve : (strides ctx machine content).any isCurve = true := by decide +kernel
  obtain ⟨s, hs, hdraws⟩ := List.any_eq_true.mp hcurve
  obtain ⟨hsome, hcommand⟩ := Bool.and_eq_true_iff.mp hdraws
  obtain ⟨path, hpath⟩ := Option.isSome_iff_exists.mp hsome
  obtain ⟨command, hi, hstep⟩ := (Option.any_eq_true _ _).mp hcommand
  obtain ⟨c₂, p, rfl⟩ : ∃ c₂ p, command = .construct (.curveFromCurrent c₂ p) := by
    split at hstep
    · exact ⟨_, _, rfl⟩
    · cases hstep
  obtain ⟨rest, hpasses⟩ := mem_strides_iff.mp hs
  obtain ⟨-, hends⟩ := point_ends_path ctx rfl hstacking hpasses
  obtain ⟨e, hend, -, hnext⟩ := hends path hpath
  exact ⟨rfl, hstacking, s, hs, path, e, c₂, p, hpath, hend, hi, hnext _ _ _ hi rfl⟩

end ContentStream
