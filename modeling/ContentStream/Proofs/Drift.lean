import ContentStream.Proofs.Insertion
import ContentStream.Proofs.OpenText
import ContentStream.Proofs.Splitting
import ContentStream.Proofs.TextLaws

/-!
# Text and the current transform

A text object is placed by the transform that is in force when it is opened. Whatever is done to the
current transform afterwards does not move the text: where the next glyph stands is kept in the text
object, together with that first transform, and none of the operators that write looks at the
current one. Nor does any other operator carry it over to the text object, but for the one that
opens a text object anew.

So let a program set up transforms in addition while a text object is open. Two runs of it, with
these transforms and without them, drift apart: the states on their stacks are placed differently,
and so are the clips. But they do not differ in anything else, and they show the same glyphs at the
same places, until another text object is opened, an object is invoked, or a shading is painted.

## Main definitions

* `Machine.Drifts`: two machines differ only in where their states are placed.
* `Outcome.Drifts`: so do two outcomes, which have the same result and the same glyphs.
* `Action.Blind`: an action does not see where states are placed.
* `Instruction.isBlind`: an instruction opens no text object, invokes no object, and paints no
  shading.
* `Instruction.IsConcat`: an instruction sets up a transform.

## Main results

* `Action.blind_step`: instructions that do not see where states are placed.
* `Action.glyphs_run_steps_of_woven`: such instructions, with transforms set up in between.
* `glyphs_of_open_text`: the glyphs of an open text object, whatever transforms are set up in it.
-/

namespace ContentStream

variable {σ α β : Type}

/-! ### Machines that drift apart -/

/-- A state **without its place**: without the transform, and without the clip, which is in device
space. -/
def GState.unplaced (gs : GState) : GState :=
  { gs with ctm := Matrix.identity, clip := none, clipBounds := none }

/-- A machine with all states on the stack **without their places**. -/
def Machine.unplaced (m : Machine σ) : Machine σ :=
  { m with stack := ⟨m.stack.current.unplaced, m.stack.saved.map GState.unplaced⟩ }

/-- Machines **drift apart** if they differ in nothing but the places of their states. -/
def Machine.Drifts (m m' : Machine σ) : Prop :=
  m.unplaced = m'.unplaced

namespace Machine.Drifts

variable {m m' : Machine σ}

/-- States that are current differ in their places only. -/
theorem current (h : m.Drifts m') : m.stack.current.unplaced = m'.stack.current.unplaced :=
  congrArg (fun n : Machine σ => n.stack.current) h

/-- So do those that are saved, of which there are equally many. -/
theorem saved (h : m.Drifts m') :
    m.stack.saved.map GState.unplaced = m'.stack.saved.map GState.unplaced :=
  congrArg (fun n : Machine σ => n.stack.saved) h

/-- Machines that drift apart look things up in the same scopes. This, like the laws that follow, is
read off what is left of a machine without places. -/
theorem scopes (h : m.Drifts m') : m.scopes = m'.scopes :=
  (congrArg Machine.scopes h :)

/-- They have the same tiles. -/
theorem tiles (h : m.Drifts m') : m.tiles = m'.tiles :=
  (congrArg Machine.tiles h :)

/-- They have the same parameters of text. -/
theorem text (h : m.Drifts m') : m.stack.current.text = m'.stack.current.text :=
  (congrArg GState.text h.current :)

/-- They have the same current point, which is not a matter of the transform: it is given in the
coordinates of the program. -/
theorem point (h : m.Drifts m') : m.stack.current.point = m'.stack.current.point :=
  (congrArg GState.point h.current :)

/-- They have the same colors on both sides. -/
theorem ink (h : m.Drifts m') (side : Side) :
    m.stack.current.ink side = m'.stack.current.ink side := by
  cases side with
  | fill => exact (congrArg GState.fill h.current :)
  | stroke => exact (congrArg GState.stroke h.current :)

/-- Their stacks are equally deep. -/
theorem depth (h : m.Drifts m') : m.stack.depth = m'.stack.depth := by
  have hlength := congrArg List.length h.saved
  rw [List.length_map, List.length_map] at hlength
  exact congrArg (· + 1) hlength

/-- A cell is entered in the same place, which has nothing to do with the caller's. -/
theorem enterCell (h : m.Drifts m') (tiling : Tiling σ) (tint : Option Tint) :
    m.enterCell tiling tint = m'.enterCell tiling tint :=
  (congrArg (fun n : Machine σ => n.enterCell tiling tint) h :)

/-- Machines drift apart with other stacks that do so. All the rest of both machines is untouched,
and is the same as before. -/
theorem setStack (h : m.Drifts m') {s s' : GStack}
    (hcurrent : s.current.unplaced = s'.current.unplaced)
    (hsaved : s.saved.map GState.unplaced = s'.saved.map GState.unplaced) :
    Machine.Drifts { m with stack := s } { m' with stack := s' } := by
  have hrest : { m with stack := s' } = { m' with stack := s' } :=
    congrArg (fun n : Machine σ => { n with stack := s' }) h
  have hstack : (⟨s.current.unplaced, s.saved.map GState.unplaced⟩ : GStack) =
      ⟨s'.current.unplaced, s'.saved.map GState.unplaced⟩ := by
    rw [hcurrent, hsaved]
  exact (congrArg (fun stack : GStack => { m with stack }) hstack).trans
    (congrArg Machine.unplaced hrest)

/-- Machines drift apart no further with the same new tiles. -/
theorem setTiles (h : m.Drifts m') (tiles : List (TileKey × Tile)) (finished : Nat) :
    Machine.Drifts { m with tiles, finished } { m' with tiles, finished } :=
  (congrArg (fun n : Machine σ => { n with tiles := tiles, finished := finished }) h :)

end Machine.Drifts

/-- A function of states is **blind** if it does not see where they are placed. -/
def GState.Blind (f : GState → GState) : Prop :=
  ∀ gs, (f gs).unplaced = (f gs.unplaced).unplaced

/-- Settings do not see where a state is placed, and do not change it either. -/
theorem GState.blind_apply (setting : Setting) : Blind fun gs => setting.apply gs := by
  intro gs
  cases setting with
  | lineCap code => cases h : LineCap.ofCode? code <;> simp only [Setting.apply, h, unplaced]
  | lineJoin code => cases h : LineJoin.ofCode? code <;> simp only [Setting.apply, h, unplaced]
  | renderMode code => cases h : RenderMode.ofCode? code <;> simp only [Setting.apply, h, unplaced]
  | _ => simp only [Setting.apply, unplaced]

/-- A narrower clip is forgotten with the clip. -/
theorem GState.unplaced_narrow (gs : GState) (device : Path Float) :
    (gs.narrow device).unplaced = gs.unplaced := by
  simp only [narrow, unplaced]

/-- A color is set without regard to places. -/
theorem GState.blind_setInk (side : Side) (ink : Ink) : Blind fun gs => gs.setInk side ink := by
  intro gs
  cases side <;> rfl

/-! ### Outcomes -/

/-- Outcomes **drift apart** if they have the same result and the same glyphs, and leave machines
that drift apart. -/
structure Outcome.Drifts (o o' : Outcome σ α) : Prop where
  result : o.result = o'.result
  machine : o.machine.Drifts o'.machine
  glyphs : o.trace.glyphs = o'.trace.glyphs

namespace Outcome.Drifts

variable {m m' : Machine σ}

/-- Sequencing. After the same first result, the second actions may be compared on machines that
have drifted apart. -/
theorem bind {x y : Action σ α} {f g : α → Action σ β} (hx : (x.run m).Drifts (y.run m'))
    (hf : ∀ a n n', n.Drifts n' → ((f a).run n).Drifts ((g a).run n')) :
    ((x >>= f).run m).Drifts ((y >>= g).run m') := by
  rw [Action.run_bind, Action.run_bind]
  generalize x.run m = o at hx
  generalize y.run m' = o' at hx
  obtain ⟨result, n, t⟩ := o
  obtain ⟨result', n', t'⟩ := o'
  obtain ⟨rfl, hmachine, hglyphs⟩ := hx
  cases result with
  | error fault => exact ⟨rfl, hmachine, hglyphs⟩
  | ok a =>
      obtain ⟨hresult, hrest, hmore⟩ := hf a n n' hmachine
      refine ⟨hresult, hrest, ?_⟩
      rw [trace_after, trace_after, Trace.glyphs_append, Trace.glyphs_append, hmore]
      exact congrArg (· ++ _) hglyphs

/-- Current states may be changed in two ways that differ in places only. -/
theorem modifyState (h : m.Drifts m') {f g : GState → GState}
    (hfg : (f m.stack.current).unplaced = (g m'.stack.current).unplaced) :
    ((Action.modifyState f).run m).Drifts ((Action.modifyState g).run m') :=
  ⟨rfl, h.setStack hfg h.saved, rfl⟩

/-- What is emitted need not be the same, apart from glyphs. -/
theorem emitAll (h : m.Drifts m') {es es' : List Event}
    (hes : es.filterMap Event.glyph? = es'.filterMap Event.glyph?) :
    ((Action.emitAll es).run m).Drifts ((Action.emitAll es').run m') := by
  refine ⟨rfl, h, ?_⟩
  rw [Action.run_emitAll, Action.run_emitAll]
  exact (Trace.pick_map_event _ es).trans (hes.trans (Trace.pick_map_event _ es').symm)

end Outcome.Drifts

namespace Action

/-! ### Actions that do not see places -/

/-- An action is **blind** if it does not see where states are placed. -/
def Blind (x : Action σ α) : Prop :=
  ∀ m m' : Machine σ, m.Drifts m' → (x.run m).Drifts (x.run m')

namespace Blind

/-- To give a result is to look at nothing. -/
theorem pure (a : α) : Blind (pure a : Action σ α) :=
  fun _ _ h => ⟨rfl, h, rfl⟩

/-- To fail is to look at nothing. -/
theorem fail (fault : Fault) : Blind (fail fault : Action σ α) :=
  fun _ _ h => ⟨rfl, h, rfl⟩

/-- What is found beforehand has nothing to do with places. -/
theorem ofExcept (x : Except Fault α) : Blind (ofExcept x : Action σ α) :=
  fun _ _ h => ⟨rfl, h, rfl⟩

/-- Sequencing, where both parts are blind. -/
theorem bind {x : Action σ α} {f : α → Action σ β} (hx : Blind x) (hf : ∀ a, Blind (f a)) :
    Blind (x >>= f) :=
  fun m m' h => (hx m m' h).bind hf

/-- What is done by way of the scopes in force does not depend on places. -/
theorem ofScopes {f : List σ → Action σ α} (hf : ∀ scopes, Blind (f scopes)) :
    Blind (Action.machine >>= fun m => f m.scopes) := by
  intro m m' h
  rw [run_machine_bind, run_machine_bind, h.scopes]
  exact hf m'.scopes m m' h

/-- What is done by way of the parameters of text does not depend on places. -/
theorem ofText {f : TextState → Action σ α} (hf : ∀ text, Blind (f text)) :
    Blind (Action.state >>= fun gs => f gs.text) := by
  intro m m' h
  rw [run_state_bind, run_state_bind, h.text]
  exact hf _ m m' h

/-- Blind functions of states make blind actions. -/
theorem modifyState {f : GState → GState} (hf : GState.Blind f) :
    Blind (Action.modifyState f : Action σ Unit) := by
  intro m m' h
  refine .modifyState h ?_
  rw [hf, hf m'.stack.current, h.current]

/-- A single event may differ, in that it comes with a state, as long as it is no glyph. -/
theorem emit {e : Event} : Blind (Action.emit e : Action σ Unit) :=
  fun _ _ h => ⟨rfl, h, rfl⟩

/-- Blindness is composable, and so it holds of what is made of blind steps. -/
theorem composable : Composable (Blind (σ := σ)) where
  pure := .pure
  bind := .bind

end Blind

variable {m m' : Machine σ}

/-! ### The stack -/

/-- To save a state is to save its place with it. -/
theorem blind_save : Blind (save : Action σ Unit) := by
  intro m m' h
  refine ⟨rfl, h.setStack h.current ?_, rfl⟩
  rw [GStack.save, GStack.save, List.map_cons, List.map_cons, h.current, h.saved]

/-- Whether there is a state to be restored is a matter of depth, and not of places. The states that
are restored may be placed differently, as those were that have been saved. -/
theorem blind_restoreOwn (frame : Frame) : Blind (restoreOwn frame : Action σ Unit) := by
  intro m m' h
  rcases Nat.lt_or_ge frame.base m.stack.depth with hbase | hbase
  · have hsaved := h.saved
    rcases hs : m.stack.saved with _ | ⟨gs, saved⟩
    · have hs' : m'.stack.saved = [] := by simpa [hs] using hsaved
      rw [run_restoreOwn_of_saved_eq_nil hs, run_restoreOwn_of_saved_eq_nil hs']
      exact ⟨rfl, h, rfl⟩
    · rw [hs] at hsaved
      obtain ⟨gs', saved', hs', hgs, hrest⟩ := List.map_eq_cons_iff.mp hsaved.symm
      rw [run_restoreOwn hbase hs, run_restoreOwn (h.depth ▸ hbase) hs']
      exact ⟨rfl, h.setStack hgs.symm hrest.symm, rfl⟩
  · rw [run_restoreOwn_of_le hbase, run_restoreOwn_of_le (h.depth ▸ hbase)]
    exact ⟨rfl, h, rfl⟩

/-! ### Painting -/

/-- Paths are constructed in the coordinates of the program. -/
theorem blind_construct (step : Construction) (frame : Frame) :
    Blind (construct step frame : Action σ Frame) := by
  intro m m' h
  rw [construct, run_state_bind, run_state_bind, h.point]
  generalize step.apply frame.path m'.stack.current.point = applied
  obtain ⟨path, point⟩ := applied
  exact .bind (.modifyState h (congrArg (fun gs : GState => { gs with point }) h.current))
    fun _ _ _ hn => ⟨rfl, hn, rfl⟩

/-- A clip is narrowed to different paths, which is all that comes of it. -/
theorem blind_narrowClip (path : Path Float) : Blind (narrowClip path : Action σ Unit) := by
  intro m m' h
  have hglyphs (device : Path Float) : Trace.glyphs [.event (.clip device)] = [] := rfl
  rw [run_narrowClip, run_narrowClip]
  refine ⟨rfl, h.setStack ?_ h.saved, (hglyphs _).trans (hglyphs _).symm⟩
  exact (GState.unplaced_narrow _ _).trans (h.current.trans (GState.unplaced_narrow _ _).symm)

/-- To end a path may narrow the clip, and the current point is gone. -/
theorem blind_endPath (frame : Frame) : Blind (endPath frame : Action σ Frame) :=
  Blind.composable.endPath blind_narrowClip (.modifyState fun _ => rfl) frame

/-- No glyphs are shown when a path is painted. -/
theorem filterMap_paintEvents (painting : Painting) (gs : GState) (path : Path Float) :
    (paintEvents painting gs path).filterMap Event.glyph? = [] := by
  obtain ⟨close, _ | rule, _ | _⟩ := painting <;> rfl

/-- A path is painted in different places, but no glyphs come of it. Whether there is a path to
paint is known from the frame, which is the same. -/
theorem blind_paint (painting : Painting) (frame : Frame) :
    Blind (paint painting frame : Action σ Frame) := by
  unfold paint
  cases frame.path with
  | none => exact blind_endPath frame
  | some path =>
      dsimp only
      split
      · exact blind_endPath frame
      · intro m m' h
        rw [run_state_bind, run_state_bind]
        refine .bind (.emitAll h ?_) fun _ => blind_endPath frame
        rw [filterMap_paintEvents, filterMap_paintEvents]

/-- The same is true of an image. -/
theorem blind_drawImage (image : Image) : Blind (drawImage image : Action σ Unit) :=
  fun _ _ h => ⟨rfl, h, rfl⟩

/-! ### Writing -/

/-- The glyphs of a string are seen as they are placed. -/
theorem glyphs_map_glyph (gs : GState) (placed : List (Glyph × Matrix Float)) :
    Trace.glyphs (placed.map fun p => .event (.glyph gs p.1 p.2)) = placed := by
  induction placed with
  | nil => rfl
  | cons p placed ih => exact congrArg (p :: ·) ih

/-- A string is shown by the text object, which keeps the transform it was opened under; so its
glyphs are the same in all places. -/
theorem blind_showText (bytes : Bytes) (t : TextObject) :
    Blind (showText bytes t : Action σ TextObject) := by
  intro m m' h
  cases hfont : m.stack.current.text.font with
  | none =>
      rw [run_showText_of_none hfont, run_showText_of_none (h.text ▸ hfont)]
      exact ⟨rfl, h, rfl⟩
  | some font =>
      rw [run_showText_of_some hfont, run_showText_of_some (h.text ▸ hfont), h.text]
      exact ⟨rfl, h, by simp only [glyphs_map_glyph]⟩

/-! ### Looking things up -/

section

variable {ctx : Context σ}

/-- A font is found by way of the scopes. -/
theorem blind_selectFont (name : String) (size : Float) : Blind (selectFont ctx name size) :=
  .ofScopes (f := fun scopes => do
      let font ← ofExcept (ctx.library.findFont scopes name)
      modifyState fun gs => { gs with text.font := some font, text.size := size })
    fun _ => .bind (.ofExcept _) fun _ => .modifyState fun _ => rfl

/-- So is what an inline image is decoded with. -/
theorem blind_drawInlineImage (dict : Dict) (data : Bytes) :
    Blind (drawInlineImage ctx dict data) :=
  Blind.composable.drawInlineImage .ofScopes (fun _ => .emit) (fun _ => .ofExcept _) blind_drawImage

/-- So is a color space. -/
theorem blind_selectSpace (side : Side) (name : String) : Blind (selectSpace ctx side name) := by
  intro m m' h
  have hspace : ctx.library.spaceOf m.scopes name = ctx.library.spaceOf m'.scopes name := by
    rw [h.scopes]
  rw [run_selectSpace, run_selectSpace, hspace]
  cases ctx.library.spaceOf m'.scopes name with
  | error fault => exact ⟨rfl, h, rfl⟩
  | ok space => exact Blind.modifyState (GState.blind_setInk side _) m m' h

/-- The tile of a pattern is the same, wherever it is asked for. If it has to be rendered, that is
done in a state of its own, placed by the pattern. -/
theorem blind_tile (tiling : Tiling σ) (tint : Option Tint) :
    Blind (tile ctx (Action.call ctx) tiling tint) := by
  intro m m' h
  cases hkey : m.tiles.lookup (ctx.config.tileSharing.key tiling tint) with
  | some tile =>
      rw [run_tile_of_some m hkey, run_tile_of_some m' (h.tiles ▸ hkey)]
      exact ⟨rfl, h, rfl⟩
  | none =>
      rw [run_tile_eq keeps_call hkey, run_tile_eq keeps_call (h.tiles ▸ hkey), h.enterCell]
      exact ⟨rfl, h.setTiles _ _, rfl⟩

/-- A color is selected in the space of its side, by way of the scopes. Neither has a place, and the
tile of a pattern has one of its own. -/
theorem blind_selectColor (side : Side) (op : String) (operands : List Operand) :
    Blind (selectColor ctx (Action.call ctx) side op operands) := by
  intro m m' h
  rw [run_selectColor, run_selectColor, h.scopes, h.ink]
  rcases ctx.library.select m'.scopes op (m'.stack.current.ink side).space operands with
    fault | paint | ⟨tiling, tint⟩
  · exact ⟨rfl, h, rfl⟩
  · exact Blind.modifyState (GState.blind_setInk side _) m m' h
  · exact Blind.bind (blind_tile tiling tint)
      (fun _ => .modifyState (GState.blind_setInk side _)) m m' h

/-! ### Commands -/

/-- Commands are blind, unless they open a text object, invoke an object or paint a shading. These
three are the ones that look at the transform that is in force. -/
theorem blind_perform (frame : Frame) {command : Command} (hbegin : command ≠ .beginText)
    (hinvoke : ∀ name, command ≠ .invoke name) (hshade : ∀ name, command ≠ .shade name) :
    Blind (perform ctx (Action.call ctx) frame command) := by
  have hsame {x : Action σ Unit} (hx : Blind x) : Blind (do x; pure frame : Action σ Frame) :=
    hx.bind fun _ => .pure frame
  cases command with
  | beginText => exact absurd rfl hbegin
  | invoke name => exact absurd rfl (hinvoke name)
  | shade name => exact absurd rfl (hshade name)
  | save => exact hsame blind_save
  | restore => exact hsame (blind_restoreOwn frame)
  | set setting => exact hsame (.modifyState (GState.blind_apply setting))
  | font name size => exact hsame (blind_selectFont name size)
  | extGState name =>
      exact .ofScopes (f := fun scopes => do
          let dict ← ofExcept (ctx.library.findExtGState scopes name)
          applyParameters ctx (Parameter.ofDict dict)
          pure frame)
        fun _ => .bind (.ofExcept _) fun _ => hsame (Blind.composable.applyParameters
          (fun setting => .modifyState (GState.blind_apply setting)) blind_selectFont _)
  | construct step => exact blind_construct step frame
  | paint painting => exact blind_paint painting frame
  | clip rule | endText | beginCompatibility | ignore => exact .pure _
  | write step =>
      exact Blind.composable.write .ofText
        (fun setting => .modifyState (GState.blind_apply setting)) blind_showText step frame
  | space side name => exact hsame (blind_selectSpace side name)
  | color side op operands => exact hsame (blind_selectColor side op operands)
  | device side space color => exact hsame (.modifyState (GState.blind_setInk side _))
  | endCompatibility => exact Blind.composable.endCompatibility (.fail _)
  | unknown spelling => exact hsame .emit

end

end Action

/-! ### Instructions -/

/-- Whether a **keyword** may be carried out in any place: all may, but for those that open a text
object, invoke an object or paint a shading. -/
def Keyword.isBlind : Keyword → Bool
  | .beginText | .invoke | .shade => false
  | _ => true

/-- Whether an **instruction** opens no text object, invokes no object, and paints no shading. -/
def Instruction.isBlind : Instruction → Bool
  | .operate (.known k) _ => k.isBlind
  | _ => true

def Command.isBlind : Command → Bool
  | .beginText | .invoke _ | .shade _ => false
  | _ => true

/-- A command is blind if its operator is. -/
theorem Command.isBlind_of_decode {op : Operator} {operands : List Operand} {command : Command}
    (h : Command.decode op operands = .ok command) :
    command.isBlind = (Instruction.operate op operands).isBlind := by
  cases Operator.AsksFor.of_decode h <;> rfl

/-- An instruction **sets up a transform** in addition to the current one. -/
def Instruction.IsConcat (i : Instruction) : Prop :=
  ∃ matrix, i.AsksFor (.set (.concat matrix))

namespace Action

variable (ctx : Context σ) {m m' : Machine σ}

/-- An instruction that is blind does the same in all places, and is refused in all of them
alike. -/
theorem blind_step (frame : Frame) {i : Instruction} (hi : i.isBlind = true) :
    Blind (step ctx (Action.call ctx) frame i) := by
  rcases i with ⟨op, operands⟩ | ⟨dict, data⟩ | flaw
  · rcases hdecode : Command.decode op operands with fault | command
    · rw [step, hdecode]
      exact fun _ _ h => ⟨rfl, h, rfl⟩
    · have hcommand := Command.isBlind_of_decode hdecode
      rw [hi] at hcommand
      intro m m' h
      rw [step, hdecode, run_ok_bind, run_ok_bind]
      refine blind_perform frame ?_ (fun name => ?_) (fun name => ?_) m m' h
      all_goals
        rintro rfl
        cases hcommand
  · exact (blind_drawInlineImage dict data).bind fun _ => .pure frame
  · exact .fail _

/-- A transform that is set up makes machines drift apart, and nothing comes of it that is seen. -/
theorem exists_run_step_of_isConcat (frame : Frame) {i : Instruction} (hi : i.IsConcat)
    (m : Machine σ) :
    ∃ n, m.Drifts n ∧ (step ctx (Action.call ctx) frame i).run m = ⟨.ok frame, n, []⟩ := by
  obtain ⟨matrix, op, operands, rfl, hdecode⟩ := hi
  refine ⟨{ m with stack := m.stack.modify fun gs => (Setting.concat matrix).apply gs }, rfl, ?_⟩
  rw [step, hdecode]
  rfl

/-- Blind instructions show the same glyphs whatever transforms are set up in between, on machines
that may have drifted apart before. The induction is on how the two lists are woven. -/
theorem glyphs_run_steps_of_woven {is js : List Instruction}
    (h : Woven Instruction.IsConcat is js) (hblind : ∀ i ∈ is, i.isBlind = true) (frame : Frame)
    (hm : m.Drifts m') :
    let o := (steps ctx (Action.call ctx) frame is).run m
    let o' := (steps ctx (Action.call ctx) frame js).run m'
    o.trace.glyphs = o'.trace.glyphs ∧ o.result.toOption = o'.result.toOption ∧
      o.machine.Drifts o'.machine := by
  induction h generalizing m m' frame with
  | nil => exact ⟨rfl, rfl, hm⟩
  | @keep i is js _ ih =>
      obtain ⟨hi, hblind⟩ := List.forall_mem_cons.mp hblind
      have hstep := blind_step ctx frame hi m m' hm
      simp only [steps, run_bind]
      generalize (step ctx (Action.call ctx) frame i).run m = o at hstep
      generalize (step ctx (Action.call ctx) frame i).run m' = o' at hstep
      obtain ⟨result, n, t⟩ := o
      obtain ⟨result', n', t'⟩ := o'
      obtain ⟨rfl, hn, hglyphs⟩ := hstep
      cases result with
      | error fault => exact ⟨hglyphs, rfl, hn⟩
      | ok frame' =>
          obtain ⟨hmore, hresult, hrest⟩ := ih hblind frame' hn
          refine ⟨?_, hresult, hrest⟩
          simp only [Outcome.trace_after, Trace.glyphs_append, hmore]
          exact congrArg (· ++ _) hglyphs
  | @extra i is js hi _ ih =>
      obtain ⟨n, hn, hstep⟩ := exists_run_step_of_isConcat ctx frame hi m'
      have hsteps : (steps ctx (Action.call ctx) frame (i :: js)).run m' =
          (steps ctx (Action.call ctx) frame js).run n := by
        rw [steps, run_bind, hstep]
        exact Outcome.after_nil _
      rw [hsteps]
      exact ih hblind frame (hm.trans hn)
  | misspelled flaw flaw' _ _ => exact ⟨rfl, rfl, hm⟩

/-- What is seen of instructions that are followed by others is seen first. -/
theorem exists_trace_run_steps_append (frame : Frame) (is js : List Instruction) (m : Machine σ) :
    ∃ t, ((steps ctx (Action.call ctx) frame (is ++ js)).run m).trace =
      ((steps ctx (Action.call ctx) frame is).run m).trace ++ t := by
  cases hresult : ((steps ctx (Action.call ctx) frame is).run m).result with
  | error fault => exact ⟨[], by rw [run_steps_append_of_error hresult, List.append_nil]⟩
  | ok frame' => exact ⟨_, congrArg Outcome.trace (run_steps_append hresult js)⟩

end Action

/-! ### Open text objects -/

/-- **A transform that is set up in an open text object does not move its text.** Let a program open
a text object, and let `r` be the program with transforms set up in any number of places after that.
As far as the program goes on without opening another text object, invoking an object or painting a
shading, both show the same glyphs at the same places, and both go on to the end of that part or
neither does. What the programs do is the same before, and goes on from there in both. -/
theorem glyphs_of_open_text (ctx : Context σ) {p r : Program} {front rest rest' : List Token}
    (hp : p.tokens = front ++ .operator (.known .beginText) :: rest)
    (hr : r.tokens = front ++ .operator (.known .beginText) :: rest')
    (hspelled : ∀ i ∈ p.instructionsFrom 0 [] front, i.isMisspelled = false)
    (hcarries : p.Carries r 0 0 front) (hsplices : p.Splices r Instruction.IsConcat rest rest')
    {inside after : List Instruction} (hinside : p.instructionsFrom 0 [] rest = inside ++ after)
    (hblind : ∀ i ∈ inside, i.isBlind = true) :
    let opening := p.instructionsFrom 0 [] front ++
      [.operate (.known .beginText) (p.readFrom 0 0 [] front).left]
    ∃ inside' after',
      p.instructions = opening ++ (inside ++ after) ∧
      r.instructions = opening ++ (inside' ++ after') ∧
      Woven Instruction.IsConcat inside inside' ∧
      ∀ m : Machine σ,
        let start := (Action.steps ctx (Action.call ctx) { base := m.stack.depth } opening).run m
        (∀ fault, start.result = .error fault →
          p.outcome ctx m = start ∧ r.outcome ctx m = start) ∧
        ∀ frame, start.result = .ok frame →
          let o := (Action.steps ctx (Action.call ctx) frame inside).run start.machine
          let o' := (Action.steps ctx (Action.call ctx) frame inside').run start.machine
          o.trace.glyphs = o'.trace.glyphs ∧ o.result.toOption = o'.result.toOption ∧
          (∃ t, (p.outcome ctx m).trace = start.trace ++ (o.trace ++ t)) ∧
          ∃ t, (r.outcome ctx m).trace = start.trace ++ (o'.trace ++ t) := by
  intro opening
  have hweave := hsplices.woven
  rw [hinside] at hweave
  obtain ⟨inside', after', hinside', hwoven, -⟩ := hweave.exists_append
  have hfront := Program.instructionsFrom_shift_of_spelled hspelled hcarries
  have hleft := congrArg Reading.left (Program.readFrom_shift hcarries 0 0 [])
  rw [Token.shiftAll_zero] at hfront hleft
  have hpInstructions : p.instructions = opening ++ (inside ++ after) := by
    rw [Program.instructions, hp, Program.instructionsFrom_operator hspelled (by decide), hinside,
      List.append_assoc, List.singleton_append]
  have hrInstructions : r.instructions = opening ++ (inside' ++ after') := by
    rw [Program.instructions, hr, Program.instructionsFrom_operator (hfront ▸ hspelled) (by decide),
      hinside', hfront, hleft, List.append_assoc, List.singleton_append]
    rfl
  refine ⟨inside', after', hpInstructions, hrInstructions, hwoven, fun m => ?_⟩
  intro start
  rw [Program.outcome, Program.outcome, hpInstructions, hrInstructions]
  refine ⟨fun fault hfault => ?_, fun frame hframe => ?_⟩
  · exact ⟨Action.run_steps_append_of_error hfault _, Action.run_steps_append_of_error hfault _⟩
  · obtain ⟨hglyphs, hresult, -⟩ :=
      Action.glyphs_run_steps_of_woven ctx hwoven hblind frame (m := start.machine) rfl
    obtain ⟨t, ht⟩ := Action.exists_trace_run_steps_append ctx frame inside after
      start.machine
    obtain ⟨t', ht'⟩ := Action.exists_trace_run_steps_append ctx frame inside' after'
      start.machine
    refine ⟨hglyphs, hresult, ⟨t, ?_⟩, t', ?_⟩
    · rw [Action.run_steps_append hframe, Outcome.trace_after, ht]
    · rw [Action.run_steps_append hframe, Outcome.trace_after, ht']

namespace EnlargedText

/-- Two strings of one glyph each, **the first** of them shown. -/
def first : List Token :=
  [.string ⟨0, 1⟩, .operator (.known .showText)]

/-- The **second string** shown, and the end of the text object. -/
def second : List Token :=
  [.string ⟨1, 1⟩, .operator (.known .showText), .operator (.known .endText)]

/-- What **enlarges** all that comes after it. -/
def enlarging : List Token :=
  [2.0, 0.0, 0.0, 2.0, 0.0, 0.0].map (fun x => .number (Numeral.ofValue x)) ++
    [.operator (.known .concat)]

/-- A program that begins with a **text object**. -/
def program (rest : List Token) : Program where
  source := []
  arena := Utf8.encode "ab"
  tokens := .operator (.known .beginText) :: rest

/-- A program that shows **both strings**. -/
def plain : Program :=
  program (first ++ second)

/-- The program that enlarges **the second string**, as one might think. -/
def enlarged : Program :=
  program (first ++ (enlarging ++ second))

/-- The two programs have the same arena, so that tokens are carried over in place. -/
theorem carries (ts : List Token) : plain.Carries enlarged 0 0 ts := by
  intro t _
  cases t <;> trivial

/-- The enlarging operator stands between the two strings. It is one instruction, spelled out
correctly, and no operands are left over in front of it. -/
theorem splices :
    plain.Splices enlarged Instruction.IsConcat (first ++ second)
      (first ++ (enlarging ++ second)) := by
  have hfragment : enlarged.instructionsFrom 0 [] enlarging =
      [Keyword.concat.afterNumbers ([2.0, 0.0, 0.0, 2.0, 0.0, 0.0].map Numeral.ofValue)] := rfl
  have hextra : ∀ i ∈ enlarged.instructionsFrom 0 [] enlarging, i.IsConcat := by
    rw [hfragment]
    exact List.forall_mem_singleton.mpr ⟨_, _, _, rfl, rfl⟩
  have hspelled : ∀ i ∈ enlarged.instructionsFrom 0 [] enlarging, i.isMisspelled = false := by
    rw [hfragment]
    exact List.forall_mem_singleton.mpr rfl
  have hsecond : plain.Splices enlarged Instruction.IsConcat second (Token.shiftAll 0 0 second) :=
    .carry (carries second)
  have hboth : plain.Splices enlarged Instruction.IsConcat (first ++ second)
      (Token.shiftAll 0 0 first ++ (enlarging ++ Token.shiftAll 0 0 second)) :=
    .insert ⟨rfl, rfl⟩ (carries first) ⟨rfl, hspelled⟩ hextra hsecond
  rwa [Token.shiftAll_zero, Token.shiftAll_zero] at hboth

end EnlargedText

open EnlargedText SpacedText in
/-- A transform that doubles everything leaves both strings where they are, and as large as they
are: each is one glyph, which is the same in both programs. -/
theorem glyphs_of_open_text_of_enlarged :
    plain.Splices enlarged Instruction.IsConcat (first ++ second)
      (first ++ (enlarging ++ second)) ∧
    (∀ i ∈ plain.instructionsFrom 0 [] (first ++ second), i.isBlind = true) ∧
    ∃ inside' after',
      enlarged.instructions = .operate (.known .beginText) [] :: (inside' ++ after') ∧
      let o := (Action.steps ctx (Action.call ctx) frame
        (plain.instructionsFrom 0 [] (first ++ second))).run machine
      let o' := (Action.steps ctx (Action.call ctx) frame inside').run machine
      o.trace.glyphs.map (fun g => g.1.code) = [97, 98] ∧ o.trace.glyphs = o'.trace.glyphs := by
  have hblind : ∀ i ∈ plain.instructionsFrom 0 [] (first ++ second), i.isBlind = true := by
    decide +kernel
  obtain ⟨inside', after', -, hinstructions, -, hruns⟩ :=
    glyphs_of_open_text ctx (p := plain) (r := enlarged) rfl rfl (List.forall_mem_nil _)
      (carries []) splices (List.append_nil _).symm hblind
  obtain ⟨hglyphs, -, -, -⟩ := (hruns machine).2 frame rfl
  exact ⟨splices, hblind, inside', after', hinstructions, by decide +kernel, hglyphs⟩

end ContentStream
