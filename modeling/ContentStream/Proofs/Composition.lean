import ContentStream.Interpreter

/-!
# Actions made of other actions

Much of what is said of actions holds of a sequence if it holds of its parts: that an action cannot
fail, that it emits events of some kinds only, that it stays above a floor. Of what the interpreter
does in several steps, like painting a path or writing text, all this follows from the same about
the steps, and by one and the same argument, which is given here for any such property.

What becomes of the frame is no such property, since it differs from command to command. But it can
be told beforehand: a command alters one part of the frame, or nothing.

## Main definitions

* `Action.Composable`: a property of actions that sequences have if their parts have it.
* `Command.Alters`: how a command alters its frame.

## Main results

* `Action.Composable.paint`, `Action.Composable.write`, `Action.Composable.applyParameters`,
  `Action.Composable.drawInlineImage`: what holds of the steps holds of these actions.
* `Action.alters_of_run_perform`: a command alters its frame as is its part.
* `Action.base_of_run_step`: an instruction leaves the base of the frame as it was.
-/

namespace ContentStream

variable {σ : Type}

namespace Action

/-! ### Sequences -/

section Sequences

variable {α β : Type}

/-- What begins by reading the state goes on with the state that is current. -/
@[simp]
theorem run_state_bind (f : GState → Action σ α) (m : Machine σ) :
    (state >>= f).run m = (f m.stack.current).run m :=
  rfl

/-- What begins by looking at the machine goes on with the machine. -/
@[simp]
theorem run_machine_bind (f : Machine σ → Action σ α) (m : Machine σ) :
    (machine >>= f).run m = (f m).run m :=
  rfl

/-- What begins by finding something goes on with what is found. -/
theorem run_ok_bind (a : α) (f : α → Action σ β) (m : Machine σ) :
    (ofExcept (.ok a) >>= f).run m = (f a).run m :=
  rfl

/-- Of the machine, drawing an inline image looks at the scopes only. -/
theorem drawInlineImage_eq (ctx : Context σ) (dict : Dict) (data : Bytes) :
    drawInlineImage ctx dict data = machine >>= fun m =>
      m.scopes.head?.elim (pure ()) (fun scope =>
        emit (.inlineImage (ctx.library.label scope) dict data)) >>= fun _ =>
      ofExcept (ctx.library.inlineImage m.scopes dict data) >>= drawImage := by
  refine congrArg (machine >>= ·) (funext fun m => ?_)
  dsimp only
  cases m.scopes <;> rfl

end Sequences

/-! ### Composable properties -/

/-- A property of actions is **composable** if sequences have it whose parts have it. -/
structure Composable (P : ∀ {α : Type}, Action σ α → Prop) : Prop where
  pure {α : Type} (a : α) : P (pure a : Action σ α)
  bind {α β : Type} {x : Action σ α} {f : α → Action σ β} (hx : P x) (hf : ∀ a, P (f a)) :
    P (x >>= f)

namespace Composable

variable {P : ∀ {α : Type}, Action σ α → Prop} (hP : Composable @P)

include hP

/-! ### Paths -/

/-- Constructing a path reads the state, and sets the current point. -/
theorem construct (hstate : P (state : Action σ GState))
    (hpoint : ∀ point, P (modifyState fun gs => { gs with point } : Action σ Unit))
    (step : Construction) (frame : Frame) : P (construct step frame : Action σ Frame) :=
  hP.bind hstate fun _ => hP.bind (hpoint _) fun _ => hP.pure _

/-- Ending a path narrows the clip and takes the current point away. Of the frame, it is only asked
whether a clip is awaited. -/
theorem endPath (hclip : ∀ path, P (narrowClip path : Action σ Unit))
    (hpoint : P (modifyState fun gs => { gs with point := none } : Action σ Unit)) (frame : Frame) :
    P (endPath frame : Action σ Frame) := by
  have hend : P (do
      modifyState fun gs => { gs with point := none }
      Pure.pure { frame with path := none, pendingClip := none } : Action σ Frame) :=
    hP.bind hpoint fun _ => hP.pure _
  unfold Action.endPath
  cases frame.pendingClip with
  | none => exact hend
  | some clip => exact hP.bind (hclip clip) fun _ => hend

/-- Painting shows a path and ends it. A path that is empty is not shown, and ends all the same. -/
theorem paint {painting : Painting} {frame : Frame} (hstate : P (state : Action σ GState))
    (hshow : ∀ gs path, P (emitAll (paintEvents painting gs path) : Action σ Unit))
    (hend : P (Action.endPath frame : Action σ Frame)) :
    P (paint painting frame : Action σ Frame) := by
  unfold Action.paint
  cases frame.path with
  | none => exact hend
  | some path =>
      by_cases hempty : path.isEmpty = true
      · simp only [hempty, if_true]
        exact hend
      · simp only [hempty]
        exact hP.bind hstate fun gs => hP.bind (hshow gs path) fun _ => hend

/-! ### Text -/

/-- Text is shown in the state that is current. -/
theorem showText (hstate : P (state : Action σ GState))
    (hglyphs : ∀ gs (placed : List (Glyph × Matrix Float)),
      P (emitAll (placed.map fun (g, m) => .glyph gs g m) : Action σ Unit))
    (bytes : Bytes) (t : TextObject) : P (showText bytes t : Action σ TextObject) := by
  refine hP.bind hstate fun gs => ?_
  dsimp only
  cases gs.text.font with
  | none => exact hP.pure t
  | some font => exact hP.bind (hglyphs gs _) fun _ => hP.pure _

/-- What may look at the whole state may look at the parameters of text. -/
theorem ofText (hstate : P (state : Action σ GState)) {α : Type} {f : TextState → Action σ α}
    (hf : ∀ text, P (f text)) : P (state >>= fun gs => f gs.text) :=
  hP.bind hstate fun gs => hf gs.text

section Writing

variable
  (htext : ∀ {α : Type} {f : TextState → Action σ α}, (∀ text, P (f text)) →
    P (state >>= fun gs => f gs.text))
  (hset : ∀ setting : Setting, P (modifyState fun gs => setting.apply gs : Action σ Unit))
  (hshow : ∀ bytes t, P (Action.showText bytes t : Action σ TextObject))

include htext hshow in
/-- The items of an adjusted string are shown one by one, with the text moved in between. -/
theorem showItems (items : List Operand) (t : TextObject) :
    P (showItems items t : Action σ TextObject) := by
  induction items generalizing t with
  | nil => exact hP.pure t
  | cons item items ih =>
      cases item with
      | string bytes => exact hP.bind (hshow bytes t) ih
      | number amount => exact htext fun text => ih (t.adjust amount.value text)
      | _ => exact ih t

include htext in
/-- To go to the next line is to look at the leading, and to move. -/
theorem nextLine (t : TextObject) : P (nextLine t : Action σ TextObject) :=
  htext fun text => hP.pure (t.moveLine 0.0 (-text.leading))

include htext hset hshow

/-- Writing looks at the parameters of text, sets some of them, and shows strings. The two operators
that set parameters do so in front of everything else. -/
theorem writeOpen (step : Writing) (t : TextObject) :
    P (writeOpen step t : Action σ TextObject) := by
  have hnext (t : TextObject) : P (Action.nextLine t : Action σ TextObject) := hP.nextLine htext t
  cases step with
  | moveLine tx ty => exact hP.pure _
  | moveLineLeading tx ty => exact hP.bind (hset (.leading (-ty))) fun _ => hP.pure _
  | setMatrix m => exact hP.pure _
  | nextLine => exact hnext t
  | write bytes => exact hshow bytes t
  | writeAdjusted items => exact hP.showItems htext hshow items t
  | nextLineWrite bytes => exact hP.bind (hnext t) (hshow bytes)
  | nextLineWriteSpaced wordSpacing charSpacing bytes =>
      exact hP.bind (hset (.wordSpacing wordSpacing)) fun _ =>
        hP.bind (hset (.charSpacing charSpacing)) fun _ => hP.bind (hnext t) (hshow bytes)

/-- Writing outside of a text object does nothing, and within one it is what is said above. -/
theorem write (step : Writing) (frame : Frame) : P (write step frame : Action σ Frame) := by
  unfold Action.write
  by_cases hactive : frame.text.active = true
  · simp only [hactive, if_true]
    exact hP.bind (hP.writeOpen htext hset hshow step frame.text) fun _ => hP.pure _
  · simp only [hactive]
    exact hP.pure frame

end Writing

/-! ### Parameters and images -/

variable {ctx : Context σ}

/-- Graphics state parameters are settings and fonts, which take effect one by one. The induction is
on the entries that are left. -/
theorem applyParameters
    (hset : ∀ setting : Setting, P (modifyState fun gs => setting.apply gs : Action σ Unit))
    (hfont : ∀ name size, P (selectFont ctx name size)) (parameters : List Parameter) :
    P (applyParameters ctx parameters) := by
  induction parameters with
  | nil => exact hP.pure ()
  | cons parameter rest ih =>
      cases parameter with
      | set setting => exact hP.bind (hset setting) fun _ => ih
      | font name size => exact hP.bind (hfont name size) fun _ => ih

/-- An inline image is asked for in the innermost scope, if there is one, and drawn. The scopes are
all that it needs to know, so the property may be one that does not hold of looking at the whole
machine. -/
theorem drawInlineImage {dict : Dict} {data : Bytes}
    (hscopes : ∀ {α : Type} {f : List σ → Action σ α}, (∀ scopes, P (f scopes)) →
      P (machine >>= fun m => f m.scopes))
    (hrequest : ∀ scope, P (emit (.inlineImage (ctx.library.label scope) dict data)))
    (himage : ∀ scopes, P (ofExcept (ctx.library.inlineImage scopes dict data)))
    (hdraw : ∀ image, P (drawImage image : Action σ Unit)) :
    P (drawInlineImage ctx dict data) := by
  rw [drawInlineImage_eq]
  refine hscopes (f := fun scopes =>
    scopes.head?.elim (Pure.pure ()) (fun scope =>
      emit (.inlineImage (ctx.library.label scope) dict data)) >>= fun _ =>
    ofExcept (ctx.library.inlineImage scopes dict data) >>= Action.drawImage) fun scopes => ?_
  refine hP.bind ?_ fun _ => hP.bind (himage scopes) hdraw
  cases scopes with
  | nil => exact hP.pure ()
  | cons scope scopes => exact hrequest scope

/-- A compatibility section is ended by a fault if there is none. -/
theorem endCompatibility {call : Bytes → Action σ Unit} {frame : Frame}
    (hfail : P (fail .unbalancedCompatibility : Action σ Frame)) :
    P (perform ctx call frame .endCompatibility) := by
  simp only [perform]
  cases frame.compatibility with
  | zero => exact hfail
  | succ n => exact hP.pure _

end Composable

end Action

/-! ### Frames -/

/-- How a **command alters a frame**: one part of it, or nothing. A path that is ended takes the
clip with it that was asked for. -/
def Command.Alters (frame f : Frame) : Command → Prop
  | .construct _ => ∃ path, f = { frame with path }
  | .clip _ => ∃ pendingClip, f = { frame with pendingClip }
  | .paint _ | .shade _ => f = { frame with path := none, pendingClip := none }
  | .beginText | .endText | .write _ => ∃ text, f = { frame with text }
  | .beginCompatibility | .endCompatibility => ∃ compatibility, f = { frame with compatibility }
  | _ => f = frame

/-- The base of a frame is no part that a command alters. It is given once, when a program
begins. -/
theorem Command.Alters.base_eq {frame f : Frame} {command : Command} (h : command.Alters frame f) :
    f.base = frame.base := by
  cases command with
  | construct | clip | beginText | endText | write | beginCompatibility | endCompatibility =>
      obtain ⟨_, rfl⟩ := h
      rfl
  | _ =>
      obtain rfl := h
      rfl

namespace Action

variable {ctx : Context σ} {m : Machine σ}

/-- A sequence that gives a result goes on from the result of its first action. -/
theorem exists_of_run_bind {α β : Type} {x : Action σ α} {f : α → Action σ β} {b : β}
    (h : ((x >>= f).run m).result = .ok b) :
    ∃ a, (x.run m).result = .ok a ∧ ((f a).run (x.run m).machine).result = .ok b ∧
      ((x >>= f).run m).machine = ((f a).run (x.run m).machine).machine := by
  rw [run_bind] at h ⊢
  generalize x.run m = o at h ⊢
  rcases o with ⟨fault | a, n, t⟩
  · cases h
  · exact ⟨a, rfl, h, rfl⟩

/-- An action after which a frame is given gives that frame, if anything. -/
theorem eq_of_run_bind_pure {α β : Type} {x : Action σ α} {b c : β}
    (h : ((x >>= fun _ => (pure b : Action σ β)).run m).result = .ok c) : c = b := by
  obtain ⟨_, -, hc, -⟩ := exists_of_run_bind h
  exact (Except.ok.inj hc).symm

/-- Once a path has been ended there is no path and no current point, and no clip is asked for
either. -/
theorem ended_of_run_endPath {frame f : Frame} (h : ((endPath frame).run m).result = .ok f) :
    f = { frame with path := none, pendingClip := none } ∧
      ((endPath frame).run m).machine.stack.current.point = none := by
  revert h
  unfold endPath
  cases frame.pendingClip with
  | none => rintro ⟨⟩; exact ⟨rfl, rfl⟩
  | some clip => rintro ⟨⟩; exact ⟨rfl, rfl⟩

/-- So it is when a path has been painted, since the end of the path is the last thing that painting
does. -/
theorem ended_of_run_paint {painting : Painting} {frame f : Frame}
    (h : ((paint painting frame).run m).result = .ok f) :
    f = { frame with path := none, pendingClip := none } ∧
      ((paint painting frame).run m).machine.stack.current.point = none := by
  revert h
  unfold paint
  cases frame.path with
  | none => exact ended_of_run_endPath
  | some path =>
      by_cases hempty : path.isEmpty = true
      · simp only [hempty, if_true]
        exact ended_of_run_endPath
      · simp only [hempty, Bool.false_eq_true, if_false, run_state_bind]
        exact ended_of_run_endPath

/-- So it is when a shading has been painted. Where it is not, because there is no shading of this
name or no region, there is no frame to speak of. -/
theorem ended_of_run_shade {name : String} {frame f : Frame}
    (h : ((shade ctx name frame).run m).result = .ok f) :
    f = { frame with path := none, pendingClip := none } ∧
      ((shade ctx name frame).run m).machine.stack.current.point = none := by
  revert h
  unfold shade
  simp only [run_machine_bind]
  cases ctx.library.findShading m.scopes name with
  | error fault => intro h; cases h
  | ok shading =>
      rw [run_ok_bind]
      cases shadedRegion? m.stack.current.ctm m.stack.current.clip m.pageBounds shading.bbox with
      | none => intro h; cases h
      | some region => exact ended_of_run_endPath

/-- Every command alters the frame as is its part. There is a case for each command, and what
follows for frames is then read off `Command.Alters` without looking at commands again. -/
theorem alters_of_run_perform {call : Bytes → Action σ Unit} {frame f : Frame} {command : Command}
    (h : ((perform ctx call frame command).run m).result = .ok f) : command.Alters frame f := by
  cases command with
  | save | restore | set setting | font name size | space side name | color side op operands
  | device side model color | invoke name | unknown spelling => exact eq_of_run_bind_pure h
  | extGState name =>
      obtain ⟨_, -, h, -⟩ := exists_of_run_bind h
      obtain ⟨_, -, h, -⟩ := exists_of_run_bind h
      exact eq_of_run_bind_pure h
  | construct step | clip rule | beginText | endText | beginCompatibility =>
      cases h
      exact ⟨_, rfl⟩
  | ignore =>
      cases h
      rfl
  | write step =>
      rw [perform, write] at h
      split at h
      · obtain ⟨t, -, h, -⟩ := exists_of_run_bind h
        cases h
        exact ⟨t, rfl⟩
      · cases h
        exact ⟨frame.text, rfl⟩
  | paint painting => exact (ended_of_run_paint h).1
  | shade name => exact (ended_of_run_shade h).1
  | endCompatibility =>
      rw [perform] at h
      split at h <;> cases h
      exact ⟨_, rfl⟩

/-- An instruction leaves the base of the frame as it was. -/
theorem base_of_run_step {call : Bytes → Action σ Unit} {frame f : Frame} {i : Instruction}
    (h : ((step ctx call frame i).run m).result = .ok f) : f.base = frame.base := by
  cases i with
  | operate op operands =>
      obtain ⟨command, -, hcommand, -⟩ := exists_of_run_bind h
      exact (alters_of_run_perform hcommand).base_eq
  | drawImage dict data => rw [eq_of_run_bind_pure h]
  | misspelled flaw => cases h

end Action

end ContentStream
