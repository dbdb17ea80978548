import ContentStream.Proofs.Likeness
import ContentStream.Proofs.Standing

/-!
# Current points

A nested program starts with no path of its own, but with the current point of its caller. Two runs
of it are compared here, for callers that differ in nothing but this point. As long as the program
makes no use of it, the runs are the same: what the program draws, the paths and the transforms, the
result, and all that the caller is left with. The states that come with the events differ in nothing
but current points.

The program may invoke forms. These find the same point, or one that their caller has made; so what
is asked of the program is asked of all the forms that it reaches. Nothing is asked of the cells of
patterns, which start without a current point.

The runs are compared in a likeness that changes from one command to the next, with the standing of
the program: current points are the same where the program knows them to be its own, in the current
state and in those that it has saved.

## Main definitions

* `pointing`: the likeness of two runs of a program with a given standing.
* `Outcome.SameButPoint`: outcomes for callers that differ in their current points.

## Main results

* `Action.alike_perform`: what a command does to the standing.
* `Action.alike_steps`: instructions that are allowed go alike.
* `nested_sameButPoint`: nested programs do not see the points of their callers, if they keep to
  their own.
* `nested_uses_foreign_point`: some do not.
-/

namespace ContentStream

variable {σ : Type}

/-! ### States that differ in points -/

namespace GState

/-- States that are **the same but for the current point**. -/
abbrev LikeButPoint : GState → GState → Prop :=
  Like Eq fun _ _ => True

/-- States whose **current points are the same**, as far as a program knows them to be. -/
abbrev LikeIfOwn (own : Bool) : GState → GState → Prop :=
  Like Eq fun p p' => own = true → p = p'

/-- A state is the same as itself. -/
theorem LikeButPoint.refl (gs : GState) : gs.LikeButPoint gs :=
  ⟨rfl, rfl, trivial, rfl⟩

/-- A state is the same as that with another current point. -/
theorem LikeButPoint.setPoint (gs : GState) (p : Option (Point Float)) :
    gs.LikeButPoint { gs with point := p } :=
  ⟨rfl, rfl, trivial, rfl⟩

/-- States whose points are compared are the same but for them. -/
theorem Like.butPoint {own : Bool} {gs gs' : GState} (h : LikeIfOwn own gs gs') :
    gs.LikeButPoint gs' :=
  h.mono (fun _ _ h => h) fun _ => trivial

/-- Of a point that is not a program's own nothing is known. -/
theorem LikeButPoint.ifOwn {gs gs' : GState} (h : gs.LikeButPoint gs') : LikeIfOwn false gs gs' :=
  h.mono (fun _ _ h => h) fun _ h => by cases h

end GState

/-- Programs are entered alike from states that are. -/
theorem GState.Like.entering {gs gs' : GState} (h : gs.LikeButPoint gs') (transform : Matrix Float)
    (clip : Option (Rect Float)) :
    Trace.Like GState.LikeButPoint (gs.entering transform clip) (gs'.entering transform clip) := by
  cases clip with
  | none => exact .cons (.event (.save h)) .nil
  | some box =>
      rw [GState.entering, GState.entering, h.ctm_eq]
      exact .cons (.event (.save h)) (.cons (.event (.plain rfl)) .nil)

/-! ### Machines that differ in points -/

/-- Saved states that are **the same but for current points**; of those that the program has saved
itself, which come first, points are the same as far as it knows them to be. -/
def SavedLike : (own : List Bool) → List GState → List GState → Prop
  | [], saved, saved' => List.Forall₂ GState.LikeButPoint saved saved'
  | own :: owns, gs :: saved, gs' :: saved' =>
    GState.LikeIfOwn own gs gs' ∧ SavedLike owns saved saved'
  | _ :: _, _, _ => False

/-- Saved states are the same but for their points, whichever of these are known. -/
theorem SavedLike.butPoint {owns : List Bool} {saved saved' : List GState}
    (h : SavedLike owns saved saved') : List.Forall₂ GState.LikeButPoint saved saved' := by
  induction owns generalizing saved saved' with
  | nil => exact h
  | cons own owns ih =>
      match saved, saved', h with
      | gs :: saved, gs' :: saved', ⟨hgs, hrest⟩ => exact .cons hgs.butPoint (ih hrest)

/-- Machines that are **the same but for current points** on their stacks. -/
structure Machine.LikeButPoints (m m' : Machine σ) : Prop where
  current : m.stack.current.LikeButPoint m'.stack.current
  saved : List.Forall₂ GState.LikeButPoint m.stack.saved m'.stack.saved
  rest : { m with stack := m'.stack } = m'

/-- The laws hold of points that are the same if they are the program's own, with traces in which
states are the same but for their points. -/
theorem laws_pointing (s : Standing) :
    Likeness.Laws Eq (fun p p' => s.own = true → p = p') (Trace.Like GState.LikeButPoint) where
  ink_shading _ _ _ := rfl
  point_none _ := rfl
  trace_nil := .nil
  trace_append h h' := List.rel_append h h'
  trace_event h := .cons (.event (h.mono fun _ _ h => h.butPoint)) .nil

/-- Runs at a site are compared by **what the program there knows** of current points. The frame of
the program began at depth `base`. -/
def pointing (site : Site σ) (base : Nat) (s : Standing) : Likeness σ where
  ink := Eq
  point p p' := s.own = true → p = p'
  saved saved saved' := saved.length + 1 = base + s.saved.length ∧ SavedLike s.saved saved saved'
  rest m m' := { m with stack := m'.stack } = m' ∧ m.scopes = site.scopes ∧ m.forms = site.forms
  trace := Trace.Like GState.LikeButPoint
  laws := laws_pointing s
  rest_stack _ stack' h := ⟨congrArg (fun m : Machine σ => { m with stack := stack' }) h.1, h.2⟩
  pageBounds_eq h := (congrArg Machine.pageBounds h.1 :)

namespace Machine.LikeButPoints

variable {m m' : Machine σ}

/-- Machines that are called on differ in no more than those of the callers. The program that is
called knows nothing of its current point yet, nor has it saved any states. -/
theorem enter (h : m.LikeButPoints m') (content : Bytes) (transform : Matrix Float)
    (clip : Option (Rect Float)) (scope : Option σ) :
    (pointing ⟨scope.toList ++ m.scopes, m.forms, content⟩
      (m.enter transform clip scope).stack.depth {}).Holds
      (m.enter transform clip scope) (m'.enter transform clip scope) := by
  have hcurrent := h.current.ifOwn.map (GState.passive_nested transform clip)
  refine ⟨hcurrent, ⟨rfl, .cons h.current h.saved⟩, ?_, rfl, rfl⟩
  exact (congrArg (fun n : Machine σ => { n with
    stack := (m'.enter transform clip scope).stack
    scopes := scope.toList ++ n.scopes }) h.rest :)

/-- To note that a form is in execution makes no difference to points. -/
theorem execute (h : m.LikeButPoints m') (id : Nat) :
    Machine.LikeButPoints { m with forms := id :: m.forms } { m' with forms := id :: m'.forms } :=
  ⟨h.current, h.saved,
    (congrArg (fun n : Machine σ => { n with forms := id :: n.forms }) h.rest :)⟩

end Machine.LikeButPoints

namespace Likeness.Holds

variable {site : Site σ} {base : Nat} {s : Standing} {m m' : Machine σ}

/-- Whatever is known of points at a site, machines there are the same but for points. -/
theorem butPoints (h : (pointing site base s).Holds m m') : m.LikeButPoints m' :=
  ⟨h.current.butPoint, h.saved.2.butPoint, h.rest.1⟩

/-- So they have the same scopes. -/
theorem scopes_eq (h : (pointing site base s).Holds m m') : m'.scopes = m.scopes :=
  (congrArg Machine.scopes h.rest.1 :).symm

/-- So they are executing the same forms. -/
theorem forms_eq (h : (pointing site base s).Holds m m') : m'.forms = m.forms :=
  (congrArg Machine.forms h.rest.1 :).symm

/-- Machines stay alike with the same new tiles. -/
theorem setTiles (h : (pointing site base s).Holds m m') (tiles : List (TileKey × Tile)) (n : Nat) :
    (pointing site base s).Holds { m with tiles := tiles, finished := n }
      { m' with tiles := tiles, finished := n } :=
  ⟨h.current, h.saved,
    (congrArg (fun k : Machine σ => { k with tiles := tiles, finished := n }) h.rest.1 :),
    h.rest.2⟩

/-- Standings that tell no more than is known hold as well. -/
theorem stand {s' : Standing} (h : (pointing site base s).Holds m m')
    (hown : s'.own = true → m.stack.current.point = m'.stack.current.point)
    (hsaved : s'.saved = s.saved) : (pointing site base s').Holds m m' := by
  have hstack : m.stack.saved.length + 1 = base + s'.saved.length ∧
      SavedLike s'.saved m.stack.saved m'.stack.saved := hsaved ▸ h.saved
  exact ⟨⟨h.current.fill, h.current.stroke, hown, h.current.others⟩, hstack, h.rest⟩

/-- A form is called on machines of which its program knows nothing but what is the same. -/
theorem enterForm (h : (pointing site base s).Holds m m') (form : Form σ) :
    (pointing (form.site site.scopes site.forms) (m.enterForm form).stack.depth {}).Holds
      (m.enterForm form) (m'.enterForm form) := by
  obtain ⟨-, hscopes, hforms⟩ := h.rest
  rw [← hscopes, ← hforms]
  exact (h.butPoints.execute form.identity).enter form.content form.matrix (some form.bbox)
    form.scope

end Likeness.Holds

namespace Action

variable {ctx : Context σ} {m m' : Machine σ}

/-- Commands that neither construct a path nor end one leave it alone. So the standing may say that
no path is begun for as long as none is. -/
theorem path_of_run_perform {call : Bytes → Action σ Unit} {frame f : Frame} {command : Command}
    (hconstruct : ∀ step, command ≠ .construct step)
    (hpaint : ∀ painting, command ≠ .paint painting) (hshade : ∀ name, command ≠ .shade name)
    (h : ((perform ctx call frame command).run m).result = .ok f) : f.path = frame.path := by
  have halters := alters_of_run_perform h
  cases command with
  | construct step => exact absurd rfl (hconstruct step)
  | paint painting => exact absurd rfl (hpaint painting)
  | shade name => exact absurd rfl (hshade name)
  | clip | beginText | endText | write | beginCompatibility | endCompatibility =>
      obtain ⟨_, rfl⟩ := halters
      rfl
  | _ => exact congrArg Frame.path halters

/-! ### Programs that keep to their own points -/

/-- Outcomes at a site, of a program that **stands as given** if it gives a frame. -/
abbrev AlikeAt (site : Site σ) (base : Nat) (s : Standing) :
    Outcome σ Frame → Outcome σ Frame → Prop :=
  Outcome.Alike (Trace.Like GState.LikeButPoint) Machine.LikeButPoints fun f f' n n' =>
    f = f' ∧ f.base = base ∧ (s.begun = false → f.path = none) ∧ (pointing site base s).Holds n n'

/-- Outcomes that are alike **but for current points**. -/
abbrev AlikeButPoints {α : Type} : Outcome σ α → Outcome σ α → Prop :=
  Outcome.Alike (Trace.Like GState.LikeButPoint) Machine.LikeButPoints fun a b n n' =>
    a = b ∧ n.LikeButPoints n'

/-- Sequencing, as far as traces of states without points are concerned. The standing after the
first action is the one that the second starts from. -/
theorem AlikeAt.andThen {α : Type} {site : Site σ} {base : Nat} {s : Standing}
    {good : α → α → Machine σ → Machine σ → Prop} {x y : Action σ Frame} {f : Frame → Action σ α}
    (h : AlikeAt site base s (x.run m) (y.run m'))
    (hf : ∀ a b n n', (a = b ∧ a.base = base ∧ (s.begun = false → a.path = none) ∧
        (pointing site base s).Holds n n') →
      Outcome.Alike (Trace.Like GState.LikeButPoint) Machine.LikeButPoints good
        ((f a).run n) ((f b).run n')) :
    Outcome.Alike (Trace.Like GState.LikeButPoint) Machine.LikeButPoints good
      ((x >>= f).run m) ((y >>= f).run m') :=
  Outcome.Alike.bind (L := pointing site base s) h hf

section Performing

variable {site : Site σ} {s s' : Standing} {frame : Frame} {call : Bytes → Action σ Unit}

/-- Two machines that are alike find the same resources, as the context is the same for both. -/
theorem agrees_pointing (base : Nat) (command : Command) :
    command.Agrees (pointing site base s) ctx ctx := by
  have hscopes (n n' : Machine σ) (hn : (pointing site base s).rest n n') : n.scopes = n'.scopes :=
    (congrArg Machine.scopes hn.1 :)
  exact command.agrees_of_scopes_eq rfl hscopes (fun _ _ _ _ => rfl) fun _ _ _ _ => rfl

/-- A steady command either ends the path, or leaves the path alone and the standing with it. Both
come with what is foreseen of the standing. -/
theorem ends_or_keeps_path {command : Command} (hsteady : command.isSteady = true)
    (hs : s.after command = some s') :
    (s'.saved = s.saved ∧
      ∀ n f, ((perform ctx call frame command).run n).result = .ok f → f.path = none ∧
        ((perform ctx call frame command).run n).machine.stack.current.point = none) ∨
    (s' = s ∧
      ∀ n f, ((perform ctx call frame command).run n).result = .ok f → f.path = frame.path) := by
  cases command with
  | save | restore | construct _ | color _ _ _ | invoke _ => cases hsteady
  | paint painting =>
      obtain rfl := Option.some.inj hs
      exact .inl ⟨rfl, fun n f h => (ended_of_run_paint h).imp_left (congrArg Frame.path)⟩
  | shade name =>
      obtain rfl := Option.some.inj hs
      exact .inl ⟨rfl, fun n f h => (ended_of_run_shade h).imp_left (congrArg Frame.path)⟩
  | _ =>
      obtain rfl := Option.some.inj hs
      exact .inr ⟨rfl, fun n f => path_of_run_perform (by simp) (by simp) (by simp)⟩

/-- Steady commands go alike at a site, and come to the standing that is foreseen. If a path has
been ended, both machines have no current point, whatever was known of the points before. -/
theorem alike_perform_of_steady (h : (pointing site frame.base s).Holds m m')
    (hpath : s.begun = false → frame.path = none) {command : Command}
    (hsteady : command.isSteady = true) (hs : s.after command = some s') :
    AlikeAt site frame.base s' ((perform ctx call frame command).run m)
      ((perform ctx call frame command).run m') := by
  have hagrees : command.Agrees (pointing site frame.base s) ctx ctx := agrees_pointing _ command
  have hsame := same_perform h hsteady hagrees call call frame
  have hbase {n : Machine σ} {f : Frame}
      (hf : ((perform ctx call frame command).run n).result = .ok f) : f.base = frame.base :=
    (alters_of_run_perform hf).base_eq
  have hkind := @ends_or_keeps_path _ ctx s s' frame call command hsteady hs
  generalize ho : (perform ctx call frame command).run m = o at hsame
  generalize ho' : (perform ctx call frame command).run m' = o' at hsame
  cases hsame with
  | error fault ht hn => exact .error fault ht hn.butPoints
  | @ok f f' n n' t t' ht hn =>
      obtain ⟨rfl, hn⟩ := hn
      refine .ok ht ⟨rfl, hbase (by rw [ho]), ?_⟩
      rcases hkind with ⟨hsaved, hended⟩ | ⟨rfl, hkept⟩
      · have hend := hended m f (by rw [ho])
        have hend' := hended m' f (by rw [ho'])
        rw [ho] at hend
        rw [ho'] at hend'
        exact ⟨fun _ => hend.1, hn.stand (fun _ => hend.2.trans hend'.2.symm) hsaved⟩
      · exact ⟨fun hs => (hkept m f (by rw [ho])).trans (hpath hs), hn⟩

/-- A step of construction goes alike if it is allowed: it makes a point of its own, or starts from
one. -/
theorem alike_construct (h : (pointing site frame.base s).Holds m m')
    (hpath : s.begun = false → frame.path = none) {step : Construction}
    (hs : s.draw step = some s') :
    AlikeAt site frame.base s' ((construct step frame).run m) ((construct step frame).run m') := by
  obtain ⟨happly, hown, hbegun⟩ := Construction.apply_eq_of_draw hs h.current.point hpath
  have hsaved : m.stack.saved.length + 1 = frame.base + s'.saved.length ∧
      SavedLike s'.saved m.stack.saved m'.stack.saved := Standing.saved_of_draw hs ▸ h.saved
  rw [construct, run_state_bind, run_state_bind]
  generalize step.apply frame.path m.stack.current.point = applied at happly hown hbegun
  generalize step.apply frame.path m'.stack.current.point = applied' at happly hown
  obtain ⟨path, point⟩ := applied
  obtain ⟨path', point'⟩ := applied'
  obtain rfl : path = path' := happly
  have hcurrent : GState.LikeIfOwn s'.own { m.stack.current with point := point }
      { m'.stack.current with point := point' } := h.current.setPoint hown
  exact .ok .nil
    ⟨rfl, rfl, hbegun, hcurrent, hsaved, (pointing site frame.base s).rest_stack _ _ h.rest⟩

/-- When a state is saved, it is noted whether the point in it is the program's own. So the notes
are as many as the states that the program has saved. -/
theorem alike_save (h : (pointing site frame.base s).Holds m m')
    (hpath : s.begun = false → frame.path = none) :
    AlikeAt site frame.base { s with saved := s.own :: s.saved }
      ((do save; pure frame : Action σ Frame).run m)
      ((do save; pure frame : Action σ Frame).run m') := by
  obtain ⟨hlength, hsaved⟩ := h.saved
  have hsaved' :
      (m.stack.current :: m.stack.saved).length + 1 = frame.base + (s.own :: s.saved).length ∧
      SavedLike (s.own :: s.saved) (m.stack.current :: m.stack.saved)
        (m'.stack.current :: m'.stack.saved) := by
    refine ⟨?_, h.current, hsaved⟩
    simp only [List.length_cons]
    omega
  exact .ok (.cons (.event (.save h.current.butPoint)) .nil)
    ⟨rfl, rfl, hpath, h.current, hsaved', (pointing site frame.base s).rest_stack _ _ h.rest⟩

/-- When a state is restored, what was noted is what is known again. If the program has saved none,
both runs fail with the same fault. -/
theorem alike_restoreOwn (h : (pointing site frame.base s).Holds m m')
    (hpath : s.begun = false → frame.path = none) :
    AlikeAt site frame.base { s with own := s.saved.headD false, saved := s.saved.tail }
      ((do restoreOwn frame; pure frame : Action σ Frame).run m)
      ((do restoreOwn frame; pure frame : Action σ Frame).run m') := by
  have hbut := h.butPoints
  obtain ⟨hlength, hsaved⟩ := h.saved
  have hdepth : m.stack.depth = m'.stack.depth := congrArg (· + 1) hsaved.butPoint.length_eq
  have hfloor : m.stack.depth = frame.base + s.saved.length := hlength
  simp only [run_bind]
  -- The standing counts the states that the program has saved, and so tells when none is left.
  rcases howns : s.saved with _ | ⟨own, owns⟩
  · have hbase : m.stack.depth ≤ frame.base := by simp [hfloor, howns]
    rw [run_restoreOwn_of_le hbase, run_restoreOwn_of_le (hdepth ▸ hbase)]
    exact .error _ .nil hbut
  · have hbase : frame.base < m.stack.depth := by simp [hfloor, howns]
    rw [howns] at hsaved hlength
    rcases hs : m.stack.saved with _ | ⟨gs, saved⟩ <;>
      rcases hs' : m'.stack.saved with _ | ⟨gs', saved'⟩ <;> rw [hs, hs'] at hsaved
    · cases hsaved
    · cases hsaved
    · cases hsaved
    · rw [run_restoreOwn hbase hs, run_restoreOwn (hdepth ▸ hbase) hs']
      have hlength' : saved.length + 1 = frame.base + owns.length := by
        simp only [hs, List.length_cons] at hlength
        omega
      exact .ok (.cons (.event (.restore hsaved.1.butPoint)) .nil) ⟨rfl, rfl, hpath, hsaved.1,
        ⟨hlength', hsaved.2⟩, (pointing site frame.base s).rest_stack _ _ h.rest⟩

/-- Actions that leave the frame to the program go alike with it, if they do so by themselves.
Neither the path nor the standing has changed. -/
theorem alike_andPure {x y : Action σ Unit} (hpath : s.begun = false → frame.path = none)
    (h : (pointing site frame.base s).Same (x.run m) (y.run m')) :
    AlikeAt site frame.base s ((do x; pure frame : Action σ Frame).run m)
      ((do y; pure frame : Action σ Frame).run m') := by
  simp only [run_bind]
  generalize x.run m = o at h
  generalize y.run m' = o' at h
  cases h with
  | ok ht h => exact .ok (List.rel_append ht .nil) ⟨rfl, rfl, hpath, h.2⟩
  | error fault ht h => exact .error fault ht h.butPoints

section Nesting

variable (hcall : ∀ floor content, Keeps ctx floor anything (call content))

include hcall

/-- A color goes alike, since operands and scopes are the same. A cell starts from a state of its
own, in which no current point is left. -/
theorem alike_selectColor (h : (pointing site frame.base s).Holds m m') (side : Side) (op : String)
    (operands : List Operand) :
    (pointing site frame.base s).Same ((selectColor ctx call side op operands).run m)
      ((selectColor ctx call side op operands).run m') := by
  have hink : m.stack.current.ink side = m'.stack.current.ink side := h.current.ink_side side
  rw [run_selectColor, run_selectColor, h.scopes_eq, ← hink]
  cases ctx.library.select m.scopes op (m.stack.current.ink side).space operands with
  | error fault => exact same_fail h fault
  | ok selection =>
      cases selection with
      | paint paint => exact same_modifyState h (h.current.setInk side rfl)
      | tiling tiling tint =>
          refine same_bind ?_ fun tile n n' hn => same_modifyState hn (hn.current.setInk side rfl)
          have htiles : m.tiles = m'.tiles := (congrArg Machine.tiles h.rest.1 :)
          rcases hkey : m.tiles.lookup (ctx.config.tileSharing.key tiling tint) with _ | tile
          · have hcell : m.enterCell tiling tint = m'.enterCell tiling tint :=
              (congrArg (fun n : Machine σ => n.enterCell tiling tint) h.rest.1 :)
            rw [run_tile_eq hcall hkey, run_tile_eq hcall (htiles ▸ hkey), hcell]
            exact .ok (.refl GState.LikeButPoint.refl _) ⟨rfl, h.setTiles _ _⟩
          · rw [run_tile_of_some m hkey, run_tile_of_some m' (htiles ▸ hkey)]
            exact .ok (.refl GState.LikeButPoint.refl _) ⟨rfl, h⟩

/-- A form goes alike if its content does: all that is left of it are the same tiles. What is shown
of entering and leaving it comes with states that are the same but for points. -/
theorem alike_runForm (h : (pointing site frame.base s).Holds m m') {form : Form σ}
    (hform : form.identity ∉ site.forms →
      AlikeButPoints ((call form.content).run (m.enterForm form))
        ((call form.content).run (m'.enterForm form))) :
    (pointing site frame.base s).Same ((runForm call form).run m) ((runForm call form).run m') := by
  refine same_runForm hcall hcall h (by rw [h.forms_eq]) fun hid => ?_
  have hrun := (hform (h.rest.2.2 ▸ hid)).both
  generalize (call form.content).run (m.enterForm form) = o at hrun
  generalize (call form.content).run (m'.enterForm form) = o' at hrun
  obtain ⟨-, ht, hmachine⟩ := hrun
  have hdepth : m.stack.depth = m'.stack.depth :=
    congrArg (· + 1) h.saved.2.butPoint.length_eq
  have htiles : o.machine.tiles = o'.machine.tiles := (congrArg Machine.tiles hmachine.rest :)
  have hfinished : o.machine.finished = o'.machine.finished :=
    (congrArg Machine.finished hmachine.rest :)
  have hbefore := h.current.butPoint.entering form.matrix (some form.bbox)
  have hafter := Trace.Like.leaving hmachine.saved m.stack.depth
  refine ⟨List.rel_append hbefore (List.rel_append ht (hdepth ▸ hafter)), ?_⟩
  rw [Machine.returned, Machine.returned, htiles, hfinished]
  exact h.setTiles _ _

/-- The forms that a site invokes, are **called alike** on machines that differ in points. -/
def CallsAlike (ctx : Context σ) (site : Site σ) (call : Bytes → Action σ Unit) : Prop :=
  ∀ form, site.Invokes ctx form → ∀ n n' : Machine σ,
    (pointing (form.site site.scopes site.forms) n.stack.depth {}).Holds n n' →
      AlikeButPoints ((call form.content).run n) ((call form.content).run n')

/-- Commands at a site go alike, if they make no use of a point that is not the program's. Those
that are not steady have been dealt with one by one. -/
theorem alike_perform (hcalls : CallsAlike ctx site call)
    (h : (pointing site frame.base s).Holds m m') (hpath : s.begun = false → frame.path = none)
    {command : Command} (hmem : command ∈ site.commands ctx) (hs : s.after command = some s') :
    AlikeAt site frame.base s' ((perform ctx call frame command).run m)
      ((perform ctx call frame command).run m') := by
  cases command with
  | save =>
      obtain rfl := Option.some.inj hs
      exact alike_save h hpath
  | restore =>
      obtain rfl := Option.some.inj hs
      exact alike_restoreOwn h hpath
  | construct step => exact alike_construct h hpath hs
  | color side op operands =>
      obtain rfl := Option.some.inj hs
      exact alike_andPure hpath (alike_selectColor hcall h side op operands)
  | invoke name =>
      obtain rfl := Option.some.inj hs
      refine alike_andPure hpath ?_
      rw [run_invoke, run_invoke, h.scopes_eq]
      rcases hx : ctx.library.findXObject m.scopes name with fault | image | form
      · exact same_fail h fault
      · exact same_drawImage h image
      · refine alike_runForm hcall h fun hid => ?_
        exact hcalls form ⟨⟨name, hmem, h.rest.2.1 ▸ hx⟩, hid⟩ _ _ (h.enterForm form)
  | _ => exact alike_perform_of_steady h hpath rfl hs

/-- Instructions that are allowed go alike, to whatever they lead. The induction is on the
instructions, with the standing of the program as it is foreseen for each. -/
theorem alike_steps (hcalls : CallsAlike ctx site call) {is : List Instruction}
    (hmem : ∀ i ∈ is, i ∈ site.instructions ctx) (hallows : s.allows is = true)
    (h : (pointing site frame.base s).Holds m m') (hpath : s.begun = false → frame.path = none) :
    Outcome.Alike (Trace.Like GState.LikeButPoint) Machine.LikeButPoints
      (fun _ _ n n' => n.LikeButPoints n')
      ((steps ctx call frame is).run m) ((steps ctx call frame is).run m') := by
  induction is generalizing m m' frame s with
  | nil => exact .ok .nil h.butPoints
  | cons i is ih =>
      have hrest : ∀ j ∈ is, j ∈ site.instructions ctx := fun j hj =>
        hmem j (List.mem_cons_of_mem i hj)
      cases i with
      | misspelled flaw => exact .error _ .nil h.butPoints
      | drawImage dict data =>
          have hdraw : (pointing site frame.base s).Same
              ((drawInlineImage ctx dict data).run m) ((drawInlineImage ctx dict data).run m') :=
            same_drawInlineImage h (by rw [h.scopes_eq])
              (by rw [h.scopes_eq]; exact .refl GState.LikeButPoint.refl _)
          refine (alike_andPure hpath hdraw).andThen ?_
          rintro f _ n n' ⟨rfl, hbase, hpath', hn⟩
          exact ih hrest hallows (hbase ▸ hn) hpath'
      | operate op operands =>
          simp only [steps, step]
          cases hcommand : Command.decode op operands with
          | error fault => exact .error fault .nil h.butPoints
          | ok command =>
              simp only [Standing.allows, hcommand] at hallows
              rcases hs : s.after command with _ | s'
              · simp [hs] at hallows
              · rw [hs] at hallows
                have hcommand' := Site.mem_commands (hmem _ List.mem_cons_self) hcommand
                refine (alike_perform hcall hcalls h hpath hcommand' hs).andThen ?_
                rintro f _ n n' ⟨rfl, hbase, hpath', hn⟩
                exact ih hrest hallows (hbase ▸ hn) hpath'

end Nesting

end Performing

/-- Nested programs go alike, if all that they reach keep to their own points. The induction is on
the fuel of the calls, which is how deep programs are nested. -/
theorem alike_callWith {n : Nat} {site : Site σ}
    (hsites : ∀ s, site.Reaches ctx s → s.KeepsToItself ctx)
    (h : (pointing site m.stack.depth {}).Holds m m') :
    AlikeButPoints ((callWith ctx n site.content).run m)
      ((callWith ctx n site.content).run m') := by
  induction n generalizing site m m' with
  | zero => exact .error _ .nil h.butPoints
  | succ n ih =>
      have hdeep : (pointing site m.stack.depth {}).Holds { m with depth := m.depth + 1 }
          { m' with depth := m'.depth + 1 } :=
        ⟨h.current, h.saved,
          (congrArg (fun k : Machine σ => { k with depth := k.depth + 1 }) h.rest.1 :), h.rest.2⟩
      have hcalls : CallsAlike ctx site (callWith ctx n) := fun form hform k k' hk =>
        ih (fun s hs => hsites s (.form hform hs)) hk
      have hrun : Outcome.Alike (Trace.Like GState.LikeButPoint) Machine.LikeButPoints
          (fun _ _ n n' => n.LikeButPoints n')
          ((runContent ctx (callWith ctx n) site.content).run { m with depth := m.depth + 1 })
          ((runContent ctx (callWith ctx n) site.content).run
            { m' with depth := m'.depth + 1 }) := by
        refine alike_runContent (L := pointing site m.stack.depth {}) hdeep.butPoints
          (by simp only [h.scopes_eq]) (congrArg (· + 1) h.saved.2.butPoint.length_eq)
          fun p hp => ?_
        have hinstructions : site.instructions ctx = p.instructions :=
          Site.instructions_eq (h.rest.2.1 ▸ hp)
        exact alike_steps (keeps_callWith n) hcalls (fun i hi => hinstructions ▸ hi)
          (hinstructions ▸ hsites site .here) hdeep fun _ => rfl
      -- Both runs come back to their callers' levels, whatever the program did.
      rw [callWith, run_deeper, run_deeper]
      generalize (runContent ctx (callWith ctx n) site.content).run _ = o at hrun
      generalize (runContent ctx (callWith ctx n) site.content).run _ = o' at hrun
      have hless {k k' : Machine σ} (hk : k.LikeButPoints k') :
          Machine.LikeButPoints { k with depth := k.depth - 1 } { k' with depth := k'.depth - 1 } :=
        ⟨hk.current, hk.saved,
          (congrArg (fun k : Machine σ => { k with depth := k.depth - 1 }) hk.rest :)⟩
      cases hrun with
      | ok ht hk => exact .ok ht ⟨rfl, hless hk⟩
      | error fault ht hk => exact .error fault ht (hless hk)

end Action

/-! ### Callers with a path of their own -/

/-- A machine with **another current point**. -/
def Machine.withPoint (m : Machine σ) (p : Option (Point Float)) : Machine σ :=
  { m with stack := m.stack.modify fun gs => { gs with point := p } }

/-- Outcomes that are **the same but for the current point** of a caller, which is `p` in the
second. The events are the same, with the same paths, images, glyphs and transforms, and come with
states that differ in nothing but current points. -/
structure Outcome.SameButPoint {α : Type} (p : Option (Point Float)) (o o' : Outcome σ α) :
    Prop where
  result_eq : o.result = o'.result
  machine_eq : o'.machine = o.machine.withPoint p
  events_like : List.Forall₂ (Event.Like GState.LikeButPoint) o.events o'.events

/-- Sub-programs whose content goes alike are the same but for the caller's point. The caller gets
its own state back, and with it the point that it had. -/
theorem Action.sameButPoint_subProgram {ctx : Context σ} {call : Bytes → Action σ Unit}
    (hcall : ∀ floor content, Keeps ctx floor anything (call content)) {content : Bytes}
    {transform : Matrix Float} {clip : Option (Rect Float)} {scope : Option σ} {m : Machine σ}
    {p : Option (Point Float)}
    (h : AlikeButPoints ((call content).run (m.enter transform clip scope))
      ((call content).run ((m.withPoint p).enter transform clip scope))) :
    Outcome.SameButPoint p ((subProgram call content transform clip scope).run m)
      ((subProgram call content transform clip scope).run (m.withPoint p)) := by
  rw [run_subProgram_eq hcall, run_subProgram_eq hcall]
  obtain ⟨hresult, htrace, hmachine⟩ := h.both
  generalize (call content).run (m.enter transform clip scope) = o at hresult htrace hmachine
  generalize (call content).run ((m.withPoint p).enter transform clip scope) = o'
    at hresult htrace hmachine
  have hbefore := (GState.LikeButPoint.setPoint m.stack.current p).entering transform clip
  have hafter := Trace.Like.leaving hmachine.saved m.stack.depth
  refine ⟨hresult, ?_, Trace.Like.events (List.rel_append hbefore (List.rel_append htrace hafter))⟩
  have htiles : o.machine.tiles = o'.machine.tiles := (congrArg Machine.tiles hmachine.rest :)
  have hfinished : o.machine.finished = o'.machine.finished :=
    (congrArg Machine.finished hmachine.rest :)
  simp only [Machine.returned, Machine.withPoint, htiles, hfinished]

/-- A machine is the same as that with another current point. -/
theorem Machine.likeButPoints_withPoint (m : Machine σ) (p : Option (Point Float)) :
    m.LikeButPoints (m.withPoint p) :=
  ⟨GState.LikeButPoint.setPoint _ p, List.forall₂_same.mpr fun gs _ => GState.LikeButPoint.refl gs,
    rfl⟩

/-- Nested programs that **keep to their own points** do not see those of their callers. Let all
that a sub-program or a form reaches be programs in which lines and curves start from points of the
program's own. Then it makes no difference to it whether its caller has a current point, and where:
it comes to the same result, with the same paths, images, glyphs and transforms, and leaves the
caller with the same machine. -/
theorem nested_sameButPoint (ctx : Context σ) (m : Machine σ) (p : Option (Point Float)) :
    (∀ content transform clip scope,
      (∀ s, Site.Reaches ctx ⟨scope.toList ++ m.scopes, m.forms, content⟩ s → s.KeepsToItself ctx) →
      Outcome.SameButPoint p
        ((Action.subProgram (Action.call ctx) content transform clip scope).run m)
        ((Action.subProgram (Action.call ctx) content transform clip scope).run (m.withPoint p))) ∧
    ∀ form : Form σ, (∀ s, (form.site m.scopes m.forms).Reaches ctx s → s.KeepsToItself ctx) →
      Outcome.SameButPoint p ((Action.runForm (Action.call ctx) form).run m)
        ((Action.runForm (Action.call ctx) form).run (m.withPoint p)) := by
  have hpoints := m.likeButPoints_withPoint p
  refine ⟨fun content transform clip scope hsites => ?_, fun form hsites => ?_⟩
  · refine Action.sameButPoint_subProgram Action.keeps_call ?_
    exact Action.alike_callWith hsites (hpoints.enter content transform clip scope)
  · by_cases hid : form.identity ∈ m.forms
    · rw [Action.run_runForm_of_mem m hid, Action.run_runForm_of_mem (m.withPoint p) hid]
      exact ⟨rfl, rfl, .nil⟩
    · have henter := (hpoints.execute form.identity).enter form.content form.matrix
        (some form.bbox) form.scope
      have hsub := Action.sameButPoint_subProgram (p := p) Action.keeps_call
        (Action.alike_callWith hsites henter)
      have hmachine :=
        congrArg (fun n : Machine σ => { n with forms := n.forms.drop 1 }) hsub.machine_eq
      rw [Action.run_runForm m hid, Action.run_runForm (m.withPoint p) hid]
      exact ⟨rfl, hmachine, hsub.events_like⟩

/-! ### A form in the middle of a path -/

namespace UnfinishedPath

/-- Resources are **not needed**. -/
def ctx : Context Nat where
  library := Directory.library #[]
  surface := some

/-- A machine at the **beginning of a page**. -/
def machine : Machine Nat where
  scopes := []

/-- A form with a **given content**. -/
def form (content : String) : Form Nat where
  identity := 1
  bbox := ⟨0.0, 0.0, 10.0, 10.0⟩
  matrix := Matrix.identity
  content := Utf8.encode content
  scope := none

end UnfinishedPath

/-- A form that begins its path with a move draws the same for a caller with a path. The curve that
follows starts where the form itself has come to. -/
theorem nested_sameButPoint_of_move :
    (∀ s, ((UnfinishedPath.form "3 3 m 4 4 l S").site [] []).Reaches UnfinishedPath.ctx s →
      s.KeepsToItself UnfinishedPath.ctx) ∧
    Outcome.SameButPoint (some ⟨1.0, 1.0⟩)
      ((Action.runForm (Action.call UnfinishedPath.ctx) (UnfinishedPath.form "3 3 m 4 4 l S")).run
        UnfinishedPath.machine)
      ((Action.runForm (Action.call UnfinishedPath.ctx) (UnfinishedPath.form "3 3 m 4 4 l S")).run
        (UnfinishedPath.machine.withPoint (some ⟨1.0, 1.0⟩))) := by
  have hsites : ∀ s,
      ((UnfinishedPath.form "3 3 m 4 4 l S").site [] []).Reaches UnfinishedPath.ctx s →
      s.KeepsToItself UnfinishedPath.ctx := by
    intro s hs
    obtain rfl := hs.eq_of_any_isInvoke (by decide +kernel)
    decide +kernel
  exact ⟨hsites, (nested_sameButPoint UnfinishedPath.ctx UnfinishedPath.machine _).2 _ hsites⟩

/-- The **points of a path that is stroked**, if an event strokes one. -/
def Event.stroked? : Event → Option (List (Float × Float))
  | .stroke _ path => some (path.points.map fun p => (p.x, p.y))
  | _ => none

/-- A form whose first curve **starts from the current point** uses that of its caller: the paths
that it strokes for two callers are not the same, and one of them starts where its caller stands. -/
theorem nested_uses_foreign_point :
    let stroked (p : Option (Point Float)) :=
      ((Action.runForm (Action.call UnfinishedPath.ctx) (UnfinishedPath.form "3 3 4 4 v S")).run
        (UnfinishedPath.machine.withPoint p)).events.filterMap Event.stroked?
    stroked none = [[(3.0, 3.0), (3.0, 3.0), (3.0, 3.0), (4.0, 4.0)]] ∧
    stroked (some ⟨1.0, 1.0⟩) = [[(1.0, 1.0), (1.0, 1.0), (3.0, 3.0), (4.0, 4.0)]] ∧
    stroked none ≠ stroked (some ⟨1.0, 1.0⟩) := by
  decide +kernel

end ContentStream
