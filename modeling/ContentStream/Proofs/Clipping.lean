import ContentStream.Proofs.ClipRuns

/-!
# Clipping

A device may keep account of the clip by itself, without looking at the graphics states that it is
given. It keeps a stack of clips, which begins with a page, follows the states that are saved and
restored, is put aside while a tile is rendered, and whose top is narrowed to each path that is
announced. That account is always right: whatever state the device is given, the clip in it is the
one on top of the device's own stack.

## Main definitions

* `Clip.narrow`: a clip narrowed to a path, as a device reckons.
* `Account`: the clips that a device keeps, with `Account.receive` for an event.
* `Account.Right`: the account agrees with all states in some events.

## Main results

* `Account.receiveAll_of_clipRun`: the account follows every run.
* `renderPage_clips_accounted`: the account is right for every page.
-/

namespace ContentStream

variable {σ : Type}

/-! ### Accounts -/

/-- A clip **narrowed to a path**: the bounds of the path are intersected with those before. -/
def Clip.narrow (c : Clip) (path : Path Float) : Clip where
  path := some path
  bounds := path.bounds?.map fun bounds =>
    match c.bounds with
    | some before => before.intersect bounds
    | none => bounds

/-- With a path that has bounds, the interpreter reckons in the same way. -/
theorem Clip.of_narrow {path : Path Float} (hpath : path.Opened) (gs : GState) :
    Clip.of (gs.narrow path) = (Clip.of gs).narrow path := by
  obtain ⟨bounds, hbounds⟩ := hpath.exists_bounds
  rw [Clip.narrow, GState.narrow, hbounds]
  cases h : gs.clipBounds <;> simp [Clip.of, h]

/-- An **account** of clips: the current one, those saved, and what was put aside for tiles. -/
structure Account where
  current : Clip := {}
  saved : List Clip := []
  outer : List (Clip × List Clip) := []

namespace Account

/-- The account after an **event**. -/
def receive (a : Account) : Event → Account
  | .beginPage _ _ => {}
  | .save _ => { a with saved := a.current :: a.saved }
  | .restore _ =>
    match a.saved with
    | [] => a
    | clip :: saved => { a with current := clip, saved }
  | .beginTile _ _ => { outer := (a.current, a.saved) :: a.outer }
  | .endTile =>
    match a.outer with
    | [] => a
    | (current, saved) :: outer => { current, saved, outer }
  | .clip path => { a with current := a.current.narrow path }
  | _ => a

/-- The account after **some events**. -/
def receiveAll (a : Account) (es : List Event) : Account :=
  es.foldl receive a

/-- Without events, an account is what it was. -/
@[simp]
theorem receiveAll_nil (a : Account) : a.receiveAll [] = a :=
  rfl

/-- Events are received from the first to the last. -/
@[simp]
theorem receiveAll_cons (a : Account) (e : Event) (es : List Event) :
    a.receiveAll (e :: es) = (a.receive e).receiveAll es :=
  rfl

/-- The account of some events is carried on with those that follow. -/
@[simp]
theorem receiveAll_append (a : Account) (es es' : List Event) :
    a.receiveAll (es ++ es') = (a.receiveAll es).receiveAll es' :=
  List.foldl_append

/-- An account **agrees** with the event that led to it if the clip of the state that comes with the
event is the current one. A clip path that is announced is to have bounds. -/
def Agrees (a : Account) : Event → Prop
  | .save gs | .restore gs | .fill gs _ | .stroke gs _ | .image gs _ _ | .glyph gs _ _ =>
    Clip.of gs = a.current
  | .clip path => path.bounds?.isSome = true
  | _ => True

/-- An account that agrees with an event has the clip of the state that comes with it. -/
theorem Agrees.clip_eq {a : Account} {e : Event} (h : a.Agrees e) {gs : GState}
    (hgs : e.state? = some gs) : Clip.of gs = a.current := by
  cases e with
  | save gs' | restore gs' | fill gs' path | stroke gs' path | image gs' image transform
  | glyph gs' glyph transform =>
      obtain rfl := Option.some.inj hgs
      exact h
  | _ => cases hgs

/-- An account is **right** about some events if it agrees with each of them. -/
def Right : Account → List Event → Prop
  | _, [] => True
  | a, e :: es => (a.receive e).Agrees e ∧ (a.receive e).Right es

/-- To be right about events one after the other is to be right about the first, and then about the
second from where the account stands by then. -/
theorem right_append {a : Account} {es es' : List Event} :
    a.Right (es ++ es') ↔ a.Right es ∧ (a.receiveAll es).Right es' := by
  induction es generalizing a with
  | nil => simp [Right]
  | cons e es ih => simp only [List.cons_append, Right, ih, receiveAll_cons, and_assoc]

/-- The **right account** of a stack. -/
def of (s : GStack) (outer : List (Clip × List Clip)) : Account where
  current := Clip.of s.current
  saved := s.saved.map Clip.of
  outer := outer

/-- An event that is shown under a clip moves nothing in the account. -/
theorem receive_shownUnder {a : Account} {c : Clip} {e : Event} (he : e.ShownUnder c) :
    a.receive e = a := by
  cases he <;> rfl

/-- So the account agrees with it if the clip is the one that is current in it. -/
theorem agrees_shownUnder {a : Account} {e : Event} (he : e.ShownUnder a.current) :
    (a.receive e).Agrees e := by
  rw [receive_shownUnder he]
  cases he with
  | fill h | stroke h | image h | glyph h => exact h
  | unknownOperator spelling | inlineImage scope dict data => trivial

/-- When a state is restored, the account goes back to the clip that was saved with it. -/
theorem receive_restore {s s' : GStack} (hs : s.restore? = some s')
    (outer : List (Clip × List Clip)) :
    (of s outer).receive (.restore s'.current) = of s' outer := by
  have hsaved : (of s outer).saved = Clip.of s'.current :: s'.saved.map Clip.of := by
    rw [of, GStack.saved_of_restore? hs, List.map_cons]
  rw [receive, hsaved]
  rfl

/-- The account follows every run: what is put aside stays where it is, and the account is right
about all that happens. The induction is on runs, and the cell of a tile has an account of its
own. -/
theorem receiveAll_of_clipRun {s s' : GStack} {es : List Event} (h : ClipRun s es s')
    (outer : List (Clip × List Clip)) :
    (of s outer).receiveAll es = of s' outer ∧ (of s outer).Right es := by
  induction h generalizing outer with
  | stay => exact ⟨rfl, trivial⟩
  | trans _ _ ih₁ ih₂ =>
      obtain ⟨hreceive₁, hright₁⟩ := ih₁ outer
      obtain ⟨hreceive₂, hright₂⟩ := ih₂ outer
      rw [receiveAll_append, hreceive₁]
      exact ⟨hreceive₂, right_append.mpr ⟨hright₁, hreceive₁ ▸ hright₂⟩⟩
  | @change s f hf =>
      refine ⟨?_, trivial⟩
      rw [receiveAll_nil, of, of, GStack.modify, hf]
  | @narrow s path hpath =>
      obtain ⟨bounds, hbounds⟩ := hpath.exists_bounds
      have hnarrow : (of s outer).receive (.clip path) =
          of (s.modify fun gs => gs.narrow path) outer := by
        simp only [receive, of, GStack.modify, Clip.of_narrow hpath]
      exact ⟨hnarrow, Option.isSome_iff_exists.mpr ⟨bounds, hbounds⟩, trivial⟩
  | shown he => exact ⟨receive_shownUnder he, agrees_shownUnder he, trivial⟩
  | save => exact ⟨rfl, rfl, trivial⟩
  | @restore s s' hs =>
      have hrestore := receive_restore hs outer
      exact ⟨hrestore, by rw [hrestore]; rfl, trivial⟩
  | @cell s s' gs es bbox matrix hfresh _ ih =>
      obtain ⟨hreceive, hright⟩ := ih ((Clip.of s.current, s.saved.map Clip.of) :: outer)
      have hbegin : (of s outer).receive (.beginTile bbox matrix) =
          of ⟨gs, []⟩ ((Clip.of s.current, s.saved.map Clip.of) :: outer) := by
        rw [receive, of, of, hfresh]
        rfl
      -- The clips put aside come back at the end, whatever the cell has left behind.
      rw [receiveAll_cons, hbegin, receiveAll_append, hreceive]
      refine ⟨rfl, trivial, ?_⟩
      rw [hbegin]
      exact right_append.mpr ⟨hright, trivial, trivial⟩

/-- An account that is right agrees with each event in its place. -/
theorem Right.agrees {a : Account} {before after : List Event} {e : Event}
    (h : a.Right (before ++ e :: after)) : (a.receiveAll (before ++ [e])).Agrees e := by
  obtain ⟨-, hagrees, -⟩ := right_append.mp h
  rw [receiveAll_append]
  exact hagrees

end Account

/-! ### Pages -/

/-- **A device's own account of the clip is right.** On every page, and whatever the account was
before, the clip of each state that the device is given is the one that is current in the account by
then. The paths that it reckons with all have bounds. -/
theorem renderPage_clips_accounted (ctx : Context σ) (page : Page σ) (m : Machine σ)
    (a : Account) :
    let o := (Action.renderPage ctx page).run m
    ∀ before e after, o.events = before ++ e :: after →
      (∀ gs, e.state? = some gs → Clip.of gs = (a.receiveAll (before ++ [e])).current) ∧
      ∀ path, e = .clip path → path.bounds?.isSome = true := by
  intro o before e after hevents
  have hrun : ClipRun (m.turnTo page).stack
      ((Action.execute ctx page.content).run (m.turnTo page)).events
      ((Action.execute ctx page.content).run (m.turnTo page)).machine.stack :=
    (Action.clips_execute page.content).run
  obtain ⟨hreceive, hright⟩ := Account.receiveAll_of_clipRun hrun []
  have hpage : a.Right o.events := by
    simp only [o, Action.run_renderPage, Outcome.events, Trace.events_cons_event,
      Trace.events_append, Trace.events_nil]
    exact ⟨trivial, Account.right_append.mpr ⟨hright, trivial, trivial⟩⟩
  rw [hevents] at hpage
  refine ⟨fun gs hgs => hpage.agrees.clip_eq hgs, ?_⟩
  rintro path rfl
  exact hpage.agrees

namespace TwoClips

/-- A context **without resources**. -/
def ctx : Context Nat where
  library := Directory.library #[]
  surface := fun _ => none

/-- A page that fills a square under **two clips**, and restores the state without them. -/
def page : Page Nat where
  mediaBox := ⟨0.0, 0.0, 10.0, 10.0⟩
  content := Utf8.encode "q 0 0 4 4 re W n 2 2 4 4 re W n 0 0 9 9 re f Q"
  scope := 0

/-- What the device **receives**. -/
def events : List Event :=
  ((Action.renderPage ctx page).run { scopes := [] }).events

/-- There are seven events, the two of the page among them. -/
theorem length_events : events.length = 7 := by
  decide +kernel

end TwoClips

open TwoClips in
/-- The square is filled under both clips. The fill is the fifth of the events, and two paths have
been announced by then. -/
theorem renderPage_clips_accounted_of_fill :
    ∃ before fill after, ((Action.renderPage ctx page).run { scopes := [] }).events =
        before ++ fill :: after ∧
      fill.state?.isSome = true ∧ before.countP (fun e => e matches .clip _) = 2 ∧
      ∀ gs, fill.state? = some gs →
        Clip.of gs = (Account.receiveAll {} (before ++ [fill])).current := by
  have hlength : 4 < events.length := by
    rw [length_events]
    decide
  have hsplit : events = events.take 4 ++ events[4] :: events.drop 5 := by
    rw [List.getElem_cons_drop, List.take_append_drop]
  have hfill : (events[4]?.bind Event.state?).isSome = true := by decide +kernel
  rw [List.getElem?_eq_getElem hlength] at hfill
  have haccount := renderPage_clips_accounted ctx page { scopes := [] } {} _ _ _ hsplit
  exact ⟨events.take 4, events[4], events.drop 5, hsplit, hfill, by decide +kernel, haccount.1⟩

end ContentStream
