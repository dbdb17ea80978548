import ContentStream.Page
import ContentStream.Proofs.Likeness

/-!
# Forgetting

Rendering a page begins with forgetting: the stack, the scopes, the tiles, the forms in execution
and the depth of nesting are set up anew, whatever was rendered or executed before, and however it
ended. All that is left is the number of tiles that were ever finished, by which the device tells
one request for a surface from the next. So two machines render a page alike if they are given the
same surfaces for the tiles of the page, however many they have been given before.

Surfaces that a run does not ask for do not matter to it. The comparison of two runs is therefore
made under a limit: they go alike as long as the first of them does not finish more tiles than the
device answers alike. No part of a run finishes more tiles than the whole.

## Main definitions

* `numbering`: how two runs compare that number their tiles from different beginnings.
* `Action.Tracks`: an action goes alike in two contexts, up to a limit on its tiles.

## Main results

* `Runs.finished_eq`: a run counts the tiles that it shows.
* `Action.tracks_tile`: the surface of a tile is the same, if the cell goes alike.
* `Action.tracks_execute`: a content stream goes alike, up to the limit.
* `renderPage_forgets`: pages are rendered alike, whatever was done before.
-/

namespace ContentStream

variable {σ α β : Type}

/-! ### Tiles that are finished -/

namespace Trace

/-- The number of **tiles that are finished** in a trace. -/
def ended (t : Trace) : Nat :=
  t.events.countP Event.isEndTile

/-- The tiles that are finished in two traces add up. -/
theorem ended_append (t t' : Trace) : ended (t ++ t') = ended t + ended t' := by
  rw [ended, events_append, List.countP_append, ended, ended]

/-- A tile counts besides those that are finished in its cell. -/
theorem ended_cell (key : TileKey) (tile : Tile) (bbox : Rect Float) (matrix : Matrix Float)
    (t : Trace) :
    ended (.note (.begun key) :: .event (.beginTile bbox matrix) ::
      (t ++ [.event .endTile, .note (.obtained key tile)])) = ended t + 1 := by
  simp [ended, Event.isEndTile]

end Trace

namespace Runs

variable {ctx : Context σ} {floor : Nat} {m m' : Machine σ} {t : Trace}

/-- A run counts the tiles that it finishes. The induction is on runs, and only that of a cell adds
one to the count. -/
theorem finished_eq (h : Runs ctx floor m t m') : m'.finished = m.finished + t.ended := by
  induction h with
  | @trans floor m m' m'' t t' _ _ ih₁ ih₂ =>
      rw [ih₂, ih₁, Trace.ended_append, Nat.add_assoc]
  | plain he => simp [Trace.ended, (Event.isPlain_iff.mp he).2.2.2.2]
  | within _ _ ih | deeper _ ih | form _ _ ih => exact ih
  | @cell floor m m' t key tile tiling gs miss hend _ ih =>
      have hcell : m'.finished = m.finished + t.ended := ih
      rw [Trace.ended_cell, ← Nat.add_assoc, ← hcell]
  | _ => rfl

/-- No tile is unfinished again. -/
theorem finished_le (h : Runs ctx floor m t m') : m.finished ≤ m'.finished :=
  h.finished_eq ▸ Nat.le_add_right _ _

end Runs

/-- No action makes a tile unfinished, as all of them are runs. -/
theorem Action.Keeps.finished_le {ctx : Context σ} {Q : α → Prop} {x : Action σ α}
    (hx : Keeps ctx 0 Q x) (m : Machine σ) : m.finished ≤ (x.run m).machine.finished :=
  (hx.runs (Nat.zero_le _)).finished_le

/-! ### Runs that are compared -/

/-- Runs are compared that **number their tiles** from different beginnings. All else is
the same. -/
def numbering (σ : Type) (base base' : Nat) : Likeness σ where
  ink := Eq
  point := Eq
  saved := List.Forall₂ (GState.Like Eq Eq)
  rest m m' := ∃ k, m.finished = base + k ∧
    m' = { m with stack := m'.stack, finished := base' + k }
  trace := Eq
  laws := .eq
  rest_stack := by
    rintro m m' stack stack' ⟨k, hk, hm'⟩
    exact ⟨k, hk, congrArg (fun n : Machine σ => { n with stack := stack' }) hm'⟩
  pageBounds_eq := by
    rintro m m' ⟨k, -, hm'⟩
    rw [hm']

section Numbering

variable {base base' : Nat} {m m' : Machine σ}

/-- The states of runs that are compared in this way are the same, one by one. -/
theorem exact_numbering : (numbering σ base base').Exact :=
  ⟨rfl, rfl, rfl⟩

/-- Machines are alike if they are the same but for the number, which has come equally far from the
number that each of them has begun with. -/
theorem holds_numbering_iff :
    (numbering σ base base').Holds m m' ↔
      ∃ k, m.finished = base + k ∧ m' = { m with finished := base' + k } := by
  rw [exact_numbering.holds_iff]
  constructor
  · rintro ⟨hstack, k, hk, hm'⟩
    refine ⟨k, hk, hm'.trans ?_⟩
    rw [← hstack]
  · rintro ⟨k, hk, rfl⟩
    exact ⟨rfl, k, hk, rfl⟩

/-- Machines that differ in the number look things up in the same scopes. -/
theorem scopes_eq_of_rest (h : (numbering σ base base').rest m m') : m.scopes = m'.scopes := by
  obtain ⟨k, -, hm'⟩ := h
  rw [hm']

/-- Outcomes are the same but for the number, which has come equally far in both. This is how the
relation is used, and how it is shown. -/
theorem same_numbering_iff {o o' : Outcome σ α} :
    (numbering σ base base').Same o o' ↔
      ∃ k, o.machine.finished = base + k ∧
        o' = { o with machine := { o.machine with finished := base' + k } } := by
  constructor
  · intro h
    obtain ⟨hresult, htrace, hmachine⟩ := h.both
    obtain ⟨k, hk, hm'⟩ := holds_numbering_iff.mp hmachine
    refine ⟨k, hk, ?_⟩
    calc o' = ⟨o'.result, o'.machine, o'.trace⟩ := rfl
      _ = _ := by rw [← hresult, ← show o.trace = o'.trace from htrace, hm']
  · rintro ⟨k, hk, rfl⟩
    have hm : (numbering σ base base').Holds o.machine { o.machine with finished := base' + k } :=
      holds_numbering_iff.mpr ⟨k, hk, rfl⟩
    obtain ⟨_ | _, machine, trace⟩ := o
    · exact .error _ rfl hm
    · exact .ok rfl ⟨rfl, hm⟩

end Numbering

namespace Action

/-- An action **tracks** another: on machines that are alike they go alike, as long as the first of
them does not finish more tiles than the limit allows. -/
def Tracks (base base' limit : Nat) (x y : Action σ α) : Prop :=
  ∀ m m', (numbering σ base base').Holds m m' → (x.run m).machine.finished ≤ base + limit →
    (numbering σ base base').Same (x.run m) (y.run m')

variable {base base' limit : Nat}

/-- Sequencing: the limit is kept by the first action if it is kept by both. For this the second
must not make tiles unfinished. -/
theorem Tracks.bind {x y : Action σ α} {f g : α → Action σ β} (hx : Tracks base base' limit x y)
    (hmono : ∀ a m, m.finished ≤ ((f a).run m).machine.finished)
    (hf : ∀ a, Tracks base base' limit (f a) (g a)) :
    Tracks base base' limit (x >>= f) (y >>= g) := by
  intro m m' h hend
  have hrun := hx m m' h
  rw [run_bind] at hend ⊢
  rw [run_bind]
  generalize x.run m = o at hrun hend ⊢
  obtain ⟨fault | a, n, t⟩ := o
  · obtain ⟨k, hk, hy⟩ := same_numbering_iff.mp (hrun hend)
    rw [hy]
    exact same_numbering_iff.mpr ⟨k, hk, rfl⟩
  · obtain ⟨k, hk, hy⟩ := same_numbering_iff.mp (hrun (Nat.le_trans (hmono a n) hend))
    rw [hy]
    exact (hf a n _ (holds_numbering_iff.mpr ⟨k, hk, rfl⟩) hend).after rfl

/-- What goes alike in any case does so up to a limit. -/
theorem Tracks.of_same {x y : Action σ α}
    (h : ∀ m m', (numbering σ base base').Holds m m' →
      (numbering σ base base').Same (x.run m) (y.run m')) : Tracks base base' limit x y :=
  fun m m' hm _ => h m m' hm

section Calling

variable {ctx : Context σ} {surface' : Nat → Option Nat} {call call' : Bytes → Action σ Unit}
  (hsurface : ∀ k < limit, ctx.surface (base + (k + 1)) = surface' (base' + (k + 1)))
  (hcall : ∀ floor content, Keeps ctx floor anything (call content))
  (hcall' : ∀ floor content, Keeps { ctx with surface := surface' } floor anything (call' content))
  (hcalls : ∀ content, Tracks base base' limit (call content) (call' content))

include hcall hcall' hcalls

/-- A form is found to be in execution in both runs, or is run in both. The tiles that it finishes
are finished for its caller, too. -/
theorem tracks_runForm (form : Form σ) :
    Tracks base base' limit (runForm call form) (runForm call' form) := by
  intro m m' h hend
  obtain ⟨k, hk, rfl⟩ := holds_numbering_iff.mp h
  refine same_runForm hcall hcall' h Iff.rfl fun hid => ?_
  rw [run_runForm_eq hcall hid] at hend
  obtain ⟨j, hj, hform⟩ := same_numbering_iff.mp <| hcalls form.content (m.enterForm form)
    (Machine.enterForm { m with finished := base' + k } form)
    (holds_numbering_iff.mpr ⟨k, hk, rfl⟩) hend
  rw [hform]
  exact ⟨rfl, holds_numbering_iff.mpr ⟨j, hj, rfl⟩⟩

/-- External objects are looked up in the same scopes. An image is drawn in both runs, and a form is
run in both. -/
theorem tracks_invoke (name : String) :
    Tracks base base' limit (invoke ctx call name)
      (invoke { ctx with surface := surface' } call' name) := by
  intro m m' h hend
  rw [run_invoke] at hend ⊢
  rw [run_invoke, ← scopes_eq_of_rest h.rest]
  generalize ctx.library.findXObject m.scopes name = found at hend ⊢
  obtain fault | image | form := found
  · exact same_fail h fault
  · exact same_drawImage h image
  · exact tracks_runForm hcall hcall' hcalls form m m' h hend

include hsurface

/-- A tile is found in both runs, or rendered in both. The tiles finished up to its end are one more
than those finished in its cell, and the device answers for that many. -/
theorem tracks_tile (tiling : Tiling σ) (tint : Option Tint) :
    Tracks base base' limit (tile ctx call tiling tint)
      (tile { ctx with surface := surface' } call' tiling tint) := by
  intro m m' h hend
  obtain ⟨k, hk, rfl⟩ := holds_numbering_iff.mp h
  rcases hkey : m.tiles.lookup (ctx.config.tileSharing.key tiling tint) with _ | found
  · rw [run_tile_eq hcall hkey] at hend ⊢
    rw [run_tile_eq hcall' (m := { m with finished := base' + k }) hkey]
    simp only at hend
    obtain ⟨j, hj, hcell⟩ := same_numbering_iff.mp <| hcalls tiling.content
      (m.enterCell tiling tint) (Machine.enterCell { m with finished := base' + k } tiling tint)
      (holds_numbering_iff.mpr ⟨k, hk, rfl⟩) (by omega)
    -- The cell has finished `j` tiles, and with this one there are no more than the limit.
    have hanswer : ctx.surface (base + j + 1) = surface' (base' + j + 1) :=
      hsurface j (by omega)
    rw [hcell]
    simp only [hj, hanswer]
    exact same_numbering_iff.mpr ⟨j + 1, rfl, rfl⟩
  · rw [run_tile_of_some m hkey, @run_tile_of_some σ { m with finished := base' + k }
      { ctx with surface := surface' } call' tiling tint found hkey]
    exact .ok rfl ⟨rfl, h⟩

/-- A color is selected by the same operands, and its tile is tracked. To set the color afterwards
finishes no tiles. -/
theorem tracks_selectColor (side : Side) (op : String) (operands : List Operand) :
    Tracks base base' limit (selectColor ctx call side op operands)
      (selectColor { ctx with surface := surface' } call' side op operands) := by
  intro m m' h hend
  have hstack : m.stack = m'.stack := (exact_numbering.holds_iff.mp h).1
  rw [run_selectColor] at hend ⊢
  rw [run_selectColor, ← scopes_eq_of_rest h.rest, ← hstack]
  generalize ctx.library.select m.scopes op (m.stack.current.ink side).space operands = selected
    at hend ⊢
  obtain fault | paint | ⟨tiling, tint⟩ := selected
  · exact same_fail h fault
  · exact same_modifyState h (h.current.setInk side rfl)
  · refine (tracks_tile hsurface hcall hcall' hcalls tiling tint).bind ?_ ?_ m m' h hend
    · exact fun _ _ => Nat.le_refl _
    · exact fun _ => .of_same fun _ _ hn => same_modifyState hn (hn.current.setInk side rfl)

/-- Instructions go alike up to the limit, whatever they are. Only colors and forms may finish
tiles; all the rest is known of exact likenesses. -/
theorem tracks_step (frame : Frame) (i : Instruction) :
    Tracks base base' limit (step ctx call frame i)
      (step { ctx with surface := surface' } call' frame i) := by
  intro m m' h hend
  refine same_step h (fun op operands command hi hdecode => ?_) fun dict data _ => ?_
  · subst hi
    rw [step, hdecode, run_ok_bind] at hend
    have hagrees : command.Agrees (numbering σ base base') ctx { ctx with surface := surface' } :=
      exact_numbering.agrees rfl (fun _ _ => scopes_eq_of_rest) command
    refine same_perform_of_even exact_numbering.even h hagrees frame ?_ ?_
    · rintro side spelling args rfl
      rw [perform, machine_run_bind_pure] at hend
      exact tracks_selectColor hsurface hcall hcall' hcalls side spelling args m m' h hend
    · rintro name rfl
      rw [perform, machine_run_bind_pure] at hend
      exact tracks_invoke hcall hcall' hcalls name m m' h hend
  · have hscopes := scopes_eq_of_rest h.rest
    exact same_drawInlineImage h (by rw [hscopes]) (by rw [hscopes]; rfl)

/-- So do lists of them, since each part of a run finishes no more tiles than all of it. -/
theorem tracks_steps (frame : Frame) (is : List Instruction) :
    Tracks base base' limit (steps ctx call frame is)
      (steps { ctx with surface := surface' } call' frame is) := by
  induction is generalizing frame with
  | nil => exact .of_same fun _ _ h => same_pure h frame
  | cons i is ih =>
      refine (tracks_step hsurface hcall hcall' hcalls frame i).bind (fun frame' m => ?_) ih
      exact (keeps_steps hcall (Nat.zero_le frame'.base) is).finished_le m

/-- A content stream is the same program in both runs, as the contexts differ in surfaces only. So
it is none in both, or goes alike. -/
theorem tracks_runContent (content : Bytes) :
    Tracks base base' limit (runContent ctx call content)
      (runContent { ctx with surface := surface' } call' content) := by
  intro m m' h hend
  obtain ⟨k, hk, rfl⟩ := holds_numbering_iff.mp h
  have hprogram : ctx.program? m.scopes content =
      Context.program? { ctx with surface := surface' } m.scopes content := rfl
  rw [run_runContent] at hend ⊢
  rw [run_runContent, ← hprogram]
  generalize ctx.program? m.scopes content = program at hend ⊢
  obtain fault | p := program
  · exact same_fail h fault
  · obtain ⟨j, hj, hsteps⟩ := same_numbering_iff.mp <|
      tracks_steps hsurface hcall hcall' hcalls { base := m.stack.depth } p.instructions m _ h hend
    simp only [hsteps]
    exact same_numbering_iff.mpr ⟨j, hj, rfl⟩

end Calling

section Executing

variable {ctx : Context σ} {surface' : Nat → Option Nat}
  (hsurface : ∀ k < limit, ctx.surface (base + (k + 1)) = surface' (base' + (k + 1)))

include hsurface

/-- Nested programs go alike up to the limit, however many levels are left. The induction is on the
levels, where the programs that are called have one less. -/
theorem tracks_callWith (n : Nat) (content : Bytes) :
    Tracks base base' limit (callWith ctx n content)
      (callWith { ctx with surface := surface' } n content) := by
  induction n generalizing content with
  | zero => exact .of_same fun _ _ h => same_fail h _
  | succ n ih =>
      intro m m' h hend
      obtain ⟨k, hk, rfl⟩ := holds_numbering_iff.mp h
      rw [callWith, run_deeper] at hend ⊢
      rw [callWith, run_deeper]
      obtain ⟨j, hj, hrun⟩ := same_numbering_iff.mp <|
        tracks_runContent hsurface (keeps_callWith n) (keeps_callWith n) ih content
          { m with depth := m.depth + 1 } { m with finished := base' + k, depth := m.depth + 1 }
          (holds_numbering_iff.mpr ⟨k, hk, rfl⟩) hend
      rw [hrun]
      exact same_numbering_iff.mpr ⟨j, hj, rfl⟩

/-- A content stream goes alike in two contexts, as long as no more tiles are finished than the
device answers alike. -/
theorem tracks_execute (content : Bytes) :
    Tracks base base' limit (execute ctx content)
      (execute { ctx with surface := surface' } content) := by
  refine tracks_runContent hsurface keeps_call keeps_call (fun content m m' h hend => ?_) content
  obtain ⟨k, hk, rfl⟩ := holds_numbering_iff.mp h
  exact tracks_callWith hsurface (ctx.config.maxDepth - m.depth) content m _ h hend

end Executing

end Action

/-! ### Pages -/

/-- **Rendering a page forgets the past.** Two machines of any kind, whatever was done with them
before, render a page alike: what is seen is the same, with the same graphics states, the result is
the same, and they are left with the same stack, scopes, tiles, forms and depth, provided that the
devices hand out the same surfaces for the tiles that are finished on this page. -/
theorem renderPage_forgets (ctx : Context σ) (surface' : Nat → Option Nat) (page : Page σ)
    (m m' : Machine σ)
    (hsurface : ∀ k < ((Action.renderPage ctx page).run m).events.countP Event.isEndTile,
      ctx.surface (m.finished + (k + 1)) = surface' (m'.finished + (k + 1))) :
    let o := (Action.renderPage ctx page).run m
    let o' := (Action.renderPage { ctx with surface := surface' } page).run m'
    o'.result = o.result ∧ o'.events = o.events ∧
      o'.machine = { o.machine with finished := o'.machine.finished } := by
  have hkeeps : Action.Keeps ctx 0 Action.anything (Action.execute ctx page.content) :=
    Action.keeps_execute 0 page.content
  have hrun := hkeeps.runs (m := m.turnTo page) (Nat.zero_le _)
  have hended : ((Action.renderPage ctx page).run m).events.countP Event.isEndTile =
      ((Action.execute ctx page.content).run (m.turnTo page)).trace.ended := by
    simp [Action.run_renderPage, Outcome.events, Trace.ended, Event.isEndTile]
  rw [hended] at hsurface
  obtain ⟨j, -, ho⟩ := same_numbering_iff.mp <|
    Action.tracks_execute hsurface page.content (m.turnTo page) (m'.turnTo page)
      (holds_numbering_iff.mpr ⟨0, rfl, rfl⟩) (Nat.le_of_eq hrun.finished_eq)
  rw [Action.run_renderPage, Action.run_renderPage, ho]
  exact ⟨rfl, rfl, rfl⟩

/-! ### A page that is rendered twice -/

namespace RenderedTwice

/-- A directory with a pattern whose cell **fills a square**. -/
def directory : Directory :=
  #[{ patterns := [("P", .tiling {
      identity := 7
      kind := .colored
      bbox := ⟨0.0, 0.0, 1.0, 1.0⟩
      xStep := 1.0
      yStep := 1.0
      matrix := Matrix.identity
      content := Utf8.encode "0 0 1 1 re f"
      scope := none })] }]

/-- A context whose surfaces are **numbered from one**. -/
def ctx : Context Nat where
  library := directory.library
  surface := some

/-- A page that selects the pattern and **leaves a state saved**. -/
def page : Page Nat where
  mediaBox := ⟨0.0, 0.0, 10.0, 10.0⟩
  content := Utf8.encode "q /Pattern cs /P scn"
  scope := 0

/-- The machine **after the page** was rendered once. -/
def after : Machine Nat :=
  ((Action.renderPage ctx page).run { scopes := [] }).machine

end RenderedTwice

open RenderedTwice in
/-- A page that was rendered before is rendered alike by the same machine, which has a tile of it by
then and a state too many, if the device goes back to its first surface. -/
theorem renderPage_forgets_of_twice :
    let o := (Action.renderPage ctx page).run { scopes := [] }
    let o' := (Action.renderPage { ctx with surface := fun n => some (n - 1) } page).run after
    (after.tiles.length = 1 ∧ after.stack.depth = 2 ∧ after.finished = 1) ∧
    o.events.countP Event.isEndTile = 1 ∧
    (∀ k < o.events.countP Event.isEndTile, ctx.surface (0 + (k + 1)) =
      (fun n => some (n - 1)) (after.finished + (k + 1))) ∧
    o'.result = o.result ∧ o'.events = o.events ∧
    o'.machine = { o.machine with finished := o'.machine.finished } := by
  intro o o'
  have hfinished : after.finished = 1 := by decide +kernel
  have hsurface : ∀ k < o.events.countP Event.isEndTile, ctx.surface (0 + (k + 1)) =
      (fun n => some (n - 1)) (after.finished + (k + 1)) := by
    intro k _
    simp only [ctx, hfinished, Nat.zero_add, Nat.add_sub_cancel_left]
  refine ⟨by decide +kernel, by decide +kernel, hsurface, ?_⟩
  exact renderPage_forgets ctx (fun n => some (n - 1)) page { scopes := [] } after hsurface

end ContentStream
