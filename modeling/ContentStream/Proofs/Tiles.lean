import ContentStream.Proofs.Keeps
import Mathlib.Data.List.Perm.Subperm

/-!
# Tiles

A tile is kept under its key when its cell has been rendered, not when the rendering begins. A cell
that refers to its own tile, be it through forms or through the cells of other patterns, therefore
does not find it, and the tile is rendered again inside of itself, as deeply as the limit on nesting
allows. This is the only way in which a tile is rendered twice for a page.

A trace is *calm* if no reference to a tile is answered while the cell of that tile is rendered. For
calm traces everything holds that one expects of a cache: each key is rendered once, there are as
many tiles in the end as were begun, and all references with one key are given the same tile. The
first two of these hold for no other traces.

## Main definitions

* `Trace.begun`: the keys of the tiles that were begun, in order.
* `Trace.Calm`: no reference is answered while its own cell is rendered.

## Main results

* `Runs.keys_iff`, `Runs.not_mem_begun`: the tiles that are kept are those that were begun, and a
  tile that is kept is not begun again.
* `Runs.calm_iff`: a run is calm if and only if no key is begun twice.
* `Runs.lookup_of_calm`: in a calm run, references are given the tile that is kept in the end.
* `renderPage_renders_once_iff`: a page renders its tiles once if and only if it is calm.
* `renderPage_renders_twice`: not every page is.
-/

namespace ContentStream

/-! ### Keys in traces -/

/-- The **key of a tile that is begun**, if the mark says so. -/
def Mark.begun? : Mark → Option TileKey
  | .note (.begun key) => some key
  | _ => none

namespace Trace

/-- The **keys of the tiles that were begun**, in order. -/
def begun (t : Trace) : List TileKey :=
  t.filterMap Mark.begun?

/-- No tile is begun in an empty trace. -/
@[simp]
theorem begun_nil : begun [] = [] :=
  rfl

/-- An event by itself begins no tile; what does so is noted. -/
@[simp]
theorem begun_cons_event (e : Event) (t : Trace) : begun (.event e :: t) = begun t :=
  rfl

/-- A tile that is begun is one of those begun. -/
@[simp]
theorem begun_cons_begun (key : TileKey) (t : Trace) :
    begun (.note (.begun key) :: t) = key :: begun t :=
  rfl

/-- A reference that is answered begins no tile. -/
@[simp]
theorem begun_cons_obtained (key : TileKey) (tile : Tile) (t : Trace) :
    begun (.note (.obtained key tile) :: t) = begun t :=
  rfl

/-- The tiles that are begun in two traces, one after the other. -/
@[simp]
theorem begun_append (t₁ t₂ : Trace) : begun (t₁ ++ t₂) = begun t₁ ++ begun t₂ :=
  List.filterMap_append

/-- A trace that begins in the middle of rendering `cells`, innermost first, is **calm** if no
reference is answered to a tile whose cell is rendered at that time. -/
def Calm : (cells : List TileKey) → Trace → Prop
  | _, [] => True
  | cells, .note (.begun key) :: t => Calm (key :: cells) t
  | cells, .note (.obtained key _) :: t => key ∉ cells ∧ Calm cells t
  | cells, .event .endTile :: t => Calm cells.tail t
  | cells, .event _ :: t => Calm cells t

/-- A reference that is answered in the trace of a tile is answered in its cell, or is the one that
has asked for the tile. -/
theorem obtained_mem_cell {key key' : TileKey} {tile tile' : Tile} {bbox : Rect Float}
    {matrix : Matrix Float} {t : Trace} :
    .note (.obtained key tile) ∈ (.note (.begun key') :: .event (.beginTile bbox matrix) ::
      (t ++ [.event .endTile, .note (.obtained key' tile')]) : Trace) ↔
      .note (.obtained key tile) ∈ t ∨ key = key' ∧ tile = tile' := by
  simp

/-- A plain event does not disturb the calm. -/
theorem calm_cons_event {e : Event} (he : e.isPlain = true) {cells : List TileKey} {t : Trace} :
    Calm cells (.event e :: t) ↔ Calm cells t := by
  cases e with
  | endTile => cases he
  | _ => rfl

end Trace

/-! ### Runs -/

/-- When a tile is put in the table, its key comes first, and all others stay. -/
theorem keys_cons_filter (key : TileKey) (tile : Tile) (tiles : List (TileKey × Tile)) :
    ((key, tile) :: tiles.filter fun entry => entry.1 != key).map Prod.fst =
      key :: (tiles.map Prod.fst).filter fun other => other != key := by
  rw [List.map_cons, List.filter_map]
  rfl

namespace Runs

open Trace

variable {σ : Type} {ctx : Context σ} {floor : Nat} {m m' : Machine σ} {t : Trace}

/-- The tiles that are kept after a run are **those kept before and those begun**. A tile is kept
under its key as soon as its cell has been run. -/
theorem keys_iff (h : Runs ctx floor m t m') {key : TileKey} :
    key ∈ m'.keys ↔ key ∈ m.keys ∨ key ∈ begun t := by
  induction h with
  | trans _ _ ih₁ ih₂ => rw [ih₂, ih₁, begun_append, List.mem_append, or_assoc]
  | within _ _ ih | deeper _ ih | form _ _ ih => exact ih
  | @cell floor m m' t key' tile tiling gs miss hend _ ih =>
      have hkeys : key ∈ m'.keys ↔ key ∈ m.keys ∨ key ∈ begun t := ih
      simp only [Machine.keys, keys_cons_filter, begun_cons_begun, begun_cons_event, begun_append,
        begun_cons_obtained, begun_nil, List.append_nil, List.mem_cons, List.mem_filter,
        bne_iff_ne] at hkeys ⊢
      rw [hkeys]
      by_cases hkey : key = key' <;> simp [hkey]
  | _ => simp [begun, Mark.begun?, Machine.keys]

/-- A tile that is kept is not begun again, as a reference to it is answered from the table. This
holds inside of cells and forms as well. -/
theorem not_mem_begun (h : Runs ctx floor m t m') {key : TileKey} (hkey : key ∈ m.keys) :
    key ∉ begun t := by
  induction h with
  | trans h₁ _ ih₁ ih₂ =>
      rw [begun_append, List.mem_append]
      exact not_or.mpr ⟨ih₁ hkey, ih₂ (h₁.keys_iff.mpr (.inl hkey))⟩
  | within _ _ ih | deeper _ ih | form _ _ ih => exact ih hkey
  | @cell floor m m' t key' tile tiling gs miss hend _ ih =>
      have hne : key ≠ key' := by
        rintro rfl
        exact Machine.not_mem_keys.mpr miss hkey
      simpa [hne] using ih hkey
  | _ => simp [begun, Mark.begun?]

/-- Every key has one tile. -/
theorem nodup_keys (h : Runs ctx floor m t m') (hm : m.keys.Nodup) : m'.keys.Nodup := by
  induction h with
  | trans _ _ ih₁ ih₂ => exact ih₂ (ih₁ hm)
  | within _ _ ih | deeper _ ih | form _ _ ih => exact ih hm
  | cell miss hend _ ih =>
      simp only [Machine.keys, keys_cons_filter, List.nodup_cons, List.mem_filter,
        bne_self_eq_false, Bool.false_eq_true, and_false, not_false_eq_true, true_and]
      exact (ih hm).filter _
  | _ => exact hm

/-- Every tile that is begun makes one event, which is the one that tells the canvas of its bounds.
All others make another kind of event. -/
theorem countP_isBeginTile (h : Runs ctx floor m t m') :
    (Trace.events t).countP Event.isBeginTile = (begun t).length := by
  induction h with
  | trans _ _ ih₁ ih₂ =>
      rw [events_append, begun_append, List.countP_append, List.length_append, ih₁, ih₂]
  | within _ _ ih | deeper _ ih | form _ _ ih => exact ih
  | plain he =>
      obtain ⟨-, -, -, hbegin, -⟩ := Event.isPlain_iff.mp he
      simp [hbegin]
  | cell miss hend _ ih => simp [List.countP_cons, Event.isBeginTile, ih]
  | _ => rfl

/-- After a run, the same cells are still to be rendered: each cell that a run begins is ended in
it. So a trace may be cut behind a run. -/
theorem calm_append (h : Runs ctx floor m t m') (cells : List TileKey) (rest : Trace) :
    Calm cells (t ++ rest) ↔ Calm cells t ∧ Calm cells rest := by
  induction h generalizing cells rest with
  | stay | change f => simp [Calm]
  | trans _ _ ih₁ ih₂ => rw [List.append_assoc, ih₁, ih₂, ih₁, and_assoc]
  | plain he =>
      rw [List.singleton_append, calm_cons_event he, calm_cons_event he]
      simp [Calm]
  | save | restore _ _ => simp [Calm]
  | within _ _ ih | deeper _ ih | form _ _ ih => exact ih cells rest
  | reuse hit => simp [Calm]
  | cell miss hend _ ih => simp [Calm, ih, and_assoc]

/-- A cell is calm if what it does is, inside of its own tile. -/
theorem calm_cell (h : Runs ctx floor m t m') {cells : List TileKey} {key : TileKey} {tile : Tile}
    {bbox : Rect Float} {matrix : Matrix Float} :
    Calm cells (.note (.begun key) :: .event (.beginTile bbox matrix) ::
      (t ++ [.event .endTile, .note (.obtained key tile)])) ↔
      Calm (key :: cells) t ∧ key ∉ cells := by
  simp [Calm, h.calm_append]

/-- A run is calm if and only if no key is begun twice, nor one of the cells around it begun at all.
The induction is on runs, with the cells around as what is being rendered. -/
theorem calm_iff (h : Runs ctx floor m t m') {cells : List TileKey}
    (hcells : ∀ key ∈ cells, key ∉ m.keys) :
    Calm cells t ↔ (begun t).Nodup ∧ ∀ key ∈ cells, key ∉ begun t := by
  induction h generalizing cells with
  | @trans floor m m' m'' t t' h₁ h₂ ih₁ ih₂ =>
      have hdisjoint : ∀ key ∈ begun t, key ∉ begun t' := fun key hkey =>
        h₂.not_mem_begun (h₁.keys_iff.mpr (.inr hkey))
      have hcells' (hnot : ∀ key ∈ cells, key ∉ begun t) : ∀ key ∈ cells, key ∉ m'.keys :=
        fun key hkey hmem => (h₁.keys_iff.mp hmem).elim (hcells key hkey) (hnot key hkey)
      rw [h₁.calm_append, ih₁ hcells, begun_append, List.nodup_append]
      simp only [List.mem_append, not_or]
      constructor
      · rintro ⟨⟨hnodup, hnot⟩, hcalm⟩
        obtain ⟨hnodup', hnot'⟩ := (ih₂ (hcells' hnot)).mp hcalm
        refine ⟨⟨hnodup, hnodup', ?_⟩, fun key hkey => ⟨hnot key hkey, hnot' key hkey⟩⟩
        rintro key hkey _ hkey' rfl
        exact hdisjoint key hkey hkey'
      · rintro ⟨⟨hnodup, hnodup', -⟩, hnot⟩
        have hnot₁ : ∀ key ∈ cells, key ∉ begun t := fun key hkey => (hnot key hkey).1
        exact ⟨⟨hnodup, hnot₁⟩,
          (ih₂ (hcells' hnot₁)).mpr ⟨hnodup', fun key hkey => (hnot key hkey).2⟩⟩
  | within _ _ ih | deeper _ ih | form _ _ ih => exact ih hcells
  | plain he => simp [calm_cons_event he, Calm]
  | @reuse floor m key tile hit =>
      have hkey : key ∉ cells := fun hmem => hcells key hmem (Machine.mem_keys.mpr ⟨tile, hit⟩)
      simp [Calm, hkey]
  | @cell floor m m' t key tile tiling gs miss hend h ih =>
      have hcells' : ∀ key' ∈ key :: cells, key' ∉ m.keys :=
        List.forall_mem_cons.mpr ⟨Machine.not_mem_keys.mpr miss, hcells⟩
      rw [h.calm_cell, ih hcells']
      simp only [begun_cons_begun, begun_cons_event, begun_append, begun_cons_obtained, begun_nil,
        List.append_nil, List.nodup_cons, List.mem_cons, not_or, forall_eq_or_imp]
      constructor
      · rintro ⟨⟨hnodup, hkey, hnot⟩, hcell⟩
        refine ⟨⟨hkey, hnodup⟩, fun key' hkey' => ⟨?_, hnot key' hkey'⟩⟩
        rintro rfl
        exact hcell hkey'
      · rintro ⟨⟨hkey, hnodup⟩, hnot⟩
        exact ⟨⟨hnodup, hkey, fun key' hkey' => (hnot key' hkey').2⟩,
          fun hcell => (hnot key hcell).1 rfl⟩
  | _ => simp [Calm]

/-- In a calm run, no reference is answered to a tile that the run is inside of. If it were, the
tile would be one that is begun within itself. -/
theorem not_mem_of_calm (h : Runs ctx floor m t m') {cells : List TileKey} (hcalm : Calm cells t)
    {key : TileKey} {tile : Tile} (hmem : .note (.obtained key tile) ∈ t) : key ∉ cells := by
  induction h generalizing cells with
  | trans h₁ h₂ ih₁ ih₂ =>
      obtain ⟨hcalm₁, hcalm₂⟩ := (h₁.calm_append _ _).mp hcalm
      exact (List.mem_append.mp hmem).elim (ih₁ hcalm₁) (ih₂ hcalm₂)
  | within _ _ ih | deeper _ ih | form _ _ ih => exact ih hcalm hmem
  | reuse hit =>
      simp only [List.mem_singleton, Mark.note.injEq, Note.obtained.injEq] at hmem
      exact hmem.1 ▸ hcalm.1
  | cell miss hend h ih =>
      obtain ⟨hinside, hkey⟩ := h.calm_cell.mp hcalm
      rcases obtained_mem_cell.mp hmem with hmem | ⟨rfl, -⟩
      · exact fun hcell => ih hinside hmem (List.mem_cons_of_mem _ hcell)
      · exact hkey
  | _ => simp at hmem

/-- In a calm run, references are **given the tile that is kept in the end**. It could be replaced
only by a tile that was begun within itself. -/
theorem lookup_of_calm (h : Runs ctx floor m t m') {cells : List TileKey} (hcalm : Calm cells t)
    {key : TileKey} {tile : Tile} (hmem : .note (.obtained key tile) ∈ t) :
    m'.tiles.lookup key = some tile := by
  induction h generalizing cells with
  | trans h₁ h₂ ih₁ ih₂ =>
      obtain ⟨hcalm₁, hcalm₂⟩ := (h₁.calm_append _ _).mp hcalm
      rcases List.mem_append.mp hmem with hmem | hmem
      · exact h₂.lookup_tiles (ih₁ hcalm₁ hmem)
      · exact ih₂ hcalm₂ hmem
  | within _ _ ih | deeper _ ih | form _ _ ih => exact ih hcalm hmem
  | reuse hit =>
      simp only [List.mem_singleton, Mark.note.injEq, Note.obtained.injEq] at hmem
      obtain ⟨rfl, rfl⟩ := hmem
      exact hit
  | cell miss hend h ih =>
      obtain ⟨hinside, -⟩ := h.calm_cell.mp hcalm
      rcases obtained_mem_cell.mp hmem with hmem | ⟨rfl, rfl⟩
      · have hne := h.not_mem_of_calm hinside hmem
        rw [lookup_cons_filter_of_ne (List.ne_of_not_mem_cons hne)]
        exact ih hinside hmem
      · exact List.lookup_cons_self
  | _ => simp at hmem

end Runs

/-! ### Pages -/

/-- The keys kept are as many as the keys begun if and only if none of these was begun twice. -/
theorem length_keys_eq_iff {keys begun : List TileKey} (hkeys : keys.Nodup)
    (hmem : ∀ key, key ∈ keys ↔ key ∈ begun) : keys.length = begun.length ↔ begun.Nodup := by
  have hsub : keys.Subperm begun := List.subperm_of_subset hkeys fun key => (hmem key).mp
  constructor
  · intro hlen
    exact (hsub.perm_of_length_le (Nat.le_of_eq hlen.symm)).nodup_iff.mp hkeys
  · intro hbegun
    exact ((List.perm_ext_iff_of_nodup hkeys hbegun).mpr hmem).length_eq

/-- **A page renders its tiles once, if it is calm**, and only then. Every tile that is begun has a
key; each key is begun at most once if and only if no reference to a tile is answered while the cell
of that tile is rendered, and if and only if there are as many tiles in the end as were begun. All
references with one key are then given the same tile. -/
theorem renderPage_renders_once_iff {σ : Type} (ctx : Context σ) (page : Page σ)
    (m : Machine σ) :
    let o := (Action.renderPage ctx page).run m
    o.events.countP Event.isBeginTile = o.trace.begun.length ∧
    ((∀ key, o.trace.begun.count key ≤ 1) ↔ Trace.Calm [] o.trace) ∧
    (o.machine.tiles.length = o.events.countP Event.isBeginTile ↔ Trace.Calm [] o.trace) ∧
    (Trace.Calm [] o.trace → ∀ key tile tile', .note (.obtained key tile) ∈ o.trace →
      .note (.obtained key tile') ∈ o.trace → tile = tile') := by
  have hkeeps : Action.Keeps ctx 1 Action.anything (Action.execute ctx page.content) :=
    Action.keeps_execute 1 page.content
  have hrun := hkeeps.runs (m := m.turnTo page) (GStack.one_le_depth _)
  have hfresh : (m.turnTo page).keys = [] := rfl
  rw [Action.run_renderPage]
  generalize (Action.execute ctx page.content).run (m.turnTo page) = x at hrun
  intro o
  have hbegun : o.trace.begun = x.trace.begun := by simp [o]
  have hcalm : Trace.Calm [] o.trace ↔ Trace.Calm [] x.trace := by
    simp [o, Trace.Calm, hrun.calm_append]
  have hevents : o.events.countP Event.isBeginTile = x.trace.begun.length := by
    rw [← hrun.countP_isBeginTile]
    simp [o, Outcome.events, Event.isBeginTile]
  have hiff : Trace.Calm [] x.trace ↔ x.trace.begun.Nodup := by
    rw [hrun.calm_iff (List.forall_mem_nil _)]
    simp
  have hlength : o.machine.tiles.length = x.trace.begun.length ↔ x.trace.begun.Nodup := by
    rw [← length_keys_eq_iff (hrun.nodup_keys (by simp [hfresh]))
      fun key => by rw [hrun.keys_iff, hfresh]; simp]
    simp [o, Machine.keys]
  refine ⟨by rw [hevents, hbegun], ?_, ?_, fun h key tile tile' hmem hmem' => ?_⟩
  · rw [hbegun, hcalm, hiff, List.nodup_iff_count]
  · rw [hevents, hcalm, hiff, hlength]
  · have htile := hrun.lookup_of_calm (hcalm.mp h) (by simpa [o] using hmem)
    have htile' := hrun.lookup_of_calm (hcalm.mp h) (by simpa [o] using hmem')
    exact Option.some.inj (htile.symm.trans htile')

/-! ### A cell that refers to itself -/

namespace SelfReference

/-- A content stream that selects the **pattern** `P`. -/
def content : Bytes :=
  Utf8.encode "/Pattern cs /P scn"

/-- A directory whose pattern `P` has a cell that **selects `P`**. -/
def directory : Directory :=
  #[{ patterns := [("P", .tiling {
      identity := 7
      kind := .colored
      bbox := ⟨0.0, 0.0, 1.0, 1.0⟩
      xStep := 1.0
      yStep := 1.0
      matrix := Matrix.identity
      content := content
      scope := none })] }]

/-- The cell may be nested **once**. -/
def ctx : Context Nat where
  library := directory.library
  config := { maxDepth := 1 }
  surface := some

/-- A page that selects `P` itself. -/
def page : Page Nat where
  mediaBox := ⟨0.0, 0.0, 10.0, 10.0⟩
  content := content
  scope := 0

end SelfReference

/-- The **surface** of the tile that a reference is given, if the mark says so. -/
def Mark.surface? : Mark → Option (Option Nat)
  | .note (.obtained _ tile) => some tile.surface
  | _ => none

/-- A page with a tile that is **rendered twice**: its cell refers to itself. One tile is kept of
the two, and the two references are given different surfaces. -/
theorem renderPage_renders_twice :
    let o := (Action.renderPage SelfReference.ctx SelfReference.page).run { scopes := [] }
    o.trace.begun = [⟨7, []⟩, ⟨7, []⟩] ∧
    o.events.countP Event.isBeginTile = 2 ∧
    o.machine.tiles.length = 1 ∧
    o.trace.filterMap Mark.surface? = [some 1, some 2] := by
  decide +kernel

end ContentStream
