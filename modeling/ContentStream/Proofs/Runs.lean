import ContentStream.Action

/-!
# Runs

Whatever a program asks for, an interpretation only ever does one of a few things to the machine.
It changes the current graphics state, shows something, saves and restores states, and runs nested
programs: with one more scope in force, one level deeper, on behalf of a form, or in the cell of a
tile on a stack of its own. `Runs ctx floor m t m'` says that such doings lead from the machine `m`
to `m'` and leave the trace `t`, and that no state at or below the depth `floor` is restored away.

What holds of all runs is proved by induction on `Runs`, one case for each kind of doing. This
module has what a run leaves alone.

## Main definitions

* `Runs`: the runs above a floor.

## Main results

* `Runs.floor_le`: a run above a floor stays above it.
* `Runs.below_eq`: a run leaves the states below its floor alone.
* `Runs.scopes_eq`, `Runs.depth_eq`, `Runs.forms_eq`, `Runs.pageBounds_eq`: and what is in force
  around it.
* `Runs.lookup_tiles`: and the tiles that were rendered before.
-/

namespace ContentStream

variable {σ : Type}

/-! ### Kinds of events -/

namespace Event

/-- Whether a **page begins or ends**. -/
def isPage : Event → Bool
  | .beginPage _ _ | .endPage => true
  | _ => false

/-- Whether a **state was saved**. -/
def isSave : Event → Bool
  | .save _ => true
  | _ => false

/-- Whether a **state was restored**. -/
def isRestore : Event → Bool
  | .restore _ => true
  | _ => false

/-- Whether a **tile begins**. -/
def isBeginTile : Event → Bool
  | .beginTile _ _ => true
  | _ => false

/-- Whether a **tile ends**. -/
def isEndTile : Event → Bool
  | .endTile => true
  | _ => false

/-- Whether an event **opens or closes nothing**: no page, no saved state and no tile. -/
def isPlain (e : Event) : Bool :=
  !(e.isPage || e.isSave || e.isRestore || e.isBeginTile || e.isEndTile)

/-- A plain event is none of the five kinds that come in pairs. -/
theorem isPlain_iff {e : Event} :
    e.isPlain = true ↔ e.isPage = false ∧ e.isSave = false ∧ e.isRestore = false ∧
      e.isBeginTile = false ∧ e.isEndTile = false := by
  simp [isPlain, and_assoc]

end Event

/-! ### Runs -/

/-- **Runs above a floor.** A nested program leaves behind the scopes, the depth and the forms in
execution of the program that invoked it; the stack that a cell runs on is dropped with it. -/
inductive Runs (ctx : Context σ) : (floor : Nat) → Machine σ → Trace → Machine σ → Prop
  | stay {floor : Nat} {m : Machine σ} : Runs ctx floor m [] m
  | trans {floor : Nat} {m m' m'' : Machine σ} {t t' : Trace} :
      Runs ctx floor m t m' → Runs ctx floor m' t' m'' → Runs ctx floor m (t ++ t') m''
  | change {floor : Nat} {m : Machine σ} (f : GState → GState) :
      Runs ctx floor m [] { m with stack := m.stack.modify f }
  | plain {floor : Nat} {m : Machine σ} {e : Event} (he : e.isPlain = true) :
      Runs ctx floor m [.event e] m
  | save {floor : Nat} {m : Machine σ} :
      Runs ctx floor m [.event (.save m.stack.current)] { m with stack := m.stack.save }
  | restore {floor : Nat} {m : Machine σ} {stack : GStack} (hfloor : floor < m.stack.depth)
      (hstack : m.stack.restore? = some stack) :
      Runs ctx floor m [.event (.restore stack.current)] { m with stack }
  | within {floor : Nat} {m m' : Machine σ} {t : Trace} (scope : σ) :
      Runs ctx floor { m with scopes := scope :: m.scopes } t m' →
      Runs ctx floor m t { m' with scopes := m.scopes }
  | deeper {floor : Nat} {m m' : Machine σ} {t : Trace} :
      Runs ctx floor { m with depth := m.depth + 1 } t m' →
      Runs ctx floor m t { m' with depth := m.depth }
  | form {floor : Nat} {m m' : Machine σ} {t : Trace} {id : Nat} (hid : id ∉ m.forms) :
      Runs ctx floor { m with forms := id :: m.forms } t m' →
      Runs ctx floor m t { m' with forms := m.forms }
  | reuse {floor : Nat} {m : Machine σ} {key : TileKey} {tile : Tile}
      (hit : m.tiles.lookup key = some tile) :
      Runs ctx floor m [.note (.obtained key tile)] m
  | cell {floor : Nat} {m m' : Machine σ} {t : Trace} {key : TileKey} {tile : Tile}
      {tiling : Tiling σ} {gs : GState} (miss : m.tiles.lookup key = none)
      (hend : m'.stack.saved = []) :
      Runs ctx 1 { m with stack := ⟨gs, []⟩ } t m' →
      Runs ctx floor m
        (.note (.begun key) :: .event (.beginTile tiling.bbox tiling.matrix) ::
          (t ++ [.event .endTile, .note (.obtained key tile)]))
        { m' with
          stack := m.stack
          finished := m'.finished + 1
          tiles := (key, tile) :: m'.tiles.filter fun entry => entry.1 != key }

/-- The **keys** of the tiles that were rendered. -/
def Machine.keys (m : Machine σ) : List TileKey :=
  m.tiles.map Prod.fst

/-- A key is that of a tile exactly if there is a tile for it. -/
theorem Machine.mem_keys {m : Machine σ} {key : TileKey} :
    key ∈ m.keys ↔ ∃ tile, m.tiles.lookup key = some tile := by
  rw [← Option.isSome_iff_exists, List.lookup_isSome_iff]
  simp [keys]

/-- It is that of no tile exactly if none is found. -/
theorem Machine.not_mem_keys {m : Machine σ} {key : TileKey} :
    key ∉ m.keys ↔ m.tiles.lookup key = none := by
  rw [mem_keys, ← Option.isSome_iff_exists, Option.not_isSome_iff_eq_none]

/-- What a table has for other keys does not change when a key is set, although all earlier entries
of that key are taken out of it. -/
theorem lookup_cons_filter_of_ne {key key' : TileKey} (h : key ≠ key') {tile : Tile}
    (tiles : List (TileKey × Tile)) :
    ((key', tile) :: tiles.filter fun entry => entry.1 != key').lookup key = tiles.lookup key := by
  rw [List.lookup_cons, beq_false_of_ne h]
  induction tiles with
  | nil => rfl
  | cons entry tiles ih =>
      by_cases hentry : entry.1 = key'
      · rw [List.filter_cons_of_neg (by simp [hentry]), ih, List.lookup_cons, hentry,
          beq_false_of_ne h]
      · rw [List.filter_cons_of_pos (by simp [hentry]), List.lookup_cons, List.lookup_cons]
        simp only at ih
        rw [ih]

namespace Runs

variable {ctx : Context σ} {floor : Nat} {m m' : Machine σ} {t : Trace}

/-- A run that starts above its floor ends above it. This, and what follows, is by induction on the
run, with a case for each kind of doing. -/
theorem floor_le (h : Runs ctx floor m t m') (hm : floor ≤ m.stack.depth) :
    floor ≤ m'.stack.depth := by
  induction h with
  | stay => exact hm
  | trans _ _ ih₁ ih₂ => exact ih₂ (ih₁ hm)
  | change f => exact hm
  | plain he => exact hm
  | save => exact Nat.le_succ_of_le hm
  | restore hfloor hstack =>
      have := GStack.depth_restore? hstack
      simp only
      omega
  | within scope _ ih => exact ih hm
  | deeper _ ih => exact ih hm
  | form hid _ ih => exact ih hm
  | reuse hit => exact hm
  | cell miss hend _ _ => exact hm

/-- A run leaves the states below its floor as they were: it saves on top of them, and it restores
only those that were saved above the floor. -/
theorem below_eq (h : Runs ctx floor m t m') (hm : floor ≤ m.stack.depth) :
    m'.stack.below floor = m.stack.below floor := by
  induction h with
  | stay => rfl
  | trans h₁ _ ih₁ ih₂ => exact (ih₂ (h₁.floor_le hm)).trans (ih₁ hm)
  | change f => rfl
  | plain he => rfl
  | save => exact GStack.below_save _ hm
  | restore hfloor hstack => exact GStack.below_restore? hstack hfloor
  | within scope _ ih => exact ih hm
  | deeper _ ih => exact ih hm
  | form hid _ ih => exact ih hm
  | reuse hit => rfl
  | cell miss hend _ _ => rfl

/-- A run leaves the scopes in force as they were. -/
theorem scopes_eq (h : Runs ctx floor m t m') : m'.scopes = m.scopes := by
  induction h with
  | trans _ _ ih₁ ih₂ => exact ih₂.trans ih₁
  | deeper _ ih | form _ _ ih | cell _ _ _ ih => exact ih
  | _ => rfl

/-- A run leaves the depth of nesting as it was. -/
theorem depth_eq (h : Runs ctx floor m t m') : m'.depth = m.depth := by
  induction h with
  | trans _ _ ih₁ ih₂ => exact ih₂.trans ih₁
  | within _ _ ih | form _ _ ih | cell _ _ _ ih => exact ih
  | _ => rfl

/-- A run leaves the forms in execution as they were. -/
theorem forms_eq (h : Runs ctx floor m t m') : m'.forms = m.forms := by
  induction h with
  | trans _ _ ih₁ ih₂ => exact ih₂.trans ih₁
  | within _ _ ih | deeper _ ih | cell _ _ _ ih => exact ih
  | _ => rfl

/-- A run leaves the bounds of the page as they were. -/
theorem pageBounds_eq (h : Runs ctx floor m t m') : m'.pageBounds = m.pageBounds := by
  induction h with
  | trans _ _ ih₁ ih₂ => exact ih₂.trans ih₁
  | within _ _ ih | deeper _ ih | form _ _ ih | cell _ _ _ ih => exact ih
  | _ => rfl

/-- A run leaves the tiles that are there already as they were. A tile is added only after its key
was not found, so its key is another one. -/
theorem lookup_tiles (h : Runs ctx floor m t m') {key : TileKey} {tile : Tile}
    (hkey : m.tiles.lookup key = some tile) : m'.tiles.lookup key = some tile := by
  induction h with
  | trans _ _ ih₁ ih₂ => exact ih₂ (ih₁ hkey)
  | within _ _ ih | deeper _ ih | form _ _ ih => exact ih hkey
  | @cell floor m m' t key' tile' tiling gs miss _ _ ih =>
      have hne : key ≠ key' := by
        rintro rfl
        exact absurd (hkey.symm.trans miss) (by simp)
      rw [lookup_cons_filter_of_ne hne]
      exact ih hkey
  | _ => exact hkey

end Runs

end ContentStream
