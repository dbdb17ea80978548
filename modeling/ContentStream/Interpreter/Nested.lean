import ContentStream.Interpreter.Frame

/-!
# Nested programs

Forms and the cells of tiling patterns are programs that run on behalf of another one. Whatever
such a program leaves behind on the graphics state stack is unwound when it ends, and so are its
scope and its place among the forms in execution; a fault in it goes no further.

How a nested program runs is a parameter here, `call`, which is given the program's bytes. The
interpreter supplies it, together with the limit on nesting.
-/

namespace ContentStream

/-- The key under which a tile is shared. -/
def TileSharing.key {σ : Type} (sharing : TileSharing) (tiling : Tiling σ) (tint : Option Tint) :
    TileKey where
  pattern := tiling.identity
  tint :=
    match sharing, tiling.kind, tint with
    | .byPatternAndTint, .uncolored, some tint => tint
    | _, _, _ => []

/-- The state a cell starts in: its lower left corner is the origin, and a stencil has its tint for
both inks. -/
def Tiling.initialState {σ : Type} (tiling : Tiling σ) (tint : Option Tint) : GState :=
  let gs := GState.under ⟨1.0, 0.0, 0.0, 1.0, -tiling.bbox.x0, -tiling.bbox.y0⟩
  match tiling.kind, tint with
  | .uncolored, some tint =>
    { gs with fill.paint := .solid tint.color, stroke.paint := .solid tint.color }
  | _, _ => gs

/-- The tile of a rendered cell. -/
def Tiling.tile {σ : Type} (tiling : Tiling σ) (surface : Option Nat) : Tile where
  pattern := tiling.identity
  bbox := tiling.bbox
  xStep := tiling.xStep
  yStep := tiling.yStep
  matrix := tiling.matrix
  surface := surface

/-- The state a sub-program starts in, from that of its caller. -/
def GState.nested (gs : GState) (transform : Matrix Float) (clip : Option (Rect Float)) :
    GState :=
  let gs := { gs with ctm := transform.concat gs.ctm }
  match clip with
  | some box => gs.narrow ((Path.ofRect box).transform gs.ctm)
  | none => gs

namespace Action

variable {σ α : Type}

/-- Does an action with one more scope in force, if one is given. -/
def within (scope : Option σ) (x : Action σ α) : Action σ α := do
  let scopes := (← machine).scopes
  modify fun m => { m with scopes := scope.toList ++ m.scopes }
  let result ← attempt x
  modify fun m => { m with scopes := m.scopes.drop (m.scopes.length - scopes.length) }
  ofExcept result

/-- Does an action one level deeper. -/
def deeper (x : Action σ α) : Action σ α := do
  modify fun m => { m with depth := m.depth + 1 }
  let result ← attempt x
  modify fun m => { m with depth := m.depth - 1 }
  ofExcept result

/-- Runs a sub-program: in a saved graphics state, under a transform of its own, clipped to a box in
its own space, and with a scope of its own, as far as these are given. -/
def subProgram (call : Bytes → Action σ Unit) (content : Bytes) (transform : Matrix Float)
    (clip : Option (Rect Float)) (scope : Option σ) : Action σ Unit := do
  let depth := (← machine).stack.depth
  save
  modifyState fun gs => { gs with ctm := transform.concat gs.ctm }
  match clip with
  | some box => narrowClip (Path.ofRect box)
  | none => pure ()
  let result ← attempt (within scope (call content))
  unwind depth
  ofExcept result

/-- Runs a form. One that is already in execution is passed over, and a fault in its content is not
passed on. -/
def runForm (call : Bytes → Action σ Unit) (form : Form σ) : Action σ Unit := do
  if (← machine).forms.contains form.identity then
    pure ()
  else
    modify fun m => { m with forms := form.identity :: m.forms }
    let _ ← attempt (subProgram call form.content form.matrix (some form.bbox) form.scope)
    modify fun m => { m with forms := m.forms.drop 1 }

/-- Renders a cell on a graphics state stack of its own, and gives the finished tile. A fault in its
content is not passed on. -/
def renderCell (ctx : Context σ) (call : Bytes → Action σ Unit) (tiling : Tiling σ)
    (tint : Option Tint) : Action σ Tile := do
  emit (.beginTile tiling.bbox tiling.matrix)
  let stack := (← machine).stack
  modify fun m => { m with stack := ⟨tiling.initialState tint, []⟩ }
  let _ ← attempt (within tiling.scope (call tiling.content))
  unwind 1
  modify fun m => { m with stack, finished := m.finished + 1 }
  emit .endTile
  pure (tiling.tile (ctx.surface (← machine).finished))

/-- Gives the tile of a pattern: one that was rendered for the page already, or a new one. -/
def tile (ctx : Context σ) (call : Bytes → Action σ Unit) (tiling : Tiling σ)
    (tint : Option Tint) : Action σ Tile := do
  let key := ctx.config.tileSharing.key tiling tint
  match (← machine).tiles.lookup key with
  | some tile =>
    note (.obtained key tile)
    pure tile
  | none =>
    note (.begun key)
    let tile ← renderCell ctx call tiling tint
    modify fun m => { m with tiles := (key, tile) :: m.tiles.filter fun entry => entry.1 != key }
    note (.obtained key tile)
    pure tile

/-! ### Running -/

section Running

variable (m : Machine σ)

/-- Without a scope of its own, an action is done as it is, if it leaves the scopes alone. -/
theorem run_within_none (x : Action σ α) (h : (x.run m).machine.scopes = m.scopes) :
    (within none x).run m = x.run m := by
  have hscopes : { (x.run m).machine with scopes := m.scopes } = (x.run m).machine := by
    rw [← h]
  simp [within, run_bind, Outcome.after, h, hscopes]

/-- A scope is gone again after an action that leaves the scopes alone. -/
theorem run_within_some {scope : σ} {x : Action σ α} {o : Outcome σ α}
    (ho : x.run { m with scopes := scope :: m.scopes } = o)
    (h : o.machine.scopes = scope :: m.scopes) :
    (within (some scope) x).run m =
      ⟨o.result, { o.machine with scopes := m.scopes }, o.trace⟩ := by
  simp [within, run_bind, Outcome.after, ho, h]

/-- A level deeper, an action finds the level, and leaves it again. -/
theorem run_deeper (x : Action σ α) :
    (deeper x).run m =
      let o := x.run { m with depth := m.depth + 1 }
      ⟨o.result, { o.machine with depth := o.machine.depth - 1 }, o.trace⟩ := by
  simp [deeper, run_bind, Outcome.after]

/-- A sub-program starts with the caller's state saved, and whatever it leaves on top of the
caller's stack is cut off. -/
theorem run_subProgram (call : Bytes → Action σ Unit) (content : Bytes)
    (transform : Matrix Float) (clip : Option (Rect Float)) (scope : Option σ) :
    ∃ t₀ t₁, (subProgram call content transform clip scope).run m =
      let o := (within scope (call content)).run { m with
        stack := ⟨m.stack.current.nested transform clip, m.stack.current :: m.stack.saved⟩ }
      ⟨o.result, { o.machine with stack := o.machine.stack.truncate m.stack.depth },
        t₀ ++ (o.trace ++ t₁)⟩ := by
  obtain ⟨t, ht⟩ := run_unwind m.stack.one_le_depth
    (m := ((within scope (call content)).run { m with
      stack := ⟨m.stack.current.nested transform clip, m.stack.current :: m.stack.saved⟩ }).machine)
  cases clip with
  | none =>
    refine ⟨[.event (.save m.stack.current)], t, ?_⟩
    simp only [GState.nested] at ht ⊢
    simp [subProgram, run_bind, GStack.save, GStack.modify, ht, Outcome.after]
  | some box =>
    refine ⟨[.event (.save m.stack.current), .event (.clip
      ((Path.ofRect box).transform (transform.concat m.stack.current.ctm)))], t, ?_⟩
    simp only [GState.nested] at ht ⊢
    simp [subProgram, narrowClip, run_bind, GStack.save, GStack.modify, ht, Outcome.after]

/-- A form that is in execution already is passed over. -/
theorem run_runForm_of_mem {call : Bytes → Action σ Unit} {form : Form σ}
    (h : form.identity ∈ m.forms) : (runForm call form).run m = ⟨.ok (), m, []⟩ := by
  simp [runForm, run_bind, h]

/-- A form that is not in execution is run as a sub-program, and its fault is not passed on. -/
theorem run_runForm {call : Bytes → Action σ Unit} {form : Form σ}
    (h : form.identity ∉ m.forms) :
    (runForm call form).run m =
      let o := (subProgram call form.content form.matrix (some form.bbox) form.scope).run
        { m with forms := form.identity :: m.forms }
      ⟨.ok (), { o.machine with forms := o.machine.forms.drop 1 }, o.trace⟩ := by
  simp [runForm, run_bind, h, Outcome.after]

/-- A cell is run on a stack of its own, which is unwound in the end, and the caller's is put
back. -/
theorem run_renderCell (ctx : Context σ) (call : Bytes → Action σ Unit) (tiling : Tiling σ)
    (tint : Option Tint) :
    (renderCell ctx call tiling tint).run m =
      let o := (do let _ ← attempt (within tiling.scope (call tiling.content)); unwind 1).run
        { m with stack := ⟨tiling.initialState tint, []⟩ }
      ⟨.ok (tiling.tile (ctx.surface (o.machine.finished + 1))),
        { o.machine with stack := m.stack, finished := o.machine.finished + 1 },
        .event (.beginTile tiling.bbox tiling.matrix) :: (o.trace ++ [.event .endTile])⟩ := by
  obtain ⟨t, ht⟩ := run_unwind (Nat.le_refl 1)
    (m := ((within tiling.scope (call tiling.content)).run
      { m with stack := ⟨tiling.initialState tint, []⟩ }).machine)
  simp [renderCell, run_bind, ht, Outcome.after]

/-- A tile that is there already is handed out. -/
theorem run_tile_of_some {ctx : Context σ} {call : Bytes → Action σ Unit} {tiling : Tiling σ}
    {tint : Option Tint} {tile : Tile}
    (h : m.tiles.lookup (ctx.config.tileSharing.key tiling tint) = some tile) :
    (Action.tile ctx call tiling tint).run m =
      ⟨.ok tile, m, [.note (.obtained (ctx.config.tileSharing.key tiling tint) tile)]⟩ := by
  simp [Action.tile, run_bind, h, Outcome.after]

/-- A tile that is not there yet is rendered. It replaces any that its own cell has left under the
same key, and what the cell shows stands between the two notes. -/
theorem run_tile_of_none {ctx : Context σ} {call : Bytes → Action σ Unit} {tiling : Tiling σ}
    {tint : Option Tint} {o : Outcome σ Tile} {tile : Tile}
    (h : m.tiles.lookup (ctx.config.tileSharing.key tiling tint) = none)
    (ho : (renderCell ctx call tiling tint).run m = o) (htile : o.result = .ok tile) :
    (Action.tile ctx call tiling tint).run m =
      let key := ctx.config.tileSharing.key tiling tint
      ⟨.ok tile, { o.machine with
        tiles := (key, tile) :: o.machine.tiles.filter fun entry => entry.1 != key },
        .note (.begun key) :: (o.trace ++ [.note (.obtained key tile)])⟩ := by
  obtain ⟨result, machine, trace⟩ := o
  obtain rfl : result = .ok tile := htile
  simp [Action.tile, run_bind, h, ho, Outcome.after]

end Running

end Action

end ContentStream
