import ContentStream.Proofs.Keeps

/-!
# Bracketing

A device that keeps a stack of states of its own may rely on what it is told: it can push at every
save and pop at every restore, start over with an empty stack at the beginning of a tile and go back
to the one before at its end, and it will always hold the states that the interpreter has saved.

`Mirrors s es s'` says so of the events `es`, for a device that holds the states `s` before and `s'`
after. A restore is mirrored only if the state it announces is the one that the device takes off its
stack, which is the one that was announced by the matching save; and the events of a cell have to
use up what they push. What the device sees of the states outside of all tiles, or within a tile and
outside of those in it, is then a word of brackets.

## Main definitions

* `Mirrors`: the events that a device with a stack of its own can follow.
* `outside`: the events outside of all tiles.
* `Balanced`: the saves and restores outside of all tiles match.

## Main results

* `Mirrors.exists_endTile`: a tile that is begun is ended, and what lies between is balanced.
* `Runs.mirrors`: a run is followed from the states saved before to those saved after.
* `renderPage_bracketed`: so is a page, between its two own events, whatever its content does.
-/

namespace ContentStream

/-! ### Following events -/

/-- **Events that a device can follow** with a stack of its own, from one content of the stack to
another, latest state first. Each cell has a stack to itself, which it leaves empty. -/
inductive Mirrors : List GState → List Event → List GState → Prop
  | done {s : List GState} : Mirrors s [] s
  | plain {s s' : List GState} {e : Event} {es : List Event} (he : e.isPlain = true) :
      Mirrors s es s' → Mirrors s (e :: es) s'
  | save {s s' : List GState} {gs : GState} {es : List Event} :
      Mirrors (gs :: s) es s' → Mirrors s (.save gs :: es) s'
  | restore {s s' : List GState} {gs : GState} {es : List Event} :
      Mirrors s es s' → Mirrors (gs :: s) (.restore gs :: es) s'
  | tile {s s' : List GState} {cell es : List Event} {bbox : Rect Float} {matrix : Matrix Float} :
      Mirrors [] cell [] → Mirrors s es s' →
      Mirrors s (.beginTile bbox matrix :: (cell ++ .endTile :: es)) s'

namespace Mirrors

variable {s s' s'' : List GState} {es es' : List Event}

/-- Events that are followed may be followed one after the other. -/
theorem append (h : Mirrors s es s') (h' : Mirrors s' es' s'') : Mirrors s (es ++ es') s'' := by
  induction h with
  | done => exact h'
  | plain he _ ih => exact plain he (ih h')
  | save _ ih => exact save (ih h')
  | restore _ ih => exact restore (ih h')
  | tile hcell _ _ ih =>
      simp only [List.cons_append, List.append_assoc]
      exact tile hcell (ih h')

/-- No page begins or ends in between, not even in a cell. So the two events of a page are its first
and its last. -/
theorem isPage_of_mem {e : Event} (h : Mirrors s es s') (he : e ∈ es) : e.isPage = false := by
  induction h with
  | done => simp at he
  | plain he' _ ih =>
      rcases List.mem_cons.mp he with rfl | he
      · exact (Event.isPlain_iff.mp he').1
      · exact ih he
  | save _ ih | restore _ ih =>
      rcases List.mem_cons.mp he with rfl | he
      · rfl
      · exact ih he
  | tile _ _ ihcell ih =>
      simp only [List.mem_cons, List.mem_append] at he
      rcases he with rfl | he | rfl | he
      · rfl
      · exact ihcell he
      · rfl
      · exact ih he

end Mirrors

/-! ### Outside of tiles -/

/-- The **events outside of all tiles** of a list that begins in the middle of `n` tiles. -/
def outside : (n : Nat) → List Event → List Event
  | _, [] => []
  | n, .beginTile _ _ :: es => outside (n + 1) es
  | n, .endTile :: es => outside (n - 1) es
  | 0, e :: es => e :: outside 0 es
  | n + 1, _ :: es => outside (n + 1) es

/-- The number of states **saved outside** of all tiles. -/
def saves (es : List Event) : Nat :=
  (outside 0 es).countP Event.isSave

/-- The number of states **restored outside** of all tiles. -/
def restores (es : List Event) : Nat :=
  (outside 0 es).countP Event.isRestore

/-- A list is **balanced** if, outside of all tiles, at no time more states have been restored than
saved, and in the end as many. -/
structure Balanced (es : List Event) : Prop where
  restores_le : ∀ pre, pre <+: es → restores pre ≤ saves pre
  saves_eq : saves es = restores es

/-- What is outside at some time remains so: an event that comes later does not change where those
before it stand. -/
theorem outside_mono {pre es : List Event} (h : pre <+: es) (n : Nat) :
    outside n pre <+: outside n es := by
  induction pre generalizing n es with
  | nil => rw [outside]; exact List.nil_prefix
  | cons e pre ih =>
      obtain ⟨post, rfl⟩ := h
      have hpre : pre <+: pre ++ post := List.prefix_append pre post
      cases e with
      | beginTile bbox matrix => exact ih hpre (n + 1)
      | endTile => exact ih hpre (n - 1)
      | _ =>
          cases n with
          | zero => exact List.cons_prefix_cons.mpr ⟨rfl, ih hpre 0⟩
          | succ n => exact ih hpre (n + 1)

/-- An event that is neither of a tile nor of the stack is outside if no tile is begun. -/
theorem outside_zero_cons {e : Event} (he : e.isPlain = true) (es : List Event) :
    outside 0 (e :: es) = e :: outside 0 es := by
  cases e with
  | beginTile bbox matrix | endTile => cases he
  | _ => rfl

/-- The same event within a tile is not. -/
theorem outside_succ_cons {e : Event} (he : e.isPlain = true) (n : Nat) (es : List Event) :
    outside (n + 1) (e :: es) = outside (n + 1) es := by
  cases e with
  | beginTile bbox matrix | endTile => cases he
  | _ => rfl

namespace Mirrors

variable {s s' : List GState} {es : List Event}

/-- Within a tile, nothing that can be followed is outside. The tiles in it end before it does, so
that what comes after is still at the same level. -/
theorem outside_append (h : Mirrors s es s') (n : Nat) (rest : List Event) :
    outside (n + 1) (es ++ rest) = outside (n + 1) rest := by
  induction h generalizing n rest with
  | done => rfl
  | plain he _ ih => rw [List.cons_append, outside_succ_cons he, ih]
  | save _ ih | restore _ ih => exact ih n rest
  | @tile s s' cell es bbox matrix _ _ ihcell ih =>
      calc outside (n + 1) (.beginTile bbox matrix :: (cell ++ .endTile :: es) ++ rest)
          = outside (n + 2) (cell ++ .endTile :: (es ++ rest)) := by
            simp only [List.cons_append, List.append_assoc, outside]
        _ = outside (n + 2) (.endTile :: (es ++ rest)) := ihcell (n + 1) _
        _ = outside (n + 1) rest := ih n rest

/-- Tiles contribute nothing to what is outside. -/
theorem outside_tile {cell : List Event} (h : Mirrors s cell s') (bbox : Rect Float)
    (matrix : Matrix Float) (es : List Event) :
    outside 0 (.beginTile bbox matrix :: (cell ++ .endTile :: es)) = outside 0 es := by
  rw [outside, h.outside_append 0 (.endTile :: es)]
  rfl

/-- At no time are more states restored than were there or have been saved. The induction is on what
is followed, and a cell has a stack to itself, so that it leaves the count alone. -/
theorem countP_restore_le (h : Mirrors s es s') {q : List Event} (hq : q <+: outside 0 es) :
    q.countP Event.isRestore ≤ q.countP Event.isSave + s.length := by
  induction h generalizing q with
  | done =>
      obtain rfl := List.prefix_nil.mp hq
      exact Nat.zero_le _
  | plain he _ ih =>
      rw [outside_zero_cons he] at hq
      rcases List.prefix_cons_iff.mp hq with rfl | ⟨q, rfl, hq'⟩
      · exact Nat.zero_le _
      · obtain ⟨-, hsave, hrestore, -, -⟩ := Event.isPlain_iff.mp he
        simpa [List.countP_cons, hsave, hrestore] using ih hq'
  | save _ ih | restore _ ih =>
      rcases List.prefix_cons_iff.mp hq with rfl | ⟨q, rfl, hq'⟩
      · exact Nat.zero_le _
      · have := ih hq'
        simp only [List.countP_cons, Event.isSave, Event.isRestore, List.length_cons] at this ⊢
        simp only [if_true, Bool.false_eq_true, if_false]
        omega
  | tile hcell _ _ ih =>
      rw [hcell.outside_tile] at hq
      exact ih hq

/-- The states left are those that were there or have been saved, less those restored. What happens
in a tile does not enter into it, as a cell leaves its own stack empty. -/
theorem saves_add (h : Mirrors s es s') : saves es + s.length = restores es + s'.length := by
  induction h with
  | done => rfl
  | plain he _ ih =>
      obtain ⟨-, hsave, hrestore, -, -⟩ := Event.isPlain_iff.mp he
      simpa [saves, restores, outside_zero_cons he, List.countP_cons, hsave, hrestore] using ih
  | save _ ih | restore _ ih =>
      simp only [saves, restores, outside, List.countP_cons, Event.isSave, Event.isRestore,
        List.length_cons] at ih ⊢
      simp only [if_true, Bool.false_eq_true, if_false]
      omega
  | tile hcell _ _ ih => simpa [saves, restores, hcell.outside_tile] using ih

/-- Events that are followed from an empty stack back to one are balanced. -/
theorem balanced (h : Mirrors [] es []) : Balanced es where
  restores_le _ hpre := h.countP_restore_le (outside_mono hpre 0)
  saves_eq := h.saves_add

/-- A tile that is begun is ended, and what lies between is a cell that can be followed. The tile
may be one of those in the cell of another. -/
theorem exists_endTile {pre post : List Event} {bbox : Rect Float} {matrix : Matrix Float}
    (h : Mirrors s (pre ++ .beginTile bbox matrix :: post) s') :
    ∃ cell rest, post = cell ++ .endTile :: rest ∧ Mirrors [] cell [] := by
  generalize hes : pre ++ .beginTile bbox matrix :: post = es at h
  induction h generalizing pre post with
  | done => simp at hes
  | plain he _ ih =>
      rcases List.append_eq_cons_iff.mp hes with ⟨rfl, heq⟩ | ⟨pre', rfl, heq⟩
      · obtain ⟨rfl, -⟩ := List.cons.inj heq
        cases he
      · exact ih heq.symm
  | save _ ih | restore _ ih =>
      rcases List.append_eq_cons_iff.mp hes with ⟨rfl, heq⟩ | ⟨pre', rfl, heq⟩
      · simp at heq
      · exact ih heq.symm
  | @tile s s' cell es bbox' matrix' hcell _ ihcell ih =>
      rcases List.append_eq_cons_iff.mp hes with ⟨rfl, heq⟩ | ⟨pre', rfl, heq⟩
      · exact ⟨cell, es, (List.cons.inj heq).2, hcell⟩
      · rcases List.append_eq_append_iff.mp heq with ⟨q, rfl, hq⟩ | ⟨q, rfl, hq⟩
        · rcases List.cons_eq_append_iff.mp hq with ⟨-, hnil⟩ | ⟨q', rfl, hes'⟩
          · simp at hnil
          · exact ih hes'.symm
        · rcases List.cons_eq_append_iff.mp hq with ⟨-, hnil⟩ | ⟨q', rfl, rfl⟩
          · simp at hnil
          · obtain ⟨inner, rest, rfl, hinner⟩ := ihcell rfl
            exact ⟨inner, rest ++ .endTile :: es, by simp, hinner⟩

end Mirrors

/-! ### Runs -/

/-- A run is followed from the states saved before to those saved after. This is the one thing here
that is said of the interpreter; all the rest is about lists of events. -/
theorem Runs.mirrors {σ : Type} {ctx : Context σ} {floor : Nat} {m m' : Machine σ} {t : Trace}
    (h : Runs ctx floor m t m') : Mirrors m.stack.saved (Trace.events t) m'.stack.saved := by
  induction h with
  | stay => exact .done
  | trans _ _ ih₁ ih₂ => rw [Trace.events_append]; exact ih₁.append ih₂
  | change f => exact .done
  | plain he => exact .plain he .done
  | save => exact .save .done
  | restore hfloor hstack => rw [GStack.saved_of_restore? hstack]; exact .restore .done
  | within scope _ ih => exact ih
  | deeper _ ih => exact ih
  | form hid _ ih => exact ih
  | reuse hit => exact .done
  | cell miss hend _ ih =>
      simp only [Trace.events_cons_note, Trace.events_cons_event, Trace.events_append,
        Trace.events_nil]
      exact .tile (hend ▸ ih) .done

/-- **A page is bracketed.** Its first event and its last are its own, whatever its content does
and whether or not it ends in a fault, and a device can follow the events in between, from an empty
stack to the states that are left saved. In particular every tile is ended and is balanced within;
outside of tiles at no time more states have been restored than saved, and those that are left
above the initial state are the ones that were saved and not restored. -/
theorem renderPage_bracketed {σ : Type} (ctx : Context σ) (page : Page σ) (m : Machine σ) :
    let o := (Action.renderPage ctx page).run m
    let placement := Placement.of page.bounds page.rotate
    ∃ content, o.events = .beginPage placement.width placement.height :: (content ++ [.endPage]) ∧
      (∀ e ∈ content, e.isPage = false) ∧
      Mirrors [] content o.machine.stack.saved ∧
      (∀ pre bbox matrix post, content = pre ++ .beginTile bbox matrix :: post →
        ∃ cell rest, post = cell ++ .endTile :: rest ∧ Mirrors [] cell [] ∧ Balanced cell) ∧
      (∀ pre, pre <+: content → restores pre ≤ saves pre) ∧
      saves content = restores content + (o.machine.stack.depth - 1) := by
  intro o placement
  have ho : o = _ := Action.run_renderPage ctx page m
  have hkeeps : Action.Keeps ctx 1 Action.anything (Action.execute ctx page.content) :=
    Action.keeps_execute 1 page.content
  have hm := (hkeeps.runs (m := m.turnTo page) (GStack.one_le_depth _)).mirrors
  refine ⟨_, by rw [ho]; simp [Outcome.events, placement], fun e he => hm.isPage_of_mem he,
    by rw [ho]; exact hm, ?_, fun pre hpre => hm.countP_restore_le (outside_mono hpre 0),
    by rw [ho]; exact hm.saves_add⟩
  intro pre bbox matrix post hcontent
  obtain ⟨cell, rest, hpost, hcell⟩ := (hcontent ▸ hm).exists_endTile
  exact ⟨cell, rest, hpost, hcell, hcell.balanced⟩

end ContentStream
