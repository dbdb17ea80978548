import ContentStream.Proofs.Emissions
import ContentStream.Proofs.Nesting

/-!
# Where events come from

Around a program that is called its caller shows that the program is entered and left: a state is
saved, the clip is narrowed to a box, states are restored, a tile begins and ends. All other events
of an execution come of instructions that call no program, and each is shown at the moment at which
such an instruction is carried out, in the program itself or in one that it calls.

So what is said of the instructions at all moments of an execution is said of its events.

## Main definitions

* `EventKind.isPassage`: the kinds of events that tell of entering and leaving programs.

## Main results

* `Stride.mem_of_begins`: other events of a stride that calls a program are the program's.
* `exists_arises_of_mem_events`: they all come of instructions at moments of the execution.
-/

namespace ContentStream

variable {σ : Type}

/-- Whether events of a kind tell of a program that is **entered or left**. They can have other
reasons. -/
def EventKind.isPassage : EventKind → Bool
  | save | restore | clip | tile => true
  | _ => false

namespace Trace

/-- What is seen before a program tells of its being entered: the state is saved, and if the program
has bounds, they are clipped to. -/
theorem isPassage_of_mem_entering {gs : GState} {transform : Matrix Float}
    {clip : Option (Rect Float)} {e : Event} (he : e ∈ (gs.entering transform clip).events) :
    e.kind.isPassage = true := by
  cases clip with
  | none =>
      obtain rfl := List.mem_singleton.mp he
      rfl
  | some box =>
      rcases List.mem_cons.mp he with rfl | he
      · rfl
      · obtain rfl := List.mem_singleton.mp he
        rfl

/-- What is seen after it tells of its being left. -/
theorem isPassage_of_mem_leaving {s : GStack} {depth : Nat} {e : Event}
    (he : e ∈ (s.leaving depth).events) : e.kind.isPassage = true := by
  rw [List.mem_singleton.mp (kind_of_mem_leaving he)]
  rfl

section Passages

variable {t : Trace} {s : GStack} {depth : Nat} {e : Event}

/-- What is seen between the passages into a program and out of it is the program's own. -/
theorem mem_events_of_entering {gs : GState} {transform : Matrix Float} {clip : Option (Rect Float)}
    (he : e ∈ events (gs.entering transform clip ++ (t ++ s.leaving depth)))
    (hkind : e.kind.isPassage = false) : e ∈ t.events := by
  simp only [events_append, List.mem_append] at he
  rcases he with he | he | he
  · simp [isPassage_of_mem_entering he] at hkind
  · exact he
  · simp [isPassage_of_mem_leaving he] at hkind

/-- What is seen between the beginning and the end of a tile is the cell's own, as the states that
are restored behind it are passage, too. -/
theorem mem_events_of_beginTile {key key' : TileKey} {tile : Tile} {bbox : Rect Float}
    {matrix : Matrix Float}
    (he : e ∈ events (.note (.begun key) :: .event (.beginTile bbox matrix) ::
      (t ++ (s.leaving depth ++ [.event .endTile, .note (.obtained key' tile)]))))
    (hkind : e.kind.isPassage = false) : e ∈ t.events := by
  simp only [events_cons_note, events_cons_event, events_append, events_nil, List.mem_cons,
    List.mem_append, List.not_mem_nil, or_false] at he
  rcases he with rfl | he | he | rfl
  · cases hkind
  · exact he
  · simp [isPassage_of_mem_leaving he] at hkind
  · cases hkind

end Passages

/-- What is seen in several traces, one after the other, is seen in one of them. -/
theorem mem_events_flatMap {α : Type} {f : α → Trace} {xs : List α} {e : Event} :
    e ∈ events (xs.flatMap f) ↔ ∃ x ∈ xs, e ∈ (f x).events := by
  simp only [events, List.mem_filterMap, List.mem_flatMap]
  constructor
  · rintro ⟨mark, ⟨x, hx, hmark⟩, he⟩
    exact ⟨x, hx, mark, hmark, he⟩
  · rintro ⟨x, hx, mark, hmark, he⟩
    exact ⟨mark, ⟨x, hx, hmark⟩, he⟩

end Trace

section

variable {ctx : Context σ} {m : Machine σ} {content : Bytes} {e : Event}

/-- An event of a program that is called is one of its execution, which the limit allows. -/
theorem mem_events_of_call (he : e ∈ ((Action.call ctx content).run m).events) :
    m.depth < ctx.config.maxDepth ∧ e ∈ ((Action.execute ctx content).run m.deeper).events := by
  rw [Action.run_call] at he
  split at he
  · next hdepth =>
      rw [Action.run_deeper] at he
      exact ⟨hdepth, he⟩
  · exact absurd he List.not_mem_nil

/-- What is seen of a sub-program is what its content shows, and its passage. -/
theorem mem_events_of_subProgram {transform : Matrix Float} {clip : Option (Rect Float)}
    {scope : Option σ}
    (he : e ∈ ((Action.subProgram (Action.call ctx) content transform clip scope).run m).events)
    (hkind : e.kind.isPassage = false) :
    e ∈ ((Action.call ctx content).run (m.enter transform clip scope)).events := by
  rw [Action.run_subProgram_eq Action.keeps_call] at he
  exact Trace.mem_events_of_entering he hkind

/-- What is seen of a tile is what its cell shows, if it is rendered, and its passage. -/
theorem mem_events_of_tile {tiling : Tiling σ} {tint : Option Tint}
    (he : e ∈ ((Action.tile ctx (Action.call ctx) tiling tint).run m).events)
    (hkind : e.kind.isPassage = false) :
    e ∈ ((Action.call ctx tiling.content).run (m.enterCell tiling tint)).events := by
  rcases hkey : m.tiles.lookup (ctx.config.tileSharing.key tiling tint) with _ | tile
  · rw [Action.run_tile_eq Action.keeps_call hkey] at he
    exact Trace.mem_events_of_beginTile he hkind
  · rw [Action.run_tile_of_some m hkey] at he
    exact absurd he List.not_mem_nil

/-- What is seen of a stride that **calls a program** is what the program shows, and its passage.
Both kinds of enclosure keep to this, forms and cells. -/
theorem Stride.mem_of_begins {s : Stride σ} {enclosure : Enclosure σ}
    (h : enclosure.Begins ctx s.machine s.instruction) (he : e ∈ (s.outcome ctx).events)
    (hkind : e.kind.isPassage = false) :
    e ∈ ((Action.call ctx enclosure.content).run (enclosure.enter s.machine)).events := by
  cases enclosure with
  | form form =>
      rw [outcome_of_beginsForm h] at he
      exact Trace.mem_events_of_entering he hkind
  | cell tiling tint =>
      obtain ⟨side, ink, tiles, finished, ho⟩ := outcome_of_beginsCell h
      rw [ho] at he
      exact Trace.mem_events_of_beginTile he hkind

/-- Every event comes of an instruction that calls no program, at a moment of the execution, unless
it tells of a program that is entered or left. The induction is on the levels that are left. -/
theorem exists_arises_of_mem_events (he : e ∈ ((Action.execute ctx content).run m).events)
    (hkind : e.kind.isPassage = false) :
    ∃ (s : Stride σ) (is : List Instruction),
      Arises ctx m content ⟨s.machine, s.frame, s.instruction :: is⟩ ∧
      (∀ k content', ¬ Calls ctx s.machine s.instruction k content') ∧
      e ∈ (s.outcome ctx).events := by
  -- By the number of levels that are left.
  induction hlevels : ctx.config.maxDepth - m.depth using Nat.strongRecOn
    generalizing m content with
  | ind levels ih =>
      rw [Outcome.events, trace_execute, Trace.mem_events_flatMap] at he
      obtain ⟨s, hs, he⟩ := he
      obtain ⟨is, hpasses⟩ := mem_strides_iff.mp hs
      by_cases hcalled : ∃ k content', Calls ctx s.machine s.instruction k content'
      · obtain ⟨k, content', hcalls⟩ := hcalled
        obtain ⟨enclosure, hbegins, rfl, rfl⟩ := Enclosure.exists_begins hcalls
        obtain ⟨hdepth, he⟩ := mem_events_of_call (Stride.mem_of_begins hbegins he hkind)
        have hsame : s.machine.depth = m.depth := hpasses.depth_eq
        have hdeeper : (enclosure.enter s.machine).deeper.depth = m.depth + 1 := by
          rw [Machine.deeper, hcalls.depth_eq, hsame]
        rw [hcalls.depth_eq] at hdepth
        obtain ⟨s', is', harises, hrest⟩ := ih _ (by omega) he rfl
        exact ⟨s', is', .nested hpasses hcalls hdepth harises, hrest⟩
      · exact ⟨s, is, .own hpasses, fun k content' h => hcalled ⟨k, content', h⟩, he⟩

end

end ContentStream
