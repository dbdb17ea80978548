import ContentStream.Config
import ContentStream.Event
import ContentStream.GState.Stack
import ContentStream.Resources

/-!
# Actions

An interpretation changes a *machine* and emits events, and it may end in a fault. A fault does
not undo anything: the machine stays as it was left, and events that were emitted stay emitted.
Actions are computations of this kind.

What happens in a run is kept as a *trace*. Next to the events, which a device receives, it has
notes, which nobody receives: they say of a tile that is rendered or handed out under which key
this is done, for the events do not tell.

## Main definitions

* `Machine`: what an interpreter remembers from one operator to the next.
* `Trace`: what happens in a run, with its `Trace.events`.
* `Action`: a computation on a machine that leaves a trace, with its `Monad` structure.
* `Action.attempt`: turns a fault into a result.

## Main results

* `Action.run_bind`: a sequence of actions leaves the traces of both in order, unless the first
  ends in a fault.
-/

namespace ContentStream

/-! ### Machines -/

/-- What makes **two references share a tile**: the pattern, and the tint as far as tints count. -/
structure TileKey where
  pattern : Nat
  tint : Tint
deriving DecidableEq

/-- A **machine**: what an interpreter remembers. -/
structure Machine (σ : Type) where
  stack : GStack := {}
  /-- The scopes in force, innermost first. -/
  scopes : List σ
  /-- The page, in device space. -/
  pageBounds : Rect Float := ⟨0.0, 0.0, 0.0, 0.0⟩
  /-- The tiles rendered for the page, latest first. -/
  tiles : List (TileKey × Tile) := []
  /-- The forms in execution, innermost first. -/
  forms : List Nat := []
  /-- How deeply the program in execution is nested below the page. -/
  depth : Nat := 0
  /-- How many tiles were ever finished. -/
  finished : Nat := 0

/-- The **context** of an interpretation, which does not change. -/
structure Context (σ : Type) where
  library : Library σ
  config : Config := {}
  /-- The surface that the device hands out for the tile it finishes as the `n`-th, from one. -/
  surface : Nat → Option Nat

/-! ### Traces -/

/-- A **note**: what is done about a tile, and under which key. -/
inductive Note where
  /-- The cell of a tile is about to be rendered. -/
  | begun (key : TileKey)
  /-- A reference to a tile is answered. -/
  | obtained (key : TileKey) (tile : Tile)

/-- A **mark** in a trace. -/
inductive Mark where
  | event (e : Event)
  | note (n : Note)

/-- The event, if the mark is one. -/
def Mark.event? : Mark → Option Event
  | event e => some e
  | note _ => none

/-- A **trace**: what happens in a run, in order. -/
abbrev Trace := List Mark

namespace Trace

/-- The events of a trace. -/
def events (t : Trace) : List Event :=
  t.filterMap Mark.event?

/-- Nothing is received in an empty trace. -/
@[simp]
theorem events_nil : events [] = [] :=
  rfl

/-- An event is received before those that follow it. -/
@[simp]
theorem events_cons_event (e : Event) (t : Trace) : events (.event e :: t) = e :: events t :=
  rfl

/-- Notes are received by nobody. -/
@[simp]
theorem events_cons_note (n : Note) (t : Trace) : events (.note n :: t) = events t :=
  rfl

/-- What is received in two traces, one after the other. -/
@[simp]
theorem events_append (t₁ t₂ : Trace) : events (t₁ ++ t₂) = events t₁ ++ events t₂ :=
  List.filterMap_append

end Trace

/-! ### Actions -/

/-- The **outcome of an action**. -/
structure Outcome (σ α : Type) where
  result : Except Fault α
  machine : Machine σ
  trace : Trace

namespace Outcome

variable {σ α : Type}

/-- The events of an outcome. -/
def events (o : Outcome σ α) : List Event :=
  o.trace.events

/-- An outcome with a trace before its own. -/
def after (t : Trace) (o : Outcome σ α) : Outcome σ α :=
  { o with trace := t ++ o.trace }

/-- Nothing before an outcome leaves it as it is. -/
@[simp]
theorem after_nil (o : Outcome σ α) : o.after [] = o :=
  rfl

/-- Traces before an outcome are put together. -/
@[simp]
theorem after_after (t₁ t₂ : Trace) (o : Outcome σ α) :
    (o.after t₂).after t₁ = o.after (t₁ ++ t₂) := by
  simp [after]

/-- What was seen before does not change the result. -/
@[simp]
theorem result_after (t : Trace) (o : Outcome σ α) : (o.after t).result = o.result :=
  rfl

/-- Neither does it change the machine. -/
@[simp]
theorem machine_after (t : Trace) (o : Outcome σ α) : (o.after t).machine = o.machine :=
  rfl

/-- What was seen before comes first in the trace. -/
@[simp]
theorem trace_after (t : Trace) (o : Outcome σ α) : (o.after t).trace = t ++ o.trace :=
  rfl

end Outcome

/-- An **action** on a machine. -/
def Action (σ α : Type) : Type :=
  Machine σ → Outcome σ α

namespace Action

variable {σ α β : Type}

/-- Runs an action. -/
def run (x : Action σ α) (m : Machine σ) : Outcome σ α :=
  x m

/-- Gives a result and does nothing else. -/
protected def pure (a : α) : Action σ α :=
  fun m => ⟨.ok a, m, []⟩

/-- Does one action and, unless it ends in a fault, then another that depends on its result. -/
protected def bind (x : Action σ α) (f : α → Action σ β) : Action σ β := fun m =>
  match x m with
  | ⟨.ok a, m', t⟩ => (f a m').after t
  | ⟨.error fault, m', t⟩ => ⟨.error fault, m', t⟩

instance : Monad (Action σ) where
  pure := Action.pure
  bind := Action.bind

/-- Ends in a fault. -/
def fail (fault : Fault) : Action σ α :=
  fun m => ⟨.error fault, m, []⟩

/-- Gives a result that may be a fault. -/
def ofExcept (x : Except Fault α) : Action σ α :=
  fun m => ⟨x, m, []⟩

/-- Emits an event. -/
def emit (e : Event) : Action σ Unit :=
  fun m => ⟨.ok (), m, [.event e]⟩

/-- Emits a list of events. -/
def emitAll (es : List Event) : Action σ Unit :=
  fun m => ⟨.ok (), m, es.map .event⟩

/-- Takes a note. -/
def note (n : Note) : Action σ Unit :=
  fun m => ⟨.ok (), m, [.note n]⟩

/-- Gives the machine. -/
def machine : Action σ (Machine σ) :=
  fun m => ⟨.ok m, m, []⟩

/-- Changes the machine. -/
def modify (f : Machine σ → Machine σ) : Action σ Unit :=
  fun m => ⟨.ok (), f m, []⟩

/-- Gives the current graphics state. -/
def state : Action σ GState :=
  fun m => ⟨.ok m.stack.current, m, []⟩

/-- Changes the graphics state. -/
def modifyState (f : GState → GState) : Action σ Unit :=
  modify fun m => { m with stack := m.stack.modify f }

/-- Does an action and gives its result, fault or not. -/
def attempt (x : Action σ α) : Action σ (Except Fault α) := fun m =>
  let o := x m
  ⟨.ok o.result, o.machine, o.trace⟩

/-! ### Running -/

section Running

variable (m : Machine σ)

/-- A result is given without anything being done. -/
@[simp]
theorem run_pure (a : α) : (pure a : Action σ α).run m = ⟨.ok a, m, []⟩ :=
  rfl

/-- After an action that gives a result the next one follows, after a fault nothing. -/
theorem run_bind (x : Action σ α) (f : α → Action σ β) :
    (x >>= f).run m =
      match x.run m with
      | ⟨.ok a, m', t⟩ => ((f a).run m').after t
      | ⟨.error fault, m', t⟩ => ⟨.error fault, m', t⟩ :=
  rfl

/-- Giving a result of its own instead of the action's does nothing to the machine. -/
theorem machine_run_bind_pure (x : Action σ α) (b : β) :
    ((x >>= fun _ => pure b : Action σ β).run m).machine = (x.run m).machine := by
  rw [run_bind]
  rcases x.run m with ⟨_ | _, _, _⟩ <;> rfl

/-- A fault leaves the machine as it stands. -/
@[simp]
theorem run_fail (fault : Fault) : (fail fault : Action σ α).run m = ⟨.error fault, m, []⟩ :=
  rfl

/-- What has been found, or has not, is the result. -/
@[simp]
theorem run_ofExcept (x : Except Fault α) : (ofExcept x : Action σ α).run m = ⟨x, m, []⟩ :=
  rfl

/-- An event is all that comes of emitting it. -/
@[simp]
theorem run_emit (e : Event) : (emit e).run m = ⟨.ok (), m, [.event e]⟩ :=
  rfl

/-- So it is with several events, which are seen in order. -/
@[simp]
theorem run_emitAll (es : List Event) : (emitAll es).run m = ⟨.ok (), m, es.map .event⟩ :=
  rfl

/-- A note is seen in the trace only. -/
@[simp]
theorem run_note (n : Note) : (note n).run m = ⟨.ok (), m, [.note n]⟩ :=
  rfl

/-- The machine is given as it stands. -/
@[simp]
theorem run_machine : machine.run m = ⟨.ok m, m, []⟩ :=
  rfl

/-- The machine is changed, and nothing is seen of it. -/
@[simp]
theorem run_modify (f : Machine σ → Machine σ) : (modify f).run m = ⟨.ok (), f m, []⟩ :=
  rfl

/-- The state that is given is the current one. -/
@[simp]
theorem run_state : state.run m = ⟨.ok m.stack.current, m, []⟩ :=
  rfl

/-- Only the current state is changed. -/
@[simp]
theorem run_modifyState (f : GState → GState) :
    (modifyState f).run m = ⟨.ok (), { m with stack := m.stack.modify f }, []⟩ :=
  rfl

/-- The outcome is the same but for a fault, which is given as a result. -/
@[simp]
theorem run_attempt (x : Action σ α) :
    x.attempt.run m = ⟨.ok (x.run m).result, (x.run m).machine, (x.run m).trace⟩ :=
  rfl

end Running

end Action

end ContentStream
