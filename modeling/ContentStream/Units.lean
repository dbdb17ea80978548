/-!
# Reading a sequence unit by unit

A character of several bytes, an escape in a string, a token of a stream: many sequences are read
in units of one element or more. A unit is recognized by its first element, with the elements
after it in view, and reports how many of those belong to it. The reader below passes over these
and goes on with the next unit. It recurses on the sequence itself, so it needs no proof that a
unit makes progress.

## Main results

* `unitsFrom_eq_drop`: passing over elements is dropping them.
-/

namespace ContentStream

/-- Reads a sequence unit by unit. `read a as` gives the results of the unit that begins with `a`,
and the number of elements of `as` that belong to it. The first `passed` elements belong to a unit
that was read before. -/
def unitsFrom {α β : Type} (read : α → List α → List β × Nat) : (passed : Nat) → List α → List β
  | _, [] => []
  | passed + 1, _ :: as => unitsFrom read passed as
  | 0, a :: as => (read a as).1 ++ unitsFrom read (read a as).2 as

/-- Reads a sequence unit by unit from its beginning. -/
def units {α β : Type} (read : α → List α → List β × Nat) (as : List α) : List β :=
  unitsFrom read 0 as

/-- Passing over elements is dropping them. -/
theorem unitsFrom_eq_drop {α β : Type} (read : α → List α → List β × Nat) (passed : Nat)
    (as : List α) : unitsFrom read passed as = units read (as.drop passed) := by
  induction as generalizing passed with
  | nil => cases passed <;> simp [units, unitsFrom]
  | cons a as ih =>
    cases passed with
    | zero => rfl
    | succ passed => simpa [unitsFrom] using ih passed

end ContentStream
