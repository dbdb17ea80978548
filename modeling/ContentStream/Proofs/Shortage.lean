import ContentStream.Proofs.Arity
import Mathlib.Control.Monad.Basic

/-!
# Shortage of operands

An operator that finds fewer operands than it takes is refused before anything is done. What is said
of the shortage depends on when it is noticed. Most operators count the operands before they take
one, and then the fault has all that the operator takes and all that were found, of whatever kinds
these are. Three operators take a first operand by itself, and count those for the others only when
it is gone. They speak of their operands in parts: of the first if there is none, of its kind if it
is of another, and else of the rest.

## Main definitions

* `Take.Counts`: operands are counted before one is taken.
* `Take.Demands`: a single operand of some kind is taken.
* `Keyword.first?`: the kind of the operand that a keyword takes by itself.
* `Keyword.shortage`: what a keyword says of a shortage.

## Main results

* `Command.counts_ofKeyword`: the keywords that count first.
* `Command.decode_of_lt_arity`: the fault of a shortage, for every keyword.
* `shortage_reported_iff`: which operators report a shortage as a whole.
-/

namespace ContentStream

variable {α β σ : Type}

/-! ### Counting first -/

/-- Taking operands **counts** them first: if there are fewer than `n`, nothing else is said. -/
def Take.Counts (op : String) (n : Nat) (x : Take α) : Prop :=
  ∀ operands : List Operand, operands.length < n →
    x.run operands = .error (.missingOperands op n operands.length)

namespace Take

variable {op : String} {n : Nat}

/-- It does not matter what follows. -/
theorem Counts.bind {x : Take α} (hx : Counts op n x) (f : α → Take β) : Counts op n (x >>= f) := by
  intro operands hlen
  rw [StateT.run_bind, hx operands hlen]
  rfl

/-- What is left over does not matter to the fault. -/
theorem Counts.run' {x : Take α} (hx : Counts op n x) {operands : List Operand}
    (hlen : operands.length < n) :
    x.run' operands = .error (.missingOperands op n operands.length) := by
  rw [run'_eq, hx operands hlen]
  rfl

variable (op)

/-- To require operands is to count them. All the others rest on this. -/
theorem counts_require (n : Nat) : Counts op n (require op n) := by
  intro operands hlen
  rw [run_require, if_pos hlen]

/-- A single operand is missing if there is none. -/
theorem counts_operand : Counts op 1 (operand op) := by
  intro operands hlen
  obtain rfl := List.length_eq_zero_iff.mp (Nat.lt_one_iff.mp hlen)
  rfl

/-- A number is, whatever kind of operand was to be found. So are names, strings, arrays and
codes. -/
theorem counts_number : Counts op 1 (number op) :=
  ((counts_operand op).bind _).bind _

theorem counts_name : Counts op 1 (name op) :=
  (counts_operand op).bind _

theorem counts_string : Counts op 1 (string op) :=
  (counts_operand op).bind _

theorem counts_array : Counts op 1 (array op) :=
  (counts_operand op).bind _

theorem counts_code : Counts op 1 (code op) :=
  (counts_number op).bind _

theorem counts_two : Counts op 2 (two op) :=
  (counts_require op 2).bind _

theorem counts_point : Counts op 2 (point op) :=
  (counts_two op).bind _

theorem counts_three : Counts op 3 (three op) :=
  (counts_require op 3).bind _

theorem counts_four : Counts op 4 (four op) :=
  (counts_require op 4).bind _

theorem counts_threePoints : Counts op 6 (threePoints op) :=
  (counts_require op 6).bind _

/-- Six numbers are required together. So are the points of a curve, and fewer numbers in the same
way. -/
theorem counts_matrix : Counts op 6 (matrix op) :=
  (counts_require op 6).bind _

end Take

/-! ### Taking one operand by itself -/

/-- The **kind** of an operand, if an operator has a use for it. -/
def Operand.kind? : Operand → Option OperandKind
  | .number _ => some .number
  | .name _ => some .name
  | .string _ => some .string
  | .array _ => some .array
  | .other => none

/-- Taking operands **demands** one of some kind, and takes no other. -/
structure Take.Demands (op : String) (kind : OperandKind) (x : Take α) : Prop where
  run_nil : x.run [] = .error (.missingOperands op 1 0)
  run_of_kind? {top : Operand} (h : top.kind? = some kind) (rest : List Operand) :
    ∃ a, x.run (top :: rest) = .ok (a, rest)
  run_of_ne {top : Operand} (h : top.kind? ≠ some kind) (rest : List Operand) :
    x.run (top :: rest) = .error (.operandType op kind)

/-- The fault of a shortage that is noticed **in parts**: one operand of some kind is taken by
itself, and `n` are counted after it. -/
def Fault.inParts (op : String) (kind : OperandKind) (n : Nat) : List Operand → Fault
  | [] => .missingOperands op 1 0
  | top :: rest =>
    if top.kind? = some kind then .missingOperands op n rest.length else .operandType op kind

namespace Take

/-- An operator that takes a number takes nothing else: without operands it misses one, and any
other operand on top is of the wrong type. -/
theorem demands_number (op : String) : Demands op .number (number op) where
  run_nil := rfl
  run_of_kind? {top} h rest := by
    cases top with
    | number numeral => exact ⟨_, rfl⟩
    | _ => cases h
  run_of_ne {top} h rest := by
    cases top with
    | number numeral => exact absurd rfl h
    | _ => rfl

/-- An operator that takes a string takes nothing else, for the same reason: it looks at one
operand, and at nothing else than its kind. -/
theorem demands_string (op : String) : Demands op .string (string op) where
  run_nil := rfl
  run_of_kind? {top} h rest := by
    cases top with
    | string bytes => exact ⟨_, rfl⟩
    | _ => cases h
  run_of_ne {top} h rest := by
    cases top with
    | string bytes => exact absurd rfl h
    | _ => rfl

/-- If what follows counts its operands, a shortage is noticed in parts. The first operand is taken
by itself, and what is missing then is counted without it. -/
theorem Demands.run'_bind {op : String} {kind : OperandKind} {x : Take α} (hx : Demands op kind x)
    {n : Nat} {f : α → Take β} (hf : ∀ a, Counts op n (f a)) {operands : List Operand}
    (hlen : operands.length < n + 1) :
    (x >>= f).run' operands = .error (.inParts op kind n operands) := by
  rw [run'_eq, StateT.run_bind]
  cases operands with
  | nil =>
      rw [hx.run_nil]
      rfl
  | cons top rest =>
      by_cases hkind : top.kind? = some kind
      · obtain ⟨a, ha⟩ := hx.run_of_kind? hkind rest
        have hrest : (f a).run rest = .error (.missingOperands op n rest.length) :=
          hf a rest (Nat.lt_of_succ_lt_succ hlen)
        simp only [ha, Fault.inParts, if_pos hkind]
        exact congrArg (Except.map Prod.fst) hrest
      · rw [hx.run_of_ne hkind, Fault.inParts, if_neg hkind]
        rfl

end Take

/-! ### Operators -/

/-- The kind of the operand that a keyword takes **by itself**, before it counts the others. -/
def Keyword.first? : Keyword → Option OperandKind
  | .dash | .font => some .number
  | .nextLineShowSpaced => some .string
  | _ => none

/-- What a keyword says of a **shortage** of operands. -/
def Keyword.shortage (k : Keyword) (operands : List Operand) : Fault :=
  match k.first? with
  | none => .missingOperands k.spelling k.arity operands.length
  | some kind => .inParts k.spelling kind (k.arity - 1) operands

/-- All keywords but three count their operands before they take any. -/
theorem Keyword.first?_eq_none_iff {k : Keyword} :
    k.first? = none ↔ k ≠ .dash ∧ k ≠ .font ∧ k ≠ .nextLineShowSpaced := by
  cases k <;> decide

/-- A keyword that takes an operand by itself takes others too. -/
theorem Keyword.one_lt_arity {k : Keyword} {kind : OperandKind} (h : k.first? = some kind) :
    1 < k.arity := by
  cases k with
  | dash | font | nextLineShowSpaced => decide
  | _ => cases h

/-- A shortage is reported as a whole by the keywords that count their operands first, and by no
other: of the parts that others speak of, none is the whole. -/
theorem Keyword.shortage_eq_iff {k : Keyword} {operands : List Operand} :
    k.shortage operands = .missingOperands k.spelling k.arity operands.length ↔
      k.first? = none := by
  unfold shortage
  cases hfirst : k.first? with
  | none => exact iff_of_true rfl rfl
  | some kind =>
      have harity := one_lt_arity hfirst
      refine iff_of_false (fun h => ?_) nofun
      cases operands with
      | nil =>
          have hexpected : 1 = k.arity := (Fault.missingOperands.inj h).2.1
          omega
      | cons top rest =>
          simp only [Fault.inParts] at h
          split at h
          · have hexpected : k.arity - 1 = k.arity := (Fault.missingOperands.inj h).2.1
            omega
          · cases h

namespace Command

/-- A keyword counts its operands, unless it takes one of them by itself. The three that do are `d`,
`Tf` and the double quote; all others take everything at once. -/
theorem counts_ofKeyword {k : Keyword} (h : k.first? = none) :
    Take.Counts k.spelling k.arity (ofKeyword k) := by
  cases k with
  | dash | font | nextLineShowSpaced => cases h
  | concat | textMatrix => exact (Take.counts_matrix _).bind _
  | lineCap | lineJoin | renderMode => exact (Take.counts_code _).bind _
  | lineWidth | miterLimit | flatness | charSpacing | wordSpacing | horizontalScale | leading
  | rise | strokeGray | fillGray => exact (Take.counts_number _).bind _
  | intent | extGState | strokeSpace | fillSpace | invoke | shade =>
      exact (Take.counts_name _).bind _
  | moveTo | lineTo => exact (Take.counts_point _).bind _
  | curveTo => exact (Take.counts_threePoints _).bind _
  | curveFromCurrent | curveToEnd | rectangle | strokeCmyk | fillCmyk =>
      exact (Take.counts_four _).bind _
  | moveLine | moveLineLeading => exact (Take.counts_two _).bind _
  | strokeRgb | fillRgb => exact (Take.counts_three _).bind _
  | showText | nextLineShow => exact (Take.counts_string _).bind _
  | showAdjusted => exact (Take.counts_array _).bind _
  | markPoint | beginMarked => exact (Take.counts_require _ 1).bind _
  | markPointProperties | beginMarkedProperties | glyphWidth =>
      exact (Take.counts_require _ 2).bind _
  | glyphWidthBox => exact (Take.counts_require _ 6).bind _
  | _ => exact fun _ hlen => absurd hlen (Nat.not_lt_zero _)

/-- The fault of a shortage, for every keyword. There are two cases: keywords that count, and those
that take an operand by itself. -/
theorem decode_of_lt_arity {k : Keyword} {operands : List Operand}
    (hlen : operands.length < k.arity) :
    decode (.known k) operands = .error (k.shortage operands) := by
  unfold Keyword.shortage
  cases hfirst : k.first? with
  | none => exact (counts_ofKeyword hfirst).run' hlen
  | some kind =>
      -- One operand by itself, and then a number, a name, or two numbers.
      cases k with
      | dash =>
          cases hfirst
          exact (Take.demands_number _).run'_bind (fun _ => (Take.counts_array _).bind _) hlen
      | font =>
          cases hfirst
          exact (Take.demands_number _).run'_bind (fun _ => (Take.counts_name _).bind _) hlen
      | nextLineShowSpaced =>
          cases hfirst
          exact (Take.demands_string _).run'_bind (fun _ => (Take.counts_two _).bind _) hlen
      | _ => cases hfirst

end Command

section

variable (ctx : Context σ) (call : Bytes → Action σ Unit) (frame : Frame) (m : Machine σ)

/-- An operator that finds **fewer operands than it takes** is refused, and nothing is done. The
fault has the number of all operands that it takes, and of all that were found, for every operator
but three: a dash pattern, a font, and a string that is shown on the next line with spacing. These
take their last operand by itself, and report a shortage in parts. -/
theorem shortage_reported_iff {k : Keyword} {operands : List Operand}
    (hlen : operands.length < k.arity) :
    (Action.step ctx call frame (.operate (.known k) operands)).run m =
      ⟨.error (k.shortage operands), m, []⟩ ∧
    (k.shortage operands = .missingOperands k.spelling k.arity operands.length ↔
      k ≠ .dash ∧ k ≠ .font ∧ k ≠ .nextLineShowSpaced) := by
  refine ⟨?_, Keyword.shortage_eq_iff.trans Keyword.first?_eq_none_iff⟩
  rw [Action.step, Command.decode_of_lt_arity hlen]
  rfl

end

namespace FontWithoutName

/-- A context **without resources**. -/
def ctx : Context Nat where
  library := Directory.library #[]
  surface := fun _ => none

def machine : Machine Nat where
  scopes := [0]

/-- The **size** of a font, by itself. -/
def size : List Operand :=
  [.number (.ofValue 12.0)]

end FontWithoutName

open FontWithoutName in
/-- A rectangle with two operands, of which one is a name, is refused for the lack of the others. -/
theorem shortage_reported_iff_of_rectangle :
    let operands : List Operand := [.name "W", .number (.ofValue 10.0)]
    operands.length < Keyword.rectangle.arity ∧
    (Action.step ctx (Action.call ctx) { base := 1 } (.operate (.known .rectangle) operands)).run
      machine = ⟨.error (.missingOperands "re" 4 2), machine, []⟩ := by
  intro operands
  have hlen : operands.length < Keyword.rectangle.arity := by decide
  obtain ⟨hrun, hwhole⟩ := shortage_reported_iff ctx (Action.call ctx) { base := 1 } machine hlen
  exact ⟨hlen, hrun.trans (by rw [hwhole.mpr (by decide)]; rfl)⟩

open FontWithoutName in
/-- A font of which only the **size** is given takes two operands and finds one, but says that it
takes one and finds none. -/
theorem font_without_name_misreported :
    size.length < Keyword.font.arity ∧ Keyword.font.arity = 2 ∧
    ((Action.step ctx (Action.call ctx) { base := 1 } (.operate (.known .font) size)).run
      machine).result ≠ .error (.missingOperands "Tf" 2 1) ∧
    ((Action.execute ctx (Utf8.encode "12 Tf")).run machine).result.mapError Fault.message =
      .error "operator Tf expects 1 operand(s), found 0" := by
  have hresult : ((Action.step ctx (Action.call ctx) { base := 1 }
      (.operate (.known .font) size)).run machine).result =
      .error (.missingOperands "Tf" 1 0) := rfl
  exact ⟨by decide, rfl, by simp [hresult], by decide +kernel⟩

end ContentStream
