import ContentStream.Proofs.Calls
import ContentStream.Proofs.Operands

/-!
# Arity

Operands are taken off the top of a stack, and an operator takes as many as it has a use for. If the
stack has that many, then what lies below them makes no difference: the operator comes to the same
result or the same fault. If it has fewer, the operator is refused. When the operator has been dealt
with, the stack is empty, whatever was on it.

How many operands are taken is fixed by the operator, except for the color operators. These take as
many as the current space has components; in a pattern space they take a name, and for a stencil as
many numbers as the space below has components. Where there is no space below, a stencil is tinted
with all the operands that are left, and this is the only case in which what lies below matters.

## Main definitions

* `Take.Reads`: taking operands reads the top ones and none below.
* `Keyword.arity`, `Operator.takes?`: how many operands an operator takes.
* `Rests`: what is made of some operands depends on the top ones.

## Main results

* `Command.reads_ofKeyword`: a command is decoded from its own operands.
* `Library.rests_select`: a color is selected by its own operands.
* `Library.takes?_eq_none`: when a color takes all operands.
* `step_own_operands`: operators read their own operands only.
-/

namespace ContentStream

variable {α β σ : Type}

/-! ### Reading the top of the stack -/

namespace Take

/-- Taking operands **reads** the top `need` of them and none below, and takes `used` of these. -/
structure Reads (need used : Nat) (x : Take α) : Prop where
  run_append {ys xs : List Operand} : need ≤ ys.length →
    x.run (ys ++ xs) = (x.run ys).map fun r => (r.1, r.2 ++ xs)
  le_length {ys rest : List Operand} {a : α} : x.run ys = .ok (a, rest) → need ≤ ys.length
  length_rest {ys rest : List Operand} {a : α} : x.run ys = .ok (a, rest) →
    used + rest.length = ys.length

namespace Reads

variable {need used : Nat}

/-- What takes nothing reads nothing. -/
theorem pure (a : α) : Reads 0 0 (pure a) where
  run_append _ := rfl
  le_length _ := Nat.zero_le _
  length_rest := by
    rintro ys rest b ⟨⟩
    exact Nat.zero_add _

/-- What fails at once may be said to read as much as is convenient. -/
theorem throw (fault : Fault) : Reads need used (throw fault : Take α) where
  run_append _ := rfl
  le_length := by rintro ys rest b ⟨⟩
  length_rest := by rintro ys rest b ⟨⟩

/-- Sequencing: what is done second reads what is left by the first. What both read is as deep as
the deeper of the two goes, where the second begins below what the first has used. -/
theorem bind {need' used' : Nat} {x : Take α} {f : α → Take β} (hx : Reads need used x)
    (hf : ∀ a, Reads need' used' (f a)) :
    Reads (max need (used + need')) (used + used') (x >>= f) where
  run_append {ys xs} hlen := by
    rw [StateT.run_bind, StateT.run_bind, hx.run_append (Nat.le_trans (Nat.le_max_left _ _) hlen)]
    rcases hrun : x.run ys with fault | ⟨a, rest⟩
    · rfl
    · have hrest := hx.length_rest hrun
      have hneed : need' ≤ rest.length := by omega
      exact (hf a).run_append hneed
  le_length {ys rest b} h := by
    obtain ⟨a, between, ha, hb⟩ := exists_of_run_bind h
    have hneed := hx.le_length ha
    have hrest := hx.length_rest ha
    have hneed' : need' ≤ between.length := (hf a).le_length hb
    omega
  length_rest {ys rest b} h := by
    obtain ⟨a, between, ha, hb⟩ := exists_of_run_bind h
    have hrest := hx.length_rest ha
    have hrest' : used' + rest.length = between.length := (hf a).length_rest hb
    omega

section

variable {x : Take α} (hx : Reads need used x) {ys : List Operand}

include hx

/-- What is taken from the top alone is taken with other operands below it, as long as the top has
all that is read. -/
theorem run' (hlen : need ≤ ys.length) (xs : List Operand) : x.run' (ys ++ xs) = x.run' ys := by
  rw [run'_eq, run'_eq, hx.run_append hlen]
  cases x.run ys <;> rfl

/-- Taking operands fails if there are fewer than it reads, whatever they are. -/
theorem exists_fault (hlen : ys.length < need) : ∃ fault, x.run' ys = .error fault := by
  rw [run'_eq]
  rcases h : x.run ys with fault | ⟨a, rest⟩
  · exact ⟨fault, rfl⟩
  · exact absurd (hx.le_length h) (Nat.not_le.mpr hlen)

end

end Reads

section

variable (op : String)

/-- To require operands is to count them, and not to take any. -/
theorem run_require (n : Nat) (operands : List Operand) :
    (require op n).run operands =
      if operands.length < n then .error (.missingOperands op n operands.length)
      else .ok ((), operands) := by
  have hrun : (require op n).run operands =
      (if operands.length < n then throw (.missingOperands op n operands.length) else pure () :
        Take Unit).run operands := rfl
  rw [hrun]
  split <;> rfl

/-- Required operands are read, but they are still there afterwards. So operators that count first
and take their operands then read no more than those that do not count. -/
theorem reads_require (n : Nat) : Reads n 0 (require op n) where
  run_append {ys xs} hlen := by
    rw [run_require, run_require, if_neg (Nat.not_lt.mpr hlen), if_neg]
    · rfl
    · rw [List.length_append]
      omega
  le_length {ys rest b} h := by
    rw [run_require] at h
    split at h
    · cases h
    · omega
  length_rest {ys rest b} h := by
    rw [run_require] at h
    split at h <;> cases h
    exact Nat.zero_add _

/-- A single operand is read and used, whatever its kind. All the kinds of operands that are made of
one are read in the same way. -/
theorem reads_operand : Reads 1 1 (operand op) where
  run_append {ys xs} hlen := by
    cases ys with
    | nil => cases hlen
    | cons top rest => rfl
  le_length {ys rest b} h := by
    cases ys with
    | nil => cases h
    | cons top rest => exact Nat.le_add_left 1 _
  length_rest {ys rest b} h := by
    cases ys with
    | nil => cases h
    | cons top rest =>
        cases h
        exact Nat.add_comm _ _

theorem reads_numeral : Reads 1 1 (numeral op) := by
  change Reads (max 1 (1 + 0)) (1 + 0) _
  refine (reads_operand op).bind fun operand => ?_
  cases operand with
  | number numeral => exact .pure numeral
  | _ => exact .throw _

theorem reads_number : Reads 1 1 (number op) :=
  (reads_numeral op).bind fun _ => .pure _

theorem reads_name : Reads 1 1 (name op) := by
  change Reads (max 1 (1 + 0)) (1 + 0) _
  refine (reads_operand op).bind fun operand => ?_
  cases operand with
  | name text => exact .pure text
  | _ => exact .throw _

theorem reads_string : Reads 1 1 (string op) := by
  change Reads (max 1 (1 + 0)) (1 + 0) _
  refine (reads_operand op).bind fun operand => ?_
  cases operand with
  | string bytes => exact .pure bytes
  | _ => exact .throw _

theorem reads_array : Reads 1 1 (array op) := by
  change Reads (max 1 (1 + 0)) (1 + 0) _
  refine (reads_operand op).bind fun operand => ?_
  cases operand with
  | array items => exact .pure items
  | _ => exact .throw _

theorem reads_code : Reads 1 1 (code op) :=
  (reads_number op).bind fun _ => .pure _

/-- As many operands are read and used as numerals are taken; the induction is on how many there are
to come. -/
theorem reads_numeralsOnto (n : Nat) (taken : List Numeral) :
    Reads n n (numeralsOnto op n taken) := by
  induction n generalizing taken with
  | zero => exact .pure taken
  | succ n ih =>
      have h := (reads_numeral op).bind fun x => ih (x :: taken)
      rwa [Nat.max_eq_right (Nat.le_add_right 1 n), Nat.add_comm] at h

/-- Numerals that are taken together are required together, and read once. -/
theorem reads_numerals (n : Nat) : Reads n n (numerals op n) := by
  have h := (reads_require op n).bind fun _ => reads_numeralsOnto op n []
  rwa [Nat.zero_add, Nat.max_self] at h

theorem reads_numbers (n : Nat) : Reads n n (numbers op n) := by
  have h := (reads_numerals op n).bind fun xs => .pure (xs.map Numeral.value)
  rwa [Nat.add_zero, Nat.max_self] at h

theorem reads_two : Reads 2 2 (two op) :=
  (reads_require op 2).bind fun _ => (reads_number op).bind fun _ => (reads_number op).bind fun _ =>
    .pure _

theorem reads_point : Reads 2 2 (point op) :=
  (reads_two op).bind fun _ => .pure _

theorem reads_three : Reads 3 3 (three op) :=
  (reads_require op 3).bind fun _ => (reads_number op).bind fun _ => (reads_two op).bind fun _ =>
    .pure _

theorem reads_four : Reads 4 4 (four op) :=
  (reads_require op 4).bind fun _ => (reads_two op).bind fun _ => (reads_two op).bind fun _ =>
    .pure _

theorem reads_threePoints : Reads 6 6 (threePoints op) :=
  (reads_require op 6).bind fun _ => (reads_point op).bind fun _ => (reads_point op).bind fun _ =>
    (reads_point op).bind fun _ => .pure _

/-- A matrix reads six operands. So a point reads two, and a group of numbers as many as it has. -/
theorem reads_matrix : Reads 6 6 (matrix op) :=
  (reads_require op 6).bind fun _ => (reads_two op).bind fun _ => (reads_two op).bind fun _ =>
    (reads_two op).bind fun _ => .pure _

end

end Take

/-! ### Arity -/

/-- How many operands a **keyword** takes. Those of a color are not counted, which depend on the
current space. -/
def Keyword.arity : Keyword → Nat
  | .concat | .curveTo | .textMatrix | .glyphWidthBox => 6
  | .curveFromCurrent | .curveToEnd | .rectangle | .strokeCmyk | .fillCmyk => 4
  | .nextLineShowSpaced | .strokeRgb | .fillRgb => 3
  | .dash | .moveTo | .lineTo | .font | .moveLine | .moveLineLeading | .markPointProperties
  | .beginMarkedProperties | .glyphWidth => 2
  | .lineWidth | .lineCap | .lineJoin | .miterLimit | .intent | .flatness | .extGState
  | .charSpacing | .wordSpacing | .horizontalScale | .leading | .renderMode | .rise | .showText
  | .showAdjusted | .nextLineShow | .strokeSpace | .fillSpace | .strokeGray | .fillGray | .invoke
  | .shade | .markPoint | .beginMarked => 1
  | _ => 0

/-- The **side** on which a keyword selects a color in the current space, if it does. -/
def Keyword.colors? : Keyword → Option Side
  | .strokeColor | .strokeColorN => some .stroke
  | .fillColor | .fillColorN => some .fill
  | _ => none

/-- How many operands the **tint** of a pattern takes in a space; none if it takes all that there
are. -/
def Tiling.takes? (tiling : Tiling σ) (space : ColorSpace) : Option Nat :=
  match tiling.kind with
  | .colored => some 0
  | .uncolored => space.base?.map ColorSpace.components

/-- How many operands a **color** takes in a space, of which the one on top is known; none if it
takes all that there are. -/
def Library.takes? (lib : Library σ) (scopes : List σ) (space : ColorSpace)
    (operands : List Operand) : Option Nat :=
  if space.isPattern then
    match operands with
    | .name name :: _ =>
      match lib.findPattern scopes name with
      | .ok (.tiling tiling) => (tiling.takes? space).map (· + 1)
      | _ => some 1
    | _ => some 1
  else
    some space.components

/-- How many operands an **operator** takes; none if it takes all that there are. -/
def Operator.takes? (lib : Library σ) (m : Machine σ) (operands : List Operand) :
    Operator → Option Nat
  | .known k =>
    match k.colors? with
    | some side => lib.takes? m.scopes (m.stack.current.ink side).space operands
    | none => some k.arity
  | .unknown _ => some 0

section

variable {lib : Library σ} {m : Machine σ} {operands : List Operand} {k : Keyword}

/-- A keyword that does not select a color takes a fixed number of operands. -/
theorem Operator.takes?_of_colors?_eq_none (hk : k.colors? = none) :
    takes? lib m operands (known k) = some k.arity := by
  simp only [takes?, hk]

/-- A keyword that selects a color takes what the current space of its side prescribes. -/
theorem Operator.takes?_of_colors? {side : Side} (hk : k.colors? = some side) :
    takes? lib m operands (known k) =
      lib.takes? m.scopes (m.stack.current.ink side).space operands := by
  simp only [takes?, hk]

end

namespace Command

/-- A keyword reads as many operands as it takes, if it does not select a color. How many of them it
uses is of no account, since the rest is dropped. -/
theorem reads_ofKeyword {k : Keyword} (hk : k.colors? = none) :
    ∃ used, Take.Reads k.arity used (ofKeyword k) := by
  cases k with
  | concat | textMatrix => exact ⟨_, (Take.reads_matrix _).bind fun _ => .pure _⟩
  | lineCap | lineJoin | renderMode => exact ⟨_, (Take.reads_code _).bind fun _ => .pure _⟩
  | lineWidth | miterLimit | flatness | charSpacing | wordSpacing | horizontalScale | leading
  | rise | strokeGray | fillGray => exact ⟨_, (Take.reads_number _).bind fun _ => .pure _⟩
  | dash =>
      exact ⟨_, (Take.reads_number _).bind fun _ => (Take.reads_array _).bind fun _ => .pure _⟩
  | font =>
      exact ⟨_, (Take.reads_number _).bind fun _ => (Take.reads_name _).bind fun _ => .pure _⟩
  | intent | extGState | strokeSpace | fillSpace | invoke | shade =>
      exact ⟨_, (Take.reads_name _).bind fun _ => .pure _⟩
  | moveTo | lineTo => exact ⟨_, (Take.reads_point _).bind fun _ => .pure _⟩
  | curveTo => exact ⟨_, (Take.reads_threePoints _).bind fun _ => .pure _⟩
  | curveFromCurrent | curveToEnd | rectangle | strokeCmyk | fillCmyk =>
      exact ⟨_, (Take.reads_four _).bind fun _ => .pure _⟩
  | moveLine | moveLineLeading => exact ⟨_, (Take.reads_two _).bind fun _ => .pure _⟩
  | strokeRgb | fillRgb => exact ⟨_, (Take.reads_three _).bind fun _ => .pure _⟩
  | showText | nextLineShow => exact ⟨_, (Take.reads_string _).bind fun _ => .pure _⟩
  | showAdjusted => exact ⟨_, (Take.reads_array _).bind fun _ => .pure _⟩
  | nextLineShowSpaced =>
      exact ⟨_, (Take.reads_string _).bind fun _ => (Take.reads_two _).bind fun _ => .pure _⟩
  | strokeColor | strokeColorN | fillColor | fillColorN => cases hk
  | markPoint | beginMarked => exact ⟨_, (Take.reads_require _ 1).bind fun _ => .pure _⟩
  | markPointProperties | beginMarkedProperties | glyphWidth =>
      exact ⟨_, (Take.reads_require _ 2).bind fun _ => .pure _⟩
  | glyphWidthBox => exact ⟨_, (Take.reads_require _ 6).bind fun _ => .pure _⟩
  | _ => exact ⟨_, .pure _⟩

/-- A keyword that selects a color leaves its operands to the space: it takes none, and never fails
here. -/
theorem decode_of_colors? {k : Keyword} {side : Side} (hk : k.colors? = some side)
    (operands : List Operand) :
    decode (.known k) operands = .ok (.color side k.spelling operands) := by
  unfold Keyword.colors? at hk
  split at hk <;> cases hk <;> rfl

end Command

/-! ### Taking all operands -/

/-- The **numeral**, if the operand is one. -/
def Operand.numeral? : Operand → Option Numeral
  | number numeral => some numeral
  | _ => none

namespace Take

/-- As many numerals as there are operands are all the operands, in reverse; anything else among
them is a fault. -/
theorem run_numeralsOnto_length (op : String) (operands : List Operand) (taken : List Numeral) :
    (numeralsOnto op operands.length taken).run operands =
      match operands.mapM Operand.numeral? with
      | some xs => .ok (xs.reverse ++ taken, [])
      | none => .error (.operandType op .number) := by
  induction operands generalizing taken with
  | nil => rfl
  | cons operand operands ih =>
      rw [List.mapM_cons]
      cases operand with
      | number x =>
          have hrun : (numeralsOnto op (Operand.number x :: operands).length taken).run
              (.number x :: operands) =
              (numeralsOnto op operands.length (x :: taken)).run operands := rfl
          rw [hrun, ih]
          cases operands.mapM Operand.numeral? with
          | none => rfl
          | some xs => simp [Operand.numeral?]
      | _ => rfl

/-- All operands are taken if they are numbers, and come back in the order in which they were
written. -/
theorem run'_numerals_length (op : String) (operands : List Operand) :
    (numerals op operands.length).run' operands =
      match operands.mapM Operand.numeral? with
      | some xs => .ok xs.reverse
      | none => .error (.operandType op .number) := by
  have hrun : (numerals op operands.length).run operands =
      (numeralsOnto op operands.length []).run operands := by
    rw [numerals, StateT.run_bind, run_require, if_neg (Nat.lt_irrefl _)]
    rfl
  rw [run'_eq, hrun, run_numeralsOnto_length]
  cases operands.mapM Operand.numeral? with
  | none => rfl
  | some xs => simp [Except.map]

end Take

/-! ### Colors -/

/-- A name on top is taken as it is. -/
theorem Take.run_name_cons (op name : String) (operands : List Operand) :
    (Take.name op).run (.name name :: operands) = .ok (name, operands) :=
  rfl

/-- What is made of some operands **depends on the top** `n` of them: it is the same whatever lies
below, and a fault if there are fewer. -/
structure Rests (n : Nat) (f : List Operand → Except Fault α) (ys : List Operand) : Prop where
  append : n ≤ ys.length → ∀ xs, f (ys ++ xs) = f ys
  exists_fault : ys.length < n → ∃ fault, f ys = .error fault

namespace Rests

variable {n : Nat} {ys : List Operand}

/-- What reads its operands rests on those that it reads. -/
theorem of_reads {used : Nat} {x : Take α} (hx : x.Reads n used) : Rests n x.run' ys where
  append := hx.run'
  exists_fault := hx.exists_fault

/-- What does not look at its operands rests on none. -/
theorem const (a : Except Fault α) : Rests 0 (fun _ => a) ys where
  append _ _ := rfl
  exists_fault h := absurd h (Nat.not_lt_zero _)

/-- To go on with a result does not change what it rests on. -/
theorem map {f : List Operand → Except Fault α} (hf : Rests n f ys) (g : α → β) :
    Rests n (fun operands => (f operands).map g) ys where
  append h xs := by rw [hf.append h]
  exists_fault h := by
    obtain ⟨fault, hfault⟩ := hf.exists_fault h
    exact ⟨fault, by rw [hfault]; rfl⟩

/-- What is made of the operands below the top one rests on one more. -/
theorem cons {f g : List Operand → Except Fault α} {top : Operand} (hg : Rests n g ys)
    (h : ∀ operands, f (top :: operands) = g operands) : Rests (n + 1) f (top :: ys) where
  append hlen xs := by
    rw [List.cons_append, h, h, hg.append (Nat.le_of_succ_le_succ hlen)]
  exists_fault hlen := by
    rw [h]
    exact hg.exists_fault (Nat.lt_of_succ_lt_succ hlen)

end Rests

/-- A tint depends on its own operands: on none if the cell brings its colors, and otherwise on as
many numbers as the space below has components. -/
theorem Action.rests_takeTint {tiling : Tiling σ} {space : ColorSpace} {n : Nat}
    (htakes : tiling.takes? space = some n) (op : String) (ys : List Operand) :
    Rests n (takeTint op space tiling) ys := by
  unfold Tiling.takes? at htakes
  unfold takeTint
  cases htiling : tiling.kind with
  | colored =>
      obtain rfl : 0 = n := by simpa only [htiling, Option.some.injEq] using htakes
      exact .const _
  | uncolored =>
      cases hbase : space.base? with
      | none => simp [htiling, hbase] at htakes
      | some base =>
          obtain rfl : base.components = n := by simpa [htiling, hbase] using htakes
          exact (Rests.of_reads (Take.reads_numerals op _)).map some

/-- A color depends on its own operands: on as many numbers as the space has components, or on a
name and what the pattern of that name takes. -/
theorem Library.rests_select {lib : Library σ} {scopes : List σ} {space : ColorSpace}
    {ys : List Operand} {n : Nat} (htakes : lib.takes? scopes space ys = some n) (op : String) :
    Rests n (lib.select scopes op space) ys := by
  unfold takes? at htakes
  unfold select
  by_cases hpattern : space.isPattern = true
  · simp only [hpattern, if_true] at htakes ⊢
    cases ys with
    | nil =>
        cases htakes
        exact ⟨fun hlen => absurd hlen (Nat.not_succ_le_zero 0), fun _ => ⟨_, rfl⟩⟩
    | cons top rest =>
        cases top with
        | name name =>
            rcases hfind : lib.findPattern scopes name with fault | tiling | ⟨shading, matrix⟩
            · obtain rfl : 1 = n := by simpa [hfind] using htakes
              exact (Rests.const (.error fault)).cons fun operands => by
                simp [Take.run_name_cons, Except.bind, hfind]
            · obtain ⟨n', htint, rfl⟩ : ∃ n', tiling.takes? space = some n' ∧ n' + 1 = n := by
                simpa [hfind] using htakes
              exact ((Action.rests_takeTint htint op rest).map (.tiling tiling)).cons
                fun operands => by simp [Take.run_name_cons, Except.bind, hfind]
            · obtain rfl : 1 = n := by simpa [hfind] using htakes
              exact (Rests.const (.ok (.paint (.shading shading matrix)))).cons fun operands => by
                simp [Take.run_name_cons, Except.bind, hfind]
        | _ =>
            cases htakes
            exact (Rests.const (.error (.operandType op .name))).cons fun _ => rfl
  · simp only [hpattern, Bool.false_eq_true, if_false, Option.some.injEq] at htakes ⊢
    subst htakes
    exact (Rests.of_reads (Take.reads_numbers op _)).map _

/-- A tint takes all operands only for a stencil in a space with none below. -/
theorem Tiling.takes?_eq_none {tiling : Tiling σ} {space : ColorSpace}
    (h : tiling.takes? space = none) : tiling.kind = .uncolored ∧ space.base? = none := by
  unfold takes? at h
  split at h
  · cases h
  · next hkind => exact ⟨hkind, by simpa using h⟩

/-- So does a color only if it is that of a stencil, in a pattern space over no other. In every
other case the space or the pattern says how many numbers there have to be. -/
theorem Library.takes?_eq_none {lib : Library σ} {scopes : List σ} {space : ColorSpace}
    {ys : List Operand} (h : lib.takes? scopes space ys = none) :
    ∃ name tiling rest, ys = .name name :: rest ∧ space.isPattern = true ∧
      lib.findPattern scopes name = .ok (.tiling tiling) ∧ tiling.kind = .uncolored ∧
      space.base? = none := by
  unfold takes? at h
  split at h
  · next hpattern =>
    split at h
    · next name rest =>
      split at h
      · next tiling hfind =>
        have htiling : tiling.takes? space = none := by simpa using h
        obtain ⟨hkind, hbase⟩ := Tiling.takes?_eq_none htiling
        exact ⟨name, tiling, rest, rfl, hpattern, hfind, hkind, hbase⟩
      · cases h
    · cases h
  · cases h

/-- The tint that takes all operands: below the name of the stencil there may be numbers only, and
all of them become the tint. -/
theorem Library.select_name {lib : Library σ} {scopes : List σ} {space : ColorSpace}
    {name : String} {tiling : Tiling σ} (hpattern : space.isPattern = true)
    (hfind : lib.findPattern scopes name = .ok (.tiling tiling)) (hkind : tiling.kind = .uncolored)
    (hbase : space.base? = none) (op : String) (operands : List Operand) :
    lib.select scopes op space (.name name :: operands) =
      match operands.mapM Operand.numeral? with
      | some tint => .ok (.tiling tiling (some tint.reverse))
      | none => .error (.operandType op .number) := by
  unfold select
  simp only [hpattern, if_true, Take.run_name_cons, Except.bind, hfind, Action.takeTint, hkind,
    hbase, Take.run'_numerals_length]
  cases operands.mapM Operand.numeral? <;> rfl

/-! ### Operators -/

section

variable (ctx : Context σ) (call : Bytes → Action σ Unit) (frame : Frame) (m : Machine σ)

namespace Action

/-- An operator that is refused leaves everything as it is. -/
theorem run_step_of_error {op : Operator} {operands : List Operand} {fault : Fault}
    (h : Command.decode op operands = .error fault) :
    (step ctx call frame (.operate op operands)).run m = ⟨.error fault, m, []⟩ := by
  simp [step, run_bind, h]

/-- An operator of a color does what its operands select: it sets a paint, or it has a tile made of
a cell and sets that. -/
theorem run_step_color {k : Keyword} {side : Side} (hk : k.colors? = some side)
    (operands : List Operand) :
    (step ctx call frame (.operate (.known k) operands)).run m =
      match ctx.library.select m.scopes k.spelling (m.stack.current.ink side).space operands with
      | .error fault => ⟨.error fault, m, []⟩
      | .ok (.paint paint) =>
        (do
          modifyState fun gs => gs.setInk side ⟨paint, (m.stack.current.ink side).space⟩
          pure frame : Action σ Frame).run m
      | .ok (.tiling tiling tint) =>
        (do
          let tile ← tile ctx call tiling tint
          modifyState fun gs => gs.setInk side
            ⟨.tiling tile (tint.map Tint.color), (m.stack.current.ink side).space⟩
          pure frame : Action σ Frame).run m := by
  simp only [step, run_bind, run_ofExcept, Command.decode_of_colors? hk, perform, Outcome.after_nil,
    run_selectColor]
  rcases ctx.library.select m.scopes k.spelling (m.stack.current.ink side).space operands with
    fault | paint | ⟨tiling, tint⟩
  · rfl
  · rfl
  · rcases htile : (tile ctx call tiling tint).run m with ⟨_ | _, _, _⟩ <;>
      simp [htile, Outcome.after]

variable {ctx m} {op : Operator} {ys : List Operand} {n : Nat}

/-- An operator comes to the same whatever lies below its own operands. Most of them are decoded
from what they take; those of a color hand all operands on, and the space selects from its own. -/
theorem run_step_append (htakes : op.takes? ctx.library m ys = some n) (hlen : n ≤ ys.length)
    (xs : List Operand) :
    (step ctx call frame (.operate op (ys ++ xs))).run m =
      (step ctx call frame (.operate op ys)).run m := by
  cases op with
  | unknown spelling => rfl
  | known k =>
      cases hk : k.colors? with
      | none =>
          rw [Operator.takes?_of_colors?_eq_none hk] at htakes
          cases htakes
          obtain ⟨used, hreads⟩ := Command.reads_ofKeyword hk
          have hdecode : Command.decode (.known k) (ys ++ xs) = Command.decode (.known k) ys :=
            hreads.run' hlen xs
          simp only [step, hdecode]
      | some side =>
          rw [Operator.takes?_of_colors? hk] at htakes
          have hselect := (Library.rests_select htakes k.spelling).append hlen xs
          rw [run_step_color ctx call frame m hk, run_step_color ctx call frame m hk, hselect]

/-- An operator is refused without its own operands, and nothing has happened. Again the keywords
with a fixed number of operands are set apart from those that leave the number to a space. -/
theorem run_step_of_length_lt (htakes : op.takes? ctx.library m ys = some n)
    (hlen : ys.length < n) :
    ∃ fault, (step ctx call frame (.operate op ys)).run m = ⟨.error fault, m, []⟩ := by
  cases op with
  | unknown spelling =>
      cases htakes
      exact absurd hlen (Nat.not_lt_zero _)
  | known k =>
      cases hk : k.colors? with
      | none =>
          rw [Operator.takes?_of_colors?_eq_none hk] at htakes
          cases htakes
          obtain ⟨used, hreads⟩ := Command.reads_ofKeyword hk
          obtain ⟨fault, hfault⟩ := hreads.exists_fault hlen
          exact ⟨fault, run_step_of_error ctx call frame m hfault⟩
      | some side =>
          rw [Operator.takes?_of_colors? hk] at htakes
          obtain ⟨fault, hfault⟩ := (Library.rests_select htakes k.spelling).exists_fault hlen
          exact ⟨fault, by rw [run_step_color ctx call frame m hk, hfault]⟩

/-- The tint that takes all operands, of a color operator: what lies below the name is part of it,
however much that is. -/
theorem run_step_of_takes?_eq_none (htakes : op.takes? ctx.library m ys = none) :
    ∃ k side name tiling rest, op = .known k ∧ k.colors? = some side ∧ ys = .name name :: rest ∧
      (m.stack.current.ink side).space.isPattern = true ∧
      (m.stack.current.ink side).space.base? = none ∧
      ctx.library.findPattern m.scopes name = .ok (.tiling tiling) ∧ tiling.kind = .uncolored ∧
      ∀ xs, (step ctx call frame (.operate op (ys ++ xs))).run m =
        match (rest ++ xs).mapM Operand.numeral? with
        | none => ⟨.error (.operandType k.spelling .number), m, []⟩
        | some tint =>
          (do
            let tile ← tile ctx call tiling (some tint.reverse)
            modifyState fun gs => gs.setInk side
              ⟨.tiling tile (some (Tint.color tint.reverse)), (m.stack.current.ink side).space⟩
            pure frame : Action σ Frame).run m := by
  cases op with
  | unknown spelling => cases htakes
  | known k =>
      cases hk : k.colors? with
      | none =>
          rw [Operator.takes?_of_colors?_eq_none hk] at htakes
          cases htakes
      | some side =>
          rw [Operator.takes?_of_colors? hk] at htakes
          obtain ⟨name, tiling, rest, rfl, hpattern, hfind, hkind, hbase⟩ :=
            Library.takes?_eq_none htakes
          refine ⟨k, side, name, tiling, rest, rfl, hk, rfl, hpattern, hbase, hfind, hkind,
            fun xs => ?_⟩
          rw [run_step_color ctx call frame m hk, List.cons_append,
            Library.select_name hpattern hfind hkind hbase]
          cases (rest ++ xs).mapM Operand.numeral? <;> rfl

end Action

/-- **Operators read their own operands only**. If the stack has as many as an operator takes, those
below them make no difference to the result, to what is seen or to the machine; without as many the
operator is refused. The one exception is the tint of a stencil in a pattern space over no other,
which is made of all operands below the name. When an operator has been dealt with, no operands are
left for the next. -/
theorem step_own_operands {op : Operator} (hop : op ≠ .known .beginImage) (ys : List Operand) :
    (∀ n, op.takes? ctx.library m ys = some n →
      (n ≤ ys.length → ∀ xs,
        (Action.step ctx call frame (.operate op (ys ++ xs))).run m =
          (Action.step ctx call frame (.operate op ys)).run m) ∧
      (ys.length < n →
        ∃ fault, (Action.step ctx call frame (.operate op ys)).run m = ⟨.error fault, m, []⟩)) ∧
    (op.takes? ctx.library m ys = none →
      ∃ k side name tiling rest, op = .known k ∧ k.colors? = some side ∧ ys = .name name :: rest ∧
        (m.stack.current.ink side).space.isPattern = true ∧
        (m.stack.current.ink side).space.base? = none ∧
        ctx.library.findPattern m.scopes name = .ok (.tiling tiling) ∧ tiling.kind = .uncolored ∧
        ∀ xs, (Action.step ctx call frame (.operate op (ys ++ xs))).run m =
          match (rest ++ xs).mapM Operand.numeral? with
          | none => ⟨.error (.operandType k.spelling .number), m, []⟩
          | some tint =>
            (do
              let tile ← Action.tile ctx call tiling (some tint.reverse)
              Action.modifyState fun gs => gs.setInk side
                ⟨.tiling tile (some (Tint.color tint.reverse)), (m.stack.current.ink side).space⟩
              pure frame : Action σ Frame).run m) ∧
    ∀ (p : Program) (operands : List Operand) (ts : List Token),
      p.instructionsFrom 0 operands (.operator op :: ts) =
        .operate op operands :: p.instructionsFrom 0 [] ts := by
  refine ⟨fun n htakes => ⟨fun hlen => ?_, fun hlen => ?_⟩, fun htakes => ?_,
    fun p operands ts => ?_⟩
  · exact Action.run_step_append call frame htakes hlen
  · exact Action.run_step_of_length_lt call frame htakes hlen
  · exact Action.run_step_of_takes?_eq_none call frame htakes
  · cases op with
    | unknown spelling => rfl
    | known k =>
        cases k with
        | beginImage => exact absurd rfl hop
        | _ => rfl

end

namespace GrayStencil

/-- A context with a **stencil** `P`. -/
def ctx : Context Nat where
  library := Directory.library #[{ patterns := [("P", .tiling {
    identity := 1
    kind := .uncolored
    bbox := ⟨0.0, 0.0, 1.0, 1.0⟩
    xStep := 1.0
    yStep := 1.0
    matrix := Matrix.identity
    content := Utf8.encode "0 0 1 1 re f"
    scope := none })] }]
  surface := fun _ => none

/-- A machine that fills with levels of **gray**. -/
def grays : Machine Nat where
  scopes := [0]

/-- A machine that fills with **patterns**. -/
def patterns : Machine Nat where
  stack := ⟨{ fill := Ink.initial .pattern }, []⟩
  scopes := [0]

end GrayStencil

open GrayStencil in
/-- A level of gray is selected by one number, whatever lies below it, and by no fewer; the tint of
a stencil is spoilt by a string that lies below its name. -/
theorem step_own_operands_of_gray :
    let op : Operator := .known .fillColorN
    let gray : Operand := .number (.ofValue 0.5)
    let step (operands : List Operand) : Action Nat Frame :=
      Action.step ctx (Action.call ctx) { base := 1 } (.operate op operands)
    op ≠ .known .beginImage ∧
    op.takes? ctx.library grays [gray] = some 1 ∧
    (∀ xs, (step (gray :: xs)).run grays = (step [gray]).run grays) ∧
    op.takes? ctx.library grays [] = some 1 ∧
    (∃ fault, (step []).run grays = ⟨.error fault, grays, []⟩) ∧
    op.takes? ctx.library patterns [.name "P"] = none ∧
    (step [.name "P", .string []]).run patterns =
      ⟨.error (.operandType "scn" .number), patterns, []⟩ := by
  intro op gray step
  have hop : op ≠ .known .beginImage := by decide
  have hgray : op.takes? ctx.library grays [gray] = some 1 := by decide
  have hnothing : op.takes? ctx.library grays [] = some 1 := by decide
  have hstencil : op.takes? ctx.library patterns [.name "P"] = none := by decide
  have hgrays := step_own_operands ctx (Action.call ctx) { base := 1 } grays hop
  obtain ⟨k, side, name, tiling, rest, hk, -, hname, -, -, -, -, hrun⟩ :=
    (step_own_operands ctx (Action.call ctx) { base := 1 } patterns hop [.name "P"]).2.1 hstencil
  obtain rfl : .fillColorN = k := Operator.known.inj hk
  cases hname
  exact ⟨hop, hgray, ((hgrays [gray]).1 1 hgray).1 (Nat.le_refl 1), hnothing,
    ((hgrays []).1 1 hnothing).2 Nat.one_pos, hstencil, hrun [.string []]⟩

end ContentStream
