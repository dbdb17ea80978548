import ContentStream.Proofs.Carrying

/-!
# Reading instructions

The instructions of a program are read off its tokens from left to right. Each of them begins with
an operator, or with the one that introduces an inline image, and takes no part in what is read
before. So the instructions before an operator are those of the tokens before it. And the
instructions of some tokens are followed by those of the tokens after, which begin with the operands
that were left over, unless an inline image is misspelled: it might be complete with more tokens.

## Main definitions

* `Program.readFrom`: the instructions of some tokens in their places, and the operands left over.
* `Program.take`: a program cut off before one of its tokens.
* `Instruction.shift`: an instruction that quotes tokens further on.

## Main results

* `InlineImage.readEntries_take`: an inline image depends on its own tokens only.
* `Program.readFrom_take`: the instructions before an operator.
* `Program.instructionsFrom_append`: the instructions of tokens that follow others.
* `Program.readFrom_shift`: what is read off tokens that are carried over.
* `Program.countP_before`: the operators of a keyword before an operator.
-/

namespace ContentStream

/-! ### Inline images -/

namespace InlineImage

variable {p : Program}

/-- The first token of an object finishes it, or leaves it open for the tokens behind. This is the
step of every induction on the tokens of an object. -/
theorem readObject_cons {around : List Open} {t : Token} {ts : List Token} {value : Object}
    {n : Nat} (h : readObject p around (t :: ts) = .ok (value, n)) :
    (∃ around', feed p t (valueOf p t) around = .ok (around', some value) ∧ n = 1) ∨
      ∃ around' k, feed p t (valueOf p t) around = .ok (around', none) ∧
        readObject p around' ts = .ok (value, k) ∧ n = k + 1 := by
  rw [readObject] at h
  rcases hfeed : feed p t (valueOf p t) around with flaw | ⟨around', _ | object⟩
  · simp [hfeed] at h
  · rcases hrest : readObject p around' ts with flaw | ⟨value', k⟩
    · simp [hfeed, hrest, Except.map] at h
    · obtain ⟨rfl, rfl⟩ : value' = value ∧ k + 1 = n := by
        simpa [hfeed, hrest, Except.map] using h
      exact .inr ⟨around', k, rfl, hrest, rfl⟩
  · obtain ⟨rfl, rfl⟩ : object = value ∧ 1 = n := by simpa [hfeed] using h
    exact .inl ⟨around', rfl, rfl⟩

/-- The first token of an inline image is that of the data, or it belongs to an entry that was read
before, or it is the key of an entry. -/
theorem readEntries_cons {passed : Nat} {dict : Dict} {t : Token} {ts : List Token}
    {image : Spelled} (h : readEntries p passed dict (t :: ts) = .ok image) :
    (∃ span, passed = 0 ∧ t = .imageData span ∧
      image = ⟨dict.insert "Subtype" (.name "Image"), p.raw span, 1⟩) ∨
    (∃ k rest, passed = k + 1 ∧ readEntries p k dict ts = .ok rest ∧
      image = { rest with count := rest.count + 1 }) ∨
    ∃ span value n rest, passed = 0 ∧ t = .name span ∧ readObject p [] ts = .ok (value, n) ∧
      readEntries p n (addEntry dict (p.text span) value) ts = .ok rest ∧
      image = { rest with count := rest.count + 1 } := by
  have hcount {rest : Except ImageFlaw Spelled}
      (h : (rest.map fun s => { s with count := s.count + 1 }) = .ok image) :
      ∃ s, rest = .ok s ∧ image = { s with count := s.count + 1 } := by
    rcases rest with flaw | s
    · cases h
    · exact ⟨s, rfl, (Except.ok.inj h).symm⟩
  cases passed with
  | succ k =>
      obtain ⟨rest, hrest, rfl⟩ := hcount h
      exact .inr (.inl ⟨k, rest, rfl, hrest, rfl⟩)
  | zero =>
      cases t with
      | imageData span => exact .inl ⟨span, rfl, rfl, (Except.ok.inj h).symm⟩
      | name span =>
          simp only [readEntries] at h
          rcases hvalue : readObject p [] ts with flaw | ⟨value, n⟩
          · simp [hvalue] at h
          · rw [hvalue] at h
            obtain ⟨rest, hrest, rfl⟩ := hcount h
            exact .inr (.inr ⟨span, value, n, rest, rfl, rfl, rfl, hrest, rfl⟩)
      | _ => simp [readEntries] at h

/-- The object at the front of some tokens depends on its own tokens only. The induction is on the
tokens, with the arrays and dictionaries that are open. -/
theorem readObject_take {around : List Open} {ts : List Token} {value : Object} {n : Nat}
    (h : readObject p around ts = .ok (value, n)) :
    n ≤ ts.length ∧ ∀ more, readObject p around (ts.take n ++ more) = .ok (value, n) := by
  induction ts generalizing around n with
  | nil => simp [readObject] at h
  | cons t ts ih =>
      obtain ⟨around', hfeed, rfl⟩ | ⟨around', k, hfeed, hrest, rfl⟩ := readObject_cons h
      · exact ⟨Nat.succ_pos _, fun more => by simp [readObject, hfeed]⟩
      · obtain ⟨hle, htake⟩ := ih hrest
        refine ⟨Nat.succ_le_succ hle, fun more => ?_⟩
        simp [readObject, hfeed, htake more, Except.map]

/-- An inline image depends on its own tokens only, among which are those of an entry before. There
must be image data among them, so that at least one token is taken. -/
theorem readEntries_take {passed : Nat} {dict : Dict} {ts : List Token} {image : Spelled}
    (h : readEntries p passed dict ts = .ok image) :
    passed < image.count ∧ image.count ≤ ts.length ∧
      ∀ more, readEntries p passed dict (ts.take image.count ++ more) = .ok image := by
  induction ts generalizing passed dict image with
  | nil => cases passed <;> simp [readEntries] at h
  | cons t ts ih =>
      obtain ⟨span, rfl, rfl, rfl⟩ | ⟨k, rest, rfl, hrest, rfl⟩ |
        ⟨span, value, n, rest, rfl, rfl, hvalue, hrest, rfl⟩ := readEntries_cons h
      · exact ⟨Nat.one_pos, Nat.succ_pos _, fun more => rfl⟩
      · obtain ⟨hpassed, hle, htake⟩ := ih hrest
        refine ⟨Nat.succ_lt_succ hpassed, Nat.succ_le_succ hle, fun more => ?_⟩
        simp [readEntries, htake more, Except.map]
      · obtain ⟨hpassed, hle, htake⟩ := ih hrest
        refine ⟨Nat.succ_pos _, Nat.succ_le_succ hle, fun more => ?_⟩
        -- The value lies before the image data, so it is among the tokens taken.
        have hfront : (ts.take rest.count).take n = ts.take n := by
          rw [List.take_take, Nat.min_eq_left (Nat.le_of_lt hpassed)]
        have hsplit : ts.take rest.count ++ more =
            ts.take n ++ ((ts.take rest.count).drop n ++ more) := by
          rw [← List.append_assoc, ← hfront, List.take_append_drop]
        have hvalue' := (readObject_take hvalue).2 ((ts.take rest.count).drop n ++ more)
        rw [← hsplit] at hvalue'
        simp [readEntries, hvalue', htake more, Except.map]

end InlineImage

/-! ### Operators among tokens -/

/-- Whether a token is an **operator**. -/
def Token.isOperator : Token → Bool
  | .operator _ => true
  | _ => false

/-- Whether a token stands **among operands**. -/
def Token.isOperand : Token → Bool
  | .operator _ | .imageData _ => false
  | _ => true

/-- What stands among operands is no operator. -/
theorem Token.isOperator_eq_false {t : Token} (h : t.isOperand = true) : t.isOperator = false := by
  cases t with
  | operator op => cases h
  | _ => rfl

/-- Whether a token is the operator of a **keyword**. -/
def Token.isKeyword (k : Keyword) : Token → Bool
  | .operator op => op == .known k
  | _ => false

/-- What is no operator is not that of a keyword. -/
theorem Token.isKeyword_eq_false {t : Token} (h : t.isOperator = false) (k : Keyword) :
    t.isKeyword k = false := by
  cases t with
  | operator op => cases h
  | _ => rfl

namespace InlineImage

variable {p : Program}

/-- Operators and image data are no part of an object. -/
theorem isOperand_of_feed {t : Token} {around : List Open} {x : List Open × Option Object}
    (h : feed p t (valueOf p t) around = .ok x) : t.isOperand = true := by
  cases t with
  | operator op => rcases around with _ | ⟨⟨dict, _ | key⟩, around⟩ <;> cases h
  | imageData span => rcases around with _ | ⟨⟨dict, _ | key⟩, around⟩ <;> cases h
  | _ => rfl

/-- The tokens of an object stand among operands. -/
theorem isOperand_of_readObject {around : List Open} {ts : List Token} {value : Object} {n : Nat}
    (h : readObject p around ts = .ok (value, n)) : ∀ t ∈ ts.take n, t.isOperand = true := by
  induction ts generalizing around n with
  | nil => simp [readObject] at h
  | cons t ts ih =>
      obtain ⟨around', hfeed, rfl⟩ | ⟨around', k, hfeed, hrest, rfl⟩ := readObject_cons h
      · exact List.forall_mem_cons.mpr ⟨isOperand_of_feed hfeed, fun _ ht => by cases ht⟩
      · rw [List.take_succ_cons]
        exact List.forall_mem_cons.mpr ⟨isOperand_of_feed hfeed, ih hrest⟩

/-- There are no operators among the tokens of an inline image, if there are none in what was read
before. -/
theorem isOperator_of_readEntries {passed : Nat} {dict : Dict} {ts : List Token} {image : Spelled}
    (h : readEntries p passed dict ts = .ok image)
    (hpassed : ∀ t ∈ ts.take passed, t.isOperator = false) :
    ∀ t ∈ ts.take image.count, t.isOperator = false := by
  induction ts generalizing passed dict image with
  | nil => simp
  | cons t ts ih =>
      obtain ⟨span, rfl, rfl, rfl⟩ | ⟨k, rest, rfl, hrest, rfl⟩ |
        ⟨span, value, n, rest, rfl, rfl, hvalue, hrest, rfl⟩ := readEntries_cons h
      · exact List.forall_mem_cons.mpr ⟨rfl, fun _ ht => by cases ht⟩
      · obtain ⟨ht, hpassed⟩ := List.forall_mem_cons.mp hpassed
        rw [List.take_succ_cons]
        exact List.forall_mem_cons.mpr ⟨ht, ih hrest hpassed⟩
      · rw [List.take_succ_cons]
        exact List.forall_mem_cons.mpr ⟨rfl, ih hrest fun t ht =>
          Token.isOperator_eq_false (isOperand_of_readObject hvalue t ht)⟩

end InlineImage

/-! ### Places -/

/-- Whether an instruction is an inline image that is **not spelled out correctly**. -/
def Instruction.isMisspelled : Instruction → Bool
  | .misspelled _ => true
  | _ => false

/-- Whether an instruction carries out the operator of a **keyword**. -/
def Instruction.isOperate (k : Keyword) : Instruction → Bool
  | .operate op _ => op == .known k
  | _ => false

/-- An instruction of a program **further on** in another. What is wrong with an inline image is
said with other spans; everything else is the same. -/
def Instruction.shift (arena source : Nat) : Instruction → Instruction
  | .misspelled flaw => .misspelled (flaw.shift arena source)
  | i => i

/-- No further on, an instruction is what it is. -/
theorem Instruction.shift_zero (i : Instruction) : i.shift 0 0 = i := by
  cases i with
  | misspelled flaw => exact congrArg Instruction.misspelled flaw.shift_zero
  | _ => rfl

/-- What is **read off some tokens**: the instructions, each with the index of the operator that it
is made of, and the operands that are left over. -/
structure Reading where
  placed : List (Nat × Instruction)
  left : List Operand

/-- A reading with one more **instruction in front**. -/
def Reading.cons (index : Nat) (i : Instruction) (r : Reading) : Reading :=
  { r with placed := (index, i) :: r.placed }

/-- A reading of tokens **further on**. The operands that are left over are the same. -/
def Reading.shift (arena source : Nat) (r : Reading) : Reading :=
  { r with placed := r.placed.map fun x => (x.1, x.2.shift arena source) }

namespace Program

variable {p r : Program}

/-- What is **read off tokens** that begin at an index, and are preceded by the given operands. The
first `passed` of them belong to an inline image before. -/
def readFrom (p : Program) : (index passed : Nat) → List Operand → List Token → Reading
  | _, _, operands, [] => ⟨[], operands⟩
  | index, passed + 1, operands, _ :: ts => readFrom p (index + 1) passed operands ts
  | index, 0, operands, t :: ts =>
    match t with
    | .operator (.known .beginImage) =>
      match InlineImage.readEntries p 0 [] ts with
      | .error flaw => ⟨[(index, .misspelled flaw)], []⟩
      | .ok image =>
        (readFrom p (index + 1) image.count [] ts).cons index (.drawImage image.dict image.data)
    | .operator op => (readFrom p (index + 1) 0 [] ts).cons index (.operate op operands)
    | .imageData _ => readFrom p (index + 1) 0 [] ts
    | t => readFrom p (index + 1) 0 (Operand.ofToken p t :: operands) ts

/-- The instructions of a program **in their places**. -/
def placed (p : Program) : List (Nat × Instruction) :=
  (p.readFrom 0 0 [] p.tokens).placed

/-- The operands that are **left over** at the end of a program. -/
def leftover (p : Program) : List Operand :=
  (p.readFrom 0 0 [] p.tokens).left

/-- Without their places, the instructions that are read are those of the program. So places can be
spoken of in proofs, while the interpreter need not know them. -/
theorem map_snd_readFrom (index passed : Nat) (operands : List Operand) (ts : List Token) :
    (p.readFrom index passed operands ts).placed.map Prod.snd =
      p.instructionsFrom passed operands ts := by
  fun_induction readFrom p index passed operands ts with
  | case1 => rw [instructionsFrom]; rfl
  | case2 index passed operands t ts ih => rw [instructionsFrom, ih]
  | case3 index operands ts flaw hflaw => simp only [instructionsFrom, hflaw]; rfl
  | case4 index operands ts image himage ih =>
      simp only [instructionsFrom, himage, Reading.cons, List.map_cons, ih]
  | case5 index operands ts op hop ih =>
      rw [instructionsFrom, Reading.cons, List.map_cons, ih]
      exact hop
  | case6 index operands ts span ih => rw [instructionsFrom, ih]
  | case7 index operands ts t hbegin hop hdata ih =>
      rw [instructionsFrom, ih]
      all_goals assumption

/-- The instructions before an operator are those of the tokens before it: none of them looks beyond
the operator that it is made of, and no image before it is open there. -/
theorem readFrom_take {index passed k : Nat} {operands : List Operand} {ts : List Token}
    {before after : List (Nat × Instruction)} {i : Instruction}
    (h : (p.readFrom index passed operands ts).placed = before ++ (k, i) :: after) :
    ∃ j, k = index + j ∧ passed ≤ j ∧ (∃ op, ts[j]? = some (.operator op)) ∧
      (p.readFrom index passed operands (ts.take j)).placed = before := by
  fun_induction readFrom p index passed operands ts generalizing before with
  | case1 => simp at h
  | case2 index passed operands t ts ih =>
      obtain ⟨j, rfl, hle, hop, hbefore⟩ := ih h
      exact ⟨j + 1, by omega, by omega, hop, by rw [List.take_succ_cons, readFrom, hbefore]⟩
  | case3 index operands ts flaw hflaw =>
      obtain ⟨rfl, hhead⟩ | ⟨before', -, hrest⟩ := List.cons_eq_append_iff.mp h
      · obtain ⟨rfl, rfl⟩ := Prod.mk.inj (List.cons.inj hhead).1
        exact ⟨0, rfl, Nat.le_refl 0, ⟨_, rfl⟩, rfl⟩
      · simp at hrest
  | case4 index operands ts image himage ih =>
      obtain ⟨rfl, hhead⟩ | ⟨before', rfl, hrest⟩ := List.cons_eq_append_iff.mp h
      · obtain ⟨rfl, rfl⟩ := Prod.mk.inj (List.cons.inj hhead).1
        exact ⟨0, rfl, Nat.le_refl 0, ⟨_, rfl⟩, rfl⟩
      · obtain ⟨j, rfl, hle, hop, hbefore⟩ := ih hrest
        -- The image is complete before the next operator, so it is read there too.
        have hsplit : ts.take j = ts.take image.count ++ (ts.take j).drop image.count := by
          rw [← Nat.min_eq_left hle, ← List.take_take, Nat.min_eq_left hle, List.take_append_drop]
        have himage' : InlineImage.readEntries p 0 [] (ts.take j) = .ok image := by
          rw [hsplit]
          exact (InlineImage.readEntries_take himage).2.2 _
        refine ⟨j + 1, by omega, by omega, hop, ?_⟩
        simp only [List.take_succ_cons, readFrom, himage', Reading.cons, hbefore]
  | case5 index operands ts op hop ih =>
      obtain ⟨rfl, hhead⟩ | ⟨before', rfl, hrest⟩ := List.cons_eq_append_iff.mp h
      · obtain ⟨rfl, rfl⟩ := Prod.mk.inj (List.cons.inj hhead).1
        exact ⟨0, rfl, Nat.le_refl 0, ⟨_, rfl⟩, rfl⟩
      · obtain ⟨j, rfl, hle, hnext, hbefore⟩ := ih hrest
        refine ⟨j + 1, by omega, by omega, hnext, ?_⟩
        rw [List.take_succ_cons, readFrom, Reading.cons, hbefore]
        exact hop
  | case6 index operands ts span ih =>
      obtain ⟨j, rfl, hle, hop, hbefore⟩ := ih h
      exact ⟨j + 1, by omega, by omega, hop, by rw [List.take_succ_cons, readFrom, hbefore]⟩
  | case7 index operands ts t hbegin hop hdata ih =>
      obtain ⟨j, rfl, hle, hnext, hbefore⟩ := ih h
      refine ⟨j + 1, by omega, by omega, hnext, ?_⟩
      rw [List.take_succ_cons, readFrom, hbefore]
      all_goals assumption

/-- The operators of a keyword are carried out as often as they are written. Only the keyword that
introduces an inline image does not stand for itself. -/
theorem countP_readFrom {k : Keyword} (hk : k ≠ .beginImage) {index passed : Nat}
    {operands : List Operand} {ts : List Token}
    (hpassed : ∀ t ∈ ts.take passed, t.isOperator = false)
    (hspelled : ∀ x ∈ (p.readFrom index passed operands ts).placed, x.2.isMisspelled = false) :
    (p.readFrom index passed operands ts).placed.countP (fun x => x.2.isOperate k) =
      ts.countP (Token.isKeyword k) := by
  fun_induction readFrom p index passed operands ts with
  | case1 => rfl
  | case2 index passed operands t ts ih =>
      rw [List.take_succ_cons, List.forall_mem_cons] at hpassed
      rw [ih hpassed.2 hspelled,
        List.countP_cons_of_neg (by rw [Token.isKeyword_eq_false hpassed.1]; exact nofun)]
  | case3 index operands ts flaw hflaw => cases hspelled _ List.mem_cons_self
  | case4 index operands ts image himage ih =>
      have hbegin : Token.isKeyword k (.operator (.known .beginImage)) = false :=
        beq_false_of_ne fun h => hk (Operator.known.inj h).symm
      have hnone : ∀ t ∈ ts.take 0, t.isOperator = false := fun _ ht => by cases ht
      rw [Reading.cons, List.countP_cons_of_neg (by exact Bool.false_ne_true),
        List.countP_cons_of_neg (by rw [hbegin]; exact nofun)]
      exact ih (InlineImage.isOperator_of_readEntries himage hnone)
        fun x hx => hspelled x (List.mem_cons_of_mem _ hx)
  | case5 index operands ts op hop ih =>
      have hrest := ih (fun _ ht => by cases ht) fun x hx => hspelled x (List.mem_cons_of_mem _ hx)
      rw [Reading.cons, List.countP_cons, List.countP_cons, hrest]
      rfl
  | case6 index operands ts span ih =>
      rw [ih (fun _ ht => by cases ht) hspelled,
        List.countP_cons_of_neg (by exact Bool.false_ne_true)]
  | case7 index operands ts t hbegin hop hdata ih =>
      have ht : t.isOperator = false := by
        cases t with
        | operator op => exact absurd rfl (hop op)
        | _ => rfl
      rw [ih (fun _ ht => by cases ht) hspelled,
        List.countP_cons_of_neg (by rw [Token.isKeyword_eq_false ht]; exact nofun)]

/-- A program **cut off** before one of its tokens. -/
def take (p : Program) (k : Nat) : Program :=
  { p with tokens := p.tokens.take k }

/-- The instructions of tokens that follow others: the operands that were left over come before
them. Nothing can follow an inline image that is misspelled, for with more tokens it might not
be. -/
theorem instructionsFrom_append {index passed : Nat} {operands : List Operand} {ts : List Token}
    (hpassed : passed ≤ ts.length)
    (hspelled : ∀ i ∈ p.instructionsFrom passed operands ts, i.isMisspelled = false)
    (more : List Token) :
    p.instructionsFrom passed operands (ts ++ more) =
      p.instructionsFrom passed operands ts ++
        p.instructionsFrom 0 (p.readFrom index passed operands ts).left more := by
  fun_induction readFrom p index passed operands ts with
  | case1 index passed operands =>
      obtain rfl : passed = 0 := Nat.le_zero.mp hpassed
      rfl
  | case2 index passed operands t ts ih =>
      rw [instructionsFrom] at hspelled
      rw [List.cons_append, instructionsFrom, instructionsFrom,
        ih (Nat.le_of_succ_le_succ hpassed) hspelled]
  | case3 index operands ts flaw hflaw =>
      simp [instructionsFrom, hflaw, Instruction.isMisspelled] at hspelled
  | case4 index operands ts image himage ih =>
      obtain ⟨-, hle, htake⟩ := InlineImage.readEntries_take himage
      have himage' : InlineImage.readEntries p 0 [] (ts ++ more) = .ok image := by
        rw [← List.take_append_drop image.count ts, List.append_assoc]
        exact htake _
      simp only [instructionsFrom, himage] at hspelled
      simp only [List.cons_append, instructionsFrom, himage, himage', Reading.cons,
        ih hle fun i hi => hspelled i (List.mem_cons_of_mem _ hi)]
  | case5 index operands ts op hop ih =>
      rw [instructionsFrom] at hspelled
      · rw [List.cons_append, instructionsFrom, instructionsFrom, List.cons_append,
          ih (Nat.zero_le _) fun i hi => hspelled i (List.mem_cons_of_mem _ hi)]
        · rfl
        · exact hop
        · exact hop
      · exact hop
  | case6 index operands ts span ih =>
      rw [instructionsFrom] at hspelled
      rw [List.cons_append, instructionsFrom, instructionsFrom, ih (Nat.zero_le _) hspelled]
  | case7 index operands ts t hbegin hop hdata ih =>
      rw [instructionsFrom] at hspelled
      · rw [List.cons_append, instructionsFrom, instructionsFrom, ih (Nat.zero_le _) hspelled]
        all_goals assumption
      all_goals assumption

/-- What is read off tokens that are carried over into another program. Their places among the
tokens are counted as before, and only quoted tokens are further on. -/
theorem readFrom_shift {arena source : Nat} {ts : List Token} (h : p.Carries r arena source ts)
    (index passed : Nat) (operands : List Operand) :
    r.readFrom index passed operands (Token.shiftAll arena source ts) =
      (p.readFrom index passed operands ts).shift arena source := by
  fun_induction readFrom p index passed operands ts with
  | case1 => rw [Token.shiftAll, readFrom]; rfl
  | case2 index passed operands t ts ih => rw [Token.shiftAll, readFrom, ih h.tail]
  | case3 index operands ts flaw hflaw =>
      have hshift := InlineImage.readEntries_shift 0 [] h.tail
      simp only [hflaw, mapError_error] at hshift
      simp only [Token.shiftAll, Token.shift, readFrom, hshift]
      rfl
  | case4 index operands ts image himage ih =>
      have hshift := InlineImage.readEntries_shift 0 [] h.tail
      simp only [himage, mapError_ok] at hshift
      simp only [Token.shiftAll, Token.shift, readFrom, hshift, ih h.tail]
      rfl
  | case5 index operands ts op hop ih =>
      rw [Token.shiftAll, Token.shift, readFrom, ih h.tail]
      · rfl
      · exact hop
  | case6 index operands ts span ih => rw [Token.shiftAll, Token.shift, readFrom, ih h.tail]
  | case7 index operands ts t hbegin hop hdata ih =>
      rw [← Operand.ofToken_shift h.head] at ih ⊢
      cases t with
      | operator op => exact absurd rfl (hop op)
      | imageData span => exact absurd rfl (hdata span)
      | _ => exact ih h.tail

/-- The instructions of tokens that are carried over. -/
theorem instructionsFrom_shift {arena source : Nat} {ts : List Token}
    (h : p.Carries r arena source ts) (passed : Nat) (operands : List Operand) :
    r.instructionsFrom passed operands (Token.shiftAll arena source ts) =
      (p.instructionsFrom passed operands ts).map (Instruction.shift arena source) := by
  rw [← map_snd_readFrom 0, ← map_snd_readFrom 0, readFrom_shift h, Reading.shift, List.map_map,
    List.map_map]
  rfl

/-- A program that is cut off carries all tokens where they are. -/
theorem carries_take (p : Program) (k : Nat) (ts : List Token) :
    p.Carries (p.take k) 0 0 ts := by
  intro t _
  cases t <;> trivial

/-- Cut off before an operator, a program has the instructions before that operator. The operator is
the token at the index that comes with the instruction. -/
theorem instructions_take {before after : List (Nat × Instruction)} {k : Nat} {i : Instruction}
    (h : p.placed = before ++ (k, i) :: after) :
    (p.take k).instructions = before.map Prod.snd ∧
      ∃ op, p.tokens[k]? = some (.operator op) := by
  obtain ⟨j, rfl, -, hop, hbefore⟩ := readFrom_take h
  rw [Nat.zero_add]
  refine ⟨?_, hop⟩
  have hcarried := instructionsFrom_shift (p.carries_take j (p.tokens.take j)) 0 []
  rw [Token.shiftAll_zero] at hcarried
  rw [instructions, take, ← hbefore, map_snd_readFrom]
  refine hcarried.trans ?_
  rw [List.map_congr_left fun i _ => i.shift_zero, List.map_id']

/-- How often the operator of a keyword is written **before a token**. -/
def countBefore (p : Program) (k : Keyword) (index : Nat) : Nat :=
  (p.tokens.take index).countP (Token.isKeyword k)

/-- The operators of a keyword that are carried out before an operator are those written before
it. -/
theorem countP_before {before after : List (Nat × Instruction)} {index : Nat} {i : Instruction}
    (h : p.placed = before ++ (index, i) :: after)
    (hspelled : ∀ x ∈ before, x.2.isMisspelled = false) {k : Keyword} (hk : k ≠ .beginImage) :
    before.countP (fun x => x.2.isOperate k) = p.countBefore k index := by
  obtain ⟨j, rfl, -, -, rfl⟩ := readFrom_take h
  rw [Nat.zero_add]
  exact countP_readFrom hk (fun _ ht => by cases ht) hspelled

end Program

end ContentStream
