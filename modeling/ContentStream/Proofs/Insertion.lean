import ContentStream.Proofs.Instructions

/-!
# Inserting into a program

Between the operators of a program, where no operands are left over and no inline image is being
read, other tokens can be inserted. The instructions before that place are as before, and those
after it as well, except that a token which is quoted is found further on. In between there are the
instructions of what is inserted.

If an inline image before that place is misspelled, the instructions end there, and nothing that
comes after it is read. What is wrong with an inline image is settled by its image data at the
latest.

The places of the tokens in the source and in the arena are not fixed: tokens are *carried over*
from the one program to the other, with their spans as far on as it takes. So tokens may be inserted
in one place or in many.

## Main definitions

* `Program.Boundary`: nothing is left open after some tokens.
* `Program.Complete`: some tokens are instructions as a whole.
* `Program.Inserts`: a program with tokens inserted in one place.
* `Program.Splices`: tokens with others inserted in any number of places.
* `Woven`: instructions with others in between.

## Main results

* `Program.reading_operands_operator`: what is read off operands and an operator.
* `Program.instructionsFrom_append_of_misspelled`: the instructions end with an inline image that is
  misspelled.
* `Program.Inserts.instructions_eq`: the instructions of a program with tokens inserted.
* `Program.Splices.woven`: the same for any number of places.
-/

namespace ContentStream

/-! ### Image data -/

/-- Whether a token is **image data**. -/
def Token.isImageData : Token → Bool
  | .imageData _ => true
  | _ => false

/-- Whether every operator that introduces an inline image is **followed by image data**. -/
def Token.imagesEnd : List Token → Bool
  | [] => true
  | t :: ts => (!t.isKeyword .beginImage || ts.any isImageData) && imagesEnd ts

/-- Further on, image data follow the same operators, since no token changes its kind. -/
theorem Token.imagesEnd_shiftAll (arena source : Nat) (ts : List Token) :
    imagesEnd (shiftAll arena source ts) = imagesEnd ts := by
  have hany (ts : List Token) :
      (shiftAll arena source ts).any isImageData = ts.any isImageData := by
    rw [shiftAll_eq_map, List.any_map]
    exact congrArg ts.any (funext fun t => by cases t <;> rfl)
  induction ts with
  | nil => rfl
  | cons t ts ih =>
      rw [shiftAll, imagesEnd, imagesEnd, hany, ih]
      cases t <;> rfl

namespace InlineImage

variable {p : Program}

/-- An object is read off the tokens before image data, or cannot be read. So more tokens behind the
data make no difference to it. -/
theorem readObject_append {ts : List Token} (hdata : ts.any Token.isImageData = true)
    (around : List Open) (more : List Token) :
    readObject p around (ts ++ more) = readObject p around ts := by
  induction ts generalizing around with
  | nil => cases hdata
  | cons t ts ih =>
      rw [List.cons_append, readObject, readObject]
      rcases hfeed : feed p t (valueOf p t) around with flaw | ⟨around', _ | object⟩
      · rfl
      · have ht : t.isImageData = false := by
          cases t with
          | imageData span => cases isOperand_of_feed hfeed
          | _ => rfl
        rw [List.any_cons, ht, Bool.false_or] at hdata
        simp only [ih hdata]
      · rfl

/-- An inline image is read off the tokens up to image data, or cannot be read. The induction is on
the tokens, some of which have been read with an entry before. -/
theorem readEntries_append {ts : List Token} {passed : Nat}
    (hdata : (ts.drop passed).any Token.isImageData = true) (dict : Dict) (more : List Token) :
    readEntries p passed dict (ts ++ more) = readEntries p passed dict ts := by
  induction ts generalizing passed dict with
  | nil =>
      rw [List.drop_nil] at hdata
      cases hdata
  | cons t ts ih =>
      cases passed with
      | succ passed => rw [List.cons_append, readEntries, readEntries, ih hdata]
      | zero =>
          cases t with
          | imageData span => rfl
          | name span =>
              have hrest : ts.any Token.isImageData = true := hdata
              simp only [List.cons_append, readEntries, readObject_append hrest]
              rcases hvalue : readObject p [] ts with flaw | ⟨value, n⟩
              · rfl
              · have hdrop : (ts.drop n).any Token.isImageData = true := by
                  rw [← List.take_append_drop n ts, List.any_append, Bool.or_eq_true] at hrest
                  refine hrest.resolve_left fun htake => ?_
                  obtain ⟨t, ht, himage⟩ := List.any_eq_true.mp htake
                  have hoperand := isOperand_of_readObject hvalue t ht
                  cases t with
                  | imageData span => cases hoperand
                  | _ => cases himage
                simp only [ih hdrop]
          | _ => rfl

end InlineImage

/-! ### Operands -/

namespace Program

variable {p r : Program} {ops front fragment back : List Token} {arena source : Nat}

/-- The **operands** that some tokens stand for, the last one first. -/
def operandsOf (p : Program) (ops : List Token) : List Operand :=
  (ops.map (Operand.ofToken p)).reverse

/-- Operands are put on the stack as they are read, and make no instruction. The last one that is
read is the first one to be taken. -/
theorem readFrom_operands (hops : ∀ t ∈ ops, t.isOperand = true) (index : Nat)
    (operands : List Operand) (more : List Token) :
    p.readFrom index 0 operands (ops ++ more) =
      p.readFrom (index + ops.length) 0 (p.operandsOf ops ++ operands) more := by
  induction ops generalizing index operands with
  | nil => rfl
  | cons t ops ih =>
      obtain ⟨ht, hops⟩ := List.forall_mem_cons.mp hops
      have hread : p.readFrom index 0 operands (t :: (ops ++ more)) =
          p.readFrom (index + 1) 0 (Operand.ofToken p t :: operands) (ops ++ more) := by
        cases t with
        | operator op => cases ht
        | imageData span => cases ht
        | _ => rfl
      rw [List.cons_append, hread, ih hops, List.length_cons, operandsOf, operandsOf, List.map_cons,
        List.reverse_cons, List.append_assoc, List.singleton_append, Nat.add_right_comm,
        Nat.add_assoc]

/-- What is read off operands and an operator: one instruction. -/
theorem reading_operands_operator (hops : ∀ t ∈ ops, t.isOperand = true) {op : Operator}
    (hop : op ≠ .known .beginImage) :
    p.readFrom 0 0 [] (ops ++ [.operator op]) =
      ⟨[(ops.length, .operate op (p.operandsOf ops))], []⟩ := by
  rw [readFrom_operands hops, List.append_nil, Nat.zero_add, readFrom]
  · rfl
  · exact fun h => hop h

/-- What is read off operands and image data that no operator introduces: nothing. -/
theorem reading_operands_imageData (hops : ∀ t ∈ ops, t.isOperand = true) (span : Span) :
    p.readFrom 0 0 [] (ops ++ [.imageData span]) = ⟨[], []⟩ := by
  rw [readFrom_operands hops, readFrom, readFrom]

/-! ### Boundaries -/

/-- The instructions before an operator, its own, and those after it. The operator takes what
operands are left over by those before, and leaves none. -/
theorem instructionsFrom_operator {rest : List Token} {op : Operator}
    (hspelled : ∀ i ∈ p.instructionsFrom 0 [] front, i.isMisspelled = false)
    (hop : op ≠ .known .beginImage) :
    p.instructionsFrom 0 [] (front ++ .operator op :: rest) =
      p.instructionsFrom 0 [] front ++
        .operate op (p.readFrom 0 0 [] front).left :: p.instructionsFrom 0 [] rest := by
  have hoperator : p.instructionsFrom 0 (p.readFrom 0 0 [] front).left (.operator op :: rest) =
      .operate op (p.readFrom 0 0 [] front).left :: p.instructionsFrom 0 [] rest := by
    rw [instructionsFrom]
    exact fun h => hop h
  have happend : p.instructionsFrom 0 [] (front ++ .operator op :: rest) =
      p.instructionsFrom 0 [] front ++
        p.instructionsFrom 0 (p.readFrom 0 0 [] front).left (.operator op :: rest) :=
    instructionsFrom_append (Nat.zero_le _) hspelled _
  rw [happend, hoperator]

/-- What is spelled out correctly is the same wherever it is carried over to, for only a misspelled
image quotes tokens. -/
theorem instructionsFrom_shift_of_spelled
    (hspelled : ∀ i ∈ p.instructionsFrom 0 [] front, i.isMisspelled = false)
    (hcarries : p.Carries r arena source front) :
    r.instructionsFrom 0 [] (Token.shiftAll arena source front) =
      p.instructionsFrom 0 [] front := by
  rw [instructionsFrom_shift hcarries]
  refine (List.map_congr_left fun i hi => ?_).trans (List.map_id _)
  have hcorrect := hspelled i hi
  cases i with
  | misspelled flaw => cases hcorrect
  | _ => rfl

/-- The instructions end with an inline image that is misspelled, if no more tokens can make it
complete. -/
theorem instructionsFrom_append_of_misspelled {passed : Nat} {operands : List Operand}
    {ts : List Token} (himages : Token.imagesEnd ts = true)
    (hmisspelled : ∃ i ∈ p.instructionsFrom passed operands ts, i.isMisspelled = true)
    (more : List Token) :
    p.instructionsFrom passed operands (ts ++ more) = p.instructionsFrom passed operands ts := by
  fun_induction instructionsFrom p passed operands ts with
  | case1 => simp at hmisspelled
  | case2 passed operands t ts ih =>
      rw [List.cons_append, instructionsFrom,
        ih (Bool.and_eq_true_iff.mp himages).2 hmisspelled]
  | case3 operands ts flaw hflaw =>
      have hdata : (ts.drop 0).any Token.isImageData = true := (Bool.and_eq_true_iff.mp himages).1
      simp only [List.cons_append, instructionsFrom, InlineImage.readEntries_append hdata, hflaw]
  | case4 operands ts image himage ih =>
      obtain ⟨hdata, himages⟩ := Bool.and_eq_true_iff.mp himages
      have hdata : (ts.drop 0).any Token.isImageData = true := hdata
      have hrest : ∃ i ∈ p.instructionsFrom image.count [] ts, i.isMisspelled = true := by
        simpa [Instruction.isMisspelled] using hmisspelled
      simp only [List.cons_append, instructionsFrom, InlineImage.readEntries_append hdata, himage,
        ih himages hrest]
  | case5 operands ts op hop ih =>
      have hrest : ∃ i ∈ p.instructionsFrom 0 [] ts, i.isMisspelled = true := by
        simpa [Instruction.isMisspelled] using hmisspelled
      rw [List.cons_append, instructionsFrom, ih (Bool.and_eq_true_iff.mp himages).2 hrest]
      exact hop
  | case6 operands ts span ih =>
      rw [List.cons_append, instructionsFrom, ih (Bool.and_eq_true_iff.mp himages).2 hmisspelled]
  | case7 operands ts t hbegin hop hdata ih =>
      rw [List.cons_append, instructionsFrom, ih (Bool.and_eq_true_iff.mp himages).2 hmisspelled]
      all_goals assumption

/-- There is a **boundary** of a program after some tokens from its beginning, or from another
boundary: no operands are left over, and no inline image is without its data. -/
structure Boundary (p : Program) (front : List Token) : Prop where
  left : (p.readFrom 0 0 [] front).left = []
  images : Token.imagesEnd front = true

/-- A boundary of a program is one of any program that its tokens are carried over into. -/
theorem Boundary.shift (h : p.Boundary front) (hcarries : p.Carries r arena source front) :
    r.Boundary (Token.shiftAll arena source front) where
  left := by
    rw [readFrom_shift hcarries]
    exact h.left
  images := by
    rw [Token.imagesEnd_shiftAll]
    exact h.images

/-- Some tokens are **complete**: they are instructions that are spelled out correctly, and nothing
is left over. -/
structure Complete (p : Program) (ts : List Token) : Prop where
  left : (p.readFrom 0 0 [] ts).left = []
  spelled : ∀ i ∈ p.instructionsFrom 0 [] ts, i.isMisspelled = false

namespace Complete

/-- Tokens are complete if they read as instructions none of which is misspelled, with nothing left
over. -/
theorem of_reading {placed : List (Nat × Instruction)}
    (h : p.readFrom 0 0 [] front = ⟨placed, []⟩)
    (hspelled : ∀ i ∈ placed.map Prod.snd, i.isMisspelled = false) :
    p.Complete front ∧ p.instructionsFrom 0 [] front = placed.map Prod.snd := by
  have hinstructions : p.instructionsFrom 0 [] front = placed.map Prod.snd := by
    rw [← map_snd_readFrom 0, h]
  exact ⟨⟨congrArg Reading.left h, hinstructions ▸ hspelled⟩, hinstructions⟩

/-- After tokens that are complete a program begins anew. -/
theorem instructionsFrom_append (h : p.Complete front) (more : List Token) :
    p.instructionsFrom 0 [] (front ++ more) =
      p.instructionsFrom 0 [] front ++ p.instructionsFrom 0 [] more := by
  have happend : p.instructionsFrom 0 [] (front ++ more) =
      p.instructionsFrom 0 [] front ++
        p.instructionsFrom 0 (p.readFrom 0 0 [] front).left more :=
    Program.instructionsFrom_append (Nat.zero_le _) h.spelled more
  rwa [h.left] at happend

end Complete

/-- At a boundary either nothing is read any more, since there is an inline image before that is
misspelled, or a program begins anew. The same is true of the tokens carried over. -/
theorem Boundary.instructionsFrom_append (h : p.Boundary front)
    (hcarries : p.Carries r arena source front) :
    ((∃ i ∈ p.instructionsFrom 0 [] front, i.isMisspelled = true) ∧
      (∀ more, p.instructionsFrom 0 [] (front ++ more) = p.instructionsFrom 0 [] front) ∧
      ∀ more, r.instructionsFrom 0 [] (Token.shiftAll arena source front ++ more) =
        r.instructionsFrom 0 [] (Token.shiftAll arena source front)) ∨
    ((∀ more, p.instructionsFrom 0 [] (front ++ more) =
        p.instructionsFrom 0 [] front ++ p.instructionsFrom 0 [] more) ∧
      ∀ more, r.instructionsFrom 0 [] (Token.shiftAll arena source front ++ more) =
        p.instructionsFrom 0 [] front ++ r.instructionsFrom 0 [] more) := by
  have hshift := h.shift hcarries
  by_cases hspelled : ∀ i ∈ p.instructionsFrom 0 [] front, i.isMisspelled = false
  · have hfront := instructionsFrom_shift_of_spelled hspelled hcarries
    refine .inr ⟨Complete.instructionsFrom_append ⟨h.left, hspelled⟩, ?_⟩
    rw [← hfront] at hspelled ⊢
    exact Complete.instructionsFrom_append ⟨hshift.left, hspelled⟩
  · obtain ⟨i, hi, hmisspelled⟩ : ∃ i ∈ p.instructionsFrom 0 [] front, i.isMisspelled = true := by
      simpa using hspelled
    have hi' : i.shift arena source ∈
        r.instructionsFrom 0 [] (Token.shiftAll arena source front) := by
      rw [instructionsFrom_shift hcarries]
      exact List.mem_map_of_mem hi
    have hmisspelled' : (i.shift arena source).isMisspelled = true := by
      cases i with
      | misspelled flaw => rfl
      | _ => cases hmisspelled
    exact .inl ⟨⟨i, hi, hmisspelled⟩,
      instructionsFrom_append_of_misspelled h.images ⟨i, hi, hmisspelled⟩,
      instructionsFrom_append_of_misspelled hshift.images ⟨_, hi', hmisspelled'⟩⟩

/-! ### One place -/

/-- The program `r` is `p` with a fragment **inserted** at a boundary. What comes after it is found
further on. -/
structure Inserts (p r : Program) (front fragment back : List Token) (arena source : Nat) :
    Prop where
  tokens : p.tokens = front ++ back
  tokens' : r.tokens = front ++ (fragment ++ Token.shiftAll arena source back)
  boundary : p.Boundary front
  carries_front : p.Carries r 0 0 front
  carries_back : p.Carries r arena source back

/-- The instructions of a program with a fragment inserted that is complete. They may end before it
with an inline image that is misspelled. -/
theorem Inserts.instructions_eq (h : p.Inserts r front fragment back arena source)
    (hfragment : r.Complete fragment) :
    (p.instructions = p.instructionsFrom 0 [] front ∧
      r.instructions = p.instructionsFrom 0 [] front ∧
      ∃ i ∈ p.instructionsFrom 0 [] front, i.isMisspelled = true) ∨
    (p.instructions = p.instructionsFrom 0 [] front ++ p.instructionsFrom 0 [] back ∧
      r.instructions = p.instructionsFrom 0 [] front ++ (r.instructionsFrom 0 [] fragment ++
        (p.instructionsFrom 0 [] back).map (Instruction.shift arena source))) := by
  rw [instructions, instructions, h.tokens, h.tokens']
  have hfront := instructionsFrom_shift h.carries_front 0 []
  have happend := h.boundary.instructionsFrom_append h.carries_front
  rw [Token.shiftAll_zero] at hfront happend
  obtain ⟨hmisspelled, hp, hr⟩ | ⟨hp, hr⟩ := happend
  · refine .inl ⟨hp back, ?_, hmisspelled⟩
    rw [hr, hfront, List.map_congr_left fun i _ => i.shift_zero, List.map_id']
  · refine .inr ⟨hp back, ?_⟩
    rw [hr, hfragment.instructionsFrom_append, instructionsFrom_shift h.carries_back]

/-! ### Many places -/

/-- Tokens of `p` are those of `r` with others **spliced in** between, at boundaries. All the
instructions of what is spliced in are of some kind. -/
inductive Splices (p r : Program) (extra : Instruction → Prop) : List Token → List Token → Prop
  | carry {ts : List Token} {arena source : Nat} (h : p.Carries r arena source ts) :
      Splices p r extra ts (Token.shiftAll arena source ts)
  | insert {front fragment back back' : List Token} {arena source : Nat}
      (hboundary : p.Boundary front) (hcarries : p.Carries r arena source front)
      (hfragment : r.Complete fragment)
      (hextra : ∀ i ∈ r.instructionsFrom 0 [] fragment, extra i)
      (hback : Splices p r extra back back') :
      Splices p r extra (front ++ back) (Token.shiftAll arena source front ++ (fragment ++ back'))

end Program

/-- Instructions with others **woven in**. An inline image that is misspelled may quote something
else. -/
inductive Woven (extra : Instruction → Prop) : List Instruction → List Instruction → Prop
  | nil : Woven extra [] []
  | keep (i : Instruction) {is js : List Instruction} :
      Woven extra is js → Woven extra (i :: is) (i :: js)
  | extra {i : Instruction} {is js : List Instruction} (hi : extra i) :
      Woven extra is js → Woven extra is (i :: js)
  | misspelled (flaw flaw' : ImageFlaw) {is js : List Instruction} :
      Woven extra is js → Woven extra (.misspelled flaw :: is) (.misspelled flaw' :: js)

namespace Woven

variable {extra : Instruction → Prop} {is js : List Instruction}

/-- Instructions further on are the same with nothing woven in. -/
theorem shift (arena source : Nat) (is : List Instruction) :
    Woven extra is (is.map (Instruction.shift arena source)) := by
  induction is with
  | nil => exact .nil
  | cons i is ih =>
      cases i with
      | misspelled flaw => exact .misspelled flaw _ ih
      | _ => exact .keep _ ih

/-- What is woven in behind some instructions is woven in behind them all. -/
theorem append_left (front : List Instruction) (h : Woven extra is js) :
    Woven extra (front ++ is) (front ++ js) := by
  induction front with
  | nil => exact h
  | cons i front ih => exact .keep i ih

/-- More instructions may be woven in at the front. -/
theorem insert {fragment : List Instruction} (hextra : ∀ i ∈ fragment, extra i)
    (h : Woven extra is js) : Woven extra is (fragment ++ js) := by
  induction fragment with
  | nil => exact h
  | cons i fragment ih =>
      obtain ⟨hi, hextra⟩ := List.forall_mem_cons.mp hextra
      exact .extra hi (ih hextra)

/-- The parts of a list can be found in the list with others woven in. What is woven in between them
is counted to the first part. -/
theorem exists_append {later : List Instruction} (h : Woven extra (is ++ later) js) :
    ∃ is' later', js = is' ++ later' ∧ Woven extra is is' ∧ Woven extra later later' := by
  generalize hall : is ++ later = all at h
  induction h generalizing is with
  | nil =>
      obtain ⟨rfl, rfl⟩ := List.append_eq_nil_iff.mp hall
      exact ⟨[], [], rfl, .nil, .nil⟩
  | @keep i all js h ih =>
      cases is with
      | nil =>
          obtain rfl : later = i :: all := hall
          exact ⟨[], i :: js, rfl, .nil, .keep i h⟩
      | cons j is =>
          obtain ⟨rfl, hrest⟩ := List.cons.inj hall
          obtain ⟨is', later', rfl, his, hlater⟩ := ih hrest
          exact ⟨j :: is', later', rfl, .keep j his, hlater⟩
  | @extra i all js hi h ih =>
      obtain ⟨is', later', rfl, his, hlater⟩ := ih hall
      exact ⟨i :: is', later', rfl, .extra hi his, hlater⟩
  | @misspelled flaw flaw' all js h ih =>
      cases is with
      | nil =>
          obtain rfl : later = .misspelled flaw :: all := hall
          exact ⟨[], .misspelled flaw' :: js, rfl, .nil, .misspelled flaw flaw' h⟩
      | cons j is =>
          obtain ⟨rfl, hrest⟩ := List.cons.inj hall
          obtain ⟨is', later', rfl, his, hlater⟩ := ih hrest
          exact ⟨.misspelled flaw' :: is', later', rfl, .misspelled flaw flaw' his, hlater⟩

end Woven

/-- The instructions of tokens, with those of what is spliced in woven in. The induction is on how
the tokens are spliced, and at each boundary either nothing is read any more or a program begins
anew. -/
theorem Program.Splices.woven {p r : Program} {extra : Instruction → Prop} {ts ts' : List Token}
    (h : p.Splices r extra ts ts') :
    Woven extra (p.instructionsFrom 0 [] ts) (r.instructionsFrom 0 [] ts') := by
  induction h with
  | carry h =>
      rw [instructionsFrom_shift h]
      exact .shift _ _ _
  | insert hboundary hcarries hfragment hextra _ ih =>
      obtain ⟨-, hp, hr⟩ | ⟨hp, hr⟩ := hboundary.instructionsFrom_append hcarries
      · rw [hp, hr, instructionsFrom_shift hcarries]
        exact .shift _ _ _
      · rw [hp, hr, hfragment.instructionsFrom_append]
        exact .append_left _ (.insert hextra ih)

end ContentStream
