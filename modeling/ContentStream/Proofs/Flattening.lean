import ContentStream.Proofs.RoundTrip

/-!
# Tokens and their lexemes

An array is a token that holds tokens, so a program is a list of trees. Written down one after the
other, with brackets around the tokens of an array, they are the lexemes that the program was made
of: gathering lexemes into tokens and *flattening* the tokens undo one another. Strings and names
are written down with their bytes, for the places where they are kept depend on what came before.

Two programs have the same tokens if they are built alike, at every array level, and what stands in
one for the bytes of a string or the value of a number stands for the same in the other. They have
the same tokens exactly if they have the same lexemes. So what is to be shown of trees can be shown
of sequences.

## Main definitions

* `Token.Alike`: tokens of two programs that come to the same, and `Lexeme.Alike`.
* `Token.lexemes`: a token flattened.
* `Scan.Spells`: a scan reads lexemes like given ones, to the end.

## Main results

* `lexemesAll_tokenize`: flattening undoes gathering.
* `exists_tokenize_alike_iff`: bytes are tokenized to the tokens of a program exactly if their scan
  spells these.
-/

namespace ContentStream

/-! ### Tokens that come to the same -/

/-- Lexemes that **come to the same**. Of numbers the values count. Data of inline images come to
the same as nothing. -/
inductive Lexeme.Alike : Lexeme → Lexeme → Prop
  | operator (op : Operator) : Alike (.operator op) (.operator op)
  | string (bytes : Bytes) : Alike (.string bytes) (.string bytes)
  | number {n n' : Numeral} (h : (n.value == n'.value) = true) : Alike (.number n) (.number n')
  | name (bytes : Bytes) : Alike (.name bytes) (.name bytes)
  | boolean (value : Bool) : Alike (.boolean value) (.boolean value)
  | dictOpen : Alike .dictOpen .dictOpen
  | dictClose : Alike .dictClose .dictClose
  | arrayOpen : Alike .arrayOpen .arrayOpen
  | arrayClose : Alike .arrayClose .arrayClose

/-- Tokens of two programs that **come to the same**: operators and truth values are equal, strings
and names decode to the same bytes, numbers have the same value, and the tokens of arrays come to
the same one by one. -/
inductive Token.Alike (p q : Program) : Token → Token → Prop
  | operator (op : Operator) : Alike p q (.operator op) (.operator op)
  | string {s s' : Span} (h : p.decoded s = q.decoded s') : Alike p q (.string s) (.string s')
  | number {n n' : Numeral} (h : (n.value == n'.value) = true) : Alike p q (.number n) (.number n')
  | array {items items' : List Token} (h : List.Forall₂ (Alike p q) items items') :
      Alike p q (.array items) (.array items')
  | name {s s' : Span} (h : p.decoded s = q.decoded s') : Alike p q (.name s) (.name s')
  | dictOpen : Alike p q .dictOpen .dictOpen
  | dictClose : Alike p q .dictClose .dictClose
  | boolean (value : Bool) : Alike p q (.boolean value) (.boolean value)

/-! ### Flattening -/

mutual

/-- A token **flattened**: the lexemes that it is made of. Of the data of an inline image it only
says that they are there. -/
def Token.lexemes (p : Program) : Token → List Lexeme
  | .operator op => [.operator op]
  | .string span => [.string (p.decoded span)]
  | .number numeral => [.number numeral]
  | .array items => .arrayOpen :: (Token.lexemesAll p items ++ [.arrayClose])
  | .name span => [.name (p.decoded span)]
  | .dictOpen => [.dictOpen]
  | .dictClose => [.dictClose]
  | .boolean value => [.boolean value]
  | .imageData _ => [.imageData 0 []]

/-- Tokens **flattened**, one after the other. -/
def Token.lexemesAll (p : Program) : List Token → List Lexeme
  | [] => []
  | t :: ts => t.lexemes p ++ Token.lexemesAll p ts

end

/-- A lexeme **without the data** of an inline image, if it is one. -/
def Lexeme.bare : Lexeme → Lexeme
  | imageData _ _ => imageData 0 []
  | lexeme => lexeme

/-- Lexemes come to the same with or without data of inline images. -/
theorem Lexeme.bare_alike_iff {x y : Lexeme} : x.bare.Alike y ↔ x.Alike y := by
  cases x with
  | imageData lead data => exact ⟨nofun, nofun⟩
  | _ => exact .rfl

/-- That the other lexeme has no data makes no difference, either. -/
theorem Lexeme.alike_bare_iff {x y : Lexeme} : x.Alike y.bare ↔ x.Alike y := by
  cases y with
  | imageData lead data => exact ⟨nofun, nofun⟩
  | _ => exact .rfl

/-- Operators have no data, and what is an operator without them was one with them. -/
theorem Lexeme.eq_operator_of_bare {x : Lexeme} {op : Operator} (h : x.bare = .operator op) :
    x = .operator op := by
  cases x with
  | imageData lead data => cases h
  | _ => exact h

/-- Tokens are flattened one list after the other. -/
theorem Token.lexemesAll_append (p : Program) (ts ts' : List Token) :
    lexemesAll p (ts ++ ts') = lexemesAll p ts ++ lexemesAll p ts' := by
  induction ts with
  | nil => rfl
  | cons t ts ih => rw [List.cons_append, lexemesAll, lexemesAll, ih, List.append_assoc]

variable {p q : Program}

mutual

/-- Tokens that come to the same are made of lexemes that do. The induction is on tokens, together
with the lists in arrays. -/
theorem Token.Alike.lexemes {t t' : Token} : t.Alike p q t' →
    List.Forall₂ Lexeme.Alike (t.lexemes p) (t'.lexemes q)
  | .operator op => .cons (.operator op) .nil
  | .string h => by
      rw [Token.lexemes, Token.lexemes, h]
      exact .cons (.string _) .nil
  | .number h => .cons (.number h) .nil
  | .array h =>
      .cons .arrayOpen (List.rel_append (Token.alike_lexemesAll h) (.cons .arrayClose .nil))
  | .name h => by
      rw [Token.lexemes, Token.lexemes, h]
      exact .cons (.name _) .nil
  | .dictOpen => .cons .dictOpen .nil
  | .dictClose => .cons .dictClose .nil
  | .boolean value => .cons (.boolean value) .nil

/-- This is so for lists of tokens. -/
theorem Token.alike_lexemesAll {ts ts' : List Token} : List.Forall₂ (Token.Alike p q) ts ts' →
    List.Forall₂ Lexeme.Alike (Token.lexemesAll p ts) (Token.lexemesAll q ts')
  | .nil => .nil
  | .cons h hs => List.rel_append h.lexemes (Token.alike_lexemesAll hs)

end

/-! ### Gathering and flattening -/

/-- What has been **gathered so far**, on all levels that are open, flattened. -/
def openLexemes (p : Program) : (level : List Token) → (outer : List (List Token)) → List Lexeme
  | level, [] => Token.lexemesAll p level.reverse
  | level, around :: outer =>
    openLexemes p around outer ++ .arrayOpen :: Token.lexemesAll p level.reverse

/-- A token that is gathered comes last, after all that was gathered before, since the levels that
are open are listed from the inside. -/
theorem openLexemes_cons (p : Program) (t : Token) (level : List Token)
    (outer : List (List Token)) :
    openLexemes p (t :: level) outer = openLexemes p level outer ++ t.lexemes p := by
  have hlevel : Token.lexemesAll p (t :: level).reverse =
      Token.lexemesAll p level.reverse ++ t.lexemes p := by
    rw [List.reverse_cons, Token.lexemesAll_append, Token.lexemesAll, Token.lexemesAll,
      List.append_nil]
  cases outer with
  | nil => exact hlevel
  | cons around outer => rw [openLexemes, hlevel, openLexemes, List.append_assoc, List.cons_append]

/-- The token of a lexeme is made of it, if its bytes are in the arena where they belong. Only
strings and names have any. -/
theorem Lexeme.lexemes_of_token? {lexeme : Lexeme} {position : Nat} {before after : Bytes}
    {t : Token} (ht : lexeme.token? position before.length = some t)
    (harena : p.arena = before ++ (lexeme.decoded ++ after)) : t.lexemes p = [lexeme.bare] := by
  cases lexeme with
  | arrayOpen | arrayClose => cases ht
  | string bytes | name bytes =>
      obtain rfl := Option.some.inj ht
      have hbytes : p.decoded ⟨before.length, bytes.length⟩ = bytes :=
        Program.decoded_of_arena harena
      rw [Token.lexemes, hbytes]
      rfl
  | _ =>
      obtain rfl := Option.some.inj ht
      rfl

/-- A lexeme that is no bracket of an array has a token. -/
theorem Lexeme.exists_token? {lexeme : Lexeme} (hopen : lexeme = .arrayOpen → False)
    (hclose : lexeme = .arrayClose → False) (position used : Nat) :
    ∃ t, lexeme.token? position used = some t := by
  cases lexeme with
  | arrayOpen => exact absurd rfl hopen
  | arrayClose => exact absurd rfl hclose
  | _ => exact ⟨_, rfl⟩

/-- The tokens that are gathered from lexemes, flattened, are what was gathered before and the
lexemes. The bytes in front of each lexeme are in the arena already, which carries the induction. -/
theorem lexemesAll_assemble (before : Bytes) {level tokens : List Token}
    {outer : List (List Token)} {lexemes : List Placed} {stop : Stop}
    (h : assemble before.length level outer lexemes stop = .ok tokens)
    (harena : p.arena = before ++ lexemes.flatMap fun x => x.lexeme.decoded) :
    Token.lexemesAll p tokens =
      openLexemes p level outer ++ lexemes.map fun x => x.lexeme.bare := by
  generalize hused : before.length = used at h
  fun_induction assemble used level outer lexemes stop generalizing before with
  | case1 used level position =>
      obtain rfl := Except.ok.inj h
      exact (List.append_nil _).symm
  | case2 used level around outer position => cases h
  | case3 used level outer position flaw => cases h
  | case4 used level outer position rest stop ih =>
      rw [ih before harena hused h, openLexemes, List.append_assoc]
      rfl
  | case5 used level position rest stop => cases h
  | case6 used level position rest stop around outer ih =>
      rw [ih before harena hused h, openLexemes_cons, Token.lexemes, openLexemes, List.map_cons]
      simp only [List.append_assoc, List.cons_append, List.nil_append]
      rfl
  | case7 used level outer position rest stop lexeme hopen hclose ih =>
      subst hused
      obtain ⟨t, ht⟩ := Lexeme.exists_token? hopen hclose position before.length
      rw [List.flatMap_cons] at harena
      rw [ih (before ++ lexeme.decoded) (by rw [harena, List.append_assoc]) List.length_append h,
        ht, Option.toList_some, List.singleton_append, openLexemes_cons,
        Lexeme.lexemes_of_token? ht harena, List.append_assoc]
      rfl

/-- **Flattening undoes gathering**: the tokens of a program are made of the lexemes that were
scanned. -/
theorem lexemesAll_tokenize {strict : Bool} {source : Bytes} (h : tokenize strict source = .ok p) :
    Token.lexemesAll p p.tokens = (scan strict source).lexemes.map fun x => x.lexeme.bare := by
  obtain ⟨-, harena, htokens⟩ := scan_of_tokenize h
  exact lexemesAll_assemble [] htokens harena

/-! ### Gathering lexemes that come to the same -/

/-- Lexemes that come to the same make tokens that do, if their bytes are in the arenas where they
belong. -/
theorem Lexeme.Alike.token? {x y : Lexeme} (h : x.Alike y) {position : Nat} (position' : Nat)
    {before before' after after' : Bytes} {t : Token}
    (ht : x.token? position before.length = some t)
    (hp : p.arena = before ++ (x.decoded ++ after))
    (hq : q.arena = before' ++ (y.decoded ++ after')) :
    ∃ t', y.token? position' before'.length = some t' ∧ t.Alike p q t' := by
  cases h with
  | arrayOpen | arrayClose => cases ht
  | string bytes =>
      obtain rfl := Option.some.inj ht
      exact ⟨_, rfl,
        .string ((Program.decoded_of_arena hp).trans (Program.decoded_of_arena hq).symm)⟩
  | name bytes =>
      obtain rfl := Option.some.inj ht
      exact ⟨_, rfl,
        .name ((Program.decoded_of_arena hp).trans (Program.decoded_of_arena hq).symm)⟩
  | operator op =>
      obtain rfl := Option.some.inj ht
      exact ⟨_, rfl, .operator op⟩
  | number hvalue =>
      obtain rfl := Option.some.inj ht
      exact ⟨_, rfl, .number hvalue⟩
  | boolean value =>
      obtain rfl := Option.some.inj ht
      exact ⟨_, rfl, .boolean value⟩
  | dictOpen =>
      obtain rfl := Option.some.inj ht
      exact ⟨_, rfl, .dictOpen⟩
  | dictClose =>
      obtain rfl := Option.some.inj ht
      exact ⟨_, rfl, .dictClose⟩

/-- Lexemes that come to the same are gathered into tokens that do. The induction is on both lists
at once, with levels that are alike one by one, although the spans in them differ. -/
theorem assemble_alike {lexemes lexemes' : List Placed}
    (h : List.Forall₂ (fun x y => x.lexeme.Alike y.lexeme) lexemes lexemes')
    (before before' : Bytes) (hp : p.arena = before ++ lexemes.flatMap fun x => x.lexeme.decoded)
    (hq : q.arena = before' ++ lexemes'.flatMap fun x => x.lexeme.decoded)
    {level level' : List Token} (hlevel : List.Forall₂ (Token.Alike p q) level level')
    {outer outer' : List (List Token)}
    (houter : List.Forall₂ (List.Forall₂ (Token.Alike p q)) outer outer') {stop : Stop}
    {tokens : List Token} (hok : assemble before.length level outer lexemes stop = .ok tokens)
    (position : Nat) :
    ∃ tokens', assemble before'.length level' outer' lexemes' (.finished position) = .ok tokens' ∧
      List.Forall₂ (Token.Alike p q) tokens tokens' := by
  induction h generalizing before before' level level' outer outer' with
  | nil =>
      cases houter with
      | nil =>
          cases stop with
          | finished stop =>
              obtain rfl := Except.ok.inj hok
              exact ⟨_, rfl, List.rel_reverse hlevel⟩
          | flawed stop flaw => cases hok
      | cons _ _ => cases stop <;> cases hok
  | @cons x y lexemes lexemes' hx _ ih =>
      obtain ⟨position, x⟩ := x
      obtain ⟨position', y⟩ := y
      rw [List.flatMap_cons] at hp hq
      by_cases hopen : x = .arrayOpen
      · subst hopen
        obtain _ | _ := hx
        rw [assemble] at hok ⊢
        exact ih before before' hp hq .nil (.cons hlevel houter) hok
      by_cases hclose : x = .arrayClose
      · subst hclose
        obtain _ | _ := hx
        cases houter with
        | nil => cases hok
        | cons haround houter =>
            exact ih before before' hp hq (.cons (.array (List.rel_reverse hlevel)) haround)
              houter hok
      · have hopen' : y = .arrayOpen → False := by
          rintro rfl
          obtain _ | _ := hx
          exact hopen rfl
        have hclose' : y = .arrayClose → False := by
          rintro rfl
          obtain _ | _ := hx
          exact hclose rfl
        obtain ⟨t, ht⟩ := Lexeme.exists_token? hopen hclose position before.length
        obtain ⟨t', ht', halike⟩ := Lexeme.Alike.token? hx position' ht hp hq
        rw [assemble_cons hopen hclose, ht, ← List.length_append] at hok
        rw [assemble_cons hopen' hclose', ht', ← List.length_append]
        exact ih _ _ (by rw [hp, List.append_assoc]) (by rw [hq, List.append_assoc])
          (.cons halike hlevel) houter hok

/-! ### Scans -/

/-- A scan **spells lexemes** if it reads lexemes that come to the same one by one, and comes to the
end. -/
structure Scan.Spells (s : Scan) (lexemes : List Lexeme) : Prop where
  alike : List.Forall₂ Lexeme.Alike lexemes (s.lexemes.map Placed.lexeme)
  finished : ∃ position, s.stop = .finished position

/-- Bytes are **tokenized to the tokens of a program** exactly if their scan spells the lexemes that
these are made of. -/
theorem exists_tokenize_alike_iff {strict strict' : Bool} {source source' : Bytes}
    (h : tokenize strict source = .ok p) :
    (∃ q, tokenize strict' source' = .ok q ∧
      List.Forall₂ (Token.Alike p q) p.tokens q.tokens) ↔
      (scan strict' source').Spells (Token.lexemesAll p p.tokens) := by
  constructor
  · rintro ⟨q, hq, halike⟩
    have hlexemes := Token.alike_lexemesAll halike
    rw [lexemesAll_tokenize hq, List.forall₂_map_right_iff] at hlexemes
    refine ⟨List.forall₂_map_right_iff.mpr (hlexemes.imp fun _ _ => Lexeme.alike_bare_iff.mp), ?_⟩
    obtain ⟨-, -, htokens⟩ := scan_of_tokenize hq
    exact (assemble_append htokens).1
  · rintro ⟨halike, position, hstop⟩
    rw [lexemesAll_tokenize h, List.forall₂_map_left_iff, List.forall₂_map_right_iff] at halike
    have hlexemes : List.Forall₂ (fun x y : Placed => x.lexeme.Alike y.lexeme) _ _ :=
      halike.imp fun _ _ => Lexeme.bare_alike_iff.mp
    obtain ⟨-, harena, htokens⟩ := scan_of_tokenize h
    -- the tokens depend on the arena of their program alone, which is known before they are
    have hgather (ts : List Token) := assemble_alike
      (q := ⟨source', (scan strict' source').arena, ts⟩) hlexemes [] [] harena rfl .nil .nil htokens
      position
    obtain ⟨tokens', htokens', -⟩ := hgather []
    obtain ⟨tokens'', htokens'', htokensAlike⟩ := hgather tokens'
    obtain rfl := Except.ok.inj (htokens'.symm.trans htokens'')
    have hscan : (scan strict' source').tokens = .ok tokens' := by
      rw [Scan.tokens, hstop]
      exact htokens'
    exact ⟨_, by rw [tokenize_eq, hscan]; rfl, htokensAlike⟩

end ContentStream
