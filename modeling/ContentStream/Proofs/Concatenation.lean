import ContentStream.Proofs.Locality

/-!
# Concatenation

Content streams may be written in pieces. If one can be tokenized by itself, and another is put on
the next line, the tokens of the two together are those of the one followed by those of the other:
the strings and names of the second are found further on in the arena, its inline image data further
on in the source. If the second cannot be tokenized, it fails in the same way, further on.

Both steps of tokenizing have this property. A scan that comes to the end goes on into the next line
as if it started there, since every lexeme is local. And lexemes that have been gathered into
tokens, with all arrays closed, are left behind by those that come after.

## Main definitions

* `Token.shift`: a token whose arena and source begin further on.

## Main results

* `scanFrom_append_line`: the scan of two lines.
* `assemble_append`: gathering goes on after what was gathered before.
* `assemble_ground`: what was gathered before is not touched.
* `assemble_shift`: gathering further on gives tokens further on.
* `tokenize_append_line`: tokenizing two lines.
-/

namespace ContentStream

/-! ### Further on -/

mutual

/-- A token of which the **arena and the source begin further on**, by so many bytes each. -/
def Token.shift (arena source : Nat) : Token → Token
  | .string span => .string { span with start := span.start + arena }
  | .name span => .name { span with start := span.start + arena }
  | .imageData span => .imageData { span with start := span.start + source }
  | .array items => .array (Token.shiftAll arena source items)
  | .operator op => .operator op
  | .number numeral => .number numeral
  | .dictOpen => .dictOpen
  | .dictClose => .dictClose
  | .boolean value => .boolean value

/-- The **tokens of an array** further on. -/
def Token.shiftAll (arena source : Nat) : List Token → List Token
  | [] => []
  | t :: ts => t.shift arena source :: Token.shiftAll arena source ts

end

/-- Tokens further on are each of them further on. -/
theorem Token.shiftAll_eq_map (arena source : Nat) (ts : List Token) :
    Token.shiftAll arena source ts = ts.map (Token.shift arena source) := by
  induction ts with
  | nil => rfl
  | cons t ts ih => rw [shiftAll, ih, List.map_cons]

/-- In reverse, too. -/
theorem Token.shiftAll_reverse (arena source : Nat) (ts : List Token) :
    Token.shiftAll arena source ts.reverse = (Token.shiftAll arena source ts).reverse := by
  rw [shiftAll_eq_map, shiftAll_eq_map, List.map_reverse]

/-- A token that may be there is moved with those that follow. -/
theorem Token.shiftAll_append (arena source : Nat) (t? : Option Token) (ts : List Token) :
    Token.shiftAll arena source (t?.toList ++ ts) =
      (t?.map (Token.shift arena source)).toList ++ Token.shiftAll arena source ts := by
  cases t? <;> rfl

/-- A lexeme makes the same token further on, or none in either place. -/
theorem Lexeme.token?_shift (arena source position used : Nat) (lexeme : Lexeme) :
    lexeme.token? (position + source) (used + arena) =
      (lexeme.token? position used).map (Token.shift arena source) := by
  cases lexeme with
  | imageData lead data => simp only [token?, Option.map_some, Token.shift, Nat.add_right_comm]
  | _ => rfl

/-- A lexeme **further on**. -/
def Placed.shift (source : Nat) (x : Placed) : Placed :=
  { x with position := x.position + source }

/-- A lexeme further on has another place. -/
theorem Placed.shift_mk (source position : Nat) (lexeme : Lexeme) :
    Placed.shift source ⟨position, lexeme⟩ = ⟨position + source, lexeme⟩ :=
  rfl

/-- A stop **further on**. -/
def Stop.shift (source : Nat) : Stop → Stop
  | .finished position => .finished (position + source)
  | .flawed position flaw => .flawed (position + source) flaw

/-- A scan **further on**. -/
def Scan.shift (source : Nat) (s : Scan) : Scan where
  lexemes := s.lexemes.map (Placed.shift source)
  stop := s.stop.shift source

/-- A lexical fault **further on**. -/
def Fault.shift (source : Nat) : Fault → Fault
  | .lexical position flaw => .lexical (position + source) flaw
  | fault => fault

/-! ### Scanning -/

/-- Bytes that begin further on are scanned in the same way. The scan looks at no byte before, and
what it notes of places are places in the arena and in the source. -/
theorem scanFrom_shift (strict : Bool) (source position passed : Nat) (a : Bytes) :
    scanFrom strict (position + source) passed a =
      (scanFrom strict position passed a).shift source := by
  fun_induction scanFrom strict position passed a with
  | case1 passed position => rw [scanFrom]; rfl
  | case2 position passed x a ih => rw [scanFrom, Nat.add_right_comm, ih]
  | case3 position x a hspace ih => rw [scanFrom, if_pos hspace, Nat.add_right_comm, ih]
  | case4 position x a hspace hcomment ih =>
      rw [scanFrom, if_neg hspace, if_pos hcomment, Nat.add_right_comm, ih]
  | case5 position x a hspace hcomment offset flaw hread =>
      rw [scanFrom, if_neg hspace, if_neg hcomment, hread]
      simp only [Scan.shift, Stop.shift, List.map_nil, Nat.add_right_comm]
  | case6 position x a hspace hcomment lexeme passed hread ih =>
      rw [scanFrom, if_neg hspace, if_neg hcomment, hread, Nat.add_right_comm]
      simp only [ih]
      rfl

/-- A scan that comes to the end of some bytes goes on in the next line. Each lexeme has ended by
then, or is ended by the end of the line. -/
theorem scanFrom_append_line {strict : Bool} {position passed stop : Nat} {a : Bytes}
    (hstop : (scanFrom strict position passed a).stop = .finished stop)
    (hpassed : passed ≤ a.length) (b : Bytes) :
    scanFrom strict position passed (a ++ byte '\n' :: b) =
      ⟨(scanFrom strict position passed a).lexemes ++
        (scanFrom strict (position + (a.length + 1)) 0 b).lexemes,
        (scanFrom strict (position + (a.length + 1)) 0 b).stop⟩ := by
  fun_induction scanFrom strict position passed a with
  | case1 passed position =>
      obtain rfl : passed = 0 := Nat.le_zero.mp hpassed
      rw [List.nil_append, scanFrom, if_pos (by decide)]
      rfl
  | case2 position passed x a ih =>
      rw [List.cons_append, scanFrom, ih hstop (Nat.le_of_succ_le_succ hpassed), List.length_cons]
      simp only [Nat.add_assoc, Nat.add_comm 1]
  | case3 position x a hspace ih =>
      rw [List.cons_append, scanFrom, if_pos hspace, ih hstop (Nat.zero_le _), List.length_cons]
      simp only [Nat.add_assoc, Nat.add_comm 1]
  | case4 position x a hspace hcomment ih =>
      rw [List.cons_append, scanFrom, if_neg hspace, if_pos hcomment,
        takeWhile_append_cons (by decide : (fun c => !isLineEnd c) (byte '\n') = false),
        ih hstop (List.takeWhile_prefix _).length_le, List.length_cons]
      simp only [Nat.add_assoc, Nat.add_comm 1]
  | case5 position x a hspace hcomment offset flaw hread => simp at hstop
  | case6 position x a hspace hcomment lexeme passed hread ih =>
      obtain ⟨hle, happend⟩ := Lexeme.isLocal_read strict x a lexeme passed hread
      rw [List.cons_append, scanFrom, if_neg hspace, if_neg hcomment, happend b]
      simp only [ih hstop hle, List.length_cons, Nat.add_assoc, Nat.add_comm 1]
      rfl

/-! ### Gathering -/

/-- A lexeme that is no bracket of an array becomes a token on the present level. -/
theorem assemble_cons {lexeme : Lexeme} (hopen : lexeme = .arrayOpen → False)
    (hclose : lexeme = .arrayClose → False) (used : Nat) (level : List Token)
    (outer : List (List Token)) (position : Nat) (rest : List Placed) (stop : Stop) :
    assemble used level outer (⟨position, lexeme⟩ :: rest) stop =
      assemble (used + lexeme.decoded.length) ((lexeme.token? position used).toList ++ level) outer
        rest stop := by
  rw [assemble]
  · exact hopen
  · exact hclose

/-- Gathering further on gives tokens further on, and fails further on. The induction is that of
`assemble`, with the levels that are open moved along. -/
theorem assemble_shift (arena source used : Nat) (level : List Token)
    (outer : List (List Token)) (lexemes : List Placed) (stop : Stop) :
    assemble (used + arena) (Token.shiftAll arena source level)
        (outer.map (Token.shiftAll arena source)) (lexemes.map (Placed.shift source))
        (stop.shift source) =
      ((assemble used level outer lexemes stop).map (Token.shiftAll arena source)).mapError
        (Fault.shift source) := by
  fun_induction assemble used level outer lexemes stop with
  | case1 used level position =>
      exact congrArg Except.ok (Token.shiftAll_reverse arena source level).symm
  | case2 used level around outer position => rfl
  | case3 used level outer position flaw =>
      rw [List.map_nil, Stop.shift, assemble]
      rfl
  | case4 used level outer position rest stop ih =>
      rw [List.map_cons, Placed.shift_mk, assemble]
      exact ih
  | case5 used level position rest stop => rfl
  | case6 used level position rest stop around outer ih =>
      rw [Token.shiftAll, Token.shift, Token.shiftAll_reverse] at ih
      rw [List.map_cons, List.map_cons, Placed.shift_mk, assemble]
      exact ih
  | case7 used level outer position rest stop lexeme hopen hclose ih =>
      rw [List.map_cons, Placed.shift_mk, assemble_cons hopen hclose, ← ih,
        Lexeme.token?_shift, Token.shiftAll_append, Nat.add_right_comm]

/-- The tokens **on the level** that is open innermost, if `base` has been gathered before. -/
def groundLevel (base level : List Token) : (outer : List (List Token)) → List Token
  | [] => level ++ base
  | _ :: _ => level

/-- The tokens **on the levels around**, if `base` has been gathered before. -/
def groundOuter (base : List Token) : (outer : List (List Token)) → List (List Token)
  | [] => []
  | around :: outer => groundLevel base around outer :: groundOuter base outer

/-- Tokens that are added to a level come after what was gathered before. -/
theorem groundLevel_append (base above level : List Token) (outer : List (List Token)) :
    groundLevel base (above ++ level) outer = above ++ groundLevel base level outer := by
  cases outer with
  | nil => exact List.append_assoc above level base
  | cons around outer => rfl

/-- What was gathered before comes before what is gathered now, on the level outside of all
arrays. -/
theorem assemble_ground (base : List Token) (used : Nat) (level : List Token)
    (outer : List (List Token)) (lexemes : List Placed) (stop : Stop) :
    assemble used (groundLevel base level outer) (groundOuter base outer) lexemes stop =
      (assemble used level outer lexemes stop).map (base.reverse ++ ·) := by
  fun_induction assemble used level outer lexemes stop with
  | case1 used level position => simp [assemble, groundLevel, groundOuter, Except.map]
  | case2 used level around outer position => rfl
  | case3 used level outer position flaw =>
      rw [assemble]
      rfl
  | case4 used level outer position rest stop ih =>
      rw [assemble]
      exact ih
  | case5 used level position rest stop => rfl
  | case6 used level position rest stop around outer ih =>
      have hlevel := groundLevel_append base [.array level.reverse] around outer
      rw [List.singleton_append, List.singleton_append] at hlevel
      rw [groundOuter, assemble, ← ih, hlevel]
      rfl
  | case7 used level outer position rest stop lexeme hopen hclose ih =>
      rw [assemble_cons hopen hclose, ← groundLevel_append, ih]

/-- Gathering that succeeds goes on with further lexemes, from where it has come to: all arrays are
closed then, and the arena holds what was decoded. -/
theorem assemble_append {used : Nat} {level tokens : List Token} {outer : List (List Token)}
    {lexemes : List Placed} {stop : Stop}
    (h : assemble used level outer lexemes stop = .ok tokens) :
    (∃ position, stop = .finished position) ∧ ∀ lexemes' stop',
      assemble used level outer (lexemes ++ lexemes') stop' =
        assemble (used + (lexemes.flatMap fun x => x.lexeme.decoded).length) tokens.reverse []
          lexemes' stop' := by
  fun_induction assemble used level outer lexemes stop with
  | case1 used level position =>
      obtain rfl := Except.ok.inj h
      exact ⟨⟨position, rfl⟩, fun _ _ => by rw [List.reverse_reverse]; rfl⟩
  | case2 used level around outer position => simp at h
  | case3 used level outer position flaw => simp at h
  | case4 used level outer position rest stop ih =>
      obtain ⟨hstop, happend⟩ := ih h
      exact ⟨hstop, fun lexemes' stop' => by rw [List.cons_append, assemble, happend]; rfl⟩
  | case5 used level position rest stop => simp at h
  | case6 used level position rest stop around outer ih =>
      obtain ⟨hstop, happend⟩ := ih h
      exact ⟨hstop, fun lexemes' stop' => by rw [List.cons_append, assemble, happend]; rfl⟩
  | case7 used level outer position rest stop lexeme hopen hclose ih =>
      obtain ⟨hstop, happend⟩ := ih h
      refine ⟨hstop, fun lexemes' stop' => ?_⟩
      rw [List.cons_append, assemble_cons hopen hclose, happend, List.flatMap_cons,
        List.length_append, Nat.add_assoc]

/-- Gathering that fails does so with a lexical fault. -/
theorem exists_lexical_of_assemble {used : Nat} {level : List Token} {outer : List (List Token)}
    {lexemes : List Placed} {stop : Stop} {fault : Fault}
    (h : assemble used level outer lexemes stop = .error fault) :
    ∃ position flaw, fault = .lexical position flaw := by
  fun_induction assemble used level outer lexemes stop with
  | case1 used level position => simp at h
  | case4 _ _ _ _ _ _ ih | case6 _ _ _ _ _ _ _ ih | case7 _ _ _ _ _ _ _ _ _ ih => exact ih h
  | _ => exact ⟨_, _, (Except.error.inj h).symm⟩

/-! ### Tokenizing -/

/-- The **arena** of a scan. -/
def Scan.arena (s : Scan) : Bytes :=
  s.lexemes.flatMap fun x => x.lexeme.decoded

/-- The **tokens** of a scan. -/
def Scan.tokens (s : Scan) : Except Fault (List Token) :=
  assemble 0 [] [] s.lexemes s.stop

/-- To tokenize is to scan, and then to gather lexemes into tokens. -/
theorem tokenize_eq (strict : Bool) (source : Bytes) :
    tokenize strict source =
      (scan strict source).tokens.map fun tokens =>
        ⟨source, (scan strict source).arena, tokens⟩ := by
  rfl

/-- The tokens of a program are gathered from the scan of its source, which is where the arena comes
from, too. -/
theorem scan_of_tokenize {strict : Bool} {source : Bytes} {p : Program}
    (h : tokenize strict source = .ok p) :
    p.source = source ∧ p.arena = (scan strict source).arena ∧
      (scan strict source).tokens = .ok p.tokens := by
  rw [tokenize_eq] at h
  rcases htokens : (scan strict source).tokens with fault | tokens
  · rw [htokens] at h
    cases h
  · rw [htokens] at h
    obtain rfl := Except.ok.inj h
    exact ⟨rfl, rfl, rfl⟩

/-- The scan and the tokens of two lines, the first of which can be tokenized. What the second line
comes to is what it comes to by itself, moved by the length of the first in the arena and in the
source. -/
theorem scan_append_line {strict : Bool} {a : Bytes} {tokens : List Token}
    (h : (scan strict a).tokens = .ok tokens) (b : Bytes) :
    (scan strict (a ++ byte '\n' :: b)).arena = (scan strict a).arena ++ (scan strict b).arena ∧
    (scan strict (a ++ byte '\n' :: b)).tokens =
      (((scan strict b).tokens.map
        (Token.shiftAll (scan strict a).arena.length (a.length + 1))).mapError
          (Fault.shift (a.length + 1))).map (tokens ++ ·) := by
  obtain ⟨⟨stop, hstop⟩, happend⟩ := assemble_append h
  have hscan : scan strict (a ++ byte '\n' :: b) =
      ⟨(scan strict a).lexemes ++ ((scan strict b).shift (a.length + 1)).lexemes,
        ((scan strict b).shift (a.length + 1)).stop⟩ := by
    rw [scan, scanFrom_append_line hstop (Nat.zero_le _) b, scanFrom_shift]
    rfl
  rw [hscan]
  constructor
  · simp only [Scan.arena, Scan.shift, List.flatMap_append, List.flatMap_map, Placed.shift]
  · calc assemble 0 [] [] ((scan strict a).lexemes ++ ((scan strict b).shift _).lexemes) _
        = assemble (0 + (scan strict a).arena.length) tokens.reverse []
            ((scan strict b).shift (a.length + 1)).lexemes
            ((scan strict b).shift (a.length + 1)).stop := happend _ _
      _ = (assemble (0 + (scan strict a).arena.length) [] []
            ((scan strict b).shift (a.length + 1)).lexemes
            ((scan strict b).shift (a.length + 1)).stop).map (tokens.reverse.reverse ++ ·) :=
          assemble_ground tokens.reverse _ [] [] _ _
      _ = _ := by
          rw [List.reverse_reverse]
          exact congrArg (Except.map (tokens ++ ·)) (assemble_shift _ _ 0 [] [] _ _)

/-- **Tokenizing goes line by line.** If a content stream can be tokenized and another one is put on
the next line, then either that one can be tokenized too, and its tokens follow, the strings and
names in them shifted by the length of the first arena and the inline image data by the length of
the first line; or it cannot, and the fault is the same, further on. -/
theorem tokenize_append_line {strict : Bool} {a : Bytes} {p : Program}
    (ha : tokenize strict a = .ok p) (b : Bytes) :
    (∀ q, tokenize strict b = .ok q → tokenize strict (a ++ byte '\n' :: b) = .ok {
      source := a ++ byte '\n' :: b
      arena := p.arena ++ q.arena
      tokens := p.tokens ++ q.tokens.map (Token.shift p.arena.length (a.length + 1)) }) ∧
    (∀ fault, tokenize strict b = .error fault → ∃ position flaw,
      fault = .lexical position flaw ∧ tokenize strict (a ++ byte '\n' :: b) =
        .error (.lexical (a.length + 1 + position) flaw)) := by
  rw [tokenize_eq] at ha
  rcases hA : (scan strict a).tokens with fault | tokens
  · simp [hA, Except.map] at ha
  rw [hA] at ha
  obtain rfl := Except.ok.inj ha
  obtain ⟨harena, htokens⟩ := scan_append_line hA b
  rw [tokenize_eq, tokenize_eq, harena, htokens]
  rcases hB : (scan strict b).tokens with fault | tokens'
  · obtain ⟨position, flaw, rfl⟩ := exists_lexical_of_assemble hB
    refine ⟨fun q hq => by simp [Except.map] at hq, fun fault hfault => ?_⟩
    obtain rfl := Except.error.inj hfault
    exact ⟨position, flaw, rfl, by rw [Nat.add_comm (a.length + 1)]; rfl⟩
  · refine ⟨fun q hq => ?_, fun fault hfault => by simp [Except.map] at hfault⟩
    obtain rfl := Except.ok.inj hq
    rw [← Token.shiftAll_eq_map]
    rfl

/-- A name in an array on the next line is found further on in the arena, and a bracket out of place
further on in the source. -/
theorem tokenize_append_line_of_name :
    let a : Bytes := [0x2F, 0x4E]
    let b : Bytes := [0x5B, 0x2F, 0x4D, 0x5D]
    tokenize true a = .ok ⟨a, [0x4E], [.name ⟨0, 1⟩]⟩ ∧
    tokenize true (a ++ byte '\n' :: b) =
      .ok ⟨a ++ byte '\n' :: b, [0x4E, 0x4D], [.name ⟨0, 1⟩, .array [.name ⟨1, 1⟩]]⟩ ∧
    tokenize true (a ++ byte '\n' :: [0x5D]) = .error (.lexical 3 .unbalancedBracket) := by
  intro a b
  have ha : tokenize true a = .ok ⟨a, [0x4E], [.name ⟨0, 1⟩]⟩ := rfl
  refine ⟨ha, (tokenize_append_line ha b).1 ⟨b, [0x4D], [.array [.name ⟨0, 1⟩]]⟩ rfl, ?_⟩
  obtain ⟨position, flaw, hfault, h⟩ :=
    (tokenize_append_line ha [0x5D]).2 (.lexical 0 .unbalancedBracket) rfl
  obtain ⟨rfl, rfl⟩ := Fault.lexical.inj hfault
  exact h

end ContentStream
