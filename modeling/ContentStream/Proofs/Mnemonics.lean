import ContentStream.Proofs.Utf8

/-!
# Mnemonics

Operators are recognized by one table and spelled by another. The first has words for keywords, and
is searched with the bytes of a content stream; the second has keywords for words. Each undoes the
other.

What is not in the table is kept as text, in which bytes that form no character are replaced. It is
never the text of a keyword even so: keywords are spelled with ASCII characters only, and words of
these are read of no bytes but their own. So an operator that is spelled out is recognized again,
and none is mistaken for another.

## Main results

* `Keyword.ofBytes?_eq_some_iff`: the two tables are inverse to each other.
* `Operator.spelling_ofBytes`: an operator is spelled as its bytes are read.
* `Operator.ofBytes_rewrite`: an operator that is spelled out is recognized again.
* `operators_reread`: all this together, and no keyword among what is kept as text.
-/

namespace ContentStream

/-! ### The tables -/

namespace Keyword

/-- In the table for reading, a keyword has the word that it is spelled with. -/
theorem spelling_of_mem_readings {entry : String × Keyword} (h : entry ∈ readings) :
    entry.2.spelling = entry.1 := by
  have hall : ∀ entry ∈ readings, entry.2.spelling = entry.1 := by decide +kernel
  exact hall entry h

/-- A keyword that is spelled out is recognized: it has an entry in the table for reading, and no
other entry comes before. -/
theorem ofBytes?_encode_spelling (k : Keyword) : ofBytes? (Utf8.encode k.spelling) = some k := by
  have hall : ∀ k ∈ all, ofBytes? (Utf8.encode k.spelling) = some k := by decide +kernel
  exact hall k (mem_all k)

/-- The two tables are inverse to each other: the words that make a keyword are those that spell it,
and there is one of them. -/
theorem ofBytes?_eq_some_iff {bytes : Bytes} {k : Keyword} :
    ofBytes? bytes = some k ↔ bytes = Utf8.encode k.spelling := by
  constructor
  · intro h
    obtain ⟨entry, hfind, rfl⟩ := Option.map_eq_some_iff.mp h
    have hbytes : entry.1.toUTF8.data.toList = bytes := by simpa using List.find?_some hfind
    rw [spelling_of_mem_readings (List.mem_of_find?_eq_some hfind), Utf8.encode, Utf8.toList_eq,
      hbytes]
  · rintro rfl
    exact ofBytes?_encode_spelling k

/-- Keywords are spelled with ASCII characters. -/
theorem lt_of_mem_encode_spelling (k : Keyword) {x : UInt8} (hx : x ∈ Utf8.encode k.spelling) :
    x < 0x80 := by
  have hall : ∀ k ∈ all, ∀ x ∈ Utf8.encode k.spelling, x < 0x80 := by decide +kernel
  exact hall k (mem_all k) x hx

/-- Bytes that are read as text and written again stand for the same keyword, if any. -/
theorem ofBytes?_rewrite (bytes : Bytes) : ofBytes? (Utf8.rewrite bytes) = ofBytes? bytes := by
  refine Option.ext fun k => ?_
  rw [ofBytes?_eq_some_iff, ofBytes?_eq_some_iff,
    Utf8.rewrite_eq_iff_of_ascii fun x hx => k.lt_of_mem_encode_spelling hx]

/-- What is no keyword does not read as one. -/
theorem decode_ne_spelling {bytes : Bytes} (h : ofBytes? bytes = none) (k : Keyword) :
    Utf8.decode bytes ≠ k.spelling := by
  intro hread
  have hk : ofBytes? (Utf8.rewrite bytes) = some k := by
    rw [Utf8.rewrite, hread, ofBytes?_encode_spelling]
  rw [ofBytes?_rewrite, h] at hk
  cases hk

end Keyword

/-! ### Operators -/

namespace Operator

/-- Bytes that are recognized make the operator of their keyword. -/
theorem ofBytes_of_some {bytes : Bytes} {k : Keyword} (h : Keyword.ofBytes? bytes = some k) :
    ofBytes bytes = known k := by
  rw [ofBytes, h]

/-- All others are kept as text. -/
theorem ofBytes_of_none {bytes : Bytes} (h : Keyword.ofBytes? bytes = none) :
    ofBytes bytes = unknown (Utf8.decode bytes) := by
  rw [ofBytes, h]

/-- An operator is spelled as its bytes are read. -/
theorem spelling_ofBytes (bytes : Bytes) : (ofBytes bytes).spelling = Utf8.decode bytes := by
  cases h : Keyword.ofBytes? bytes with
  | none => rw [ofBytes_of_none h, spelling]
  | some k =>
      rw [ofBytes_of_some h, spelling, Keyword.ofBytes?_eq_some_iff.mp h, Utf8.decode_encode]

/-- Bytes that are read as text and written again stand for the same operator. -/
theorem ofBytes_rewrite (bytes : Bytes) : ofBytes (Utf8.rewrite bytes) = ofBytes bytes := by
  have hread : Utf8.decode (Utf8.rewrite bytes) = Utf8.decode bytes := Utf8.decode_encode _
  rw [ofBytes, Keyword.ofBytes?_rewrite, hread, ofBytes]

/-- The operator of a keyword is made of the bytes of its spelling, and of no others. -/
theorem ofBytes_eq_known_iff {bytes : Bytes} {k : Keyword} :
    ofBytes bytes = known k ↔ bytes = Utf8.encode k.spelling := by
  rw [← Keyword.ofBytes?_eq_some_iff]
  cases h : Keyword.ofBytes? bytes with
  | none => simp [ofBytes_of_none h]
  | some j => simp [ofBytes_of_some h]

/-- What is kept as text is no keyword. -/
theorem ofBytes_ne_unknown_spelling (bytes : Bytes) (k : Keyword) :
    ofBytes bytes ≠ unknown k.spelling := by
  cases h : Keyword.ofBytes? bytes with
  | none =>
      rw [ofBytes_of_none h]
      exact fun hunknown => Keyword.decode_ne_spelling h k (Operator.unknown.inj hunknown)
  | some j =>
      rw [ofBytes_of_some h]
      exact nofun

end Operator

/-- **Operators read and spelled out.** Whatever bytes an operator is read of, it is spelled as they
read, and its spelling is recognized as the same operator. If it is no keyword, it does not have the
spelling of one; and it is a keyword only if the bytes are those of the keyword's spelling. -/
theorem operators_reread (bytes : Bytes) :
    (Operator.ofBytes bytes).spelling = Utf8.decode bytes ∧
      Operator.ofBytes (Utf8.encode (Operator.ofBytes bytes).spelling) = Operator.ofBytes bytes ∧
      ∀ k : Keyword, Operator.ofBytes bytes ≠ .unknown k.spelling ∧
        (Operator.ofBytes bytes = .known k ↔ bytes = Utf8.encode k.spelling) := by
  refine ⟨Operator.spelling_ofBytes bytes, ?_, fun k =>
    ⟨Operator.ofBytes_ne_unknown_spelling bytes k, Operator.ofBytes_eq_known_iff⟩⟩
  rw [Operator.spelling_ofBytes]
  exact Operator.ofBytes_rewrite bytes

-- A keyword with a byte behind it that forms no character is no keyword.
example : Operator.ofBytes [byte 'Q', 0xFF] = .unknown "Q\uFFFD" := by decide +kernel

end ContentStream
