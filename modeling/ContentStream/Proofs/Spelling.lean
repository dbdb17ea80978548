import ContentStream.Proofs.Dictionaries
import ContentStream.Proofs.Instructions
import ContentStream.Proofs.Likeness
import ContentStream.Proofs.Numerals
import ContentStream.Proofs.RoundTrip
import ContentStream.Proofs.Utf8

/-!
# Spelling out inline images

The dictionary of an inline image is read exactly as it was written. An object is *written* as one
token, or, if it is a dictionary, as a bracket, its keys and values in turn, and a bracket. The
items of an array are written one after the other into a token of their own, so a dictionary that is
an item takes up several of that token's tokens.

Reading takes in one token after the other, and keeps the dictionaries that are open on a stack.
What carries the induction is a value that is expected on top of any such stack: the tokens written
for it take the stack to the one on which the value has been delivered, and the last of them is the
one that completes it. Entries of a dictionary take the stack to one on which they have been added.

The entries behind the operator of an inline image go the same way, with no bracket around them.
Keys are spelled out, and so are the names in some of the values. What results is a dictionary by
the rules of dictionaries: a key that is written twice, in one spelling or in two, stays where it
came first and has the value that came last.

## Main definitions

* `InlineImage.Writes`: the tokens that are written for an object.
* `InlineImage.SpellsOut`: an entry of an inline image, and what it stands for.
* `Object.Proper`: an object all of whose dictionaries have distinct keys.

## Main results

* `InlineImage.Writes.readObject`: an object is read as it was written.
* `InlineImage.WritesEntries.readEntries`: so are the entries up to the image data.
* `Object.Proper.exists_writes`: all proper objects can be written.
* `drawImage_of_writes`: an inline image is drawn as it was written.
-/

namespace ContentStream

namespace InlineImage

/-! ### Written objects -/

mutual

/-- The tokens that are **written for an object**. Names are in UTF-8. -/
inductive Writes (p : Program) : Object → List Token → Prop
  | number (numeral : Numeral) : Writes p (.number numeral.value) [.number numeral]
  | boolean (value : Bool) : Writes p (.boolean value) [.boolean value]
  | string {span : Span} {bytes : Bytes} (h : p.decoded span = bytes) :
      Writes p (.string bytes) [.string span]
  | name {span : Span} {text : String} (h : p.decoded span = Utf8.encode text) :
      Writes p (.name text) [.name span]
  | array {items : List Object} {ts : List Token} (h : WritesItems p items ts) :
      Writes p (.array items) [.array ts]
  | dict {entries : List (String × Object)} {ts : List Token} (h : WritesEntries p entries ts) :
      Writes p (.dict (Dict.ofList entries)) (.dictOpen :: (ts ++ [.dictClose]))

/-- The tokens that are **written for the items** of an array. -/
inductive WritesItems (p : Program) : List Object → List Token → Prop
  | nil : WritesItems p [] []
  | cons {o : Object} {items : List Object} {ts ts' : List Token} (h : Writes p o ts)
      (hitems : WritesItems p items ts') : WritesItems p (o :: items) (ts ++ ts')

/-- The tokens that are **written for entries**, one after the other. -/
inductive WritesEntries (p : Program) : List (String × Object) → List Token → Prop
  | nil : WritesEntries p [] []
  | cons {span : Span} {key : String} {value : Object} {entries : List (String × Object)}
      {ts ts' : List Token} (hkey : p.decoded span = Utf8.encode key) (h : Writes p value ts)
      (hentries : WritesEntries p entries ts') :
      WritesEntries p ((key, value) :: entries) (.name span :: (ts ++ ts'))

end

/-- A name that is written in UTF-8 reads as its text. -/
theorem text_of_decoded {p : Program} {span : Span} {text : String}
    (h : p.decoded span = Utf8.encode text) : p.text span = text := by
  rw [Program.text, h, Utf8.decode_encode]

/-! ### Taking in tokens -/

section Feeding

variable {p : Program} {around around' around'' : List Open} {ts : List Token}

/-- A **value is expected** on a stack of open dictionaries, rather than a key. -/
def Expects : List Open → Prop
  | ⟨_, none⟩ :: _ => False
  | _ => True

/-- Where a value is expected, a token that opens no dictionary is one. It is delivered to the
object that is being read, or it is the object. -/
theorem feed_of_expects (h : Expects around) {t : Token} (ht : t ≠ .dictOpen)
    (value : Except ImageFlaw Object) :
    feed p t value around = value.map fun v => deliver v around := by
  rcases around with _ | ⟨⟨dict, _ | key⟩, around⟩
  · cases t with
    | dictOpen => exact absurd rfl ht
    | _ => rfl
  · cases h
  · cases t with
    | dictOpen => exact absurd rfl ht
    | _ => rfl

/-- Where a value is expected, a bracket opens a dictionary. -/
theorem feed_dictOpen (h : Expects around) (value : Except ImageFlaw Object) :
    feed p .dictOpen value around = .ok (⟨[], none⟩ :: around, none) := by
  rcases around with _ | ⟨⟨dict, _ | key⟩, around⟩
  · rfl
  · cases h
  · rfl

/-- Tokens **lead from one stack to another** without completing a value. -/
inductive Feeds (p : Program) : List Open → List Token → List Open → Prop
  | refl (around : List Open) : Feeds p around [] around
  | cons {around around' around'' : List Open} {t : Token} {ts : List Token}
      (h : feed p t (valueOf p t) around = .ok (around', none))
      (hrest : Feeds p around' ts around'') : Feeds p around (t :: ts) around''

/-- Tokens that lead from one stack to another may be followed by others. -/
theorem Feeds.append {ts' : List Token} (h : Feeds p around ts around')
    (h' : Feeds p around' ts' around'') : Feeds p around (ts ++ ts') around'' := by
  induction h with
  | refl => exact h'
  | cons hfeed _ ih => exact .cons hfeed (ih h')

/-- Reading an object goes on behind tokens that complete none. They are counted, since the reader
gives the number of tokens that it has taken. -/
theorem Feeds.readObject (h : Feeds p around ts around') (more : List Token) :
    readObject p around (ts ++ more) =
      (InlineImage.readObject p around' more).map fun x => (x.1, x.2 + ts.length) := by
  induction h with
  | refl =>
      rcases hread : InlineImage.readObject p _ more with flaw | x
      · exact hread
      · exact hread
  | @cons around around' around'' t ts hfeed _ ih =>
      rw [List.cons_append, InlineImage.readObject, hfeed]
      simp only [ih]
      cases InlineImage.readObject p around'' more <;> rfl

/-- Reading items goes on behind tokens that complete none. It does so as for an object, but with a
list of items that is carried along. -/
theorem Feeds.readItems (h : Feeds p around ts around') (items : List Object)
    (more : List Token) :
    readItems p around items (ts ++ more) = InlineImage.readItems p around' items more := by
  induction h with
  | refl => rfl
  | cons hfeed _ ih =>
      rw [List.cons_append, InlineImage.readItems, hfeed]
      exact ih

/-- Tokens **complete a value** on top of a stack: the last one of them delivers it. -/
def Completes (p : Program) (around : List Open) (ts : List Token) (value : Object) : Prop :=
  ∃ first last around', ts = first ++ [last] ∧ Feeds p around first around' ∧
    feed p last (valueOf p last) around' = .ok (deliver value around)

/-- A value that is one token. -/
theorem Completes.of_valueOf {t : Token} {value : Object} (h : Expects around)
    (hvalue : valueOf p t = .ok value) : Completes p around [t] value := by
  have ht : t ≠ .dictOpen := by
    rintro rfl
    cases hvalue
  exact ⟨[], t, around, rfl, .refl around, by rw [feed_of_expects h ht, hvalue]; rfl⟩

/-- A value that is completed for a key is an entry. -/
theorem Completes.feeds {dict : Dict} {key : String} {value : Object}
    (h : Completes p (⟨dict, some key⟩ :: around) ts value) :
    Feeds p (⟨dict, some key⟩ :: around) ts (⟨dict.insert key value, none⟩ :: around) := by
  obtain ⟨first, last, around', rfl, hfirst, hlast⟩ := h
  exact hfirst.append (.cons hlast (.refl _))

end Feeding

/-! ### Reading what was written -/

section Reading

variable {p : Program}

mutual

/-- The tokens of an object complete it, on top of any stack that expects a value. The induction is
on what is written, together with the items of arrays and the entries of dictionaries. -/
theorem Writes.completes {o : Object} {ts : List Token} : Writes p o ts →
    ∀ around, Expects around → Completes p around ts o
  | .number _, _, h => .of_valueOf h rfl
  | .boolean _, _, h => .of_valueOf h rfl
  | .string hspan, _, h => .of_valueOf h (by rw [valueOf, hspan])
  | .name hspan, _, h => .of_valueOf h (by rw [valueOf, text_of_decoded hspan])
  | .array hitems, _, h => .of_valueOf h (by rw [valueOf, hitems.readItems []]; rfl)
  | .dict hentries, around, h =>
      ⟨.dictOpen :: _, .dictClose, _, rfl,
        .cons (feed_dictOpen h _) (hentries.feeds [] around), rfl⟩

/-- The tokens of items are read as the items. -/
theorem WritesItems.readItems {items : List Object} {ts : List Token} : WritesItems p items ts →
    ∀ done, readItems p [] done ts = .ok (done.reverse ++ items)
  | .nil, done => by rw [InlineImage.readItems, List.append_nil]
  | @WritesItems.cons _ o _ _ _ h hitems, done => by
      obtain ⟨first, last, around, rfl, hfirst, hlast⟩ := h.completes [] trivial
      rw [List.append_assoc, hfirst.readItems, List.singleton_append, InlineImage.readItems, hlast]
      exact (hitems.readItems (o :: done)).trans (by simp)

/-- The tokens of entries add them to the dictionary that is open. -/
theorem WritesEntries.feeds {entries : List (String × Object)} {ts : List Token} :
    WritesEntries p entries ts → ∀ dict around, Feeds p (⟨dict, none⟩ :: around) ts
      (⟨entries.foldl (fun d entry => Dict.insert entry.1 entry.2 d) dict, none⟩ :: around)
  | .nil, _, _ => .refl _
  | @WritesEntries.cons _ _ key _ _ _ _ hkey h hentries, dict, around => by
      have hvalue := (h.completes (⟨dict, some key⟩ :: around) trivial).feeds
      refine .cons ?_ (hvalue.append (hentries.feeds _ around))
      rw [feed, text_of_decoded hkey]

end

/-- An object is read as it was written, whatever follows, and nothing but its own tokens is passed
over. -/
theorem Writes.readObject {o : Object} {ts : List Token} (h : Writes p o ts)
    (more : List Token) : readObject p [] (ts ++ more) = .ok (o, ts.length) := by
  obtain ⟨first, last, around, rfl, hfirst, hlast⟩ := h.completes [] trivial
  rw [List.append_assoc, hfirst.readObject, List.singleton_append, InlineImage.readObject, hlast,
    List.length_append, Nat.add_comm]
  rfl

/-- Reading entries goes on behind the tokens that have been read. -/
theorem readEntries_length_append (dict : Dict) (ts more : List Token) :
    readEntries p ts.length dict (ts ++ more) =
      (readEntries p 0 dict more).map fun s => { s with count := s.count + ts.length } := by
  induction ts with
  | nil => cases hread : readEntries p 0 dict more <;> exact hread
  | cons t ts ih =>
      rw [List.length_cons, List.cons_append, readEntries, ih]
      cases readEntries p 0 dict more <;> rfl

/-- Entries are read **as they were written**, up to the image data behind them. They are added in
their order, and the subtype is set in the end. -/
theorem WritesEntries.readEntries {entries : List (String × Object)} {ts : List Token}
    (h : WritesEntries p entries ts) (dict : Dict) (span : Span) (after : List Token) :
    readEntries p 0 dict (ts ++ .imageData span :: after) =
      .ok ⟨(entries.foldl (fun d entry => addEntry d entry.1 entry.2) dict).insert "Subtype"
        (.name "Image"), p.raw span, ts.length + 1⟩ := by
  induction entries generalizing ts dict with
  | nil =>
      cases h
      rfl
  | cons entry entries ih =>
      cases h with
      | cons hkey hvalue hentries =>
          rw [List.cons_append, List.append_assoc, InlineImage.readEntries]
          simp only [hvalue.readObject, readEntries_length_append, ih hentries,
            text_of_decoded hkey, Except.map, List.foldl_cons, List.length_cons,
            List.length_append]
          congr 2
          omega

end Reading

/-! ### What can be written -/

end InlineImage

/-- A **proper object**: the keys of every dictionary in it are distinct. -/
inductive Object.Proper : Object → Prop
  | boolean (value : Bool) : Proper (.boolean value)
  | number (value : Float) : Proper (.number value)
  | name (text : String) : Proper (.name text)
  | string (bytes : List UInt8) : Proper (.string bytes)
  | array {items : List Object} (h : ∀ o ∈ items, Proper o) : Proper (.array items)
  | dict {entries : List (String × Object)} (hkeys : (entries.map Prod.fst).Nodup)
      (h : ∀ entry ∈ entries, Proper entry.2) : Proper (.dict entries)

namespace InlineImage

/-- Something can be **written behind what fills the arena** already: some tokens are written for it
in every program whose arena goes on with certain bytes. -/
def Writable (before : Bytes) (writes : Program → List Token → Prop) : Prop :=
  ∃ ts bytes, ∀ p : Program, before ++ bytes <+: p.arena → writes p ts

/-- What is written may be put to further use, with the same spans. -/
theorem Writable.map {before : Bytes} {writes writes' : Program → List Token → Prop}
    (h : Writable before writes) (f : List Token → List Token)
    (hf : ∀ p ts, writes p ts → writes' p (f ts)) : Writable before writes' := by
  obtain ⟨ts, bytes, hwrites⟩ := h
  exact ⟨f ts, bytes, fun p hp => hf p ts (hwrites p hp)⟩

/-- What is written first leaves room for what is written then. -/
theorem Writable.append {before : Bytes} {first then' both : Program → List Token → Prop}
    (hfirst : Writable before first) (hthen : ∀ before, Writable before then')
    (hboth : ∀ p ts ts', first p ts → then' p ts' → both p (ts ++ ts')) :
    Writable before both := by
  obtain ⟨ts, bytes, hts⟩ := hfirst
  obtain ⟨ts', bytes', hts'⟩ := hthen (before ++ bytes)
  refine ⟨ts ++ ts', bytes ++ bytes', fun p hp => ?_⟩
  rw [← List.append_assoc] at hp
  exact hboth p ts ts' (hts p ((List.prefix_append _ _).trans hp)) (hts' p hp)

/-- Bytes can be put into a span of their own. -/
theorem Writable.span (before bytes : Bytes) (token : Span → Token) :
    Writable before fun p ts => ∃ span, ts = [token span] ∧ p.decoded span = bytes := by
  refine ⟨[token ⟨before.length, bytes.length⟩], bytes, fun p hp => ⟨_, rfl, ?_⟩⟩
  obtain ⟨after, hafter⟩ := hp
  exact Program.decoded_of_arena (by rw [← hafter, List.append_assoc])

/-- Items can be written if each of them can, one behind the other. -/
theorem writable_items {items : List Object}
    (h : ∀ o ∈ items, ∀ before, Writable before (Writes · o)) (before : Bytes) :
    Writable before (WritesItems · items) := by
  induction items generalizing before with
  | nil => exact ⟨[], [], fun _ _ => .nil⟩
  | cons o items ih =>
      obtain ⟨ho, hitems⟩ := List.forall_mem_cons.mp h
      exact (ho before).append (ih hitems) fun _ _ _ => .cons

/-- So can entries, each with its key in front of its value. Key and value have their bytes in the
arena one after the other. -/
theorem writable_entries {entries : List (String × Object)}
    (h : ∀ entry ∈ entries, ∀ before, Writable before (Writes · entry.2)) (before : Bytes) :
    Writable before (WritesEntries · entries) := by
  induction entries generalizing before with
  | nil => exact ⟨[], [], fun _ _ => .nil⟩
  | cons entry entries ih =>
      obtain ⟨hvalue, hentries⟩ := List.forall_mem_cons.mp h
      have hrest (before : Bytes) : Writable before fun p ts => ∃ ts₁ ts₂, ts = ts₁ ++ ts₂ ∧
          Writes p entry.2 ts₁ ∧ WritesEntries p entries ts₂ :=
        (hvalue before).append (ih hentries) fun _ ts ts' h h' => ⟨ts, ts', rfl, h, h'⟩
      refine (Writable.span before (Utf8.encode entry.1) .name).append hrest ?_
      rintro p _ _ ⟨span, rfl, hspan⟩ ⟨ts, ts', rfl, hts, hts'⟩
      rw [List.singleton_append]
      exact .cons hspan hts hts'

/-- A proper object can be written behind anything that fills the arena already. A number is written
as the numeral that has its value, and a dictionary has each key once. -/
theorem writable_of_proper {o : Object} (h : o.Proper) (before : Bytes) :
    Writable before (Writes · o) := by
  induction h generalizing before with
  | boolean value => exact ⟨_, [], fun _ _ => .boolean value⟩
  | number value =>
      refine ⟨[.number (Numeral.ofValue value)], [], fun p _ => ?_⟩
      have hnumber := Writes.number (p := p) (Numeral.ofValue value)
      rwa [Numeral.value_ofValue] at hnumber
  | name text =>
      refine (Writable.span before (Utf8.encode text) .name).map id ?_
      rintro p _ ⟨span, rfl, hspan⟩
      exact .name hspan
  | string bytes =>
      refine (Writable.span before bytes .string).map id ?_
      rintro p _ ⟨span, rfl, hspan⟩
      exact .string hspan
  | array _ ih => exact (writable_items ih before).map (fun ts => [.array ts]) fun _ _ => .array
  | @dict entries hkeys _ ih =>
      refine (writable_entries ih before).map (fun ts => .dictOpen :: (ts ++ [.dictClose])) ?_
      intro p ts hts
      have hdict := Writes.dict hts
      rwa [Dict.ofList_of_nodup hkeys] at hdict

/-- All proper objects can be written. -/
theorem exists_writes {o : Object} (h : o.Proper) : ∃ p ts, Writes p o ts := by
  obtain ⟨ts, bytes, hts⟩ := writable_of_proper h []
  exact ⟨⟨[], bytes, ts⟩, ts, hts _ (List.prefix_rfl)⟩

/-! ### Spelling out -/

/-- A value **stands for** another one if the names in it are spelled out, in arrays at any depth
but not in dictionaries. -/
inductive StandsFor : Object → Object → Prop
  | name (text : String) : StandsFor (.name text) (.name (expand valueTable text))
  | array {items items' : List Object} (h : List.Forall₂ StandsFor items items') :
      StandsFor (.array items) (.array items')
  | other {o : Object} (hname : ∀ text, o ≠ .name text) (harray : ∀ items, o ≠ .array items) :
      StandsFor o o

mutual

/-- A value that is spelled out stands for itself. The recursion is that of the function that spells
it out, and it stops at dictionaries. -/
theorem standsFor_expandValue : (o : Object) → StandsFor o (expandValue o)
  | .name text => .name text
  | .array items => .array (standsFor_expandValues items)
  | .boolean _ | .number _ | .string _ | .dict _ => .other nofun nofun

/-- So do the items of an array. -/
theorem standsFor_expandValues : (items : List Object) →
    List.Forall₂ StandsFor items (expandValues items)
  | [] => .nil
  | o :: os => .cons (standsFor_expandValue o) (standsFor_expandValues os)

end

/-- An entry of an inline image **spells out** as another one: its key by the table, and its value
if it says a color space or a filter. -/
structure SpellsOut (written entry : String × Object) : Prop where
  key : entry.1 = expand keyTable written.1
  value : if entry.1 = "ColorSpace" ∨ entry.1 = "Filter" then StandsFor written.2 entry.2
    else entry.2 = written.2

/-- Entries that are added to a dictionary are added as they spell out. A key may be short for
another one, and so may the names of color spaces and filters. -/
theorem exists_spellsOut (entries : List (String × Object)) : ∃ spelled,
    List.Forall₂ SpellsOut entries spelled ∧ ∀ dict,
      entries.foldl (fun d entry => addEntry d entry.1 entry.2) dict =
        spelled.foldl (fun d entry => Dict.insert entry.1 entry.2 d) dict := by
  induction entries with
  | nil => exact ⟨[], .nil, fun _ => rfl⟩
  | cons written entries ih =>
      obtain ⟨spelled, hspelled, hfold⟩ := ih
      let key := expand keyTable written.1
      let value :=
        if key == "ColorSpace" || key == "Filter" then expandValue written.2 else written.2
      refine ⟨(key, value) :: spelled, .cons ⟨rfl, ?_⟩ hspelled, fun dict => hfold _⟩
      by_cases hkey : key = "ColorSpace" ∨ key = "Filter"
      · simp only [value, hkey, if_true, Bool.or_eq_true, beq_iff_eq]
        exact standsFor_expandValue written.2
      · simp only [value, hkey, if_false, Bool.or_eq_true, beq_iff_eq]

end InlineImage

/-! ### Instructions -/

open InlineImage

namespace Program

variable {p : Program}

/-- Instructions go on behind the tokens that belong to an inline image. -/
theorem instructionsFrom_length_append (operands : List Operand) (ts more : List Token) :
    p.instructionsFrom ts.length operands (ts ++ more) = p.instructionsFrom 0 operands more := by
  induction ts with
  | nil => rfl
  | cons t ts ih => rw [List.length_cons, List.cons_append, instructionsFrom, ih]

/-- An inline image that is spelled out correctly is an instruction of its own, and the next one has
no operands yet. -/
theorem instructionsFrom_beginImage {entries : List (String × Object)} {ts : List Token}
    (h : WritesEntries p entries ts) (operands : List Operand) (span : Span)
    (after : List Token) :
    p.instructionsFrom 0 operands
        (.operator (.known .beginImage) :: (ts ++ .imageData span :: after)) =
      .drawImage ((entries.foldl (fun d entry => addEntry d entry.1 entry.2) []).insert "Subtype"
        (.name "Image")) (p.raw span) :: p.instructionsFrom 0 [] after := by
  have hskip := p.instructionsFrom_length_append [] (ts ++ [.imageData span]) after
  rw [List.length_append, List.append_assoc] at hskip
  rw [instructionsFrom]
  simp only [h.readEntries]
  exact congrArg (_ :: ·) hskip

end Program

namespace Action

variable {σ : Type}

/-- An inline image is drawn, or the program ends. The innermost scope is asked to decode it. If it
refuses, the program ends; otherwise the image is drawn in the present state, and the next
instructions are carried out in the same frame and on the same machine. -/
theorem run_steps_drawImage (ctx : Context σ) (call : Bytes → Action σ Unit) (frame : Frame)
    (m : Machine σ) (dict : Dict) (data : Bytes) (is : List Instruction) :
    (steps ctx call frame (.drawImage dict data :: is)).run m =
      Outcome.after (m.scopes.head?.elim [] fun scope =>
          [.event (.inlineImage (ctx.library.label scope) dict data)])
        (match ctx.library.inlineImage m.scopes dict data with
        | .error fault => ⟨.error fault, m, []⟩
        | .ok image => ((steps ctx call frame is).run m).after
          [.event (.image m.stack.current image image.transform)]) := by
  rw [steps, step, run_bind, run_bind, run_drawInlineImage]
  generalize m.scopes.head?.elim [] _ = asked
  cases ctx.library.inlineImage m.scopes dict data with
  | error fault => rfl
  | ok image =>
      simp only [drawImage, run_bind, run_ofExcept, run_state, run_emit, run_pure,
        Outcome.after, List.nil_append, List.append_nil, List.append_assoc]

end Action

/-! ### The main result -/

/-- **An inline image is read exactly as it was written.** All proper objects can be written. The
tokens written for an object are read as that object, whatever follows them, and the reader goes on
right behind them. So if entries are written behind the operator that introduces an inline image,
with image data behind them, then they make one instruction, and the next one is read behind the
data, with no operand before it. The scope that decodes the image receives the raw data, and the
dictionary to which the entries were added in order, as they spell out, and at last the one that
says that it is an image: so each key stands where it came first, and has the value that came
last. -/
theorem beginImage_of_writes (p : Program) :
    (∀ o : Object, o.Proper → ∃ q ts, Writes q o ts) ∧
    (∀ o ts, Writes p o ts → ∀ more, readObject p [] (ts ++ more) = .ok (o, ts.length)) ∧
    ∀ entries ts, WritesEntries p entries ts → ∃ spelled added dict,
      List.Forall₂ SpellsOut entries spelled ∧ added = spelled ++ [("Subtype", .name "Image")] ∧
      dict = Dict.ofList added ∧ dict.map Prod.fst = (added.map Prod.fst).eraseDups ∧
      (∀ key, dict.get? key = Dict.get? added.reverse key) ∧
      ∀ operands span after,
        let is := p.instructionsFrom 0 operands
          (.operator (.known .beginImage) :: (ts ++ .imageData span :: after))
        let is' := p.instructionsFrom 0 [] after
        is = .drawImage dict (p.raw span) :: is' ∧
        ∀ {σ : Type} (ctx : Context σ) (call : Bytes → Action σ Unit) frame (m : Machine σ),
          (Action.steps ctx call frame is).run m =
            Outcome.after (m.scopes.head?.elim [] fun scope =>
                [.event (.inlineImage (ctx.library.label scope) dict (p.raw span))])
              (match ctx.library.inlineImage m.scopes dict (p.raw span) with
              | .error fault => ⟨.error fault, m, []⟩
              | .ok image => ((Action.steps ctx call frame is').run m).after
                [.event (.image m.stack.current image image.transform)]) := by
  refine ⟨fun o => exists_writes, fun o ts h => h.readObject, fun entries ts h => ?_⟩
  obtain ⟨spelled, hspelled, hfold⟩ := exists_spellsOut entries
  refine ⟨spelled, _, _, hspelled, rfl, rfl, Dict.map_fst_ofList _, Dict.get?_ofList _, ?_⟩
  intro operands span after is is'
  have his : is = .drawImage (Dict.ofList (spelled ++ [("Subtype", .name "Image")])) (p.raw span) ::
      is' := by
    rw [Dict.ofList_append_singleton, Dict.ofList, ← hfold]
    exact Program.instructionsFrom_beginImage h operands span after
  refine ⟨his, fun ctx call frame m => ?_⟩
  rw [his, Action.run_steps_drawImage]

namespace SpelledTwice

/-- A program with an inline image that has **a filter in two spellings**, and a dictionary in the
array that says its color space. -/
def program : Program where
  source := Utf8.encode "x"
  arena := Utf8.encode "FLZWCSIGFilterFl"
  tokens := [.operator (.known .beginImage), .name ⟨0, 1⟩, .name ⟨1, 3⟩, .name ⟨4, 2⟩,
    .array [.name ⟨6, 1⟩, .dictOpen, .name ⟨6, 1⟩, .name ⟨7, 1⟩, .dictClose], .name ⟨8, 6⟩,
    .array [.name ⟨14, 2⟩], .imageData ⟨0, 1⟩]

/-- The **entries** of the inline image. -/
def entries : List (String × Object) :=
  [("F", .name "LZW"), ("CS", .array [.name "I", .dict (Dict.ofList [("I", .name "G")])]),
    ("Filter", .array [.name "Fl"])]

/-- The tokens of the program are written for these entries: a filter, a color space with a
dictionary in it, and the filter once more under its full name. -/
theorem writes_entries : WritesEntries program entries ((program.tokens.drop 1).take 6) := by
  have hF : program.decoded ⟨0, 1⟩ = Utf8.encode "F" := by decide +kernel
  have hLZW : program.decoded ⟨1, 3⟩ = Utf8.encode "LZW" := by decide +kernel
  have hCS : program.decoded ⟨4, 2⟩ = Utf8.encode "CS" := by decide +kernel
  have hI : program.decoded ⟨6, 1⟩ = Utf8.encode "I" := by decide +kernel
  have hG : program.decoded ⟨7, 1⟩ = Utf8.encode "G" := by decide +kernel
  have hFilter : program.decoded ⟨8, 6⟩ = Utf8.encode "Filter" := by decide +kernel
  have hFl : program.decoded ⟨14, 2⟩ = Utf8.encode "Fl" := by decide +kernel
  have hdict := Writes.dict (.cons hI (.name hG) .nil)
  exact .cons hF (.name hLZW) <| .cons hCS (.array (.cons (.name hI) (.cons hdict .nil))) <|
    .cons hFilter (.array (.cons (.name hFl) .nil)) .nil

end SpelledTwice

open SpelledTwice in
/-- The filter stays where it came first and is the one that came last. Both of its spellings are
one key, which is in the dictionary once. -/
theorem beginImage_of_writes_of_filters :
    WritesEntries program entries ((program.tokens.drop 1).take 6) ∧
    ∃ dict, program.instructions = [.drawImage dict (Utf8.encode "x")] ∧
      dict.map Prod.fst = ["Filter", "ColorSpace", "Subtype"] ∧
      dict.get? "Filter" = some (.array [.name "FlateDecode"]) := by
  obtain ⟨-, -, hwrites⟩ := beginImage_of_writes program
  obtain ⟨spelled, added, dict, hspelled, rfl, -, hkeys, hvalues, himage⟩ :=
    hwrites entries _ writes_entries
  obtain ⟨his, -⟩ := himage [] ⟨0, 1⟩ []
  have hraw : program.raw ⟨0, 1⟩ = Utf8.encode "x" := by decide +kernel
  rw [hraw] at his
  refine ⟨writes_entries, dict, his, ?_⟩
  -- each of the three entries spells out as one
  obtain ⟨first, _, hfirst, htwo, rfl⟩ := List.forall₂_cons_left_iff.mp hspelled
  obtain ⟨space, _, hspace, hone, rfl⟩ := List.forall₂_cons_left_iff.mp htwo
  obtain ⟨last, _, hlast, hnone, rfl⟩ := List.forall₂_cons_left_iff.mp hone
  obtain rfl := List.forall₂_nil_left_iff.mp hnone
  have hfirstKey : first.1 = "Filter" := hfirst.key
  have hspaceKey : space.1 = "ColorSpace" := hspace.key
  have hlastKey : last.1 = "Filter" := hlast.key
  have hvalue := hlast.value
  rw [if_pos (.inr hlastKey)] at hvalue
  constructor
  · rw [hkeys]
    simp only [List.cons_append, List.nil_append, List.map_cons, List.map_nil, hfirstKey,
      hspaceKey, hlastKey]
    decide
  · have hfilter : last.2 = .array [.name "FlateDecode"] := by
      generalize last.2 = value at hvalue
      cases hvalue with
      | array hitems =>
          obtain ⟨item, _, hitem, hnone, rfl⟩ := List.forall₂_cons_left_iff.mp hitems
          obtain rfl := List.forall₂_nil_left_iff.mp hnone
          cases hitem with
          | name => rfl
          | other hname => exact absurd rfl (hname "Fl")
      | other _ harray => exact absurd rfl (harray [.name "Fl"])
    rw [hvalues]
    simp [Dict.get?, hlastKey, hfilter]

end ContentStream
