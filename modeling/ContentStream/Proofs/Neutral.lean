import ContentStream.Proofs.Arity
import ContentStream.Proofs.Insertion
import ContentStream.Proofs.Sequences
import ContentStream.Proofs.Splitting

/-!
# Neutral tokens

Some operators do nothing to what comes after them. Those that this library does not know are
reported and skipped, with all of their operands; those that mark content, or give the width of a
glyph, only have their operands counted. Others undo each other: a state that is saved is restored
at once, and a compatibility section ends where it begins. Image data that no operator introduces
are skipped as well.

All these are neutral: a program with neutral tokens inserted somewhere between its operators does
what it does without them, and shows what they show in between. There is one exception again. If the
program stops further on at an inline image that is misspelled, the token that is quoted is found in
another place.

## Main definitions

* `Neutral`: neutral tokens, and what is seen of them.

## Main results

* `Neutral.exists_commands`: neutral tokens leave the frame and the machine as they are.
* `Program.inserts_line`: a line that is put between two lines is inserted.
* `run_of_neutral_inserted`: a program with neutral tokens inserted.
-/

namespace ContentStream

variable {σ : Type}

/-! ### Neutral tokens -/

/-- How many operands a keyword takes that **makes no use of them**: one that marks content, or
gives the width of a glyph. -/
def Keyword.unused? : Keyword → Option Nat
  | .endMarked => some 0
  | .markPoint | .beginMarked => some 1
  | .markPointProperties | .beginMarkedProperties | .glyphWidth => some 2
  | .glyphWidthBox => some 6
  | _ => none

/-- A keyword that makes no use of its operands asks for nothing to be done, if it finds as many as
it takes. -/
theorem Command.decode_of_unused? {k : Keyword} {n : Nat} {operands : List Operand}
    (hk : k.unused? = some n) (hlen : n ≤ operands.length) :
    decode (.known k) operands = .ok .ignore := by
  have hrequire {op : String} (hlen : n ≤ operands.length) :
      StateT.run' (do Take.require op n; pure Command.ignore : Take Command) operands =
        .ok .ignore := by
    rw [Take.run'_eq, StateT.run_bind, Take.run_require, if_neg (Nat.not_lt.mpr hlen)]
    rfl
  cases k with
  | endMarked => rfl
  | markPoint | beginMarked | markPointProperties | beginMarkedProperties | glyphWidth
  | glyphWidthBox =>
      obtain rfl := Option.some.inj hk
      exact hrequire hlen
  | _ => cases hk

/-- **Neutral** tokens, and what is seen of them in a graphics state. -/
inductive Neutral : List Token → (GState → Trace) → Prop
  | unknown {ops : List Token} (hops : ∀ t ∈ ops, t.isOperand = true) (spelling : String) :
      Neutral (ops ++ [.operator (.unknown spelling)]) fun _ => [.event (.unknownOperator spelling)]
  | unused {ops : List Token} {k : Keyword} {n : Nat} (hops : ∀ t ∈ ops, t.isOperand = true)
      (hk : k.unused? = some n) (hlen : n ≤ ops.length) :
      Neutral (ops ++ [.operator (.known k)]) fun _ => []
  | compatibility :
      Neutral [.operator (.known .beginCompatibility), .operator (.known .endCompatibility)]
        fun _ => []
  | imageData {ops : List Token} (hops : ∀ t ∈ ops, t.isOperand = true) (span : Span) :
      Neutral (ops ++ [.imageData span]) fun _ => []
  | saved :
      Neutral [.operator (.known .save), .operator (.known .restore)] fun gs =>
        [.event (.save gs), .event (.restore gs)]

namespace Neutral

variable {fragment : List Token} {seen : GState → Trace}

/-- What neutral tokens are read as: commands that leave everything as it is, wherever the stack is
not below the base of the frame. -/
theorem exists_commands (h : Neutral fragment seen) (r : Program) :
    r.Complete fragment ∧ ∃ commands,
      List.Forall₂ Instruction.AsksFor (r.instructionsFrom 0 [] fragment) commands ∧
      ∀ (ctx : Context σ) (call : Bytes → Action σ Unit) (frame : Frame) (m : Machine σ),
        frame.base ≤ m.stack.depth →
        (Action.performAll ctx call frame commands).run m =
          ⟨.ok frame, m, seen m.stack.current⟩ := by
  -- Operands and an operator are one instruction, which asks for one command.
  have hone {ops : List Token} {op : Operator} {command : Command}
      (hops : ∀ t ∈ ops, t.isOperand = true)
      (hdecode : Command.decode op (r.operandsOf ops) = .ok command)
      (hop : op ≠ .known .beginImage) :
      r.Complete (ops ++ [.operator op]) ∧
      List.Forall₂ Instruction.AsksFor (r.instructionsFrom 0 [] (ops ++ [.operator op]))
        [command] := by
    obtain ⟨hcomplete, hinstructions⟩ := Program.Complete.of_reading
      (r.reading_operands_operator hops hop) (List.forall_mem_singleton.mpr rfl)
    rw [hinstructions]
    exact ⟨hcomplete, .cons ⟨_, _, rfl, hdecode⟩ .nil⟩
  cases h with
  | @unknown ops hops spelling =>
      have hdecode : Command.decode (.unknown spelling) (r.operandsOf ops) =
          .ok (.unknown spelling) := rfl
      obtain ⟨hcomplete, hasks⟩ := hone hops hdecode nofun
      exact ⟨hcomplete, _, hasks, fun _ _ _ _ _ => rfl⟩
  | @unused ops k n hops hk hlen =>
      have hop : Operator.known k ≠ .known .beginImage := by
        rintro ⟨⟩
        cases hk
      have hlen' : n ≤ (r.operandsOf ops).length := by
        rwa [Program.operandsOf, List.length_reverse, List.length_map]
      obtain ⟨hcomplete, hasks⟩ := hone hops (Command.decode_of_unused? hk hlen') hop
      exact ⟨hcomplete, _, hasks, fun _ _ _ _ _ => rfl⟩
  | compatibility =>
      refine ⟨⟨rfl, ?_⟩, [.beginCompatibility, .endCompatibility], ?_, fun _ _ _ _ _ => rfl⟩
      · exact List.forall_mem_cons.mpr ⟨rfl, List.forall_mem_singleton.mpr rfl⟩
      · exact .cons ⟨_, _, rfl, rfl⟩ (.cons ⟨_, _, rfl, rfl⟩ .nil)
  | imageData hops span =>
      obtain ⟨hcomplete, hinstructions⟩ := Program.Complete.of_reading
        (r.reading_operands_imageData hops span) (List.forall_mem_nil _)
      rw [hinstructions]
      exact ⟨hcomplete, [], .nil, fun _ _ _ _ _ => rfl⟩
  | saved =>
      refine ⟨⟨rfl, ?_⟩, [.save, .restore], ?_, fun ctx call frame m hbase => ?_⟩
      · exact List.forall_mem_cons.mpr ⟨rfl, List.forall_mem_singleton.mpr rfl⟩
      · exact .cons ⟨_, _, rfl, rfl⟩ (.cons ⟨_, _, rfl, rfl⟩ .nil)
      · have hsave : (Action.perform ctx call frame .save).run m =
            ⟨.ok frame, { m with stack := m.stack.save }, [.event (.save m.stack.current)]⟩ := rfl
        have hrestore : (Action.perform ctx call frame .restore).run
            { m with stack := m.stack.save } =
            ⟨.ok frame, m, [.event (.restore m.stack.current)]⟩ := by
          rw [Action.perform, Action.run_bind, Action.run_restoreOwn (Nat.lt_succ_of_le hbase) rfl]
          rfl
        simp only [Action.performAll, Action.run_bind, hsave, hrestore]
        rfl

/-- Neutral tokens are neutral further on, where the same is seen of them. Neither what is an
operand nor how many there are depends on spans. -/
theorem shift (h : Neutral fragment seen) (arena source : Nat) :
    Neutral (Token.shiftAll arena source fragment) seen := by
  have hoperands {ops : List Token} (hops : ∀ t ∈ ops, t.isOperand = true) :
      ∀ t ∈ ops.map (Token.shift arena source), t.isOperand = true := by
    refine List.forall_mem_map.mpr fun t ht => ?_
    have hoperand := hops t ht
    cases t with
    | operator op => cases hoperand
    | imageData span => cases hoperand
    | _ => rfl
  rw [Token.shiftAll_eq_map]
  cases h with
  | unknown hops spelling =>
      rw [List.map_append]
      exact .unknown (hoperands hops) spelling
  | unused hops hk hlen =>
      rw [List.map_append]
      exact .unused (hoperands hops) hk (by rwa [List.length_map])
  | compatibility => exact .compatibility
  | imageData hops span =>
      rw [List.map_append]
      exact .imageData (hoperands hops) _
  | saved => exact .saved

end Neutral

/-! ### Lines -/

/-- A line that is put between two lines is inserted, if the first ends at a boundary. What the last
line stands for is found behind the other two. -/
theorem Program.inserts_line {strict : Bool} {a : Bytes} {p : Program}
    (h : tokenize strict a = .ok p) (hboundary : p.Boundary p.tokens) (q s : Program) :
    (p.append s).Inserts (p.append (q.append s)) p.tokens
      (Token.shiftAll p.arena.length (p.source.length + 1) q.tokens)
      (Token.shiftAll p.arena.length (p.source.length + 1) s.tokens)
      q.arena.length (q.source.length + 1) := by
  have hfirst := carries_append_left h s
  have hfirst' := carries_append_left h (q.append s)
  -- The last line is carried over behind the second, and with it behind the first.
  have hboth : (q.append s).Carries (p.append (q.append s)) p.arena.length (p.source.length + 1)
      (Token.shiftAll q.arena.length (q.source.length + 1) s.tokens) := fun t ht => by
    refine carries_append_right p (q.append s) t ?_
    rw [append, Token.leavesAll_append]
    exact List.mem_append_right _ ht
  have hlast := (carries_append_right q s).trans hboth
  rw [Nat.add_comm q.arena.length, Nat.add_comm (q.source.length + 1)] at hlast
  have hcarries : (p.append s).Carries (p.append (q.append s)) 0 0
      (Token.shiftAll 0 0 p.tokens) := hfirst.between hfirst'
  have hfront := hboundary.shift hfirst
  rw [Token.shiftAll_zero] at hcarries hfront
  refine ⟨rfl, ?_, hfront, hcarries, (carries_append_right p s).between hlast⟩
  rw [Token.shiftAll_shiftAll, Nat.add_comm p.arena.length, Nat.add_comm (p.source.length + 1),
    ← Token.shiftAll_shiftAll, append, append]
  simp only [Token.shiftAll_eq_map, List.map_append]

/-! ### Running -/

/-- Instructions leave the stack no lower than the base of their frame. -/
theorem Action.base_le_of_steps {ctx : Context σ} {frame frame' : Frame} {is : List Instruction}
    {m : Machine σ} (hbase : frame.base ≤ m.stack.depth)
    (h : ((steps ctx (call ctx) frame is).run m).result = .ok frame') :
    frame'.base ≤ ((steps ctx (call ctx) frame is).run m).machine.stack.depth := by
  obtain ⟨hrun, hkept⟩ := keeps_steps keeps_call (Nat.le_refl frame.base) is m hbase
  rw [hkept frame' h]
  exact hrun.floor_le hbase

/-- **Neutral tokens can be inserted anywhere.** Let `r` be a program `p` with neutral tokens
inserted between two operators. If the instructions before that place end in a fault, both programs
do nothing but these. If they come to the end, both go on with the same instructions, in the same
frame and on the same machine, after `r` has shown what is seen of the neutral tokens in the state
that is current there. So the machine is the same in the end, and the result is too, except that `r`
quotes a token further on if the programs stop at an inline image that is misspelled. -/
theorem run_of_neutral_inserted (ctx : Context σ) {p r : Program}
    {front fragment back : List Token} {arena source : Nat} {seen : GState → Trace}
    (hinserts : p.Inserts r front fragment back arena source) (hneutral : Neutral fragment seen)
    (m : Machine σ) :
    let o := (Action.runProgram ctx (Action.call ctx) p).run m
    let o' := (Action.runProgram ctx (Action.call ctx) r).run m
    let start := (Action.steps ctx (Action.call ctx) { base := m.stack.depth }
      (p.instructionsFrom 0 [] front)).run m
    (∀ fault, start.result = .error fault → o = start.discard ∧ o' = start.discard) ∧
    ∀ frame, start.result = .ok frame →
      let rest := ((Action.steps ctx (Action.call ctx) frame
        (p.instructionsFrom 0 [] back)).run start.machine).discard
      let stop := Action.stop? ctx (Action.call ctx) frame
        (p.readFrom front.length 0 [] back).placed start.machine
      o = rest.after start.trace ∧
      o' = (rest.quoting arena source stop).after
        (start.trace ++ seen start.machine.stack.current) := by
  intro o o' start
  obtain ⟨hcomplete, commands, hasks, hnothing⟩ := hneutral.exists_commands (σ := σ) r
  have ho : o = ((Action.steps ctx (Action.call ctx) { base := m.stack.depth }
      p.instructions).run m).discard := Action.run_runProgram p m
  have ho' : o' = ((Action.steps ctx (Action.call ctx) { base := m.stack.depth }
      r.instructions).run m).discard := Action.run_runProgram r m
  obtain ⟨hp, hr, i, hi, hmisspelled⟩ | ⟨hp, hr⟩ := hinserts.instructions_eq hcomplete
  · refine ⟨fun _ _ => ⟨by rw [ho, hp], by rw [ho', hr]⟩, fun frame hframe => ?_⟩
    -- The instructions do not come to the end, since one of them is misspelled.
    have hspelled := Action.isMisspelled_of_steps hframe i hi
    rw [hmisspelled] at hspelled
    cases hspelled
  · rw [ho, ho', hp, hr]
    refine ⟨fun fault hfault => ?_, fun frame hframe => ?_⟩
    · rw [Action.run_steps_append_of_error hfault, Action.run_steps_append_of_error hfault]
      exact ⟨rfl, rfl⟩
    · intro rest stop
      have hbase : frame.base ≤ start.machine.stack.depth :=
        Action.base_le_of_steps (Nat.le_refl _) hframe
      have hfragment : (Action.steps ctx (Action.call ctx) frame
          (r.instructionsFrom 0 [] fragment)).run start.machine =
          ⟨.ok frame, start.machine, seen start.machine.stack.current⟩ := by
        rw [Action.steps_eq_performAll ctx (Action.call ctx) frame hasks]
        exact hnothing ctx (Action.call ctx) frame start.machine hbase
      have hback := Action.run_steps_shift ctx (Action.call ctx) arena source frame
        (p.readFrom front.length 0 [] back).placed start.machine
      rw [Program.map_snd_readFrom] at hback
      constructor
      · rw [Action.run_steps_append hframe]
        rfl
      · rw [Action.run_steps_append hframe, Action.run_steps_append (congrArg Outcome.result
          hfragment), hfragment, hback, Outcome.after_after, Action.discard_after_quoting]

namespace SkippedWord

/-- A line with a word that is **no operator**, after a string. -/
def word : Bytes := Utf8.encode "(x) foo"

/-- The program of an inline image that **lacks the value** of an entry. -/
def plain : Program where
  source := TwoLines.misspelled
  arena := Utf8.encode "W"
  tokens := [.operator (.known .beginImage), .name ⟨0, 1⟩, .imageData ⟨9, 0⟩]

/-- The same with a word **in front**. -/
def skipping : Program where
  source := Utf8.encode "foo BI /W ID EI"
  arena := Utf8.encode "W"
  tokens := [.operator (.unknown "foo"), .operator (.known .beginImage), .name ⟨0, 1⟩,
    .imageData ⟨13, 0⟩]

/-- An inline image without an entry's value can be tokenized. -/
theorem tokenize_plain : tokenize false TwoLines.misspelled = .ok plain := by
  with_unfolding_all rfl

/-- So it can behind a word. -/
theorem tokenize_skipping : tokenize false (Utf8.encode "foo BI /W ID EI") = .ok skipping := by
  with_unfolding_all rfl

/-- A word that is no operator is neutral, with the string before it. -/
theorem neutral_word : Neutral (TwoLines.program word).tokens fun _ =>
    [.event (.unknownOperator "foo")] := by
  have htokens : (TwoLines.program word).tokens =
      [.string ⟨0, 1⟩] ++ [.operator (.unknown "foo")] := by
    with_unfolding_all rfl
  rw [htokens]
  exact .unknown (List.forall_mem_singleton.mpr rfl) "foo"

end SkippedWord

open TwoLines SkippedWord in
/-- A word that is no operator is reported between two lines, which do what they do without it.
Nothing else is seen in addition. -/
theorem run_of_neutral_inserted_of_word :
    let a := program first
    let p := a.append (program second)
    let r := a.append ((program word).append (program second))
    let o := (Action.runProgram ctx (Action.call ctx) p).run start
    let o' := (Action.runProgram ctx (Action.call ctx) r).run start
    tokenize false (first ++ byte '\n' :: second) = .ok p ∧
    tokenize false (first ++ byte '\n' :: (word ++ byte '\n' :: second)) = .ok r ∧
    Neutral (program word).tokens (fun _ => [.event (.unknownOperator "foo")]) ∧
    o.result.isOk = true ∧ o'.result.isOk = true ∧ o'.machine = o.machine ∧
    ∃ t t', o.trace = t ++ t' ∧ o'.trace = t ++ .event (.unknownOperator "foo") :: t' := by
  intro a p r o o'
  have ha := tokenize_eq_program first (by decide +kernel)
  have hword := tokenize_eq_program word (by decide +kernel)
  have hsecond := tokenize_eq_program second (by decide +kernel)
  have hboundary : a.Boundary a.tokens :=
    ⟨List.isEmpty_iff.mp (by decide +kernel), by decide +kernel⟩
  obtain ⟨hfault, hruns⟩ := run_of_neutral_inserted ctx
    (Program.inserts_line ha hboundary (program word) (program second)) (neutral_word.shift _ _)
    start
  have hresult : o.result.isOk = true ∧ o'.result.isOk = true := by decide +kernel
  refine ⟨Program.tokenize_lines ha hsecond,
    Program.tokenize_lines ha (Program.tokenize_lines hword hsecond), neutral_word, hresult.1,
    hresult.2, ?_⟩
  rcases hran : ((Action.steps ctx (Action.call ctx) { base := start.stack.depth }
      (p.instructionsFrom 0 [] a.tokens)).run start).result with fault | frame
  · have ho : o.result = _ := congrArg Outcome.result (hfault fault hran).1
    rw [Outcome.discard, hran] at ho
    rw [ho] at hresult
    cases hresult.1
  · obtain ⟨ho, ho'⟩ := hruns frame hran
    refine ⟨?_, _, _, congrArg Outcome.trace ho, (congrArg Outcome.trace ho').trans ?_⟩
    · have hmachine := congrArg Outcome.machine ho'
      rw [Outcome.machine_after, Outcome.machine_quoting] at hmachine
      exact hmachine.trans (congrArg Outcome.machine ho).symm
    · rw [Outcome.trace_after, Outcome.trace_quoting, List.append_assoc]
      rfl

open TwoLines SkippedWord in
/-- Image data that are misspelled are quoted with **their place**, which is not the same behind a
word that is skipped. -/
theorem result_of_word_inserted_ne :
    tokenize false misspelled = .ok plain ∧
    tokenize false (Utf8.encode "foo BI /W ID EI") = .ok skipping ∧
    plain.Inserts skipping [] [.operator (.unknown "foo")] plain.tokens 0 4 ∧
    Neutral [.operator (.unknown "foo")] (fun _ => [.event (.unknownOperator "foo")]) ∧
    ((Action.runProgram ctx (Action.call ctx) skipping).run start).result ≠
      ((Action.runProgram ctx (Action.call ctx) plain).run start).result := by
  have hback : plain.Carries skipping 0 4 plain.tokens := by
    refine List.forall_mem_cons.mpr ⟨trivial, List.forall_mem_cons.mpr ⟨?_, ?_⟩⟩
    · rfl
    · refine List.forall_mem_singleton.mpr ?_
      rw [Token.CarriedOver]
      decide +kernel
  refine ⟨tokenize_plain, tokenize_skipping, ⟨rfl, rfl, ⟨rfl, rfl⟩, List.forall_mem_nil _, hback⟩,
    .unknown (List.forall_mem_nil _) "foo", fun h => ?_⟩
  have hmessage := congrArg (Except.mapError Fault.message) h
  revert hmessage
  decide +kernel

end ContentStream
