import ContentStream.Proofs.ClipRuns
import ContentStream.Proofs.Faults
import ContentStream.Proofs.Spans

/-!
# Splitting

A content stream may be cut in two where nothing is left open. The program of two lines has the
tokens of the one and then those of the other, further on; if no operands are left over in between,
it has the instructions of both. Those of the second are carried out in the frame that the first has
left. If that frame is idle, and the stack is as deep as it was, it is the frame that the second
line begins with when it is executed by itself: a path, a clip or a text object that is not open
leaves no trace in it.

So the two lines do the same together and one after the other. They also fail alike, with one
exception. An inline image that is not spelled out correctly is reported by quoting a token, and the
token is quoted with the place where it is found, which is further on in the two lines together.

## Main definitions

* `Program.append`: the program of two lines.
* `Frame.Idle`: nothing is left open.
* `Program.Rests`: a program is run to the end and leaves nothing open.
* `Outcome.quoting`: an outcome that quotes tokens further on.

## Main results

* `Program.tokenize_lines`: the program of two lines is made of their programs.
* `Program.instructions_append`: the instructions of two lines.
* `Action.run_steps_shift`: carrying out instructions further on.
* `Program.Rests.outcome_append`: carrying out two lines.
* `execute_append_line`: executing two lines.
-/

namespace ContentStream

variable {σ : Type}

/-! ### Two lines -/

namespace Program

/-- The program of **two lines**, the second of which is found after the first. -/
def append (p q : Program) : Program where
  source := p.source ++ byte '\n' :: q.source
  arena := p.arena ++ q.arena
  tokens := p.tokens ++ Token.shiftAll p.arena.length (p.source.length + 1) q.tokens

variable {strict : Bool} {a b : Bytes} {p q : Program}

/-- Two lines that can be tokenized are tokenized together. -/
theorem tokenize_lines (ha : tokenize strict a = .ok p) (hb : tokenize strict b = .ok q) :
    tokenize strict (a ++ byte '\n' :: b) = .ok (p.append q) := by
  obtain ⟨rfl, harenaA, hA⟩ := scan_of_tokenize ha
  obtain ⟨rfl, harenaB, hB⟩ := scan_of_tokenize hb
  obtain ⟨harena, htokens⟩ := scan_append_line hA q.source
  rw [tokenize_eq, harena, htokens, hB, ← harenaA, ← harenaB]
  rfl

/-- The tokens of the first line are found where they were, since all of their spans lie inside that
line. -/
theorem carries_append_left (h : tokenize strict a = .ok p) (q : Program) :
    p.Carries (p.append q) 0 0 p.tokens := by
  intro t ht
  have htext {span : Span} (hspan : t.textSpan? = some span) :
      (p.append q).decoded span = p.decoded span :=
    Span.of_append_right ((consecutive_textSpans h).apart.stop_le
      (List.mem_filterMap.mpr ⟨t, ht, hspan⟩)) _
  have himage {span : Span} (hspan : t.imageSpan? = some span) :
      (p.append q).raw span = p.raw span :=
    Span.of_append_right ((apart_imageSpans h).stop_le
      (List.mem_filterMap.mpr ⟨t, ht, hspan⟩)) _
  cases t with
  | string span | name span => exact htext rfl
  | imageData span => exact himage rfl
  | _ => trivial

/-- The tokens of the second line are found further on: strings and names behind the arena of the
first line, and image data behind its source and the line end. -/
theorem carries_append_right (p q : Program) :
    q.Carries (p.append q) p.arena.length (p.source.length + 1) q.tokens := by
  intro t _
  have hsource : (p.append q).source = (p.source ++ [byte '\n']) ++ q.source := by simp [append]
  cases t with
  | string span | name span => exact span.of_append_left p.arena q.arena
  | imageData span =>
      have h := span.of_append_left (p.source ++ [byte '\n']) q.source
      rw [List.length_append] at h
      rw [Token.CarriedOver, raw, hsource]
      exact h
  | _ => trivial

/-- The instructions of two lines, if all inline images in the first are spelled out correctly, and
no operands are left over there. -/
theorem instructions_append (h : tokenize strict a = .ok p) (hleft : p.leftover = [])
    (hspelled : ∀ i ∈ p.instructions, i.isMisspelled = false) (q : Program) :
    (p.append q).instructions = p.instructions ++
      q.instructions.map (Instruction.shift p.arena.length (p.source.length + 1)) := by
  have hfirst := carries_append_left h q
  have hinstructions : (p.append q).instructionsFrom 0 [] p.tokens = p.instructions := by
    have hshift := instructionsFrom_shift hfirst 0 []
    rw [Token.shiftAll_zero] at hshift
    rw [hshift, List.map_congr_left fun i _ => i.shift_zero, List.map_id']
    rfl
  have hleftover : ((p.append q).readFrom 0 0 [] p.tokens).left = [] := by
    have hshift := readFrom_shift hfirst 0 0 []
    rw [Token.shiftAll_zero] at hshift
    rw [hshift]
    exact hleft
  rw [← hinstructions] at hspelled
  calc (p.append q).instructions
      = (p.append q).instructionsFrom 0 [] p.tokens ++
          (p.append q).instructionsFrom 0 ((p.append q).readFrom 0 0 [] p.tokens).left
            (Token.shiftAll p.arena.length (p.source.length + 1) q.tokens) :=
        instructionsFrom_append (Nat.zero_le _) hspelled _
    _ = p.instructions ++
          q.instructions.map (Instruction.shift p.arena.length (p.source.length + 1)) := by
        rw [hinstructions, hleftover, instructionsFrom_shift (carries_append_right p q)]
        rfl

end Program

/-! ### Idle frames -/

/-- A frame is **idle** if nothing is left open in it. -/
structure Frame.Idle (frame : Frame) : Prop where
  path : frame.path = none
  pendingClip : frame.pendingClip = none
  compatibility : frame.compatibility = 0
  text : frame.text.active = false

/-- A sound frame that is idle is as good as fresh. -/
theorem Frame.Idle.eq_fresh {frame : Frame} (h : frame.Idle) (hsound : frame.Sound) :
    frame = { base := frame.base } := by
  obtain ⟨path, pendingClip, compatibility, text, base⟩ := frame
  obtain ⟨rfl, rfl, rfl, htext⟩ := h
  obtain rfl : text = TextObject.closed := hsound.text htext
  rfl

instance (frame : Frame) : Decidable frame.Idle :=
  decidable_of_iff (frame.path = none ∧ frame.pendingClip = none ∧ frame.compatibility = 0 ∧
      frame.text.active = false)
    ⟨fun ⟨path, pendingClip, compatibility, text⟩ => ⟨path, pendingClip, compatibility, text⟩,
      fun h => ⟨h.path, h.pendingClip, h.compatibility, h.text⟩⟩

/-- What the **instructions of a program** do that is run on a machine. -/
def Program.outcome (p : Program) (ctx : Context σ) (m : Machine σ) : Outcome σ Frame :=
  (Action.steps ctx (Action.call ctx) { base := m.stack.depth } p.instructions).run m

/-- A program **comes to rest** on a machine: it is run to the end and leaves an idle frame, no
operands, and the stack as deep as it was. -/
structure Program.Rests (p : Program) (ctx : Context σ) (m : Machine σ) : Prop where
  frame : ∃ frame, (p.outcome ctx m).result = .ok frame ∧ frame.Idle
  operands : p.leftover = []
  depth : (p.outcome ctx m).machine.stack.depth = m.stack.depth

instance (p : Program) (ctx : Context σ) (m : Machine σ) : Decidable (p.Rests ctx m) :=
  have hframe : (∃ frame ∈ (p.outcome ctx m).result.toOption, frame.Idle) ↔
      ∃ frame, (p.outcome ctx m).result = .ok frame ∧ frame.Idle := by
    cases (p.outcome ctx m).result <;> simp [Except.toOption]
  decidable_of_iff ((∃ frame ∈ (p.outcome ctx m).result.toOption, frame.Idle) ∧ p.leftover = [] ∧
      (p.outcome ctx m).machine.stack.depth = m.stack.depth)
    ⟨fun ⟨frame, operands, depth⟩ => ⟨hframe.mp frame, operands, depth⟩,
      fun h => ⟨hframe.mpr h.frame, h.operands, h.depth⟩⟩

/-! ### Instructions one after the other -/

namespace Action

section Steps

variable {ctx : Context σ} {call : Bytes → Action σ Unit} {m : Machine σ} {frame frame' : Frame}
  {is : List Instruction} (h : ((steps ctx call frame is).run m).result = .ok frame')

include h

/-- Instructions that are carried out to the end **are followed by others**, which begin where they
have led to. What is seen of them comes first. -/
theorem run_steps_append (js : List Instruction) :
    let o := (steps ctx call frame is).run m
    (steps ctx call frame (is ++ js)).run m =
      ((steps ctx call frame' js).run o.machine).after o.trace := by
  induction is generalizing frame m with
  | nil =>
      obtain rfl := Except.ok.inj h
      rfl
  | cons i is ih =>
      simp only [List.cons_append, steps, run_bind] at h ⊢
      rcases hstep : (step ctx call frame i).run m with ⟨fault | next, n, t⟩
      · rw [hstep] at h
        cases h
      · rw [hstep] at h
        simp only [ih h, Outcome.machine_after, Outcome.trace_after, Outcome.after_after]

/-- Instructions that are carried out to the end are spelled out correctly, since the first that is
not would have ended them with a fault. -/
theorem isMisspelled_of_steps : ∀ i ∈ is, i.isMisspelled = false := by
  induction is generalizing frame m with
  | nil => exact fun _ hi => absurd hi List.not_mem_nil
  | cons i is ih =>
      rw [steps, run_bind] at h
      rcases hstep : (step ctx call frame i).run m with ⟨fault | next, n, t⟩
      · rw [hstep] at h
        cases h
      · rw [hstep] at h
        refine List.forall_mem_cons.mpr ⟨?_, ih h⟩
        cases i with
        | misspelled flaw => cases hstep
        | _ => rfl

end Steps

/-- Instructions that end in a fault are not followed by others. The fault is that of one of them,
and none is carried out behind it. -/
theorem run_steps_append_of_error {ctx : Context σ} {call : Bytes → Action σ Unit} {m : Machine σ}
    {frame : Frame} {is : List Instruction} {fault : Fault}
    (h : ((steps ctx call frame is).run m).result = .error fault) (js : List Instruction) :
    (steps ctx call frame (is ++ js)).run m = (steps ctx call frame is).run m := by
  induction is generalizing frame m with
  | nil => cases h
  | cons i is ih =>
      simp only [List.cons_append, steps, run_bind] at h ⊢
      rcases hstep : (step ctx call frame i).run m with ⟨fault' | next, n, t⟩
      · rfl
      · rw [hstep] at h
        simp only [ih h]

end Action

/-! ### Quoting -/

/-- An outcome that **quotes tokens further on**, if the instructions stop at an inline image that
is not spelled out correctly. Any other outcome is the same further on. -/
def Outcome.quoting {α : Type} (arena source : Nat) (stop : Option (Nat × Instruction))
    (o : Outcome σ α) : Outcome σ α :=
  match stop with
  | some (_, .misspelled flaw) =>
    { o with result := .error (.invalidInlineImage (flaw.shift arena source)) }
  | _ => o

/-- Only the result quotes tokens. -/
theorem Outcome.machine_quoting {α : Type} (arena source : Nat) (stop : Option (Nat × Instruction))
    (o : Outcome σ α) : (o.quoting arena source stop).machine = o.machine := by
  unfold quoting
  split <;> rfl

/-- So what is seen is the same. -/
theorem Outcome.trace_quoting {α : Type} (arena source : Nat) (stop : Option (Nat × Instruction))
    (o : Outcome σ α) : (o.quoting arena source stop).trace = o.trace := by
  unfold quoting
  split <;> rfl

/-- An outcome of which **the result is not used**, but for whether there is one. -/
def Outcome.discard {α : Type} (o : Outcome σ α) : Outcome σ Unit :=
  { o with result := o.result.map fun _ => () }

namespace Action

/-- An instruction that is spelled out correctly is the same further on. -/
theorem shift_of_correct {i : Instruction} (hi : i.isMisspelled = false) (arena source : Nat) :
    i.shift arena source = i := by
  cases i with
  | misspelled flaw => cases hi
  | _ => rfl

/-- An instruction that is spelled out correctly quotes nothing. -/
theorem quoting_of_correct {α : Type} {i : Instruction} (hi : i.isMisspelled = false)
    (arena source k : Nat) (o : Outcome σ α) : o.quoting arena source (some (k, i)) = o := by
  cases i with
  | misspelled flaw => cases hi
  | _ => rfl

/-- What is seen before does not change what is quoted. -/
theorem quoting_after {α : Type} (arena source : Nat) (stop : Option (Nat × Instruction))
    (t : Trace) (o : Outcome σ α) :
    (o.after t).quoting arena source stop = (o.quoting arena source stop).after t := by
  unfold Outcome.quoting
  split <;> rfl

/-- Neither does it matter to what is quoted that the result is not used. -/
theorem discard_after_quoting {α : Type} (arena source : Nat) (stop : Option (Nat × Instruction))
    (t : Trace) (o : Outcome σ α) :
    ((o.quoting arena source stop).after t).discard =
      (o.discard.quoting arena source stop).after t := by
  unfold Outcome.quoting
  split <;> rfl

/-- Instructions further on do the same, and give **the same result apart from what it quotes**.
That is the position in the message of an inline image that is misspelled. -/
theorem run_steps_shift (ctx : Context σ) (call : Bytes → Action σ Unit) (arena source : Nat)
    (frame : Frame) (is : List (Nat × Instruction)) (m : Machine σ) :
    (steps ctx call frame ((is.map Prod.snd).map (Instruction.shift arena source))).run m =
      ((steps ctx call frame (is.map Prod.snd)).run m).quoting arena source
        (stop? ctx call frame is m) := by
  induction is generalizing frame m with
  | nil => rfl
  | cons x is ih =>
      obtain ⟨k, i⟩ := x
      simp only [List.map_cons, steps, stop?, run_bind]
      -- Only an inline image that is misspelled quotes anything, and nothing comes after it.
      rcases hmisspelled : i.isMisspelled with _ | _
      · rw [shift_of_correct hmisspelled]
        rcases (step ctx call frame i).run m with ⟨fault | frame', n, t⟩
        · exact (quoting_of_correct hmisspelled arena source k _).symm
        · simp only [ih, quoting_after]
      · cases i with
        | misspelled flaw => rfl
        | _ => cases hmisspelled

end Action

/-! ### Executing -/

section Executing

variable {ctx : Context σ} {m : Machine σ} {p : Program}

/-- A program that comes to rest ends with the frame that another begins with, in the scopes of the
first. -/
theorem Program.Rests.result_eq (h : p.Rests ctx m) :
    (p.outcome ctx m).result = .ok { base := (p.outcome ctx m).machine.stack.depth } ∧
      (p.outcome ctx m).machine.scopes = m.scopes := by
  obtain ⟨⟨frame, hresult, hidle⟩, -, hdepth⟩ := h
  have hclips : (p.outcome ctx m).Clips m.stack Frame.Sound :=
    Action.clips_steps (fun content _ => Action.clips_call content) (Frame.sound_fresh _) _
  obtain ⟨hscopes, hbase⟩ : (p.outcome ctx m).machine.scopes = m.scopes ∧ ∀ frame',
      (p.outcome ctx m).result = .ok frame' → frame'.base = m.stack.depth :=
    Action.scopes_run_steps { base := m.stack.depth } p.instructions m
  rw [hresult, hidle.eq_fresh (hclips.result frame hresult), hbase frame hresult, hdepth]
  exact ⟨rfl, hscopes⟩

/-- The program of **two lines**, the first of which comes to rest, does what they do one after the
other. -/
theorem Program.Rests.outcome_append (h : p.Rests ctx m) {strict : Bool} {a : Bytes}
    (ha : tokenize strict a = .ok p) (q : Program) :
    let first := p.outcome ctx m
    (p.append q).outcome ctx m =
      ((q.outcome ctx first.machine).quoting p.arena.length (p.source.length + 1)
        (q.stop? ctx first.machine)).after first.trace := by
  intro first
  have hresult : first.result = .ok { base := first.machine.stack.depth } := h.result_eq.1
  have hplaced : q.placed.map Prod.snd = q.instructions := q.map_snd_readFrom 0 0 [] q.tokens
  have hshift := Action.run_steps_shift ctx (Action.call ctx) p.arena.length (p.source.length + 1)
    { base := first.machine.stack.depth } q.placed first.machine
  rw [hplaced] at hshift
  rw [outcome, instructions_append ha h.operands (Action.isMisspelled_of_steps hresult)]
  exact (Action.run_steps_append hresult _).trans (congrArg _ hshift)

/-- A content stream that is not encoded does what its program does. -/
theorem run_execute_of_tokenize {content : Bytes}
    (hdecode : ctx.library.decode m.scopes content = .ok content)
    (hcontent : tokenize ctx.config.strictImageEnd content = .ok p) :
    (Action.execute ctx content).run m = (p.outcome ctx m).discard := by
  rw [Action.execute, Action.run_runContent, Context.program?, hdecode]
  simp only [Except.bind, hcontent]
  rfl

/-- **Executing two lines** that are not encoded, the first of which comes to rest: the device
receives what it receives if they are executed one after the other, and the machine ends in the same
state. The result is the same too, except that it quotes tokens further on if the second line stops
at an inline image that is not spelled out correctly. -/
theorem execute_append_line {a b : Bytes} {q : Program}
    (hdecode : ∀ raw, ctx.library.decode m.scopes raw = .ok raw)
    (ha : tokenize ctx.config.strictImageEnd a = .ok p)
    (hb : tokenize ctx.config.strictImageEnd b = .ok q) (hrests : p.Rests ctx m) :
    let first := (Action.execute ctx a).run m
    let second := (Action.execute ctx b).run first.machine
    first.result = .ok () ∧
    (Action.execute ctx (a ++ byte '\n' :: b)).run m =
      (second.quoting p.arena.length (a.length + 1) (q.stop? ctx first.machine)).after
        first.trace := by
  obtain ⟨hresult, hscopes⟩ := hrests.result_eq
  intro first second
  have hfirst : first = (p.outcome ctx m).discard := run_execute_of_tokenize (hdecode a) ha
  have hsecond : second = (q.outcome ctx (p.outcome ctx m).machine).discard := by
    have hdecode' : ctx.library.decode (p.outcome ctx m).machine.scopes b = .ok b :=
      hscopes ▸ hdecode b
    simp only [second, hfirst]
    exact run_execute_of_tokenize hdecode' hb
  have hboth : (Action.execute ctx (a ++ byte '\n' :: b)).run m =
      ((p.append q).outcome ctx m).discard :=
    run_execute_of_tokenize (hdecode _) (Program.tokenize_lines ha hb)
  rw [hboth, hrests.outcome_append ha, Action.discard_after_quoting, (leavesAll_tokenize ha).1,
    hsecond, hfirst]
  exact ⟨congrArg (Except.map fun _ => ()) hresult, rfl⟩

end Executing

namespace TwoLines

/-- A context **without resources**. -/
def ctx : Context Nat where
  library := Directory.library #[]
  surface := fun _ => none

/-- A **machine** in no scope. -/
def start : Machine Nat where
  scopes := []

/-- A line that **saves and restores**, and selects a color space by name. -/
def first : Bytes := Utf8.encode "q Q /DeviceGray cs"

/-- A line with a **name and numbers**. -/
def second : Bytes := Utf8.encode "/DeviceRGB cs 1 0 0 sc"

/-- A line with an **inline image** that lacks the value of an entry. -/
def misspelled : Bytes := Utf8.encode "BI /W ID EI"

/-- The **program** of a line, if it can be tokenized. -/
def program (line : Bytes) : Program :=
  match tokenize ctx.config.strictImageEnd line with
  | .ok p => p
  | .error _ => ⟨[], [], []⟩

/-- A line that can be tokenized is tokenized to its program. -/
theorem tokenize_eq_program (line : Bytes)
    (h : (tokenize ctx.config.strictImageEnd line).isOk = true) :
    tokenize ctx.config.strictImageEnd line = .ok (program line) := by
  rcases hp : tokenize ctx.config.strictImageEnd line with fault | p
  · rw [hp] at h
    cases h
  · rw [program, hp]

end TwoLines

open TwoLines in
/-- The name on the second line is found further on in the arena. It is the name of a color space,
and what it comes to does not depend on where it is. -/
theorem execute_append_line_of_spaces :
    let o := (Action.execute ctx first).run start
    (∀ raw, ctx.library.decode start.scopes raw = .ok raw) ∧
    tokenize ctx.config.strictImageEnd first = .ok (program first) ∧
    tokenize ctx.config.strictImageEnd second = .ok (program second) ∧
    (program first).Rests ctx start ∧ o.result = .ok () ∧
    (Action.execute ctx (first ++ byte '\n' :: second)).run start =
      (((Action.execute ctx second).run o.machine).quoting (program first).arena.length
        (first.length + 1) ((program second).stop? ctx o.machine)).after o.trace := by
  have hfirst := tokenize_eq_program first (by decide +kernel)
  have hsecond := tokenize_eq_program second (by decide +kernel)
  have hrests : (program first).Rests ctx start := by decide +kernel
  exact ⟨fun _ => rfl, hfirst, hsecond, hrests,
    execute_append_line (fun _ => rfl) hfirst hsecond hrests⟩

open TwoLines in
/-- Image data that stand where a value belongs are quoted with **their place**, which is not the
same in both lines as in the second. -/
theorem result_of_lines_ne :
    let o := (Action.execute ctx first).run start
    (∀ raw, ctx.library.decode start.scopes raw = .ok raw) ∧
    tokenize ctx.config.strictImageEnd first = .ok (program first) ∧
    tokenize ctx.config.strictImageEnd misspelled = .ok (program misspelled) ∧
    (program first).Rests ctx start ∧
    ((Action.execute ctx (first ++ byte '\n' :: misspelled)).run start).result ≠
      ((Action.execute ctx misspelled).run o.machine).result := by
  intro o
  refine ⟨fun _ => rfl, tokenize_eq_program first (by decide +kernel),
    tokenize_eq_program misspelled (by decide +kernel), by decide +kernel, fun h => ?_⟩
  have hmessage := congrArg (Except.mapError Fault.message) h
  revert hmessage
  decide +kernel

end ContentStream
