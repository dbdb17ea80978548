import ContentStream.Proofs.Emissions
import ContentStream.Proofs.Nesting

/-!
# Text inside text objects

Text is written in a text object. Whether one is open is kept in the frame, which a program does not
share with any other; it can be read off the strides that came before: one is open if it was opened
and has not been closed since, by the program itself. Without an open one, the operators that move
in it or show strings do nothing whatever, not even to the parameters that some of them set.

So every glyph is shown by such an operator, in an open text object of its own program. A program
that is called begins with no text object, whatever its caller has open, and gives the caller's back
as it was.

## Main definitions

* `Keyword.textRole`: what an operator has to do with text.
* `TextOpen`: what the strides that came before say of the text object.
* `Trace.glyphs`: the glyphs of a trace, with the places where they stand.
* `Stride.Shows`: where the glyphs of a stride come from.
* `Stride.KeepsToText`: all of this, along with what came before the stride.

## Main results

* `Stride.outcome_of_closed`: without a text object nothing is written.
* `active_iff_of_strides`: a text object is open if what came before says so.
* `exists_showing`: all the glyphs of an execution come of strides that show text.
* `glyphs_keep_to_text`: text is shown in open text objects only.
-/

namespace ContentStream

variable {σ : Type}

/-! ### What operators have to do with text -/

/-- What an operator **has to do with text**: it opens a text object or closes it, moves in one, or
shows strings in one. -/
inductive TextRole where
  | opens
  | closes
  | moves
  | shows
  | other
deriving DecidableEq

/-- Whether an operator **writes**: it takes an open text object. -/
def TextRole.writes : TextRole → Bool
  | moves | shows => true
  | _ => false

/-- What a **keyword** has to do with text. -/
def Keyword.textRole : Keyword → TextRole
  | .beginText => .opens
  | .endText => .closes
  | .moveLine | .moveLineLeading | .textMatrix | .nextLine => .moves
  | .showText | .showAdjusted | .nextLineShow | .nextLineShowSpaced => .shows
  | _ => .other

/-- What an **instruction** has to do with text. -/
def Instruction.textRole : Instruction → TextRole
  | .operate (.known k) _ => k.textRole
  | _ => .other

def Writing.textRole : Writing → TextRole
  | .moveLine _ _ | .moveLineLeading _ _ | .setMatrix _ | .nextLine => .moves
  | .write _ | .writeAdjusted _ | .nextLineWrite _ | .nextLineWriteSpaced _ _ _ => .shows

/-- What a **command** has to do with text. -/
def Command.textRole : Command → TextRole
  | .beginText => .opens
  | .endText => .closes
  | .write step => step.textRole
  | _ => .other

namespace Command

/-- A command has to do with text what its operator has. -/
theorem textRole_of_decode {op : Operator} {operands : List Operand} {command : Command}
    (h : decode op operands = .ok command) :
    command.textRole = (Instruction.operate op operands).textRole := by
  cases Operator.AsksFor.of_decode h <;> rfl

/-- Commands that write are writing steps. -/
theorem exists_write_of_writes {command : Command} (h : command.textRole.writes = true) :
    ∃ step, command = .write step := by
  cases command with
  | write step => exact ⟨step, rfl⟩
  | _ => cases h

/-- Glyphs come only of commands that show strings. -/
theorem glyph_not_mem_kinds {command : Command} (h : command.textRole ≠ .shows) :
    EventKind.glyph ∉ command.kinds := by
  cases command with
  | write step =>
      cases step with
      | moveLine | moveLineLeading | setMatrix | nextLine => exact List.not_mem_nil
      | _ => exact absurd rfl h
  | _ => simp [kinds]

end Command

/-- So an instruction emits none that does not show strings. -/
theorem Instruction.glyph_not_mem_kinds {i : Instruction} (h : i.textRole ≠ .shows) :
    EventKind.glyph ∉ i.kinds := by
  rcases i with ⟨op, operands⟩ | ⟨dict, data⟩ | flaw
  · rw [Instruction.kinds]
    rcases hdecode : Command.decode op operands with fault | command
    · exact List.not_mem_nil
    · exact Command.glyph_not_mem_kinds (Command.textRole_of_decode hdecode ▸ h)
  · simp [Instruction.kinds]
  · exact List.not_mem_nil

/-! ### Text objects and what came before -/

/-- A text object was **opened**, and has not been closed since. -/
def TextOpen (past : List (Stride σ)) : Prop :=
  Since (fun s => s.instruction.textRole = .opens) (fun s => s.instruction.textRole ≠ .closes) past

/-- A text object is open if the last stride has opened one, or if one was open and it has not
closed it. -/
theorem textOpen_concat {past : List (Stride σ)} {s : Stride σ} : TextOpen (past ++ [s]) ↔
    s.instruction.textRole = .opens ∨ TextOpen past ∧ s.instruction.textRole ≠ .closes :=
  since_concat

namespace Action

variable {ctx : Context σ} {call : Bytes → Action σ Unit} {m : Machine σ} {frame f : Frame}
  {command : Command}

/-- A command that has nothing to do with text leaves the text object alone. What it does to the
frame is known, and text is no part of it. -/
theorem text_of_run_perform (hrole : command.textRole = .other)
    (h : ((perform ctx call frame command).run m).result = .ok f) : f.text = frame.text := by
  have halters := alters_of_run_perform h
  cases command with
  | beginText | endText => cases hrole
  | write step => cases step <;> cases hrole
  | construct | clip | beginCompatibility | endCompatibility =>
      obtain ⟨_, rfl⟩ := halters
      rfl
  | _ =>
      obtain rfl := halters
      rfl

/-- A writing step leaves a text object open or closed, as it is. -/
theorem active_of_run_write {step : Writing} (h : ((write step frame).run m).result = .ok f) :
    f.text.active = frame.text.active := by
  rw [write] at h
  split at h
  · obtain ⟨t, ht, h, -⟩ := exists_of_run_bind h
    cases h
    exact (clips_writeOpen step frame.text).result t ht
  · cases h
    rfl

/-- There is an open text object after a command if it opens one, or if there was one before and the
command does not close it. -/
theorem active_iff_of_run_perform (h : ((perform ctx call frame command).run m).result = .ok f) :
    f.text.active = true ↔
      command.textRole = .opens ∨ frame.text.active = true ∧ command.textRole ≠ .closes := by
  by_cases hother : command.textRole = .other
  · simp [text_of_run_perform hother h, hother]
  · cases command with
    | beginText =>
        cases h
        exact iff_of_true rfl (.inl rfl)
    | endText =>
        cases h
        exact iff_of_false Bool.false_ne_true (by simp [Command.textRole])
    | write step =>
        rw [active_of_run_write h]
        cases step <;> simp [Command.textRole, Writing.textRole]
    | _ => exact absurd rfl hother

end Action

namespace Stride

variable {ctx : Context σ} {past : List (Stride σ)} {s : Stride σ} {frame : Frame}

/-- What an instruction has to do with text is what its command has. -/
theorem textRole_of_decode {op : Operator} {operands : List Operand} {command : Command}
    (hi : s.instruction = .operate op operands)
    (hdecode : Command.decode op operands = .ok command) :
    s.instruction.textRole = command.textRole := by
  rw [hi, Command.textRole_of_decode hdecode]

/-- A stride that does not end in a fault is the one of a command, or of an inline image, after
which the frame is as before. -/
theorem exists_decode_or_eq (h : (s.outcome ctx).result = .ok frame) :
    (∃ op operands command, s.instruction = .operate op operands ∧
      Command.decode op operands = .ok command ∧
      ((Action.perform ctx (Action.call ctx) s.frame command).run s.machine).result = .ok frame) ∨
    s.instruction.textRole = .other ∧ frame = s.frame := by
  rcases hi : s.instruction with ⟨op, operands⟩ | ⟨dict, data⟩ | flaw
  · rcases hdecode : Command.decode op operands with fault | command
    · rw [outcome, hi, Action.step, hdecode] at h
      cases h
    · exact .inl ⟨op, operands, command, rfl, hdecode, outcome_of_decode ctx hi hdecode ▸ h⟩
  · rw [outcome, hi] at h
    exact .inr ⟨rfl, Action.eq_of_run_bind_pure h⟩
  · rw [outcome, hi] at h
    cases h

/-- A stride that has nothing to do with text leaves the text object alone. -/
theorem text_eq_of_other (hrole : s.instruction.textRole = .other)
    (h : (s.outcome ctx).result = .ok frame) : frame.text = s.frame.text := by
  rcases exists_decode_or_eq h with ⟨op, operands, command, hi, hdecode, hrun⟩ | ⟨-, rfl⟩
  · exact Action.text_of_run_perform ((textRole_of_decode hi hdecode).symm.trans hrole) hrun
  · rfl

/-- There is an open text object after a stride as there is after its command. -/
theorem active_iff (h : (s.outcome ctx).result = .ok frame) :
    frame.text.active = true ↔ s.instruction.textRole = .opens ∨
      s.frame.text.active = true ∧ s.instruction.textRole ≠ .closes := by
  rcases exists_decode_or_eq h with ⟨op, operands, command, hi, hdecode, hrun⟩ | ⟨hrole, rfl⟩
  · rw [textRole_of_decode hi hdecode]
    exact Action.active_iff_of_run_perform hrun
  · simp [hrole]

/-- Without an open text object nothing is written: an operator that would do so, and whose operands
are as they should be, has no effect at all. -/
theorem outcome_of_closed (hclosed : s.frame.text.active = false) {op : Operator}
    {operands : List Operand} {command : Command} (hi : s.instruction = .operate op operands)
    (hdecode : Command.decode op operands = .ok command)
    (hwrites : s.instruction.textRole.writes = true) :
    s.outcome ctx = ⟨.ok s.frame, s.machine, []⟩ := by
  rw [textRole_of_decode hi hdecode] at hwrites
  obtain ⟨step, rfl⟩ := Command.exists_write_of_writes hwrites
  rw [outcome_of_decode ctx hi hdecode, Action.perform, Action.write, hclosed]
  rfl

/-- So nothing is seen, whatever the operands are: those that are not as they should be are refused
before anything is done. -/
theorem trace_of_closed (hclosed : s.frame.text.active = false)
    (hwrites : s.instruction.textRole.writes = true) : (s.outcome ctx).trace = [] := by
  rcases hi : s.instruction with ⟨op, operands⟩ | ⟨dict, data⟩ | flaw
  · rcases hdecode : Command.decode op operands with fault | command
    · rw [outcome, hi, Action.step, hdecode]
      rfl
    · rw [outcome_of_closed hclosed hi hdecode hwrites]
  all_goals
    rw [hi] at hwrites
    cases hwrites

end Stride

/-- At every stride of an execution a text object is open if **what came before** says so. -/
theorem active_iff_of_strides {ctx : Context σ} {m : Machine σ} {content : Bytes}
    {past later : List (Stride σ)} {s : Stride σ}
    (h : strides ctx m content = past ++ s :: later) :
    s.frame.text.active = true ↔ TextOpen past := by
  refine strides_induction (P := fun past _ frame => frame.text.active = true ↔ TextOpen past)
    (iff_of_false Bool.false_ne_true not_since_nil) (fun past s frame m t hbefore ho => ?_) h
  rw [Stride.active_iff (congrArg Outcome.result ho), textOpen_concat, hbefore]

/-! ### Where glyphs come from -/

/-- The **glyph** that an event paints, with the transform from glyph space to device space. -/
def Event.glyph? : Event → Option (Glyph × Matrix Float)
  | .glyph _ g transform => some (g, transform)
  | _ => none

namespace Trace

/-- The **glyphs** of a trace. -/
def glyphs (t : Trace) : List (Glyph × Matrix Float) :=
  t.pick Event.glyph?

/-- The glyphs of two traces, one after the other. -/
@[simp]
theorem glyphs_append (t₁ t₂ : Trace) : glyphs (t₁ ++ t₂) = glyphs t₁ ++ glyphs t₂ :=
  pick_append _ t₁ t₂

/-- There are no glyphs among events of other kinds. -/
theorem glyphs_eq_nil {kinds : List EventKind} {t : Trace} (ht : ∀ e ∈ t.events, e.kind ∈ kinds)
    (h : .glyph ∉ kinds) : glyphs t = [] := by
  refine pick_eq_nil _ ht fun e he => ?_
  cases e with
  | glyph gs g transform => exact absurd he h
  | _ => rfl

/-- No glyph is shown when states are restored. -/
theorem glyphs_leaving (s : GStack) (depth : Nat) : glyphs (s.leaving depth) = [] :=
  glyphs_eq_nil (fun _ => kind_of_mem_leaving) (by decide)

/-- None is shown either when a program is entered. -/
theorem glyphs_entering (gs : GState) (transform : Matrix Float) (box : Option (Rect Float)) :
    glyphs (gs.entering transform box) = [] := by
  cases box <;> rfl

end Trace

/-- The glyphs of an **execution**. -/
def glyphsOf (ctx : Context σ) (m : Machine σ) (content : Bytes) : List (Glyph × Matrix Float) :=
  ((Action.execute ctx content).run m).trace.glyphs

/-- The glyphs of a program that is **called**: it is executed, if it is not nested too deeply. -/
def glyphsCalled (ctx : Context σ) (m : Machine σ) (content : Bytes) :
    List (Glyph × Matrix Float) :=
  if m.depth < ctx.config.maxDepth then glyphsOf ctx m.deeper content else []

/-- A stride **shows** some glyphs, after the strides that came before. -/
inductive Stride.Shows (ctx : Context σ) (past : List (Stride σ)) (s : Stride σ) :
    List (Glyph × Matrix Float) → Prop
  /-- It shows a string, in an open text object: whatever glyphs this takes. -/
  | writes {glyphs : List (Glyph × Matrix Float)} (hopen : TextOpen past)
      (hshows : s.instruction.textRole = .shows) : Shows ctx past s glyphs
  /-- It begins a form or a cell: what the program shows that is called. -/
  | calls {e : Enclosure σ} (h : e.Begins ctx s.machine s.instruction) :
      Shows ctx past s (glyphsCalled ctx (e.enter s.machine) e.content)
  /-- Otherwise: none. -/
  | nothing : Shows ctx past s []

section

variable {ctx : Context σ} {m : Machine σ} {content : Bytes}

/-- The glyphs of a call are those of the program, if it is executed. -/
theorem glyphs_run_call (m : Machine σ) (content : Bytes) :
    ((Action.call ctx content).run m).trace.glyphs = glyphsCalled ctx m content :=
  pick_run_call _ m content

/-- The glyphs of a sub-program are those of its content. -/
theorem glyphs_run_subProgram (content : Bytes) (transform : Matrix Float)
    (box : Option (Rect Float)) (scope : Option σ) (m : Machine σ) :
    ((Action.subProgram (Action.call ctx) content transform box scope).run m).trace.glyphs =
      glyphsCalled ctx (m.enter transform box scope) content := by
  rw [Action.run_subProgram_eq Action.keeps_call]
  simp only [Trace.glyphs_append, Trace.glyphs_entering, glyphs_run_call, Trace.glyphs_leaving,
    List.append_nil, List.nil_append]

namespace Stride

variable {past : List (Stride σ)} {s : Stride σ}

/-- A stride that calls a program shows what the program shows, and leaves the frame and the
parameters of text as they are. -/
theorem outcome_of_begins {e : Enclosure σ} (h : e.Begins ctx s.machine s.instruction) :
    (s.outcome ctx).trace.glyphs = glyphsCalled ctx (e.enter s.machine) e.content ∧
    (s.outcome ctx).result = .ok s.frame ∧
    (s.outcome ctx).machine.stack.current.text = s.state.text := by
  cases e with
  | form form =>
      rw [outcome_of_beginsForm h]
      refine ⟨?_, rfl, rfl⟩
      simp only [Trace.glyphs_append, Trace.glyphs_entering, glyphs_run_call, Trace.glyphs_leaving,
        List.append_nil, List.nil_append]
      rfl
  | cell tiling tint =>
      obtain ⟨side, ink, tiles, finished, ho⟩ := outcome_of_beginsCell h
      refine ⟨?_, by rw [ho], by rw [ho]; cases side <;> rfl⟩
      refine (pick_of_beginsCell (fun e he => ?_) h).trans (glyphs_run_call _ _)
      cases e <;> first | rfl | simp [Event.kind] at he

/-- Where the glyphs of a stride come from: an operator that shows strings, or a program that is
called. -/
theorem shows (hopen : s.frame.text.active = true ↔ TextOpen past) :
    s.Shows ctx past (s.outcome ctx).trace.glyphs := by
  by_cases hcalled : ∃ k content, Calls ctx s.machine s.instruction k content
  · obtain ⟨k, content, hcalls⟩ := hcalled
    obtain ⟨e, hbegins, -, -⟩ := Enclosure.exists_begins hcalls
    rw [(outcome_of_begins hbegins).1]
    exact .calls hbegins
  · by_cases hshows : s.instruction.textRole = .shows
    · by_cases hactive : s.frame.text.active = true
      · exact .writes (hopen.mp hactive) hshows
      · rw [trace_of_closed (Bool.not_eq_true _ ▸ hactive) (by rw [hshows]; rfl)]
        exact .nothing
    · have hglyphs : (s.outcome ctx).trace.glyphs = [] :=
        Trace.glyphs_eq_nil (kind_mem_of_not_calls fun k content h => hcalled ⟨k, content, h⟩)
          (Instruction.glyph_not_mem_kinds hshows)
      rw [hglyphs]
      exact .nothing

end Stride

/-! ### All the glyphs of an execution -/

/-- The glyphs of an execution are those of its strides, one after the other. -/
theorem glyphsOf_eq (ctx : Context σ) (m : Machine σ) (content : Bytes) :
    glyphsOf ctx m content =
      (strides ctx m content).flatMap fun s => (s.outcome ctx).trace.glyphs := by
  rw [glyphsOf, trace_execute]
  exact Trace.pick_flatMap _ _ _

/-- A stride **shows text** in an execution, after others of its program, which is one of those that
start running: it shows a string, and a text object is open in that program. -/
structure ShowsText (ctx : Context σ) (m : Machine σ) (content : Bytes) (past : List (Stride σ))
    (s : Stride σ) : Prop where
  exists_strides : ∃ enclosing n content' later, Starts ctx m content enclosing n content' ∧
    strides ctx n content' = past ++ s :: later
  textOpen : TextOpen past
  shows : s.instruction.textRole = .shows

/-- Glyphs that are **shown as text**: those of some strides that show text, one after the other. -/
def ShownAsText (ctx : Context σ) (m : Machine σ) (content : Bytes)
    (glyphs : List (Glyph × Matrix Float)) : Prop :=
  ∃ showing : List (List (Stride σ) × Stride σ),
    glyphs = showing.flatMap (fun p => (p.2.outcome ctx).trace.glyphs) ∧
    ∀ p ∈ showing, ShowsText ctx m content p.1 p.2

namespace ShownAsText

/-- No glyphs are shown as text. -/
theorem nil : ShownAsText ctx m content [] :=
  ⟨[], rfl, List.forall_mem_nil _⟩

/-- Glyphs that are shown as text are so one after the other. -/
theorem append {glyphs glyphs' : List (Glyph × Matrix Float)}
    (h : ShownAsText ctx m content glyphs) (h' : ShownAsText ctx m content glyphs') :
    ShownAsText ctx m content (glyphs ++ glyphs') := by
  obtain ⟨showing, rfl, hshowing⟩ := h
  obtain ⟨showing', rfl, hshowing'⟩ := h'
  refine ⟨showing ++ showing', List.flatMap_append.symm, fun p hp => ?_⟩
  exact (List.mem_append.mp hp).elim (hshowing p) (hshowing' p)

variable {past later : List (Stride σ)} {s : Stride σ}

/-- What is shown in a program that is called is shown in the whole. The program has one enclosure
more when it is looked at from there. -/
theorem of_begins (h : strides ctx m content = past ++ s :: later) {e : Enclosure σ}
    (hbegins : e.Begins ctx s.machine s.instruction)
    (hdepth : s.machine.depth < ctx.config.maxDepth) {glyphs : List (Glyph × Matrix Float)}
    (hcalled : ShownAsText ctx (e.enter s.machine).deeper e.content glyphs) :
    ShownAsText ctx m content glyphs := by
  have hmem : s ∈ strides ctx m content := h ▸ List.mem_append_right past List.mem_cons_self
  obtain ⟨rest, hpasses⟩ := mem_strides_iff.mp hmem
  obtain ⟨showing, hglyphs, hshowing⟩ := hcalled
  refine ⟨showing, hglyphs, fun p hp => ?_⟩
  obtain ⟨⟨enclosing, n, content', later', hstarts, hstrides⟩, hopen, hshows⟩ := hshowing p hp
  exact ⟨⟨enclosing ++ [e], n, content', later', hstarts.inside hpasses hbegins hdepth, hstrides⟩,
    hopen, hshows⟩

/-- What a stride shows is shown as text, if that is so of a program that it calls. A program that
is nested too deeply shows nothing. -/
theorem of_stride (h : strides ctx m content = past ++ s :: later)
    (hcalled : ∀ e : Enclosure σ, e.Begins ctx s.machine s.instruction →
      s.machine.depth < ctx.config.maxDepth →
      ShownAsText ctx (e.enter s.machine).deeper e.content
        (glyphsOf ctx (e.enter s.machine).deeper e.content)) :
    ShownAsText ctx m content (s.outcome ctx).trace.glyphs := by
  have hshows : s.Shows ctx past (s.outcome ctx).trace.glyphs := s.shows (active_iff_of_strides h)
  generalize hglyphs : (s.outcome ctx).trace.glyphs = glyphs at hshows
  cases hshows with
  | writes hopen hrole =>
      refine ⟨[(past, s)], by simp [hglyphs], fun p hp => ?_⟩
      obtain rfl := List.mem_singleton.mp hp
      exact ⟨⟨[], m, content, later, .outermost, h⟩, hopen, hrole⟩
  | @calls e hbegins =>
      rw [glyphsCalled, hbegins.calls.depth_eq]
      split
      · next hdepth => exact (hcalled e hbegins hdepth).of_begins h hbegins hdepth
      · exact .nil
  | nothing => exact .nil

/-- The strides of a program show text if the programs do that they call. The induction is on the
strides that are left, with those before them. -/
theorem of_strides (h : strides ctx m content = past ++ later)
    (hcalled : ∀ s ∈ later, ∀ e : Enclosure σ, e.Begins ctx s.machine s.instruction →
      s.machine.depth < ctx.config.maxDepth →
      ShownAsText ctx (e.enter s.machine).deeper e.content
        (glyphsOf ctx (e.enter s.machine).deeper e.content)) :
    ShownAsText ctx m content (later.flatMap fun s => (s.outcome ctx).trace.glyphs) := by
  induction later generalizing past with
  | nil => exact .nil
  | cons s later ih =>
      have hnext : strides ctx m content = (past ++ [s]) ++ later := by simp [h]
      have hrest := ih hnext fun s' hs' => hcalled s' (List.mem_cons_of_mem _ hs')
      exact (of_stride h (hcalled s List.mem_cons_self)).append hrest

end ShownAsText

/-- All the glyphs of an execution are shown as text. The induction is on the levels that are left,
since a program that is called is one level deeper. -/
theorem shownAsText_glyphsOf (ctx : Context σ) (m : Machine σ) (content : Bytes) :
    ShownAsText ctx m content (glyphsOf ctx m content) := by
  -- By the number of levels that are left.
  induction hlevels : ctx.config.maxDepth - m.depth using Nat.strongRecOn
    generalizing m content with
  | ind levels ih =>
      rw [glyphsOf_eq]
      have hall : strides ctx m content = [] ++ strides ctx m content := rfl
      refine .of_strides hall fun s hs e hbegins hdepth => ?_
      obtain ⟨rest, hpasses⟩ := mem_strides_iff.mp hs
      have hsame : s.machine.depth = m.depth := hpasses.depth_eq
      have hdeeper : (e.enter s.machine).deeper.depth = m.depth + 1 := by
        rw [Machine.deeper, hbegins.calls.depth_eq, hsame]
      exact ih _ (by omega) _ _ rfl

end

/-! ### Executions -/

/-- A stride **keeps to text objects**, after those that came before. -/
structure Stride.KeepsToText (ctx : Context σ) (past : List (Stride σ)) (s : Stride σ) : Prop where
  /-- A text object is open if it was opened before, and has not been closed since. -/
  open_iff : s.frame.text.active = true ↔ TextOpen past
  /-- All the glyphs of the stride have their reason. -/
  shows : s.Shows ctx past (s.outcome ctx).trace.glyphs
  /-- If no text object is open, an operator that writes has no effect at all, whichever it is that
  comes here, as long as its operands are as they should be. -/
  outside (hclosed : ¬ TextOpen past) {op : Operator} {operands : List Operand} {command : Command}
    (hdecode : Command.decode op operands = .ok command)
    (hwrites : (Instruction.operate op operands).textRole.writes = true) :
    Stride.outcome ctx { s with instruction := .operate op operands } = ⟨.ok s.frame, s.machine, []⟩
  /-- A program that is called shows its own glyphs. The frame is as before, with the text object,
  and so are the parameters of text. -/
  calls {e : Enclosure σ} (h : e.Begins ctx s.machine s.instruction) :
    (s.outcome ctx).trace.glyphs = glyphsCalled ctx (e.enter s.machine) e.content ∧
    (s.outcome ctx).result = .ok s.frame ∧
    (s.outcome ctx).machine.stack.current.text = s.state.text
  /-- Only operators that have to do with text change the text object. -/
  text_eq (hrole : s.instruction.textRole = .other) {frame : Frame}
    (h : (s.outcome ctx).result = .ok frame) : frame.text = s.frame.text

/-- **Text is shown in open text objects only**, at every stride of every execution. Its glyphs are
those of its strides, in order, and all come of strides that show text, in this program or in one
that is called; the same is true of sub-programs and of pages. -/
theorem glyphs_keep_to_text (ctx : Context σ) (m : Machine σ) (content : Bytes) :
    (∀ past s later, strides ctx m content = past ++ s :: later → s.KeepsToText ctx past) ∧
    glyphsOf ctx m content =
      (strides ctx m content).flatMap (fun s => (s.outcome ctx).trace.glyphs) ∧
    ShownAsText ctx m content (glyphsOf ctx m content) ∧
    (∀ transform box scope,
      ((Action.subProgram (Action.call ctx) content transform box scope).run m).trace.glyphs =
        glyphsCalled ctx (m.enter transform box scope) content) ∧
    ∀ page : Page σ, ((Action.renderPage ctx page).run m).trace.glyphs =
      glyphsOf ctx (m.turnTo page) page.content := by
  refine ⟨fun past s later h => ?_, glyphsOf_eq ctx m content, shownAsText_glyphsOf ctx m content,
    fun transform box scope => glyphs_run_subProgram content transform box scope m,
    fun page => ?_⟩
  · have hopen := active_iff_of_strides h
    exact {
      open_iff := hopen
      shows := s.shows hopen
      outside := fun hclosed _ _ _ hdecode hwrites =>
        Stride.outcome_of_closed (Bool.not_eq_true _ ▸ fun hactive => hclosed (hopen.mp hactive))
          rfl hdecode hwrites
      calls := Stride.outcome_of_begins
      text_eq := fun hrole _ h => Stride.text_eq_of_other hrole h }
  · rw [Action.run_renderPage]
    change Trace.glyphs (_ ++ _) = _
    rw [Trace.glyphs_append]
    exact List.append_nil _

namespace TextAroundForm

/-- A form that shows a string **before it opens a text object**, and another one in it. -/
def form : Form Nat where
  identity := 1
  bbox := ⟨0.0, 0.0, 1.0, 1.0⟩
  matrix := Matrix.identity
  content := Utf8.encode "(d) Tj BT (e) Tj"
  scope := none

/-- A context with **the form and a font**. -/
def ctx : Context Nat where
  library := Directory.library #[{
    fonts := [("F", .simple 1 "F" 500.0 [])]
    xobjects := [("X", .form form)] }]
  surface := fun _ => none

def machine : Machine Nat where
  scopes := [0]

/-- A text object **around the form**, and a string after it. -/
def content : Bytes :=
  Utf8.encode "BT /F 10 Tf (a) Tj /X Do (b) Tj ET (c) Tj"

/-- The **strides** of the program. -/
def all : List (Stride Nat) :=
  strides ctx machine content

/-- There are seven strides, one for each operator. -/
theorem length_all : all.length = 7 := by
  decide +kernel

/-- The **last stride**, which comes after the text object. -/
def last : Stride Nat :=
  all.get ⟨6, by rw [length_all]; decide⟩

/-- Six of them come before the last. -/
theorem all_eq : all = all.take 6 ++ [last] := by
  have hdrop : all.drop 7 = [] := List.drop_eq_nil_of_le (Nat.le_of_eq length_all)
  rw [← hdrop, last, List.get_eq_getElem, List.getElem_cons_drop, List.take_append_drop]

end TextAroundForm

open TextAroundForm in
/-- Of five strings three are shown: those of the text object, and that of the one in the form. What
would be written after the text object has no effect. -/
theorem glyphs_keep_to_text_around_form :
    (glyphsOf ctx machine content).map (fun p => p.1.code) = [97, 101, 98] ∧
    ShownAsText ctx machine content (glyphsOf ctx machine content) ∧
    ¬ TextOpen (all.take 6) ∧
    ∀ bytes, Stride.outcome ctx
        { last with instruction := .operate (.known .showText) [.string bytes] } =
      ⟨.ok last.frame, last.machine, []⟩ := by
  obtain ⟨hstrides, -, hshown, -, -⟩ := glyphs_keep_to_text ctx machine content
  have hkeeps := hstrides _ _ _ all_eq
  have hclosed : ¬ TextOpen (all.take 6) := by
    rw [← hkeeps.open_iff]
    decide +kernel
  exact ⟨by decide +kernel, hshown, hclosed, fun bytes => hkeeps.outside hclosed rfl rfl⟩

end ContentStream
