import ContentStream.Proofs.Faults
import ContentStream.Proofs.Numerals

/-!
# Entries and operators

Some entries of a dictionary of graphics state parameters stand for an operator, with the value of
the entry for its operands. An entry with a line width does what the operator for line widths does,
and so on. A dictionary of such entries then does what the operators do one after the other: the
same parameters are set, and if a font is missing, both end in the same fault at the same place.

Two operators take a code, and a code is read from a number in two ways. Operators cut the number
off to 32 bits. Entries cut it off to 64 bits and then drop all but the low 32. The two ways differ
for large numbers, but a number that is no code has no effect. So the difference shows exactly if
the low 32 bits are a code and the number is not.

## Main definitions

* `Entry`: an entry that stands for an operator, with its `Entry.pair` of key and value and its
  `Entry.instruction`.
* `ReadAlike`: a number that is read alike by entries and by operators, as far as codes go.

## Main results

* `Action.run_steps_instructions`, `Action.run_step_extGState`: what the operators do and what the
  dictionary does, both as a list of parameters that are set.
* `run_extGState_eq_iff`: the dictionary does what its operators do, exactly if the codes in it are
  read alike.
-/

namespace ContentStream

/-! ### Codes -/

/-- The code that an **operator** reads from a number: the whole part, held within 32 bits. -/
def heldCode (x : Float) : Int :=
  x.toModel.toInt32.toInt

/-- The code that an **entry** reads from a number: the low 32 bits of the whole part, which is held
within 64 bits. -/
def lowCode (x : Float) : Int :=
  x.toModel.toInt64.toInt32.toInt

/-- A number is **read alike** by entries and by operators: the low 32 bits are the code of a cap or
a join only if the whole part is. -/
def ReadAlike (x : Float) : Prop :=
  ∀ code ∈ [0, 1, 2], lowCode x = code → x.toModel.toInt64.toInt = code

instance (x : Float) : Decidable (ReadAlike x) :=
  inferInstanceAs (Decidable (∀ code ∈ [0, 1, 2], lowCode x = code →
    x.toModel.toInt64.toInt = code))

/-- A number whose whole part is a code is read as this code by operators. -/
theorem heldCode_eq_iff {code : Int} (hcode : code ∈ [0, 1, 2]) (x : Float) :
    heldCode x = code ↔ x.toModel.toInt64.toInt = code := by
  rw [heldCode, toInt_toInt32_eq]
  simp only [List.mem_cons, List.not_mem_nil, or_false] at hcode
  omega

/-- It is so by entries. -/
theorem lowCode_eq {code : Int} (hcode : code ∈ [0, 1, 2]) {x : Float}
    (h : x.toModel.toInt64.toInt = code) : lowCode x = code := by
  rw [lowCode, Int64.toInt_toInt32, h]
  simp only [List.mem_cons, List.not_mem_nil, or_false] at hcode
  obtain rfl | rfl | rfl := hcode <;> rfl

/-- A number that is read alike is read as the same code either way. -/
theorem ReadAlike.lowCode_eq_iff {x : Float} (h : ReadAlike x) {code : Int}
    (hcode : code ∈ [0, 1, 2]) : lowCode x = code ↔ heldCode x = code :=
  Iff.trans ⟨h code hcode, lowCode_eq hcode⟩ (heldCode_eq_iff hcode x).symm

/-- If a number is not read alike, an entry finds a code in it and an operator none. -/
theorem exists_code_of_not_readAlike {x : Float} (h : ¬ ReadAlike x) :
    lowCode x ∈ [0, 1, 2] ∧ heldCode x ∉ [0, 1, 2] := by
  simp only [ReadAlike, not_forall] at h
  obtain ⟨code, hcode, hlow, hne⟩ := h
  refine ⟨hlow ▸ hcode, fun hheld => hne ?_⟩
  have hwhole := (heldCode_eq_iff hheld x).mp rfl
  rw [hwhole, ← lowCode_eq hheld hwhole, hlow]

/-- Of a code for caps, only the three that stand for something need to be known. -/
theorem LineCap.ofCode?_congr {i j : Int} (h : ∀ code ∈ [0, 1, 2], i = code ↔ j = code) :
    ofCode? i = ofCode? j := by
  simp only [ofCode?, beq_iff_eq, h 0 (by simp), h 1 (by simp), h 2 (by simp)]

/-- A code stands for a cap if it is one of three. -/
theorem LineCap.isSome_ofCode?_iff (code : Int) :
    (ofCode? code).isSome = true ↔ code ∈ [0, 1, 2] := by
  simp only [ofCode?]
  grind

/-- Of a code for joins, too, only the three that stand for something need to be known. -/
theorem LineJoin.ofCode?_congr {i j : Int} (h : ∀ code ∈ [0, 1, 2], i = code ↔ j = code) :
    ofCode? i = ofCode? j := by
  simp only [ofCode?, beq_iff_eq, h 0 (by simp), h 1 (by simp), h 2 (by simp)]

/-- A code stands for a join if it is one of the same three. -/
theorem LineJoin.isSome_ofCode?_iff (code : Int) :
    (ofCode? code).isSome = true ↔ code ∈ [0, 1, 2] := by
  simp only [ofCode?]
  grind

/-! ### Entries -/

/-- An **entry** of a dictionary of graphics state parameters that stands for an operator. -/
inductive Entry where
  | lineWidth (width : Float)
  | lineCap (code : Float)
  | lineJoin (code : Float)
  | miterLimit (limit : Float)
  | flatness (tolerance : Float)
  | intent (name : String)
  | dash (lengths : List Float) (phase : Float)
  | font (name : String) (size : Float)

namespace Entry

/-- The **key and the value** of an entry. -/
def pair : Entry → String × Object
  | lineWidth width => ("LW", .number width)
  | lineCap code => ("LC", .number code)
  | lineJoin code => ("LJ", .number code)
  | miterLimit limit => ("ML", .number limit)
  | flatness tolerance => ("FL", .number tolerance)
  | intent name => ("RI", .name name)
  | dash lengths phase => ("D", .array [.array (lengths.map .number), .number phase])
  | font name size => ("Font", .array [.name name, .number size])

/-- The **operator** that an entry stands for. -/
def keyword : Entry → Keyword
  | lineWidth _ => .lineWidth
  | lineCap _ => .lineCap
  | lineJoin _ => .lineJoin
  | miterLimit _ => .miterLimit
  | flatness _ => .flatness
  | intent _ => .intent
  | dash _ _ => .dash
  | font _ _ => .font

/-- The value of an entry as **operands**, the last one first. -/
def operands : Entry → List Operand
  | lineWidth x | lineCap x | lineJoin x | miterLimit x | flatness x => [.number (.ofValue x)]
  | intent name => [.name name]
  | dash lengths phase =>
    [.number (.ofValue phase), .array (lengths.map fun x => .number (.ofValue x))]
  | font name size => [.number (.ofValue size), .name name]

/-- The **instruction** that an entry stands for. -/
def instruction (e : Entry) : Instruction :=
  .operate (.known e.keyword) e.operands

/-- The **parameter** of an entry, if codes are read in a certain way. -/
def parameter (code : Float → Int) : Entry → Parameter
  | lineWidth width => .set (.lineWidth width)
  | lineCap x => .set (.lineCap (code x))
  | lineJoin x => .set (.lineJoin (code x))
  | miterLimit limit => .set (.miterLimit limit)
  | flatness tolerance => .set (.flatness tolerance)
  | intent name => .set (.intent name)
  | dash lengths phase => .set (.dash ⟨lengths, phase⟩)
  | font name size => .font name size

/-- Whether the **code** of an entry is read alike, if it has one. -/
def ReadAlike : Entry → Prop
  | lineCap code | lineJoin code => ContentStream.ReadAlike code
  | _ => True

/-- An entry in a dictionary is its parameter, the code in it read as entries read it. -/
theorem ofEntry?_pair (e : Entry) :
    Parameter.ofEntry? e.pair.1 e.pair.2 = some (e.parameter lowCode) := by
  cases e with
  | dash lengths phase =>
      have hnumbers : (lengths.map Object.number).filterMap Object.number? = lengths := by
        simp [List.filterMap_map, Function.comp_def, Object.number?]
      simp [pair, parameter, Parameter.ofEntry?, Parameter.dash?, Object.pair?, Object.numbers?,
        Object.array?, Object.number?, hnumbers]
  | _ => rfl

/-- So entries in a dictionary are their parameters, in order. -/
theorem ofDict_map_pair (es : List Entry) :
    Parameter.ofDict (es.map pair) = es.map (parameter lowCode) := by
  induction es with
  | nil => rfl
  | cons e es ih =>
      rw [List.map_cons, Parameter.ofDict_cons_of_some e.ofEntry?_pair, ih, List.map_cons]

end Entry

/-! ### What the operators do -/

/-- The **command** that sets a parameter. -/
def Parameter.command : Parameter → Command
  | set setting => .set setting
  | font name size => .font name size

/-- The command of an operator sets the parameter of its entry, the code in it read as operators
read it. -/
theorem Entry.decode_operands (e : Entry) :
    Command.decode (.known e.keyword) e.operands = .ok (e.parameter heldCode).command := by
  cases e with
  | dash lengths phase =>
      have hnumbers : (lengths.map fun x => Operand.number (.ofValue x)).filterMap Operand.number? =
          lengths := by
        simp [List.filterMap_map, Function.comp_def, Operand.number?]
      have hdecode : Command.decode (.known .dash) (dash lengths phase).operands =
          .ok (.set (.dash ⟨(lengths.map fun x => Operand.number (.ofValue x)).filterMap
            Operand.number?, (Numeral.ofValue phase).value⟩)) := rfl
      rw [keyword, hdecode, hnumbers, Numeral.value_ofValue]
      rfl
  | intent name => rfl
  | lineWidth x | lineCap x | lineJoin x | miterLimit x | flatness x | font _ x =>
      conv_rhs => rw [parameter, ← Numeral.value_ofValue x]
      rfl

namespace Action

variable {σ : Type} {ctx : Context σ} {call : Bytes → Action σ Unit}

/-- A single command sets its parameter. A font has to be found first, and if it is not, the fault
of the command is that of the parameter. -/
theorem run_perform_command (frame : Frame) (p : Parameter) (m : Machine σ) :
    (perform ctx call frame p.command).run m =
      (do applyParameters ctx [p]; pure frame : Action σ Frame).run m := by
  cases p with
  | set setting => rfl
  | font name size =>
      rw [run_bind, Parameter.command, perform, run_bind]
      rcases hfont : ctx.library.findFont m.scopes name with fault | font
      · rw [run_applyParameters_missing hfont, selectFont, run_machine_bind, hfont]
        rfl
      · rw [run_applyParameters_font hfont, selectFont, run_machine_bind, hfont]
        rfl

/-- An operator sets the parameter of its entry. -/
theorem run_step_instruction (frame : Frame) (e : Entry) (m : Machine σ) :
    (step ctx call frame e.instruction).run m =
      (do applyParameters ctx [e.parameter heldCode]; pure frame : Action σ Frame).run m := by
  rw [Entry.instruction, step, e.decode_operands, run_ok_bind, run_perform_command]

/-- Operators one after the other set the parameters of their entries in order, by induction on the
entries. A font that is missing ends both. -/
theorem run_steps_instructions (frame : Frame) (es : List Entry) (m : Machine σ) :
    (steps ctx call frame (es.map Entry.instruction)).run m =
      (do applyParameters ctx (es.map (Entry.parameter heldCode)); pure frame :
        Action σ Frame).run m := by
  induction es generalizing m with
  | nil => rfl
  | cons e es ih =>
      rw [List.map_cons, List.map_cons, steps, run_bind, run_step_instruction]
      generalize e.parameter heldCode = p
      cases p with
      | set setting => exact ih _
      | font name size =>
          rw [run_bind, run_bind]
          rcases hfont : ctx.library.findFont m.scopes name with fault | font
          · rw [run_applyParameters_missing hfont, run_applyParameters_missing hfont]
          · rw [run_applyParameters_font hfont, run_applyParameters_font hfont]
            exact ih _

/-- The operator with a dictionary sets the parameters of its entries in order. -/
theorem run_step_extGState (frame : Frame) {name : String} {es : List Entry} {m : Machine σ}
    (h : ctx.library.findExtGState m.scopes name = .ok (es.map Entry.pair)) :
    (step ctx call frame (.operate (.known .extGState) [.name name])).run m =
      (do applyParameters ctx (es.map (Entry.parameter lowCode)); pure frame :
        Action σ Frame).run m := by
  have hstep : (step ctx call frame (.operate (.known .extGState) [.name name])).run m =
      (perform ctx call frame (.extGState name)).run m := rfl
  rw [hstep, run_perform_extGState, h]
  simp only [Entry.ofDict_map_pair]

end Action

/-! ### Where the two agree -/

/-- An entry whose code is read alike sets the same parameter either way, or at least parameters of
the same effect. -/
theorem Entry.ReadAlike.parameter {e : Entry} (h : e.ReadAlike) :
    e.parameter lowCode = e.parameter heldCode ∨
      ∃ s s', e.parameter lowCode = .set s ∧ e.parameter heldCode = .set s' ∧
        ∀ gs, s.apply gs = s'.apply gs := by
  cases e with
  | lineCap x =>
      refine .inr ⟨.lineCap (lowCode x), .lineCap (heldCode x), rfl, rfl, fun gs => ?_⟩
      simp only [Setting.apply, LineCap.ofCode?_congr fun _ hcode => h.lowCode_eq_iff hcode]
  | lineJoin x =>
      refine .inr ⟨.lineJoin (lowCode x), .lineJoin (heldCode x), rfl, rfl, fun gs => ?_⟩
      simp only [Setting.apply, LineJoin.ofCode?_congr fun _ hcode => h.lowCode_eq_iff hcode]
  | _ => exact .inl (by simp only [Entry.parameter])

namespace Action

variable {σ : Type} {ctx : Context σ} {call : Bytes → Action σ Unit}

/-- Entries whose codes are read alike have the same effect either way. The induction is on the
entries, each of which leaves the same machine. -/
theorem run_applyParameters_congr {es : List Entry} (h : ∀ e ∈ es, e.ReadAlike) (m : Machine σ) :
    (applyParameters ctx (es.map (Entry.parameter lowCode))).run m =
      (applyParameters ctx (es.map (Entry.parameter heldCode))).run m := by
  induction es generalizing m with
  | nil => simp only [List.map_nil]
  | cons e es ih =>
      have hes := ih fun e' he' => h e' (List.mem_cons_of_mem e he')
      rw [List.map_cons, List.map_cons]
      obtain heq | ⟨s, s', hs, hs', happly⟩ := (h e List.mem_cons_self).parameter
      · rw [heq]
        cases e.parameter heldCode with
        | set setting => exact hes _
        | font name size =>
            rcases hfont : ctx.library.findFont m.scopes name with fault | font
            · rw [run_applyParameters_missing hfont, run_applyParameters_missing hfont]
            · rw [run_applyParameters_font hfont, run_applyParameters_font hfont]
              exact hes _
      · rw [hs, hs', run_applyParameters_set, run_applyParameters_set, hes]
        simp only [happly]

/-- A dictionary whose codes are read alike does what its operators do. -/
theorem run_extGState_of_readAlike {es : List Entry} (h : ∀ e ∈ es, e.ReadAlike) (frame : Frame)
    {name : String} {m : Machine σ}
    (hdict : ctx.library.findExtGState m.scopes name = .ok (es.map Entry.pair)) :
    (step ctx call frame (.operate (.known .extGState) [.name name])).run m =
      (steps ctx call frame (es.map Entry.instruction)).run m := by
  rw [run_step_extGState frame hdict, run_steps_instructions, run_bind, run_bind,
    run_applyParameters_congr h]

end Action

/-! ### Where they differ -/

/-- The **only font** of a context. -/
def Font.blank : Font :=
  ⟨0, "", fun _ => []⟩

/-- A context in which every font is found, and **one dictionary** of parameters. -/
def Context.ofDict (dict : Dict) : Context Unit where
  library :=
    { label := fun _ => ""
      font := fun _ _ => some .blank
      xobject := fun _ _ => none
      pattern := fun _ _ => none
      shading := fun _ _ => none
      extGState := fun _ _ => some dict
      colorSpace := fun _ _ => none
      decodeStream := fun _ raw => .ok raw
      decodeInlineImage := fun _ => Image.ofDict }
  surface := fun _ => none

/-- The **state after a parameter**, in such a context. -/
def Parameter.apply (gs : GState) : Parameter → GState
  | set setting => setting.apply gs
  | font _ size => { gs with text.font := some .blank, text.size := size }

/-- In such a context all parameters of a list are set, as every font is found: no fault can keep
those that are behind it from being set. -/
theorem Action.run_applyParameters_ofDict (dict : Dict) (ps : List Parameter) {m : Machine Unit}
    (hm : m.scopes = [()]) : (applyParameters (.ofDict dict) ps).run m =
      ⟨.ok (), { m with stack := m.stack.modify fun gs => ps.foldl Parameter.apply gs }, []⟩ := by
  induction ps generalizing m with
  | nil => rfl
  | cons p ps ih =>
      cases p with
      | set setting => exact (run_applyParameters_set setting ps).trans (ih hm)
      | font name size =>
          have hfont : (Context.ofDict dict).library.findFont m.scopes name = .ok .blank := by
            rw [hm]
            rfl
          exact (run_applyParameters_font hfont ps).trans (ih hm)

namespace Entry

variable {α : Type} {π : GState → α} {ofCode? : Int → Option α} {e : Entry} {x : Float}
  {es : List Entry}

/-- What one entry says by a code, and no entry with another key touches, is found in the state
after all entries: the value of the code, or what was there before if the code has none. -/
theorem foldl_parameter
    (hcode : ∀ code gs, π ((e.parameter code).apply gs) = (ofCode? (code x)).getD (π gs))
    (hother : ∀ e' : Entry, e'.pair.1 ≠ e.pair.1 → ∀ code gs,
      π ((e'.parameter code).apply gs) = π gs)
    (he : e ∈ es) (hkeys : (es.map fun e => e.pair.1).Nodup) (code : Float → Int) (gs : GState) :
    π ((es.map (parameter code)).foldl Parameter.apply gs) = (ofCode? (code x)).getD (π gs) := by
  have hkeeps : ∀ {es : List Entry}, (∀ e' ∈ es, e'.pair.1 ≠ e.pair.1) → ∀ gs,
      π ((es.map (parameter code)).foldl Parameter.apply gs) = π gs := by
    intro es hes
    induction es with
    | nil => exact fun _ => rfl
    | cons e' es ih =>
        intro gs
        rw [List.map_cons, List.foldl_cons, ih fun e'' h => hes e'' (List.mem_cons_of_mem e' h),
          hother e' (hes e' List.mem_cons_self)]
  obtain ⟨before, after, rfl⟩ := List.append_of_mem he
  rw [List.map_append, List.map_cons, List.nodup_append, List.nodup_cons] at hkeys
  obtain ⟨-, ⟨hafter, -⟩, hbefore⟩ := hkeys
  rw [List.map_append, List.map_cons, List.foldl_append, List.foldl_cons, hkeeps, hcode, hkeeps]
  · exact fun e' he' => hbefore _ (List.mem_map_of_mem he') _ List.mem_cons_self
  · exact fun e' he' heq => hafter (heq ▸ List.mem_map_of_mem (f := fun e => e.pair.1) he')

/-- If one entry says by a code what no other touches, and the state after all entries is the same
either way, then the code is read alike. Otherwise the value of the code would tell, in a state
chosen for it. -/
theorem readAlike_of_foldl (π : GState → α) (ofCode? : Int → Option α)
    (hcode : ∀ code gs, π ((e.parameter code).apply gs) = (ofCode? (code x)).getD (π gs))
    (hother : ∀ e' : Entry, e'.pair.1 ≠ e.pair.1 → ∀ code gs,
      π ((e'.parameter code).apply gs) = π gs)
    (hsome : ∀ code : Int, (ofCode? code).isSome = true ↔ code ∈ [0, 1, 2])
    (hnone : ∀ a, ∃ gs, π gs ≠ a) (he : e ∈ es) (hkeys : (es.map fun e => e.pair.1).Nodup)
    (heq : ∀ gs, (es.map (parameter lowCode)).foldl Parameter.apply gs =
      (es.map (parameter heldCode)).foldl Parameter.apply gs) : ContentStream.ReadAlike x := by
  by_contra h
  obtain ⟨hlow, hheld⟩ := exists_code_of_not_readAlike h
  obtain ⟨a, ha⟩ := Option.isSome_iff_exists.mp ((hsome _).mpr hlow)
  have hnot : ofCode? (heldCode x) = none :=
    Option.not_isSome_iff_eq_none.mp (mt (hsome _).mp hheld)
  obtain ⟨gs, hgs⟩ := hnone a
  have hπ := congrArg π (heq gs)
  rw [foldl_parameter hcode hother he hkeys, foldl_parameter hcode hother he hkeys, ha, hnot] at hπ
  exact hgs hπ.symm

section

variable (hkeys : (es.map fun e => e.pair.1).Nodup)
  (heq : ∀ gs, (es.map (parameter lowCode)).foldl Parameter.apply gs =
    (es.map (parameter heldCode)).foldl Parameter.apply gs)

include hkeys heq

/-- This is so for the code of a cap, as no other entry sets the cap. For each cap there is a state
that has another one, so that a code that is ignored would show. -/
theorem readAlike_of_lineCap (he : lineCap x ∈ es) : ContentStream.ReadAlike x := by
  refine readAlike_of_foldl (fun gs => gs.line.cap) LineCap.ofCode? (fun code gs => ?_)
    (fun e' he' code gs => ?_) LineCap.isSome_ofCode?_iff (fun cap => ?_) he hkeys heq
  · simp only [parameter, Parameter.apply, Setting.apply]
    cases LineCap.ofCode? (code x) <;> rfl
  · cases e' with
    | lineCap y => exact absurd rfl he'
    | lineJoin y =>
        simp only [parameter, Parameter.apply, Setting.apply]
        cases LineJoin.ofCode? (code y) <;> rfl
    | _ => rfl
  · cases cap with
    | butt => exact ⟨{ line.cap := .round }, LineCap.noConfusion⟩
    | round | projectingSquare => exact ⟨{ line.cap := .butt }, LineCap.noConfusion⟩

/-- It is so for the code of a join, which no other entry sets either. Here too there is a state to
start from whose join is another one. -/
theorem readAlike_of_lineJoin (he : lineJoin x ∈ es) : ContentStream.ReadAlike x := by
  refine readAlike_of_foldl (fun gs => gs.line.join) LineJoin.ofCode? (fun code gs => ?_)
    (fun e' he' code gs => ?_) LineJoin.isSome_ofCode?_iff (fun join => ?_) he hkeys heq
  · simp only [parameter, Parameter.apply, Setting.apply]
    cases LineJoin.ofCode? (code x) <;> rfl
  · cases e' with
    | lineJoin y => exact absurd rfl he'
    | lineCap y =>
        simp only [parameter, Parameter.apply, Setting.apply]
        cases LineCap.ofCode? (code y) <;> rfl
    | _ => rfl
  · cases join with
    | miter => exact ⟨{ line.join := .round }, LineJoin.noConfusion⟩
    | round | bevel => exact ⟨{ line.join := .miter }, LineJoin.noConfusion⟩

end

end Entry

/-- **A dictionary does what its operators do, exactly if the codes in it are read alike.** Whatever
the state, the resources and the other values are, the operator with the dictionary and the
operators that its entries stand for end with the same result, on the same machine. If the code of a
cap or a join is read differently, there is a state in which they do not. -/
theorem run_extGState_eq_iff {es : List Entry} (hkeys : (es.map fun e => e.pair.1).Nodup) :
    (∀ (σ : Type) (ctx : Context σ) (call : Bytes → Action σ Unit) (frame : Frame) (name : String)
        (m : Machine σ), ctx.library.findExtGState m.scopes name = .ok (es.map Entry.pair) →
      (Action.step ctx call frame (.operate (.known .extGState) [.name name])).run m =
        (Action.steps ctx call frame (es.map Entry.instruction)).run m) ↔
      ∀ e ∈ es, e.ReadAlike := by
  refine ⟨fun h e he => ?_, fun h σ ctx call frame name m hdict =>
    Action.run_extGState_of_readAlike h frame hdict⟩
  have heq : ∀ gs, (es.map (Entry.parameter lowCode)).foldl Parameter.apply gs =
      (es.map (Entry.parameter heldCode)).foldl Parameter.apply gs := fun gs => by
    have hrun := h Unit (.ofDict (es.map Entry.pair)) (fun _ => pure ()) { base := 0 } "G"
      { scopes := [()], stack := { current := gs } } rfl
    rw [Action.run_step_extGState _ rfl, Action.run_steps_instructions, Action.run_bind,
      Action.run_bind, Action.run_applyParameters_ofDict _ _ rfl,
      Action.run_applyParameters_ofDict _ _ rfl] at hrun
    exact congrArg (fun o => o.machine.stack.current) hrun
  cases e with
  | lineCap x => exact Entry.readAlike_of_lineCap hkeys heq he
  | lineJoin x => exact Entry.readAlike_of_lineJoin hkeys heq he
  | _ => trivial

/-- Codes may have a fraction, or be large: neither `2.75` nor `2 ^ 31` is read differently. A
dictionary with both comes to its operators, and so it does for any library that has it. -/
theorem run_extGState_eq_of_fractions :
    let es : List Entry := [.lineCap 2.75, .font "F" 12.5, .lineJoin 2147483648.0, .lineWidth 0.5]
    (es.map fun e => e.pair.1).Nodup ∧
    ∀ (σ : Type) (ctx : Context σ) (call : Bytes → Action σ Unit) (frame : Frame) (name : String)
        (m : Machine σ), ctx.library.findExtGState m.scopes name = .ok (es.map Entry.pair) →
      (Action.step ctx call frame (.operate (.known .extGState) [.name name])).run m =
        (Action.steps ctx call frame (es.map Entry.instruction)).run m := by
  intro es
  have hkeys : (es.map fun e => e.pair.1).Nodup := by decide
  have hcap : ReadAlike 2.75 := by decide +kernel
  have hjoin : ReadAlike 2147483648.0 := by decide +kernel
  refine ⟨hkeys, (run_extGState_eq_iff hkeys).mpr fun e he => ?_⟩
  simp only [es, List.mem_cons, List.not_mem_nil, or_false] at he
  obtain rfl | rfl | rfl | rfl := he
  · exact hcap
  · trivial
  · exact hjoin
  · trivial

/-- The number `2 ^ 32 + 1` is **read differently**: it is no code, and the operator for caps leaves
them as they are. In a dictionary it makes them round. -/
theorem run_extGState_ne_of_large :
    let e : Entry := .lineCap 4294967297.0
    let ctx := Context.ofDict [e.pair]
    let m : Machine Unit := { scopes := [()] }
    ctx.library.findExtGState m.scopes "G" = .ok [e.pair] ∧
    ((Action.step ctx (Action.call ctx) { base := 0 }
      (.operate (.known .extGState) [.name "G"])).run m).machine.stack.current.line.cap = .round ∧
    ((Action.steps ctx (Action.call ctx) { base := 0 }
      [e.instruction]).run m).machine.stack.current.line.cap = .butt := by
  exact ⟨rfl, by decide +kernel, by decide +kernel⟩

end ContentStream
