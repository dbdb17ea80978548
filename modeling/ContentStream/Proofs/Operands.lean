import ContentStream.Command

/-!
# Taking operands

Operators take their operands one by one. What can be said of the results, and of the faults, is
said of each step, and follows for all of them: a step fails because there are not enough operands,
or because one of them is of the wrong kind, and so does every operator. If an operator is not
refused, it asks for a command of its own kind, in which only the operands differ.

## Main definitions

* `Take.Gives`: the results of taking operands are of some kind.
* `Take.Asks`: taking operands fails for no reason but the operands.
* `Operator.AsksFor`: the commands that an operator asks for.

## Main results

* `Take.gives_numbers`: as many numbers are taken as are asked for.
* `Operator.AsksFor.of_decode`: the command of an operator is one that it asks for.
* `Command.isOperand_of_decode`: an operator is refused for no reason but its operands.
-/

namespace ContentStream

variable {α β : Type}

/-- Whether a fault is about the **operands** of an operator. -/
def Fault.isOperand : Fault → Bool
  | .missingOperands _ _ _ | .operandType _ _ => true
  | _ => false

namespace Take

/-- The operands that are left over are dropped: what is made of some operands is what is made of
those that are taken. -/
theorem run'_eq (x : Take α) (operands : List Operand) :
    x.run' operands = (x.run operands).map Prod.fst :=
  rfl

/-! ### Results -/

/-- What is taken in two steps is taken in the first, and then in the second, from the operands that
the first has left. -/
theorem exists_of_run_bind {x : Take α} {f : α → Take β} {operands rest : List Operand} {b : β}
    (h : (x >>= f).run operands = .ok (b, rest)) :
    ∃ a between, x.run operands = .ok (a, between) ∧ (f a).run between = .ok (b, rest) := by
  rw [StateT.run_bind] at h
  rcases hrun : x.run operands with fault | ⟨a, between⟩
  · rw [hrun] at h
    cases h
  · rw [hrun] at h
    exact ⟨a, between, rfl, h⟩

/-- Taking operands **gives only** results of some kind. -/
def Gives (P : α → Prop) (x : Take α) : Prop :=
  ∀ operands a rest, x.run operands = .ok (a, rest) → P a

/-- What takes nothing gives the result it has. -/
theorem Gives.pure {P : α → Prop} {a : α} (ha : P a) : Gives P (pure a) := by
  rintro operands b rest ⟨⟩
  exact ha

/-- What is known of the first result may be used for the second. -/
theorem Gives.bind {P : α → Prop} {Q : β → Prop} {x : Take α} {f : α → Take β} (hx : Gives P x)
    (hf : ∀ a, P a → Gives Q (f a)) : Gives Q (x >>= f) := by
  intro operands b rest h
  obtain ⟨a, between, ha, hb⟩ := exists_of_run_bind h
  exact hf a (hx operands a between ha) between b rest hb

/-- Sequencing when the first result does not matter. -/
theorem Gives.andThen {Q : β → Prop} {x : Take α} {f : α → Take β} (hf : ∀ a, Gives Q (f a)) :
    Gives Q (x >>= f) :=
  .bind (P := fun _ => True) (fun _ _ _ _ => trivial) fun a _ => hf a

/-- Without regard to what is left over, the results are of the same kind. -/
theorem Gives.run' {P : α → Prop} {x : Take α} (hx : Gives P x) {operands : List Operand} {a : α}
    (h : x.run' operands = .ok a) : P a := by
  rw [run'_eq] at h
  rcases hx' : x.run operands with fault | ⟨b, rest⟩
  · rw [hx'] at h
    cases h
  · rw [hx'] at h
    cases h
    exact hx operands _ rest hx'

/-- Numerals are taken one by one onto those that have been taken, so that there are as many
more. -/
theorem gives_numeralsOnto (op : String) (n : Nat) (taken : List Numeral) :
    Gives (fun xs => xs.length = n + taken.length) (numeralsOnto op n taken) := by
  induction n generalizing taken with
  | zero => exact .pure (Nat.zero_add _).symm
  | succ n ih =>
      refine .andThen fun x => ?_
      intro operands xs rest h
      have := ih (x :: taken) operands xs rest h
      simp only [List.length_cons] at this
      omega

/-- As many numbers are taken as are asked for. -/
theorem gives_numbers (op : String) (n : Nat) : Gives (fun xs => xs.length = n) (numbers op n) := by
  refine .bind (P := fun xs => xs.length = n) (.andThen fun _ => ?_) fun xs hxs => ?_
  · exact gives_numeralsOnto op n []
  · exact .pure (by simp [hxs])

/-! ### Faults -/

/-- Taking operands **asks** for operands, and fails for no other reason than that they are missing
or of the wrong kind. -/
def Asks (x : Take α) : Prop :=
  ∀ operands fault, x.run operands = .error fault → fault.isOperand = true

/-- What takes nothing does not fail. -/
theorem Asks.pure (a : α) : Asks (pure a) := by
  rintro operands fault ⟨⟩

/-- To fail for an operand is to ask for operands. -/
theorem Asks.throw {fault : Fault} (h : fault.isOperand = true) : Asks (throw fault : Take α) := by
  rintro operands fault' ⟨⟩
  exact h

/-- Two steps ask for operands if both do: a fault of the sequence is one of the first step, or one
of the second step on the operands that the first has left. -/
theorem Asks.bind {x : Take α} {f : α → Take β} (hx : Asks x) (hf : ∀ a, Asks (f a)) :
    Asks (x >>= f) := by
  intro operands fault h
  rw [StateT.run_bind] at h
  rcases hrun : x.run operands with fault' | ⟨a, rest⟩
  · rw [hrun] at h
    obtain rfl : fault' = fault := Except.error.inj h
    exact hx operands fault' hrun
  · rw [hrun] at h
    exact hf a rest fault h

/-- To look at the operands does not fail. -/
theorem Asks.get : Asks (get : Take (List Operand)) := by
  rintro operands fault ⟨⟩

/-- Neither does it to put others in their place. -/
theorem Asks.set (operands : List Operand) : Asks (set operands : Take PUnit) := by
  rintro operands fault ⟨⟩

/-- A fault of the whole is one of the taking, and so it is about operands. -/
theorem Asks.run' {x : Take α} (hx : Asks x) {operands : List Operand} {fault : Fault}
    (h : x.run' operands = .error fault) : fault.isOperand = true := by
  rw [run'_eq] at h
  rcases hx' : x.run operands with fault' | ⟨a, rest⟩
  · rw [hx'] at h
    obtain rfl : fault' = fault := Except.error.inj h
    exact hx operands fault' hx'
  · rw [hx'] at h
    cases h

section

variable (op : String)

/-- Too few operands are a fault of operands. All that follow are made of this one and of single
operands, which are refused for their kind. -/
theorem asks_require (n : Nat) : Asks (require op n) := by
  refine Asks.get.bind fun operands => ?_
  dsimp only
  split
  · exact .throw rfl
  · exact .pure _

/-- A single operand may be missing. -/
theorem asks_operand : Asks (operand op) := by
  refine Asks.get.bind fun operands => ?_
  cases operands with
  | nil => exact .throw rfl
  | cons top rest => exact (Asks.set rest).bind fun _ => .pure top

/-- A numeral may be missing or be something else. So may a name, a string or an array. -/
theorem asks_numeral : Asks (numeral op) := by
  refine (asks_operand op).bind fun operand => ?_
  cases operand with
  | number numeral => exact .pure numeral
  | _ => exact .throw rfl

theorem asks_number : Asks (number op) :=
  (asks_numeral op).bind fun _ => .pure _

theorem asks_name : Asks (name op) := by
  refine (asks_operand op).bind fun operand => ?_
  cases operand with
  | name text => exact .pure text
  | _ => exact .throw rfl

theorem asks_string : Asks (string op) := by
  refine (asks_operand op).bind fun operand => ?_
  cases operand with
  | string bytes => exact .pure bytes
  | _ => exact .throw rfl

theorem asks_array : Asks (array op) := by
  refine (asks_operand op).bind fun operand => ?_
  cases operand with
  | array items => exact .pure items
  | _ => exact .throw rfl

/-- A code is a number that is rounded, which does not fail. -/
theorem asks_code : Asks (code op) :=
  (asks_number op).bind fun _ => .pure _

/-- Numerals are taken one by one, and each of them asks; the induction is on how many there are to
come. -/
theorem asks_numeralsOnto (n : Nat) (taken : List Numeral) : Asks (numeralsOnto op n taken) := by
  induction n generalizing taken with
  | zero => exact .pure taken
  | succ n ih => exact (asks_numeral op).bind fun x => ih _

theorem asks_numerals (n : Nat) : Asks (numerals op n) :=
  (asks_require op n).bind fun _ => asks_numeralsOnto op n []

theorem asks_numbers (n : Nat) : Asks (numbers op n) :=
  (asks_numerals op n).bind fun _ => .pure _

theorem asks_two : Asks (two op) :=
  (asks_require op 2).bind fun _ => (asks_number op).bind fun _ =>
    (asks_number op).bind fun _ => .pure _

theorem asks_point : Asks (point op) :=
  (asks_two op).bind fun _ => .pure _

theorem asks_three : Asks (three op) :=
  (asks_require op 3).bind fun _ => (asks_number op).bind fun _ =>
    (asks_two op).bind fun _ => .pure _

theorem asks_four : Asks (four op) :=
  (asks_require op 4).bind fun _ => (asks_two op).bind fun _ => (asks_two op).bind fun _ => .pure _

theorem asks_threePoints : Asks (threePoints op) :=
  (asks_require op 6).bind fun _ => (asks_point op).bind fun _ => (asks_point op).bind fun _ =>
    (asks_point op).bind fun _ => .pure _

/-- A matrix is six numbers, which are asked for together. So are points, and fixed numbers of
numbers. -/
theorem asks_matrix : Asks (matrix op) :=
  (asks_require op 6).bind fun _ => (asks_two op).bind fun _ => (asks_two op).bind fun _ =>
    (asks_two op).bind fun _ => .pure _

end

end Take

/-! ### Operators -/

/-- The commands that an **operator asks for**, whatever the operands are that it finds. -/
inductive Operator.AsksFor : Operator → Command → Prop
  | save : AsksFor (.known .save) .save
  | restore : AsksFor (.known .restore) .restore
  | concat (m : Matrix Float) : AsksFor (.known .concat) (.set (.concat m))
  | lineWidth (x : Float) : AsksFor (.known .lineWidth) (.set (.lineWidth x))
  | lineCap (code : Int) : AsksFor (.known .lineCap) (.set (.lineCap code))
  | lineJoin (code : Int) : AsksFor (.known .lineJoin) (.set (.lineJoin code))
  | miterLimit (x : Float) : AsksFor (.known .miterLimit) (.set (.miterLimit x))
  | dash (pattern : Dash) : AsksFor (.known .dash) (.set (.dash pattern))
  | intent (name : String) : AsksFor (.known .intent) (.set (.intent name))
  | flatness (x : Float) : AsksFor (.known .flatness) (.set (.flatness x))
  | extGState (name : String) : AsksFor (.known .extGState) (.extGState name)
  | moveTo (p : Point Float) : AsksFor (.known .moveTo) (.construct (.move p))
  | lineTo (p : Point Float) : AsksFor (.known .lineTo) (.construct (.line p))
  | curveTo (c₁ c₂ p : Point Float) : AsksFor (.known .curveTo) (.construct (.curve c₁ c₂ p))
  | curveFromCurrent (c₂ p : Point Float) :
      AsksFor (.known .curveFromCurrent) (.construct (.curveFromCurrent c₂ p))
  | curveToEnd (c₁ p : Point Float) :
      AsksFor (.known .curveToEnd) (.construct (.curveToEnd c₁ p))
  | closePath : AsksFor (.known .closePath) (.construct .close)
  | rectangle (x y w h : Float) : AsksFor (.known .rectangle) (.construct (.rectangle x y w h))
  | stroke : AsksFor (.known .stroke) (.paint ⟨false, none, true⟩)
  | closeStroke : AsksFor (.known .closeStroke) (.paint ⟨true, none, true⟩)
  | fill : AsksFor (.known .fill) (.paint ⟨false, some .nonzero, false⟩)
  | fillObsolete : AsksFor (.known .fillObsolete) (.paint ⟨false, some .nonzero, false⟩)
  | fillEvenOdd : AsksFor (.known .fillEvenOdd) (.paint ⟨false, some .evenOdd, false⟩)
  | fillEvenOddObsolete :
      AsksFor (.known .fillEvenOddObsolete) (.paint ⟨false, some .evenOdd, false⟩)
  | fillStroke : AsksFor (.known .fillStroke) (.paint ⟨false, some .nonzero, true⟩)
  | fillStrokeEvenOdd : AsksFor (.known .fillStrokeEvenOdd) (.paint ⟨false, some .evenOdd, true⟩)
  | closeFillStroke : AsksFor (.known .closeFillStroke) (.paint ⟨true, some .nonzero, true⟩)
  | closeFillStrokeEvenOdd :
      AsksFor (.known .closeFillStrokeEvenOdd) (.paint ⟨true, some .evenOdd, true⟩)
  | endPath : AsksFor (.known .endPath) (.paint ⟨false, none, false⟩)
  | clip : AsksFor (.known .clip) (.clip .nonzero)
  | clipEvenOdd : AsksFor (.known .clipEvenOdd) (.clip .evenOdd)
  | beginText : AsksFor (.known .beginText) .beginText
  | endText : AsksFor (.known .endText) .endText
  | charSpacing (x : Float) : AsksFor (.known .charSpacing) (.set (.charSpacing x))
  | wordSpacing (x : Float) : AsksFor (.known .wordSpacing) (.set (.wordSpacing x))
  | horizontalScale (x : Float) : AsksFor (.known .horizontalScale) (.set (.horizontalScale x))
  | leading (x : Float) : AsksFor (.known .leading) (.set (.leading x))
  | font (name : String) (size : Float) : AsksFor (.known .font) (.font name size)
  | renderMode (code : Int) : AsksFor (.known .renderMode) (.set (.renderMode code))
  | rise (x : Float) : AsksFor (.known .rise) (.set (.rise x))
  | moveLine (tx ty : Float) : AsksFor (.known .moveLine) (.write (.moveLine tx ty))
  | moveLineLeading (tx ty : Float) :
      AsksFor (.known .moveLineLeading) (.write (.moveLineLeading tx ty))
  | textMatrix (m : Matrix Float) : AsksFor (.known .textMatrix) (.write (.setMatrix m))
  | nextLine : AsksFor (.known .nextLine) (.write .nextLine)
  | showText (bytes : Bytes) : AsksFor (.known .showText) (.write (.write bytes))
  | showAdjusted (items : List Operand) :
      AsksFor (.known .showAdjusted) (.write (.writeAdjusted items))
  | nextLineShow (bytes : Bytes) : AsksFor (.known .nextLineShow) (.write (.nextLineWrite bytes))
  | nextLineShowSpaced (wordSpacing charSpacing : Float) (bytes : Bytes) :
      AsksFor (.known .nextLineShowSpaced)
        (.write (.nextLineWriteSpaced wordSpacing charSpacing bytes))
  | strokeSpace (name : String) : AsksFor (.known .strokeSpace) (.space .stroke name)
  | fillSpace (name : String) : AsksFor (.known .fillSpace) (.space .fill name)
  | strokeColor (operands : List Operand) :
      AsksFor (.known .strokeColor) (.color .stroke Keyword.strokeColor.spelling operands)
  | strokeColorN (operands : List Operand) :
      AsksFor (.known .strokeColorN) (.color .stroke Keyword.strokeColorN.spelling operands)
  | fillColor (operands : List Operand) :
      AsksFor (.known .fillColor) (.color .fill Keyword.fillColor.spelling operands)
  | fillColorN (operands : List Operand) :
      AsksFor (.known .fillColorN) (.color .fill Keyword.fillColorN.spelling operands)
  | strokeGray (x : Float) : AsksFor (.known .strokeGray) (.device .stroke .deviceGray [x])
  | fillGray (x : Float) : AsksFor (.known .fillGray) (.device .fill .deviceGray [x])
  | strokeRgb (r g b : Float) : AsksFor (.known .strokeRgb) (.device .stroke .deviceRgb [r, g, b])
  | fillRgb (r g b : Float) : AsksFor (.known .fillRgb) (.device .fill .deviceRgb [r, g, b])
  | strokeCmyk (c m y k : Float) :
      AsksFor (.known .strokeCmyk) (.device .stroke .deviceCmyk [c, m, y, k])
  | fillCmyk (c m y k : Float) :
      AsksFor (.known .fillCmyk) (.device .fill .deviceCmyk [c, m, y, k])
  | invoke (name : String) : AsksFor (.known .invoke) (.invoke name)
  | shade (name : String) : AsksFor (.known .shade) (.shade name)
  | beginImage : AsksFor (.known .beginImage) .ignore
  | imageData : AsksFor (.known .imageData) .ignore
  | endImage : AsksFor (.known .endImage) .ignore
  | markPoint : AsksFor (.known .markPoint) .ignore
  | markPointProperties : AsksFor (.known .markPointProperties) .ignore
  | beginMarked : AsksFor (.known .beginMarked) .ignore
  | beginMarkedProperties : AsksFor (.known .beginMarkedProperties) .ignore
  | endMarked : AsksFor (.known .endMarked) .ignore
  | glyphWidth : AsksFor (.known .glyphWidth) .ignore
  | glyphWidthBox : AsksFor (.known .glyphWidthBox) .ignore
  | beginCompatibility : AsksFor (.known .beginCompatibility) .beginCompatibility
  | endCompatibility : AsksFor (.known .endCompatibility) .endCompatibility
  | unknown (spelling : String) : AsksFor (.unknown spelling) (.unknown spelling)

/-- The command of an operator is one that it asks for. There is a case for each keyword, and in
each the command is read off the operands that it takes. -/
theorem Operator.AsksFor.of_decode {op : Operator} {operands : List Operand} {command : Command}
    (h : Command.decode op operands = .ok command) : op.AsksFor command := by
  cases op with
  | unknown spelling =>
      obtain rfl := Except.ok.inj h
      exact .unknown spelling
  | known k =>
      refine Take.Gives.run' (x := Command.ofKeyword k) ?_ h
      cases k with
      | dash | font => exact .andThen fun _ => .andThen fun _ => .pure (by constructor)
      | nextLineShowSpaced => exact .andThen fun _ => .andThen fun _ => .pure (by constructor)
      | save | restore | closePath | stroke | closeStroke | fill | fillObsolete | fillEvenOdd
      | fillEvenOddObsolete | fillStroke | fillStrokeEvenOdd | closeFillStroke
      | closeFillStrokeEvenOdd | endPath | clip | clipEvenOdd | beginText | endText | nextLine
      | beginImage | imageData | endImage | endMarked | beginCompatibility | endCompatibility =>
          exact .pure (by constructor)
      | _ => exact .andThen fun _ => .pure (by constructor)

namespace Command

/-- Every keyword asks for its operands, and fails for nothing else. The keywords are grouped by
what they take, which is a sequence of steps that each ask. -/
theorem asks_ofKeyword (k : Keyword) : Take.Asks (ofKeyword k) := by
  cases k with
  | concat | textMatrix => exact (Take.asks_matrix _).bind fun _ => .pure _
  | lineCap | lineJoin | renderMode => exact (Take.asks_code _).bind fun _ => .pure _
  | lineWidth | miterLimit | flatness | charSpacing | wordSpacing | horizontalScale | leading
  | rise | strokeGray | fillGray => exact (Take.asks_number _).bind fun _ => .pure _
  | dash => exact (Take.asks_number _).bind fun _ => (Take.asks_array _).bind fun _ => .pure _
  | font => exact (Take.asks_number _).bind fun _ => (Take.asks_name _).bind fun _ => .pure _
  | intent | extGState | strokeSpace | fillSpace | invoke | shade =>
      exact (Take.asks_name _).bind fun _ => .pure _
  | moveTo | lineTo => exact (Take.asks_point _).bind fun _ => .pure _
  | curveTo => exact (Take.asks_threePoints _).bind fun _ => .pure _
  | curveFromCurrent | curveToEnd | rectangle | strokeCmyk | fillCmyk =>
      exact (Take.asks_four _).bind fun _ => .pure _
  | moveLine | moveLineLeading => exact (Take.asks_two _).bind fun _ => .pure _
  | strokeRgb | fillRgb => exact (Take.asks_three _).bind fun _ => .pure _
  | showText | nextLineShow => exact (Take.asks_string _).bind fun _ => .pure _
  | showAdjusted => exact (Take.asks_array _).bind fun _ => .pure _
  | nextLineShowSpaced =>
      exact (Take.asks_string _).bind fun _ => (Take.asks_two _).bind fun _ => .pure _
  | strokeColor | strokeColorN | fillColor | fillColorN => exact Take.Asks.get.bind fun _ => .pure _
  | markPoint | markPointProperties | beginMarked | beginMarkedProperties | glyphWidth
  | glyphWidthBox => exact (Take.asks_require _ _).bind fun _ => .pure _
  | _ => exact .pure _

/-- An operator is refused for its operands only: what is not a keyword gives no command, and no
fault. -/
theorem isOperand_of_decode {op : Operator} {operands : List Operand} {fault : Fault}
    (h : decode op operands = .error fault) : fault.isOperand = true := by
  cases op with
  | known k => exact (asks_ofKeyword k).run' h
  | unknown spelling => cases h

end Command

end ContentStream
