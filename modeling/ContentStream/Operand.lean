import ContentStream.Fault

/-!
# Operands

Operands precede their operator. They are kept on a stack, and an operator takes its own from the
top; what lies below does not matter to it, and is gone when the operator has been dealt with.

## Main definitions

* `Operand.ofToken`: a token with its spans resolved.
* `Take`: taking operands off the stack, with `Take.number`, `Take.name` and so on for the kinds.
-/

namespace ContentStream

/-- An **operand**. Booleans and the brackets of dictionaries can stand among operands too, but no
operator has a use for them. -/
inductive Operand where
  | number (numeral : Numeral)
  | name (text : String)
  | string (bytes : Bytes)
  | array (items : List Operand)
  | other

mutual

/-- The operand that a **token** of a program stands for. -/
def Operand.ofToken (p : Program) : Token → Operand
  | .number numeral => .number numeral
  | .name span => .name (p.text span)
  | .string span => .string (p.decoded span)
  | .array items => .array (Operand.ofTokens p items)
  | .operator _ => .other
  | .dictOpen => .other
  | .dictClose => .other
  | .boolean _ => .other
  | .imageData _ => .other

/-- The operands that the tokens of an array stand for. -/
def Operand.ofTokens (p : Program) : List Token → List Operand
  | [] => []
  | t :: ts => Operand.ofToken p t :: Operand.ofTokens p ts

end

/-- The number, if the operand is one. -/
def Operand.number? : Operand → Option Float
  | number numeral => some numeral.value
  | _ => none

/-! ### Taking operands -/

/-- **Takes operands** off the stack, of which the top comes first. -/
abbrev Take (α : Type) := StateT (List Operand) (Except Fault) α

namespace Take

variable (op : String)

/-- Requires that there are enough operands. -/
def require (expected : Nat) : Take Unit := do
  let found := (← get).length
  if found < expected then
    throw (.missingOperands op expected found)

/-- Takes the top operand, whatever it is. -/
def operand : Take Operand := do
  match ← get with
  | [] => throw (.missingOperands op 1 0)
  | top :: rest =>
    set rest
    pure top

/-- Takes a numeral. -/
def numeral : Take Numeral := do
  match ← operand op with
  | .number numeral => pure numeral
  | _ => throw (.operandType op .number)

/-- Takes a number. -/
def number : Take Float := do
  pure (← numeral op).value

/-- Takes a name. -/
def name : Take String := do
  match ← operand op with
  | .name text => pure text
  | _ => throw (.operandType op .name)

/-- Takes a string. -/
def string : Take Bytes := do
  match ← operand op with
  | .string bytes => pure bytes
  | _ => throw (.operandType op .string)

/-- Takes an array. -/
def array : Take (List Operand) := do
  match ← operand op with
  | .array items => pure items
  | _ => throw (.operandType op .array)

/-- Takes an integer code: a number, cut off toward zero and to 32 bits. -/
def code : Take Int := do
  pure (← number op).toModel.toInt32.toInt

/-- Takes `n` numerals in front of those taken before. -/
def numeralsOnto : (n : Nat) → List Numeral → Take (List Numeral)
  | 0, taken => pure taken
  | n + 1, taken => do
    let x ← numeral op
    numeralsOnto n (x :: taken)

/-- Takes `n` numerals, in the order in which they were written. -/
def numerals (n : Nat) : Take (List Numeral) := do
  require op n
  numeralsOnto op n []

/-- Takes `n` numbers, in the order in which they were written. -/
def numbers (n : Nat) : Take (List Float) := do
  pure ((← numerals op n).map Numeral.value)

/-- Takes two numbers. -/
def two : Take (Float × Float) := do
  require op 2
  let y ← number op
  let x ← number op
  pure (x, y)

/-- Takes the two coordinates of a point. -/
def point : Take (Point Float) := do
  let (x, y) ← two op
  pure ⟨x, y⟩

/-- Takes three numbers. -/
def three : Take (Float × Float × Float) := do
  require op 3
  let z ← number op
  let (x, y) ← two op
  pure (x, y, z)

/-- Takes four numbers. -/
def four : Take (Float × Float × Float × Float) := do
  require op 4
  let (z, w) ← two op
  let (x, y) ← two op
  pure (x, y, z, w)

/-- Takes three points. -/
def threePoints : Take (Point Float × Point Float × Point Float) := do
  require op 6
  let p₃ ← point op
  let p₂ ← point op
  let p₁ ← point op
  pure (p₁, p₂, p₃)

/-- Takes the six entries of a transform. -/
def matrix : Take (Matrix Float) := do
  require op 6
  let (e, f) ← two op
  let (c, d) ← two op
  let (a, b) ← two op
  pure ⟨a, b, c, d, e, f⟩

end Take

end ContentStream
