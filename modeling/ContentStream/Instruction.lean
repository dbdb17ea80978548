import ContentStream.InlineImage
import ContentStream.Operand

/-!
# Instructions

A program is a sequence of instructions. Most of them are an operator with the operands before it;
an inline image is an instruction of its own. Operands that no operator follows belong to no
instruction, and neither do those before inline image data that no operator introduced.
-/

namespace ContentStream

/-- An **instruction** of a program. -/
inductive Instruction where
  /-- An operator, and the operands before it, the last one first. -/
  | operate (op : Operator) (operands : List Operand)
  /-- An inline image. -/
  | drawImage (dict : Dict) (data : Bytes)
  /-- An inline image that is not spelled out correctly. The instructions end with it. -/
  | misspelled (flaw : ImageFlaw)

namespace Program

/-- The instructions of some tokens, which are preceded by the given operands. The first `passed`
tokens belong to an inline image before. -/
def instructionsFrom (p : Program) : (passed : Nat) → List Operand → List Token →
    List Instruction
  | _, _, [] => []
  | passed + 1, operands, _ :: ts => instructionsFrom p passed operands ts
  | 0, operands, t :: ts =>
    match t with
    | .operator (.known .beginImage) =>
      match InlineImage.readEntries p 0 [] ts with
      | .error flaw => [.misspelled flaw]
      | .ok image => .drawImage image.dict image.data :: instructionsFrom p image.count [] ts
    | .operator op => .operate op operands :: instructionsFrom p 0 [] ts
    | .imageData _ => instructionsFrom p 0 [] ts
    | t => instructionsFrom p 0 (Operand.ofToken p t :: operands) ts

/-- The instructions of a program. -/
def instructions (p : Program) : List Instruction :=
  p.instructionsFrom 0 [] p.tokens

end Program

end ContentStream
