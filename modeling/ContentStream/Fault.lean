import ContentStream.Geometry
import ContentStream.Token

/-!
# Faults

What can go wrong when a content stream is tokenized or interpreted. A fault ends the program in
which it arises; a program that invokes it goes on. The causes are data, and their wording is in
one place, `Fault.message`.
-/

namespace ContentStream

/-- A **lexical flaw**: why some bytes form no token. -/
inductive LexicalFlaw where
  | unterminatedArray
  | unbalancedBracket
  | unterminatedString
  | unterminatedHexString
  | invalidHexDigit
  | secondDecimalPoint
  | noDigits
  | unterminatedImage
deriving DecidableEq

/-- The **kind of operand** an operator asks for. -/
inductive OperandKind where
  | number
  | name
  | string
  | array
deriving DecidableEq

/-- The **category of a resource**. -/
inductive ResourceKind where
  | font
  | xobject
  | pattern
  | shading
  | extGState
  | colorSpace
deriving DecidableEq

/-- An **inline image flaw**: why an inline image cannot be drawn. -/
inductive ImageFlaw where
  /-- The program ends before the image data. -/
  | noData
  /-- A token that is neither a key nor image data stands where one of them belongs. -/
  | notAKey (token : Token)
  /-- The program ends where a value belongs. -/
  | noValue
  /-- A token that begins no value stands where a value belongs. -/
  | notAValue (token : Token)
  /-- A token that is no key stands in a nested dictionary where a key belongs. -/
  | notANestedKey (token : Token)
  /-- The program ends inside a nested dictionary. -/
  | unterminatedDictionary
  /-- The dictionary lacks an entry, or has no acceptable value for it. -/
  | missing (key : String)
  /-- The resources refuse the image or the stream, for a reason of their own. -/
  | refused (reason : String)

/-- A **fault**: why a program ends early. -/
inductive Fault where
  | lexical (position : Nat) (flaw : LexicalFlaw)
  | missingOperands (operator : String) (expected found : Nat)
  | operandType (operator : String) (expected : OperandKind)
  | unbalancedCompatibility
  | stackUnderflow
  | missingResource (kind : ResourceKind) (name : String)
  | invalidInlineImage (flaw : ImageFlaw)
  | nonInvertibleTransform (transform : Matrix Float)
  | nestingTooDeep (limit : Nat)

/-! ### Wording -/

/-- The wording of a lexical flaw. -/
def LexicalFlaw.message : LexicalFlaw → String
  | unterminatedArray => "unterminated array"
  | unbalancedBracket => "unbalanced ']'"
  | unterminatedString => "unterminated string"
  | unterminatedHexString => "unterminated hex string"
  | invalidHexDigit => "invalid hex digit"
  | secondDecimalPoint => "second decimal point in number"
  | noDigits => "number has no digits"
  | unterminatedImage => "unterminated inline image"

/-- The wording of an operand kind. -/
def OperandKind.message : OperandKind → String
  | number => "number"
  | name => "name"
  | string => "string"
  | array => "array"

/-- The wording of a resource category. -/
def ResourceKind.message : ResourceKind → String
  | font => "font"
  | xobject => "xobject"
  | pattern => "pattern"
  | shading => "shading"
  | extGState => "ext_gstate"
  | colorSpace => "color_space"

/-- The wording of an inline image flaw. -/
def ImageFlaw.message : ImageFlaw → String
  | noData => "missing image data"
  | notAKey t => "unexpected " ++ t.describe ++ " before image data"
  | noValue => "dictionary ends without a value"
  | notAValue t => "unexpected " ++ t.describe ++ " in image dictionary"
  | notANestedKey t => "expected a key, found " ++ t.describe
  | unterminatedDictionary => "unterminated nested dictionary"
  | missing key => "missing " ++ key
  | refused reason => reason

/-- A transform in diagnostics. -/
def Matrix.describe (m : Matrix Float) : String :=
  "(" ++ ", ".intercalate ([m.a, m.b, m.c, m.d, m.e, m.f].map Decimal.Style.exact.write) ++ ")"

/-- The wording of a **fault**. -/
def Fault.message : Fault → String
  | lexical position flaw =>
    "invalid token at position " ++ toString position ++ ": " ++ flaw.message
  | missingOperands operator expected found =>
    "operator " ++ operator ++ " expects " ++ toString expected ++ " operand(s), found "
      ++ toString found
  | operandType operator expected =>
    "operator " ++ operator ++ ": expected " ++ expected.message ++ " operand"
  | unbalancedCompatibility => "EX without matching BX"
  | stackUnderflow => "graphics state stack underflow"
  | missingResource kind name => kind.message ++ " resource not found: " ++ name
  | invalidInlineImage flaw => "invalid inline image: " ++ flaw.message
  | nonInvertibleTransform transform => "non-invertible transform " ++ transform.describe
  | nestingTooDeep limit => "sub-program nesting exceeds " ++ toString limit ++ " levels"

end ContentStream
