import ContentStream.Fault
import ContentStream.Object

/-!
# Inline image dictionaries

An inline image is introduced by an operator, after which its dictionary is spelled out entry by
entry without brackets, up to the image data. Keys and some values may be abbreviated. Values are
objects of any kind; a nested dictionary stands between its own brackets, which are tokens of the
same level, while an array is one token.

Reading keeps the dictionaries that are still open on a stack. A value that is complete goes into
the innermost of them, or is the result if none is open.

## Main definitions

* `InlineImage.readObject`: the object at the front of some tokens.
* `InlineImage.readEntries`: the dictionary, the data, and how many tokens the two take.
-/

namespace ContentStream

namespace InlineImage

/-! ### Objects -/

/-- A nested dictionary that is **still open**: its entries so far, and the key that waits for its
value, if one does. -/
structure Open where
  dict : Dict
  key : Option String

/-- A complete value goes to the innermost open dictionary; without one it is the result. -/
def deliver (value : Object) : List Open → List Open × Option Object
  | ⟨dict, some key⟩ :: around => (⟨dict.insert key value, none⟩ :: around, none)
  | around => (around, some value)

/-- What is wrong when the tokens end while dictionaries are open. -/
def endFlaw : List Open → ImageFlaw
  | ⟨_, none⟩ :: _ => .unterminatedDictionary
  | _ => .noValue

/-- Takes in one token, of which the value as an object by itself is given. -/
def feed (p : Program) (token : Token) (value : Except ImageFlaw Object) :
    List Open → Except ImageFlaw (List Open × Option Object)
  | ⟨dict, none⟩ :: around =>
    match token with
    | .dictClose => .ok (deliver (.dict dict) around)
    | .name span => .ok (⟨dict, some (p.text span)⟩ :: around, none)
    | _ => .error (.notANestedKey token)
  | around =>
    match token with
    | .dictOpen => .ok (⟨[], none⟩ :: around, none)
    | _ => value.map fun v => deliver v around

mutual

/-- The object that is one token. -/
def valueOf (p : Program) : Token → Except ImageFlaw Object
  | .number numeral => .ok (.number numeral.value)
  | .boolean value => .ok (.boolean value)
  | .name span => .ok (.name (p.text span))
  | .string span => .ok (.string (p.decoded span))
  | .array items => (readItems p [] [] items).map .array
  | .dictOpen => .error (.notAValue .dictOpen)
  | .dictClose => .error (.notAValue .dictClose)
  | .operator op => .error (.notAValue (.operator op))
  | .imageData span => .error (.notAValue (.imageData span))

/-- The objects in an array, of which those in `items` are complete, the latest first. -/
def readItems (p : Program) : List Open → (items : List Object) → List Token →
    Except ImageFlaw (List Object)
  | [], items, [] => .ok items.reverse
  | o :: around, _, [] => .error (endFlaw (o :: around))
  | around, items, t :: ts =>
    match feed p t (valueOf p t) around with
    | .error flaw => .error flaw
    | .ok (around, some value) => readItems p around (value :: items) ts
    | .ok (around, none) => readItems p around items ts

end

/-- The object at the front of some tokens, and the number of its tokens. -/
def readObject (p : Program) : List Open → List Token → Except ImageFlaw (Object × Nat)
  | around, [] => .error (endFlaw around)
  | around, t :: ts =>
    match feed p t (valueOf p t) around with
    | .error flaw => .error flaw
    | .ok (_, some value) => .ok (value, 1)
    | .ok (around, none) => (readObject p around ts).map fun (value, n) => (value, n + 1)

/-! ### Abbreviations -/

/-- The full spelling of a word by a table of abbreviations. -/
def expand (table : List (String × String)) (word : String) : String :=
  (table.lookup word).getD word

/-- The abbreviated keys. -/
def keyTable : List (String × String) :=
  [("BPC", "BitsPerComponent"), ("CS", "ColorSpace"), ("D", "Decode"), ("DP", "DecodeParms"),
    ("F", "Filter"), ("H", "Height"), ("IM", "ImageMask"), ("I", "Interpolate"), ("W", "Width")]

/-- The abbreviated color spaces and filters. -/
def valueTable : List (String × String) :=
  [("G", "DeviceGray"), ("RGB", "DeviceRGB"), ("CMYK", "DeviceCMYK"), ("I", "Indexed"),
    ("AHx", "ASCIIHexDecode"), ("A85", "ASCII85Decode"), ("LZW", "LZWDecode"),
    ("Fl", "FlateDecode"), ("RL", "RunLengthDecode"), ("CCF", "CCITTFaxDecode"),
    ("DCT", "DCTDecode")]

mutual

/-- A value with the names in it spelled out, also in arrays but not in dictionaries. -/
def expandValue : Object → Object
  | .name text => .name (expand valueTable text)
  | .array items => .array (expandValues items)
  | .boolean value => .boolean value
  | .number value => .number value
  | .string bytes => .string bytes
  | .dict entries => .dict entries

/-- The values of an array with the names in them spelled out. -/
def expandValues : List Object → List Object
  | [] => []
  | o :: os => expandValue o :: expandValues os

end

/-- A dictionary with an entry as written, spelled out. Values are spelled out only where they say a
color space or a filter. -/
def addEntry (dict : Dict) (key : String) (value : Object) : Dict :=
  let key := expand keyTable key
  dict.insert key (if key == "ColorSpace" || key == "Filter" then expandValue value else value)

/-! ### The image -/

/-- An **inline image** as a content stream spells it out, and the number of its tokens. -/
structure Spelled where
  dict : Dict
  data : Bytes
  count : Nat

/-- Reads the entries up to the image data onto a dictionary. The first `passed` tokens belong to an
entry that was read before. At the end the dictionary is marked as that of an image. -/
def readEntries (p : Program) : (passed : Nat) → Dict → List Token → Except ImageFlaw Spelled
  | _, _, [] => .error .noData
  | passed + 1, dict, _ :: ts =>
    (readEntries p passed dict ts).map fun s => { s with count := s.count + 1 }
  | 0, dict, t :: ts =>
    match t with
    | .imageData span => .ok ⟨dict.insert "Subtype" (.name "Image"), p.raw span, 1⟩
    | .name span =>
      match readObject p [] ts with
      | .error flaw => .error flaw
      | .ok (value, n) =>
        (readEntries p n (addEntry dict (p.text span) value) ts).map fun s =>
          { s with count := s.count + 1 }
    | t => .error (.notAKey t)

end InlineImage

end ContentStream
