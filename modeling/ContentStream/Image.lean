import ContentStream.Color
import ContentStream.Fault
import ContentStream.Object

/-!
# Images

An image is described by its size, its colors and the filters its data is still under; its pixels
are not looked at. An image that a content stream carries itself is described by a dictionary, the
entries of which are checked here.
-/

namespace ContentStream

/-- An **image**. -/
structure Image where
  width : Nat
  height : Nat
  bitsPerComponent : Nat
  space : Option ColorSpace
  mask : Bool
  filters : List String
  data : Bytes
  /-- Whether the content stream carries the image itself. -/
  inlined : Bool

namespace Image

/-- A dimension of an image, given by an entry of its dictionary: a number not below one. -/
def dimension (dict : Dict) (key : String) : Except Fault Nat :=
  match (dict.get? key).bind Object.number? with
  | some v => if 1.0 ≤ v then .ok v.toUInt32.toNat else .error (.invalidInlineImage (.missing key))
  | none => .error (.invalidInlineImage (.missing key))

/-- The filters named by an entry of an image dictionary: one, or an array of them. -/
def filterNames : Option Object → List String
  | some (.name text) => [text]
  | some (.array items) => items.filterMap Object.name?
  | _ => []

/-- The image described by a dictionary with unabbreviated entries. A mask has one bit for each
pixel unless it says otherwise, and any other image eight for each component. -/
def ofDict (dict : Dict) (data : Bytes) : Except Fault Image := do
  let width ← dimension dict "Width"
  let height ← dimension dict "Height"
  let mask := ((dict.get? "ImageMask").bind Object.boolean?).getD false
  pure
    { width, height, mask, data
      bitsPerComponent :=
        match (dict.get? "BitsPerComponent").bind Object.number? with
        | some bits => bits.toUInt32.toNat
        | none => if mask then 1 else 8
      space := ((dict.get? "ColorSpace").bind Object.name?).bind ColorSpace.predefined?
      filters := filterNames (dict.get? "Filter")
      inlined := true }

/-- The transform that takes an image's pixels to the unit square, the first row on top. -/
def transform (image : Image) : Matrix Float where
  a := 1.0 / Float.ofNat (max image.width 1)
  b := 0.0
  c := 0.0
  d := -1.0 / Float.ofNat (max image.height 1)
  e := 0.0
  f := 1.0

end Image

end ContentStream
