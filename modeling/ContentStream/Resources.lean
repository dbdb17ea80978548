import ContentStream.Image
import ContentStream.Font

/-!
# Resources

A content stream names its fonts, images, forms, patterns and the like; what the names mean is
said by *scopes*. A library gives meaning to scopes of any type `σ`: it is a bundle of look-ups,
and a form or a pattern it hands out may come with a scope of its own. Nothing keeps scopes from
leading to one another in circles, or to ever new ones.

At any time a list of scopes is in force, the innermost first. A name means what the first scope
that knows it says.

## Main definitions

* `Library`: the look-ups.
* `Library.find`: looking a name up in a list of scopes.
* `Directory`: a library of scopes in tables, which are referred to by number.
-/

namespace ContentStream

/-! ### What names refer to -/

/-- A **form**: a content stream used as a building block. -/
structure Form (σ : Type) where
  /-- Tells a form from others, to notice when it invokes itself. -/
  identity : Nat
  bbox : Rect Float
  matrix : Matrix Float
  content : Bytes
  /-- The form's own scope, if it has one. -/
  scope : Option σ

/-- An **external object**. -/
inductive XObject (σ : Type) where
  | image (image : Image)
  | form (form : Form σ)

/-- Where the **colors of a tiling pattern** come from. -/
inductive TilingKind where
  /-- The cell sets its own colors. -/
  | colored
  /-- The cell is a stencil, tinted where the pattern is used. -/
  | uncolored
deriving DecidableEq

/-- A **tiling pattern**: a cell that is repeated over an area. -/
structure Tiling (σ : Type) where
  identity : Nat
  kind : TilingKind
  bbox : Rect Float
  xStep : Float
  yStep : Float
  matrix : Matrix Float
  content : Bytes
  scope : Option σ

/-- A **pattern**. -/
inductive Pattern (σ : Type) where
  | tiling (tiling : Tiling σ)
  | shading (shading : Shading) (matrix : Matrix Float)

/-! ### Libraries -/

/-- A **library** of resources. -/
structure Library (σ : Type) where
  /-- The name under which a scope is reported. -/
  label : σ → String
  font : σ → String → Option Font
  xobject : σ → String → Option (XObject σ)
  pattern : σ → String → Option (Pattern σ)
  shading : σ → String → Option Shading
  extGState : σ → String → Option Dict
  colorSpace : σ → String → Option ColorSpace
  /-- Undoes the encoding of a content stream. -/
  decodeStream : σ → Bytes → Except Fault Bytes
  /-- Makes an image of an inline image's dictionary and data. -/
  decodeInlineImage : σ → Dict → Bytes → Except Fault Image

/-- The meaning of a name in the **first scope that knows it**. -/
def Library.find {σ ρ : Type} (lookup : σ → String → Option ρ) (kind : ResourceKind)
    (scopes : List σ) (name : String) : Except Fault ρ :=
  match scopes.findSome? fun scope => lookup scope name with
  | some found => .ok found
  | none => .error (.missingResource kind name)

namespace Library

variable {σ : Type} (lib : Library σ) (scopes : List σ)

/-- The font of a name. -/
def findFont (name : String) : Except Fault Font :=
  find lib.font .font scopes name

/-- The external object of a name. -/
def findXObject (name : String) : Except Fault (XObject σ) :=
  find lib.xobject .xobject scopes name

/-- The pattern of a name. -/
def findPattern (name : String) : Except Fault (Pattern σ) :=
  find lib.pattern .pattern scopes name

/-- The shading of a name. -/
def findShading (name : String) : Except Fault Shading :=
  find lib.shading .shading scopes name

/-- The graphics state parameters of a name. -/
def findExtGState (name : String) : Except Fault Dict :=
  find lib.extGState .extGState scopes name

/-- The color space of a name, as far as the scopes say. -/
def findColorSpace (name : String) : Except Fault ColorSpace :=
  find lib.colorSpace .colorSpace scopes name

/-- A content stream decoded by the innermost scope. -/
def decode (raw : Bytes) : Except Fault Bytes :=
  match scopes with
  | [] => .ok raw
  | scope :: _ => lib.decodeStream scope raw

/-- An inline image made by the innermost scope. -/
def inlineImage (dict : Dict) (data : Bytes) : Except Fault Image :=
  match scopes with
  | [] => Image.ofDict dict data
  | scope :: _ => lib.decodeInlineImage scope dict data

end Library

/-! ### Directories -/

/-- A **table** of resources by name. Streams are encoded by leaving out a fixed beginning. -/
structure Table where
  label : String := ""
  fonts : List (String × Font) := []
  xobjects : List (String × XObject Nat) := []
  patterns : List (String × Pattern Nat) := []
  shadings : List (String × Shading) := []
  extGStates : List (String × Dict) := []
  colorSpaces : List (String × ColorSpace) := []
  /-- What was left out at the beginning of every content stream. -/
  preamble : Bytes := []
  /-- Why no content stream can be decoded, if that is so. -/
  streamRefusal : Option String := none
  /-- Why no inline image can be decoded, if that is so. -/
  imageRefusal : Option String := none

/-- A **directory**: the tables that scopes refer to by number. -/
abbrev Directory := Array Table

namespace Directory

/-- The entry of a name in one of the tables' columns. -/
def entry? {ρ : Type} (d : Directory) (column : Table → List (String × ρ)) (scope : Nat)
    (name : String) : Option ρ := do
  let table ← d[scope]?
  let entry ← (column table).find? fun entry => entry.1 == name
  some entry.2

/-- The library of a directory. A scope without a table knows no names. -/
def library (d : Directory) : Library Nat where
  label scope := (d[scope]?.map Table.label).getD ""
  font := d.entry? Table.fonts
  xobject := d.entry? Table.xobjects
  pattern := d.entry? Table.patterns
  shading := d.entry? Table.shadings
  extGState := d.entry? Table.extGStates
  colorSpace := d.entry? Table.colorSpaces
  decodeStream scope raw :=
    match d[scope]?.bind Table.streamRefusal, d[scope]?.map Table.preamble with
    | some reason, _ => .error (.invalidInlineImage (.refused reason))
    | none, preamble => .ok (preamble.getD [] ++ raw)
  decodeInlineImage scope dict data :=
    match d[scope]?.bind Table.imageRefusal with
    | some reason => .error (.invalidInlineImage (.refused reason))
    | none => Image.ofDict dict data

end Directory

end ContentStream
