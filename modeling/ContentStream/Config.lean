/-!
# Configuration

The choices an interpreter leaves open: how deeply programs may nest, when two uses of a tiling
pattern share a tile, and how strictly the end of inline image data is recognized.
-/

namespace ContentStream

/-- What makes **two references to a tiling pattern** share a tile. -/
inductive TileSharing where
  /-- The same pattern and, for a stencil, the same tint. -/
  | byPatternAndTint
  /-- The same pattern, whatever the tint of a stencil. The first tint is the one that shows. -/
  | byPattern
deriving DecidableEq

/-- The **configuration** of an interpreter. -/
structure Config where
  /-- How deeply forms and tiles may nest below the page. -/
  maxDepth : Nat := 32
  tileSharing : TileSharing := .byPatternAndTint
  /-- Whether the mark that ends inline image data must be followed by white space or the end. -/
  strictImageEnd : Bool := false

end ContentStream
