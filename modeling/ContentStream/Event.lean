import ContentStream.Image
import ContentStream.GState

/-!
# Events

Interpreting a content stream is observed through events: the calls a device receives, in order.
An event that depends on the graphics state carries it. One kind of event is a request to the
resources rather than to the device: to make an image of inline image data.
-/

namespace ContentStream

/-- An **event** of an interpretation. -/
inductive Event where
  | beginPage (width height : Float)
  | endPage
  /-- A state was saved; the copy that is now current. -/
  | save (state : GState)
  /-- A state was restored and is now current. -/
  | restore (state : GState)
  /-- A path in user space is filled. -/
  | fill (state : GState) (path : Path Float)
  /-- A path in user space is stroked. -/
  | stroke (state : GState) (path : Path Float)
  /-- An image is painted; the transform takes its pixels to the unit square. -/
  | image (state : GState) (image : Image) (transform : Matrix Float)
  /-- A glyph is painted; the transform takes glyph space to device space. -/
  | glyph (state : GState) (glyph : Glyph) (transform : Matrix Float)
  /-- The clip is narrowed to a path in device space. -/
  | clip (path : Path Float)
  /-- The events up to the matching end render the cell of a tile. -/
  | beginTile (cell : Rect Float) (matrix : Matrix Float)
  | endTile
  /-- An operator that is no keyword was passed over. -/
  | unknownOperator (spelling : String)
  /-- The scope with the given label was asked to decode an inline image. -/
  | inlineImage (scope : String) (dict : Dict) (data : Bytes)

end ContentStream
