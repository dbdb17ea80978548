import ContentStream.Event
import ContentStream.Fault
import ContentStream.Text.Json

/-!
# Listing events

A listing shows what a device is asked to do, not the whole graphics state: of a paint its kind
and colors, of a state what the call at hand depends on. Requests to the resources are no part of
it. Every event is one line of text, or one JSON object.
-/

namespace ContentStream

namespace Listing

/-! ### Records -/

/-- A value **in a listing**, to be written as text or as JSON. -/
inductive Field where
  | natural (value : Nat)
  | number (value : Float)
  | boolean (value : Bool)
  | text (value : String)
  | matrix (m : Matrix Float)
  | rect (r : Rect Float)
  | path (p : Path Float)
  | paint (p : Paint)
  | style (s : StrokeStyle)

/-- An event **in a listing**: its name in text and in JSON, and its named values. -/
structure Entry where
  name : String
  tag : String
  fields : List (String × Field) := []

/-- The entry of an event, if it is listed. -/
def entry? : Event → Option Entry
  | .beginPage width height =>
    some ⟨"BeginPage", "begin_page", [("width", .number width), ("height", .number height)]⟩
  | .endPage => some ⟨"EndPage", "end_page", []⟩
  | .save _ => some ⟨"Save", "save", []⟩
  | .restore _ => some ⟨"Restore", "restore", []⟩
  | .fill gs path =>
    some ⟨"Fill", "fill", [("path", .path path), ("paint", .paint gs.fill.paint),
      ("ctm", .matrix gs.ctm), ("alpha", .number gs.fillAlpha)]⟩
  | .stroke gs path =>
    some ⟨"Stroke", "stroke", [("path", .path path), ("paint", .paint gs.stroke.paint),
      ("ctm", .matrix gs.ctm), ("style", .style gs.line.realize.1)]⟩
  | .image gs image transform =>
    some ⟨"Image", "image", [("width", .natural image.width), ("height", .natural image.height),
      ("inline", .boolean image.inlined), ("ctm", .matrix gs.ctm),
      ("transform", .matrix transform)]⟩
  | .glyph _ glyph transform =>
    some ⟨"Glyph", "glyph", [("code", .natural glyph.code), ("transform", .matrix transform)]⟩
  | .clip path =>
    some ⟨"Clip", "clip", [("path", .path path),
      ("even_odd", .boolean (path.winding == .evenOdd))]⟩
  | .beginTile cell matrix =>
    some ⟨"BeginTile", "begin_tile", [("cell", .rect cell), ("matrix", .matrix matrix)]⟩
  | .endTile => some ⟨"EndTile", "end_tile", []⟩
  | .unknownOperator spelling =>
    some ⟨"UnknownOperator", "unknown_operator", [("op", .text spelling)]⟩
  | .inlineImage _ _ _ => none

/-! ### Parts of values -/

/-- The coordinates of a rectangle. -/
def coordinates (r : Rect Float) : List Float :=
  [r.x0, r.y0, r.x1, r.y1]

/-- The entries of a transform. -/
def entries (m : Matrix Float) : List Float :=
  [m.a, m.b, m.c, m.d, m.e, m.f]

/-- The name of a segment. -/
def segmentName : Segment Float → String
  | .move _ => "MoveTo"
  | .line _ => "LineTo"
  | .quad _ _ => "QuadTo"
  | .curve _ _ _ => "CurveTo"
  | .close => "ClosePath"

/-- The coordinates of a segment. -/
def segmentNumbers (s : Segment Float) : List Float :=
  s.points.flatMap fun p => [p.x, p.y]

/-- The name of a winding rule. -/
def windingName : Winding → String
  | .nonzero => "NonZero"
  | .evenOdd => "EvenOdd"

/-! ### As text -/

/-- A number as text. -/
def number (x : Float) : String :=
  Decimal.Style.exact.write x

/-- A truth value as text. -/
def truth (b : Bool) : String :=
  if b then "true" else "false"

/-- Words in round brackets. -/
def tuple (words : List String) : String :=
  "(" ++ ", ".intercalate words ++ ")"

/-- Words in square brackets. -/
def list (words : List String) : String :=
  "[" ++ ", ".intercalate words ++ "]"

/-- Named words in braces, after a name. Without named words the name stands alone. -/
def record (name : String) (fields : List (String × String)) : String :=
  if fields.isEmpty then name
  else name ++ " \x7b " ++ ", ".intercalate (fields.map fun f => f.1 ++ ": " ++ f.2) ++ " \x7d"

/-- An optional word as text. -/
def optional (word : Option String) : String :=
  match word with
  | none => "None"
  | some word => "Some(" ++ word ++ ")"

/-- A segment as text. -/
def segmentText (s : Segment Float) : String :=
  match segmentNumbers s with
  | [] => segmentName s
  | xs => segmentName s ++ tuple (xs.map number)

/-- A paint as text. -/
def paintText : Paint → String
  | .solid color => record "Solid" [("components", list (color.map number))]
  | .tiling tile tint =>
    record "Tiling" [("pattern_id", toString tile.pattern),
      ("tint", optional (tint.map fun color => list (color.map number)))]
  | .shading shading _ => record "Shading" [("shading_type", toString shading.kind)]

/-- A stroke style as text. -/
def styleText (s : StrokeStyle) : String :=
  record "StrokeStyle" [("width", number s.width), ("cap", s.cap.name), ("join", s.join.name),
    ("miter_limit", number s.miterLimit),
    ("dash", optional (s.dash.map fun d =>
      tuple [list (d.lengths.map number), number d.phase]))]

/-- A value as text. -/
def Field.toText : Field → String
  | natural value => toString value
  | number value => Listing.number value
  | boolean value => truth value
  | text value => Text.quoted value
  | matrix m => tuple ((entries m).map Listing.number)
  | rect r => tuple ((coordinates r).map Listing.number)
  | path p => record "Path" [("segments", list (p.segments.map segmentText)),
      ("winding", windingName p.winding)]
  | paint p => paintText p
  | style s => styleText s

/-- An entry as text. -/
def Entry.toText (e : Entry) : String :=
  record e.name (e.fields.map fun f => (f.1, f.2.toText))

/-! ### As JSON -/

/-- A segment as JSON. -/
def segmentJson (s : Segment Float) : JsonValue :=
  match segmentNumbers s with
  | [] => .string (segmentName s)
  | xs => .object [(segmentName s, .numbers xs)]

/-- A paint as JSON. -/
def paintJson : Paint → JsonValue
  | .solid color => .object [("kind", .string "solid"), ("components", .numbers color)]
  | .tiling tile tint =>
    .object [("kind", .string "tiling"), ("pattern_id", .natural tile.pattern),
      ("tint", .ofOption .numbers tint)]
  | .shading shading _ =>
    .object [("kind", .string "shading"), ("shading_type", .integer shading.kind)]

/-- A stroke style as JSON. -/
def styleJson (s : StrokeStyle) : JsonValue :=
  .object [("width", .number s.width), ("cap", .string s.cap.name),
    ("join", .string s.join.name), ("miter_limit", .number s.miterLimit),
    ("dash", .ofOption (fun d => .array [.numbers d.lengths, .number d.phase]) s.dash)]

/-- A value as JSON. -/
def Field.toJson : Field → JsonValue
  | natural value => .natural value
  | number value => .number value
  | boolean value => .boolean value
  | text value => .string value
  | matrix m => .numbers (entries m)
  | rect r => .numbers (coordinates r)
  | path p => .object [("segments", .array (p.segments.map segmentJson)),
      ("winding", .string (windingName p.winding))]
  | paint p => paintJson p
  | style s => styleJson s

/-- An entry as JSON. -/
def Entry.toJson (e : Entry) : JsonValue :=
  .object (("event", .string e.tag) :: e.fields.map fun f => (f.1, f.2.toJson))

/-! ### Listings -/

/-- The text listing of events. -/
def events (es : List Event) : String :=
  String.join ((es.filterMap entry?).map fun e => e.toText ++ "\n")

/-- The JSON listing of events. -/
def jsonEvents (es : List Event) : String :=
  (JsonValue.array ((es.filterMap entry?).map Entry.toJson)).write ++ "\n"

end Listing

end ContentStream
