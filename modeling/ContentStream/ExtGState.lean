import ContentStream.Command
import ContentStream.Object

/-!
# Graphics state parameter dictionaries

A dictionary of graphics state parameters sets several parameters at once. Its entries take effect
in order. Entries with an unknown key or an unsuitable value have no effect.
-/

namespace ContentStream

/-- The **effect of an entry**: a setting, or the selection of a font, which has to be looked
up. -/
inductive Parameter where
  | set (setting : Setting)
  | font (name : String) (size : Float)

namespace Parameter

/-- A number held between zero and one. A NaN stays as it is. -/
def clamp (x : Float) : Float :=
  if x < 0.0 then 0.0 else if 1.0 < x then 1.0 else x

/-- A setting made of a number. -/
def ofNumber (value : Object) (setting : Float → Setting) : Option Parameter :=
  value.number?.map fun x => .set (setting x)

/-- A setting made of an integer code, of which the low 32 bits count. -/
def ofCode (value : Object) (setting : Int → Setting) : Option Parameter :=
  value.integer?.map fun i => .set (setting i.toInt32.toInt)

/-- A setting made of a truth value. -/
def ofBoolean (value : Object) (setting : Bool → Setting) : Option Parameter :=
  value.boolean?.map fun b => .set (setting b)

/-- The blend mode of a name, or of the first name in an array that is one of a mode. -/
def blendMode? : Object → Option BlendMode
  | .name text => BlendMode.ofName? text
  | .array items => (items.filterMap Object.name?).findSome? BlendMode.ofName?
  | _ => none

/-- A dash pattern made of a pair. What is missing in it counts as empty or zero. -/
def dash? (value : Object) : Option Dash :=
  value.pair?.map fun (lengths, phase) =>
    ⟨lengths.numbers?.getD [], phase.number?.getD 0.0⟩

/-- The effect of an entry, if it has one. -/
def ofEntry? (key : String) (value : Object) : Option Parameter :=
  match key with
  | "LW" => ofNumber value .lineWidth
  | "LC" => ofCode value .lineCap
  | "LJ" => ofCode value .lineJoin
  | "ML" => ofNumber value .miterLimit
  | "D" => (dash? value).map fun d => .set (.dash d)
  | "RI" => value.name?.map fun text => .set (.intent text)
  | "FL" => ofNumber value .flatness
  | "BM" => (blendMode? value).map fun mode => .set (.blendMode mode)
  | "AIS" => ofBoolean value .alphaIsShape
  | "CA" => ofNumber value fun x => .strokeAlpha (clamp x)
  | "ca" => ofNumber value fun x => .fillAlpha (clamp x)
  | "Font" => do
    let (name, size) ← value.pair?
    some (.font (← name.name?) (← size.number?))
  | "TK" => ofBoolean value .knockout
  | _ => none

/-- The effects of a dictionary, in order. -/
def ofDict (dict : Dict) : List Parameter :=
  dict.filterMap fun entry => ofEntry? entry.1 entry.2

end Parameter

end ContentStream
