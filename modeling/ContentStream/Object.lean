/-!
# Objects

The values a document hands to a content stream, or a content stream spells out in the dictionary
of an inline image. A dictionary keeps its entries in the order in which their keys first came up.
-/

namespace ContentStream

/-- An **object**. -/
inductive Object where
  | boolean (value : Bool)
  | number (value : Float)
  | name (text : String)
  | string (bytes : List UInt8)
  | array (items : List Object)
  | dict (entries : List (String × Object))

/-- A dictionary: entries with distinct keys, in order. -/
abbrev Dict := List (String × Object)

namespace Dict

/-- The value of a key. -/
def get? (d : Dict) (key : String) : Option Object :=
  (d.find? fun entry => entry.1 == key).map Prod.snd

/-- A dictionary with an entry added. A value for a key that is already there replaces the old one
and keeps its place. -/
def insert (key : String) (value : Object) : Dict → Dict
  | [] => [(key, value)]
  | entry :: rest =>
    if entry.1 == key then (key, value) :: rest else entry :: insert key value rest

/-- The dictionary of a list of entries, added one by one. -/
def ofList (entries : List (String × Object)) : Dict :=
  entries.foldl (fun d entry => insert entry.1 entry.2 d) []

end Dict

namespace Object

/-- The number, if the object is one. -/
def number? : Object → Option Float
  | number value => some value
  | _ => none

/-- The integer nearest to the number in the direction of zero, within 64 bits. A NaN counts as
zero. -/
def integer? (o : Object) : Option Int64 :=
  o.number?.map fun x => x.toModel.toInt64

/-- The truth value, if the object is one. -/
def boolean? : Object → Option Bool
  | boolean value => some value
  | _ => none

/-- The name, if the object is one. -/
def name? : Object → Option String
  | name text => some text
  | _ => none

/-- The items, if the object is an array. -/
def array? : Object → Option (List Object)
  | array items => some items
  | _ => none

/-- The numbers among the items, if the object is an array. -/
def numbers? (o : Object) : Option (List Float) :=
  o.array?.map fun items => items.filterMap number?

/-- The two items of an array that has exactly two. -/
def pair? : Object → Option (Object × Object)
  | array [first, second] => some (first, second)
  | _ => none

end Object

end ContentStream
