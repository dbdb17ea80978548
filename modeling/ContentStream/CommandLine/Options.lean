import ContentStream.Decimal.Reading

/-!
# Command-line options

An option has a long name after two dashes and mostly a short one after a single dash. Short names
of options without a value can be written together, and an option with a value can end such a
cluster. A value is attached, with or without an equals sign after a short name, or it is the next
word; but a word that starts with a dash is no value, unless the dash is all of it. After a word of
two dashes all words are arguments.

Words are dealt with from left to right, and the first that asks for the version or for help, or
that is wrong, ends the matter.
-/

namespace ContentStream

namespace CommandLine

/-- An **option**. -/
inductive Name where
  | help
  | version
  | debug
  | tokens
  | json
  | strictImageEnd
  | width
  | height
  | rotate
  | maxDepth
  | outfile
deriving DecidableEq

namespace Name

/-- All options. -/
def all : List Name :=
  [help, version, debug, tokens, json, strictImageEnd, width, height, rotate, maxDepth, outfile]

/-- The long name. -/
def long : Name → String
  | help => "help"
  | version => "version"
  | debug => "debug"
  | tokens => "tokens"
  | json => "json"
  | strictImageEnd => "strict-inline-image-end"
  | width => "width"
  | height => "height"
  | rotate => "rotate"
  | maxDepth => "max-depth"
  | outfile => "outfile"

/-- The short name, if there is one. -/
def short? : Name → Option Char
  | help => some 'h'
  | version => some 'v'
  | debug => some 'd'
  | tokens => some 't'
  | json => some 'j'
  | strictImageEnd => none
  | width => some 'W'
  | height => some 'H'
  | rotate => some 'R'
  | maxDepth => none
  | outfile => some 'o'

/-- Whether an option takes a value. -/
def takesValue (n : Name) : Bool :=
  [width, height, rotate, maxDepth, outfile].contains n

end Name

/-- The **options** of a run. -/
structure Options where
  file : String := ""
  debug : Bool := false
  tokens : Bool := false
  json : Bool := false
  strictImageEnd : Bool := false
  width : Float := 612.0
  height : Float := 792.0
  rotate : Int := 0
  maxDepth : Nat := 32
  /-- The file to write to; a dash stands for the standard output. -/
  outfile : String := "-"

/-- What is **wrong with a command line**. -/
inductive Misuse where
  | unknownOption (word : String)
  | repeated (option : String)
  | missingValue (option : String)
  | unexpectedValue (option : String)
  | invalidValue (option value : String)
  | extraArgument (word : String)
  | emptyArgument
  | missingFile

/-- Why a command line **asks for no run**. -/
inductive Halt where
  | help
  | version
  | misuse (m : Misuse)

/-- What is known **after some of the words**: the options, which of them were given, the option
that waits for its value, and whether a file was named. -/
structure Progress where
  options : Options := {}
  given : List Name := []
  waiting : Option Name := none
  named : Bool := false

/-! ### Values -/

/-- The natural number written by a non-empty run of digits. -/
def readDigits? (digits : List Char) : Option Nat :=
  if digits.isEmpty || !digits.all Char.isDigit then none
  else some (Decimal.natOfDigits digits)

/-- An integer of 32 bits, with an optional sign. -/
def readInteger? (text : String) : Option Int := do
  let (negative, digits) := Decimal.signed text.toList
  let n ← readDigits? digits
  let i : Int := if negative then -n else n
  if -0x80000000 ≤ i && i < 0x80000000 then some i else none

/-- A count of 64 bits, with an optional plus sign. -/
def readCount? (text : String) : Option Nat := do
  let digits := match text.toList with
    | '+' :: digits => digits
    | digits => digits
  let n ← readDigits? digits
  if n < UInt64.size then some n else none

/-- The options with the value of one set; none if the value is not acceptable. -/
def Options.setValue? (o : Options) (n : Name) (value : String) : Option Options :=
  match n with
  | .width => (Decimal.read? value).map fun x => { o with width := x }
  | .height => (Decimal.read? value).map fun x => { o with height := x }
  | .rotate => (readInteger? value).map fun i => { o with rotate := i }
  | .maxDepth => (readCount? value).map fun c => { o with maxDepth := c }
  | .outfile => some { o with outfile := value }
  | _ => none

/-- The options with a switch turned on. -/
def Options.turnOn (o : Options) (n : Name) : Options :=
  match n with
  | .debug => { o with debug := true }
  | .tokens => { o with tokens := true }
  | .json => { o with json := true }
  | .strictImageEnd => { o with strictImageEnd := true }
  | _ => o

namespace Progress

/-- Takes note that an option is given, which it may be only once. -/
def note (p : Progress) (n : Name) : Except Halt Progress :=
  if p.given.contains n then .error (.misuse (.repeated n.long))
  else .ok { p with given := n :: p.given }

/-- An option with its value. -/
def withValue (p : Progress) (n : Name) (value : String) : Except Halt Progress := do
  let p ← p.note n
  match p.options.setValue? n value with
  | some options => .ok { p with options, waiting := none }
  | none => .error (.misuse (.invalidValue n.long value))

/-- An option without a value. -/
def switch (p : Progress) (n : Name) : Except Halt Progress :=
  match n with
  | .help => .error .help
  | .version => .error .version
  | n => do
    let p ← p.note n
    .ok { p with options := p.options.turnOn n }

/-- A cluster of short names. -/
def cluster (p : Progress) : List Char → Except Halt Progress
  | [] => .ok p
  | c :: cs =>
    match Name.all.find? fun n => n.short? == some c with
    | none => .error (.misuse (.unknownOption (String.ofList ['-', c])))
    | some n =>
      if n.takesValue then
        match cs with
        | [] => .ok { p with waiting := some n }
        | '=' :: value => p.withValue n (String.ofList value)
        | value => p.withValue n (String.ofList value)
      else do
        cluster (← p.switch n) cs

/-- A long name, and the value attached to it, if any. -/
def longName (p : Progress) (name : List Char) (value : Option (List Char)) :
    Except Halt Progress :=
  match Name.all.find? fun n => n.long == String.ofList name, value with
  | none, _ => .error (.misuse (.unknownOption (String.ofList name)))
  | some n, none => if n.takesValue then .ok { p with waiting := some n } else p.switch n
  | some n, some value =>
    if n.takesValue then p.withValue n (String.ofList value)
    else .error (.misuse (.unexpectedValue n.long))

/-- An argument: the file, which is the only one and has a name. -/
def argument (p : Progress) (word : String) : Except Halt Progress :=
  if p.named then .error (.misuse (.extraArgument word))
  else if word.isEmpty then .error (.misuse .emptyArgument)
  else .ok { p with options := { p.options with file := word }, named := true }

/-- Makes sure that no option waits for a value. -/
def settled (p : Progress) : Except Halt Progress :=
  match p.waiting with
  | some n => .error (.misuse (.missingValue n.long))
  | none => .ok p

/-- One word before a word of two dashes. -/
def word (p : Progress) (w : String) : Except Halt Progress :=
  match w.toList with
  | '-' :: '-' :: name => do
    let attached := name.dropWhile (· != '=')
    (← p.settled).longName (name.takeWhile (· != '=')) (if attached.isEmpty then none
      else some (attached.drop 1))
  | '-' :: c :: cs => do (← p.settled).cluster (c :: cs)
  | _ =>
    match p.waiting with
    | some n => p.withValue n w
    | none => p.argument w

end Progress

/-- Deals with the words of a command line. -/
def readWords (p : Progress) : List String → Except Halt Progress
  | [] => p.settled
  | w :: ws =>
    if w == "--" then do ws.foldlM Progress.argument (← p.settled)
    else do readWords (← p.word w) ws

/-- The options of a command line. -/
def readOptions (words : List String) : Except Halt Options := do
  let p ← readWords {} words
  if p.named then .ok p.options else .error (.misuse .missingFile)

end CommandLine

end ContentStream
