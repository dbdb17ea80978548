import ContentStream.CommandLine.Options
import ContentStream.Listing.Events
import ContentStream.Listing.Tokens
import ContentStream.Page

/-!
# The command line

The program lists the tokens of a content stream, or the events of rendering it as a page. It works
on a stream without the document it belongs to: every font name stands for the same font of fixed
width, and no other name means anything.

This module says what a run reports. To read the file and to write the report are left to the
program around it, and so are the reasons for which the system refuses to do so.

## Main definitions

* `CommandLine.readOptions`: the options of a command line.
* `CommandLine.Options.report`: what a run with some options reports about a file.
-/

namespace ContentStream

namespace CommandLine

/-- The **report** of a run. -/
structure Report where
  code : UInt32 := 0
  stdout : String := ""
  stderr : String := ""
  /-- A file to be written, and its text. -/
  written : Option (String × String) := none

/-- The library of a stream without its document. -/
def detached : Library Unit where
  label _ := ""
  font _ _ := some (Font.simple 0 "Detached" 500.0 [])
  xobject _ _ := none
  pattern _ _ := none
  shading _ _ := none
  extGState _ _ := none
  colorSpace _ _ := none
  decodeStream _ raw := .ok raw
  decodeInlineImage _ dict data := Image.ofDict dict data

/-- A text with every line after the first indented. -/
def indented (text : String) : String :=
  String.ofList (text.toList.flatMap fun c => if c == '\n' then c :: List.replicate 4 ' ' else [c])

/-- The message of a failure with a single cause. -/
def failure (context cause : String) : String :=
  "Error: " ++ context ++ "\n\nCaused by:\n    " ++ indented cause ++ "\n"

/-- The version of the program. -/
def versionText : String :=
  "pagemark-dump 0.3.0\n"

/-- The report of a run whose listing could not be written. This is a failure of its own, and
nothing is reported of any other. -/
def Report.unwritten (reason : String) : Report :=
  { code := 1, stderr := "Error: " ++ reason ++ "\n" }

namespace Options

/-- The configuration that the options ask for. -/
def config (o : Options) : Config :=
  { maxDepth := o.maxDepth, strictImageEnd := o.strictImageEnd }

/-- The listing of the tokens of a content stream. -/
def listTokens (o : Options) (content : Bytes) : Except Fault String :=
  (tokenize o.strictImageEnd content).map fun p => if o.json then p.jsonListing else p.listing

/-- The rendering of a content stream as a page. -/
def render (o : Options) (content : Bytes) : Outcome Unit Unit :=
  let page : Page Unit :=
    { mediaBox := ⟨0.0, 0.0, o.width, o.height⟩, rotate := o.rotate, content, scope := () }
  (Action.renderPage ⟨detached, o.config, some⟩ page).run { scopes := [()] }

/-- The listing of the events of a rendering. -/
def listEvents (o : Options) (es : List Event) : String :=
  if o.json then Listing.jsonEvents es else Listing.events es

/-- A report of a listing, followed by a failure if there was one. An output file whose name is a
dash stands for the standard output. -/
def deliver (o : Options) (listing : String) (stderr : Option String) : Report :=
  let report : Report := { code := if stderr.isSome then 1 else 0, stderr := stderr.getD "" }
  if o.outfile == "-" then { report with stdout := listing }
  else { report with written := some (o.outfile, listing) }

/-- The report on a file with some content, when its listing can be delivered. -/
def reportContent (o : Options) (content : Bytes) : Report :=
  if o.tokens then
    match o.listTokens content with
    | .ok listing => o.deliver listing none
    | .error fault => o.deliver "" (some (failure "tokenizing failed" fault.message))
  else
    let outcome := o.render content
    o.deliver (o.listEvents outcome.events) <|
      match outcome.result with
      | .ok () => none
      | .error fault => some (failure "content stream aborted" fault.message)

/-- The report on a file, of which the content is given, or else the reason why it cannot be read.
The output file is created before anything is listed; `created` has the reason if it cannot be. -/
def report (o : Options) (content : Except String Bytes) (created : Except String Unit) : Report :=
  match content, created with
  | .error reason, _ => { code := 1, stderr := failure ("cannot open " ++ o.file) reason }
  | .ok _, .error reason =>
    { code := 1, stderr := failure ("cannot create " ++ o.outfile) reason }
  | .ok content, .ok () => o.reportContent content

end Options

/-! ### Command lines that ask for no run -/

/-- The wording of a misuse. -/
def Misuse.message : Misuse → String
  | unknownOption word => "unexpected argument '" ++ word ++ "' found"
  | repeated option => "the argument '--" ++ option ++ "' cannot be used multiple times"
  | missingValue option => "a value is required for '--" ++ option ++ "' but none was supplied"
  | unexpectedValue option => "unexpected value for '--" ++ option ++ "' found"
  | invalidValue option value => "invalid value '" ++ value ++ "' for '--" ++ option ++ "'"
  | extraArgument word => "unexpected argument '" ++ word ++ "' found"
  | emptyArgument => "a value is required for '<FILE>' but none was supplied"
  | missingFile => "the following required arguments were not provided:\n  <FILE>"

/-- The help text. -/
def helpText : String :=
  String.join
    [ "Dump the tokens or paint calls of a content stream\n\n",
      "Usage: pagemark-dump [OPTIONS] <FILE>\n\n",
      "Arguments:\n",
      "  <FILE>  Decoded content stream file\n\n",
      "Options:\n",
      "  -v, --version                  Print version\n",
      "  -d, --debug                    Log interpreter diagnostics at debug level\n",
      "  -t, --tokens                   Print tokens instead of interpreting\n",
      "  -j, --json                     Write JSON instead of plain text\n",
      "  -W, --width <WIDTH>            Page width in points [default: 612]\n",
      "  -H, --height <HEIGHT>          Page height in points [default: 792]\n",
      "  -R, --rotate <ROTATE>          Page rotation in degrees [default: 0]\n",
      "      --max-depth <MAX_DEPTH>    Maximum nesting of forms and tiles\n",
      "      --strict-inline-image-end  Only accept EI followed by whitespace or end of data\n",
      "  -o, --outfile <OUTFILE>        Path to file where output is written, ",
      "or \"-\" for stdout [default: -]\n",
      "  -h, --help                     Print help\n" ]

/-- The report on a command line that asks for no run. -/
def Halt.report : Halt → Report
  | help => { stdout := helpText }
  | version => { stdout := versionText }
  | misuse m => { code := 2, stderr := "error: " ++ m.message ++ "\n" }

end CommandLine

end ContentStream
