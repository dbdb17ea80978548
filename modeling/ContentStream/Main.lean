import ContentStream.CommandLine

/-!
# The program

Reads the file that the command line names, and writes what the run reports. Where the system
refuses to do either, the reason that it gives is part of the report.
-/

open ContentStream

/-- The reason that the system gives with an error: what it says of its kind, and its number. -/
def reasonOf : IO.Error → String
  | .alreadyExists _ code details | .interrupted _ code details
  | .noFileOrDirectory _ code details | .invalidArgument _ code details
  | .permissionDenied _ code details | .resourceExhausted _ code details
  | .inappropriateType _ code details | .noSuchThing _ code details
  | .otherError code details | .resourceBusy code details | .resourceVanished code details
  | .unsupportedOperation code details | .hardwareFault code details
  | .unsatisfiedConstraints code details | .illegalOperation code details
  | .protocolError code details | .timeExpired code details =>
    details ++ " (os error " ++ toString code ++ ")"
  | .unexpectedEof => "unexpected end of file"
  | .userError message => message

/-- Does something, and gives the reason if the system refuses to. -/
def attempt {α : Type} (act : IO α) : IO (Except String α) := do
  try
    return .ok (← act)
  catch e =>
    return .error (reasonOf e)

/-- The content of a file, byte by byte. -/
def readContent (path : String) : IO Bytes := do
  return (← IO.FS.readBinFile path).toList

/-- Creates the output file that the options name, unless it is the standard output. -/
def createOutput (options : CommandLine.Options) : IO Unit := do
  if options.outfile != "-" then
    IO.FS.writeFile options.outfile ""

/-- Writes a text to a file. What is still on its way is written out before the file is left, so
that no refusal goes unnoticed. -/
def writeText (path text : String) : IO Unit := do
  let handle ← IO.FS.Handle.mk path .write
  handle.putStr text
  handle.flush

/-- Writes a report, and gives its exit code. -/
def deliverReport (report : CommandLine.Report) : IO UInt32 := do
  let report ←
    match report.written with
    | none => pure report
    | some (path, text) =>
      match ← attempt (writeText path text) with
      | .ok () => pure report
      | .error reason => pure (.unwritten reason)
  (← IO.getStdout).putStr report.stdout
  (← IO.getStderr).putStr report.stderr
  return report.code

/-- Runs the program with some options. The output file is left alone if there is nothing to
list. -/
def runWith (options : CommandLine.Options) : IO UInt32 := do
  let content ← attempt (readContent options.file)
  let created ← if content.isOk then attempt (createOutput options) else pure (.ok ())
  deliverReport (options.report content created)

/-- The entry point of the program. -/
def main (words : List String) : IO UInt32 := do
  match CommandLine.readOptions words with
  | .error halt => deliverReport halt.report
  | .ok options => runWith options
