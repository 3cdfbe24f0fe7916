import GrammarTables.CommandLine

/-!
# The program

Reads the files that a run may need, runs, and prints the outcome.
-/

namespace GrammarTables.CommandLine

/-- Why the system could not read a file. -/
def readError : IO.Error → ReadError
  | .noFileOrDirectory .. => .notFound
  | .inappropriateType _ _ "is a directory" => .isDirectory
  | .inappropriateType .. => .notDirectory
  | .invalidArgument _ _ "name too long" => .nameTooLong
  | e => .other (toString e)

/-- Reads a file as a text. -/
def readFile (path : String) : IO (Except ReadError String) := do
  try
    match String.fromUTF8? (← IO.FS.readBinFile path) with
    | some text => return .ok text
    | none => return .error .notText
  catch e => return .error (readError e)

/-- Prints an outcome, the log first. -/
def Outcome.print (o : Outcome) : IO Unit := do
  o.log.forM fun e => IO.eprintln e.logLine
  IO.print o.stdout
  IO.eprint o.stderr

end GrammarTables.CommandLine

open GrammarTables.CommandLine in
def main (args : List String) : IO UInt32 := do
  let files ← (wantedPaths args).mapM fun path => return (path, ← readFile path)
  let outcome := run (fun path => (files.lookup path).getD (.error .notFound)) args
  outcome.print
  return outcome.exitCode.toUInt32
