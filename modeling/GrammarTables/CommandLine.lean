import GrammarTables.LoadCheck
import GrammarTables.Text.SnakeCase

/-!
# The command line

The program checks that one grammar loads. `Options.ofArgs?` reads the
arguments, and `run` gives the whole outcome of a run: what is printed, what is
reported, and the exit code.
-/

namespace GrammarTables.CommandLine

def usage : String :=
"Usage: verse-sitter [OPTIONS] <GRAMMAR>

Check that a grammar loads into a usable language handle.

Arguments:
  <GRAMMAR>               Name of the grammar to load, e.g. `verse`

Options:
      --grammar-dir <DIR>  Search DIR for grammar.json files before the embedded grammars
  -r, --rules              Print the grammar's rule names after loading it
  -v, --verbose            Log debug events to stderr
  -h, --help               Print this help
"

/-! ## Arguments -/

/-- An option that takes no value. -/
inductive Switch where
  | rules
  | verbose
  deriving DecidableEq, Repr

/-- An option that takes a value. -/
inductive Setting where
  | grammar
  | directory
  deriving DecidableEq, Repr

/-- An argument by its form. -/
inductive Argument where
  /-- Two dashes alone, behind which there are no options. -/
  | separator
  /-- A switch, with or without a value that nobody looks at. -/
  | switch (s : Switch)
  /-- A setting, with its value if that is part of the argument. -/
  | setting (s : Setting) (value : Option String)
  | unknown
  | positional (text : String)
  deriving DecidableEq, Repr

/-- A key, and the value behind the first equals sign if there is one. -/
def splitValue (s : List Char) : String × Option String :=
  match s.dropWhile (· != '=') with
  | [] => (String.ofList s, none)
  | _ :: value => (String.ofList (s.takeWhile (· != '=')), some (String.ofList value))

namespace Argument

/-- An option by its long key, which may be spelled in any style. -/
def ofLong (s : List Char) : Argument :=
  let (key, value) := splitValue s
  match Text.snakeCase key with
  | "grammar" => setting .grammar value
  | "grammar_dir" => setting .directory value
  | "rules" => switch .rules
  | "verbose" => switch .verbose
  | _ => unknown

/-- An option by its short key. Short keys are not run together. -/
def ofShort (s : List Char) : Argument :=
  match (splitValue s).1 with
  | "r" => switch .rules
  | "v" => switch .verbose
  | _ => unknown

def ofText (arg : String) : Argument :=
  match arg.toList with
  | ['-', '-'] => separator
  | '-' :: '-' :: s => ofLong s
  | '-' :: s => ofShort s
  | _ => positional arg

end Argument

/-- What the arguments ask for. -/
structure Options where
  grammar : String
  /-- Where files are searched before the embedded grammars. -/
  directory : Option String := none
  /-- Whether the names of the rules are printed. -/
  rules : Bool := false
  /-- Whether all events are logged. -/
  verbose : Bool := false
  deriving DecidableEq, Repr

/-- The options as far as they have been read. -/
structure Draft where
  grammar : Option String := none
  directory : Option String := none
  rules : Bool := false
  verbose : Bool := false
  deriving DecidableEq, Repr

namespace Draft

def turnOn (d : Draft) : Switch → Draft
  | .rules => { d with rules := true }
  | .verbose => { d with verbose := true }

/-- Sets a value, in place of an earlier one. -/
def set (d : Draft) (s : Setting) (value : String) : Draft :=
  match s with
  | .grammar => { d with grammar := some value }
  | .directory => { d with directory := some value }

/-- Sets the grammar, which must not be set yet. -/
def setPositional (d : Draft) (text : String) : Option Draft :=
  match d.grammar with
  | none => some { d with grammar := some text }
  | some _ => none

/-- Reads arguments up to the last one, unless one of them is not understood. -/
def read (d : Draft) : List String → Option Draft
  | [] => some d
  | arg :: args =>
    match Argument.ofText arg with
    | .separator => args.foldlM setPositional d
    | .switch s => read (d.turnOn s) args
    | .setting s (some value) => read (d.set s value) args
    | .setting s none =>
      match args with
      | [] => none
      | value :: args => read (d.set s value) args
    | .unknown => none
    | .positional text =>
      match d.setPositional text with
      | none => none
      | some d => read d args

def finish (d : Draft) : Option Options :=
  d.grammar.map fun g => ⟨g, d.directory, d.rules, d.verbose⟩

end Draft

/-- The options, if all arguments are understood and a grammar is named. -/
def Options.ofArgs? (args : List String) : Option Options := do (← Draft.read {} args).finish

/-! ## Runs -/

structure Outcome where
  exitCode : UInt8
  stdout : String := ""
  /-- What is printed to the standard error besides the log. -/
  stderr : String := ""
  log : List Event := []

def asksForHelp (args : List String) : Bool := args.any fun a => a == "-h" || a == "--help"

/-- The source that the options ask for, with files as `read` finds them. -/
def source (read : String → Except ReadError String) (o : Options) : Source :=
  match o.directory with
  | some root => (Source.directory read root).orElse .embedded
  | none => .embedded

/-- The check that the options ask for. -/
def check (o : Options) : LoadCheck :=
  { label := if o.grammar = Verse.name then Verse.label else o.grammar, grammar := o.grammar }

/-- What is printed about a loaded grammar. -/
def summary (l : Language) : String :=
  "loaded grammar '" ++ l.name ++ "': " ++ toString l.ruleCount ++ " rules, " ++
    toString l.externalNames.length ++ " externals\n"

def ruleListing (l : Language) : String := String.join (l.ruleNames.map (· ++ "\n"))

/-- The events that are logged. -/
def logged (verbose : Bool) (events : List Event) : List Event :=
  events.filter fun e => verbose || e.level == .warn

/-- A run with arguments that are understood. -/
def runOptions (read : String → Except ReadError String) (o : Options) : Outcome :=
  let ⟨(_, outcome), events⟩ := (check o).run 0 (source read o)
  let log := logged o.verbose events
  match outcome with
  | .ok l => { exitCode := 0, stdout := summary l ++ (if o.rules then ruleListing l else ""), log }
  | .error report => { exitCode := 1, stderr := report.message ++ "\n", log }

/-- A run of the program, with files as `read` finds them. -/
def run (read : String → Except ReadError String) (args : List String) : Outcome :=
  if asksForHelp args then { exitCode := 0, stdout := usage }
  else
    match Options.ofArgs? args with
    | none => { exitCode := 2, stderr := "error: Could not parse CLI arguments\n\n" ++ usage ++ "\n" }
    | some o => runOptions read o

/-- The paths that a run may read. -/
def wantedPaths (args : List String) : List String :=
  match Options.ofArgs? args with
  | some { grammar, directory := some root, .. } =>
    if Source.isPlainName grammar then Source.candidates root grammar else []
  | _ => []

end GrammarTables.CommandLine
