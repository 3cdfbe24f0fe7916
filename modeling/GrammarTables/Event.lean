import GrammarTables.Text.Quoted

/-!
# Events

What is reported while grammars are loaded and checked: warnings about grammars
that are probably not meant as they are, and notes on what goes on.
-/

namespace GrammarTables

inductive Event.Level where
  | debug
  | warn
  deriving DecidableEq, Repr

/-- The value of an event's field. A name is shown in quotes in a log. -/
inductive Event.Value where
  | text (s : String)
  | name (s : String)
  | count (n : Nat)
  deriving DecidableEq, Repr

inductive Event where
  /-- Each visible rule is referred to by another one. -/
  | noEntryPoint (grammar : String)
  | ambiguousEntryPoint (grammar : String) (roots : List String)
  | unreachableRule (grammar rule : String)
  | leftRecursiveRule (grammar rule : String)
  /-- Precedences of several levels in one rule. -/
  | mixedLevels (grammar rule : String) (levels : List Int32)
  /-- A file with grammar tables has been read. -/
  | tablesRead (grammar path : String)
  | loaded (grammar origin : String) (rules : Nat)
  | checkFailed (grammar error : String)
  deriving DecidableEq

namespace Event

def level : Event → Level
  | noEntryPoint .. | ambiguousEntryPoint .. | unreachableRule .. => .warn
  | leftRecursiveRule .. | mixedLevels .. | tablesRead .. | loaded .. | checkFailed .. => .debug

def message : Event → String
  | noEntryPoint .. => "no entry point: every visible rule is referenced"
  | ambiguousEntryPoint .. => "ambiguous entry point"
  | unreachableRule .. => "unreachable rule"
  | leftRecursiveRule .. => "rule is left-recursive"
  | mixedLevels .. => "rule mixes precedence levels"
  | tablesRead .. => "read grammar tables"
  | loaded .. => "loaded grammar"
  | checkFailed .. => "grammar check failed"

/-- The fields in the order in which they are shown. -/
def fields : Event → List (String × Value)
  | noEntryPoint grammar => [("grammar", .text grammar)]
  | ambiguousEntryPoint grammar roots =>
    [("grammar", .text grammar), ("roots", .text (Text.bracketed (roots.map Text.quoted)))]
  | unreachableRule grammar rule => [("grammar", .text grammar), ("rule", .text rule)]
  | leftRecursiveRule grammar rule => [("grammar", .text grammar), ("rule", .text rule)]
  | mixedLevels grammar rule levels =>
    [("grammar", .text grammar), ("rule", .text rule),
      ("levels", .text (Text.bracketed (levels.map fun n => toString n.toInt)))]
  | tablesRead grammar path => [("grammar", .name grammar), ("path", .text path)]
  | loaded grammar origin rules =>
    [("grammar", .name grammar), ("origin", .text origin), ("rules", .count rules)]
  | checkFailed grammar error => [("grammar", .text grammar), ("error", .text error)]

/-! ## Reports -/

/-- The rule that an event is about, or nothing. -/
def subject (e : Event) : String :=
  match e with
  | unreachableRule _ rule | leftRecursiveRule _ rule | mixedLevels _ rule _ => rule
  | _ => ""

/-- The order of reports: by message, then by the rule. -/
def before (a b : Event) : Bool :=
  a.message < b.message || a.message == b.message && a.subject ≤ b.subject

def sort (events : List Event) : List Event := events.mergeSort before

/-! ## Log lines -/

def Value.logged : Value → String
  | text s => s
  | name s => Text.quoted s
  | count n => toString n

/-- The name of a level, five characters wide. -/
def Level.tag : Level → String
  | debug => "DEBUG"
  | warn => " WARN"

def logLine (e : Event) : String :=
  e.level.tag ++ " " ++ e.message ++
    String.join (e.fields.map fun (key, v) => " " ++ key ++ "=" ++ v.logged)

end Event

/-- A result and the events reported on the way to it. -/
structure Logged (α : Type) where
  value : α
  events : List Event

namespace Logged

instance : Monad Logged where
  pure a := ⟨a, []⟩
  bind x f := ⟨(f x.value).value, x.events ++ (f x.value).events⟩

def report (e : Event) : Logged Unit := ⟨(), [e]⟩

end Logged

end GrammarTables
