import GrammarTables.Load

/-!
# Load checks

A check loads a grammar once. Its first run decides it; later runs say the same
again, whatever has changed in between.
-/

namespace GrammarTables

inductive LoadCheck.State where
  | unloaded
  | loaded (language : Language)
  | failed (error : LoadError)

structure LoadCheck where
  /-- What the grammar is called in reports. -/
  label : String
  grammar : String
  state : LoadCheck.State := .unloaded

/-- The report of a failed check. -/
structure LoadCheck.Report where
  label : String
  cause : String
  deriving DecidableEq, Repr

namespace LoadCheck

def Report.message (r : Report) : String :=
  "Error loading " ++ r.label ++ " grammar: " ++ r.cause

def State.name : State → String
  | unloaded => "Unloaded"
  | loaded _ => "Loaded"
  | failed _ => "Failed"

/-- Whether the check is decided. -/
def State.isTerminal : State → Bool
  | unloaded => false
  | loaded _ | failed _ => true

/-- The check of the Verse grammar. -/
def verse : LoadCheck := { label := Verse.label, grammar := Verse.name }

/-- What a check says in a state. -/
def outcome (c : LoadCheck) : Except Report Language :=
  match c.state with
  | .loaded l => .ok l
  | .failed e => .error ⟨c.label, e.message⟩
  | .unloaded => .error ⟨c.label, "check did not run"⟩

/-- Decides a check that is not decided, by load number `load`. -/
def decided (c : LoadCheck) (load : Nat) (source : Source) : Logged LoadCheck :=
  match c.state with
  | .unloaded => do
    match ← source.load load c.grammar with
    | .ok l => return { c with state := .loaded l }
    | .error e =>
      .report (.checkFailed c.grammar e.message)
      return { c with state := .failed e }
  | _ => return c

/-- Runs a check: the check from then on, and what it says. -/
def run (c : LoadCheck) (load : Nat) (source : Source) :
    Logged (LoadCheck × Except Report Language) := do
  let c ← c.decided load source
  return (c, c.outcome)

end LoadCheck

end GrammarTables
