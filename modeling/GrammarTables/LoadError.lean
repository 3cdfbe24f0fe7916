import GrammarTables.FileTree
import GrammarTables.Grammar.Defect

/-!
# Load errors

Why a grammar could not be loaded. An error names the grammar that was asked
for and the cause.
-/

namespace GrammarTables

inductive LoadError.Cause where
  /-- There are no tables in any of the places that were searched. -/
  | notFound (searched : List String)
  /-- The name cannot be looked up. -/
  | invalidName
  /-- There is a file, but it cannot be read. -/
  | unreadable (path : String) (error : ReadError)
  /-- The tables are not well-formed. -/
  | malformed (text : String)
  /-- The tables are those of something else. -/
  | incompatible (reason : String)
  /-- The grammar has a defect. -/
  | invalid (defect : Grammar.Defect)
  deriving DecidableEq

structure LoadError where
  grammar : String
  cause : LoadError.Cause
  deriving DecidableEq

namespace LoadError

/-- The message about malformed tables. -/
def malformedMessage (text : String) : String := "JSON parse error: " ++ text

def Cause.message : Cause → String
  | notFound searched => "no grammar tables found (searched: " ++ ", ".intercalate searched ++ ")"
  | invalidName => "not a valid grammar name"
  | unreadable path error => "cannot read " ++ path ++ ": " ++ error.message
  | malformed text => malformedMessage text
  | incompatible reason => "incompatible grammar tables: " ++ reason
  | invalid defect => "invalid grammar: " ++ defect.message

def message (e : LoadError) : String :=
  "cannot load grammar '" ++ e.grammar ++ "': " ++ e.cause.message

/-- Whether nothing is wrong but that there are no tables. -/
def isNotFound (e : LoadError) : Bool :=
  match e.cause with
  | .notFound _ => true
  | _ => false

/-- The places that were searched, if nothing was found in them. -/
def searched (e : LoadError) : List String :=
  match e.cause with
  | .notFound places => places
  | _ => []

/-- The error of a search that went on from `earlier` places. -/
def searchedAfter (e : LoadError) (earlier : List String) : LoadError :=
  match e.cause with
  | .notFound places => { e with cause := .notFound (earlier ++ places) }
  | _ => e

end LoadError

end GrammarTables
