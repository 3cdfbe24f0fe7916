import GrammarTables.FileTree
import GrammarTables.LoadCheck

/-!
# Sessions

A session holds what a series of requests works on: a file tree, texts in
memory, handles on languages and checks, the last three under names of the
caller's choice. Each request changes the session and is answered.
-/

namespace GrammarTables

/-- How a source is put together from what a session holds. -/
inductive Session.SourcePlan where
  | embedded
  | directory (root : String)
  | memory (id : String)
  | texts (tables : List (String × String))
  | compiled (grammars : List (String × Grammar))
  | failing (grammar : Option String) (cause : LoadError.Cause)
  | orElse (first second : SourcePlan)

structure Session where
  files : FileTree := {}
  memories : NameMap (NameMap String) := .empty
  languages : NameMap Language := .empty
  checks : NameMap LoadCheck := .empty
  /-- The number of the next load. -/
  nextLoad : Nat := 0

inductive Session.Request where
  | changeFiles (changes : List FileTree.Change)
  /-- Makes an empty memory, also in place of another one. -/
  | makeMemory (id : String)
  | addText (id name json : String)
  | resolve (source : SourcePlan) (name : String)
  /-- Loads a grammar, and keeps the handle if it is to be kept. -/
  | load (source : SourcePlan) (name : String) (keepAs : Option String)
  | showLanguage (id : String)
  | findRule (id name : String)
  | copyLanguage (id newId : String)
  | dropLanguage (id : String)
  | compareLanguages (id₁ id₂ : String)
  | makeCheck (id : String) (check : LoadCheck)
  | runCheck (id : String) (source : SourcePlan)
  | showCheck (id : String)

/-- What a request may ask for in vain. -/
inductive Session.Unknown where
  | language
  | check
  | memory
  deriving DecidableEq, Repr

def Session.Unknown.message : Session.Unknown → String
  | language => "no such language"
  | check => "no such check"
  | memory => "no such memory"

inductive Session.Answer where
  | done
  | resolved (tables : Except LoadError Tables)
  | loaded (language : Except LoadError Language)
  | language (language : Language)
  | rule (rule : Option Rule)
  /-- Whether there was something to drop. -/
  | dropped (was : Bool)
  | compared (shared equal : Bool)
  | check (check : LoadCheck)
  | ran (outcome : Except LoadCheck.Report Language) (after : LoadCheck)
  | unknown (what : Session.Unknown)

namespace Session

/-- The source of a plan, unless the plan names a memory that is not there. -/
def source? (s : Session) : SourcePlan → Option Source
  | .embedded => some .embedded
  | .directory root => some (.directory s.files.read root)
  | .memory id => (s.memories.get? id).map .memory
  | .texts tables => some (.memory (.ofList tables))
  | .compiled grammars => some (.compiled grammars)
  | .failing grammar cause => some (.failing grammar cause)
  | .orElse first second => do
    let first ← s.source? first
    let second ← s.source? second
    return first.orElse second

/-- An answer that leaves the session as it is and reports nothing. -/
def tell (s : Session) (a : Answer) : Logged (Session × Answer) := pure (s, a)

def load (s : Session) (source : Source) (name : String) (keepAs : Option String) :
    Logged (Session × Answer) := do
  let loaded ← source.load s.nextLoad name
  let s := { s with nextLoad := s.nextLoad + 1 }
  match loaded, keepAs with
  | .ok l, some id => return ({ s with languages := s.languages.insert id l }, .loaded loaded)
  | _, _ => return (s, .loaded loaded)

def runCheck (s : Session) (id : String) (check : LoadCheck) (source : Source) :
    Logged (Session × Answer) := do
  let (check, outcome) ← check.run s.nextLoad source
  return ({ s with checks := s.checks.insert id check, nextLoad := s.nextLoad + 1 },
    .ran outcome check)

/-- The session after a request, and the answer. -/
def handle (s : Session) : Request → Logged (Session × Answer)
  | .changeFiles changes => { s with files := s.files.applyAll changes }.tell .done
  | .makeMemory id => { s with memories := s.memories.insert id .empty }.tell .done
  | .addText id name json =>
    match s.memories.get? id with
    | some texts =>
      { s with memories := s.memories.insert id (texts.insert name json) }.tell .done
    | none => s.tell (.unknown .memory)
  | .resolve plan name =>
    match s.source? plan with
    | some source => do return (s, .resolved (← source.resolve name))
    | none => s.tell (.unknown .memory)
  | .load plan name keepAs =>
    match s.source? plan with
    | some source => s.load source name keepAs
    | none => s.tell (.unknown .memory)
  | .showLanguage id =>
    match s.languages.get? id with
    | some l => s.tell (.language l)
    | none => s.tell (.unknown .language)
  | .findRule id name =>
    match s.languages.get? id with
    | some l => s.tell (.rule (l.rule? name))
    | none => s.tell (.unknown .language)
  | .copyLanguage id newId =>
    match s.languages.get? id with
    | some l => { s with languages := s.languages.insert newId l }.tell .done
    | none => s.tell (.unknown .language)
  | .dropLanguage id =>
    { s with languages := s.languages.erase id }.tell (.dropped (s.languages.contains id))
  | .compareLanguages id₁ id₂ =>
    match s.languages.get? id₁, s.languages.get? id₂ with
    | some l, some m => s.tell (.compared (l.shares m) (l.grammar = m.grammar))
    | _, _ => s.tell (.unknown .language)
  | .makeCheck id check => { s with checks := s.checks.insert id check }.tell (.check check)
  | .runCheck id plan =>
    match s.source? plan, s.checks.get? id with
    | some source, some check => s.runCheck id check source
    | none, _ => s.tell (.unknown .memory)
    | _, none => s.tell (.unknown .check)
  | .showCheck id =>
    match s.checks.get? id with
    | some check => s.tell (.check check)
    | none => s.tell (.unknown .check)

/-- The answers to a series of requests, with the events of each. -/
def handleAll (s : Session) : List Request → List (Logged Answer)
  | [] => []
  | r :: rs =>
    let ⟨(s, a), events⟩ := s.handle r
    ⟨a, events⟩ :: s.handleAll rs

end Session

end GrammarTables
