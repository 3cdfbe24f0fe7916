import GrammarTables.Event
import GrammarTables.LoadError
import GrammarTables.Verse

/-!
# Sources of grammars

A source turns a name into grammar tables or says why it cannot. Sources are
files in a directory, texts in memory, built grammars, or a source with another
one to fall back on where the first finds nothing.
-/

namespace GrammarTables

/-- What a source has for a name: a text that is still to be read, or a grammar. -/
inductive Tables where
  | text (origin json : String)
  | built (origin : String) (grammar : Grammar)

/-- Where tables come from. -/
def Tables.origin : Tables → String
  | text origin _ => origin
  | built origin _ => origin

structure Source where
  resolve : String → Logged (Except LoadError Tables)

namespace Source

/-- A source that reports nothing. -/
def silent (resolve : String → Except LoadError Tables) : Source := ⟨fun name => ⟨resolve name, []⟩⟩

/-! ## Grammars at hand -/

/-- The grammars that come with the program. -/
def embedded : Source :=
  silent fun name =>
    if name = Verse.name then .ok (.built ("embedded:" ++ name) Verse.grammar)
    else .error ⟨name, .notFound ["embedded grammars"]⟩

/-- Texts of tables, by the names of their grammars. -/
def memory (texts : NameMap String) : Source :=
  silent fun name =>
    match texts.get? name with
    | some json => .ok (.text ("memory:" ++ name) json)
    | none => .error ⟨name, .notFound ["in-memory tables"]⟩

/-- Built grammars, by the names that they are asked for with; of two with the same name the first
one counts. -/
def compiled (grammars : List (String × Grammar)) : Source :=
  silent fun name =>
    match grammars.lookup name with
    | some g => .ok (.built ("compiled:" ++ name) g)
    | none => .error ⟨name, .notFound ["compiled grammars"]⟩

/-- A source that has nothing but an excuse, for `grammar` or else for the name asked for. -/
def failing (grammar : Option String) (cause : LoadError.Cause) : Source :=
  silent fun name => .error ⟨grammar.getD name, cause⟩

/-! ## Directories -/

def isPlainChar (c : Char) : Bool := c.isAlphanum || c == '-' || c == '_' || c == '.'

/-- Whether a name is a single part of a path and nothing special there. -/
def isPlainName (name : String) : Bool :=
  !name.isEmpty && name != "." && name != ".." && name.toList.all isPlainChar

/-- A path below a directory. -/
def below (root path : String) : String :=
  if root.isEmpty || root.endsWith "/" then root ++ path else root ++ "/" ++ path

/-- Where a directory may have the tables of a grammar, the likeliest place first. -/
def candidates (root name : String) : List String :=
  [name ++ ".json", name ++ "/src/grammar.json", "tree-sitter-" ++ name ++ "/src/grammar.json"].map
    (below root)

/-- The tables at the first of the paths that has a file. -/
def firstFile (read : String → Except ReadError String) (name : String) :
    List String → Option (Logged (Except LoadError Tables))
  | [] => none
  | path :: paths =>
    match read path with
    | .ok json => some ⟨.ok (.text path json), [.tablesRead name path]⟩
    | .error .notFound => firstFile read name paths
    | .error e => some ⟨.error ⟨name, .unreadable path e⟩, []⟩

/-- The files below a directory, as `read` finds them. -/
def directory (read : String → Except ReadError String) (root : String) : Source where
  resolve name :=
    if isPlainName name then
      (firstFile read name (candidates root name)).getD
        ⟨.error ⟨name, .notFound (candidates root name)⟩, []⟩
    else ⟨.error ⟨name, .invalidName⟩, []⟩

/-! ## Combinations -/

/-- The first source, or the second one where the first finds nothing. -/
def orElse (first second : Source) : Source where
  resolve name := do
    match ← first.resolve name with
    | .ok tables => return .ok tables
    | .error e =>
      if e.isNotFound then
        return (← second.resolve name).mapError (·.searchedAfter e.searched)
      else return .error e

end Source

end GrammarTables
