import GrammarTables.Grammar.Basic
import GrammarTables.Json.Writer
import GrammarTables.Rule.Tables

/-!
# Grammar tables

Tables are a JSON text that holds a grammar. Reading ignores members that it
does not know; writing puts down just what is set.
-/

namespace GrammarTables.Grammar

open Json (Decoder Field Layout Problem Failure inside)

/-! ## Reading -/

/-- The fields of a grammar, given how deep brackets may nest in them. -/
def layout (room : Nat) : Layout Grammar where
  name := "Grammar"
  blank := { name := "", rules := .empty }
  fields := [
    .ofOptional "$schema" .string fun s g => { g with schema := s },
    .ofRequired "name" .string fun n g => { g with name := n },
    .ofOptional "inherits" .string fun n g => { g with inherits := n },
    .ofRequired "rules" (.nameMap rule) fun rs g => { g with rules := rs },
    .ofOptional "extras" (.list rule) fun rs g => { g with extras := rs },
    .ofOptional "externals" (.list rule) fun rs g => { g with externals := rs },
    .ofOptional "inline" names fun ns g => { g with inline := ns },
    .ofOptional "precedences" (.list rules) fun rs g => { g with precedences := rs },
    .ofOptional "conflicts" (.list nameLists) fun ns g => { g with conflicts := ns },
    .ofOptional "reserved" (.nameMap rules) fun rs g => { g with reserved := rs },
    .ofOptional "word" .string fun n g => { g with word := n },
    .ofOptional "supertypes" names fun ns g => { g with supertypes := ns }]
where
  rule : Option (Decoder Rule) := inside Rule.decoder room
  rules : Option (Decoder (List Rule)) := inside (fun r => .list (inside Rule.decoder r)) room
  names : Decoder (List String) := .list (inside (fun _ => .string) room)
  nameLists : Option (Decoder (List String)) :=
    inside (fun r => .list (inside (fun _ => .string) r)) room

/-- Reads a grammar in which brackets nest at most `room` deep. -/
def decoder (room : Nat) : Decoder Grammar := .record "Grammar" (inside layout room)

/-- Reads grammar tables. -/
def ofTables (text : String) : Except Failure Grammar :=
  (decoder Json.nestingLimit).decode text

/-! ## Writing -/

def listJson {α : Type} (f : α → Json) (as : List α) : Json := .list (as.map f)

def mapJson {α : Type} (f : α → Json) (m : NameMap α) : Json :=
  .object (m.entries.map fun e => (e.1, f e.2))

/-- A grammar as an object that holds just the sections that are set. -/
def toJson (g : Grammar) : Json :=
  .object <|
    Rule.optionalMember "$schema" (g.schema.map .string) ++
    [("name", .string g.name)] ++
    Rule.optionalMember "inherits" (g.inherits.map .string) ++
    [("rules", mapJson Rule.toJson g.rules)] ++
    Rule.optionalMember "extras" (g.extras.map (listJson Rule.toJson)) ++
    Rule.optionalMember "externals" (g.externals.map (listJson Rule.toJson)) ++
    Rule.optionalMember "inline" (g.inline.map (listJson .string)) ++
    Rule.optionalMember "precedences" (g.precedences.map (listJson (listJson Rule.toJson))) ++
    Rule.optionalMember "conflicts" (g.conflicts.map (listJson (listJson .string))) ++
    Rule.optionalMember "reserved" (g.reserved.map (mapJson (listJson Rule.toJson))) ++
    Rule.optionalMember "word" (g.word.map .string) ++
    Rule.optionalMember "supertypes" (g.supertypes.map (listJson .string))

/-- The tables of a grammar. -/
def tables (g : Grammar) : String := g.toJson.text

end GrammarTables.Grammar
