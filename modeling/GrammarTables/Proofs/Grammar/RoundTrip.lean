import GrammarTables.Grammar.Tables
import GrammarTables.Proofs.Rule.RoundTrip

/-!
# Round trip of grammar tables

The tables that are written for a grammar are read back as that grammar if
their brackets nest within the limit. If they do not, reading fails at a
bracket that nests too deeply, and at nothing before it.
-/

namespace GrammarTables.Grammar

open Json (Failure Layout Piece Problem Reads inside)

/-- The members of a grammar's object. -/
def pieces (g : Grammar) : List (Piece Grammar) :=
  Piece.consOptional "$schema" .string (fun s h => { h with schema := s }) g.schema <|
  .cons (.of "name" .string (fun n h => { h with name := n }) g.name) <|
  Piece.consOptional "inherits" .string (fun n h => { h with inherits := n }) g.inherits <|
  .cons (.of "rules" (mapJson Rule.toJson) (fun rs h => { h with rules := rs }) g.rules) <|
  Piece.consOptional "extras" (listJson Rule.toJson)
    (fun rs h => { h with extras := rs }) g.extras <|
  Piece.consOptional "externals" (listJson Rule.toJson)
    (fun rs h => { h with externals := rs }) g.externals <|
  Piece.consOptional "inline" (listJson .string) (fun ns h => { h with inline := ns }) g.inline <|
  Piece.consOptional "precedences" (listJson (listJson Rule.toJson))
    (fun rs h => { h with precedences := rs }) g.precedences <|
  Piece.consOptional "conflicts" (listJson (listJson .string))
    (fun ns h => { h with conflicts := ns }) g.conflicts <|
  Piece.consOptional "reserved" (mapJson (listJson Rule.toJson))
    (fun rs h => { h with reserved := rs }) g.reserved <|
  Piece.consOptional "word" .string (fun n h => { h with word := n }) g.word <|
  Piece.consOptional "supertypes" (listJson .string)
    (fun ns h => { h with supertypes := ns }) g.supertypes []

theorem toJson_eq (g : Grammar) : g.toJson = .object (g.pieces.map Piece.member) := by
  simp only [toJson, pieces, List.map_cons, Rule.map_member_consOptional, List.map_nil,
    List.append_assoc, List.append_nil, List.singleton_append]
  rfl

theorem setAll_pieces (g : Grammar) :
    Piece.setAll g.pieces { name := "", rules := .empty } = g := by
  unfold pieces
  rw [Piece.setAll_consOptional rfl, Piece.setAll_cons, Piece.setAll_consOptional rfl,
    Piece.setAll_cons]
  iterate 8 rw [Piece.setAll_consOptional rfl]
  rfl

theorem keys_pieces (g : Grammar) :
    (g.pieces.map Piece.key).Sublist
      ["$schema", "name", "inherits", "rules", "extras", "externals", "inline", "precedences",
        "conflicts", "reserved", "word", "supertypes"] := by
  unfold pieces
  refine Piece.keys_consOptional (.cons_cons _ (Piece.keys_consOptional (.cons_cons _ ?_)))
  iterate 8 refine Piece.keys_consOptional ?_
  exact .refl _

theorem required_mem_pieces (g : Grammar) :
    ∀ k ∈ ["name", "rules"], k ∈ g.pieces.map Piece.key := by
  intro k hk
  refine Piece.mem_keys_consOptional ?_
  rcases List.mem_cons.mp hk with rfl | hk
  · exact List.mem_cons_self
  · refine List.mem_cons_of_mem _ (Piece.mem_keys_consOptional ?_)
    rw [List.mem_singleton.mp hk]
    exact List.mem_cons_self

theorem reads_names (ns : List String) :
    Reads (fun room => .list (inside (fun _ => .string) room)) (listJson .string ns) ns :=
  Reads.list fun n _ => .string n

theorem reads_rules (rs : List Rule) :
    Reads (fun room => .list (inside Rule.decoder room)) (listJson Rule.toJson rs) rs :=
  Reads.list fun r _ => r.reads_toJson

theorem known_pieces (g : Grammar) : ∀ p ∈ g.pieces, p.Known layout := by
  unfold pieces
  refine Piece.known_optionals (fun s _ => .string s) (fun _ => nofun) (fun _ => rfl) ?_
  refine List.forall_mem_cons.mpr ⟨Piece.known_of (.string g.name) fun _ => rfl, ?_⟩
  refine Piece.known_optionals (fun n _ => .string n) (fun _ => nofun) (fun _ => rfl) ?_
  refine List.forall_mem_cons.mpr
    ⟨Piece.known_of (Reads.nameMap fun e _ => e.2.reads_toJson) fun _ => rfl, ?_⟩
  refine Piece.known_optionals (fun rs _ => reads_rules rs) (fun _ => nofun) (fun _ => rfl) ?_
  refine Piece.known_optionals (fun rs _ => reads_rules rs) (fun _ => nofun) (fun _ => rfl) ?_
  refine Piece.known_optionals (fun ns _ => reads_names ns) (fun _ => nofun) (fun _ => rfl) ?_
  refine Piece.known_optionals (fun rss _ => Reads.list fun rs _ => reads_rules rs)
    (fun _ => nofun) (fun _ => rfl) ?_
  refine Piece.known_optionals (fun nss _ => Reads.list fun ns _ => reads_names ns)
    (fun _ => nofun) (fun _ => rfl) ?_
  refine Piece.known_optionals (fun m _ => Reads.nameMap fun e _ => reads_rules e.2)
    (fun _ => nofun) (fun _ => rfl) ?_
  refine Piece.known_optionals (fun n _ => .string n) (fun _ => nofun) (fun _ => rfl) ?_
  refine Piece.known_optionals (fun ns _ => reads_names ns) (fun _ => nofun) (fun _ => rfl) ?_
  exact List.forall_mem_nil _

theorem reads_toJson (g : Grammar) : Reads decoder g.toJson g := by
  have complete : ∀ room, (layout room).Complete (g.pieces.map Piece.key) := fun _ =>
    Layout.complete_of_required ["name", "rules"] rfl g.required_mem_pieces
  have h : Reads decoder (.object (g.pieces.map Piece.member))
      (Piece.setAll g.pieces { name := "", rules := .empty }) :=
    Reads.record (fun _ => rfl) g.known_pieces (g.keys_pieces.nodup (by decide)) complete
  rwa [← toJson_eq, setAll_pieces] at h

/-- Tables of a grammar in which no more than 127 brackets are open at any point give that very
grammar; all others are refused for their nesting. -/
theorem ofTables_tables (g : Grammar) :
    if Json.nesting g.tables ≤ 127 then ofTables g.tables = .ok g
    else ∃ f place, ofTables g.tables = .error f ∧
      f.message g.tables = "recursion limit exceeded" ++ place := by
  have h : Json.ReadsIf (Json.nesting g.tables ≤ 127) (ofTables g.tables) g :=
    g.reads_toJson.decode Json.nestingLimit
  generalize Json.nesting g.tables = n at h
  by_cases hn : n ≤ 127
  · rw [if_pos hn]
    exact h.read hn
  · obtain ⟨unread, hf⟩ := h.tooDeep hn
    obtain ⟨place, hp⟩ := (Failure.mk .nestedTooDeep unread).message_eq g.tables
    rw [if_neg hn]
    exact ⟨_, place, hf, hp⟩

end GrammarTables.Grammar
