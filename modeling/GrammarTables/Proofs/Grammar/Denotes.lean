import GrammarTables.Grammar.Tables
import GrammarTables.Proofs.Json.MoreText.Text
import GrammarTables.Proofs.Json.Unambiguous
import GrammarTables.Proofs.Rule.Denotes

/-!
# What documents denote as grammars

A text is taken for tables only if it spells a single document, and the grammar is the one that the
document denotes: nothing is added to what the document has under the names of the fields, and
nothing that it has there is left out.
-/

namespace GrammarTables

open Json (Clause Decoder Doc Field Layout inside)

namespace Grammar

/-- The clauses of a grammar's fields. -/
def clauses (g : Grammar) : List Clause := [
  .optional "$schema" Doc.DenotesText g.schema,
  .required "name" Doc.DenotesText g.name,
  .optional "inherits" Doc.DenotesText g.inherits,
  .required "rules" (Doc.DenotesMap Doc.DenotesRule) g.rules,
  .optional "extras" (Doc.DenotesList Doc.DenotesRule) g.extras,
  .optional "externals" (Doc.DenotesList Doc.DenotesRule) g.externals,
  .optional "inline" (Doc.DenotesList Doc.DenotesText) g.inline,
  .optional "precedences" (Doc.DenotesList (Doc.DenotesList Doc.DenotesRule)) g.precedences,
  .optional "conflicts" (Doc.DenotesList (Doc.DenotesList Doc.DenotesText)) g.conflicts,
  .optional "reserved" (Doc.DenotesMap (Doc.DenotesList Doc.DenotesRule)) g.reserved,
  .optional "word" Doc.DenotesText g.word,
  .optional "supertypes" (Doc.DenotesList Doc.DenotesText) g.supertypes]

end Grammar

def Json.Doc.DenotesGrammar (v : Doc) (g : Grammar) : Prop := v.DenotesRecord g.clauses

/-- A document denotes at most one grammar. -/
theorem Json.Doc.determines_grammar (g : Grammar) : Determines DenotesGrammar g := by
  have rules (rs : List Rule) : Determines (DenotesList DenotesRule) rs :=
    determines_list fun r _ => determines_rule r
  have names (ns : List String) : Determines (DenotesList DenotesText) ns :=
    determines_list fun n _ => determines_text n
  intro v g' h h'
  have agree : List.Forall₂ Clause.Agree g.clauses g'.clauses := Clause.agree_of_denotes h h' rfl
  obtain ⟨s, n, i, rs, ex, et, il, ps, cs, res, w, st⟩ := g
  obtain ⟨s', n', i', rs', ex', et', il', ps', cs', res', w', st'⟩ := g'
  simp only [Grammar.clauses, List.forall₂_cons] at agree
  obtain ⟨hs, hn, hi, hrs, hex, het, hil, hps, hcs, hres, hw, hst, -⟩ := agree
  obtain rfl : s = s' := hs.optional nofun fun s _ => determines_text s
  obtain rfl : n = n' := hn.required (determines_text n)
  obtain rfl : i = i' := hi.optional nofun fun i _ => determines_text i
  obtain rfl : rs = rs' := hrs.required (determines_map fun e _ => determines_rule e.2)
  obtain rfl : ex = ex' := hex.optional nofun fun rs _ => rules rs
  obtain rfl : et = et' := het.optional nofun fun rs _ => rules rs
  obtain rfl : il = il' := hil.optional nofun fun ns _ => names ns
  obtain rfl : ps = ps' := hps.optional nofun fun _ _ => determines_list fun rs _ => rules rs
  obtain rfl : cs = cs' := hcs.optional nofun fun _ _ => determines_list fun ns _ => names ns
  obtain rfl : res = res' := hres.optional nofun fun _ _ => determines_map fun e _ => rules e.2
  obtain rfl : w = w' := hw.optional nofun fun w _ => determines_text w
  obtain rfl : st = st' := hst.optional nofun fun ns _ => names ns
  rfl

namespace Grammar

/-! ## The keys of a grammar -/

def keys : List String :=
  ["$schema", "name", "inherits", "rules", "extras", "externals", "inline", "precedences",
    "conflicts", "reserved", "word", "supertypes"]

theorem nodup_keys : keys.Nodup := by decide

/-! ## Reading grammars -/

theorem describes_layout (room : Nat) : (layout room).Describes clauses where
  keys _ := rfl
  nodup := nodup_keys
  blank := by
    refine List.forall_mem_cons.mpr ⟨fun _ => rfl, ?_⟩
    refine List.forall_mem_cons.mpr ⟨nofun, ?_⟩
    refine List.forall_mem_cons.mpr ⟨fun _ => rfl, ?_⟩
    refine List.forall_mem_cons.mpr ⟨nofun, ?_⟩
    iterate 7 refine List.forall_mem_cons.mpr ⟨fun _ => rfl, ?_⟩
    exact List.forall_mem_singleton.mpr fun _ => rfl
  sets := by
    have rule (r : Nat) : ∀ d ∈ inside Rule.decoder r, d.Sound Doc.DenotesRule :=
      Json.forall_mem_inside fun r _ => Rule.sound_decoder r
    have name (r : Nat) : ∀ d ∈ inside (fun _ => Decoder.string) r, d.Sound Doc.DenotesText :=
      Json.forall_mem_inside fun _ _ => .string
    have rules : ∀ d ∈ layout.rules room, d.Sound (Doc.DenotesList Doc.DenotesRule) :=
      Json.forall_mem_inside fun r _ => .list (rule r)
    have names : (layout.names room).Sound (Doc.DenotesList Doc.DenotesText) := .list (name room)
    have nameLists : ∀ d ∈ layout.nameLists room, d.Sound (Doc.DenotesList Doc.DenotesText) :=
      Json.forall_mem_inside fun r _ => .list (name r)
    refine List.forall_mem_cons.mpr ⟨Field.sets_ofOptional .string fun _ _ => rfl, ?_⟩
    refine List.forall_mem_cons.mpr ⟨Field.sets_ofRequired .string fun _ _ => rfl, ?_⟩
    refine List.forall_mem_cons.mpr ⟨Field.sets_ofOptional .string fun _ _ => rfl, ?_⟩
    refine List.forall_mem_cons.mpr
      ⟨Field.sets_ofRequired (.nameMap (rule room)) fun _ _ => rfl, ?_⟩
    refine List.forall_mem_cons.mpr ⟨Field.sets_ofOptional (.list (rule room)) fun _ _ => rfl, ?_⟩
    refine List.forall_mem_cons.mpr ⟨Field.sets_ofOptional (.list (rule room)) fun _ _ => rfl, ?_⟩
    refine List.forall_mem_cons.mpr ⟨Field.sets_ofOptional names fun _ _ => rfl, ?_⟩
    refine List.forall_mem_cons.mpr ⟨Field.sets_ofOptional (.list rules) fun _ _ => rfl, ?_⟩
    refine List.forall_mem_cons.mpr ⟨Field.sets_ofOptional (.list nameLists) fun _ _ => rfl, ?_⟩
    refine List.forall_mem_cons.mpr ⟨Field.sets_ofOptional (.nameMap rules) fun _ _ => rfl, ?_⟩
    refine List.forall_mem_cons.mpr ⟨Field.sets_ofOptional .string fun _ _ => rfl, ?_⟩
    exact List.forall_mem_singleton.mpr (Field.sets_ofOptional names fun _ _ => rfl)

theorem sound_decoder (room : Nat) : (decoder room).Sound Doc.DenotesGrammar := by
  refine .record fun l hl => ?_
  cases room with
  | zero => cases hl
  | succ room => exact Option.mem_some.mp hl ▸ describes_layout room

/-! ## Tables -/

/-- A text that is taken for the tables of a grammar spells just one document, and that document
denotes this grammar and no other. -/
theorem ofTables_denotes {text : String} {g : Grammar} (h : ofTables text = .ok g) :
    ∃ v : Doc, (∀ w : Doc, w.IsText text ↔ w = v) ∧ ∀ g', v.DenotesGrammar g' ↔ g' = g := by
  obtain ⟨r, hr, hblank⟩ := Decoder.decode_eq_ok.mp h
  obtain ⟨v, hv, hg⟩ := sound_decoder Json.nestingLimit _ _ _ hr
  have htext : v.IsText text := ⟨r, hv, hblank⟩
  refine ⟨v, fun w => ⟨fun hw => hw.unique htext, ?_⟩, fun g' => ⟨fun hg' => ?_, ?_⟩⟩
  · rintro rfl
    exact htext
  · exact Doc.determines_grammar g' v g hg' hg
  · rintro rfl
    exact hg

/-- Tables in which a field is set to null, a rule is written twice, a rule is a list and a kind is an
object. -/
def looseTables : String :=
  r#"{"rules": {"a": {"type": "BLANK"},
    "b": [{"PREC": null}, -3, null, ["STRING", "\ud834\udd1e"]],
    "a": {"name": "\u0062", "type": "SYMBOL", "members": []}}, "word": null, "name": "words"} "#

def looselyWritten : Grammar where
  name := "words"
  rules := .ofList [
    ("a", { kind := .symbol, name := some "b" }),
    ("b", { kind := .prec, value := some (.level (-3)),
            content := some { kind := .string, value := some (.text "𝄞") } })]

theorem ofTables_denotes_looseTables :
    ofTables looseTables = .ok looselyWritten ∧
      ∃ v : Doc, (∀ w : Doc, w.IsText looseTables ↔ w = v) ∧
        ∀ g', v.DenotesGrammar g' ↔ g' = looselyWritten := by
  have h : ofTables looseTables = .ok looselyWritten := by decide +kernel
  exact ⟨h, ofTables_denotes h⟩

end Grammar

end GrammarTables
