import GrammarTables.Proofs.Rule.Beginning
import Mathlib.Algebra.BigOperators.Group.List.Basic
import Mathlib.Computability.Language

/-!
# The language of a rule

A rule produces strings of references and tokens. The walk that looks for a reference at the
beginning of a rule sees the rule alone and no string. In rules that leave nothing open, and whose
sequences begin with something that is not empty, it finds just the references that some string
begins with: every part produces some string, so what a part begins with is not lost on the way up.
-/

namespace GrammarTables.Rule

open scoped Computability

/-- What strings are made of. A token goes by the node that stands for it. -/
inductive Letter where
  | symbol (name : String)
  | terminal (node : Rule)

mutual

/-- The strings that a rule produces. -/
def language : Rule → Language Letter
  | ⟨k, v, n, c, ms, d, f, x⟩ =>
    match k with
    | .blank => 1
    | .string | .pattern | .token | .immediateToken => {[.terminal ⟨k, v, n, c, ms, d, f, x⟩]}
    | .symbol =>
      match n with
      | some name => {[.symbol name]}
      | none => 0
    | .seq => memberProduct ms
    | .choice => memberSum ms
    | .repeat0 => (contentLanguage c)∗
    | .repeat1 => contentLanguage c * (contentLanguage c)∗
    | .prec | .precLeft | .precRight | .precDynamic | .field | .rename | .reserved =>
      contentLanguage c

def contentLanguage : Option Rule → Language Letter
  | none => 0
  | some r => language r

def memberProduct : List Rule → Language Letter
  | [] => 1
  | r :: rs => language r * memberProduct rs

def memberSum : List Rule → Language Letter
  | [] => 0
  | r :: rs => language r + memberSum rs

end

/-! ## What strings begin with -/

section Opens

variable {α : Type} {l m : Language α} {a : α}

/-- Some string of the language begins with the letter. -/
def Opens (l : Language α) (a : α) : Prop := ∃ w, a :: w ∈ l

theorem not_opens_one : ¬ Opens (1 : Language α) a := by
  rintro ⟨w, hw⟩
  cases (Language.mem_one _).mp hw

theorem opens_singleton {b : α} : Opens {[b]} a ↔ a = b := by
  constructor
  · rintro ⟨w, hw⟩
    exact (List.cons.inj hw).1
  · rintro rfl
    exact ⟨[], rfl⟩

/-- A string of a product begins as one of the first factor does, unless that is empty. -/
theorem opens_mul : Opens (l * m) a ↔ (Opens l a ∧ ∃ w, w ∈ m) ∨ ([] ∈ l ∧ Opens m a) := by
  constructor
  · rintro ⟨w, hw⟩
    obtain ⟨x, hx, y, hy, he⟩ := Language.mem_mul.mp hw
    cases x with
    | nil =>
      cases he
      exact .inr ⟨hx, w, hy⟩
    | cons b x =>
      cases he
      exact .inl ⟨⟨x, hx⟩, y, hy⟩
  · rintro (⟨⟨x, hx⟩, y, hy⟩ | ⟨hx, y, hy⟩)
    · exact ⟨x ++ y, Language.append_mem_mul hx hy⟩
    · exact ⟨y, Language.append_mem_mul hx hy⟩

theorem opens_kstar : Opens l∗ a ↔ Opens l a := by
  constructor
  · rintro ⟨w, hw⟩
    obtain ⟨pieces, he, hpieces⟩ := Language.mem_kstar_iff_exists_nonempty.mp hw
    cases pieces with
    | nil => cases he
    | cons piece pieces =>
      obtain ⟨hpiece, hne⟩ := hpieces piece List.mem_cons_self
      cases piece with
      | nil => exact absurd rfl hne
      | cons b piece =>
        obtain ⟨rfl, -⟩ := List.cons.inj he
        exact ⟨piece, hpiece⟩
  · rintro ⟨w, hw⟩
    refine ⟨w, Language.mem_kstar.mpr ⟨[a :: w], by simp, ?_⟩⟩
    exact fun y hy => List.mem_singleton.mp hy ▸ hw

theorem opens_self_mul_kstar : Opens (l * l∗) a ↔ Opens l a := by
  rw [opens_mul, opens_kstar]
  constructor
  · rintro (⟨h, -⟩ | ⟨-, h⟩) <;> exact h
  · exact fun h => .inl ⟨h, [], Language.nil_mem_kstar l⟩

end Opens

/-! ## The language by the kind of the node -/

section Kinds

variable {r : Rule}

/-- Nodes of that kind are tokens, whatever they are made of. -/
def Kind.isToken : Kind → Bool
  | string | pattern | token | immediateToken => true
  | _ => false

/-- The kinds by what a node's language is made of. -/
inductive Kind.Class (k : Kind) : Prop where
  | blank (h : k = .blank)
  | token (h : k.isToken)
  | symbol (h : k = .symbol)
  | seq (h : k = .seq)
  | choice (h : k = .choice)
  | repeat0 (h : k = .repeat0)
  | repeat1 (h : k = .repeat1)
  | wrapper (h : k.isWrapper)

theorem Kind.classify (k : Kind) : k.Class := by
  cases k with
  | blank => exact .blank rfl
  | string | pattern | token | immediateToken => exact .token rfl
  | symbol => exact .symbol rfl
  | seq => exact .seq rfl
  | choice => exact .choice rfl
  | repeat0 => exact .repeat0 rfl
  | repeat1 => exact .repeat1 rfl
  | prec | precLeft | precRight | precDynamic | field | rename | reserved => exact .wrapper rfl

theorem memberProduct_eq (ms : List Rule) : memberProduct ms = (ms.map language).prod := by
  induction ms with
  | nil => rfl
  | cons m ms ih => rw [memberProduct, ih, List.map_cons, List.prod_cons]

theorem mem_memberSum {ms : List Rule} {w : List Letter} :
    w ∈ memberSum ms ↔ ∃ m ∈ ms, w ∈ m.language := by
  induction ms with
  | nil => simp [memberSum, Language.notMem_zero]
  | cons m ms ih =>
    rw [memberSum, Language.mem_add, ih]
    simp

theorem language_of_blank (h : r.kind = .blank) : r.language = 1 := by
  cases r
  cases h
  rfl

theorem language_of_isToken (h : r.kind.isToken) : r.language = {[.terminal r]} := by
  obtain ⟨k, v, n, c, ms, d, f, x⟩ := r
  cases k <;> simp [Kind.isToken] at h <;> rfl

theorem language_of_symbol {name : String} (h : r.kind = .symbol) (hn : r.name = some name) :
    r.language = {[.symbol name]} := by
  cases r
  cases h
  cases hn
  rfl

theorem language_of_seq (h : r.kind = .seq) : r.language = (r.members.map language).prod := by
  rw [← memberProduct_eq]
  cases r
  cases h
  rfl

theorem mem_language_of_choice {w : List Letter} (h : r.kind = .choice) :
    w ∈ r.language ↔ ∃ m ∈ r.members, w ∈ m.language := by
  rw [← mem_memberSum]
  cases r
  cases h
  rfl

theorem language_of_repeat0 {c : Rule} (h : r.kind = .repeat0) (hc : r.content = some c) :
    r.language = c.language∗ := by
  cases r
  cases h
  cases hc
  rfl

theorem language_of_repeat1 {c : Rule} (h : r.kind = .repeat1) (hc : r.content = some c) :
    r.language = c.language * c.language∗ := by
  cases r
  cases h
  cases hc
  rfl

theorem language_of_isWrapper {c : Rule} (h : r.kind.isWrapper) (hc : r.content = some c) :
    r.language = c.language := by
  obtain ⟨k, v, n, _, ms, d, f, x⟩ := r
  cases hc
  cases k <;> simp [Kind.isWrapper] at h <;> rfl

end Kinds

/-! ## Plain rules -/

/-- The node leaves nothing open, and if it is a sequence, it begins with something. -/
structure Plain (node : Rule) : Prop where
  symbol : node.kind = .symbol → ∃ name, node.name = some name
  content : node.kind.beginsWithContent → ∃ c, node.content = some c
  choice : node.kind = .choice → ∃ m, m ∈ node.members
  seq : node.kind = .seq → ∀ m, node.members.head? = some m → [] ∉ m.language
  reserved : node.kind ≠ .reserved

variable {r : Rule} {target : String}

theorem Kind.beginsWithContent_of_isWrapper {k : Kind} (h : k.isWrapper) : k.beginsWithContent := by
  cases k <;> first | rfl | cases h

theorem exists_mem_prod {ls : List (Language Letter)} (h : ∀ l ∈ ls, ∃ w, w ∈ l) :
    ∃ w, w ∈ ls.prod := by
  induction ls with
  | nil =>
    rw [List.prod_nil]
    exact ⟨[], Language.nil_mem_one⟩
  | cons l ls ih =>
    obtain ⟨x, hx⟩ := h l List.mem_cons_self
    obtain ⟨y, hy⟩ := ih fun k hk => h k (List.mem_cons_of_mem l hk)
    rw [List.prod_cons]
    exact ⟨x ++ y, Language.append_mem_mul hx hy⟩

theorem forall_plain_children {s : Rule} (h : ∀ node ∈ r.nodes, node.Plain) (hs : s ∈ r.children) :
    ∀ node ∈ s.nodes, node.Plain := by
  intro node hnode
  rw [nodes_eq_cons] at h
  exact h node (List.mem_cons_of_mem r (List.mem_flatMap.mpr ⟨s, hs, hnode⟩))

theorem plain_self (h : ∀ node ∈ r.nodes, node.Plain) : r.Plain :=
  h r (nodes_eq_cons r ▸ List.mem_cons_self)

/-- A plain rule produces something. -/
theorem exists_mem_language (h : ∀ node ∈ r.nodes, node.Plain) : ∃ w, w ∈ r.language := by
  induction r using ind with
  | node r ih =>
    have hr := plain_self h
    have below (s : Rule) (hs : s ∈ r.children) : ∃ w, w ∈ s.language :=
      ih s hs (forall_plain_children h hs)
    cases r.kind.classify with
    | blank hk =>
      rw [language_of_blank hk]
      exact ⟨[], Language.nil_mem_one⟩
    | token hk =>
      exact ⟨[.terminal r], language_of_isToken hk ▸ rfl⟩
    | symbol hk =>
      obtain ⟨name, hn⟩ := hr.symbol hk
      exact ⟨[.symbol name], language_of_symbol hk hn ▸ rfl⟩
    | seq hk =>
      rw [language_of_seq hk]
      refine exists_mem_prod (List.forall_mem_map.mpr fun m hm => ?_)
      exact below m (mem_children.mpr (.inr hm))
    | choice hk =>
      obtain ⟨m, hm⟩ := hr.choice hk
      obtain ⟨w, hw⟩ := below m (mem_children.mpr (.inr hm))
      exact ⟨w, (mem_language_of_choice hk).mpr ⟨m, hm, hw⟩⟩
    | repeat0 hk =>
      obtain ⟨c, hc⟩ := hr.content (by rw [hk]; rfl)
      exact ⟨[], language_of_repeat0 hk hc ▸ Language.nil_mem_kstar _⟩
    | repeat1 hk =>
      obtain ⟨c, hc⟩ := hr.content (by rw [hk]; rfl)
      obtain ⟨w, hw⟩ := below c (mem_children.mpr (.inl hc))
      refine ⟨w ++ [], ?_⟩
      rw [language_of_repeat1 hk hc]
      exact Language.append_mem_mul hw (Language.nil_mem_kstar _)
    | wrapper hk =>
      obtain ⟨c, hc⟩ := hr.content (Kind.beginsWithContent_of_isWrapper hk)
      rw [language_of_isWrapper hk hc]
      exact below c (mem_children.mpr (.inl hc))

/-- A string of a plain sequence begins as one of the first member does. -/
theorem opens_seq (h : ∀ node ∈ r.nodes, node.Plain) (hk : r.kind = .seq) {a : Letter} :
    Opens r.language a ↔ ∃ m, r.members.head? = some m ∧ Opens m.language a := by
  have hseq := (plain_self h).seq hk
  have hrest (m : Rule) (hm : m ∈ r.members) : ∃ w, w ∈ m.language :=
    exists_mem_language (forall_plain_children h (mem_children.mpr (.inr hm)))
  rw [language_of_seq hk]
  cases hms : r.members with
  | nil => simpa using not_opens_one
  | cons m ms =>
    rw [hms] at hseq hrest
    have hfirst : [] ∉ m.language := hseq m rfl
    have hprod : ∃ w, w ∈ (ms.map language).prod :=
      exists_mem_prod (List.forall_mem_map.mpr fun s hs => hrest s (List.mem_cons_of_mem m hs))
    rw [List.map_cons, List.prod_cons, opens_mul]
    simp [hfirst, hprod]

/-- In a plain rule the walk finds just the references that some string of the rule begins with. -/
theorem startsWith_iff_language (h : ∀ node ∈ r.nodes, node.Plain) (target : String) :
    r.startsWith target ↔ ∃ w, Letter.symbol target :: w ∈ r.language := by
  show r.startsWith target ↔ Opens r.language (.symbol target)
  induction r using ind with
  | node r ih =>
    have hr := plain_self h
    have below (s : Rule) (hs : s ∈ r.children) :
        s.startsWith target ↔ Opens s.language (.symbol target) :=
      ih s hs (forall_plain_children h hs)
    have content (c : Rule) (hc : r.content = some c) :=
      below c (mem_children.mpr (.inl hc))
    cases r.kind.classify with
    | blank hk =>
      rw [language_of_blank hk, startsWith_iff]
      simp [hk, Kind.beginsWithContent, Kind.isWrapper, not_opens_one]
    | token hk =>
      rw [language_of_isToken hk, opens_singleton, startsWith_iff]
      cases hkind : r.kind <;> simp_all [Kind.isToken, Kind.beginsWithContent, Kind.isWrapper]
    | symbol hk =>
      obtain ⟨name, hn⟩ := hr.symbol hk
      rw [startsWith_of_symbol hk, hn, language_of_symbol hk hn, opens_singleton,
        Option.some.injEq, Letter.symbol.injEq, eq_comm]
    | seq hk =>
      rw [opens_seq h hk, startsWith_of_seq hk]
      refine exists_congr fun m => and_congr_right fun hm => ?_
      exact below m (mem_children.mpr (.inr (List.mem_of_head? hm)))
    | choice hk =>
      rw [startsWith_of_choice hk]
      have members : ∀ m ∈ r.members, m.startsWith target ↔ Opens m.language (.symbol target) :=
        fun m hm => below m (mem_children.mpr (.inr hm))
      simp only [Opens, mem_language_of_choice hk] at members ⊢
      constructor
      · rintro ⟨m, hm, hs⟩
        obtain ⟨w, hw⟩ := (members m hm).mp hs
        exact ⟨w, m, hm, hw⟩
      · rintro ⟨w, m, hm, hw⟩
        exact ⟨m, hm, (members m hm).mpr ⟨w, hw⟩⟩
    | repeat0 hk =>
      obtain ⟨c, hc⟩ := hr.content (by rw [hk]; rfl)
      rw [language_of_repeat0 hk hc, opens_kstar, ← content c hc]
      exact startsWith_of_content (by rw [hk]; rfl) hr.reserved hc
    | repeat1 hk =>
      obtain ⟨c, hc⟩ := hr.content (by rw [hk]; rfl)
      rw [language_of_repeat1 hk hc, opens_self_mul_kstar, ← content c hc]
      exact startsWith_of_content (by rw [hk]; rfl) hr.reserved hc
    | wrapper hk =>
      have hb := Kind.beginsWithContent_of_isWrapper hk
      obtain ⟨c, hc⟩ := hr.content hb
      rw [language_of_isWrapper hk hc, ← content c hc]
      exact startsWith_of_content hb hr.reserved hc

/-- A sum or a token, and behind it any number of terms. -/
def sumOrToken : Rule where
  kind := .seq
  members := [{ kind := .choice, members := [{ kind := .symbol, name := some "sum" },
      { kind := .token, content := some { kind := .pattern, value := some (.text "[a-z]+") } }] },
    { kind := .repeat0, content := some { kind := .symbol, name := some "term" } }]

theorem startsWith_iff_language_sumOrToken :
    (∀ node ∈ sumOrToken.nodes, node.Plain) ∧
      (∃ w, Letter.symbol "sum" :: w ∈ sumOrToken.language) ∧
      ¬ ∃ w, Letter.symbol "term" :: w ∈ sumOrToken.language := by
  have choice : [] ∉ (sumOrToken.members.head (List.cons_ne_nil _ _)).language := by
    rw [mem_language_of_choice rfl]
    rintro ⟨m, hm, hw⟩
    rcases List.mem_cons.mp hm with rfl | hm
    · rw [language_of_symbol rfl rfl] at hw
      cases hw
    · rw [List.mem_singleton.mp hm, language_of_isToken rfl] at hw
      cases hw
  have plain : ∀ node ∈ sumOrToken.nodes, node.Plain := by
    rw [show sumOrToken.nodes = [sumOrToken, _, _, _, _, _, _] from rfl]
    simp only [List.forall_mem_cons]
    refine ⟨⟨nofun, nofun, nofun, fun _ m hm => ?_, nofun⟩,
      ⟨nofun, nofun, fun _ => ⟨_, List.mem_cons_self⟩, nofun, nofun⟩,
      ⟨fun _ => ⟨_, rfl⟩, nofun, nofun, nofun, nofun⟩,
      ⟨nofun, nofun, nofun, nofun, nofun⟩, ⟨nofun, nofun, nofun, nofun, nofun⟩,
      ⟨nofun, fun _ => ⟨_, rfl⟩, nofun, nofun, nofun⟩,
      ⟨fun _ => ⟨_, rfl⟩, nofun, nofun, nofun, nofun⟩, List.forall_mem_nil _⟩
    cases hm
    exact choice
  exact ⟨plain, (startsWith_iff_language plain "sum").mp (by decide),
    fun h => absurd ((startsWith_iff_language plain "term").mpr h) (by decide)⟩

end GrammarTables.Rule
