import GrammarTables.Proofs.Json.MoreText.Decode

/-!
# More text behind a record

A record ends with its bracket, so it is read the same whatever is appended,
also where nothing stood behind it.
-/

namespace GrammarTables.Json

theorem closeList_append {s r : List Char} (h : closeList s = .ok r) (u : List Char) :
    closeList (s ++ u) = .ok (r ++ u) := by
  unfold closeList at h ⊢
  split at h
  · cases h
  · next hs =>
    cases h
    rw [dropBlank_append hs]
    rfl
  · split at h <;> cases h
  · cases h

/-! ## Records -/

namespace Field

variable {R α : Type} {key : String} {d : Decoder α}

theorem settled_map_set {set : α → R → R} (h : d.Settled) :
    (d.map fun a r => (.ok (set a r) : Except Problem R)).Settled :=
  h.map fun a => (fun r => .ok (set a r) : R → Except Problem R)

theorem settled_ofRequired {set : α → R → R} (h : d.Settled) :
    (ofRequired key d set).read.Settled := settled_map_set h

theorem settled_ofDefault {set : α → R → R} (h : d.Settled) : (ofDefault key d set).read.Settled :=
  settled_map_set h

theorem settled_ofOptional {set : Option α → R → R} (h : d.Settled) :
    (ofOptional key d set).read.Settled := settled_map_set h.optional

end Field

namespace Layout

variable {R : Type} {l : Layout R}

/-- All fields have settled decoders. -/
def Settled (l : Layout R) : Prop := ∀ f ∈ l.fields, f.read.Settled

theorem Settled.field? (hl : l.Settled) {k : String} {f : Field R} (hf : l.field? k = some f) :
    f.read.Settled :=
  hl f (List.mem_of_find?_eq_some hf)

theorem readField_append {f : Field R} (hf : f.read.Settled) {r r' : R} {s t : List Char}
    (h : readField f r s = .ok (r', t)) (ht : t ≠ []) (u : List Char) :
    readField f r (s ++ u) = .ok (r', t ++ u) := by
  unfold readField at h ⊢
  split at h
  · cases h
  · next hm =>
    split at h
    · cases h
    · next hset =>
      cases h
      simp only [memberValue_append hf hm ht u, hset]

theorem readMembers_append (hl : l.Settled) {seen : List String} {r r' : R} {first : Bool}
    {s t : List Char} (h : l.readMembers seen r first s = .ok (r', t)) (u : List Char) :
    l.readMembers seen r first (s ++ u) = .ok (r', t ++ u) := by
  fun_induction readMembers l seen r first s with
  | case1 => cases h
  | case2 => cases h
  | case3 seen r first s v hn hm =>
    cases h
    rw [readMembers_close (nextKey_append hn u), hm]
  | case4 => cases h
  | case5 seen r first s k v hn hf a w hv ih =>
    have hv := memberValue_append .ignored hv (ne_nil_of_length_lt (length_of_readMembers h)) u
    rw [readMembers_unknown (nextKey_append hn u) hf]
    simp only [hv, ih h]
  | case6 => cases h
  | case7 => cases h
  | case8 seen r first s k v hn f hf hk r1 w hv ih =>
    have hv := readField_append (hl.field? hf) hv (ne_nil_of_length_lt (length_of_readMembers h)) u
    rw [readMembers_field (nextKey_append hn u) hf (by simpa using hk)]
    simp only [hv, ih h]

theorem readItems_append {fs : List (Field R)} (hfs : ∀ f ∈ fs, f.read.Settled) {index : Nat}
    {r r' : R} {s t : List Char} (h : l.readItems fs index r s = .ok (r', t)) (u : List Char) :
    l.readItems fs index r (s ++ u) = .ok (r', t ++ u) := by
  induction fs generalizing index r s with
  | nil => exact map_rest_append h fun hs => closeList_append hs u
  | cons f fs ih =>
    have ih := fun {index r s} => @ih (fun g hg => hfs g (List.mem_cons_of_mem f hg)) index r s
    unfold readItems at h ⊢
    split at h
    · cases h
    · next v hn =>
      split at h
      · cases h
      · cases h
        rw [nextItem_append hn]
        rfl
    · next v hn =>
      rw [nextItem_append hn]
      split at h
      · cases h
      · next hv =>
        split at h
        · cases h
        · next hset =>
          have hw := ne_nil_of_length_lt (length_of_readItems h)
          simp only [Next.append, (hfs f List.mem_cons_self).append hv hw, hset, ih h]

end Layout

theorem Decoder.record_append {R : Type} {name : String} {layout : Option (Layout R)}
    (hl : ∀ l ∈ layout, l.Settled) {s t : List Char} {r : R}
    (h : (record name layout).run s = .ok (r, t)) (u : List Char) :
    (record name layout).run (s ++ u) = .ok (r, t ++ u) := by
  simp only [Decoder.record] at h ⊢
  split at h
  · next hs =>
    rw [dropBlank_append hs]
    cases layout with
    | none => cases h
    | some l => exact Layout.readMembers_append (hl l rfl) h u
  · next hs =>
    rw [dropBlank_append hs]
    cases layout with
    | none => cases h
    | some l => exact Layout.readItems_append (hl l rfl) h u
  · cases h

theorem Decoder.Settled.record {R : Type} {name : String} {layout : Option (Layout R)}
    (hl : ∀ l ∈ layout, l.Settled) : (record name layout).Settled where
  dropBlank_ne_nil h hd := by
    simp only [Decoder.record, hd] at h
    cases h
  append h _ u := record_append hl h u

/-! ## Variants -/

section Variants

variable {α : Type} {variants : List (String × α)}

theorem readVariant_append {s r : List Char} {a : α} (h : readVariant variants s = .ok (a, r))
    (u : List Char) : readVariant variants (s ++ u) = .ok (a, r ++ u) := by
  unfold readVariant at h ⊢
  split at h
  · cases h
  · next hs =>
    split at h
    · cases h
    · next hk =>
      cases h
      simp only [readString_append hs, hk]

theorem closeVariant_append {s r : List Char} (h : closeVariant s = .ok r) (u : List Char) :
    closeVariant (s ++ u) = .ok (r ++ u) := by
  unfold closeVariant at h ⊢
  split at h
  · cases h
  · next hs =>
    cases h
    rw [dropBlank_append hs]
    rfl
  · cases h

theorem readVariantObject_append {s r : List Char} {a : α}
    (h : readVariantObject variants s = .ok (a, r)) (u : List Char) :
    readVariantObject variants (s ++ u) = .ok (a, r ++ u) := by
  unfold readVariantObject at h ⊢
  split at h
  · cases h
  · cases h
  · next hs =>
    rw [dropBlank_append hs]
    split at h
    · cases h
    · next hv =>
      split at h
      · cases h
      · next w hm =>
        obtain ⟨t, hc, -⟩ := map_eq_ok.mp h
        have hm := memberValue_append .unit hm (ne_nil_of_length_lt (length_of_closeVariant hc)) u
        simp only [readVariant_append hv, hm]
        exact map_rest_append h fun hc => closeVariant_append hc u
  · cases h

theorem Decoder.Settled.variant (room : Nat) : (variant variants room).Settled where
  dropBlank_ne_nil h hd := by
    simp only [Decoder.variant, hd] at h
    cases h
  append h _ u := by
    simp only [Decoder.variant] at h ⊢
    split at h
    · cases h
    · next hs =>
      rw [dropBlank_append hs]
      exact readVariant_append h u
    · next hs =>
      rw [dropBlank_append hs]
      by_cases hr : room = 0
      · rw [if_pos hr] at h
        cases h
      · rw [if_neg hr] at h
        simp only [if_neg hr]
        exact readVariantObject_append h u
    · cases h

end Variants

end GrammarTables.Json
