import GrammarTables.Json.Record
import GrammarTables.Proofs.Json.StopsIn.Decode

/-!
# Where reading a record stops

The place of a fault in the record itself may be behind a bracket or a comma that is only looked
for once the fault is known. They are taken from what is left, so that place is in the text too.
-/

namespace GrammarTables.Json

theorem bytes_leaveObject_le (s : List Char) : bytes (leaveObject s) ≤ bytes s := by
  unfold leaveObject
  split
  · next hd => exact bytes_tail_le_of_dropBlank hd
  · exact bytes_dropBlank_le s

theorem bytes_leaveList_le (s : List Char) : bytes (leaveList s) ≤ bytes s := by
  unfold leaveList
  split
  · next hd => exact bytes_tail_le_of_dropBlank hd
  · next hd => exact Nat.le_trans (bytes_dropBlank_le _) (bytes_tail_le_of_dropBlank hd)
  · exact bytes_dropBlank_le s

theorem stopsIn_closeList (s : List Char) : StopsIn s id (closeList s) := by
  unfold closeList
  split
  · exact Nat.zero_le _
  · next hd => exact bytes_tail_le_of_dropBlank hd
  · next r hd =>
    have hr := Nat.le_trans (bytes_dropBlank_le r) (bytes_tail_le_of_dropBlank hd)
    split
    · next ht => exact stopsIn_on _ (ht ▸ hr)
    · exact stopsIn_on _ hr
  · exact stopsIn_on _ (bytes_dropBlank_le s)

/-! ## Records -/

namespace Field

variable {R α : Type} {key : String} {d : Decoder α}

theorem stops_map_set {set : α → R → R} (h : d.Stops) :
    (d.map fun a r => (.ok (set a r) : Except Problem R)).Stops :=
  h.map fun a => (fun r => .ok (set a r) : R → Except Problem R)

theorem stops_ofRequired {set : α → R → R} (h : d.Stops) : (ofRequired key d set).read.Stops :=
  stops_map_set h

theorem stops_ofDefault {set : α → R → R} (h : d.Stops) : (ofDefault key d set).read.Stops :=
  stops_map_set h

theorem stops_ofOptional {set : Option α → R → R} (h : d.Stops) :
    (ofOptional key d set).read.Stops := stops_map_set h.optional

end Field

namespace Layout

variable {R : Type} {l : Layout R}

/-- The decoders of all fields stop in the text. -/
def Stops (l : Layout R) : Prop := ∀ f ∈ l.fields, f.read.Stops

theorem stopsIn_readField {f : Field R} (hf : f.read.Stops) (r : R) (s : List Char) :
    StopsIn s Prod.snd (readField f r s) := by
  have hmember := stopsIn_memberValue hf s
  unfold readField
  split
  · next he => exact hmember.unread_le he
  · next set t ht =>
    have ht : bytes t ≤ bytes s := hmember.bytes_le ht
    split
    · exact stopsIn_before _ (Nat.le_trans (bytes_leaveObject_le t) ht)
    · exact ht

theorem stopsIn_readMembers (hl : l.Stops) (seen : List String) (r : R) (first : Bool)
    (s : List Char) : StopsIn s Prod.snd (l.readMembers seen r first s) := by
  fun_induction readMembers l seen r first s with
  | case1 seen r first s e hn => exact (stopsIn_nextKey first s).unread_le hn
  | case2 seen r first s t hn => exact stopsIn_before _ ((stopsIn_nextKey first s).bytes_le hn)
  | case3 seen r first s t hn => exact (stopsIn_nextKey first s).bytes_le hn
  | case4 seen r first s k t hn _ e he =>
    have ht : bytes t ≤ bytes s := (stopsIn_nextKey first s).bytes_le hn
    exact Nat.le_trans ((stopsIn_memberValue .ignored t).unread_le he) ht
  | case5 seen r first s k t hn _ a u hu ih =>
    have ht : bytes t ≤ bytes s := (stopsIn_nextKey first s).bytes_le hn
    have hu : bytes u ≤ bytes t := (stopsIn_memberValue .ignored t).bytes_le hu
    exact ih.mono (Nat.le_trans hu ht)
  | case6 seen r first s k t hn =>
    have ht : bytes t ≤ bytes s := (stopsIn_nextKey first s).bytes_le hn
    exact stopsIn_before _ (Nat.le_trans (bytes_leaveObject_le t) ht)
  | case7 seen r first s k t hn f hf _ e he =>
    have ht : bytes t ≤ bytes s := (stopsIn_nextKey first s).bytes_le hn
    have hf := hl f (List.mem_of_find?_eq_some hf)
    exact Nat.le_trans ((stopsIn_readField hf r t).unread_le he) ht
  | case8 seen r first s k t hn f hf _ r' u hu ih =>
    have ht : bytes t ≤ bytes s := (stopsIn_nextKey first s).bytes_le hn
    have hf := hl f (List.mem_of_find?_eq_some hf)
    have hu : bytes u ≤ bytes t := (stopsIn_readField hf r t).bytes_le hu
    exact ih.mono (Nat.le_trans hu ht)

theorem stopsIn_readItems {fs : List (Field R)} (hfs : ∀ f ∈ fs, f.read.Stops) (index : Nat) (r : R)
    (s : List Char) : StopsIn s Prod.snd (l.readItems fs index r s) := by
  induction fs generalizing index r s with
  | nil => exact (stopsIn_closeList s).map fun _ => rfl
  | cons f fs ih =>
    have hf := hfs f List.mem_cons_self
    have ih := ih fun g hg => hfs g (List.mem_cons_of_mem f hg)
    have hnext := stopsIn_nextItem (index == 0) s
    unfold readItems
    split
    · next he => exact hnext.unread_le he
    · next t hn =>
      have ht : bytes t ≤ bytes s := hnext.bytes_le hn
      split
      · exact stopsIn_before _ ht
      · exact ht
    · next t hn =>
      have hitem := (hf t).mono (hnext.bytes_le hn)
      split
      · next he => exact hitem.unread_le he
      · next set u hu =>
        have hu : bytes u ≤ bytes s := hitem.bytes_le hu
        split
        · exact stopsIn_before _ (Nat.le_trans (bytes_leaveList_le u) hu)
        · next r _ => exact (ih (index + 1) r u).mono hu

end Layout

theorem Decoder.Stops.record {R : Type} {name : String} {layout : Option (Layout R)}
    (hl : ∀ l ∈ layout, l.Stops) : (record name layout).Stops := by
  intro s
  dsimp only [Decoder.record]
  split
  · next hd =>
    split
    · exact Nat.le_trans (unread_tooDeep_le _) (bytes_le_of_dropBlank hd)
    · next l =>
      have hr := bytes_tail_le_of_dropBlank hd
      exact (Layout.stopsIn_readMembers (hl l rfl) [] l.blank true _).mono hr
  · next hd =>
    split
    · exact Nat.le_trans (unread_tooDeep_le _) (bytes_le_of_dropBlank hd)
    · next l =>
      have hr := bytes_tail_le_of_dropBlank hd
      exact (Layout.stopsIn_readItems (hl l rfl) 0 l.blank _).mono hr
  · exact stopsIn_misfit _ (bytes_dropBlank_le s)

/-! ## Variants -/

section Variants

variable {α : Type} (variants : List (String × α))

theorem stopsIn_readVariant (s : List Char) : StopsIn s Prod.snd (readVariant variants s) := by
  have hstring := stopsIn_readString s
  unfold readVariant
  split
  · next he => exact hstring.unread_le he
  · next hr =>
    split
    · exact stopsIn_before _ (hstring.bytes_le hr)
    · exact hstring.bytes_le hr

theorem stopsIn_closeVariant (s : List Char) : StopsIn s id (closeVariant s) := by
  unfold closeVariant
  split
  · exact Nat.zero_le _
  · next hd => exact bytes_tail_le_of_dropBlank hd
  · exact stopsIn_before _ (bytes_dropBlank_le s)

theorem stopsIn_readVariantObject (s : List Char) :
    StopsIn s Prod.snd (readVariantObject variants s) := by
  unfold readVariantObject
  split
  · exact Nat.zero_le _
  · next hd => exact stopsIn_on _ (bytes_le_of_dropBlank hd)
  · next r hd =>
    have hname := (stopsIn_readVariant variants r).mono (bytes_tail_le_of_dropBlank hd)
    split
    · next he => exact hname.unread_le he
    · next a t ht =>
      have hvalue := (stopsIn_memberValue .unit t).mono (hname.bytes_le ht)
      split
      · next he => exact hvalue.unread_le he
      · next u hu => exact ((stopsIn_closeVariant u).mono (hvalue.bytes_le hu)).map fun _ => rfl
  · exact stopsIn_on _ (bytes_dropBlank_le s)

theorem Decoder.Stops.variant (room : Nat) : (variant variants room).Stops := by
  intro s
  dsimp only [Decoder.variant]
  split
  · exact Nat.zero_le _
  · next r hd => exact (stopsIn_readVariant variants r).mono (bytes_tail_le_of_dropBlank hd)
  · next r hd =>
    split
    · exact Nat.le_trans (unread_tooDeep_le _) (bytes_le_of_dropBlank hd)
    · exact (stopsIn_readVariantObject variants r).mono (bytes_tail_le_of_dropBlank hd)
  · exact stopsIn_on _ (bytes_dropBlank_le s)

end Variants

end GrammarTables.Json
