import GrammarTables.Json.Decoder
import GrammarTables.Proofs.Json.StopsIn.Skip

/-!
# Where decoding stops

A fault in a value that was read to its end is placed behind it, so whether the reading failed or
not the place is in the text that the decoder was given.
-/

namespace GrammarTables.Json

variable {α β : Type}

/-- However the reading ends, it ends inside the text. -/
def Decoder.Stops (d : Decoder α) : Prop := ∀ s, StopsIn s Prod.snd (d.run s)

theorem stopsIn_readScalar (s : List Char) : StopsIn s Prod.snd (readScalar s) := by
  unfold readScalar
  split
  · exact Nat.zero_le _
  · next c s =>
    have hs := bytes_le_cons c s
    repeat' split
    · exact ((stopsIn_word _ s).mono hs).map fun _ => rfl
    · exact ((stopsIn_word _ s).mono hs).map fun _ => rfl
    · exact ((stopsIn_word _ s).mono hs).map fun _ => rfl
    · exact ((stopsIn_readString s).mono hs).map fun _ => rfl
    · exact (stopsIn_readNumber _).map fun _ => rfl
    · exact stopsIn_on _ (Nat.le_refl _)

theorem unread_misfit_le (expected : String) (s : List Char) :
    (misfit expected s).unread ≤ bytes s := by
  unfold misfit
  split
  · exact Nat.zero_le _
  · exact Nat.le_refl _
  · exact Nat.le_refl _
  · have hscalar := stopsIn_readScalar s
    split
    · next he => exact hscalar.unread_le he
    · next hr => exact hscalar.bytes_le hr

theorem unread_tooDeep_le (s : List Char) : (tooDeep s).unread ≤ bytes s := Nat.sub_le _ _

/-- A value of the wrong kind, before which blanks were dropped. -/
theorem stopsIn_misfit {s t : List Char} {rest : β → List Char} (expected : String)
    (h : bytes t ≤ bytes s) : StopsIn s rest (.error (misfit expected t)) :=
  Nat.le_trans (unread_misfit_le expected t) h

namespace Decoder

theorem Stops.map {d : Decoder α} (f : α → β) (h : d.Stops) : (d.map f).Stops :=
  fun s => (h s).map fun _ => rfl

theorem Stops.string : string.Stops := by
  intro s
  dsimp only [Decoder.string]
  split
  · next hd => exact ((stopsIn_readString _).mono (bytes_tail_le_of_dropBlank hd)).map fun _ => rfl
  · exact stopsIn_misfit _ (bytes_dropBlank_le s)

theorem Stops.bool : bool.Stops := by
  intro s
  dsimp only [Decoder.bool]
  split
  · next hd => exact ((stopsIn_word _ _).mono (bytes_tail_le_of_dropBlank hd)).map fun _ => rfl
  · next hd => exact ((stopsIn_word _ _).mono (bytes_tail_le_of_dropBlank hd)).map fun _ => rfl
  · exact stopsIn_misfit _ (bytes_dropBlank_le s)

theorem Stops.unit : unit.Stops := by
  intro s
  dsimp only [Decoder.unit]
  split
  · next hd => exact ((stopsIn_word _ _).mono (bytes_tail_le_of_dropBlank hd)).map fun _ => rfl
  · exact stopsIn_misfit _ (bytes_dropBlank_le s)

theorem Stops.optional {d : Decoder α} (h : d.Stops) : d.optional.Stops := by
  intro s
  dsimp only [Decoder.optional]
  split
  · next hd => exact ((stopsIn_word _ _).mono (bytes_tail_le_of_dropBlank hd)).map fun _ => rfl
  · exact (h s).map fun _ => rfl

theorem Stops.ignored : ignored.Stops := fun s => (stopsIn_skipValue s).map fun _ => rfl

end Decoder

/-! ## Lists -/

/-- What is left before or behind the next thing in a list. -/
def Next.rest : Next → List Char
  | close r => r
  | item r => r

theorem stopsIn_nextItem (first : Bool) (s : List Char) :
    StopsIn s Next.rest (nextItem first s) := by
  unfold nextItem
  split
  · exact Nat.zero_le _
  · next c r hd =>
    have hcr := bytes_le_of_dropBlank hd
    have hr := bytes_tail_le_of_dropBlank hd
    split
    · exact hr
    · split
      · exact hcr
      · split
        · split
          · exact Nat.zero_le _
          · next d t ht =>
            have hdt := Nat.le_trans (bytes_le_of_dropBlank ht) hr
            split
            · exact stopsIn_on _ hdt
            · exact hdt
        · exact stopsIn_on _ hcr

theorem stopsIn_items {item : Decoder α} (hi : item.Stops) (first : Bool) (s : List Char) :
    StopsIn s Prod.snd (items item first s) := by
  fun_induction items item first s with
  | case1 first s e hn => exact (stopsIn_nextItem first s).unread_le hn
  | case2 first s r hn => exact (stopsIn_nextItem first s).bytes_le hn
  | case3 first s t hn e he =>
    have ht : bytes t ≤ bytes s := (stopsIn_nextItem first s).bytes_le hn
    exact Nat.le_trans ((hi t).unread_le he) ht
  | case4 first s t hn a r hr ih =>
    have ht : bytes t ≤ bytes s := (stopsIn_nextItem first s).bytes_le hn
    have hr : bytes r ≤ bytes t := (hi t).bytes_le hr
    exact (ih.mono (Nat.le_trans hr ht)).map fun _ => rfl

theorem Decoder.Stops.list {item : Option (Decoder α)} (hi : ∀ d ∈ item, d.Stops) :
    (list item).Stops := by
  intro s
  dsimp only [Decoder.list]
  split
  · next hd =>
    split
    · exact Nat.le_trans (unread_tooDeep_le _) (bytes_le_of_dropBlank hd)
    · next d => exact (stopsIn_items (hi d rfl) true _).mono (bytes_tail_le_of_dropBlank hd)
  · exact stopsIn_misfit _ (bytes_dropBlank_le s)

/-! ## Objects -/

/-- What is left behind the next thing in an object. -/
def NextKey.rest : NextKey → List Char
  | close r => r
  | key _ r => r

theorem stopsIn_readKey (s : List Char) : StopsIn s NextKey.rest (readKey s) := by
  unfold readKey
  split
  · exact ((stopsIn_readString _).mono (bytes_le_cons _ _)).map fun _ => rfl
  · exact stopsIn_on _ (Nat.le_refl _)

theorem stopsIn_nextKey (first : Bool) (s : List Char) :
    StopsIn s NextKey.rest (nextKey first s) := by
  unfold nextKey
  split
  · exact Nat.zero_le _
  · next c r hd =>
    have hcr := bytes_le_of_dropBlank hd
    have hr := bytes_tail_le_of_dropBlank hd
    split
    · exact hr
    · split
      · exact (stopsIn_readKey _).mono hcr
      · split
        · split
          · exact Nat.zero_le _
          · next d t ht =>
            have hdt := Nat.le_trans (bytes_le_of_dropBlank ht) hr
            split
            · exact stopsIn_on _ hdt
            · exact (stopsIn_readKey _).mono hdt
        · exact stopsIn_on _ hcr

theorem stopsIn_memberValue {d : Decoder α} (hd : d.Stops) (s : List Char) :
    StopsIn s Prod.snd (memberValue d s) := by
  unfold memberValue
  split
  · next he => exact (stopsIn_readColon s).unread_le he
  · next r hr => exact (hd r).mono ((stopsIn_readColon s).bytes_le hr)

theorem stopsIn_members {value : Decoder α} (hv : value.Stops) (first : Bool) (s : List Char) :
    StopsIn s Prod.snd (members value first s) := by
  fun_induction members value first s with
  | case1 first s e hn => exact (stopsIn_nextKey first s).unread_le hn
  | case2 first s r hn => exact (stopsIn_nextKey first s).bytes_le hn
  | case3 first s k t hn e he =>
    have ht : bytes t ≤ bytes s := (stopsIn_nextKey first s).bytes_le hn
    exact Nat.le_trans ((stopsIn_memberValue hv t).unread_le he) ht
  | case4 first s k t hn a r hr ih =>
    have ht : bytes t ≤ bytes s := (stopsIn_nextKey first s).bytes_le hn
    have hr : bytes r ≤ bytes t := (stopsIn_memberValue hv t).bytes_le hr
    exact (ih.mono (Nat.le_trans hr ht)).map fun _ => rfl

namespace Decoder

theorem Stops.nameMap {value : Option (Decoder α)} (hv : ∀ d ∈ value, d.Stops) :
    (nameMap value).Stops := by
  intro s
  dsimp only [Decoder.nameMap]
  split
  · next hd =>
    split
    · exact Nat.le_trans (unread_tooDeep_le _) (bytes_le_of_dropBlank hd)
    · next d =>
      have hr := bytes_tail_le_of_dropBlank hd
      exact ((stopsIn_members (hv d rfl) true _).mono hr).map fun _ => rfl
  · exact stopsIn_misfit _ (bytes_dropBlank_le s)

/-! ## Values of any kind -/

theorem Stops.anyOf {inner : Option (Decoder Json)} (hi : ∀ d ∈ inner, d.Stops) :
    (anyOf inner).Stops := by
  intro s
  dsimp only [Decoder.anyOf]
  split
  · next hd =>
    split
    · exact Nat.le_trans (unread_tooDeep_le _) (bytes_le_of_dropBlank hd)
    · next d =>
      have hr := bytes_tail_le_of_dropBlank hd
      exact ((stopsIn_items (hi d rfl) true _).mono hr).map fun _ => rfl
  · next hd =>
    split
    · exact Nat.le_trans (unread_tooDeep_le _) (bytes_le_of_dropBlank hd)
    · next d =>
      have hr := bytes_tail_le_of_dropBlank hd
      exact ((stopsIn_members (hi d rfl) true _).mono hr).map fun _ => rfl
  · exact (stopsIn_readScalar _).mono (bytes_dropBlank_le s)

theorem Stops.any (room : Nat) : (any room).Stops := by
  induction room with
  | zero => exact .anyOf nofun
  | succ room ih => exact .anyOf fun d hd => Option.mem_some.mp hd ▸ ih

end Decoder

end GrammarTables.Json
