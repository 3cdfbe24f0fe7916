import GrammarTables.Json.Skip
import GrammarTables.Proofs.Json.StopsIn.Scan

/-!
# Where passing over a value stops

The recursion is that of the walk itself: each step of it begins behind what it has read so far.
-/

namespace GrammarTables.Json

theorem stopsIn_readColon (s : List Char) : StopsIn s id (readColon s) := by
  unfold readColon
  split
  · next hr => exact bytes_tail_le_of_dropBlank hr
  · exact Nat.zero_le _
  · exact stopsIn_on _ (bytes_dropBlank_le s)

theorem stopsIn_skipScalar (s : List Char) : StopsIn s id (skipScalar s) := by
  unfold skipScalar
  split
  · exact Nat.zero_le _
  · next c s =>
    have hs := bytes_le_cons c s
    repeat' split
    · exact (stopsIn_word _ s).mono hs
    · exact (stopsIn_word _ s).mono hs
    · exact (stopsIn_word _ s).mono hs
    · exact (stopsIn_skipString s).mono hs
    · exact (Numeral.stopsIn_scan _ _).map fun _ => rfl
    · exact stopsIn_on _ (Nat.le_refl _)

theorem stopsIn_skipKey (b : Bracket) (s : List Char) : StopsIn s id (skipKey b s) := by
  unfold skipKey
  split
  · exact Nat.le_refl _
  · split
    · next r hr =>
      have hstring := (stopsIn_skipString r).mono (bytes_tail_le_of_dropBlank hr)
      split
      · next he => exact hstring.unread_le he
      · next t ht => exact (stopsIn_readColon t).mono (hstring.bytes_le ht)
    · exact Nat.zero_le _
    · exact stopsIn_on _ (bytes_dropBlank_le _)

mutual

theorem stopsIn_skipTo (outer : List Bracket) (s : List Char) :
    StopsIn s id (skipTo outer s) := by
  unfold skipTo
  split
  · next r hd =>
    have hlt := length_lt_of_dropBlank hd
    exact (stopsIn_skipOpened .list outer r).mono (bytes_tail_le_of_dropBlank hd)
  · next r hd =>
    have hlt := length_lt_of_dropBlank hd
    exact (stopsIn_skipOpened .object outer r).mono (bytes_tail_le_of_dropBlank hd)
  · have hscalar := (stopsIn_skipScalar (dropBlank s)).mono (bytes_dropBlank_le s)
    split
    · next he => exact hscalar.unread_le he
    · next r hr =>
      have hlt := Nat.lt_of_lt_of_le (length_of_skipScalar hr) (length_dropBlank_le s)
      exact (stopsIn_skipAfter outer r).mono (hscalar.bytes_le hr)
termination_by (s.length, 0)
decreasing_by all_goals exact .left _ _ hlt

theorem stopsIn_skipOpened (b : Bracket) (outer : List Bracket) (s : List Char) :
    StopsIn s id (skipOpened b outer s) := by
  unfold skipOpened
  split
  · exact Nat.zero_le _
  · next c r hd =>
    have hlt := length_lt_of_dropBlank hd
    split
    · exact (stopsIn_skipAfter outer r).mono (bytes_tail_le_of_dropBlank hd)
    · have hkey := (stopsIn_skipKey b (c :: r)).mono (bytes_le_of_dropBlank hd)
      split
      · next he => exact hkey.unread_le he
      · next t ht =>
        have hle : t.length ≤ s.length := Nat.le_trans (length_of_skipKey ht) hlt
        exact (stopsIn_skipTo (b :: outer) t).mono (hkey.bytes_le ht)
termination_by (s.length, 1)
decreasing_by
  · rcases Nat.lt_or_eq_of_le hle with hlt | heq
    · exact .left _ _ hlt
    · rw [heq]
      exact .right _ Nat.zero_lt_one
  · exact .left _ _ hlt

theorem stopsIn_skipAfter (outer : List Bracket) (s : List Char) :
    StopsIn s id (skipAfter outer s) := by
  unfold skipAfter
  split
  · exact Nat.le_refl _
  · next b outer =>
    split
    · exact Nat.zero_le _
    · next c r hd =>
      have hlt := length_lt_of_dropBlank hd
      have hr := bytes_tail_le_of_dropBlank hd
      split
      · have hkey := (stopsIn_skipKey b r).mono hr
        split
        · next he => exact hkey.unread_le he
        · next t ht =>
          have hlt := Nat.lt_of_le_of_lt (length_of_skipKey ht) hlt
          exact (stopsIn_skipTo (b :: outer) t).mono (hkey.bytes_le ht)
      · split
        · exact (stopsIn_skipAfter outer r).mono hr
        · exact stopsIn_on _ (bytes_le_of_dropBlank hd)
termination_by (s.length, 0)
decreasing_by all_goals exact .left _ _ hlt

end

theorem stopsIn_skipValue (s : List Char) : StopsIn s id (skipValue s) := stopsIn_skipTo [] s

end GrammarTables.Json
