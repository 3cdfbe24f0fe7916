import GrammarTables.Json.Decoder
import GrammarTables.Proofs.Json.StopsIn.Decode
import GrammarTables.Proofs.Text.ByteOrder
import Mathlib.Data.List.DropRight

/-!
# The place of a failure

A failure keeps how many bytes were unread, and no more are than the text has. The place that is made
of that number is found by counting in the bytes before it.
-/

namespace GrammarTables.Json

/-! ## Failures of whole texts -/

theorem stopsIn_atEnd (s : List Char) : StopsIn s (fun _ => []) (atEnd s) := by
  unfold atEnd
  split
  · exact Nat.zero_le _
  · exact stopsIn_on _ (bytes_dropBlank_le s)

/-- A text that is refused is refused somewhere in it. -/
theorem Decoder.Stops.decode {α : Type} {d : Decoder α} (hd : d.Stops) {text : String} {f : Failure}
    (h : d.decode text = .error f) : f.unread ≤ bytes text.toList := by
  unfold Decoder.decode at h
  split at h
  · next he =>
    cases h
    exact (hd text.toList).unread_le he
  · next a r hr =>
    have hle : bytes r ≤ bytes text.toList := (hd text.toList).bytes_le hr
    cases he : atEnd r with
    | error e =>
      rw [he] at h
      cases h
      exact Nat.le_trans ((stopsIn_atEnd r).unread_le he) hle
    | ok =>
      rw [he] at h
      cases h

/-! ## Bytes of a text -/

theorem toList_loop (b : ByteArray) (i : Nat) (r : List UInt8) :
    ByteArray.toList.loop b i r = r.reverse ++ b.data.toList.drop i := by
  fun_induction ByteArray.toList.loop b i r with
  | case1 i r hlt ih =>
    have hi : b.data.toList.drop i = b.get! i :: b.data.toList.drop (i + 1) := by
      simpa [ByteArray.get!, hlt] using List.drop_eq_getElem_cons (l := b.data.toList) (i := i) hlt
    rw [ih, List.reverse_cons, List.append_assoc, hi]
    rfl
  | case2 i r hge =>
    have hi : b.data.toList.drop i = [] := List.drop_eq_nil_of_le (Nat.le_of_not_lt hge)
    rw [hi, List.append_nil]

theorem toList_toUTF8 (text : String) : text.toUTF8.toList = Text.utf8 text := by
  rw [ByteArray.toList, toList_loop]
  rfl

theorem length_flatMap_utf8EncodeChar (s : List Char) :
    (s.flatMap String.utf8EncodeChar).length = bytes s := by
  induction s with
  | nil => rfl
  | cons c s ih => rw [List.flatMap_cons, List.length_append, ih, String.length_utf8EncodeChar]; rfl

theorem bytes_toList (text : String) : bytes text.toList = (Text.utf8 text).length := by
  rw [Text.utf8_eq_flatMap, length_flatMap_utf8EncodeChar]

/-! ## Places -/

namespace Place

/-- The line and the column behind the bytes `front`: one more than the ends of lines among them, and
the bytes since the last of them. -/
def Behind (front : List UInt8) (place : Place) : Prop :=
  place.line = 1 + front.count newline ∧
    ∃ earlier line, front = earlier ++ line ∧ (earlier = [] ∨ earlier.getLast? = some newline) ∧
      newline ∉ line ∧ place.column = line.length

theorem behind_after (front : List UInt8) : Behind front (after front) := by
  refine ⟨rfl, front.rdropWhile (· != newline), front.rtakeWhile (· != newline), ?_, ?_, ?_, ?_⟩
  · exact List.rdropWhile_append_rtakeWhile.symm
  · by_cases he : front.rdropWhile (· != newline) = []
    · exact .inl he
    · have hlast := List.rdropWhile_last_not (· != newline) front he
      exact .inr (by simpa [List.getLast?_eq_some_getLast he] using hlast)
  · exact fun hn => by simpa using List.mem_rtakeWhile_imp hn
  · rw [List.rtakeWhile, List.length_reverse]
    rfl

end Place

end GrammarTables.Json
