import GrammarTables.Proofs.Json.MoreText.Scan

/-!
# Where scanning stops

A reader only goes forward. `StopsIn s rest x` says of the result `x` of reading `s` that no more
bytes are left unread than `s` has: neither behind what was read, nor where the reading failed.
-/

namespace GrammarTables.Json

variable {β γ : Type} {s t : List Char}

/-- The result leaves no more bytes unread than the text has; `rest` is what a success leaves. -/
def StopsIn (s : List Char) (rest : β → List Char) : Except Failure β → Prop
  | .error f => f.unread ≤ bytes s
  | .ok b => bytes (rest b) ≤ bytes s

namespace StopsIn

variable {rest : β → List Char} {rest' : γ → List Char} {x : Except Failure β}

theorem unread_le {f : Failure} (h : StopsIn s rest x) (hx : x = .error f) :
    f.unread ≤ bytes s := by
  rw [hx] at h
  exact h

theorem bytes_le {b : β} (h : StopsIn s rest x) (hx : x = .ok b) : bytes (rest b) ≤ bytes s := by
  rw [hx] at h
  exact h

theorem mono (h : StopsIn t rest x) (ht : bytes t ≤ bytes s) : StopsIn s rest x := by
  cases x with
  | error f => exact Nat.le_trans h ht
  | ok b => exact Nat.le_trans h ht

theorem bind {k : β → Except Failure γ} (h : StopsIn s rest x)
    (hk : ∀ b, x = .ok b → StopsIn (rest b) rest' (k b)) : StopsIn s rest' (x >>= k) := by
  cases x with
  | error e => exact h
  | ok b => exact (hk b rfl).mono h

theorem map {f : β → γ} (h : StopsIn s rest x) (hf : ∀ b, rest' (f b) = rest b) :
    StopsIn s rest' (x.map f) := by
  cases x with
  | error e => exact h
  | ok b =>
    show bytes (rest' (f b)) ≤ bytes s
    rw [hf]
    exact h

end StopsIn

/-! ## Bytes -/

@[simp] theorem bytes_nil : bytes [] = 0 := rfl

@[simp] theorem bytes_cons (c : Char) (s : List Char) : bytes (c :: s) = c.utf8Size + bytes s := rfl

theorem bytes_le_cons (c : Char) (s : List Char) : bytes s ≤ bytes (c :: s) := by
  rw [bytes_cons]
  omega

theorem bytes_append (s t : List Char) : bytes (s ++ t) = bytes s + bytes t := by
  induction s with
  | nil => exact (Nat.zero_add _).symm
  | cons c s ih => rw [List.cons_append, bytes_cons, ih, bytes_cons, Nat.add_assoc]

theorem length_le_bytes (s : List Char) : s.length ≤ bytes s := by
  induction s with
  | nil => exact Nat.le_refl 0
  | cons c s ih =>
    have := c.utf8Size_pos
    rw [List.length_cons, bytes_cons]
    omega

theorem bytes_le_of_suffix (h : t <:+ s) : bytes t ≤ bytes s := by
  obtain ⟨front, rfl⟩ := h
  rw [bytes_append]
  omega

theorem bytes_dropBlank_le (s : List Char) : bytes (dropBlank s) ≤ bytes s :=
  bytes_le_of_suffix (List.dropWhile_suffix _)

theorem bytes_le_of_dropBlank (h : dropBlank s = t) : bytes t ≤ bytes s :=
  h ▸ bytes_dropBlank_le s

theorem bytes_tail_le_of_dropBlank {c : Char} {r : List Char} (h : dropBlank s = c :: r) :
    bytes r ≤ bytes s :=
  Nat.le_trans (bytes_le_cons c r) (bytes_le_of_dropBlank h)

theorem bytes_dropDigits_le (s : List Char) : bytes (dropDigits s) ≤ bytes s :=
  bytes_le_of_suffix (List.dropWhile_suffix _)

/-- Digits and what stands behind them. -/
theorem length_digits_le (s : List Char) : (digits s).length + bytes (dropDigits s) ≤ bytes s := by
  have h := bytes_append (s.takeWhile isDigit) (s.dropWhile isDigit)
  have := length_le_bytes (s.takeWhile isDigit)
  rw [List.takeWhile_append_dropWhile] at h
  rw [digits, dropDigits, List.length_map, h]
  omega

@[simp] theorem unread_before (p : Problem) (s : List Char) : (p.before s).unread = bytes s := rfl

@[simp] theorem unread_on (p : Problem) (s : List Char) : (p.on s).unread = bytes s - 1 := rfl

theorem stopsIn_before (p : Problem) {rest : β → List Char} (h : bytes t ≤ bytes s) :
    StopsIn s rest (.error (p.before t)) := h

theorem stopsIn_on (p : Problem) {rest : β → List Char} (h : bytes t ≤ bytes s) :
    StopsIn s rest (.error (p.on t)) := by
  show bytes t - 1 ≤ bytes s
  omega

/-! ## Words -/

theorem stopsIn_word (w s : List Char) : StopsIn s id (word w s) := by
  fun_induction word w s with
  | case1 s => exact Nat.le_refl _
  | case2 => exact stopsIn_before _ (Nat.le_refl _)
  | case3 w ws s ih => exact ih.mono (bytes_le_cons _ s)
  | case4 => exact stopsIn_on _ (Nat.le_refl _)

/-! ## Numerals -/

namespace Numeral

variable {p : Problem}

theorem stopsIn_scanWhole (p : Problem) (s : List Char) : StopsIn s Prod.snd (scanWhole p s) := by
  unfold scanWhole
  split
  · exact stopsIn_before _ (Nat.le_refl _)
  · next c r =>
    have hc := bytes_le_cons c r
    split
    · split
      · exact hc
      · exact stopsIn_on _ hc
    · split
      · exact Nat.le_trans (bytes_dropDigits_le r) hc
      · exact stopsIn_on _ (Nat.le_refl _)

theorem stopsIn_scanFraction (p : Problem) (s : List Char) :
    StopsIn s Prod.snd (scanFraction p s) := by
  unfold scanFraction
  split
  · next r =>
    have hr := bytes_le_cons '.' r
    split
    · exact stopsIn_on _ (Nat.zero_le _)
    · exact stopsIn_on _ hr
    · exact Nat.le_trans (bytes_dropDigits_le _) hr
  · exact Nat.le_refl _

theorem bytes_of_scanSign {s r : List Char} {down : Bool} (h : scanSign s = (down, r)) :
    bytes r ≤ bytes s := by
  unfold scanSign at h
  split at h <;> cases h <;> simp

theorem stopsIn_scanExponent (p : Problem) (s : List Char) :
    StopsIn s Prod.snd (scanExponent p s) := by
  unfold scanExponent
  split
  · exact Nat.le_refl _
  · next c r =>
    split
    · split
      · exact stopsIn_before _ (Nat.zero_le _)
      · next d u heq =>
        have hsign := bytes_of_scanSign heq
        have hu := Nat.le_trans hsign (bytes_le_cons c r)
        split
        · exact Nat.le_trans (bytes_dropDigits_le u) (Nat.le_trans (bytes_le_cons d u) hu)
        · exact stopsIn_on _ hu
    · exact Nat.le_refl _

/-- The digits of an exponent stand in front of what is left behind it. -/
theorem length_exponent_le {s r : List Char} {down : Bool} {ds : List Nat}
    (h : scanExponent p s = .ok (some (down, ds), r)) : ds.length + bytes r ≤ bytes s := by
  unfold scanExponent at h
  split at h
  · cases h
  · next c t =>
    split at h
    · split at h
      · cases h
      · next d u heq =>
        have hsign := bytes_of_scanSign heq
        split at h
        · next hd =>
          have hdigits := length_digits_le (d :: u)
          have hdrop : dropDigits (d :: u) = dropDigits u := List.dropWhile_cons_of_pos hd
          cases h
          rw [hdrop] at hdigits
          rw [bytes_cons]
          omega
        · cases h
    · cases h

theorem stopsIn_scanUnsigned (p : Problem) (negative : Bool) (s : List Char) :
    StopsIn s Prod.snd (scanUnsigned p negative s) := by
  unfold scanUnsigned
  refine (stopsIn_scanWhole p s).bind fun ⟨_, t⟩ _ => ?_
  refine (stopsIn_scanFraction p t).bind fun ⟨_, v⟩ _ => ?_
  refine (stopsIn_scanExponent p v).bind fun ⟨_, r⟩ _ => ?_
  exact Nat.le_refl (bytes r)

theorem stopsIn_scan (p : Problem) (s : List Char) : StopsIn s Prod.snd (scan p s) := by
  unfold scan
  split
  · exact (stopsIn_scanUnsigned p true _).mono (bytes_le_cons _ _)
  · exact stopsIn_scanUnsigned p false _

theorem length_exponent_le_of_scanUnsigned {negative down : Bool} {s r : List Char} {n : Numeral}
    {ds : List Nat} (h : scanUnsigned p negative s = .ok (n, r))
    (hn : n.exponent = some (down, ds)) : ds.length + bytes r ≤ bytes s := by
  obtain ⟨whole, t, fraction, v, exponent, hw, hf, he, rfl⟩ := scanUnsigned_eq_ok.mp h
  have h1 : bytes t ≤ bytes s := (stopsIn_scanWhole p s).bytes_le hw
  have h2 : bytes v ≤ bytes t := (stopsIn_scanFraction p t).bytes_le hf
  obtain rfl : exponent = some (down, ds) := hn
  have h3 := length_exponent_le he
  omega

/-- The digits of an exponent are read behind the text that is left for it. -/
theorem length_exponent_le_of_scan {down : Bool} {s r : List Char} {n : Numeral} {ds : List Nat}
    (h : scan p s = .ok (n, r)) (hn : n.exponent = some (down, ds)) :
    ds.length + bytes r ≤ bytes s := by
  unfold scan at h
  split at h
  · have := length_exponent_le_of_scanUnsigned h hn
    rw [bytes_cons]
    omega
  · exact length_exponent_le_of_scanUnsigned h hn

theorem length_absorb_le (limit acc : Nat) (ds : List Nat) :
    (absorb limit acc ds).2.length ≤ ds.length := by
  induction ds generalizing acc with
  | nil => exact Nat.le_refl 0
  | cons d ds ih =>
    unfold absorb
    split
    · exact Nat.le_succ_of_le (ih _)
    · exact Nat.le_refl _

theorem eq_zero_of_elim {x : Option Number} {unread : Nat}
    (h : x.elim (.error 0) Except.ok = .error unread) : unread = 0 := by
  cases x with
  | none => cases h; rfl
  | some v => cases h

/-- Only digits of the exponent can be unread when a numeral proves too large. -/
theorem unread_of_value {n : Numeral} {unread : Nat} (h : n.value = .error unread) :
    unread = 0 ∨ ∃ down ds, n.exponent = some (down, ds) ∧ unread ≤ ds.length := by
  unfold value at h
  dsimp only at h
  split at h
  · cases h
  · split at h
    · exact .inl (eq_zero_of_elim h)
    · next down ds he =>
      split at h
      · exact .inl (eq_zero_of_elim h)
      · next hu =>
        split at h
        · cases h
          refine .inr ⟨down, ds, he, ?_⟩
          have := length_absorb_le exponentLimit 0 ds
          rw [hu, List.length_cons] at this
          omega
        · cases h

end Numeral

theorem stopsIn_readNumber (s : List Char) : StopsIn s Prod.snd (readNumber s) := by
  have hscan := Numeral.stopsIn_scan .eofInValue s
  unfold readNumber
  split
  · next he => exact hscan.unread_le he
  · next n r hn =>
    have hr : bytes r ≤ bytes s := hscan.bytes_le hn
    split
    · exact hr
    · next unread hv =>
      show unread + bytes r ≤ bytes s
      obtain rfl | ⟨down, ds, he, hle⟩ := Numeral.unread_of_value hv
      · omega
      · have := Numeral.length_exponent_le_of_scan hn he
        omega

/-! ## Strings -/

/-- The place of a fault in four hexadecimal digits is behind them. -/
theorem stopsIn_readHex (s : List Char) : StopsIn s Prod.snd (readHex s) := by
  unfold readHex
  split
  · next r hr =>
    unfold hexDigits? at hr
    split at hr
    · simp only [bind, Option.bind_eq_some_iff] at hr
      obtain ⟨_, _, _, _, _, _, _, _, hr⟩ := hr
      cases hr
      show bytes _ ≤ _
      simp only [bytes_cons]
      omega
    · cases hr
  · split
    · exact Nat.zero_le _
    · exact Nat.sub_le _ _

theorem stopsIn_readTrail (lead : Nat) (s : List Char) : StopsIn s Prod.snd (readTrail lead s) := by
  unfold readTrail
  split
  · exact Nat.zero_le _
  · exact Nat.zero_le _
  · next s =>
    have hs := Nat.le_trans (bytes_le_cons 'u' s) (bytes_le_cons '\\' _)
    have hhex := (stopsIn_readHex s).mono hs
    split
    · next he => exact hhex.unread_le he
    · next hr =>
      split
      · exact hhex.bytes_le hr
      · exact stopsIn_before _ (hhex.bytes_le hr)
  · exact stopsIn_on _ (bytes_le_cons _ _)
  · exact stopsIn_on _ (Nat.le_refl _)

theorem stopsIn_readUnicode (s : List Char) : StopsIn s Prod.snd (readUnicode s) := by
  have hhex := stopsIn_readHex s
  unfold readUnicode
  split
  · next he => exact hhex.unread_le he
  · next hr =>
    split
    · exact stopsIn_before _ (hhex.bytes_le hr)
    · split
      · exact (stopsIn_readTrail _ _).mono (hhex.bytes_le hr)
      · exact hhex.bytes_le hr

theorem stopsIn_readEscape (s : List Char) : StopsIn s Prod.snd (readEscape s) := by
  unfold readEscape
  split
  · exact Nat.zero_le _
  · next c s =>
    have hs := bytes_le_cons c s
    split
    · exact (stopsIn_readUnicode s).mono hs
    · split
      · exact hs
      · exact stopsIn_on _ (Nat.le_refl _)

theorem stopsIn_readString (s : List Char) : StopsIn s Prod.snd (readString s) := by
  fun_induction readString s with
  | case1 => exact Nat.le_refl _
  | case2 s => exact bytes_le_cons _ s
  | case3 s e he =>
    exact Nat.le_trans ((stopsIn_readEscape s).unread_le he) (bytes_le_cons _ s)
  | case4 s d r hr _ _ ih =>
    have hle := Nat.le_trans ((stopsIn_readEscape s).bytes_le hr) (bytes_le_cons '\\' s)
    exact (ih.mono hle).map fun _ => rfl
  | case5 c s => exact stopsIn_on _ (Nat.le_refl _)
  | case6 c s _ _ _ ih => exact (ih.mono (bytes_le_cons c s)).map fun _ => rfl

theorem stopsIn_skipEscape (s : List Char) : StopsIn s id (skipEscape s) := by
  unfold skipEscape
  split
  · exact Nat.zero_le _
  · next c s =>
    have hs := bytes_le_cons c s
    split
    · exact ((stopsIn_readHex s).mono hs).map fun _ => rfl
    · split
      · exact hs
      · exact stopsIn_on _ (Nat.le_refl _)

theorem stopsIn_skipString (s : List Char) : StopsIn s id (skipString s) := by
  fun_induction skipString s with
  | case1 => exact Nat.le_refl _
  | case2 s => exact bytes_le_cons _ s
  | case3 s e he =>
    exact Nat.le_trans ((stopsIn_skipEscape s).unread_le he) (bytes_le_cons _ s)
  | case4 s r hr _ _ ih =>
    exact ih.mono (Nat.le_trans ((stopsIn_skipEscape s).bytes_le hr) (bytes_le_cons _ s))
  | case5 c s => exact stopsIn_before _ (Nat.le_refl _)
  | case6 c s _ _ _ ih => exact ih.mono (bytes_le_cons c s)

end GrammarTables.Json
