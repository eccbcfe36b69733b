import Bekaa3D.Text.Base64

/-!
# Text.Base64Noise — base64 with other characters in between

* `Noisy P clean raw`: the text with characters outside the alphabet inserted anywhere, those that `P` allows.
* `decode_noisy`: the noisy text decodes to a beginning of the bytes, if it decodes.
* `decode_noisy_full`: without `=` among the inserted characters it decodes to all of the bytes, if it decodes.
* `prefix_of_bytes`: a beginning of the bytes of a string that is UTF-8 is a beginning of the string.
-/

namespace Text.Base64

/-- Characters outside the alphabet, of which `P` holds, are inserted anywhere. -/
inductive Noisy (P : Char → Prop) : List Char → List Char → Prop
  | nil : Noisy P [] []
  | keep {c : Char} {clean raw : List Char} (h : Noisy P clean raw) : Noisy P (c :: clean) (c :: raw)
  | insert {c : Char} {clean raw : List Char} (hc : value c = none) (hP : P c) (h : Noisy P clean raw) :
    Noisy P clean (c :: raw)

theorem Noisy.mono {P Q : Char → Prop} {clean raw : List Char} (h : Noisy P clean raw) (hPQ : ∀ c, P c → Q c) :
    Noisy Q clean raw := by
  induction h with
  | nil => exact .nil
  | keep _ ih => exact .keep ih
  | insert hc hP _ ih => exact .insert hc (hPQ _ hP) ih

/-- Padding is noise at the end. -/
theorem Noisy.pad {P : Char → Prop} (hP : P '=') {clean raw : List Char} (h : Noisy P clean raw) (n : ℕ) :
    Noisy P clean (raw ++ List.replicate n '=') := by
  have hpad : value '=' = none := by decide
  induction h with
  | nil =>
    induction n with
    | zero => exact .nil
    | succ n ih => exact .insert hpad hP ih
  | keep _ ih => exact .keep ih
  | insert hc hc' _ ih => exact .insert hc hc' ih

/-! ## What is emitted -/

/-- The bytes of digits that are read with so many digits of a group before them. -/
def emit : ℕ → ℕ → List Char → List UInt8
  | _, _, [] => []
  | quad, left, c :: cs =>
    match value c with
    | none => emit quad left cs
    | some v =>
      match quad with
      | 0 => emit 1 v cs
      | 1 => UInt8.ofNat (left * 4 + v / 16) :: emit 2 (v % 16) cs
      | 2 => UInt8.ofNat (left * 16 + v / 4) :: emit 3 (v % 4) cs
      | _ => UInt8.ofNat (left * 64 + v) :: emit 0 0 cs

theorem emit_encodeStripped (bytes : List UInt8) : ∀ left, emit 0 left (encodeStripped bytes) = bytes := by
  have hbyte : ∀ {n : ℕ} {b : UInt8}, n = b.toNat → UInt8.ofNat n = b := by
    intro n b h
    rw [h, UInt8.ofNat_toNat]
  induction bytes using encodeStripped.induct with
  | case1 => exact fun _ => rfl
  | case2 a =>
    intro left
    have ha := a.toNat_lt
    simp only [encodeStripped, emit]
    rw [value_digit _ (by omega), value_digit _ (by omega)]
    dsimp only
    rw [hbyte (b := a) (by omega)]
  | case3 a b =>
    intro left
    have ha := a.toNat_lt
    have hb := b.toNat_lt
    simp only [encodeStripped, emit]
    rw [value_digit _ (by omega), value_digit _ (by omega), value_digit _ (by omega)]
    dsimp only
    rw [hbyte (b := a) (by omega), hbyte (b := b) (by omega)]
  | case4 a b c rest ih =>
    intro left
    have ha := a.toNat_lt
    have hb := b.toNat_lt
    have hc := c.toNat_lt
    simp only [encodeStripped, emit]
    rw [value_digit _ (by omega), value_digit _ (by omega), value_digit _ (by omega), value_digit _ (by omega)]
    dsimp only
    rw [hbyte (b := a) (by omega), hbyte (b := b) (by omega), hbyte (b := c) (by omega), ih]

/-- One byte more before what is read. -/
theorem prefix_cons {r : Option (List UInt8)} {b : UInt8} {bytes : List UInt8}
    (h : r = none ∨ ∃ bs, r = some bs ∧ bs <+: bytes) :
    r.map (b :: ·) = none ∨ ∃ bs, r.map (b :: ·) = some bs ∧ bs <+: b :: bytes := by
  rcases h with rfl | ⟨bs, rfl, hp⟩
  · exact Or.inl rfl
  · exact Or.inr ⟨b :: bs, rfl, List.prefix_cons_inj b |>.mpr hp⟩

/-- The decoder may stop at a run of padding, and emits what it has read so far. -/
theorem decodeFrom_noisy {P : Char → Prop} {clean raw : List Char} (h : Noisy P clean raw) :
    ∀ st : State, st.quad < 4 → decodeFrom st raw = none ∨
      ∃ bs, decodeFrom st raw = some bs ∧ bs <+: emit st.quad st.left clean := by
  induction h with
  | nil =>
    intro st _
    unfold decodeFrom
    split
    · exact Or.inr ⟨[], rfl, List.nil_prefix⟩
    · exact Or.inl rfl
  | @keep c clean raw _ ih =>
    rintro ⟨quad, left, pads⟩ hquad
    unfold decodeFrom emit
    by_cases hpad : c = '='
    · rw [if_pos hpad, hpad]
      split
      · exact Or.inr ⟨[], rfl, List.nil_prefix⟩
      · exact ih _ hquad
    · rw [if_neg hpad]
      cases value c with
      | none => exact ih _ hquad
      | some v =>
        dsimp only at hquad ⊢
        rcases quad with _ | _ | _ | _ | n
        · exact ih ⟨1, v, 0⟩ (by simp)
        · exact prefix_cons (ih ⟨2, v % 16, 0⟩ (by simp))
        · exact prefix_cons (ih ⟨3, v % 4, 0⟩ (by simp))
        · exact prefix_cons (ih ⟨0, 0, 0⟩ (by decide))
        · omega
  | @insert c clean raw hc _ _ ih =>
    rintro ⟨quad, left, pads⟩ hquad
    unfold decodeFrom
    by_cases hpad : c = '='
    · rw [if_pos hpad]
      split
      · exact Or.inr ⟨[], rfl, List.nil_prefix⟩
      · exact ih _ hquad
    · rw [if_neg hpad, hc]
      exact ih _ hquad

/-- **Noise** leaves a beginning of the bytes, or nothing. -/
theorem decode_noisy {P : Char → Prop} {bytes : List UInt8} {raw : List Char} (h : Noisy P (encodeStripped bytes) raw)
    {bs : List UInt8} (hd : decode raw = some bs) : bs <+: bytes := by
  unfold decode at hd
  split at hd
  · rcases decodeFrom_noisy h ⟨0, 0, 0⟩ (by decide) with hn | ⟨bs', hs, hp⟩
    · rw [hn] at hd
      cases hd
    · rw [hs] at hd
      cases hd
      rw [emit_encodeStripped] at hp
      exact hp
  · cases hd

/-! ## Without padding in between -/

/-- A run of padding at the end emits nothing. -/
theorem decodeFrom_padding (n : ℕ) : ∀ st : State, decodeFrom st (List.replicate n '=') = none ∨
    decodeFrom st (List.replicate n '=') = some [] := by
  induction n with
  | zero =>
    intro st
    rw [List.replicate_zero, decodeFrom]
    split
    · exact Or.inr rfl
    · exact Or.inl rfl
  | succ n ih =>
    intro st
    rw [List.replicate_succ, decodeFrom, if_pos rfl]
    split
    · exact Or.inr rfl
    · exact ih _

theorem full_cons {r : Option (List UInt8)} {b : UInt8} {bytes : List UInt8} (h : r = none ∨ r = some bytes) :
    r.map (b :: ·) = none ∨ r.map (b :: ·) = some (b :: bytes) := by
  rcases h with rfl | rfl
  · exact Or.inl rfl
  · exact Or.inr rfl

theorem decodeFrom_noisy_full {clean raw : List Char} (h : Noisy (· ≠ '=') clean raw) (hclean : '=' ∉ clean) (n : ℕ) :
    ∀ st : State, st.quad < 4 → decodeFrom st (raw ++ List.replicate n '=') = none ∨
      decodeFrom st (raw ++ List.replicate n '=') = some (emit st.quad st.left clean) := by
  induction h with
  | nil => exact fun st _ => decodeFrom_padding n st
  | @keep c clean raw _ ih =>
    rintro ⟨quad, left, pads⟩ hquad
    rw [List.mem_cons, not_or] at hclean
    unfold decodeFrom emit
    rw [List.cons_append]
    dsimp only
    rw [if_neg fun he => hclean.1 he.symm]
    cases value c with
    | none => exact ih hclean.2 _ hquad
    | some v =>
      dsimp only at hquad ⊢
      rcases quad with _ | _ | _ | _ | n
      · exact ih hclean.2 ⟨1, v, 0⟩ (by simp)
      · exact full_cons (ih hclean.2 ⟨2, v % 16, 0⟩ (by simp))
      · exact full_cons (ih hclean.2 ⟨3, v % 4, 0⟩ (by simp))
      · exact full_cons (ih hclean.2 ⟨0, 0, 0⟩ (by decide))
      · omega
  | @insert c clean raw hc hne _ ih =>
    rintro ⟨quad, left, pads⟩ hquad
    unfold decodeFrom
    rw [List.cons_append]
    dsimp only
    rw [if_neg hne, hc]
    exact ih hclean _ hquad

/-- Noise without `=` leaves all of the bytes, or nothing. -/
theorem decode_noisy_full {bytes : List UInt8} {raw : List Char} (h : Noisy (· ≠ '=') (encodeStripped bytes) raw)
    {n : ℕ} {bs : List UInt8} (hd : decode (raw ++ List.replicate n '=') = some bs) : bs = bytes := by
  have hclean : '=' ∉ encodeStripped bytes := by
    intro hmem
    obtain ⟨n, hn, he⟩ := mem_encodeStripped hmem
    exact digit_ne_pad n hn he.symm
  unfold decode at hd
  split at hd
  · rcases decodeFrom_noisy_full h hclean n ⟨0, 0, 0⟩ (by decide) with hn | hs
    · rw [hn] at hd
      cases hd
    · rw [hs, emit_encodeStripped] at hd
      exact (Option.some.inj hd).symm
  · cases hd

/-! ## Strings -/

/-- A beginning of the bytes of a string that is UTF-8 is a beginning of the string. -/
theorem prefix_of_bytes {s t : String} {bs : List UInt8} (hbs : bs <+: s.toUTF8.data.toList)
    (h : String.fromUTF8? ⟨bs.toArray⟩ = some t) : t.toList <+: s.toList := by
  obtain ⟨rest, hrest⟩ := hbs
  unfold String.fromUTF8? at h
  split at h
  · rename_i hvalid
    cases h
    refine List.isPrefix_of_utf8Encode_append_eq_utf8Encode ⟨rest.toArray⟩ ?_
    rw [String.utf8Encode_toList, String.utf8Encode_toList]
    refine ByteArray.ext (Array.ext' ?_)
    have hbytes : bs ++ rest = s.toByteArray.data.toList := hrest
    rw [ByteArray.data_append, Array.toList_append, ← hbytes]
    rfl
  · cases h

end Text.Base64
