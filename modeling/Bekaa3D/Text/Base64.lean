import Mathlib.Data.List.DropRight
import Mathlib.Tactic.Common

/-!
# Text.Base64 — the URL-safe alphabet, without padding

* `encode`: bytes in groups of three as four characters of the alphabet, a shorter last group padded with `=`.
* `decode`: the lenient decoder.  Characters outside the alphabet are skipped, padding that completes a group ends
  the text.
* `decode_stripped`: text that lost its padding decodes once it is padded to a multiple of four.
-/

namespace Text.Base64

def alphabet : List Char := "ABCDEFGHIJKLMNOPQRSTUVWXYZabcdefghijklmnopqrstuvwxyz0123456789-_".toList

def digit (n : ℕ) : Char := alphabet.getD n '='

/-- The value of a character; `+` and `/` are read like `-` and `_`. -/
def value (c : Char) : Option ℕ :=
  if c = '+' then some 62
  else if c = '/' then some 63
  else if c ∈ alphabet then some (alphabet.idxOf c)
  else none

/-- `urlsafe_b64encode`, without its padding. -/
def encodeStripped : List UInt8 → List Char
  | [] => []
  | [a] => [digit (a.toNat / 4), digit (a.toNat % 4 * 16)]
  | [a, b] => [digit (a.toNat / 4), digit (a.toNat % 4 * 16 + b.toNat / 16), digit (b.toNat % 16 * 4)]
  | a :: b :: c :: rest =>
    digit (a.toNat / 4) :: digit (a.toNat % 4 * 16 + b.toNat / 16) :: digit (b.toNat % 16 * 4 + c.toNat / 64) ::
      digit (c.toNat % 64) :: encodeStripped rest

/-- As many `=` as make the length a multiple of four. -/
def padding (n : ℕ) : List Char := List.replicate ((4 - n % 4) % 4) '='

/-- `urlsafe_b64encode`. -/
def encode (bytes : List UInt8) : List Char := encodeStripped bytes ++ padding (encodeStripped bytes).length

/-- `s.rstrip("=")`. -/
def rstrip (s : List Char) : List Char := s.rdropWhile (· = '=')

/-- Where the decoder is in a group of four characters: `left` are the bits not yet emitted, `pads` the run of
padding just read. -/
structure State where
  quad : ℕ
  left : ℕ
  pads : ℕ

/-- `a2b_base64`. -/
def decodeFrom (st : State) : List Char → Option (List UInt8)
  | [] => if st.quad = 0 then some [] else none
  | c :: cs =>
    if c = '=' then
      if 2 ≤ st.quad ∧ 4 ≤ st.quad + (st.pads + 1) then some []
      else decodeFrom { st with pads := if 2 ≤ st.quad then st.pads + 1 else st.pads } cs
    else
      match value c with
      | none => decodeFrom st cs
      | some v =>
        match st.quad with
        | 0 => decodeFrom ⟨1, v, 0⟩ cs
        | 1 => (decodeFrom ⟨2, v % 16, 0⟩ cs).map (UInt8.ofNat (st.left * 4 + v / 16) :: ·)
        | 2 => (decodeFrom ⟨3, v % 4, 0⟩ cs).map (UInt8.ofNat (st.left * 16 + v / 4) :: ·)
        | _ => (decodeFrom ⟨0, 0, 0⟩ cs).map (UInt8.ofNat (st.left * 64 + v) :: ·)

/-- `urlsafe_b64decode`, of ASCII text. -/
def decode (s : List Char) : Option (List UInt8) := if s.all fun c => c.toNat < 128 then decodeFrom ⟨0, 0, 0⟩ s else none

/-! ## Round trip -/

theorem value_digit : ∀ n < 64, value (digit n) = some n := by decide +kernel

theorem digit_ne_pad : ∀ n < 64, digit n ≠ '=' := by decide +kernel

theorem digit_ascii : ∀ n < 64, (digit n).toNat < 128 := by decide +kernel

section Decode

variable {left pads n : ℕ} {cs : List Char}

theorem decode_first (h : n < 64) : decodeFrom ⟨0, left, pads⟩ (digit n :: cs) = decodeFrom ⟨1, n, 0⟩ cs := by
  conv_lhs => unfold decodeFrom
  rw [if_neg (digit_ne_pad n h), value_digit n h]
  rfl

theorem decode_second (h : n < 64) {b : UInt8} (hb : left * 4 + n / 16 = b.toNat) :
    decodeFrom ⟨1, left, pads⟩ (digit n :: cs) = (decodeFrom ⟨2, n % 16, 0⟩ cs).map (b :: ·) := by
  conv_lhs => unfold decodeFrom
  rw [if_neg (digit_ne_pad n h), value_digit n h]
  dsimp only
  rw [hb, UInt8.ofNat_toNat]
  rfl

theorem decode_third (h : n < 64) {b : UInt8} (hb : left * 16 + n / 4 = b.toNat) :
    decodeFrom ⟨2, left, pads⟩ (digit n :: cs) = (decodeFrom ⟨3, n % 4, 0⟩ cs).map (b :: ·) := by
  conv_lhs => unfold decodeFrom
  rw [if_neg (digit_ne_pad n h), value_digit n h]
  dsimp only
  rw [hb, UInt8.ofNat_toNat]
  rfl

theorem decode_fourth (h : n < 64) {b : UInt8} (hb : left * 64 + n = b.toNat) :
    decodeFrom ⟨3, left, pads⟩ (digit n :: cs) = (decodeFrom ⟨0, 0, 0⟩ cs).map (b :: ·) := by
  conv_lhs => unfold decodeFrom
  rw [if_neg (digit_ne_pad n h), value_digit n h]
  dsimp only
  rw [hb, UInt8.ofNat_toNat]
  rfl

end Decode

/-- The padded text decodes. -/
theorem decodeFrom_padded (bytes : List UInt8) :
    decodeFrom ⟨0, 0, 0⟩ (encodeStripped bytes ++ padding (encodeStripped bytes).length) = some bytes := by
  induction bytes using encodeStripped.induct with
  | case1 => rfl
  | case2 a =>
    have ha := a.toNat_lt
    simp only [encodeStripped, List.cons_append, List.nil_append]
    rw [decode_first (by omega), decode_second (b := a) (by omega) (by omega)]
    rfl
  | case3 a b =>
    have ha := a.toNat_lt
    have hb := b.toNat_lt
    simp only [encodeStripped, List.cons_append, List.nil_append]
    rw [decode_first (by omega), decode_second (b := a) (by omega) (by omega),
      decode_third (b := b) (by omega) (by omega)]
    rfl
  | case4 a b c rest ih =>
    have ha := a.toNat_lt
    have hb := b.toNat_lt
    have hc := c.toNat_lt
    have hpad : padding (encodeStripped (a :: b :: c :: rest)).length = padding (encodeStripped rest).length := by
      simp only [encodeStripped, padding, List.length_cons]
      congr 2
      omega
    rw [hpad]
    simp only [encodeStripped, List.cons_append]
    rw [decode_first (by omega), decode_second (b := a) (by omega) (by omega),
      decode_third (b := b) (by omega) (by omega), decode_fourth (b := c) (by omega) (by omega), ih]
    rfl

/-- Every character of the text is a digit. -/
theorem mem_encodeStripped {bytes : List UInt8} {ch : Char} (h : ch ∈ encodeStripped bytes) :
    ∃ n < 64, ch = digit n := by
  induction bytes using encodeStripped.induct with
  | case1 => cases h
  | case2 a =>
    have ha := a.toNat_lt
    simp only [encodeStripped, List.mem_cons, List.not_mem_nil, or_false] at h
    rcases h with rfl | rfl
    · exact ⟨_, by omega, rfl⟩
    · exact ⟨_, by omega, rfl⟩
  | case3 a b =>
    have ha := a.toNat_lt
    have hb := b.toNat_lt
    simp only [encodeStripped, List.mem_cons, List.not_mem_nil, or_false] at h
    rcases h with rfl | rfl | rfl
    · exact ⟨_, by omega, rfl⟩
    · exact ⟨_, by omega, rfl⟩
    · exact ⟨_, by omega, rfl⟩
  | case4 a b c rest ih =>
    have ha := a.toNat_lt
    have hb := b.toNat_lt
    have hc := c.toNat_lt
    simp only [encodeStripped, List.mem_cons] at h
    rcases h with rfl | rfl | rfl | rfl | h
    · exact ⟨_, by omega, rfl⟩
    · exact ⟨_, by omega, rfl⟩
    · exact ⟨_, by omega, rfl⟩
    · exact ⟨_, by omega, rfl⟩
    · exact ih h

theorem rstrip_encode (bytes : List UInt8) : rstrip (encode bytes) = encodeStripped bytes := by
  unfold rstrip encode padding List.rdropWhile
  rw [List.reverse_append, List.reverse_replicate, List.dropWhile_append_of_pos]
  · have hself : (encodeStripped bytes).reverse.dropWhile (· = '=') = (encodeStripped bytes).reverse := by
      rw [List.dropWhile_eq_self_iff]
      intro hl
      obtain ⟨n, hn, hd⟩ := mem_encodeStripped (List.mem_reverse.mp (List.getElem_mem hl))
      rw [hd]
      simpa using digit_ne_pad n hn
    rw [hself, List.reverse_reverse]
  · intro ch hch
    simpa using List.eq_of_mem_replicate hch

/-- **Stripped text decodes** once it is padded to a multiple of four. -/
theorem decode_stripped (bytes : List UInt8) :
    decode (rstrip (encode bytes) ++ padding (rstrip (encode bytes)).length) = some bytes := by
  have hall : (encodeStripped bytes ++ padding (encodeStripped bytes).length).all fun c => c.toNat < 128 := by
    rw [List.all_eq_true]
    intro ch hch
    rcases List.mem_append.mp hch with hch | hch
    · obtain ⟨n, hn, rfl⟩ := mem_encodeStripped hch
      exact decide_eq_true (digit_ascii n hn)
    · obtain rfl := List.eq_of_mem_replicate hch
      rfl
  rw [rstrip_encode]
  unfold decode
  rw [if_pos hall]
  exact decodeFrom_padded bytes

end Text.Base64
