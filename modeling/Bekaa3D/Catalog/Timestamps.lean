import Mathlib.Tactic.IntervalCases
import Bekaa3D.Catalog.Entities

/-!
# Catalog.Timestamps — reading timestamps back

* `daysOf_civil`: the calendar date of a day determines the day.
* `fromIso`: the datetime of a text that `isoformat` writes; `fromIso_isoformat`.
-/

namespace Bekaa3D.Catalog

open Identity (Instant)

/-! ## Dates -/

/-- The days since 1970-01-01. -/
def daysOf (year month day : ℕ) : ℕ :=
  let y := if month ≤ 2 then year - 1 else year
  let yearOfEra := y % 400
  let m := if month ≤ 2 then month + 9 else month - 3
  y / 400 * 146097 + (yearOfEra * 365 + yearOfEra / 4 - yearOfEra / 100 + ((153 * m + 2) / 5 + (day - 1))) - 719468

/-- The day of an era lies in its year of the era. -/
theorem year_bounds {d y : ℕ} (hd : d < 146097) (hy : y = (d - d / 1460 + d / 36524 - d / 146096) / 365) :
    y < 400 ∧ 365 * y + y / 4 - y / 100 ≤ d ∧ d - (365 * y + y / 4 - y / 100) ≤ 365 := by
  obtain ⟨e, he⟩ : ∃ e, e = d / 36524 := ⟨_, rfl⟩
  obtain ⟨f, hf⟩ : ∃ f, f = d / 146096 := ⟨_, rfl⟩
  obtain ⟨c, hc⟩ : ∃ c, c = y / 100 := ⟨_, rfl⟩
  rw [← he, ← hf] at hy
  have he4 : e ≤ 4 := by omega
  have hf1 : f ≤ 1 := by omega
  have hlt : y < 400 := by omega
  have hc4 : c ≤ 3 := by omega
  rw [← hc]
  have hy' : 365 * y ≤ d - d / 1460 + e - f ∧ d - d / 1460 + e - f < 365 * y + 365 := by omega
  clear hy
  interval_cases f
  · interval_cases e <;> interval_cases c <;> omega
  · omega

/-- The date of a day leads back to the day. -/
theorem daysOf_civil (days : ℕ) : daysOf (civil days).1 (civil days).2.1 (civil days).2.2 = days := by
  unfold civil daysOf
  obtain ⟨z, hz⟩ : ∃ z, z = days + 719468 := ⟨_, rfl⟩
  simp only [← hz]
  obtain ⟨d, hd⟩ : ∃ d, d = z % 146097 := ⟨_, rfl⟩
  obtain ⟨y, hy⟩ : ∃ y, y = (d - d / 1460 + d / 36524 - d / 146096) / 365 := ⟨_, rfl⟩
  obtain ⟨hlt, hle, hday⟩ := year_bounds (by omega) hy
  rw [← hd, ← hy]
  obtain ⟨t, ht⟩ : ∃ t, t = d - (365 * y + y / 4 - y / 100) := ⟨_, rfl⟩
  rw [← ht]
  obtain ⟨m, hm⟩ : ∃ m, m = (5 * t + 2) / 153 := ⟨_, rfl⟩
  rw [← hm]
  have hm11 : m ≤ 11 := by omega
  have hera : d + z / 146097 * 146097 = z := by omega
  by_cases h10 : m < 10
  · have h3 : ¬m + 3 ≤ 2 := by omega
    simp only [h10, if_true, h3, if_false, Nat.add_zero, Nat.add_sub_cancel]
    have hq : (y + z / 146097 * 400) / 400 = z / 146097 := by omega
    have hr : (y + z / 146097 * 400) % 400 = y := by omega
    rw [hq, hr]
    omega
  · have h2 : m - 9 ≤ 2 := by omega
    have hm9 : m - 9 + 9 = m := by omega
    simp only [h10, if_false, h2, if_true, hm9, Nat.add_sub_cancel]
    have hq : (y + z / 146097 * 400) / 400 = z / 146097 := by omega
    have hr : (y + z / 146097 * 400) % 400 = y := by omega
    rw [hq, hr]
    omega

/-! ## Numbers -/

/-- The number at the start of a text, and the rest. -/
def number (s : List Char) : ℕ × List Char :=
  (Nat.ofDigitChars 10 (s.takeWhile Char.isDigit) 0, s.dropWhile Char.isDigit)

theorem toList_padded (width n : ℕ) :
    (padded width n).toList = List.replicate (width - (Nat.toDigits 10 n).length) '0' ++ Nat.toDigits 10 n := by
  unfold padded
  rw [String.toList_ofList]
  change List.leftpad width '0' n.repr.toList = _
  rw [Nat.toList_repr]
  rfl

theorem isDigit_of_mem_padded {width n : ℕ} {c : Char} (h : c ∈ (padded width n).toList) : c.isDigit = true := by
  rw [toList_padded] at h
  rcases List.mem_append.mp h with h | h
  · rw [List.eq_of_mem_replicate h]
    rfl
  · exact Nat.isDigit_of_mem_toDigits (by omega) (by omega) h

/-- A padded number, up to a character that is not a digit. -/
theorem number_padded (width n : ℕ) {c : Char} (hc : c.isDigit = false) (rest : List Char) :
    number ((padded width n).toList ++ c :: rest) = (n, c :: rest) := by
  have hall : ∀ x ∈ (padded width n).toList, x.isDigit = true := fun x hx => isDigit_of_mem_padded hx
  unfold number
  rw [List.takeWhile_append_of_pos hall, List.dropWhile_append_of_pos hall, List.takeWhile_cons_of_neg (by simp [hc]),
    List.dropWhile_cons_of_neg (by simp [hc]), List.append_nil, toList_padded, Nat.ofDigitChars_append,
    Nat.ofDigitChars_replicate_zero, Nat.mul_zero, Nat.ofDigitChars_ten_toDigits]

/-! ## Timestamps -/

def expect (c : Char) : List Char → Option (List Char)
  | [] => none
  | x :: xs => if x = c then some xs else none

/-- The fraction of a second, if there is one. -/
def fraction : List Char → ℕ × List Char
  | '.' :: rest => number rest
  | rest => (0, rest)

/-- The offset of UTC. -/
def utc : List Char := ['+', '0', '0', ':', '0', '0']

/-- `datetime.fromisoformat`, of the format that `isoformat` writes. -/
def fromIso (s : String) : Option Instant := do
  let (year, rest) := number s.toList
  let (month, rest) := number (← expect '-' rest)
  let (day, rest) := number (← expect '-' rest)
  let (hour, rest) := number (← expect 'T' rest)
  let (minute, rest) := number (← expect ':' rest)
  let (second, rest) := number (← expect ':' rest)
  let (microseconds, rest) := fraction rest
  if rest = utc then
    some ((daysOf year month day * 86400 + hour * 3600 + minute * 60 + second) * 1000000 + microseconds)
  else none

/-- What `isoformat` writes, as characters. -/
theorem toList_isoformat (t : Instant) {year month day : ℕ} (hc : civil (t / 1000000 / 86400) = (year, month, day)) :
    (isoformat t).toList = (padded 4 year).toList ++ '-' :: ((padded 2 month).toList ++ '-' ::
      ((padded 2 day).toList ++ 'T' :: ((padded 2 (t / 1000000 % 86400 / 3600)).toList ++ ':' ::
      ((padded 2 (t / 1000000 % 3600 / 60)).toList ++ ':' :: ((padded 2 (t / 1000000 % 60)).toList ++
      ((if t % 1000000 = 0 then "" else "." ++ padded 6 (t % 1000000)).toList ++ utc)))))) := by
  unfold isoformat
  dsimp only
  rw [hc]
  simp [utc]

theorem fraction_dot (rest : List Char) : fraction ('.' :: rest) = number rest := rfl

theorem fraction_isoformat (t : Instant) :
    fraction ((if t % 1000000 = 0 then "" else "." ++ padded 6 (t % 1000000)).toList ++ utc) =
      (t % 1000000, utc) := by
  split
  · rename_i h
    rw [h]
    rfl
  · rw [String.toList_append, List.append_assoc, show ".".toList = ['.'] from rfl, List.cons_append, List.nil_append,
      fraction_dot]
    unfold utc
    rw [number_padded 6 _ rfl]

/-- The start of what follows the seconds. -/
theorem seconds_end (t : Instant) : ∃ c rest, c.isDigit = false ∧
    (if t % 1000000 = 0 then "" else "." ++ padded 6 (t % 1000000)).toList ++ utc = c :: rest := by
  split
  · exact ⟨'+', _, rfl, rfl⟩
  · rw [String.toList_append, List.append_assoc]
    exact ⟨'.', _, rfl, rfl⟩

/-- The parts of a timestamp add up. -/
theorem clock (t : ℕ) : (t / 1000000 / 86400 * 86400 + t / 1000000 % 86400 / 3600 * 3600 +
    t / 1000000 % 3600 / 60 * 60 + t / 1000000 % 60) * 1000000 + t % 1000000 = t := by
  have hday : t / 1000000 % 86400 % 3600 = t / 1000000 % 3600 := Nat.mod_mod_of_dvd _ (by decide)
  have hhour : t / 1000000 % 3600 % 60 = t / 1000000 % 60 := Nat.mod_mod_of_dvd _ (by decide)
  omega

/-- **Timestamps read back** as they were written. -/
theorem fromIso_isoformat (t : Instant) : fromIso (isoformat t) = some t := by
  obtain ⟨year, month, day, hc⟩ : ∃ year month day, civil (t / 1000000 / 86400) = (year, month, day) := ⟨_, _, _, rfl⟩
  have hdays : daysOf year month day = t / 1000000 / 86400 := by
    have h := daysOf_civil (t / 1000000 / 86400)
    rwa [hc] at h
  obtain ⟨c, rest, hd, hend⟩ := seconds_end t
  have hfrac := fraction_isoformat t
  unfold fromIso
  rw [toList_isoformat t hc, number_padded 4 _ rfl, hend]
  rw [hend] at hfrac
  simp only [expect, if_true, Option.bind_eq_bind, Option.bind_some]
  rw [number_padded 2 month rfl]
  simp only [if_true, Option.bind_some]
  rw [number_padded 2 day rfl]
  simp only [if_true, Option.bind_some]
  rw [number_padded 2 _ rfl]
  simp only [if_true, Option.bind_some]
  rw [number_padded 2 _ rfl]
  simp only [if_true, Option.bind_some]
  rw [number_padded 2 _ hd, hfrac]
  dsimp only
  rw [if_pos rfl, hdays, clock]

/-- A timestamp is written with digits and a few separators. -/
theorem mem_isoformat {t : Instant} {c : Char} (h : c ∈ (isoformat t).toList) : c.isDigit = true ∨ c ∈ "-T:.+".toList := by
  obtain ⟨year, month, day, hc⟩ : ∃ year month day, civil (t / 1000000 / 86400) = (year, month, day) := ⟨_, _, _, rfl⟩
  have digits : ∀ {width n : ℕ}, c ∈ (padded width n).toList → c.isDigit = true ∨ c ∈ "-T:.+".toList :=
    fun h => Or.inl (isDigit_of_mem_padded h)
  have tail : c ∈ (if t % 1000000 = 0 then "" else "." ++ padded 6 (t % 1000000)).toList ++ utc →
      c.isDigit = true ∨ c ∈ "-T:.+".toList := by
    intro h
    rcases List.mem_append.mp h with h | h
    · split at h
      · cases h
      · rw [String.toList_append] at h
        rcases List.mem_append.mp h with h | h
        · rw [List.mem_singleton.mp h]
          exact Or.inr (by decide)
        · exact digits h
    · simp only [utc, List.mem_cons, List.not_mem_nil, or_false] at h
      rcases h with rfl | rfl | rfl | rfl | rfl | rfl <;> decide
  rw [toList_isoformat t hc] at h
  simp only [List.mem_append, List.mem_cons] at h
  rcases h with h | rfl | h | rfl | h | rfl | h | rfl | h | rfl | h | h
  · exact digits h
  · exact Or.inr (by decide)
  · exact digits h
  · exact Or.inr (by decide)
  · exact digits h
  · exact Or.inr (by decide)
  · exact digits h
  · exact Or.inr (by decide)
  · exact digits h
  · exact Or.inr (by decide)
  · exact digits h
  · exact tail (List.mem_append.mpr h)

end Bekaa3D.Catalog
