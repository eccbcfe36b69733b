import Bekaa3D.Catalog.Entities
import Mathlib.Computability.Language
import Mathlib.Data.List.Chain

/-!
# Catalog.Slug — the grammar of slugs

`domain/slug.py`: the pattern, the grammar that it describes, and the canonical form of a slug.

* `Hyphenated`: words of letters and digits, with single hyphens between them.
* `mem_slugLanguage`, `matchesSlugPattern_iff`, `hyphenated_iff`: the regular expression, its matcher and the grammar
  agree with it.
* `normaliseSlug_ok_iff`, `normaliseSlug_idempotent`: which strings are slugs, and of what form.
-/

namespace Bekaa3D.Catalog

open Platform (Unicode strip isSpace)

/-! ## Words and hyphens -/

inductive Hyphenated : List Char → Prop
  | single {c : Char} (hc : isSlugChar c = true) : Hyphenated [c]
  | cons {c : Char} {s : List Char} (hc : isSlugChar c = true) (hs : Hyphenated s) : Hyphenated (c :: s)
  | hyphen {c : Char} {s : List Char} (hc : isSlugChar c = true) (hs : Hyphenated s) : Hyphenated (c :: '-' :: s)

/-- `[a-z0-9]+`. -/
def Word (g : List Char) : Prop := g ≠ [] ∧ ∀ c ∈ g, isSlugChar c = true

theorem isSlugChar_ne {c : Char} (h : isSlugChar c = true) : c ≠ '-' ∧ c ≠ '\n' := by
  constructor <;> rintro rfl <;> revert h <;> decide

theorem Word.hyphenated {g : List Char} (h : Word g) : Hyphenated g := by
  obtain ⟨hne, hg⟩ := h
  induction g with
  | nil => exact absurd rfl hne
  | cons c g ih =>
    have hc : isSlugChar c = true := hg c (by simp)
    cases g with
    | nil => exact .single hc
    | cons d g => exact .cons hc (ih (by simp) fun e he => hg e (by simp [he]))

theorem Word.append {g s : List Char} (h : Word g) (hs : Hyphenated s) : Hyphenated (g ++ '-' :: s) := by
  obtain ⟨hne, hg⟩ := h
  induction g with
  | nil => exact absurd rfl hne
  | cons c g ih =>
    have hc : isSlugChar c = true := hg c (by simp)
    cases g with
    | nil => exact .hyphen hc hs
    | cons d g => exact .cons hc (ih (by simp) fun e he => hg e (by simp [he]))

theorem hyphenated_intercalate {g : List Char} {ps : List (List Char)} (h : ∀ p ∈ g :: ps, Word p) :
    Hyphenated (['-'].intercalate (g :: ps)) := by
  induction ps generalizing g with
  | nil =>
    rw [List.intercalate_singleton]
    exact (h g (by simp)).hyphenated
  | cons p ps ih =>
    rw [List.intercalate_cons_cons, List.append_assoc]
    exact (h g (by simp)).append (ih fun q hq => h q (by simp [List.mem_cons.mp hq]))

/-- A hyphenated text is that of its words. -/
theorem Hyphenated.words {s : List Char} (h : Hyphenated s) :
    ∃ g ps, (∀ p ∈ g :: ps, Word p) ∧ s = ['-'].intercalate (g :: ps) := by
  induction h with
  | @single c hc => exact ⟨[c], [], by simp [Word, hc], by simp⟩
  | @cons c s hc _ ih =>
    obtain ⟨g, ps, hw, rfl⟩ := ih
    refine ⟨c :: g, ps, fun p hp => ?_, ?_⟩
    · rcases List.mem_cons.mp hp with rfl | hp
      · refine ⟨by simp, fun d hd => ?_⟩
        rcases List.mem_cons.mp hd with rfl | hd
        · exact hc
        · exact (hw g (by simp)).2 d hd
      · exact hw p (by simp [hp])
    · cases ps with
      | nil => simp
      | cons p ps => simp [List.intercalate_cons_cons]
  | @hyphen c s hc _ ih =>
    obtain ⟨g, ps, hw, rfl⟩ := ih
    refine ⟨[c], g :: ps, fun p hp => ?_, ?_⟩
    · rcases List.mem_cons.mp hp with rfl | hp
      · exact ⟨by simp, by simp [hc]⟩
      · exact hw p hp
    · simp [List.intercalate_cons_cons]

/-! ## The pattern -/

/-- `[a-z0-9]`, as a language. -/
def alnum : Language Char := {w | ∃ c, isSlugChar c = true ∧ w = [c]}

/-- `[a-z0-9]+`, as a language. -/
def wordLanguage : Language Char := alnum * KStar.kstar alnum

/-- The language of `[a-z0-9]+(?:-[a-z0-9]+)*`. -/
def slugLanguage : Language Char :=
  let hyphen : Language Char := {['-']}
  wordLanguage * KStar.kstar (hyphen * wordLanguage)

theorem mem_wordLanguage {g : List Char} : g ∈ wordLanguage ↔ Word g := by
  have hletters : ∀ L : List (List Char), (∀ w ∈ L, ∃ c, isSlugChar c = true ∧ w = [c]) →
      ∀ c ∈ L.flatten, isSlugChar c = true := by
    intro L hL c hc
    obtain ⟨w, hw, hcw⟩ := List.mem_flatten.mp hc
    obtain ⟨d, hd, rfl⟩ := hL w hw
    rwa [List.mem_singleton.mp hcw]
  constructor
  · rintro ⟨_, ⟨c, hc, rfl⟩, _, ⟨L, rfl, hL⟩, rfl⟩
    refine ⟨by simp, fun d hd => ?_⟩
    rcases List.mem_cons.mp hd with rfl | hd
    · exact hc
    · exact hletters L hL d hd
  · rintro ⟨hne, hg⟩
    cases g with
    | nil => exact absurd rfl hne
    | cons c g =>
      refine ⟨[c], ⟨c, hg c (by simp), rfl⟩, g, ⟨g.map fun d => [d], ?_, fun w hw => ?_⟩, rfl⟩
      · rw [← List.flatMap_def, List.flatMap_singleton']
      · obtain ⟨d, hd, rfl⟩ := List.mem_map.mp hw
        exact ⟨d, hg d (by simp [hd]), rfl⟩

theorem intercalate_flatten (g : List Char) (ps : List (List Char)) :
    ['-'].intercalate (g :: ps) = g ++ (ps.map ('-' :: ·)).flatten := by
  induction ps generalizing g with
  | nil => simp
  | cons p ps ih =>
    rw [List.intercalate_cons_cons, ih p]
    simp

/-- The regular expression. -/
theorem mem_slugLanguage {s : List Char} : s ∈ slugLanguage ↔ Hyphenated s := by
  constructor
  · rintro ⟨g, hg, _, ⟨L, rfl, hL⟩, rfl⟩
    have hps : ∃ ps : List (List Char), L = ps.map ('-' :: ·) ∧ ∀ p ∈ ps, Word p := by
      clear hg
      induction L with
      | nil => exact ⟨[], rfl, fun p hp => by cases hp⟩
      | cons w L ih =>
        obtain ⟨ps, rfl, hps⟩ := ih fun y hy => hL y (by simp [hy])
        obtain ⟨_, rfl, p, hp, rfl⟩ := hL w (by simp)
        refine ⟨p :: ps, rfl, fun q hq => ?_⟩
        rcases List.mem_cons.mp hq with rfl | hq
        · exact mem_wordLanguage.mp hp
        · exact hps q hq
    obtain ⟨ps, rfl, hps⟩ := hps
    show Hyphenated (g ++ (ps.map ('-' :: ·)).flatten)
    rw [← intercalate_flatten]
    refine hyphenated_intercalate fun p hp => ?_
    rcases List.mem_cons.mp hp with rfl | hp
    · exact mem_wordLanguage.mp hg
    · exact hps p hp
  · intro h
    obtain ⟨g, ps, hw, rfl⟩ := h.words
    rw [intercalate_flatten]
    refine ⟨g, mem_wordLanguage.mpr (hw g (by simp)), _, ⟨ps.map ('-' :: ·), rfl, fun w hm => ?_⟩, rfl⟩
    obtain ⟨p, hp, rfl⟩ := List.mem_map.mp hm
    exact ⟨['-'], rfl, p, mem_wordLanguage.mpr (hw p (by simp [hp])), rfl⟩

/-- The matcher splits at hyphens. -/
theorem splitOn_iff {s : List Char} :
    ((s.splitOn '-').all fun part => part ≠ [] && part.all isSlugChar) = true ↔ Hyphenated s := by
  have hpart : ∀ part : List Char, (decide (part ≠ []) && part.all isSlugChar) = true ↔ Word part := by
    intro part
    simp [Word, List.all_eq_true]
  rw [List.all_eq_true]
  constructor
  · intro h
    have hs : ['-'].intercalate (s.splitOn '-') = s := List.intercalate_splitOn '-'
    cases hp : s.splitOn '-' with
    | nil => exact absurd hp (List.splitOn_ne_nil _ _)
    | cons g ps =>
      rw [hp] at hs h
      rw [← hs]
      exact hyphenated_intercalate fun p hm => (hpart p).mp (h p hm)
  · intro h
    obtain ⟨g, ps, hw, rfl⟩ := h.words
    rw [List.splitOn_intercalate _ (fun p hp hm => (isSlugChar_ne ((hw p hp).2 _ hm)).1 rfl) (by simp)]
    exact fun p hp => (hpart p).mpr (hw p hp)

/-- **The pattern matches the words of its language**, and those with a newline after them. -/
theorem matchesSlugPattern_iff {s : String} : matchesSlugPattern s = true ↔
    s.toList ∈ slugLanguage ∨ ∃ w ∈ slugLanguage, s.toList = w ++ ['\n'] := by
  unfold matchesSlugPattern beforeNewline
  rw [splitOn_iff]
  have hend : ∀ {w : List Char}, Hyphenated w → w.getLast? ≠ some '\n' := by
    intro w h
    induction h with
    | single hc => simpa using (isSlugChar_ne hc).2
    | @cons c s _ hs ih =>
      cases s with
      | nil => cases hs
      | cons d s => rwa [List.getLast?_cons_cons]
    | @hyphen c s _ hs ih =>
      cases s with
      | nil => cases hs
      | cons d s => rwa [List.getLast?_cons_cons, List.getLast?_cons_cons]
  by_cases hnl : s.toList.getLast? = some '\n'
  · rw [if_pos hnl]
    obtain ⟨w, hw⟩ : ∃ w, s.toList = w ++ ['\n'] := List.getLast?_eq_some_iff.mp hnl
    rw [hw, List.dropLast_concat]
    constructor
    · exact fun h => Or.inr ⟨w, mem_slugLanguage.mpr h, rfl⟩
    · rintro (h | ⟨w', hw', he⟩)
      · rw [mem_slugLanguage] at h
        exact absurd (by simp) (hend h)
      · rw [List.append_cancel_right he]
        exact mem_slugLanguage.mp hw'
  · rw [if_neg hnl]
    constructor
    · exact fun h => Or.inl (mem_slugLanguage.mpr h)
    · rintro (h | ⟨w', _, he⟩)
      · exact mem_slugLanguage.mp h
      · exact absurd (by rw [he]; simp) hnl

/-! ## The grammar -/

/-- Letters, digits and hyphens, no hyphen at an end and no two in a row. -/
structure Grammar (s : List Char) : Prop where
  ne : s ≠ []
  chars : ∀ c ∈ s, isSlugChar c = true ∨ c = '-'
  head : s.head? ≠ some '-'
  last : s.getLast? ≠ some '-'
  single : ¬ ['-', '-'] <:+: s

theorem grammar_cons {c : Char} {s : List Char} (hc : isSlugChar c = true) (h : Grammar s) : Grammar (c :: s) := by
  refine ⟨by simp, fun d hd => ?_, by simpa using (isSlugChar_ne hc).1, ?_, fun hi => ?_⟩
  · rcases List.mem_cons.mp hd with rfl | hd
    · exact Or.inl hc
    · exact h.chars d hd
  · cases s with
    | nil => exact absurd rfl h.ne
    | cons d s =>
      rw [List.getLast?_cons_cons]
      exact h.last
  · rcases List.infix_cons_iff.mp hi with hp | hi
    · exact absurd (List.cons_prefix_cons.mp hp).1 (isSlugChar_ne hc).1.symm
    · exact h.single hi

theorem grammar_hyphen {c : Char} {s : List Char} (hc : isSlugChar c = true) (h : Grammar s) :
    Grammar (c :: '-' :: s) := by
  cases s with
  | nil => exact absurd rfl h.ne
  | cons e s =>
    have he : e ≠ '-' := fun he => h.head (by simp [he])
    refine ⟨by simp, fun d hd => ?_, by simpa using (isSlugChar_ne hc).1, ?_, fun hi => ?_⟩
    · rcases List.mem_cons.mp hd with rfl | hd
      · exact Or.inl hc
      · rcases List.mem_cons.mp hd with rfl | hd
        · exact Or.inr rfl
        · exact h.chars d hd
    · rw [List.getLast?_cons_cons, List.getLast?_cons_cons]
      exact h.last
    · rcases List.infix_cons_iff.mp hi with hp | hi
      · exact absurd (List.cons_prefix_cons.mp hp).1 (isSlugChar_ne hc).1.symm
      · rcases List.infix_cons_iff.mp hi with hp | hi
        · exact absurd (List.cons_prefix_cons.mp (List.cons_prefix_cons.mp hp).2).1 he.symm
        · exact h.single hi

/-- The rest of a text in the grammar, after a letter or digit. -/
theorem hyphenated_of_grammar (s : List Char) (h : Grammar s) : Hyphenated s := by
  match s, h with
  | [], h => exact absurd rfl h.ne
  | c :: s, h =>
    have hc : isSlugChar c = true := (h.chars c (by simp)).resolve_right fun hc => h.head (by simp [hc])
    match s, h with
    | [], _ => exact .single hc
    | d :: s, h =>
      rcases h.chars d (by simp) with hd | rfl
      · refine .cons hc (hyphenated_of_grammar (d :: s) ⟨by simp, fun e he => h.chars e (by simp [List.mem_cons.mp he]),
          by simpa using (isSlugChar_ne hd).1, ?_, fun hi => h.single (List.infix_cons hi)⟩)
        have hl := h.last
        rwa [List.getLast?_cons_cons] at hl
      · match s, h with
        | [], h => exact absurd rfl h.last
        | e :: s, h =>
          -- the hyphen is between two words
          have he : e ≠ '-' := by
            rintro rfl
            exact h.single ⟨[c], s, rfl⟩
          refine .hyphen hc (hyphenated_of_grammar (e :: s) ⟨by simp, fun d hd => h.chars d ?_, by simpa using he, ?_,
            fun hi => h.single (List.infix_cons (List.infix_cons hi))⟩)
          · exact List.mem_cons_of_mem _ (List.mem_cons_of_mem _ hd)
          · have hl := h.last
            rwa [List.getLast?_cons_cons, List.getLast?_cons_cons] at hl

/-- **The grammar is that of the pattern.** -/
theorem hyphenated_iff {s : List Char} : Hyphenated s ↔ Grammar s := by
  refine ⟨fun h => ?_, hyphenated_of_grammar s⟩
  induction h with
  | @single c hc =>
    have hne : c ≠ '-' := (isSlugChar_ne hc).1
    refine ⟨by simp, by simp [hc], by simpa using hne, by simpa using hne, fun hi => ?_⟩
    have hle := hi.length_le
    simp at hle
  | cons hc _ ih => exact grammar_cons hc ih
  | hyphen hc _ ih => exact grammar_hyphen hc ih

/-! ## Slugs -/

/-- What is used of `str.lower`: on ASCII text it works character by character, and it makes no newline at the
end. -/
structure Lowers (tables : Unicode) : Prop where
  ascii : ∀ s : String, (∀ c ∈ s.toList, c.toNat < 128) → tables.lower s = String.ofList (s.toList.map Char.toLower)
  newline : ∀ s : String, (tables.lower s).toList.getLast? = some '\n' → s.toList.getLast? = some '\n'

/-- A slug in its canonical form. -/
structure IsSlug (s : String) : Prop where
  length : 1 ≤ s.length ∧ s.length ≤ maxSlugLength
  grammar : Grammar s.toList

section Normalise

variable {tables : Unicode} {raw s : String}

/-- No space is left at the end. -/
theorem getLast?_strip {c : Char} (h : (strip raw).toList.getLast? = some c) : isSpace c = false := by
  unfold strip at h
  rw [String.toList_ofList, List.getLast?_reverse] at h
  have hd := List.head?_dropWhile_not isSpace (raw.toList.dropWhile isSpace).reverse
  rw [h] at hd
  simpa using hd

theorem lower_strip_newline (hl : Lowers tables) : (tables.lower (strip raw)).toList.getLast? ≠ some '\n' := by
  intro h
  have hs := getLast?_strip (hl.newline _ h)
  revert hs
  decide

theorem matchesSlugPattern_iff_grammar (h : s.toList.getLast? ≠ some '\n') :
    matchesSlugPattern s = true ↔ Grammar s.toList := by
  unfold matchesSlugPattern beforeNewline
  rw [if_neg h, splitOn_iff, hyphenated_iff]

/-- **Normalisation accepts the grammar, and returns the trimmed text in lower case.** -/
theorem normaliseSlug_ok_iff (hl : Lowers tables) :
    normaliseSlug tables raw = .ok s ↔ s = tables.lower (strip raw) ∧ IsSlug s := by
  have hnewline : (tables.lower (strip raw)).toList.getLast? ≠ some '\n' := lower_strip_newline hl
  have hpat := matchesSlugPattern_iff_grammar hnewline
  unfold normaliseSlug
  dsimp only
  by_cases hempty : tables.lower (strip raw) = ""
  · rw [if_pos hempty]
    constructor
    · intro h
      cases h
    · rintro ⟨rfl, h⟩
      exact absurd (by rw [hempty]; rfl) h.grammar.ne
  · rw [if_neg hempty]
    by_cases hlong : maxSlugLength < (tables.lower (strip raw)).length
    · rw [if_pos hlong]
      constructor
      · intro h
        cases h
      · rintro ⟨rfl, h⟩
        have := h.length.2
        omega
    · rw [if_neg hlong]
      by_cases hm : matchesSlugPattern (tables.lower (strip raw)) = true
      · rw [hm]
        constructor
        · intro h
          cases h
          have hpos : (tables.lower (strip raw)).length ≠ 0 := fun h => hempty (String.length_eq_zero_iff.mp h)
          exact ⟨rfl, by omega, hpat.mp hm⟩
        · rintro ⟨rfl, -⟩
          rfl
      · rw [Bool.not_eq_true] at hm
        rw [hm]
        constructor
        · intro h
          cases h
        · rintro ⟨rfl, h⟩
          rw [hpat.mpr h.grammar] at hm
          cases hm

theorem slugChar_spec {c : Char} (h : isSlugChar c = true ∨ c = '-') :
    c.toNat < 128 ∧ c.toLower = c ∧ isSpace c = false := by
  have hrange : (97 ≤ c.toNat ∧ c.toNat ≤ 122) ∨ (48 ≤ c.toNat ∧ c.toNat ≤ 57) ∨ c.toNat = 45 := by
    rcases h with h | rfl
    · simp only [isSlugChar, Bool.or_eq_true, Bool.and_eq_true, decide_eq_true_eq] at h
      rcases h with ⟨h₁, h₂⟩ | ⟨h₁, h₂⟩
      · exact Or.inl ⟨h₁, h₂⟩
      · exact Or.inr (Or.inl ⟨h₁, h₂⟩)
    · exact Or.inr (Or.inr rfl)
  refine ⟨by omega, ?_, ?_⟩
  · unfold Char.toLower
    rw [dif_neg]
    rintro ⟨h₁, h₂⟩
    have hlow : 65 ≤ c.toNat := h₁
    have hhigh : c.toNat ≤ 90 := h₂
    omega
  · simp only [isSpace, Bool.or_eq_false_iff, Bool.and_eq_false_iff, decide_eq_false_iff_not]
    omega

/-- A slug is its own canonical form. -/
theorem IsSlug.canonical (hl : Lowers tables) (h : IsSlug s) : tables.lower (strip s) = s := by
  have hstrip : strip s = s := by
    unfold strip
    have hfix : ∀ l : List Char, (∀ c ∈ l, isSpace c = false) → l.dropWhile isSpace = l := by
      intro l hl
      cases l with
      | nil => rfl
      | cons c l => rw [List.dropWhile_cons_of_neg (by simp [hl c])]
    have hs : ∀ c ∈ s.toList, isSpace c = false := fun c hc => (slugChar_spec (h.grammar.chars c hc)).2.2
    rw [hfix _ hs, hfix _ fun c hc => hs c (List.mem_reverse.mp hc), List.reverse_reverse, String.ofList_toList]
  rw [hstrip, hl.ascii s fun c hc => (slugChar_spec (h.grammar.chars c hc)).1]
  have hmap : s.toList.map Char.toLower = s.toList := by
    conv_rhs => rw [← List.map_id s.toList]
    exact List.map_congr_left fun c hc => (slugChar_spec (h.grammar.chars c hc)).2.1
  rw [hmap, String.ofList_toList]

theorem normaliseSlug_idempotent (hl : Lowers tables) (h : normaliseSlug tables raw = .ok s) :
    normaliseSlug tables s = .ok s := by
  obtain ⟨-, hs⟩ := (normaliseSlug_ok_iff hl).mp h
  exact (normaliseSlug_ok_iff hl).mpr ⟨(hs.canonical hl).symm, hs⟩

end Normalise

end Bekaa3D.Catalog
