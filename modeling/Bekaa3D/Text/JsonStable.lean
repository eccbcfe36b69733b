import Bekaa3D.Text.JsonParser

/-!
# Text.JsonStable — what is read of a text, whatever follows it

* `value_iff`, `elements_iff`, `members_iff`: the forms of what is read.
* `stable`: an array, an object or a string is read alike before any other text.
-/

namespace Text.Json

variable {ν : Type} {N : Numbers ν}

theorem bind_ok {ε α β : Type} {x : Except ε α} {f : α → Except ε β} {b : β} :
    (x >>= f) = .ok b ↔ ∃ a, x = .ok a ∧ f a = .ok b := by
  cases x with
  | error e => exact ⟨fun h => (by cases h), fun ⟨_, h, _⟩ => (by cases h)⟩
  | ok a => exact ⟨fun h => ⟨a, rfl, h⟩, fun ⟨_, h, h'⟩ => (by cases h; exact h')⟩

theorem bind_congr_ok {ε α β : Type} {x : Except ε α} {f g : α → Except ε β}
    (h : ∀ a, x = .ok a → f a = g a) : (x >>= f) = (x >>= g) := by
  cases x with
  | error e => rfl
  | ok a => exact h a rfl

/-! ## Pieces of strings -/

section Pieces

variable {s : Str}

theorem pieces_quote : pieces (.char '"' :: s) = some ([], s) := by
  rw [pieces.eq_def]
  exact if_pos rfl

theorem pieces_unicode {a b c d : Point} {n : ℕ} (h : hexValue₄ a b c d = some n) :
    pieces (.char '\\' :: .char 'u' :: a :: b :: c :: d :: s) =
      (pieces s).map fun r => (.escaped n :: r.1, r.2) := by
  rw [pieces.eq_def]
  dsimp only
  rw [if_neg (by decide), if_pos rfl, if_pos rfl, h]
  cases pieces s <;> rfl

theorem pieces_letter {q : Point} {c : Char} (hq : q ≠ .char 'u') (h : unescape q = some c) :
    pieces (.char '\\' :: q :: s) = (pieces s).map fun r => (.plain (.char c) :: r.1, r.2) := by
  rw [pieces.eq_def]
  dsimp only
  rw [if_neg (by decide), if_pos rfl, if_neg hq, h]
  cases pieces s <;> rfl

theorem pieces_plain {p : Point} (hquote : p ≠ .char '"') (hback : p ≠ .char '\\') (hlow : ¬p.code < 0x20) :
    pieces (p :: s) = (pieces s).map fun r => (.plain p :: r.1, r.2) := by
  rw [pieces.eq_def]
  dsimp only
  rw [if_neg hquote, if_neg hback, if_neg hlow]
  cases pieces s <;> rfl

end Pieces

/-! ## What follows a text -/

section Append

variable {s rest : Str}

/-- A string ends at its closing quote. -/
theorem pieces_append {ps : List Piece} (h : pieces s = some (ps, rest)) (t : Str) :
    pieces (s ++ t) = some (ps, rest ++ t) := by
  fun_induction pieces s generalizing ps with
  | case1 => cases h
  | case2 body =>
    cases h
    exact pieces_quote
  | case3 => cases h
  | case4 a b c d body hq ih =>
    obtain ⟨n, hn, h⟩ := Option.bind_eq_some_iff.mp h
    obtain ⟨⟨ps', rest'⟩, hr, h⟩ := Option.bind_eq_some_iff.mp h
    cases h
    have hcons := pieces_unicode (s := body ++ t) hn
    rw [ih hr] at hcons
    exact hcons
  | case5 => cases h
  | case6 q body hu hq ih =>
    obtain ⟨c, hc, h⟩ := Option.bind_eq_some_iff.mp h
    obtain ⟨⟨ps', rest'⟩, hr, h⟩ := Option.bind_eq_some_iff.mp h
    cases h
    have hcons := pieces_letter (s := body ++ t) hu hc
    rw [ih hr] at hcons
    exact hcons
  | case7 => cases h
  | case8 p body hq hb hlow ih =>
    obtain ⟨⟨ps', rest'⟩, hr, h⟩ := Option.bind_eq_some_iff.mp h
    cases h
    have hcons := pieces_plain (s := body ++ t) hq hb hlow
    rw [ih hr] at hcons
    exact hcons

theorem stringBody_append {x : Str} (h : stringBody s = .ok (x, rest)) (t : Str) :
    stringBody (s ++ t) = .ok (x, rest ++ t) := by
  unfold stringBody at h ⊢
  cases hp : pieces s with
  | none => rw [hp] at h; cases h
  | some r =>
    obtain ⟨ps, rest'⟩ := r
    rw [hp] at h
    cases h
    rw [pieces_append hp t]

theorem skip_append (h : skip s ≠ []) (t : Str) : skip (s ++ t) = skip s ++ t := by
  unfold skip at h ⊢
  induction s with
  | nil => exact absurd rfl h
  | cons p s ih =>
    by_cases hp : isBlank p = true
    · rw [List.dropWhile_cons_of_pos hp] at h ⊢
      rw [List.cons_append, List.dropWhile_cons_of_pos hp]
      exact ih h
    · rw [List.dropWhile_cons_of_neg hp, List.cons_append, List.dropWhile_cons_of_neg hp]

theorem expect_append {c : Char} (h : expect c s = .ok rest) (t : Str) : expect c (s ++ t) = .ok (rest ++ t) := by
  cases s with
  | nil => cases h
  | cons p s =>
    by_cases hp : p = .char c
    · rw [expect, if_pos hp] at h
      cases h
      exact if_pos hp
    · rw [expect, if_neg hp] at h
      cases h

/-- Another character stands there. -/
theorem expect_error_append {c : Char} {e : Failure} (h : expect c s = .error e) (hs : s ≠ []) (t : Str) :
    expect c (s ++ t) = .error .value := by
  cases s with
  | nil => exact absurd rfl hs
  | cons p s =>
    by_cases hp : p = .char c
    · rw [expect, if_pos hp] at h
      cases h
    · exact if_neg hp

theorem expect_ne_nil {c : Char} (h : expect c s = .ok rest) : s ≠ [] := by
  rintro rfl
  cases h

/-! ### Numbers -/

theorem digits_append (h : (digits s).2 ≠ []) (t : Str) : digits (s ++ t) = ((digits s).1, (digits s).2 ++ t) := by
  induction s with
  | nil => exact absurd rfl h
  | cons p s ih =>
    cases p with
    | surrogate n => rfl
    | char c =>
      rw [List.cons_append, digits, digits]
      rw [digits] at h
      split
      · rename_i hc
        rw [if_pos hc] at h
        rw [ih h]
      · rfl

/-- The text goes on, and not as a number. -/
def Ends (rest : Str) : Prop := ∃ p r, rest = p :: r ∧ p ≠ .char '.' ∧ p ≠ .char 'e' ∧ p ≠ .char 'E'

theorem Ends.ne_nil (h : Ends rest) : rest ≠ [] := by
  obtain ⟨p, r, rfl, -⟩ := h
  exact List.cons_ne_nil p r

theorem sign_append {plus : Bool} (h : s ≠ []) (t : Str) :
    sign plus (s ++ t) = ((sign plus s).1, (sign plus s).2 ++ t) := by
  cases s with
  | nil => exact absurd rfl h
  | cons p s =>
    simp only [List.cons_append, sign]
    split
    · rfl
    · split <;> rfl

/-- The digits after a sign. -/
theorem signed_append (plus : Bool) (h : (digits (sign plus s).2).2 ≠ []) (t : Str) :
    sign plus (s ++ t) = ((sign plus s).1, (sign plus s).2 ++ t) ∧
      digits ((sign plus s).2 ++ t) = ((digits (sign plus s).2).1, (digits (sign plus s).2).2 ++ t) := by
  refine ⟨sign_append ?_ t, digits_append h t⟩
  rintro rfl
  exact h rfl

theorem exponent_append (h : Ends (exponent s).2) (t : Str) :
    exponent (s ++ t) = ((exponent s).1, (exponent s).2 ++ t) := by
  cases s with
  | nil => exact absurd rfl h.ne_nil
  | cons p s =>
    simp only [List.cons_append, exponent]
    by_cases hp : (p = .char 'e' ∨ p = .char 'E') ∧ (digits (sign true s).2).1 ≠ []
    · obtain ⟨hp, hd⟩ := hp
      have hafter : (digits (sign true s).2).2 ≠ [] := by
        intro hnil
        refine h.ne_nil ?_
        simp only [exponent]
        rcases hp with rfl | rfl
        · rw [if_pos ⟨rfl, hd⟩, hnil]
        · rw [if_neg (by simp), if_pos ⟨rfl, hd⟩, hnil]
      obtain ⟨hs, hds⟩ := signed_append true hafter t
      rw [hs, hds]
      split
      · rfl
      · split
        · rfl
        · rfl
    · have hstop : exponent (p :: s) = ([], p :: s) := by
        simp only [exponent]
        rw [if_neg fun hc => hp ⟨Or.inl hc.1, hc.2⟩, if_neg fun hc => hp ⟨Or.inr hc.1, hc.2⟩]
      rw [hstop] at h
      obtain ⟨q, r, hq, -, he, hE⟩ := h
      cases hq
      rw [if_neg fun hc => he hc.1, if_neg fun hc => hE hc.1, if_neg fun hc => he hc.1, if_neg fun hc => hE hc.1]
      rfl

/-- What an exponent, or none, stands before does not begin with a point. -/
theorem exponent_point (h : Ends (exponent s).2) : ∀ p r, s = p :: r → p ≠ .char '.' := by
  rintro p r rfl rfl
  have hstop : exponent (.char '.' :: r) = ([], .char '.' :: r) := by
    simp only [exponent]
    rw [if_neg (by simp), if_neg (by simp)]
  rw [hstop] at h
  obtain ⟨q, r', hq, hne, -⟩ := h
  cases hq
  exact hne rfl

theorem fraction_append (h : (fraction s).2 ≠ []) (hp : ∀ p r, (fraction s).2 = p :: r → p ≠ .char '.') (t : Str) :
    fraction (s ++ t) = ((fraction s).1, (fraction s).2 ++ t) := by
  cases s with
  | nil => exact absurd rfl h
  | cons p s =>
    simp only [List.cons_append, fraction] at h hp ⊢
    by_cases hc : p = .char '.' ∧ (digits s).1 ≠ []
    · rw [if_pos hc] at h ⊢
      rw [digits_append h t, if_pos hc]
    · rw [if_neg hc] at hp ⊢
      have hne : p ≠ .char '.' := hp p s rfl
      rw [if_neg fun hc => hne hc.1]
      rfl

theorem integer_append {int : List Char} (h : integer s = some (int, rest)) (hr : rest ≠ []) (t : Str) :
    integer (s ++ t) = some (int, rest ++ t) := by
  cases s with
  | nil => cases h
  | cons p s =>
    simp only [List.cons_append, integer] at h ⊢
    by_cases hz : p = .char '0'
    · rw [if_pos hz] at h ⊢
      cases h
      rfl
    · rw [if_neg hz] at h ⊢
      by_cases hd : (digits (p :: s)).1 = []
      · rw [if_pos hd] at h
        cases h
      · rw [if_neg hd] at h
        have he : digits (p :: s) = (int, rest) := Option.some.inj h
        have happ : digits (p :: s ++ t) = (int, rest ++ t) := by
          rw [digits_append (by rw [he]; exact hr), he]
        rw [List.cons_append] at happ
        rw [happ, if_neg (by rw [he] at hd; exact hd)]

theorem lexeme_eq : lexeme s = (integer (sign false s).2).map fun r =>
    ((sign false s).1 ++ r.1 ++ (fraction r.2).1 ++ (exponent (fraction r.2).2).1, (exponent (fraction r.2).2).2) := by
  unfold lexeme
  cases h : integer (sign false s).2 with
  | none => simp [h]
  | some r => simp [h]

theorem lexeme_append {text : List Char} (h : lexeme s = some (text, rest)) (hr : Ends rest) (t : Str) :
    lexeme (s ++ t) = some (text, rest ++ t) := by
  rw [lexeme_eq] at h ⊢
  obtain ⟨⟨int, s₁⟩, hint, he⟩ := Option.map_eq_some_iff.mp h
  cases he
  have hexp := exponent_append hr t
  have hfrac := fraction_append (s := s₁) ?_ (exponent_point hr) t
  · have hint' := integer_append hint ?_ t
    · rw [sign_append ?_ t, hint', Option.map_some, hfrac, hexp]
      rintro rfl
      cases hint
    · rintro rfl
      exact hr.ne_nil rfl
  · intro hnil
    rw [hnil] at hr
    exact hr.ne_nil rfl

/-! ### Values -/

/-- A decimal digit. -/
def IsDigit (p : Point) : Prop := ∃ c : Char, p = .char c ∧ c.isDigit = true

theorem digits_head {p : Point} (h : (digits (p :: s)).1 ≠ []) : IsDigit p := by
  cases p with
  | surrogate n => exact absurd rfl h
  | char c =>
    rw [digits] at h
    by_cases hc : c.isDigit = true
    · exact ⟨c, rfl, hc⟩
    · rw [if_neg hc] at h
      exact absurd rfl h

/-- A number begins with a digit, or with one after a `-`. -/
theorem lexeme_head {text : List Char} (h : lexeme s = some (text, rest)) :
    (∃ p r, s = p :: r ∧ IsDigit p) ∨ ∃ q r, s = .char '-' :: q :: r ∧ IsDigit q := by
  rw [lexeme_eq] at h
  obtain ⟨⟨int, s₁⟩, hint, -⟩ := Option.map_eq_some_iff.mp h
  have hhead : ∀ s, integer s = some (int, s₁) → ∃ p r, s = p :: r ∧ IsDigit p := by
    intro s hs
    cases s with
    | nil => cases hs
    | cons p r =>
      refine ⟨p, r, rfl, ?_⟩
      simp only [integer] at hs
      by_cases hz : p = .char '0'
      · exact ⟨'0', hz, by decide⟩
      · rw [if_neg hz] at hs
        by_cases hd : (digits (p :: r)).1 = []
        · rw [if_pos hd] at hs
          cases hs
        · exact digits_head hd
  cases s with
  | nil => cases hint
  | cons p r =>
    simp only [sign] at hint
    by_cases hm : p = .char '-'
    · rw [if_pos hm] at hint
      obtain ⟨q, r', rfl, hq⟩ := hhead r hint
      exact Or.inr ⟨q, r', by rw [hm], hq⟩
    · rw [if_neg hm, if_neg (by simp)] at hint
      exact Or.inl (hhead (p :: r) hint)

/-- No literal is a beginning of another one, or begins as a number does. -/
theorem literal_spec : ∀ w ∈ literals, (∀ w' ∈ literals, (ofString w).isPrefixOf (ofString w') = true → w = w') ∧
    ∃ p q r, ofString w = p :: q :: r ∧ ¬IsDigit p ∧ ¬IsDigit q := by
  have hdigit : ∀ {c : Char}, c.isDigit = false → ¬IsDigit (.char c) := by
    rintro c hc ⟨d, hd, hd'⟩
    cases hd
    rw [hc] at hd'
    cases hd'
  intro w hw
  refine ⟨?_, ?_⟩
  · revert w
    decide
  · simp only [literals, List.mem_cons, List.not_mem_nil, or_false] at hw
    rcases hw with rfl | rfl | rfl | rfl | rfl | rfl <;>
      exact ⟨_, _, _, rfl, hdigit (by decide), hdigit (by decide)⟩

theorem literal_append {w : String} (h : literals.find? (fun w => (ofString w).isPrefixOf s) = some w) (t : Str) :
    literals.find? (fun w => (ofString w).isPrefixOf (s ++ t)) = some w ∧
      (s ++ t).drop w.length = s.drop w.length ++ t := by
  have hw : w ∈ literals := List.mem_of_find?_eq_some h
  have hpre : ofString w <+: s := List.isPrefixOf_iff_prefix.mp (by simpa using List.find?_some h)
  have hpre' : ofString w <+: s ++ t := hpre.trans (List.prefix_append s t)
  have hlen : w.length ≤ s.length := by
    have := hpre.length_le
    rwa [ofString, ofChars, List.length_map, String.length_toList] at this
  refine ⟨?_, List.drop_append_of_le_length hlen⟩
  cases hf : literals.find? (fun w => (ofString w).isPrefixOf (s ++ t)) with
  | none =>
    have := List.find?_eq_none.mp hf w hw
    rw [List.isPrefixOf_iff_prefix.mpr hpre'] at this
    exact absurd rfl this
  | some w' =>
    have hw' : w' ∈ literals := List.mem_of_find?_eq_some hf
    have hpre'' : ofString w' <+: s ++ t := List.isPrefixOf_iff_prefix.mp (by simpa using List.find?_some hf)
    rcases List.prefix_or_prefix_of_prefix hpre' hpre'' with hp | hp
    · rw [(literal_spec w hw).1 w' hw' (List.isPrefixOf_iff_prefix.mpr hp)]
    · rw [(literal_spec w' hw').1 w hw (List.isPrefixOf_iff_prefix.mpr hp)]

/-- A number is no literal, whatever follows it. -/
theorem lexeme_literal {text : List Char} (h : lexeme s = some (text, rest)) (t : Str) :
    literals.find? (fun w => (ofString w).isPrefixOf (s ++ t)) = none := by
  refine List.find?_eq_none.mpr fun w hw hpre => ?_
  obtain ⟨p, q, r, hwr, hp, hq⟩ := (literal_spec w hw).2
  rw [hwr, List.isPrefixOf_iff_prefix] at hpre
  rcases lexeme_head h with ⟨p', r', rfl, hd⟩ | ⟨q', r', rfl, hd⟩
  · obtain ⟨rfl, -⟩ := List.cons_prefix_cons.mp hpre
    exact hp hd
  · obtain ⟨-, hpre⟩ := List.cons_prefix_cons.mp hpre
    obtain ⟨rfl, -⟩ := List.cons_prefix_cons.mp hpre
    exact hq hd

theorem scalar_append {x : Doc ν} (h : scalar N s = .ok (x, rest)) (hr : Ends rest) (t : Str) :
    scalar N (s ++ t) = .ok (x, rest ++ t) := by
  unfold scalar at h ⊢
  cases hw : literals.find? (fun w => (ofString w).isPrefixOf s) with
  | some w =>
    rw [hw] at h
    obtain ⟨hw', hdrop⟩ := literal_append hw t
    obtain ⟨y, hy, he⟩ := bind_ok.mp h
    cases he
    rw [hw']
    dsimp only
    rw [hdrop, hy]
    rfl
  | none =>
    rw [hw] at h
    dsimp only at h
    cases hl : lexeme s with
    | none => rw [hl] at h; cases h
    | some r =>
      obtain ⟨text, rest'⟩ := r
      rw [hl] at h
      obtain ⟨y, hy, he⟩ := bind_ok.mp h
      cases he
      rw [lexeme_literal hl t, lexeme_append hl hr t]
      dsimp only
      rw [hy]
      rfl

/-! ### Ends -/

/-- A string, an array or an object, which has an end of its own. -/
def Closed (s : Str) : Prop := ∃ c r, s = .char c :: r ∧ (c = '"' ∨ c = '[' ∨ c = '\x7b')

theorem ends_of_expect {c : Char} (hc : c ≠ '.' ∧ c ≠ 'e' ∧ c ≠ 'E') (h : expect c (skip s) = .ok rest) : Ends s := by
  cases s with
  | nil => cases h
  | cons p s =>
    refine ⟨p, s, rfl, ?_⟩
    by_cases hp : isBlank p = true
    · refine ⟨?_, ?_, ?_⟩ <;> rintro rfl <;> revert hp <;> decide
    · rw [skip, List.dropWhile_cons_of_neg hp] at h
      by_cases he : p = .char c
      · subst he
        simpa using hc
      · rw [expect, if_neg he] at h
        cases h

end Append

/-! ### Documents -/

section Documents

variable {depth fuel : ℕ} {s rest : Str}

/-- The forms of a value. -/
inductive ValueForm (N : Numbers ν) (depth fuel : ℕ) : Str → Doc ν → Str → Prop
  | str {body x rest : Str} (h : stringBody body = .ok (x, rest)) :
    ValueForm N depth fuel (.char '"' :: body) (.str x) rest
  | arrNil {body rest : Str} {d : ℕ} (hd : depth = d + 1) (h : expect ']' (skip body) = .ok rest) :
    ValueForm N depth fuel (.char '[' :: body) (.arr []) rest
  | arr {body rest : Str} {d : ℕ} {e : Failure} {xs : List (Doc ν)} (hd : depth = d + 1)
    (hne : expect ']' (skip body) = .error e) (h : elements N d fuel (skip body) = .ok (xs, rest)) :
    ValueForm N depth fuel (.char '[' :: body) (.arr xs) rest
  | objNil {body rest : Str} {d : ℕ} (hd : depth = d + 1) (h : expect '\x7d' (skip body) = .ok rest) :
    ValueForm N depth fuel (.char '\x7b' :: body) (.obj []) rest
  | obj {body rest : Str} {d : ℕ} {e : Failure} {es : List (Str × Doc ν)} (hd : depth = d + 1)
    (hne : expect '\x7d' (skip body) = .error e) (h : members N d fuel (skip body) = .ok (es, rest)) :
    ValueForm N depth fuel (.char '\x7b' :: body) (.obj (dictOf es)) rest
  | scalar {s rest : Str} {x : Doc ν} (hs : ∀ p r, s = p :: r → p ≠ .char '"' ∧ p ≠ .char '[' ∧ p ≠ .char '\x7b')
    (hne : s ≠ []) (h : scalar N s = .ok (x, rest)) : ValueForm N depth fuel s x rest

theorem value_iff {x : Doc ν} : value N depth (fuel + 1) s = .ok (x, rest) ↔ ValueForm N depth fuel s x rest := by
  constructor
  · intro h
    cases s with
    | nil => cases h
    | cons p body =>
      rw [value.eq_def] at h
      dsimp only at h
      by_cases hq : p = .char '"'
      · rw [if_pos hq] at h
        obtain ⟨⟨y, r⟩, hy, he⟩ := bind_ok.mp h
        cases he
        rw [hq]
        exact .str hy
      · rw [if_neg hq] at h
        by_cases ha : p = .char '['
        · rw [if_pos ha] at h
          subst ha
          cases depth with
          | zero => cases h
          | succ d =>
            dsimp only at h
            cases hx : expect ']' (skip body) with
            | ok r => rw [hx] at h; cases h; exact .arrNil rfl hx
            | error e =>
              rw [hx] at h
              obtain ⟨⟨xs, r⟩, hy, he⟩ := bind_ok.mp h
              cases he
              exact .arr rfl hx hy
        · rw [if_neg ha] at h
          by_cases ho : p = .char '\x7b'
          · rw [if_pos ho] at h
            subst ho
            cases depth with
            | zero => cases h
            | succ d =>
              dsimp only at h
              cases hx : expect '\x7d' (skip body) with
              | ok r => rw [hx] at h; cases h; exact .objNil rfl hx
              | error e =>
                rw [hx] at h
                obtain ⟨⟨es, r⟩, hy, he⟩ := bind_ok.mp h
                cases he
                exact .obj rfl hx hy
          · rw [if_neg ho] at h
            exact .scalar (fun q r he => by cases he; exact ⟨hq, ha, ho⟩) (List.cons_ne_nil _ _) h
  · intro h
    cases h with
    | str h =>
      rw [value.eq_def]
      dsimp only
      rw [if_pos rfl, h]
      rfl
    | arrNil hd h =>
      subst hd
      rw [value.eq_def]
      dsimp only
      rw [if_neg (by simp), if_pos rfl, h]
    | arr hd hne h =>
      subst hd
      rw [value.eq_def]
      dsimp only
      rw [if_neg (by simp), if_pos rfl, hne, h]
      rfl
    | objNil hd h =>
      subst hd
      rw [value.eq_def]
      dsimp only
      rw [if_neg (by simp), if_neg (by simp), if_pos rfl, h]
    | obj hd hne h =>
      subst hd
      rw [value.eq_def]
      dsimp only
      rw [if_neg (by simp), if_neg (by simp), if_pos rfl, hne, h]
      rfl
    | scalar hs hne h =>
      cases s with
      | nil => exact absurd rfl hne
      | cons p r =>
        obtain ⟨hq, ha, ho⟩ := hs p r rfl
        rw [value.eq_def]
        dsimp only
        rw [if_neg hq, if_neg ha, if_neg ho]
        exact h

theorem elements_iff {xs : List (Doc ν)} : elements N depth (fuel + 1) s = .ok (xs, rest) ↔
    ∃ x s₁, value N depth fuel s = .ok (x, s₁) ∧
      ((∃ s₂ xs', expect ',' (skip s₁) = .ok s₂ ∧ elements N depth fuel (skip s₂) = .ok (xs', rest) ∧ xs = x :: xs') ∨
        (∃ e, expect ',' (skip s₁) = .error e) ∧ expect ']' (skip s₁) = .ok rest ∧ xs = [x]) := by
  rw [elements]
  constructor
  · intro h
    obtain ⟨⟨x, s₁⟩, hx, h⟩ := bind_ok.mp h
    refine ⟨x, s₁, hx, ?_⟩
    dsimp only at h
    cases hc : expect ',' (skip s₁) with
    | ok s₂ =>
      rw [hc] at h
      obtain ⟨⟨xs', r⟩, hxs, he⟩ := bind_ok.mp h
      cases he
      exact Or.inl ⟨s₂, xs', rfl, hxs, rfl⟩
    | error e =>
      rw [hc] at h
      obtain ⟨r, hr, he⟩ := bind_ok.mp h
      cases he
      exact Or.inr ⟨⟨e, rfl⟩, hr, rfl⟩
  · rintro ⟨x, s₁, hx, ⟨s₂, xs', hc, hxs, rfl⟩ | ⟨⟨e, hc⟩, hr, rfl⟩⟩
    · refine bind_ok.mpr ⟨_, hx, ?_⟩
      dsimp only
      rw [hc]
      exact bind_ok.mpr ⟨_, hxs, rfl⟩
    · refine bind_ok.mpr ⟨_, hx, ?_⟩
      dsimp only
      rw [hc]
      exact bind_ok.mpr ⟨_, hr, rfl⟩

theorem members_iff {es : List (Str × Doc ν)} : members N depth (fuel + 1) s = .ok (es, rest) ↔
    ∃ k v s₁ s₂ s₃ s₄, expect '"' s = .ok s₁ ∧ stringBody s₁ = .ok (k, s₂) ∧ expect ':' (skip s₂) = .ok s₃ ∧
      value N depth fuel (skip s₃) = .ok (v, s₄) ∧
      ((∃ s₅ es', expect ',' (skip s₄) = .ok s₅ ∧ members N depth fuel (skip s₅) = .ok (es', rest) ∧
          es = (k, v) :: es') ∨
        (∃ e, expect ',' (skip s₄) = .error e) ∧ expect '\x7d' (skip s₄) = .ok rest ∧ es = [(k, v)]) := by
  rw [members]
  constructor
  · intro h
    obtain ⟨s₁, hq, h⟩ := bind_ok.mp h
    obtain ⟨⟨k, s₂⟩, hk, h⟩ := bind_ok.mp h
    obtain ⟨s₃, hcolon, h⟩ := bind_ok.mp h
    obtain ⟨⟨v, s₄⟩, hv, h⟩ := bind_ok.mp h
    refine ⟨k, v, s₁, s₂, s₃, s₄, hq, hk, hcolon, hv, ?_⟩
    dsimp only at h
    cases hc : expect ',' (skip s₄) with
    | ok s₅ =>
      rw [hc] at h
      obtain ⟨⟨es', r⟩, hes, he⟩ := bind_ok.mp h
      cases he
      exact Or.inl ⟨s₅, es', rfl, hes, rfl⟩
    | error e =>
      rw [hc] at h
      obtain ⟨r, hr, he⟩ := bind_ok.mp h
      cases he
      exact Or.inr ⟨⟨e, rfl⟩, hr, rfl⟩
  · rintro ⟨k, v, s₁, s₂, s₃, s₄, hq, hk, hcolon, hv, hlast⟩
    refine bind_ok.mpr ⟨_, hq, bind_ok.mpr ⟨_, hk, bind_ok.mpr ⟨_, hcolon, bind_ok.mpr ⟨_, hv, ?_⟩⟩⟩⟩
    dsimp only
    rcases hlast with ⟨s₅, es', hc, hes, rfl⟩ | ⟨⟨e, hc⟩, hr, rfl⟩
    · rw [hc]
      exact bind_ok.mpr ⟨_, hes, rfl⟩
    · rw [hc]
      exact bind_ok.mpr ⟨_, hr, rfl⟩

theorem value_nil : value N depth fuel [] = .error .value := by
  cases fuel <;> rfl

theorem elements_nil : elements N depth fuel [] = .error .value := by
  cases fuel with
  | zero => rfl
  | succ fuel =>
    rw [elements, value_nil]
    rfl

theorem members_nil : members N depth fuel [] = .error .value := by
  cases fuel <;> rfl

/-- With this much fuel, what is read stays so before any other text. -/
structure Stable (N : Numbers ν) (fuel : ℕ) : Prop where
  value : ∀ {depth s x rest}, value N depth fuel s = .ok (x, rest) → Closed s ∨ Ends rest →
    ∀ t, value N depth fuel (s ++ t) = .ok (x, rest ++ t)
  elements : ∀ {depth s xs rest}, elements N depth fuel s = .ok (xs, rest) →
    ∀ t, elements N depth fuel (s ++ t) = .ok (xs, rest ++ t)
  members : ∀ {depth s es rest}, members N depth fuel s = .ok (es, rest) →
    ∀ t, members N depth fuel (s ++ t) = .ok (es, rest ++ t)

theorem stable : ∀ fuel, Stable N fuel
  | 0 => ⟨fun h => (by cases h), fun h => (by cases h), fun h => (by cases h)⟩
  | fuel + 1 => by
    have ih := stable fuel
    refine ⟨fun {depth s x rest} h hend t => ?_, fun {depth s xs rest} h t => ?_, fun {depth s es rest} h t => ?_⟩
    · rw [value_iff] at h ⊢
      cases h with
      | str h => exact .str (stringBody_append h t)
      | @arrNil body _ d hd h =>
        refine .arrNil hd (?_ : expect ']' (skip (body ++ t)) = _)
        rw [skip_append (expect_ne_nil h)]
        exact expect_append h t
      | @arr body _ d e xs hd hne h =>
        have hs : skip body ≠ [] := by
          intro hnil
          rw [hnil, elements_nil] at h
          cases h
        have happ : skip (body ++ t) = skip body ++ t := skip_append hs t
        refine .arr hd (?_ : expect ']' (skip (body ++ t)) = .error .value)
          (?_ : elements N d fuel (skip (body ++ t)) = _)
        · rw [happ]
          exact expect_error_append hne hs t
        · rw [happ]
          exact ih.elements h t
      | @objNil body _ d hd h =>
        refine .objNil hd (?_ : expect '\x7d' (skip (body ++ t)) = _)
        rw [skip_append (expect_ne_nil h)]
        exact expect_append h t
      | @obj body _ d e es hd hne h =>
        have hs : skip body ≠ [] := by
          intro hnil
          rw [hnil, members_nil] at h
          cases h
        have happ : skip (body ++ t) = skip body ++ t := skip_append hs t
        refine .obj hd (?_ : expect '\x7d' (skip (body ++ t)) = .error .value)
          (?_ : members N d fuel (skip (body ++ t)) = _)
        · rw [happ]
          exact expect_error_append hne hs t
        · rw [happ]
          exact ih.members h t
      | scalar hs hne h =>
        have hends : Ends rest := by
          refine hend.resolve_left ?_
          rintro ⟨c, r, rfl, hc⟩
          obtain ⟨h₁, h₂, h₃⟩ := hs _ _ rfl
          rcases hc with rfl | rfl | rfl
          · exact h₁ rfl
          · exact h₂ rfl
          · exact h₃ rfl
        refine .scalar (fun p r he => ?_) (by simp [hne]) (scalar_append h hends t)
        cases s with
        | nil => exact absurd rfl hne
        | cons q r' =>
          cases he
          exact hs _ _ rfl
    · rw [elements_iff] at h ⊢
      obtain ⟨x, s₁, hx, ⟨s₂, xs', hc, hxs, rfl⟩ | ⟨⟨e, hc⟩, hr, rfl⟩⟩ := h
      · have hs₂ : skip s₂ ≠ [] := fun hnil => by
          rw [hnil, elements_nil] at hxs
          cases hxs
        refine ⟨x, s₁ ++ t, ih.value hx (Or.inr (ends_of_expect (by decide) hc)) t, Or.inl ⟨s₂ ++ t, xs', ?_, ?_, rfl⟩⟩
        · rw [skip_append (expect_ne_nil hc)]
          exact expect_append hc t
        · rw [skip_append hs₂]
          exact ih.elements hxs t
      · refine ⟨x, s₁ ++ t, ih.value hx (Or.inr (ends_of_expect (by decide) hr)) t, Or.inr ⟨⟨.value, ?_⟩, ?_, rfl⟩⟩
        · rw [skip_append (expect_ne_nil hr)]
          exact expect_error_append hc (expect_ne_nil hr) t
        · rw [skip_append (expect_ne_nil hr)]
          exact expect_append hr t
    · rw [members_iff] at h ⊢
      obtain ⟨k, v, s₁, s₂, s₃, s₄, hq, hk, hcolon, hv, hlast⟩ := h
      have hs₃ : skip s₃ ≠ [] := fun hnil => by
        rw [hnil, value_nil] at hv
        cases hv
      have colon : expect ':' (skip (s₂ ++ t)) = .ok (s₃ ++ t) := by
        rw [skip_append (expect_ne_nil hcolon)]
        exact expect_append hcolon t
      have val : Ends s₄ → value N depth fuel (skip (s₃ ++ t)) = .ok (v, s₄ ++ t) := fun hends => by
        rw [skip_append hs₃]
        exact ih.value hv (Or.inr hends) t
      refine ⟨k, v, s₁ ++ t, s₂ ++ t, s₃ ++ t, s₄ ++ t, expect_append hq t, stringBody_append hk t, colon, ?_⟩
      rcases hlast with ⟨s₅, es', hc, hes, rfl⟩ | ⟨⟨e, hc⟩, hr, rfl⟩
      · have hs₅ : skip s₅ ≠ [] := fun hnil => by
          rw [hnil, members_nil] at hes
          cases hes
        refine ⟨val (ends_of_expect (by decide) hc), Or.inl ⟨s₅ ++ t, es', ?_, ?_, rfl⟩⟩
        · rw [skip_append (expect_ne_nil hc)]
          exact expect_append hc t
        · rw [skip_append hs₅]
          exact ih.members hes t
      · refine ⟨val (ends_of_expect (by decide) hr), Or.inr ⟨⟨.value, ?_⟩, ?_, rfl⟩⟩
        · rw [skip_append (expect_ne_nil hr)]
          exact expect_error_append hc (expect_ne_nil hr) t
        · rw [skip_append (expect_ne_nil hr)]
          exact expect_append hr t

end Documents

end Text.Json
