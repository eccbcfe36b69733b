import Bekaa3D.Text.JsonStable
import Mathlib.Data.List.TakeWhile

/-!
# Text.JsonWhole — whole texts

* `deep`: a text that is nested too deep is so before any other text.
* `shrinks`, `value_fuel`: what is read is taken away from the text, and twice its length is fuel enough.
* `parse_append`: a text of an array or an object is no proper beginning of another such text.
* `parse_recursion`: a beginning of a text is nested no deeper.
-/

namespace Text.Json

variable {ν : Type} {N : Numbers ν}

section Documents

variable {depth fuel : ℕ} {s rest : Str}

/-! ## Nesting -/

theorem bind_error {ε α β : Type} {x : Except ε α} {f : α → Except ε β} {e : ε} :
    (x >>= f) = .error e ↔ x = .error e ∨ ∃ a, x = .ok a ∧ f a = .error e := by
  cases x with
  | error e' => exact ⟨fun h => Or.inl (by cases h; rfl), fun h => h.elim (fun h => by cases h; rfl) fun ⟨_, h, _⟩ => (by cases h)⟩
  | ok a => exact ⟨fun h => Or.inr ⟨a, rfl, h⟩, fun h => h.elim (fun h => (by cases h)) fun ⟨_, h, h'⟩ => by cases h; exact h'⟩

theorem stringBody_error {e : Failure} (h : stringBody s = .error e) : e = .value := by
  unfold stringBody at h
  cases hp : pieces s with
  | none => rw [hp] at h; cases h; rfl
  | some r => rw [hp] at h; cases h

theorem expect_error {c : Char} {e : Failure} (h : expect c s = .error e) : e = .value := by
  cases s with
  | nil => cases h; rfl
  | cons p s =>
    by_cases hp : p = .char c
    · rw [expect, if_pos hp] at h
      cases h
    · rw [expect, if_neg hp] at h
      cases h
      rfl

theorem number_error {text : List Char} {e : Failure} (h : number N text = .error e) : e = .value := by
  unfold number at h
  cases hr : N.read text with
  | none => rw [hr] at h; cases h; rfl
  | some x => rw [hr] at h; cases h

theorem scalar_error {e : Failure} (h : scalar N s = .error e) : e = .value := by
  unfold scalar at h
  cases hw : literals.find? (fun w => (ofString w).isPrefixOf s) with
  | some w =>
    rw [hw] at h
    rcases bind_error.mp h with h | ⟨x, -, h⟩
    · unfold literalValue at h
      split at h
      · cases h
      · split at h
        · cases h
        · split at h
          · cases h
          · exact number_error h
    · cases h
  | none =>
    rw [hw] at h
    dsimp only at h
    cases hl : lexeme s with
    | none => rw [hl] at h; cases h; rfl
    | some r =>
      rw [hl] at h
      rcases bind_error.mp h with h | ⟨x, -, h⟩
      · exact number_error h
      · cases h

/-- With this much fuel, a text that is nested too deep is so before any other text. -/
structure Deep (N : Numbers ν) (fuel : ℕ) : Prop where
  value : ∀ {depth s}, value N depth fuel s = .error .recursion →
    ∀ t, value N depth fuel (s ++ t) = .error .recursion
  elements : ∀ {depth s}, elements N depth fuel s = .error .recursion →
    ∀ t, elements N depth fuel (s ++ t) = .error .recursion
  members : ∀ {depth s}, members N depth fuel s = .error .recursion →
    ∀ t, members N depth fuel (s ++ t) = .error .recursion

theorem deep : ∀ fuel, Deep N fuel
  | 0 => ⟨fun h => (by cases h), fun h => (by cases h), fun h => (by cases h)⟩
  | fuel + 1 => by
    have ih : Deep N fuel := deep fuel
    refine ⟨fun {depth s} h t => ?_, fun {depth s} h t => ?_, fun {depth s} h t => ?_⟩
    · cases s with
      | nil => cases h
      | cons p body =>
        rw [value.eq_def] at h
        rw [List.cons_append, value.eq_def]
        dsimp only at h ⊢
        by_cases hq : p = .char '"'
        · rw [if_pos hq] at h
          rcases bind_error.mp h with h | ⟨r, -, h⟩
          · cases stringBody_error h
          · cases h
        · rw [if_neg hq] at h ⊢
          by_cases ha : p = .char '['
          · rw [if_pos ha] at h ⊢
            cases depth with
            | zero => rfl
            | succ d =>
              dsimp only at h ⊢
              cases hx : expect ']' (skip body) with
              | ok r => rw [hx] at h; cases h
              | error e =>
                rw [hx] at h
                rcases bind_error.mp h with h | ⟨r, -, h⟩
                · have hs : skip body ≠ [] := fun hnil => by
                    rw [hnil, elements_nil] at h
                    cases h
                  rw [skip_append hs, expect_error_append hx hs t]
                  exact bind_error.mpr (Or.inl (ih.elements h t))
                · cases h
          · rw [if_neg ha] at h ⊢
            by_cases ho : p = .char '\x7b'
            · rw [if_pos ho] at h ⊢
              cases depth with
              | zero => rfl
              | succ d =>
                dsimp only at h ⊢
                cases hx : expect '\x7d' (skip body) with
                | ok r => rw [hx] at h; cases h
                | error e =>
                  rw [hx] at h
                  rcases bind_error.mp h with h | ⟨r, -, h⟩
                  · have hs : skip body ≠ [] := fun hnil => by
                      rw [hnil, members_nil] at h
                      cases h
                    rw [skip_append hs, expect_error_append hx hs t]
                    exact bind_error.mpr (Or.inl (ih.members h t))
                  · cases h
            · rw [if_neg ho] at h
              cases scalar_error h
    · rw [elements] at h ⊢
      rcases bind_error.mp h with h | ⟨⟨x, s₁⟩, hx, h⟩
      · exact bind_error.mpr (Or.inl (ih.value h t))
      · dsimp only at h
        cases hc : expect ',' (skip s₁) with
        | error e =>
          rw [hc] at h
          rcases bind_error.mp h with h | ⟨r, -, h⟩
          · cases expect_error h
          · cases h
        | ok s₂ =>
          rw [hc] at h
          rcases bind_error.mp h with h | ⟨r, -, h⟩
          · have hs₂ : skip s₂ ≠ [] := fun hnil => by
              rw [hnil, elements_nil] at h
              cases h
            have hvalue := (stable fuel).value hx (Or.inr (ends_of_expect (by decide) hc)) t
            refine bind_error.mpr (Or.inr ⟨_, hvalue, ?_⟩)
            dsimp only
            rw [skip_append (expect_ne_nil hc), expect_append hc t]
            dsimp only
            rw [skip_append hs₂]
            exact bind_error.mpr (Or.inl (ih.elements h t))
          · cases h
    · rw [members] at h ⊢
      rcases bind_error.mp h with h | ⟨s₁, hq, h⟩
      · cases expect_error h
      refine bind_error.mpr (Or.inr ⟨_, expect_append hq t, ?_⟩)
      rcases bind_error.mp h with h | ⟨⟨k, s₂⟩, hk, h⟩
      · cases stringBody_error h
      refine bind_error.mpr (Or.inr ⟨_, stringBody_append hk t, ?_⟩)
      dsimp only at h ⊢
      rcases bind_error.mp h with h | ⟨s₃, hcolon, h⟩
      · cases expect_error h
      refine bind_error.mpr (Or.inr ⟨s₃ ++ t, ?_, ?_⟩)
      · rw [skip_append (expect_ne_nil hcolon)]
        exact expect_append hcolon t
      rcases bind_error.mp h with h | ⟨⟨v, s₄⟩, hv, h⟩
      · have hs₃ : skip s₃ ≠ [] := fun hnil => by
          rw [hnil, value_nil] at h
          cases h
        rw [skip_append hs₃]
        exact bind_error.mpr (Or.inl (ih.value h t))
      · have hs₃ : skip s₃ ≠ [] := fun hnil => by
          rw [hnil, value_nil] at hv
          cases hv
        dsimp only at h
        cases hc : expect ',' (skip s₄) with
        | error e =>
          rw [hc] at h
          rcases bind_error.mp h with h | ⟨r, -, h⟩
          · cases expect_error h
          · cases h
        | ok s₅ =>
          rw [hc] at h
          rcases bind_error.mp h with h | ⟨r, -, h⟩
          · have hs₅ : skip s₅ ≠ [] := fun hnil => by
              rw [hnil, members_nil] at h
              cases h
            have hvalue := (stable fuel).value hv (Or.inr (ends_of_expect (by decide) hc)) t
            rw [skip_append hs₃]
            refine bind_error.mpr (Or.inr ⟨_, hvalue, ?_⟩)
            dsimp only
            rw [skip_append (expect_ne_nil hc), expect_append hc t]
            dsimp only
            rw [skip_append hs₅]
            exact bind_error.mpr (Or.inl (ih.members h t))
          · cases h

/-! ## What is left -/

/-- What is read is taken away from the beginning. -/
theorem pieces_suffix {ps : List Piece} (h : pieces s = some (ps, rest)) : rest <:+ s := by
  fun_induction pieces s generalizing ps with
  | case1 => cases h
  | case2 body =>
    cases h
    exact List.suffix_cons _ _
  | case3 => cases h
  | case4 a b c d body hq ih =>
    obtain ⟨n, hn, h⟩ := Option.bind_eq_some_iff.mp h
    obtain ⟨⟨ps', rest'⟩, hr, h⟩ := Option.bind_eq_some_iff.mp h
    cases h
    exact (ih hr).trans (List.suffix_append [_, _, a, b, c, d] body)
  | case5 => cases h
  | case6 q body hu hq ih =>
    obtain ⟨c, hc, h⟩ := Option.bind_eq_some_iff.mp h
    obtain ⟨⟨ps', rest'⟩, hr, h⟩ := Option.bind_eq_some_iff.mp h
    cases h
    exact (ih hr).trans (List.suffix_append [_, q] body)
  | case7 => cases h
  | case8 p body hq hb hlow ih =>
    obtain ⟨⟨ps', rest'⟩, hr, h⟩ := Option.bind_eq_some_iff.mp h
    cases h
    exact (ih hr).trans (List.suffix_cons p body)

theorem stringBody_suffix {x : Str} (h : stringBody s = .ok (x, rest)) : rest <:+ s := by
  unfold stringBody at h
  cases hp : pieces s with
  | none => rw [hp] at h; cases h
  | some r =>
    obtain ⟨ps, rest'⟩ := r
    rw [hp] at h
    cases h
    exact pieces_suffix hp

theorem skip_suffix (s : Str) : skip s <:+ s := List.dropWhile_suffix _

theorem expect_suffix {c : Char} (h : expect c s = .ok rest) : ∃ p, s = p :: rest := by
  cases s with
  | nil => cases h
  | cons p s =>
    by_cases hp : p = .char c
    · rw [expect, if_pos hp] at h
      cases h
      exact ⟨p, rfl⟩
    · rw [expect, if_neg hp] at h
      cases h

theorem digits_suffix (s : Str) : (digits s).2 <:+ s := by
  induction s with
  | nil => exact List.suffix_refl _
  | cons p s ih =>
    cases p with
    | surrogate n => exact List.suffix_refl _
    | char c =>
      rw [digits]
      split
      · exact ih.trans (List.suffix_cons _ s)
      · exact List.suffix_refl _

theorem sign_suffix (plus : Bool) (s : Str) : (sign plus s).2 <:+ s := by
  cases s with
  | nil => exact List.suffix_refl _
  | cons p s =>
    simp only [sign]
    split
    · exact List.suffix_cons p s
    · split
      · exact List.suffix_cons p s
      · exact List.suffix_refl _

theorem fraction_suffix (s : Str) : (fraction s).2 <:+ s := by
  cases s with
  | nil => exact List.suffix_refl _
  | cons p s =>
    simp only [fraction]
    split
    · exact (digits_suffix s).trans (List.suffix_cons p s)
    · exact List.suffix_refl _

theorem exponent_suffix (s : Str) : (exponent s).2 <:+ s := by
  cases s with
  | nil => exact List.suffix_refl _
  | cons p s =>
    have hdigits : (digits (sign true s).2).2 <:+ p :: s :=
      (digits_suffix _).trans ((sign_suffix true s).trans (List.suffix_cons p s))
    simp only [exponent]
    split
    · exact hdigits
    · split
      · exact hdigits
      · exact List.suffix_refl _

theorem integer_suffix {int : List Char} (h : integer s = some (int, rest)) : rest <:+ s := by
  cases s with
  | nil => cases h
  | cons p s =>
    simp only [integer] at h
    by_cases hz : p = .char '0'
    · rw [if_pos hz] at h
      cases h
      exact List.suffix_cons p _
    · rw [if_neg hz] at h
      by_cases hd : (digits (p :: s)).1 = []
      · rw [if_pos hd] at h
        cases h
      · rw [if_neg hd] at h
        have hsuf := digits_suffix (p :: s)
        rwa [Option.some.inj h] at hsuf

theorem lexeme_suffix {text : List Char} (h : lexeme s = some (text, rest)) : rest <:+ s := by
  rw [lexeme_eq] at h
  obtain ⟨⟨int, s₁⟩, hint, he⟩ := Option.map_eq_some_iff.mp h
  cases he
  exact (exponent_suffix _).trans ((fraction_suffix s₁).trans ((integer_suffix hint).trans (sign_suffix false s)))

theorem scalar_suffix {x : Doc ν} (h : scalar N s = .ok (x, rest)) : rest <:+ s := by
  unfold scalar at h
  cases hw : literals.find? (fun w => (ofString w).isPrefixOf s) with
  | some w =>
    rw [hw] at h
    obtain ⟨y, hy, he⟩ := bind_ok.mp h
    cases he
    exact List.drop_suffix _ s
  | none =>
    rw [hw] at h
    dsimp only at h
    cases hl : lexeme s with
    | none => rw [hl] at h; cases h
    | some r =>
      obtain ⟨text, rest'⟩ := r
      rw [hl] at h
      obtain ⟨y, hy, he⟩ := bind_ok.mp h
      cases he
      exact lexeme_suffix hl

/-! ## Fuel -/

/-- Nothing is read that is not there. -/
structure Shrinks (N : Numbers ν) (fuel : ℕ) : Prop where
  value : ∀ {depth s x rest}, value N depth fuel s = .ok (x, rest) → rest <:+ s
  elements : ∀ {depth s xs rest}, elements N depth fuel s = .ok (xs, rest) → rest <:+ s
  members : ∀ {depth s es rest}, members N depth fuel s = .ok (es, rest) → rest <:+ s

theorem expect_skip_suffix {c : Char} (h : expect c (skip s) = .ok rest) : rest <:+ s := by
  obtain ⟨p, hp⟩ := expect_suffix h
  exact (List.suffix_cons p rest).trans (hp ▸ skip_suffix s)

theorem shrinks : ∀ fuel, Shrinks N fuel
  | 0 => ⟨fun h => (by cases h), fun h => (by cases h), fun h => (by cases h)⟩
  | fuel + 1 => by
    have ih : Shrinks N fuel := shrinks fuel
    refine ⟨fun {depth s x rest} h => ?_, fun {depth s xs rest} h => ?_, fun {depth s es rest} h => ?_⟩
    · rw [value_iff] at h
      cases h with
      | str h => exact (stringBody_suffix h).trans (List.suffix_cons _ _)
      | arrNil hd h => exact (expect_skip_suffix h).trans (List.suffix_cons _ _)
      | arr hd hne h => exact (ih.elements h).trans ((skip_suffix _).trans (List.suffix_cons _ _))
      | objNil hd h => exact (expect_skip_suffix h).trans (List.suffix_cons _ _)
      | obj hd hne h => exact (ih.members h).trans ((skip_suffix _).trans (List.suffix_cons _ _))
      | scalar hs hne h => exact scalar_suffix h
    · obtain ⟨x, s₁, hx, ⟨s₂, xs', hc, hxs, rfl⟩ | ⟨-, hr, rfl⟩⟩ := elements_iff.mp h
      · have hafter : rest <:+ s₁ := (ih.elements hxs).trans ((skip_suffix s₂).trans (expect_skip_suffix hc))
        exact hafter.trans (ih.value hx)
      · exact (expect_skip_suffix hr).trans (ih.value hx)
    · obtain ⟨k, v, s₁, s₂, s₃, s₄, hq, hk, hcolon, hv, hlast⟩ := members_iff.mp h
      obtain ⟨p, rfl⟩ := expect_suffix hq
      have hvalue : s₄ <:+ p :: s₁ := (ih.value hv).trans ((skip_suffix s₃).trans ((expect_skip_suffix hcolon).trans
        ((stringBody_suffix hk).trans (List.suffix_cons p s₁))))
      rcases hlast with ⟨s₅, es', hc, hes, rfl⟩ | ⟨-, hr, rfl⟩
      · have hafter : rest <:+ s₄ := (ih.members hes).trans ((skip_suffix s₅).trans (expect_skip_suffix hc))
        exact hafter.trans hvalue
      · exact (expect_skip_suffix hr).trans hvalue

/-- Fuel above these bounds makes no difference. -/
structure Fueled (N : Numbers ν) (fuel : ℕ) : Prop where
  value : ∀ {depth s} fuel', 2 * s.length < fuel → 2 * s.length < fuel' →
    value N depth fuel s = value N depth fuel' s
  elements : ∀ {depth s} fuel', 2 * s.length + 1 < fuel → 2 * s.length + 1 < fuel' →
    elements N depth fuel s = elements N depth fuel' s
  members : ∀ {depth s} fuel', 2 * s.length + 1 < fuel → 2 * s.length + 1 < fuel' →
    members N depth fuel s = members N depth fuel' s

theorem skip_length (s : Str) : (skip s).length ≤ s.length := (skip_suffix s).length_le

theorem expect_skip_length {c : Char} (h : expect c (skip s) = .ok rest) : rest.length < s.length := by
  obtain ⟨p, hp⟩ := expect_suffix h
  have hlen := skip_length s
  rw [hp, List.length_cons] at hlen
  omega

theorem fueled : ∀ fuel, Fueled N fuel
  | 0 => ⟨fun _ h => by omega, fun _ h => by omega, fun _ h => by omega⟩
  | fuel + 1 => by
    have ih : Fueled N fuel := fueled fuel
    refine ⟨fun {depth s} fuel' hf hf' => ?_, fun {depth s} fuel' hf hf' => ?_, fun {depth s} fuel' hf hf' => ?_⟩
    all_goals obtain ⟨fuel', rfl⟩ : ∃ f, fuel' = f + 1 := ⟨fuel' - 1, by omega⟩
    · cases s with
      | nil => rfl
      | cons p rest =>
        rw [List.length_cons] at hf hf'
        have hskip := skip_length rest
        cases depth with
        | zero => rfl
        | succ d =>
          have helements : elements N d fuel (skip rest) = elements N d fuel' (skip rest) :=
            ih.elements fuel' (by omega) (by omega)
          have hmembers : members N d fuel (skip rest) = members N d fuel' (skip rest) :=
            ih.members fuel' (by omega) (by omega)
          rw [value.eq_def, value.eq_def N (d + 1) (fuel' + 1)]
          dsimp only
          rw [helements, hmembers]
    · rw [elements, elements, ih.value fuel' (by omega) (by omega)]
      refine bind_congr_ok ?_
      rintro ⟨x, s₁⟩ hx
      have hs₁ := ((shrinks fuel').value hx).length_le
      dsimp only
      cases hc : expect ',' (skip s₁) with
      | error e => rfl
      | ok s₂ =>
        have hlt := expect_skip_length hc
        have hskip := skip_length s₂
        dsimp only
        rw [ih.elements fuel' (by omega) (by omega)]
    · rw [members, members]
      refine bind_congr_ok fun s₁ hq => bind_congr_ok ?_
      rintro ⟨k, s₂⟩ hk
      refine bind_congr_ok fun s₃ hcolon => ?_
      obtain ⟨p, rfl⟩ := expect_suffix hq
      have hs₂ := (stringBody_suffix hk).length_le
      have hs₃ := expect_skip_length hcolon
      have hskip₃ := skip_length s₃
      rw [List.length_cons] at hf hf'
      rw [ih.value fuel' (by omega) (by omega)]
      refine bind_congr_ok ?_
      rintro ⟨v, s₄⟩ hv
      have hs₄ := ((shrinks fuel').value hv).length_le
      dsimp only
      cases hc : expect ',' (skip s₄) with
      | error e => rfl
      | ok s₅ =>
        have hlt := expect_skip_length hc
        have hskip₅ := skip_length s₅
        dsimp only
        rw [ih.members fuel' (by omega) (by omega)]

/-- Twice the length of a text is fuel enough to read it. -/
theorem value_fuel {fuel' : ℕ} (hf : 2 * s.length < fuel) (hf' : 2 * s.length < fuel') :
    value N depth fuel s = value N depth fuel' s :=
  (fueled fuel).value fuel' hf hf'

end Documents

/-! ## Whole texts -/

section Whole

variable {depth : ℕ} {s : Str} {x : Doc ν}

theorem skip_cons {p : Point} (hp : isBlank p = false) : skip (p :: s) = p :: s := by
  unfold skip
  rw [List.dropWhile_cons_of_neg (by rw [hp]; simp)]

theorem skip_append_nil (h : skip s = []) (t : Str) : skip (s ++ t) = skip t := by
  unfold skip at h ⊢
  exact List.dropWhile_append_of_pos (List.dropWhile_eq_nil_iff.mp h)

/-- A text of an array or an object is followed by blanks only. -/
theorem parse_append (h : parse N depth s = .ok x) (hs : Closed (skip s)) (t : Str) :
    parse N depth (s ++ t) = if skip t = [] then .ok x else .error .value := by
  have hne : skip s ≠ [] := by
    obtain ⟨c, r, hr, -⟩ := hs
    rw [hr]
    exact List.cons_ne_nil _ _
  have hsne : s ≠ [] := by
    rintro rfl
    exact hne rfl
  unfold parse at h ⊢
  rw [List.head?_append_of_ne_nil _ hsne]
  by_cases hbom : s.head? = some (.char (Char.ofNat 0xfeff))
  · rw [if_pos hbom] at h
    cases h
  rw [if_neg hbom] at h ⊢
  have hmore : value N depth (2 * s.length + 1) (skip s) = value N depth (2 * (s ++ t).length + 1) (skip s) := by
    have hlen := skip_length s
    exact value_fuel (by omega) (by rw [List.length_append]; omega)
  cases hv : value N depth (2 * s.length + 1) (skip s) with
  | error e => rw [hv] at h; cases h
  | ok r =>
    obtain ⟨y, rest⟩ := r
    rw [hv] at h
    dsimp only at h
    by_cases hrest : skip rest = []
    · rw [if_pos hrest] at h
      cases h
      rw [skip_append hne t, (stable _).value (hmore.symm.trans hv) (Or.inl hs) t]
      dsimp only
      rw [skip_append_nil hrest]
    · rw [if_neg hrest] at h
      cases h

/-- A beginning of a text is nested no deeper. -/
theorem parse_recursion (h : parse N depth s = .error .recursion) (t : Str) :
    parse N depth (s ++ t) = .error .recursion := by
  unfold parse at h ⊢
  have hskip : skip s ≠ [] := by
    intro hnil
    rw [hnil] at h
    split at h
    · cases h
    · rw [value_nil] at h
      cases h
  have hsne : s ≠ [] := by
    rintro rfl
    exact hskip rfl
  rw [List.head?_append_of_ne_nil _ hsne]
  by_cases hbom : s.head? = some (.char (Char.ofNat 0xfeff))
  · rw [if_pos hbom] at h
    cases h
  rw [if_neg hbom] at h ⊢
  have hmore : value N depth (2 * s.length + 1) (skip s) = value N depth (2 * (s ++ t).length + 1) (skip s) := by
    have hlen := skip_length s
    exact value_fuel (by omega) (by rw [List.length_append]; omega)
  cases hv : value N depth (2 * s.length + 1) (skip s) with
  | ok r =>
    rw [hv] at h
    dsimp only at h
    split at h <;> cases h
  | error e =>
    rw [hv] at h
    cases h
    rw [skip_append hskip t, (deep _).value (hmore.symm.trans hv) t]

end Whole

end Text.Json
