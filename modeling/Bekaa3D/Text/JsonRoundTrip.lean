import Bekaa3D.Text.JsonWhole
import Bekaa3D.Text.JsonKeys

/-!
# Text.JsonRoundTrip — printed documents are read as themselves

* `lexeme_whole`: a text that is one number is read as one, before anything that does not continue it.
* `stringBody_print`: a printed string is read as itself.
* `parse_print`: a printed document is read as itself.
-/

namespace Text.Json

variable {s rest : Str}

/-! ## Numbers -/

/-- What follows does not continue a number. -/
def NoNumber (rest : Str) : Prop :=
  ∀ p r, rest = p :: r → ¬IsDigit p ∧ p ≠ .char '.' ∧ p ≠ .char 'e' ∧ p ≠ .char 'E'

theorem noNumber_nil : NoNumber [] := by
  intro p r h
  cases h

theorem noNumber_cons {c : Char} (hd : c.isDigit = false) (hp : c ≠ '.' ∧ c ≠ 'e' ∧ c ≠ 'E') (r : Str) :
    NoNumber (.char c :: r) := by
  intro p r' h
  cases h
  refine ⟨?_, by simpa using hp⟩
  rintro ⟨d, hcd, hd'⟩
  cases hcd
  rw [hd] at hd'
  cases hd'

theorem digits_none (hr : NoNumber rest) : digits rest = ([], rest) := by
  cases rest with
  | nil => rfl
  | cons p r =>
    cases p with
    | surrogate n => rfl
    | char c =>
      rw [digits, if_neg]
      intro hc
      exact (hr _ r rfl).1 ⟨c, rfl, hc⟩

theorem digits_whole (hr : NoNumber rest) : digits (s ++ rest) = ((digits s).1, (digits s).2 ++ rest) := by
  induction s with
  | nil => exact digits_none hr
  | cons p s ih =>
    cases p with
    | surrogate n => rfl
    | char c =>
      rw [List.cons_append, digits, digits]
      split
      · rw [ih]
      · rfl

theorem exponent_whole (h : (exponent s).2 = []) (hr : NoNumber rest) :
    exponent (s ++ rest) = ((exponent s).1, rest) := by
  cases s with
  | nil =>
    cases rest with
    | nil => rfl
    | cons p r =>
      obtain ⟨-, -, he, hE⟩ := hr p r rfl
      simp only [List.nil_append, exponent]
      rw [if_neg fun hc => he hc.1, if_neg fun hc => hE hc.1]
  | cons p s =>
    simp only [List.cons_append, exponent] at h ⊢
    have hEe : ∀ q : Prop, ¬(Point.char 'E' = .char 'e' ∧ q) := fun q hc => absurd hc.1 (by decide)
    have hs : s ≠ [] → sign true (s ++ rest) = ((sign true s).1, (sign true s).2 ++ rest) :=
      fun hne => sign_append hne rest
    by_cases hc : (p = .char 'e' ∨ p = .char 'E') ∧ (digits (sign true s).2).1 ≠ []
    · have hne : s ≠ [] := by
        rintro rfl
        exact hc.2 rfl
      have hleft : (digits (sign true s).2).2 = [] := by
        obtain ⟨rfl | rfl, hd⟩ := hc
        · rwa [if_pos ⟨rfl, hd⟩] at h
        · rwa [if_neg (hEe _), if_pos ⟨rfl, hd⟩] at h
      rw [hs hne]
      dsimp only
      rw [digits_whole hr, hleft]
      obtain ⟨rfl | rfl, hd⟩ := hc
      · rw [if_pos ⟨rfl, hd⟩, if_pos ⟨rfl, hd⟩]
        rfl
      · rw [if_neg (hEe _), if_neg (hEe _), if_pos ⟨rfl, hd⟩, if_pos ⟨rfl, hd⟩]
        rfl
    · rw [if_neg fun hp => hc ⟨Or.inl hp.1, hp.2⟩, if_neg fun hp => hc ⟨Or.inr hp.1, hp.2⟩] at h
      cases h

/-- What an exponent that is the whole text begins with is no point. -/
theorem exponent_point_whole (h : (exponent s).2 = []) : ∀ p r, s = p :: r → p ≠ .char '.' := by
  rintro p r rfl rfl
  simp only [exponent] at h
  rw [if_neg (by simp), if_neg (by simp)] at h
  cases h

theorem fraction_whole (h : (exponent (fraction s).2).2 = []) (hr : NoNumber rest) :
    fraction (s ++ rest) = ((fraction s).1, (fraction s).2 ++ rest) := by
  by_cases hleft : (fraction s).2 = []
  · cases s with
    | nil =>
      cases rest with
      | nil => rfl
      | cons p r =>
        obtain ⟨-, hp, -⟩ := hr p r rfl
        simp only [List.nil_append, fraction]
        rw [if_neg fun hc => hp hc.1]
    | cons p s =>
      simp only [List.cons_append, fraction] at hleft ⊢
      by_cases hc : p = .char '.' ∧ (digits s).1 ≠ []
      · rw [digits_whole hr, if_pos hc, if_pos hc]
      · rw [if_neg hc] at hleft
        cases hleft
  · exact fraction_append hleft (exponent_point_whole h) rest

theorem integer_whole {int : List Char} {s₁ : Str} (h : integer s = some (int, s₁)) (hr : NoNumber rest) :
    integer (s ++ rest) = some (int, s₁ ++ rest) := by
  cases s with
  | nil => cases h
  | cons p s =>
    simp only [List.cons_append, integer] at h ⊢
    by_cases hz : p = .char '0'
    · rw [if_pos hz] at h ⊢
      cases h
      rfl
    · rw [if_neg hz] at h ⊢
      by_cases hd : (digits (p :: s)).1 = []
      · rw [if_pos hd] at h
        cases h
      · rw [if_neg hd] at h
        have he : digits (p :: s) = (int, s₁) := Option.some.inj h
        have happ : digits (p :: (s ++ rest)) = (int, s₁ ++ rest) := by
          rw [← List.cons_append, digits_whole hr, he]
        rw [happ, if_neg (by rw [he] at hd; exact hd)]

/-- A text that is one number. -/
def Lexeme (text : List Char) : Prop := lexeme (ofChars text) = some (text, [])

instance : DecidablePred Lexeme := fun text => inferInstanceAs (Decidable (lexeme (ofChars text) = some (text, [])))

/-- A number as it is written. -/
structure Numeral where
  text : List Char
  lexeme : Lexeme text

theorem lexeme_whole {text : List Char} (h : Lexeme text) (hr : NoNumber rest) :
    lexeme (ofChars text ++ rest) = some (text, rest) := by
  unfold Lexeme at h
  rw [lexeme_eq] at h ⊢
  obtain ⟨⟨int, s₁⟩, hint, he⟩ := Option.map_eq_some_iff.mp h
  dsimp only at he
  have hexp : (exponent (fraction s₁).2).2 = [] := congrArg Prod.snd he
  have htext : (sign false (ofChars text)).1 ++ int ++ (fraction s₁).1 ++ (exponent (fraction s₁).2).1 = text :=
    congrArg Prod.fst he
  have hne : ofChars text ≠ [] := by
    intro hnil
    rw [hnil] at hint
    cases hint
  rw [sign_append hne, integer_whole hint hr, Option.map_some, fraction_whole hexp hr]
  dsimp only
  rw [exponent_whole hexp hr, htext]

/-! ## Strings -/

theorem hexValue_hexDigit {n : ℕ} (h : n < 16) : hexValue (.char (hexDigit n)) = some n := by
  revert n
  decide

/-- An escape is read as its number. -/
theorem pieces_unicodeEscape {n : ℕ} (h : n < 0x10000) :
    pieces (unicodeEscape n ++ s) = (pieces s).map fun r => (.escaped n :: r.1, r.2) := by
  refine pieces_unicode ?_
  have hd : ∀ k, hexValue (.char (hexDigit (k % 16))) = some (k % 16) := fun k =>
    hexValue_hexDigit (Nat.mod_lt _ (by decide))
  unfold hexValue₄
  rw [hd, hd, hd, hd]
  simp only [Option.bind_eq_bind, Option.bind_some, Option.pure_def, Option.some.injEq]
  omega

/-- The pieces that a code point is written as. -/
def piecesOf (ascii : Bool) : Point → List Piece
  | .surrogate n => if ascii then [.escaped (0xd800 + n)] else [.plain (.surrogate n)]
  | .char c =>
    if c = '"' ∨ c = '\\' ∨ c = '\n' ∨ c = '\r' ∨ c = '\t' ∨ c.toNat = 12 ∨ c.toNat = 8 then [.plain (.char c)]
    else if c.toNat < 0x20 then [.escaped c.toNat]
    else if ascii ∧ 0x7e < c.toNat then
      if c.toNat < 0x10000 then [.escaped c.toNat]
      else [.escaped (highSurrogate c.toNat), .escaped (lowSurrogate c.toNat)]
    else [.plain (.char c)]

theorem toNat_lt (c : Char) : c.toNat < 0x110000 := by
  rcases c.valid with h | h
  · have : c.toNat < 0xd800 := h
    omega
  · have : c.toNat < 0x110000 := h.2
    omega

theorem pieces_letter_self {c : Char} {q : Point} (hq : q ≠ .char 'u') (h : unescape q = some c) :
    pieces (.char '\\' :: q :: s) = (pieces s).map fun r => ([.plain (.char c)] ++ r.1, r.2) :=
  pieces_letter hq h

/-- A code point is read as the pieces it is written as. -/
theorem pieces_escape {ascii : Bool} (p : Point) :
    pieces (escape ascii p ++ s) = (pieces s).map fun r => (piecesOf ascii p ++ r.1, r.2) := by
  cases p with
  | surrogate n =>
    have hn := n.isLt
    simp only [escape, piecesOf]
    by_cases ha : ascii = true
    · rw [if_pos ha, if_pos ha, pieces_unicodeEscape (by omega)]
      rfl
    · rw [if_neg ha, if_neg ha]
      refine pieces_plain (by simp) (by simp) ?_
      simp only [Point.code]
      omega
  | char c =>
    have hlt := toNat_lt c
    simp only [escape, piecesOf]
    by_cases hspecial : c = '"' ∨ c = '\\' ∨ c = '\n' ∨ c = '\r' ∨ c = '\t' ∨ c.toNat = 12 ∨ c.toNat = 8
    · rw [if_pos hspecial]
      rcases hspecial with rfl | rfl | rfl | rfl | rfl | h | h
      · exact pieces_letter_self (by decide) rfl
      · exact pieces_letter_self (by decide) rfl
      · exact pieces_letter_self (by decide) rfl
      · exact pieces_letter_self (by decide) rfl
      · exact pieces_letter_self (by decide) rfl
      · obtain rfl : c = Char.ofNat 12 := by rw [← h, Char.ofNat_toNat]
        exact pieces_letter_self (by decide) rfl
      · obtain rfl : c = Char.ofNat 8 := by rw [← h, Char.ofNat_toNat]
        exact pieces_letter_self (by decide) rfl
    · rw [if_neg hspecial]
      simp only [not_or] at hspecial
      obtain ⟨hquote, hback, hn, hr, ht, hf, hb⟩ := hspecial
      rw [if_neg hquote, if_neg hback, if_neg hn, if_neg hr, if_neg ht, if_neg hf, if_neg hb]
      by_cases hlow : c.toNat < 0x20
      · rw [if_pos hlow, if_pos hlow, pieces_unicodeEscape (by omega)]
        rfl
      · rw [if_neg hlow, if_neg hlow]
        by_cases ha : ascii = true ∧ 0x7e < c.toNat
        · rw [if_pos ha, if_pos ha]
          by_cases hbmp : c.toNat < 0x10000
          · rw [if_pos hbmp, if_pos hbmp, pieces_unicodeEscape hbmp]
            rfl
          · rw [if_neg hbmp, if_neg hbmp, List.append_assoc,
              pieces_unicodeEscape (by unfold highSurrogate; omega),
              pieces_unicodeEscape (by unfold lowSurrogate; omega), Option.map_map]
            rfl
        · rw [if_neg ha, if_neg ha]
          exact pieces_plain (by simpa using hquote) (by simpa using hback) hlow

theorem points_escaped {n : ℕ} (h : ¬(0xd800 ≤ n ∧ n < 0xdc00)) (ps : List Piece) :
    points (.escaped n :: ps) = .ofCode n :: points ps := by
  cases ps with
  | nil => rfl
  | cons q ps =>
    cases q with
    | plain p => rfl
    | escaped m =>
      rw [points]
      exact if_neg fun hc => h hc.1

/-- The pieces that a code point is written as stand for it; a surrogate must not be escaped, lest it find a partner. -/
theorem points_piecesOf {ascii : Bool} {p : Point} (h : ascii = false ∨ ∃ c, p = .char c) (ps : List Piece) :
    points (piecesOf ascii p ++ ps) = p :: points ps := by
  cases p with
  | surrogate n =>
    have ha : ascii = false := h.resolve_right (by simp)
    subst ha
    rfl
  | char c =>
    have hlt := toNat_lt c
    have hvalid : ¬(0xd800 ≤ c.toNat ∧ c.toNat < 0xdc00) := by
      rcases c.valid with hc | hc
      · have : c.toNat < 0xd800 := hc
        omega
      · have : 0xdfff < c.toNat := hc.1
        omega
    simp only [piecesOf]
    split
    · rfl
    · split
      · rw [List.singleton_append, points_escaped hvalid, Point.ofCode_char]
      · split
        · split
          · rw [List.singleton_append, points_escaped hvalid, Point.ofCode_char]
          · rename_i hbmp
            have hcode :
                0x10000 + (highSurrogate c.toNat - 0xd800) * 1024 + (lowSurrogate c.toNat - 0xdc00) = c.toNat := by
              unfold highSurrogate lowSurrogate
              omega
            simp only [List.cons_append, List.nil_append, points]
            rw [if_pos (by unfold highSurrogate lowSurrogate; omega), hcode, Char.ofNat_toNat]
        · rfl

/-- A string that a format writes so that it can be read again. -/
def Writable (ascii : Bool) (s : Str) : Prop := ascii = false ∨ IsText s

theorem stringBody_print {ascii : Bool} {x : Str} (h : Writable ascii x) (rest : Str) :
    stringBody (x.flatMap (escape ascii) ++ .char '"' :: rest) = .ok (x, rest) := by
  have hp : ∀ p ∈ x, ascii = false ∨ ∃ c, p = Point.char c := by
    intro p hp
    rcases h with h | ⟨cs, rfl⟩
    · exact Or.inl h
    · obtain ⟨c, -, rfl⟩ := List.mem_map.mp hp
      exact Or.inr ⟨c, rfl⟩
  have hpieces : pieces (x.flatMap (escape ascii) ++ .char '"' :: rest) = some (x.flatMap (piecesOf ascii), rest) := by
    clear hp h
    induction x with
    | nil => exact pieces_quote
    | cons p x ih => rw [List.flatMap_cons, List.append_assoc, pieces_escape, ih, List.flatMap_cons]; rfl
  have hpoints : points (x.flatMap (piecesOf ascii)) = x := by
    clear hpieces h
    induction x with
    | nil => rfl
    | cons p x ih =>
      rw [List.flatMap_cons, points_piecesOf (hp p List.mem_cons_self),
        ih fun q hq => hp q (List.mem_cons_of_mem p hq)]
  unfold stringBody
  rw [hpieces]
  dsimp only
  rw [hpoints]

/-! ## Documents -/

section Documents

variable {ν : Type} {N : Numbers ν} {text : ν → List Char} {fmt : Format} {depth : ℕ}

/-- A document of at most this nesting that is written so that it can be read again. -/
inductive Readable (N : Numbers ν) (text : ν → List Char) (ascii : Bool) : ℕ → Doc ν → Prop
  | null {depth : ℕ} : Readable N text ascii depth .null
  | bool {depth : ℕ} {b : Bool} : Readable N text ascii depth (.bool b)
  | num {depth : ℕ} {x : ν} (hlex : Lexeme (text x)) (hread : N.read (text x) = some x) :
    Readable N text ascii depth (.num x)
  | str {depth : ℕ} {s : Str} (h : Writable ascii s) : Readable N text ascii depth (.str s)
  | arr {depth : ℕ} {xs : List (Doc ν)} (h : ∀ x ∈ xs, Readable N text ascii depth x) :
    Readable N text ascii (depth + 1) (.arr xs)
  | obj {depth : ℕ} {es : List (Str × Doc ν)} (hkeys : (es.map Prod.fst).Nodup)
    (hwritable : ∀ e ∈ es, Writable ascii e.1) (h : ∀ e ∈ es, Readable N text ascii depth e.2) :
    Readable N text ascii (depth + 1) (.obj es)

/-- What is left of a separator after its character. -/
def Format.gap (fmt : Format) : Str := if fmt.blank then ofChars [' '] else []

theorem separator_eq (c : Char) : fmt.separator c = .char c :: fmt.gap := by
  unfold Format.separator Format.gap
  split <;> rfl

theorem skip_gap (t : Str) : skip (fmt.gap ++ t) = skip t := by
  unfold Format.gap
  split
  · rfl
  · rfl

theorem expect_self (c : Char) (t : Str) : expect c (.char c :: t) = .ok t := if_pos rfl

theorem expect_ne {c : Char} {p : Point} (h : p ≠ .char c) (t : Str) : expect c (p :: t) = .error .value := if_neg h

/-- The digits and the sign of a number are no blanks and begin nothing else. -/
theorem lexeme_first {cs : List Char} (h : Lexeme cs) : ∃ p r, ofChars cs = p :: r ∧ (IsDigit p ∨ p = .char '-') := by
  rcases lexeme_head h with ⟨p, r, hp, hd⟩ | ⟨q, r, hq, -⟩
  · exact ⟨p, r, hp, Or.inl hd⟩
  · exact ⟨_, _, hq, Or.inr rfl⟩

theorem numeral_ne {p : Point} (hp : IsDigit p ∨ p = .char '-') {c : Char} (hc : c.isDigit = false) (hm : c ≠ '-') :
    p ≠ .char c := by
  rintro rfl
  rcases hp with ⟨d, hd, hd'⟩ | hp
  · cases hd
    rw [hc] at hd'
    cases hd'
  · exact hm (Point.char.inj hp)

theorem numeral_not_blank {p : Point} (hp : IsDigit p ∨ p = .char '-') : isBlank p = false := by
  simp only [isBlank, Bool.or_eq_false_iff, decide_eq_false_iff_not]
  exact ⟨⟨⟨numeral_ne hp (by decide) (by decide), numeral_ne hp (by decide) (by decide)⟩,
    numeral_ne hp (by decide) (by decide)⟩, numeral_ne hp (by decide) (by decide)⟩

/-- A document begins with no blank, not with the end of an array and with no byte order mark. -/
theorem print_head {x : Doc ν} (h : Readable N text fmt.ascii depth x) :
    ∃ p r, fmt.print text x = p :: r ∧ isBlank p = false ∧ p ≠ .char ']' ∧ p ≠ .char (Char.ofNat 0xfeff) := by
  cases h with
  | null => exact ⟨_, _, rfl, by decide, by decide, by decide⟩
  | @bool _ b => cases b <;> exact ⟨_, _, rfl, by decide, by decide, by decide⟩
  | num hlex hread =>
    obtain ⟨p, r, hp, hd⟩ := lexeme_first hlex
    exact ⟨p, r, hp, numeral_not_blank hd, numeral_ne hd (by decide) (by decide),
      numeral_ne hd (by decide) (by decide)⟩
  | str h => exact ⟨_, _, rfl, by decide, by decide, by decide⟩
  | @arr _ xs h => cases xs <;> exact ⟨_, _, rfl, by decide, by decide, by decide⟩
  | @obj _ es hkeys hwritable h => cases es <;> exact ⟨_, _, rfl, by decide, by decide, by decide⟩

theorem skip_print {x : Doc ν} (h : Readable N text fmt.ascii depth x) (t : Str) :
    skip (fmt.print text x ++ t) = fmt.print text x ++ t := by
  obtain ⟨p, r, hp, hb, -⟩ := print_head h
  rw [hp]
  exact skip_cons hb

theorem scalar_literal {w : String} {x : Doc ν} (hw : w ∈ literals) (h : literalValue N w = .ok x) (rest : Str) :
    scalar N (ofString w ++ rest) = .ok (x, rest) := by
  have hself : ∀ w ∈ literals, literals.find? (fun w' => (ofString w').isPrefixOf (ofString w)) = some w := by decide
  have hfind := hself w hw
  obtain ⟨hfind', hdrop⟩ := literal_append hfind rest
  have hlen : (ofString w).drop w.length = [] := by
    rw [List.drop_eq_nil_iff, ofString, ofChars, List.length_map, String.length_toList]
  unfold scalar
  rw [hfind']
  dsimp only
  rw [h, hdrop, hlen]
  rfl

theorem scalar_number {x : ν} (hlex : Lexeme (text x)) (hread : N.read (text x) = some x) (hr : NoNumber rest) :
    scalar N (ofChars (text x) ++ rest) = .ok (.num x, rest) := by
  unfold scalar
  rw [lexeme_literal hlex rest, lexeme_whole hlex hr]
  dsimp only
  unfold number
  rw [hread]
  rfl

/-- With fuel enough, the document is read before anything that does not continue a number. -/
def ReadBack (N : Numbers ν) (text : ν → List Char) (fmt : Format) (depth : ℕ) (x : Doc ν) : Prop :=
  ∀ {fuel rest}, NoNumber rest → 2 * (fmt.print text x ++ rest).length < fuel →
    value N depth fuel (fmt.print text x ++ rest) = .ok (x, rest)

theorem noNumber_items {xs : List (Doc ν)} : NoNumber (fmt.printItems text xs ++ .char ']' :: rest) := by
  cases xs with
  | nil => exact noNumber_cons (by decide) (by decide) rest
  | cons y ys =>
    rw [Format.printItems, separator_eq]
    exact noNumber_cons (by decide) (by decide) _

theorem noNumber_entries {es : List (Str × Doc ν)} : NoNumber (fmt.printEntries text es ++ .char '\x7d' :: rest) := by
  cases es with
  | nil => exact noNumber_cons (by decide) (by decide) rest
  | cons e es =>
    rw [Format.printEntries, separator_eq]
    exact noNumber_cons (by decide) (by decide) _

/-- The further items, and the first one of them. -/
theorem items_cons {y : Doc ν} {ys : List (Doc ν)} : fmt.printItems text (y :: ys) ++ rest =
    .char ',' :: (fmt.gap ++ (fmt.print text y ++ (fmt.printItems text ys ++ rest))) := by
  rw [Format.printItems, separator_eq]
  simp only [List.cons_append, List.append_assoc]

theorem elements_print {x : Doc ν} {xs : List (Doc ν)} {fuel : ℕ}
    (h : ∀ y ∈ x :: xs, Readable N text fmt.ascii depth y) (hread : ∀ y ∈ x :: xs, ReadBack N text fmt depth y)
    (hf : 2 * (fmt.print text x ++ (fmt.printItems text xs ++ .char ']' :: rest)).length + 1 < fuel) :
    elements N depth fuel (fmt.print text x ++ (fmt.printItems text xs ++ .char ']' :: rest)) =
      .ok (x :: xs, rest) := by
  induction xs generalizing x fuel with
  | nil =>
    obtain ⟨fuel, rfl⟩ : ∃ f, fuel = f + 1 := ⟨fuel - 1, by omega⟩
    have hx : value N depth fuel (fmt.print text x ++ .char ']' :: rest) = .ok (x, .char ']' :: rest) :=
      hread x List.mem_cons_self (noNumber_cons (by decide) (by decide) rest) (Nat.lt_of_succ_lt_succ hf)
    refine elements_iff.mpr ⟨x, _, hx, Or.inr ⟨⟨.value, ?_⟩, ?_, rfl⟩⟩
    · exact expect_ne (by decide) rest
    · exact expect_self ']' rest
  | cons y ys ih =>
    obtain ⟨fuel, rfl⟩ : ∃ f, fuel = f + 1 := ⟨fuel - 1, by omega⟩
    have hx : value N depth fuel (fmt.print text x ++ (fmt.printItems text (y :: ys) ++ .char ']' :: rest)) =
        .ok (x, fmt.printItems text (y :: ys) ++ .char ']' :: rest) :=
      hread x List.mem_cons_self noNumber_items (Nat.lt_of_succ_lt_succ hf)
    rw [items_cons] at hx hf ⊢
    refine elements_iff.mpr ⟨x, _, hx, Or.inl ⟨_, y :: ys, expect_self ',' _, ?_, rfl⟩⟩
    rw [skip_gap, skip_print (h y (by simp))]
    refine ih (fun z hz => h z (List.mem_cons_of_mem x hz)) (fun z hz => hread z (List.mem_cons_of_mem x hz)) ?_
    simp only [List.length_append, List.length_cons] at hf ⊢
    omega

/-- An entry, in the order in which it is read. -/
theorem entry_eq {e : Str × Doc ν} : fmt.printEntry text e ++ rest = .char '"' :: (e.1.flatMap (escape fmt.ascii) ++
    .char '"' :: (.char ':' :: (fmt.gap ++ (fmt.print text e.2 ++ rest)))) := by
  obtain ⟨k, v⟩ := e
  rw [Format.printEntry, printString, separator_eq]
  simp only [List.cons_append, List.append_assoc, List.nil_append]

theorem entries_cons {e : Str × Doc ν} {es : List (Str × Doc ν)} : fmt.printEntries text (e :: es) ++ rest =
    .char ',' :: (fmt.gap ++ (fmt.printEntry text e ++ (fmt.printEntries text es ++ rest))) := by
  rw [Format.printEntries, separator_eq]
  simp only [List.cons_append, List.append_assoc]

theorem skip_entry {e : Str × Doc ν} : skip (fmt.printEntry text e ++ rest) = fmt.printEntry text e ++ rest := by
  rw [entry_eq]
  exact skip_cons (by decide)

/-- The first entry is read, and then what comes after it. -/
theorem members_entry {e : Str × Doc ν} {es : List (Str × Doc ν)} {fuel : ℕ} (hw : Writable fmt.ascii e.1)
    (h : Readable N text fmt.ascii depth e.2)
    (hv : value N depth fuel (fmt.print text e.2 ++ s) = .ok (e.2, s))
    (hlast : (∃ s' es', expect ',' (skip s) = .ok s' ∧ members N depth fuel (skip s') = .ok (es', rest) ∧
        es = e :: es') ∨
      (∃ f, expect ',' (skip s) = .error f) ∧ expect '\x7d' (skip s) = .ok rest ∧ es = [e]) :
    members N depth (fuel + 1) (fmt.printEntry text e ++ s) = .ok (es, rest) := by
  have hk := stringBody_print hw (.char ':' :: (fmt.gap ++ (fmt.print text e.2 ++ s)))
  have hcolon : expect ':' (skip (.char ':' :: (fmt.gap ++ (fmt.print text e.2 ++ s)))) =
      .ok (fmt.gap ++ (fmt.print text e.2 ++ s)) := expect_self ':' _
  rw [entry_eq]
  refine members_iff.mpr ⟨e.1, e.2, _, _, _, s, expect_self '"' _, hk, hcolon, ?_, hlast⟩
  rw [skip_gap, skip_print h]
  exact hv

theorem members_print {e : Str × Doc ν} {es : List (Str × Doc ν)} {fuel : ℕ}
    (hwritable : ∀ d ∈ e :: es, Writable fmt.ascii d.1)
    (h : ∀ d ∈ e :: es, Readable N text fmt.ascii depth d.2) (hread : ∀ d ∈ e :: es, ReadBack N text fmt depth d.2)
    (hf : 2 * (fmt.printEntry text e ++ (fmt.printEntries text es ++ .char '\x7d' :: rest)).length + 1 < fuel) :
    members N depth fuel (fmt.printEntry text e ++ (fmt.printEntries text es ++ .char '\x7d' :: rest)) =
      .ok (e :: es, rest) := by
  induction es generalizing e fuel with
  | nil =>
    obtain ⟨fuel, rfl⟩ : ∃ f, fuel = f + 1 := ⟨fuel - 1, by omega⟩
    refine members_entry (hwritable e List.mem_cons_self) (h e List.mem_cons_self) ?_ ?_
    · refine hread e List.mem_cons_self noNumber_entries ?_
      rw [entry_eq] at hf
      simp only [List.length_append, List.length_cons] at hf ⊢
      omega
    · exact Or.inr ⟨⟨.value, expect_ne (by decide) rest⟩, expect_self '\x7d' rest, rfl⟩
  | cons e' es ih =>
    obtain ⟨fuel, rfl⟩ : ∃ f, fuel = f + 1 := ⟨fuel - 1, by omega⟩
    refine members_entry (hwritable e List.mem_cons_self) (h e List.mem_cons_self) ?_ ?_
    · refine hread e List.mem_cons_self noNumber_entries ?_
      rw [entry_eq] at hf
      simp only [List.length_append, List.length_cons] at hf ⊢
      omega
    · rw [entries_cons] at hf ⊢
      refine Or.inl ⟨_, e' :: es, expect_self ',' _, ?_, rfl⟩
      rw [skip_gap, skip_entry]
      refine ih (fun d hd => hwritable d (List.mem_cons_of_mem e hd)) (fun d hd => h d (List.mem_cons_of_mem e hd))
        (fun d hd => hread d (List.mem_cons_of_mem e hd)) ?_
      simp only [List.length_append, List.length_cons] at hf ⊢
      omega

theorem readBack {x : Doc ν} (h : Readable N text fmt.ascii depth x) : ReadBack N text fmt depth x := by
  induction h with
  | null =>
    intro fuel rest hr hf
    obtain ⟨fuel, rfl⟩ : ∃ f, fuel = f + 1 := ⟨fuel - 1, by omega⟩
    exact value_iff.mpr (.scalar (fun p r he => by cases he; decide) (by simp [Format.print, ofString, ofChars])
      (scalar_literal (by decide) rfl rest))
  | @bool _ b =>
    intro fuel rest hr hf
    obtain ⟨fuel, rfl⟩ : ∃ f, fuel = f + 1 := ⟨fuel - 1, by omega⟩
    cases b with
    | true =>
      exact value_iff.mpr (.scalar (fun p r he => by cases he; decide) (by simp [Format.print, ofString, ofChars])
        (scalar_literal (by decide) rfl rest))
    | false =>
      exact value_iff.mpr (.scalar (fun p r he => by cases he; decide) (by simp [Format.print, ofString, ofChars])
        (scalar_literal (by decide) rfl rest))
  | @num _ x hlex hread =>
    intro fuel rest hr hf
    obtain ⟨fuel, rfl⟩ : ∃ f, fuel = f + 1 := ⟨fuel - 1, by omega⟩
    obtain ⟨p, r, hp, hd⟩ := lexeme_first hlex
    refine value_iff.mpr (.scalar ?_ ?_ (scalar_number hlex hread hr))
    · intro q r' he
      rw [Format.print, hp] at he
      cases he
      exact ⟨numeral_ne hd (by decide) (by decide), numeral_ne hd (by decide) (by decide),
        numeral_ne hd (by decide) (by decide)⟩
    · rw [Format.print, hp]
      exact List.cons_ne_nil _ _
  | @str _ s hs =>
    intro fuel rest hr hf
    obtain ⟨fuel, rfl⟩ : ∃ f, fuel = f + 1 := ⟨fuel - 1, by omega⟩
    have hbody := stringBody_print hs rest
    rw [Format.print, printString, List.append_assoc]
    exact value_iff.mpr (.str hbody)
  | @arr _ xs h ih =>
    intro fuel rest hr hf
    obtain ⟨fuel, rfl⟩ : ∃ f, fuel = f + 1 := ⟨fuel - 1, by omega⟩
    cases xs with
    | nil => exact value_iff.mpr (.arrNil rfl (expect_self ']' rest))
    | cons x xs =>
      obtain ⟨p, r, hp, -, hne, -⟩ := print_head (h x List.mem_cons_self)
      have hskip := skip_print (h x List.mem_cons_self) (fmt.printItems text xs ++ .char ']' :: rest)
      rw [Format.print] at hf ⊢
      simp only [List.append_assoc, List.cons_append, List.nil_append] at hf ⊢
      refine value_iff.mpr (.arr rfl (e := .value) ?_ ?_)
      · rw [hskip, hp]
        exact expect_ne hne _
      · rw [hskip]
        refine elements_print h (fun y hy => ih y hy) ?_
        rw [List.length_cons] at hf
        omega
  | @obj _ es hkeys hwritable h ih =>
    intro fuel rest hr hf
    obtain ⟨fuel, rfl⟩ : ∃ f, fuel = f + 1 := ⟨fuel - 1, by omega⟩
    cases es with
    | nil => exact value_iff.mpr (.objNil rfl (expect_self '\x7d' rest))
    | cons e es =>
      have hskip : skip (fmt.printEntry text e ++ (fmt.printEntries text es ++ .char '\x7d' :: rest)) =
          fmt.printEntry text e ++ (fmt.printEntries text es ++ .char '\x7d' :: rest) := skip_entry
      suffices hvalue : value N _ (fuel + 1) (fmt.print text (.obj (e :: es)) ++ rest) =
          .ok (.obj (dictOf (e :: es)), rest) by rwa [dictOf_nodup hkeys] at hvalue
      rw [Format.print] at hf ⊢
      simp only [List.append_assoc, List.cons_append, List.nil_append] at hf ⊢
      refine value_iff.mpr (.obj rfl (e := .value) ?_ ?_)
      · rw [hskip, entry_eq]
        exact expect_ne (by decide) _
      · rw [hskip]
        refine members_print hwritable h (fun d hd => ih d hd) ?_
        rw [List.length_cons] at hf
        omega

/-- A printed document is read as itself. -/
theorem parse_print {x : Doc ν} (h : Readable N text fmt.ascii depth x) :
    parse N depth (fmt.print text x) = .ok x := by
  obtain ⟨p, r, hp, hb, -, hbom⟩ := print_head h
  have hread : value N depth (2 * (fmt.print text x).length + 1) (fmt.print text x ++ []) = .ok (x, []) :=
    readBack h noNumber_nil (by rw [List.append_nil]; omega)
  rw [List.append_nil] at hread
  unfold parse
  rw [hp] at hread ⊢
  rw [List.head?_cons, if_neg (by simpa using hbom), skip_cons hb, hread]
  rfl

end Documents

end Text.Json
