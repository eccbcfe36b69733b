import Mathlib.Data.List.DropRight
import Mathlib.Data.Nat.Digits.Lemmas
import Bekaa3D.Identity.Tokens
import Bekaa3D.Platform.Registry

/-!
# Platform.Validation — what validation accepts, and what it returns

* `SettingDefinition.Satisfies`: what a declaration asks of a value.  `validate_iff`: validation accepts exactly
  that, whatever the declaration.
* `validate_idem`: a value that came out of validation passes again, as it is.
* `readPublicSettings`: the five public settings (`platform/api/settings.py`).
* `validation_stable`: what an update stores, every reader returns.
* `whatsapp_canonical`: which spellings of a phone number are accepted.
-/

namespace Bekaa3D.Platform

open Identity (isAscii)

/-! ## Stripped strings -/

theorem strip_eq (s : String) : strip s = String.ofList ((s.toList.dropWhile isSpace).rdropWhile isSpace) := rfl

theorem toList_strip (s : String) : (strip s).toList = (s.toList.dropWhile isSpace).rdropWhile isSpace := by
  rw [strip_eq, String.toList_ofList]

/-- Without the spaces at its end, a list still has no space at its start. -/
theorem dropWhile_rdropWhile {α : Type} (p : α → Bool) (l : List α) :
    ((l.dropWhile p).rdropWhile p).dropWhile p = (l.dropWhile p).rdropWhile p := by
  rw [List.dropWhile_eq_self_iff]
  intro hl
  have hpre := List.rdropWhile_prefix p (l.dropWhile p)
  have hlen : 0 < (l.dropWhile p).length := lt_of_lt_of_le hl hpre.length_le
  have hhead := List.dropWhile_get_zero_not p l hlen
  rwa [List.get_eq_getElem, ← hpre.getElem hl] at hhead

theorem strip_strip (s : String) : strip (strip s) = strip s := by
  rw [strip_eq (strip s), toList_strip, dropWhile_rdropWhile, List.rdropWhile_idempotent, ← strip_eq]

/-- The value with a string stripped. -/
def Json.stripped : Json → Json
  | .str s => .str (strip s)
  | value => value

/-! ## Declarations -/

/-- `validate_value`, once the declaration is found. -/
def SettingDefinition.validate (tables : Unicode) (d : SettingDefinition) : Json → Except PlatformError Json
  | .null =>
    if d.nullable then .ok .null
    else .error (.invalidSettingValue d.key ["value must not be null for this setting"])
  | value =>
    if reasonsAgainst tables d value = [] then .ok (normalised tables d value)
    else .error (.invalidSettingValue d.key (reasonsAgainst tables d value))

/-- Validation by key is validation by the declaration of the key. -/
theorem validateValue_eq {key : String} {d : SettingDefinition} (hd : definitionFor key = .ok d) (tables : Unicode)
    (value : Json) : validateValue tables key value = d.validate tables value := by
  obtain ⟨-, rfl⟩ := mem_of_definitionFor hd
  unfold validateValue
  rw [hd]
  cases value <;> rfl

namespace SettingDefinition

/-- The number is within the limits. -/
def InBounds (d : SettingDefinition) (n : ℤ) : Prop :=
  (∀ minimum, d.minimum = some minimum → minimum ≤ n) ∧ ∀ maximum, d.maximum = some maximum → n ≤ maximum

/-- The stripped string is not empty, not too long, and of the format. -/
def IsText (tables : Unicode) (d : SettingDefinition) (text : String) : Prop :=
  text ≠ "" ∧ (∀ maxLength, d.maxLength = some maxLength → text.length ≤ maxLength) ∧
    (d.textFormat = .e164 → isE164 tables text = true)

/-- An object with exactly the keys `amount_cents` and `currency`: a number within the limits, and US dollars. -/
def IsMoney (d : SettingDefinition) (entries : List (String × Json)) : Prop :=
  (∀ k, k ∈ entries.map Prod.fst ↔ k = "amount_cents" ∨ k = "currency") ∧
    (∃ n, entries.lookup "amount_cents" = some (.int n) ∧ d.InBounds n) ∧ entries.lookup "currency" = some (.str "USD")

/-- What the declaration asks of a value. -/
def Satisfies (tables : Unicode) (d : SettingDefinition) : Json → Prop
  | .null => d.nullable = true
  | value => match d.type with
    | .boolean => ∃ b, value = .bool b
    | .integer | .duration => ∃ n, value = .int n ∧ d.InBounds n
    | .money => ∃ entries, value = .dict entries ∧ d.IsMoney entries
    | .string => ∃ s, value = .str s ∧ d.IsText tables (strip s)
    | .json => True

end SettingDefinition

section Checks

variable {tables : Unicode} {d : SettingDefinition} {value validated : Json}

theorem validateNumber_iff {label : String} :
    validateNumber d value label = [] ↔ ∃ n, value = .int n ∧ d.InBounds n := by
  unfold validateNumber SettingDefinition.InBounds
  cases value with
  | int n => cases d.minimum <;> cases d.maximum <;> simp
  | _ => simp

theorem Json.eq_str {s : String} : value.eq (.str s) = true ↔ value = .str s := by
  cases value <;> simp [Json.eq, Json.number]

theorem validateMoney_iff : validateMoney d value = [] ↔ ∃ entries, value = .dict entries ∧ d.IsMoney entries := by
  cases value with
  | dict entries =>
    have hkeys : (entries.map Prod.fst).all (fun k => k = "amount_cents" || k = "currency") = true ∧
        (entries.map Prod.fst).contains "amount_cents" = true ∧ (entries.map Prod.fst).contains "currency" = true ↔
        ∀ k, k ∈ entries.map Prod.fst ↔ k = "amount_cents" ∨ k = "currency" := by
      simp only [List.all_eq_true, Bool.or_eq_true, decide_eq_true_eq, List.contains_iff_mem]
      constructor
      · rintro ⟨hall, ha, hc⟩ k
        refine ⟨hall k, ?_⟩
        rintro (rfl | rfl)
        · exact ha
        · exact hc
      · intro h
        exact ⟨fun k hk => (h k).mp hk, (h _).mpr (.inl rfl), (h _).mpr (.inr rfl)⟩
    have getD : ∀ {k : String} {v : Json}, v ≠ .null →
        ((entries.lookup k).getD .null = v ↔ entries.lookup k = some v) := by
      intro k v hv
      cases entries.lookup k with
      | none => simpa using hv.symm
      | some v' => simp
    unfold validateMoney SettingDefinition.IsMoney
    dsimp only
    split
    · rename_i h
      rw [Bool.and_eq_true, Bool.and_eq_true, and_assoc, hkeys] at h
      rw [List.append_eq_nil_iff, validateNumber_iff]
      have hcurrency : (if ((entries.lookup "currency").getD .null).eq (.str "USD") = true then []
          else ["currency must be 'USD' (ADR-008 fixes the V1 currency)"]) = [] ↔
          entries.lookup "currency" = some (.str "USD") := by
        rw [← getD (by simp), ← Json.eq_str]
        split <;> simp_all
      rw [hcurrency]
      constructor
      · rintro ⟨⟨n, hn, hb⟩, hc⟩
        exact ⟨entries, rfl, h, ⟨n, (getD (by simp)).mp hn, hb⟩, hc⟩
      · rintro ⟨entries', heq, -, ⟨n, hn, hb⟩, hc⟩
        cases heq
        exact ⟨⟨n, (getD (by simp)).mpr hn, hb⟩, hc⟩
    · rename_i h
      refine ⟨fun h => absurd h (List.cons_ne_nil _ _), ?_⟩
      rintro ⟨entries', heq, hk, -⟩
      cases heq
      rw [Bool.and_eq_true, Bool.and_eq_true, and_assoc, hkeys] at h
      exact absurd hk h
  | _ => simp [validateMoney]

theorem validateString_iff :
    (validateString tables d value).2 = [] ↔ ∃ s, value = .str s ∧ d.IsText tables (strip s) := by
  cases value with
  | str s =>
    unfold validateString SettingDefinition.IsText
    by_cases hs : strip s = ""
    · simp [hs]
    · cases d.maxLength <;> cases d.textFormat <;> simp [hs]
  | _ => simp [validateString]

/-- What is asked of a value that is not null. -/
theorem satisfies_iff (hn : value ≠ .null) : d.Satisfies tables value ↔ match d.type with
    | .boolean => ∃ b, value = .bool b
    | .integer | .duration => ∃ n, value = .int n ∧ d.InBounds n
    | .money => ∃ entries, value = .dict entries ∧ d.IsMoney entries
    | .string => ∃ s, value = .str s ∧ d.IsText tables (strip s)
    | .json => True := by
  cases value <;> first | exact absurd rfl hn | rfl

/-- Nothing is wrong with a value exactly if it satisfies the declaration. -/
theorem reasonsAgainst_iff (hn : value ≠ .null) : reasonsAgainst tables d value = [] ↔ d.Satisfies tables value := by
  rw [satisfies_iff hn]
  unfold reasonsAgainst
  cases d.type with
  | boolean => cases value <;> simp
  | integer | duration => exact validateNumber_iff
  | money => exact validateMoney_iff
  | string => exact validateString_iff
  | json => simp

/-- What is stored of a value that satisfies the declaration. -/
theorem normalised_eq (h : d.Satisfies tables value) :
    normalised tables d value = if d.type = .string then value.stripped else value := by
  unfold normalised
  by_cases ht : d.type = .string
  · rw [if_pos ht]
    cases value with
    | str s =>
      have hs : strip s ≠ "" := by
        unfold SettingDefinition.Satisfies at h
        rw [ht] at h
        obtain ⟨s', heq, hs, -⟩ := h
        cases heq
        exact hs
      simp [ht, validateString, hs, Json.stripped]
    | _ => simp [ht, validateString, Json.stripped]
  · rw [if_neg ht]
    split
    · contradiction
    · rfl

theorem validate_of_ne (hn : value ≠ .null) : d.validate tables value =
    if reasonsAgainst tables d value = [] then .ok (normalised tables d value)
    else .error (.invalidSettingValue d.key (reasonsAgainst tables d value)) := by
  cases value <;> first | exact absurd rfl hn | rfl

/-- **Validation meets the declaration**: it accepts what satisfies it, and strips strings. -/
theorem validate_iff : d.validate tables value = .ok validated ↔
    d.Satisfies tables value ∧ validated = if d.type = .string then value.stripped else value := by
  by_cases hn : value = .null
  · subst hn
    have hid : (if d.type = .string then Json.null.stripped else Json.null) = .null := ite_self _
    rw [hid]
    unfold SettingDefinition.validate SettingDefinition.Satisfies
    dsimp only
    split
    · rename_i h
      simp [h, eq_comm]
    · rename_i h
      simp [h]
  · rw [validate_of_ne hn]
    split
    · rename_i h
      have hs := (reasonsAgainst_iff hn).mp h
      rw [normalised_eq hs]
      simp [hs, eq_comm]
    · rename_i h
      simp [(reasonsAgainst_iff hn).not.mp h]

/-- A stripped value satisfies a declaration as the value does. -/
theorem satisfies_stripped (h : d.Satisfies tables value) (ht : d.type = .string) :
    d.Satisfies tables value.stripped ∧ value.stripped.stripped = value.stripped := by
  cases value with
  | str s =>
    refine ⟨?_, by rw [Json.stripped, Json.stripped, strip_strip]⟩
    unfold SettingDefinition.Satisfies at h
    rw [ht] at h
    obtain ⟨s', heq, htext⟩ := h
    cases heq
    unfold SettingDefinition.Satisfies Json.stripped
    rw [ht]
    exact ⟨strip s, rfl, by rwa [strip_strip]⟩
  | _ => exact ⟨h, rfl⟩

/-- **Validation is stable**: its own result passes unchanged. -/
theorem validate_idem (h : d.validate tables value = .ok validated) : d.validate tables validated = .ok validated := by
  obtain ⟨hs, rfl⟩ := validate_iff.mp h
  rw [validate_iff]
  by_cases ht : d.type = .string
  · rw [if_pos ht, if_pos ht]
    obtain ⟨hs, hstripped⟩ := satisfies_stripped hs ht
    exact ⟨hs, hstripped.symm⟩
  · rw [if_neg ht, if_neg ht]
    exact ⟨hs, rfl⟩

end Checks

/-! ## Readers -/

/-- `PUBLIC_KEYS`. -/
def publicKeys : List String :=
  ["accepting_orders", "free_shipping_threshold", "pickup_address", "pickup_hours", "whatsapp_number"]

/-- The public value of a key, from the row that was found. -/
def publicValue (tables : Unicode) (key : String) (row : Option Setting) : Except PlatformError Json :=
  match row with
  | none => .error (.settingNotFound key)
  | some setting =>
    match definitionFor key with
    | .error e => .error e
    | .ok d =>
      if setting.type ≠ d.type then .error (.settingTypeMismatch key setting.type.value d.type.value)
      else validateValue tables key setting.value

/-- `read_public_settings`, from the rows that `get_many` found. -/
def readPublicSettings (tables : Unicode) (found : String → Option Setting) :
    Except PlatformError (List (String × Json)) :=
  publicKeys.mapM fun key => (publicValue tables key (found key)).map (key, ·)

/-- The annotations of `PublicSettingsRead`, for values that need no conversion. -/
def PublicSettingsRead.fits (key : String) (value : Json) : Prop :=
  if key = "accepting_orders" then ∃ b, value = .bool b
  else if key = "free_shipping_threshold" then value = .null ∨ ∃ entries amountCents currency,
    value = .dict entries ∧ entries.lookup "amount_cents" = some (.int amountCents) ∧
      entries.lookup "currency" = some (.str currency)
  else value = .null ∨ ∃ s, value = .str s

/-- The row holds a value that an update stored: of a submitted value that passed, what validation returned. -/
def Stored (tables : Unicode) (key : String) (x : Setting) : Prop :=
  ∃ d value, definitionFor key = .ok d ∧ x.type = d.type ∧ validateValue tables key value = .ok x.value

section Readers

variable {tables : Unicode} {key : String} {x : Setting}

/-- A setting passes its own validation. -/
theorem Stored.valid (h : Stored tables key x) : validateValue tables key x.value = .ok x.value := by
  obtain ⟨d, value, hd, -, hv⟩ := h
  rw [validateValue_eq hd] at hv ⊢
  exact validate_idem hv

theorem Stored.get (h : Stored tables key x) : SettingsReader.get tables key (some x) = .ok x.value := by
  have hv := h.valid
  obtain ⟨d, value, hd, ht, -⟩ := h
  unfold SettingsReader.get
  rw [hd]
  simp [ht, hv]

theorem publicValue_eq (row : Option Setting) (hk : ∃ d, definitionFor key = .ok d) :
    publicValue tables key row = SettingsReader.get tables key row := by
  obtain ⟨d, hd⟩ := hk
  cases row <;> simp only [Platform.publicValue, SettingsReader.get, hd]

theorem Stored.publicValue (h : Stored tables key x) : publicValue tables key (some x) = .ok x.value := by
  have hk : ∃ d, definitionFor key = .ok d := by
    obtain ⟨d, -, hd, -⟩ := h
    exact ⟨d, hd⟩
  rw [publicValue_eq _ hk, h.get]

/-- Every public value is of the type that the response declares. -/
theorem Stored.fits (h : Stored tables key x) (hk : key ∈ publicKeys) : PublicSettingsRead.fits key x.value := by
  have hv := h.valid
  obtain ⟨d, -, hd, -, -⟩ := h
  rw [validateValue_eq hd] at hv
  obtain ⟨hs, -⟩ := validate_iff.mp hv
  simp only [publicKeys, List.mem_cons, List.not_mem_nil, or_false] at hk
  by_cases hn : x.value = .null
  · rw [hn] at hs ⊢
    rcases hk with rfl | rfl | rfl | rfl | rfl <;> cases hd
    · cases hs
    all_goals exact .inl rfl
  · have hs := (satisfies_iff hn).mp hs
    rcases hk with rfl | rfl | rfl | rfl | rfl <;> cases hd
    · exact hs
    · obtain ⟨entries, heq, -, ⟨n, ha, -⟩, hc⟩ := hs
      exact .inr ⟨entries, n, "USD", heq, ha, hc⟩
    all_goals
      obtain ⟨s, heq, -⟩ := hs
      exact .inr ⟨s, heq⟩

theorem mapM_ok {α β ε : Type} {f : α → Except ε β} {g : α → β} {l : List α} (h : ∀ a ∈ l, f a = .ok (g a)) :
    l.mapM f = .ok (l.map g) := by
  induction l with
  | nil => rfl
  | cons a l ih =>
    rw [List.mapM_cons, h a (by simp), ih fun b hb => h b (by simp [hb])]
    rfl

/-- If every row holds a value that an update stored, the public settings are those values. -/
theorem readPublicSettings_ok {found : String → Option Setting} {rows : String → Setting}
    (h : ∀ key ∈ publicKeys, found key = some (rows key) ∧ Stored tables key (rows key)) :
    readPublicSettings tables found = .ok (publicKeys.map fun key => (key, (rows key).value)) := by
  refine mapM_ok fun key hk => ?_
  obtain ⟨hf, hs⟩ := h key hk
  rw [hf, hs.publicValue]
  rfl

variable (tables) in
/-- What validation does, for any declaration, and what readers do with a value that came out of it. -/
structure ValidationStable : Prop where
  accepts : ∀ (d : SettingDefinition) (value : Json),
    (∃ validated, d.validate tables value = .ok validated) ↔ d.Satisfies tables value
  /-- The value itself, but a string is stripped. -/
  returns : ∀ (d : SettingDefinition) (value validated : Json), d.validate tables value = .ok validated →
    validated = if d.type = .string then value.stripped else value
  idempotent : ∀ (d : SettingDefinition) (value validated : Json), d.validate tables value = .ok validated →
    d.validate tables validated = .ok validated
  registered : ∀ key d, definitionFor key = .ok d → ∀ value, validateValue tables key value = d.validate tables value
  /-- What an update stored is read as it is. -/
  read : ∀ key x, Stored tables key x → SettingsReader.get tables key (some x) = .ok x.value ∧
    (key ∈ publicKeys → publicValue tables key (some x) = .ok x.value ∧ PublicSettingsRead.fits key x.value)
  readPublic : ∀ (found : String → Option Setting) (rows : String → Setting),
    (∀ key ∈ publicKeys, found key = some (rows key) ∧ Stored tables key (rows key)) →
    readPublicSettings tables found = .ok (publicKeys.map fun key => (key, (rows key).value))

/-- **Validation meets its declaration and is stable.** -/
theorem validation_stable : ValidationStable tables where
  accepts d value := by
    constructor
    · rintro ⟨validated, h⟩
      exact (validate_iff.mp h).1
    · exact fun h => ⟨_, validate_iff.mpr ⟨h, rfl⟩⟩
  returns _ _ _ h := (validate_iff.mp h).2
  idempotent _ _ _ h := validate_idem h
  registered _ _ hd value := validateValue_eq hd tables value
  read _ _ h := ⟨h.get, fun hk => ⟨h.publicValue, h.fits hk⟩⟩
  readPublic _ _ h := readPublicSettings_ok h

end Readers

/-! ## The WhatsApp number -/

/-- A plus sign, a digit from 1 to 9, and at most fourteen further digits from 0 to 9. -/
def isCanonical (s : String) : Bool :=
  match s.toList with
  | '+' :: c :: rest => ('1' ≤ c && c ≤ '9') && rest.all (fun c => '0' ≤ c && c ≤ '9') && rest.length ≤ 14
  | _ => false

/-- The number that the digits after the plus sign spell. -/
def phoneNumber (s : String) : ℕ := Nat.ofDigits 10 ((s.toList.tail.map fun c => c.toNat - 48).reverse)

section WhatsApp

variable {tables : Unicode} {s t : String} {validated : Json}

theorem isE164_cons {rest : List Char} {c : Char} (h : s.toList = '+' :: c :: rest) :
    isE164 tables s = true ↔ ('1' ≤ c ∧ c ≤ '9') ∧ (∀ c ∈ rest, tables.isDecimal c = true) ∧ rest.length ≤ 14 := by
  unfold isE164
  rw [h]
  simp [and_assoc]

theorem isCanonical_cons {rest : List Char} {c : Char} (h : s.toList = '+' :: c :: rest) :
    isCanonical s = true ↔ ('1' ≤ c ∧ c ≤ '9') ∧ (∀ c ∈ rest, '0' ≤ c ∧ c ≤ '9') ∧ rest.length ≤ 14 := by
  unfold isCanonical
  rw [h]
  simp [and_assoc]

theorem cons_of_isE164 (h : isE164 tables s = true) : ∃ c rest, s.toList = '+' :: c :: rest := by
  unfold isE164 at h
  split at h
  · exact ⟨_, _, ‹_›⟩
  · cases h

theorem cons_of_isCanonical (h : isCanonical s = true) : ∃ c rest, s.toList = '+' :: c :: rest := by
  unfold isCanonical at h
  split at h
  · exact ⟨_, _, ‹_›⟩
  · cases h

/-- What matches the pattern is neither empty nor too long. -/
theorem length_of_isE164 (h : isE164 tables s = true) : s ≠ "" ∧ s.length ≤ 16 := by
  obtain ⟨c, rest, hs⟩ := cons_of_isE164 h
  obtain ⟨-, -, hlen⟩ := (isE164_cons hs).mp h
  refine ⟨fun h => absurd (h ▸ hs) (List.cons_ne_nil _ _).symm, ?_⟩
  rw [← String.length_toList, hs, List.length_cons, List.length_cons]
  omega

/-- A string is accepted exactly if it matches the pattern once it is stripped. -/
theorem whatsapp_iff : validateValue tables "whatsapp_number" (.str s) = .ok validated ↔
    isE164 tables (strip s) = true ∧ validated = .str (strip s) := by
  rw [validateValue_eq rfl, validate_iff, satisfies_iff (by simp)]
  refine and_congr_left fun _ => ?_
  constructor
  · rintro ⟨s', heq, -, -, hformat⟩
    cases heq
    exact hformat rfl
  · intro h
    obtain ⟨hne, hlen⟩ := length_of_isE164 h
    refine ⟨s, rfl, hne, fun maxLength hm => ?_, fun _ => h⟩
    cases hm
    exact hlen

theorem toNat_of_digit {c : Char} (h : '0' ≤ c ∧ c ≤ '9') : 48 ≤ c.toNat ∧ c.toNat ≤ 57 := h

theorem toNat_of_first {c : Char} (h : '1' ≤ c ∧ c ≤ '9') : 49 ≤ c.toNat ∧ c.toNat ≤ 57 := h

/-- The canonical spellings are the matches within ASCII. -/
theorem isCanonical_iff (hascii : ∀ c : Char, c.toNat < 128 → (tables.isDecimal c = true ↔ '0' ≤ c ∧ c ≤ '9')) :
    isCanonical s = true ↔ isE164 tables s = true ∧ isAscii s = true := by
  unfold isAscii
  rw [List.all_eq_true]
  constructor
  · intro h
    obtain ⟨c, rest, hs⟩ := cons_of_isCanonical h
    obtain ⟨hc, hrest, hlen⟩ := (isCanonical_cons hs).mp h
    have small : ∀ c ∈ rest, c.toNat < 128 := fun c hc => by have := toNat_of_digit (hrest c hc); omega
    refine ⟨(isE164_cons hs).mpr ⟨hc, fun c hc => (hascii c (small c hc)).mpr (hrest c hc), hlen⟩, ?_⟩
    have hc' := toNat_of_first hc
    intro c' hc''
    rw [hs, List.mem_cons, List.mem_cons] at hc''
    rcases hc'' with rfl | rfl | hc''
    · decide
    · simp only [decide_eq_true_eq]
      omega
    · simpa using small c' hc''
  · rintro ⟨h, hall⟩
    obtain ⟨c, rest, hs⟩ := cons_of_isE164 h
    obtain ⟨hc, hrest, hlen⟩ := (isE164_cons hs).mp h
    refine (isCanonical_cons hs).mpr ⟨hc, fun c hc => (hascii c ?_).mp (hrest c hc), hlen⟩
    simpa using hall c (by rw [hs]; simp [hc])

/-- Canonical spellings of one number are one spelling. -/
theorem phoneNumber_inj (hs : isCanonical s = true) (ht : isCanonical t = true) (h : phoneNumber s = phoneNumber t) :
    s = t := by
  obtain ⟨c, rest, hsl⟩ := cons_of_isCanonical hs
  obtain ⟨c', rest', htl⟩ := cons_of_isCanonical ht
  obtain ⟨hc, hrest, -⟩ := (isCanonical_cons hsl).mp hs
  obtain ⟨hc', hrest', -⟩ := (isCanonical_cons htl).mp ht
  -- digits without a leading zero are read off the number
  have read : ∀ {c : Char} {rest : List Char}, '1' ≤ c ∧ c ≤ '9' → (∀ c ∈ rest, '0' ≤ c ∧ c ≤ '9') →
      Nat.digits 10 (Nat.ofDigits 10 (((c :: rest).map fun c => c.toNat - 48).reverse)) =
        ((c :: rest).map fun c => c.toNat - 48).reverse := by
    intro c rest hc hrest
    have hc0 := toNat_of_first hc
    refine Nat.digits_ofDigits 10 (by decide) _ (fun n hn => ?_) fun hne => ?_
    · rw [List.mem_reverse, List.mem_map] at hn
      obtain ⟨c', hc', rfl⟩ := hn
      rcases List.mem_cons.mp hc' with rfl | hc'
      · omega
      · have := toNat_of_digit (hrest c' hc')
        omega
    · rw [List.getLast_reverse]
      simp only [List.map_cons, List.head_cons]
      omega
  unfold phoneNumber at h
  rw [hsl, htl, List.tail_cons, List.tail_cons] at h
  have hdigits := congrArg (Nat.digits 10) h
  rw [read hc hrest, read hc' hrest', List.reverse_inj] at hdigits
  -- and the characters off the digits
  have chars : ∀ {c : Char} {rest : List Char}, '1' ≤ c ∧ c ≤ '9' → (∀ c ∈ rest, '0' ≤ c ∧ c ≤ '9') →
      ((c :: rest).map fun c => c.toNat - 48).map (fun n => Char.ofNat (n + 48)) = c :: rest := by
    intro c rest hc hrest
    rw [List.map_map]
    refine (List.map_congr_left fun c' hc' => ?_).trans (List.map_id _)
    have h48 : 48 ≤ c'.toNat := by
      rcases List.mem_cons.mp hc' with rfl | hc'
      · exact le_of_lt (toNat_of_first hc).1
      · exact (toNat_of_digit (hrest c' hc')).1
    change Char.ofNat (c'.toNat - 48 + 48) = c'
    rw [Nat.sub_add_cancel h48, Char.ofNat_toNat]
  have hchars := congrArg (List.map fun n => Char.ofNat (n + 48)) hdigits
  rw [chars hc hrest, chars hc' hrest'] at hchars
  rw [← String.ofList_toList (s := s), ← String.ofList_toList (s := t), hsl, htl, hchars]

/-- **The WhatsApp number** is accepted exactly in its canonical form, unless the stripped string matches with a
decimal digit outside ASCII; and without such digits one number has one stored spelling. -/
theorem whatsapp_canonical (hascii : ∀ c : Char, c.toNat < 128 → (tables.isDecimal c = true ↔ '0' ≤ c ∧ c ≤ '9')) :
    (∀ s, ((∃ validated, validateValue tables "whatsapp_number" (.str s) = .ok validated) ↔
      isCanonical (strip s) = true) ↔ ¬(isE164 tables (strip s) = true ∧ isAscii (strip s) = false)) ∧
    ∀ s t v v', isAscii (strip s) = true → isAscii (strip t) = true →
      validateValue tables "whatsapp_number" (.str s) = .ok (.str v) →
      validateValue tables "whatsapp_number" (.str t) = .ok (.str v') → phoneNumber v = phoneNumber v' → v = v' := by
  refine ⟨fun s => ?_, fun s t v v' hs ht hv hv' h => ?_⟩
  · have haccept : (∃ validated, validateValue tables "whatsapp_number" (.str s) = .ok validated) ↔
        isE164 tables (strip s) = true := by
      constructor
      · rintro ⟨validated, h⟩
        exact (whatsapp_iff.mp h).1
      · exact fun h => ⟨_, whatsapp_iff.mpr ⟨h, rfl⟩⟩
    rw [haccept, isCanonical_iff hascii]
    cases isE164 tables (strip s) <;> cases isAscii (strip s) <;> simp
  · obtain ⟨hs', heq⟩ := whatsapp_iff.mp hv
    obtain ⟨ht', heq'⟩ := whatsapp_iff.mp hv'
    cases heq
    cases heq'
    exact phoneNumber_inj ((isCanonical_iff hascii).mpr ⟨hs', hs⟩) ((isCanonical_iff hascii).mpr ⟨ht', ht⟩) h

/-- The decimal digits of ASCII and the Arabic-Indic ones. -/
def arabicTables : Unicode := ⟨fun c => c.isDigit || (0x660 ≤ c.toNat && c.toNat ≤ 0x669), fun s => s⟩

theorem arabic_ascii : ∀ c : Char, c.toNat < 128 → (arabicTables.isDecimal c = true ↔ '0' ≤ c ∧ c ≤ '9') := by
  intro c hc
  unfold arabicTables
  simp only [Char.isDigit, Bool.or_eq_true, Bool.and_eq_true, decide_eq_true_eq]
  constructor
  · rintro (h | h)
    · exact h
    · omega
  · exact fun h => .inl h

/-- A number of Arabic-Indic digits is accepted, and it is not canonical. -/
theorem whatsapp_arabic :
    ¬((∃ validated, validateValue arabicTables "whatsapp_number" (.str "+9613٤٥٦") = .ok validated) ↔
      isCanonical (strip "+9613٤٥٦") = true) := by
  intro h
  have hcanonical := h.mp ⟨_, whatsapp_iff.mpr ⟨by decide, rfl⟩⟩
  revert hcanonical
  decide

/-- A number of ASCII digits is accepted, as it is written. -/
theorem whatsapp_canonical_ascii :
    (∃ validated, validateValue arabicTables "whatsapp_number" (.str " +9613456 ") = .ok validated) ↔
      isCanonical (strip " +9613456 ") = true :=
  ((whatsapp_canonical arabic_ascii).1 " +9613456 ").mpr (by decide)

end WhatsApp

end Bekaa3D.Platform
