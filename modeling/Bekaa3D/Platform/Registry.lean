import Bekaa3D.Identity.Entities
import Bekaa3D.Platform.Json

/-!
# Platform.Registry — the settings registry and its validation rules

Which settings exist, of which type and within which limits (`domain/settings_registry.py`), the setting entity
(`domain/entities.py`), and the checks on a stored value that every reader goes through
(`application/services/settings_reader.py`).

* `validateValue`: a submitted value against its key.
* `WellTyped`: a number that passes is of the one type that its setting has.
-/

namespace Bekaa3D.Platform

open Identity (Uuid Instant)

inductive SettingType where
  | boolean
  | integer
  | string
  | money
  | duration
  | json
  deriving DecidableEq, Repr

/-- The value of the enumeration. -/
def SettingType.value : SettingType → String
  | boolean => "boolean"
  | integer => "integer"
  | string => "string"
  | money => "money"
  | duration => "duration"
  | json => "json"

inductive PlatformError where
  | settingNotFound (key : String)
  | invalidSettingValue (key : String) (reasons : List String)
  | settingTypeMismatch (key stored expected : String)
  deriving DecidableEq, Repr

inductive TextFormat where
  | free
  | e164
  deriving DecidableEq, Repr

/-- One registry entry.  For `money` the bounds are those of `amount_cents`. -/
structure SettingDefinition where
  key : String
  type : SettingType
  default : Json
  minimum : Option ℤ := none
  maximum : Option ℤ := none
  nullable : Bool := false
  maxLength : Option ℕ := none
  textFormat : TextFormat := .free

def definitions : List SettingDefinition :=
  [{ key := "accepting_orders", type := .boolean, default := .bool false },
   { key := "offer_response_window", type := .duration, default := .int 172800, minimum := some 3600,
     maximum := some 604800 },
   { key := "offer_checkout_window", type := .duration, default := .int 86400, minimum := some 3600,
     maximum := some 604800 },
   { key := "offer_rejection_cooldown", type := .duration, default := .int 604800, minimum := some 0,
     maximum := some 2592000 },
   { key := "minimum_offer_percentage", type := .integer, default := .int 70, minimum := some 0,
     maximum := some 100 },
   { key := "checkout_hold_period", type := .duration, default := .int 1800, minimum := some 300,
     maximum := some 7200 },
   { key := "unverified_account_purge_period", type := .duration, default := .int 2592000,
     minimum := some 604800, maximum := some 7776000 },
   { key := "daily_download_cap", type := .integer, default := .int 20, minimum := some 1, maximum := some 1000 },
   { key := "free_shipping_threshold", type := .money, default := .null, minimum := some 0,
     maximum := some 1000000, nullable := true },
   { key := "pickup_address", type := .string, default := .null, nullable := true, maxLength := some 500 },
   { key := "pickup_hours", type := .string, default := .null, nullable := true, maxLength := some 200 },
   { key := "whatsapp_number", type := .string, default := .null, nullable := true, maxLength := some 16,
     textFormat := .e164 }]

def definitionFor (key : String) : Except PlatformError SettingDefinition :=
  match definitions.find? fun d => d.key = key with
  | some d => .ok d
  | none => .error (.settingNotFound key)

/-! ## Validation -/

/-- The character tables that the runtime has built in: the decimal digits, and lower case. -/
structure Unicode where
  isDecimal : Char → Bool
  lower : String → String

def validateNumber (d : SettingDefinition) (value : Json) (label : String) : List String :=
  match value with
  | .int number =>
    (match d.minimum with
      | some minimum => if number < minimum then [label ++ " must be at least " ++ toString minimum] else []
      | none => []) ++
    (match d.maximum with
      | some maximum => if maximum < number then [label ++ " must be at most " ++ toString maximum] else []
      | none => [])
  | _ => [label ++ " must be a whole number, not " ++ value.typeName ++
      " (booleans, decimals and numeric strings are not accepted)"]

def validateMoney (d : SettingDefinition) (value : Json) : List String :=
  match value with
  | .dict entries =>
    let keys := entries.map Prod.fst
    if keys.all (fun k => k = "amount_cents" || k = "currency") && keys.contains "amount_cents" &&
        keys.contains "currency" then
      validateNumber d ((entries.lookup "amount_cents").getD .null) "amount_cents" ++
        (if ((entries.lookup "currency").getD .null).eq (.str "USD") then []
          else ["currency must be 'USD' (ADR-008 fixes the V1 currency)"])
    else ["value must have exactly the keys amount_cents and currency"]
  | _ => ["value must be an object with amount_cents and currency"]

/-- `^\+[1-9]\d{0,14}$`, on a string without a newline at its end. -/
def isE164 (tables : Unicode) (s : String) : Bool :=
  match s.toList with
  | '+' :: c :: rest => ('1' ≤ c && c ≤ '9') && rest.all tables.isDecimal && rest.length ≤ 14
  | _ => false

/-- The trimmed string, if there is one, and what is wrong with it. -/
def validateString (tables : Unicode) (d : SettingDefinition) (value : Json) : Option String × List String :=
  match value with
  | .str s =>
    let trimmed := strip s
    if trimmed = "" then (none, ["value must not be empty or whitespace only"])
    else (some trimmed,
      (match d.maxLength with
        | some maxLength =>
          if maxLength < trimmed.length then ["value must be at most " ++ toString maxLength ++ " characters"] else []
        | none => []) ++
      (if d.textFormat = .e164 && !isE164 tables trimmed then
        ["value must be a canonical E.164 number: a leading '+', then up to 15 digits, with no spaces or separators"]
        else []))
  | _ => (none, ["value must be a string, not " ++ value.typeName])

/-- What is wrong with a value that is not null. -/
def reasonsAgainst (tables : Unicode) (d : SettingDefinition) (value : Json) : List String :=
  match d.type with
  | .boolean =>
    match value with
    | .bool _ => []
    | _ => ["value must be true or false, not " ++ value.typeName]
  | .integer | .duration => validateNumber d value "value"
  | .money => validateMoney d value
  | .string => (validateString tables d value).2
  | .json => []

/-- The value to store: a string is trimmed. -/
def normalised (tables : Unicode) (d : SettingDefinition) (value : Json) : Json :=
  match d.type, (validateString tables d value).1 with
  | .string, some trimmed => .str trimmed
  | _, _ => value

def validateValue (tables : Unicode) (key : String) (value : Json) : Except PlatformError Json :=
  match definitionFor key with
  | .error e => .error e
  | .ok d =>
    match value with
    | .null =>
      if d.nullable then .ok .null
      else .error (.invalidSettingValue key ["value must not be null for this setting"])
    | value =>
      if reasonsAgainst tables d value = [] then .ok (normalised tables d value)
      else .error (.invalidSettingValue key (reasonsAgainst tables d value))

section Validation

variable {tables : Unicode} {key : String} {d : SettingDefinition} {value validated : Json}

theorem mem_of_definitionFor (h : definitionFor key = .ok d) : d ∈ definitions ∧ d.key = key := by
  unfold definitionFor at h
  split at h
  · rename_i d' hd
    cases h
    exact ⟨List.mem_of_find?_eq_some hd, by simpa using List.find?_some hd⟩
  · cases h

theorem not_json (h : d ∈ definitions) : d.type ≠ .json := by
  have hall : definitions.all (fun d => d.type ≠ .json) = true := by decide
  simpa using List.all_eq_true.mp hall d h

/-- A number is of the type that the setting has. -/
def WellTyped (d : SettingDefinition) (value : Json) : Prop :=
  value.number.isSome → value.typeName = match d.type with
    | .boolean => "bool"
    | _ => "int"

theorem wellTyped_normalised (h : WellTyped d value) : WellTyped d (normalised tables d value) := by
  unfold normalised
  split
  · exact fun h => by cases h
  · exact h

/-- A value that nothing is wrong with is well typed. -/
theorem wellTyped_of_reasons (hj : d.type ≠ .json) (h : reasonsAgainst tables d value = []) : WellTyped d value := by
  intro hn
  have int : ∀ {label}, validateNumber d value label = [] → value.typeName = "int" := fun h => by
    unfold validateNumber at h
    split at h
    · rfl
    · cases h
  unfold reasonsAgainst at h
  split at h
  · rename_i ht
    rw [ht]
    split at h
    · rfl
    · cases h
  · rename_i ht
    rw [ht]
    exact int h
  · rename_i ht
    rw [ht]
    exact int h
  · unfold validateMoney at h
    split at h
    · cases hn
    · cases h
  · unfold validateString at h
    split at h
    · cases hn
    · cases h
  · exact absurd ‹_› hj

/-- What passes validation is well typed, before and after. -/
theorem wellTyped_of_valid (hd : definitionFor key = .ok d) (h : validateValue tables key value = .ok validated) :
    WellTyped d value ∧ WellTyped d validated := by
  have hj := not_json (mem_of_definitionFor hd).1
  unfold validateValue at h
  rw [hd] at h
  dsimp only at h
  split at h
  · split at h
    · cases h
      have hw : WellTyped d .null := fun h => by cases h
      exact ⟨hw, hw⟩
    · cases h
  · split at h
    · rename_i hr
      cases h
      have hw := wellTyped_of_reasons hj hr
      exact ⟨hw, wellTyped_normalised hw⟩
    · cases h

/-- Only a registered key has valid values. -/
theorem definition_of_valid (h : validateValue tables key value = .ok validated) :
    ∃ d, definitionFor key = .ok d := by
  cases hd : definitionFor key with
  | ok d => exact ⟨d, rfl⟩
  | error e =>
    unfold validateValue at h
    rw [hd] at h
    cases h

/-- Well-typed values of one setting that are `==` are of one type. -/
theorem WellTyped.typeName_eq {x y : Json} (hx : WellTyped d x) (hy : WellTyped d y) (h : x.eq y = true) :
    x.typeName = y.typeName := by
  by_contra hne
  obtain ⟨q, hqx, hqy⟩ := Json.number_of_eq h hne
  exact hne ((hx (by rw [hqx]; rfl)).trans (hy (by rw [hqy]; rfl)).symm)

end Validation

/-- Every setting's default passes its own rules. -/
theorem default_valid (tables : Unicode) :
    ∀ d ∈ definitions, validateValue tables d.key d.default = .ok d.default := by
  intro d hd
  simp only [definitions, List.mem_cons, List.not_mem_nil, or_false] at hd
  rcases hd with rfl | rfl | rfl | rfl | rfl | rfl | rfl | rfl | rfl | rfl | rfl | rfl <;> rfl

/-! ## Settings -/

/-- One typed parameter that administrators edit. -/
structure Setting where
  id : Uuid
  key : String
  type : SettingType
  value : Json
  description : Option String
  updatedBy : Option Uuid
  createdAt : Instant
  updatedAt : Instant

/-- Whether anything changed, and the setting after.  The types are compared as well: `True == 1`. -/
def Setting.changeValue (x : Setting) (newValue : Json) (actorId : Uuid) (at_ : Instant) : Bool × Setting :=
  if x.value.typeName = newValue.typeName && x.value.eq newValue then (false, x)
  else (true, { x with value := newValue, updatedBy := some actorId, updatedAt := at_ })

theorem Setting.changeValue_id {x : Setting} {newValue : Json} {actorId : Uuid} {at_ : Instant} :
    (x.changeValue newValue actorId at_).2.id = x.id := by
  unfold changeValue
  split <;> rfl

namespace SettingsReader

/-- `SettingsReader.get`, from the row that it reads. -/
def get (tables : Unicode) (key : String) (row : Option Setting) : Except PlatformError Json :=
  match definitionFor key with
  | .error e => .error e
  | .ok d =>
    match row with
    | none => .error (.settingNotFound key)
    | some setting =>
      if setting.type ≠ d.type then .error (.settingTypeMismatch key setting.type.value d.type.value)
      else validateValue tables key setting.value

/-- `SettingsReader.get_duration_seconds`. -/
def getDurationSeconds (tables : Unicode) (key : String) (row : Option Setting) : Except PlatformError ℤ :=
  match definitionFor key with
  | .error e => .error e
  | .ok d =>
    if d.type ≠ .duration then .error (.settingTypeMismatch key d.type.value "duration")
    else
      match get tables key row with
      | .error e => .error e
      | .ok (.int seconds) => .ok seconds
      | .ok value => .error (.settingTypeMismatch key value.typeName "int")

end SettingsReader

/-- A duration that is read is within the limits of its setting, whatever the table holds. -/
theorem duration_bounds {tables : Unicode} {key : String} {row : Option Setting} {seconds : ℤ} {d : SettingDefinition}
    (h : SettingsReader.getDurationSeconds tables key row = .ok seconds) (hd : definitionFor key = .ok d) :
    (∀ minimum, d.minimum = some minimum → minimum ≤ seconds) ∧
      ∀ maximum, d.maximum = some maximum → seconds ≤ maximum := by
  have hget : d.type = .duration ∧ SettingsReader.get tables key row = .ok (.int seconds) := by
    unfold SettingsReader.getDurationSeconds at h
    rw [hd] at h
    dsimp only at h
    split at h
    · cases h
    · rename_i ht
      split at h
      · cases h
      · rename_i n hn
        cases h
        exact ⟨by simpa using ht, hn⟩
      · cases h
  obtain ⟨ht, hget⟩ := hget
  have hvalid : ∃ value, validateValue tables key value = .ok (.int seconds) := by
    unfold SettingsReader.get at hget
    rw [hd] at hget
    dsimp only at hget
    split at hget
    · cases hget
    · split at hget
      · cases hget
      · exact ⟨_, hget⟩
  obtain ⟨value, hvalid⟩ := hvalid
  unfold validateValue at hvalid
  rw [hd] at hvalid
  dsimp only at hvalid
  split at hvalid
  · split at hvalid <;> cases hvalid
  · split at hvalid
    · rename_i hr
      obtain rfl : value = .int seconds := by simpa [normalised, ht] using hvalid
      have hr' : validateNumber d (.int seconds) "value" = [] := by simpa [reasonsAgainst, ht] using hr
      refine ⟨fun minimum hm => ?_, fun maximum hm => ?_⟩
      · by_contra hlt
        simp [validateNumber, hm, Int.not_le.mp hlt] at hr'
      · by_contra hlt
        simp [validateNumber, hm, Int.not_le.mp hlt] at hr'
    · cases hvalid

end Bekaa3D.Platform
