import Bekaa3D.Platform.Validation
import Bekaa3D.Admin.Settings

/-!
# Admin.Repair — what an update leaves in a row, whatever was in it

A row may hold a value that no validation would accept.  `change_value` compares the types of the old and the new
value, but below the outermost level it compares with `==`, and so does the `UPDATE`.

* `Readable`: the row holds the validated value, type for type, and the readers return it.
* `Repairable`: if the stored value is `==` to the validated one, its number is of the type of the setting.
* `update_readable`: a committed update leaves its row readable exactly if the row was repairable.
-/

namespace Bekaa3D.Admin

open Txn
open Platform (Json Setting SettingDefinition Unicode WellTyped definitionFor validateValue validateValue_eq
  validate_iff validate_idem satisfies_iff publicKeys publicValue)

/-- The numbers in the value of a setting: the value itself, or the amount of an object. -/
def numbers : Json → List Json
  | .dict entries => (entries.filter fun e => e.1 = "amount_cents").map Prod.snd
  | value => [value]

/-- Whether a value is no container. -/
def isScalar : Json → Bool
  | .list _ => false
  | .dict _ => false
  | _ => true

/-- The row holds `validated`, type for type, and the readers return it. -/
structure Readable (tables : Unicode) (key : String) (validated : Json) (x : Setting) : Prop where
  same : x.value.same validated = true
  read : ∃ value, Platform.SettingsReader.get tables key (some x) = .ok value ∧ value.same validated = true ∧
    (key ∈ publicKeys → publicValue tables key (some x) = .ok value)

/-- The row is of its setting's type, and its value is not another spelling of the validated one. -/
structure Repairable (d : SettingDefinition) (validated : Json) (x : Setting) : Prop where
  type : x.type = d.type
  spelling : x.value.eq validated = true → ∀ v ∈ numbers x.value, WellTyped d v

section Spelling

variable {tables : Unicode} {d : SettingDefinition} {stored validated : Json}

/-- A value that is `==` to one that is no container is the same exactly if it is of the same type. -/
theorem same_of_eq (heq : stored.eq validated = true) (hs : isScalar validated = true) :
    stored.same validated = true ↔ stored.typeName = validated.typeName := by
  cases validated with
  | list _ | dict _ => cases hs
  | null | str _ => cases stored <;> simp_all [Json.eq, Json.same, Json.typeName, Json.number]
  | bool b =>
    cases stored with
    | bool b' => cases b <;> cases b' <;> simp_all [Json.eq, Json.same, Json.typeName, Json.number]
    | _ => simp_all [Json.eq, Json.same, Json.typeName, Json.number]
  | int n => cases stored <;> simp_all [Json.eq, Json.same, Json.typeName, Json.number]
  | float q => cases stored <;> simp_all [Json.eq, Json.same, Json.typeName, Json.number]

/-- The declarations of the registry ask for an object only as an amount of money. -/
theorem money_of_dict {entries : List (String × Json)} (hj : d.type ≠ .json)
    (hs : d.Satisfies tables (.dict entries)) : d.type = .money ∧ d.IsMoney entries := by
  have hs := (satisfies_iff (by simp)).mp hs
  revert hs
  cases ht : d.type with
  | json => exact absurd ht hj
  | money =>
    rintro ⟨entries', heq, hm⟩
    cases heq
    exact ⟨rfl, hm⟩
  | _ => simp

theorem not_list {xs : List Json} (hj : d.type ≠ .json) : ¬d.Satisfies tables (.list xs) := by
  intro hs
  have hs := (satisfies_iff (by simp)).mp hs
  revert hs
  cases ht : d.type with
  | json => exact absurd ht hj
  | _ => simp

/-- Nothing but the value itself is the same as a value that is no container. -/
theorem eq_of_same (h : stored.same validated = true) (hs : isScalar validated = true) : stored = validated := by
  cases validated with
  | list _ | dict _ => cases hs
  | _ => cases stored <;> simp_all [Json.same]

section Money

variable {a b : List (String × Json)} (hm : d.IsMoney b) (hb : (b.map Prod.fst).Nodup)

include hm hb

/-- The entries of a dictionary that is the same as an amount of money. -/
theorem entry_of_same (h : Json.sameDict a b = true) {k : String} {v : Json} (hv : (k, v) ∈ a) :
    b.lookup k = some v := by
  obtain ⟨hkeys, ⟨n, hn, -⟩, hc⟩ := hm
  obtain ⟨⟨k', v'⟩, he, rfl, hsame⟩ := Json.sameDict_iff.mp h _ hv
  have hl := Json.lookup_of_mem hb he
  have hscalar : isScalar v' = true := by
    rcases (hkeys k').mp (List.mem_map_of_mem he) with rfl | rfl
    · rw [hn] at hl
      cases hl
      rfl
    · rw [hc] at hl
      cases hl
      rfl
  dsimp only at hsame
  rw [hl, eq_of_same hsame hscalar]

/-- An amount of money is the same as one that it is `==` to, if the amount in it is a whole number. -/
theorem same_money (heq : (Json.dict a).eq (.dict b) = true) :
    (Json.dict a).same (.dict b) = true ↔ ∀ v ∈ numbers (.dict a), v.typeName = "int" := by
  have entry := fun h => @entry_of_same d a b hm hb h
  obtain ⟨hkeys, ⟨n, hn, -⟩, hc⟩ := hm
  rw [Json.eq, Bool.and_eq_true, Json.subDict_iff] at heq
  rw [Json.same, Bool.and_eq_true, and_iff_right heq.1]
  constructor
  · intro h v hv
    obtain ⟨⟨k, v'⟩, he, rfl⟩ := List.mem_map.mp hv
    rw [List.mem_filter, decide_eq_true_eq] at he
    obtain ⟨he, rfl⟩ := he
    have hl := entry h he
    rw [hn] at hl
    cases hl
    rfl
  · intro h
    refine Json.sameDict_iff.mpr fun e he => ?_
    obtain ⟨k, v⟩ := e
    obtain ⟨v', hl, hveq⟩ := heq.2 _ he
    refine ⟨(k, v'), Json.mem_of_lookup hl, rfl, ?_⟩
    rcases (hkeys k).mp (List.mem_map_of_mem (Json.mem_of_lookup hl)) with rfl | rfl
    · obtain rfl : Json.int n = v' := Option.some.inj (hn.symm.trans hl)
      refine (same_of_eq hveq rfl).mpr (h v ?_)
      exact List.mem_map.mpr ⟨_, List.mem_filter.mpr ⟨he, by simp⟩, rfl⟩
    · obtain rfl : Json.str "USD" = v' := Option.some.inj (hc.symm.trans hl)
      rw [Platform.Json.eq_str.mp hveq]
      exact Json.same_refl _

/-- What is the same as an amount of money is one. -/
theorem money_of_same (ha : (a.map Prod.fst).Nodup) (h : (Json.dict a).same (.dict b) = true) : d.IsMoney a := by
  have entry := fun h => @entry_of_same d a b hm hb h
  obtain ⟨hkeys, ⟨n, hn, hbounds⟩, hc⟩ := hm
  rw [Json.same, Bool.and_eq_true, decide_eq_true_eq] at h
  obtain ⟨hlen, h⟩ := h
  have entry := fun {k v} => @entry h k v
  -- the two have the same keys
  have hsub : a.map Prod.fst ⊆ b.map Prod.fst := by
    intro k hk
    obtain ⟨⟨k', v⟩, he, rfl⟩ := List.mem_map.mp hk
    exact List.mem_map_of_mem (Json.mem_of_lookup (entry he))
  have hperm : (a.map Prod.fst).Perm (b.map Prod.fst) :=
    (ha.subperm hsub).perm_of_length_le (by rw [List.length_map, List.length_map, hlen])
  have value : ∀ {k v}, b.lookup k = some v → a.lookup k = some v := by
    intro k v hl
    obtain ⟨⟨k', v'⟩, he, rfl⟩ := List.mem_map.mp (hperm.mem_iff.mpr (List.mem_map_of_mem (Json.mem_of_lookup hl)))
    rw [Json.lookup_of_mem ha he, ← entry he, hl]
  exact ⟨fun k => by rw [hperm.mem_iff, hkeys], ⟨n, value hn, hbounds⟩, value hc⟩

end Money

theorem number_isSome_congr (ht : stored.typeName = validated.typeName) :
    stored.number.isSome = validated.number.isSome := by
  cases stored <;> cases validated <;> simp_all [Json.typeName, Json.number]

theorem isScalar_of_eq (heq : stored.eq validated = true) : isScalar stored = isScalar validated := by
  cases validated <;> cases stored <;> simp_all [Json.eq, Json.number, isScalar]

theorem numbers_of_scalar (h : isScalar stored = true) : numbers stored = [stored] := by
  cases stored <;> first | rfl | cases h

theorem wellTyped_of_satisfies (hj : d.type ≠ .json) (hs : d.Satisfies tables validated) : WellTyped d validated := by
  by_cases hn : validated = .null
  · subst hn
    exact fun h => by cases h
  · exact Platform.wellTyped_of_reasons hj ((Platform.reasonsAgainst_iff hn).mpr hs)

variable (hj : d.type ≠ .json) (hs : d.Satisfies tables validated)

include hj hs

/-- A stored value that is `==` to a valid one is the same exactly if its numbers are of the type of the setting. -/
theorem same_iff (hv : validated.Keyed) (heq : stored.eq validated = true) :
    stored.same validated = true ↔ ∀ v ∈ numbers stored, WellTyped d v := by
  have hw := wellTyped_of_satisfies hj hs
  by_cases hscalar : isScalar validated = true
  · rw [same_of_eq heq hscalar, numbers_of_scalar (by rw [isScalar_of_eq heq, hscalar]), List.forall_mem_singleton]
    constructor
    · intro ht hn
      rw [ht]
      exact hw (by rwa [← number_isSome_congr ht])
    · exact fun h => h.typeName_eq hw heq
  · cases validated with
    | list xs => exact absurd hs (not_list hj)
    | dict b =>
      obtain ⟨ht, hm⟩ := money_of_dict hj hs
      cases stored with
      | dict a =>
        rw [same_money hm hv heq]
        refine forall₂_congr fun v hmem => ?_
        -- the amount is a number, since it is `==` to one
        have hn : v.number.isSome = true := by
          obtain ⟨⟨k, v'⟩, he, rfl⟩ := List.mem_map.mp hmem
          rw [List.mem_filter, decide_eq_true_eq] at he
          obtain ⟨he, rfl⟩ := he
          rw [Json.eq, Bool.and_eq_true, Json.subDict_iff] at heq
          obtain ⟨v, hl, hveq⟩ := heq.2 _ he
          obtain ⟨-, ⟨n, hn, -⟩, -⟩ := hm
          obtain rfl : Json.int n = v := Option.some.inj (hn.symm.trans hl)
          cases v' <;> simp_all [Json.eq, Json.number]
        unfold WellTyped
        rw [ht]
        exact ⟨fun h _ => h, fun h => h hn⟩
      | _ => simp [Json.eq, Json.number] at heq
    | _ => exact absurd rfl hscalar

/-- A stored value that is the same as a valid one passes validation, unchanged. -/
theorem validate_of_same (hstripped : d.type = .string → validated.stripped = validated) (hv : validated.Keyed)
    (hk : stored.Keyed) (h : stored.same validated = true) : d.validate tables stored = .ok stored := by
  by_cases hscalar : isScalar validated = true
  · obtain rfl := eq_of_same h hscalar
    refine validate_iff.mpr ⟨hs, ?_⟩
    split
    · exact (hstripped ‹_›).symm
    · rfl
  · cases validated with
    | list xs => exact absurd hs (not_list hj)
    | dict b =>
      obtain ⟨ht, hm⟩ := money_of_dict hj hs
      cases stored with
      | dict a =>
        refine validate_iff.mpr ⟨?_, by simp [ht]⟩
        rw [satisfies_iff (by simp), ht]
        exact ⟨a, rfl, money_of_same hm hv hk h⟩
      | _ => simp [Json.same] at h
    | _ => exact absurd rfl hscalar

end Spelling

/-! ## An update -/

theorem edited_type (x : Setting) (validated : Json) (actorUserId : Identity.Uuid) (at_ : Identity.Instant) :
    (edited x validated actorUserId at_).type = x.type := by
  unfold edited
  split <;> rfl

/-- An update leaves a value that is `==` to the validated one as it is. -/
theorem edited_value (x : Setting) (validated : Json) (actorUserId : Identity.Uuid) (at_ : Identity.Instant) :
    (edited x validated actorUserId at_).value = if x.value.eq validated then x.value else validated := by
  unfold edited
  split
  · rfl
  · rename_i h
    simp only [differs, Bool.not_eq_true', Bool.and_eq_true, Bool.not_eq_false, decide_eq_true_eq] at h
    rw [if_pos h.2]

section Update

variable {tables : Unicode} {key : String} {d : SettingDefinition} {value validated : Json} {x : Setting}

theorem get_eq (hd : definitionFor key = .ok d) : Platform.SettingsReader.get tables key (some x) =
    if x.type ≠ d.type then .error (.settingTypeMismatch key x.type.value d.type.value)
    else d.validate tables x.value := by
  unfold Platform.SettingsReader.get
  rw [hd]
  dsimp only
  rw [validateValue_eq hd]

theorem keyed_validated (hvalid : d.validate tables value = .ok validated) (hv : value.Keyed) : validated.Keyed := by
  obtain ⟨-, rfl⟩ := validate_iff.mp hvalid
  split
  · cases value <;> exact hv
  · exact hv

/-- **What an update leaves is readable** exactly if the row was repairable. -/
theorem readable_edited (hd : definitionFor key = .ok d) (hvalid : validateValue tables key value = .ok validated)
    (hv : value.Keyed) (hk : x.value.Keyed) (actorUserId : Identity.Uuid) (at_ : Identity.Instant) :
    Readable tables key validated (edited x validated actorUserId at_) ↔ Repairable d validated x := by
  have hj := Platform.not_json (Platform.mem_of_definitionFor hd).1
  rw [validateValue_eq hd] at hvalid
  have hkv := keyed_validated hvalid hv
  have hidem := validate_idem hvalid
  obtain ⟨hs, hstripped⟩ := validate_iff.mp hidem
  constructor
  · rintro ⟨hsame, w, hget, -, -⟩
    refine ⟨?_, fun heq => ?_⟩
    · rw [get_eq hd, edited_type] at hget
      by_contra hne
      rw [if_pos hne] at hget
      cases hget
    · rw [edited_value, if_pos heq] at hsame
      exact (same_iff hj hs hkv heq).mp hsame
  · rintro ⟨ht, hspelling⟩
    -- what is stored passes validation, as it is
    have hstored : (edited x validated actorUserId at_).value.same validated = true ∧
        d.validate tables (edited x validated actorUserId at_).value =
          .ok (edited x validated actorUserId at_).value := by
      rw [edited_value]
      split
      · rename_i heq
        have hsame := (same_iff hj hs hkv heq).mpr (hspelling heq)
        refine ⟨hsame, validate_of_same hj hs (fun ht => ?_) hkv hk hsame⟩
        rw [if_pos ht] at hstripped
        exact hstripped.symm
      · exact ⟨Json.same_refl _, hidem⟩
    have hget : Platform.SettingsReader.get tables key (some (edited x validated actorUserId at_)) =
        .ok (edited x validated actorUserId at_).value := by
      rw [get_eq hd, edited_type, if_neg (not_not_intro ht), hstored.2]
    exact ⟨hstored.1, _, hget, hstored.1, fun _ => by rw [Platform.publicValue_eq _ ⟨d, hd⟩, hget]⟩

end Update

section Runs

variable {ι : Type} [DecidableEq ι] {tables : Unicode} {db : Db} {req : ι → Request} {s s' : Sys store ι} {i : ι}

variable (tables req s) in
/-- What the next step of the state `s` does to the row of a setting, if it commits an update. -/
structure Repairs : Prop where
  update : ∀ s' i key value caller, Step Any s s' → s'.world.tr = s.world.tr ++ [⟨i, .commit⟩] →
    req i = .updateSetting key value caller → value.Keyed →
    ∃ (d : SettingDefinition) (validated : Json) (x x' : Setting), definitionFor key = .ok d ∧
      validateValue tables key value = .ok validated ∧ x.key = key ∧
      (s.world.db.rows .setting).row x.id = some x ∧ (s'.world.db.rows .setting).row x.id = some x' ∧
      (x.value.Keyed → (Readable tables key validated x' ↔ Repairable d validated x))

/-- **A committed update leaves its row readable**, in any interleaving of any commands and whatever was stored
before, exactly if the row that it locked was repairable. -/
theorem update_readable (hr : Reach Any (system tables db req) s) : Repairs tables req s := by
  refine ⟨fun s' i key value caller h htr hq hv => ?_⟩
  obtain ⟨e, hm, hrel⟩ := commit_step hr h htr
  rw [hq] at hm
  obtain ⟨at_, x, validated, -, -, hk, hvalid, rfl⟩ := hm.updateSetting
  obtain ⟨hrow, hafter, -⟩ := hrel.setting (edited_id ..)
  obtain ⟨d, hd⟩ := Platform.definition_of_valid hvalid
  exact ⟨d, validated, x, _, hd, hvalid, hk, hrow, hafter, fun hkeyed => readable_edited hd hvalid hv hkeyed _ _⟩

end Runs

def dollars (amountCents : Json) : Json := .dict [("amount_cents", amountCents), ("currency", .str "USD")]

/-- A threshold that was restored as a decimal. -/
def decimalDb : Db where
  rows
    | .setting => Table.empty.insert ⟨1, "free_shipping_threshold", .money, dollars (.float 5000), none, none, 0, 0⟩
    | .reference _ => .empty
  uniqueKey := by
    intro id id' x x' hx hx' _
    rw [Table.row_insert] at hx hx'
    simp [Table.empty] at hx hx'
    rw [hx.1, hx'.1]
  users := [1]
  auditLogs := []

/-- An administrator sets it to the whole number. -/
def wholeThreshold : Fin 1 → Request := fun _ =>
  .updateSetting "free_shipping_threshold" (dollars (.int 5000)) ⟨1, none, none⟩

/-- Whether the only row of `s` holds another document than the submitted one, which no reader accepts. -/
def leftBroken (s : Sys store (Fin 1)) : Bool :=
  ((s.world.db.rows .setting).row 1).any fun x => !x.value.same (dollars (.int 5000)) &&
    match Platform.SettingsReader.get sampleTables "free_shipping_threshold" (some x) with
    | .error _ => true
    | .ok _ => false

/-- The update commits, and leaves the decimal, which no reader accepts. -/
theorem update_leaves_decimal : ∃ s, Reach Any (system sampleTables decimalDb wholeThreshold) s ∧
    commits s.world.tr = [0] ∧
    validateValue sampleTables "free_shipping_threshold" (dollars (.int 5000)) = .ok (dollars (.int 5000)) ∧
    leftBroken s = true := by
  obtain ⟨s, hr, hs⟩ := play_any player (fun _ _ => true) (A := Any) (fun _ => trivial)
    (system sampleTables decimalDb wholeThreshold) (List.replicate 5 (.go 0 5))
    (fun s => commits s.world.tr = [0] ∧ leftBroken s = true) (by decide +kernel)
  have hs := of_decide_eq_true hs
  exact ⟨s, hr, hs.1, rfl, hs.2⟩

/-- The rule, in the state in which that commit is next. -/
theorem update_readable_decimal : ∃ s, Reach Any (system sampleTables decimalDb wholeThreshold) s ∧
    commits s.world.tr = [] ∧ Repairs sampleTables wholeThreshold s := by
  obtain ⟨s, hr, hs⟩ := play_any player (fun _ _ => true) (A := Any) (fun _ => trivial)
    (system sampleTables decimalDb wholeThreshold) (List.replicate 3 (.go 0 5))
    (fun s => commits s.world.tr = []) (by decide +kernel)
  exact ⟨s, hr, of_decide_eq_true hs, update_readable hr⟩

end Bekaa3D.Admin
