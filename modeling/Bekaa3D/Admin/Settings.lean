import Bekaa3D.Txn.Chain
import Bekaa3D.Txn.Moments
import Bekaa3D.Admin.Play

/-!
# Admin.Settings — the history of a setting

* `Request.Audits`: the audit row of a command; `settingChange`: what an audit row says of a setting.
* `Request.Makes.setting_step`: what a command does to the row of a setting, and what its audit row says of it.
* `Respells`: an update by a number that is `==` to the stored one, and of another type.  The `UPDATE` leaves it out,
  and the audit row names it.
* `settings_history`: any number of administrators on any settings, in any interleaving.  The audit rows of a setting
  lead from its first value to the stored one exactly if no committed update respells it.
-/

namespace Bekaa3D.Admin

open Txn
open Identity (Uuid Instant)
open Platform (Json Setting SettingDefinition Unicode WellTyped definitionFor validateValue)
open Catalog (ReferenceType ValueType Value CatalogError)

/-! ## Audit rows -/

/-- The values before and after in an audit row on the setting `key`. -/
def settingChange (key : String) (entry : AuditLogEntry) : Option (Json × Json) :=
  if entry.action = "setting.updated" then
    match entry.beforeData, entry.afterData with
    | some [(_, .str k), (_, before)], some [_, (_, after)] => if k = key then some (before, after) else none
    | _, _ => none
  else none

def Request.caller : Request → Caller
  | .updateSetting _ _ caller => caller
  | .createCategory _ _ _ caller => caller
  | .updateCategory _ _ _ _ caller => caller
  | .archiveCategory _ caller => caller
  | .createReferenceValue _ _ _ caller => caller
  | .updateReferenceValue _ _ _ _ caller => caller
  | .archiveReferenceValue _ _ caller => caller

/-- The setting that a command is about. -/
def Request.setting : Request → Option String
  | .updateSetting key _ _ => some key
  | _ => none

/-- The audit row is one of the command `q`. -/
structure Request.Audits (q : Request) (entry : AuditLogEntry) : Prop where
  actor : entry.actorUserId = some q.caller.actorUserId
  requestId : entry.requestId = q.caller.requestId
  ipHash : entry.ipHash = q.caller.ipHash
  setting : ∀ key, (settingChange key entry).isSome = true ↔ q.setting = some key

variable {ι : Type} {tables : Unicode} {w : World store ι} {i : ι} {e : Edit} {q : Request}

theorem settingChange_setting {key key' : String} {caller : Caller} {id : Uuid} {before after : Json} :
    settingChange key' (entryOf .setting "setting.updated" caller id (some [("key", .str key), ("value", before)])
      (some [("key", .str key), ("value", after)])) = if key = key' then some (before, after) else none := rfl

theorem settingChange_other {key : String} {entry : AuditLogEntry} (h : entry.action ≠ "setting.updated") :
    settingChange key entry = none := if_neg h

theorem action_ne (t : ValueType) : ValueType.action t ".created" ≠ "setting.updated" ∧
    ValueType.action t ".updated" ≠ "setting.updated" ∧ ValueType.action t ".archived" ≠ "setting.updated" := by
  cases t <;> decide +kernel

/-- What a command on reference data makes. -/
theorem MakesOf.reference {t : ReferenceType} {valueId : Uuid}
    {change : Value t → Except CatalogError (Instant → Bool × Value t)} {action : String} {caller : Caller}
    (h : MakesOf w i t valueId (valueCommand t valueId change action caller) e) (ha : action ≠ "setting.updated")
    (hc : q.caller = caller) (hq : q.setting = none) : e.t = .reference t ∧ q.Audits e.entry := by
  obtain ⟨at_, v, -, -, -, ch, -, rfl⟩ := h
  refine ⟨rfl, by rw [hc]; rfl, by rw [hc]; rfl, by rw [hc]; rfl, fun key => ?_⟩
  rw [hq, settingChange_other ha]
  simp

/-- A command that is not about a setting edits reference data. -/
theorem Request.Makes.reference (h : q.Makes w i tables e) (hq : q.setting = none) :
    (∃ t, e.t = .reference t) ∧ q.Audits e.entry := by
  have created : ∀ {t action caller} {v : Value t}, action ≠ "setting.updated" → q.caller = caller →
      q.Audits (createdEntry t action caller v) := by
    rintro t action caller v ha rfl
    refine ⟨rfl, rfl, rfl, fun key => ?_⟩
    rw [hq, settingChange_other ha]
    simp
  cases q with
  | updateSetting => cases hq
  | createCategory =>
    obtain ⟨slug', v, -, -, -, rfl⟩ := h
    exact ⟨⟨_, rfl⟩, created (t := .category) (by decide) rfl⟩
  | createReferenceValue t =>
    obtain ⟨v, -, -, rfl⟩ := h
    exact ⟨⟨_, rfl⟩, created (t := .value t) (action_ne t).1 rfl⟩
  | updateCategory | archiveCategory =>
    obtain ⟨ht, ha⟩ := MakesOf.reference h (by decide) rfl hq
    exact ⟨⟨_, ht⟩, ha⟩
  | updateReferenceValue t =>
    obtain ⟨ht, ha⟩ := MakesOf.reference h (action_ne t).2.1 rfl hq
    exact ⟨⟨_, ht⟩, ha⟩
  | archiveReferenceValue t =>
    obtain ⟨ht, ha⟩ := MakesOf.reference h (action_ne t).2.2 rfl hq
    exact ⟨⟨_, ht⟩, ha⟩

/-! ## What an update of a setting makes -/

/-- The row after a changed value is saved. -/
def updated (x : Setting) (validated : Json) (actorUserId : Uuid) (at_ : Instant) : Setting :=
  { x with
    value := if x.value.eq validated then x.value else validated
    updatedBy := some actorUserId
    updatedAt := at_ }

/-- Whether a value is another one than the stored one, of another type or not `==`. -/
def differs (x : Setting) (validated : Json) : Bool :=
  !(x.value.typeName = validated.typeName && x.value.eq validated)

theorem changeValue_eq (x : Setting) (validated : Json) (actorUserId : Uuid) (at_ : Instant) :
    x.changeValue validated actorUserId at_ = (differs x validated, if differs x validated then
      { x with value := validated, updatedBy := some actorUserId, updatedAt := at_ } else x) := by
  unfold Setting.changeValue differs
  split
  · rename_i h
    simp [h]
  · rename_i h
    simp [h]

theorem saved_updated (x : Setting) (validated : Json) (actorUserId : Uuid) (at_ : Instant) :
    Row.saved (t := .setting) x { x with value := validated, updatedBy := some actorUserId, updatedAt := at_ } =
      updated x validated actorUserId at_ := by
  change Cols.applySetting (settingCols x _) x = _
  unfold Cols.applySetting settingCols updated
  simp only [changed_getD]
  split <;> rfl

/-- The row after an update. -/
def edited (x : Setting) (validated : Json) (actorUserId : Uuid) (at_ : Instant) : Setting :=
  if differs x validated then updated x validated actorUserId at_ else x

theorem edited_id (x : Setting) (validated : Json) (actorUserId : Uuid) (at_ : Instant) :
    (edited x validated actorUserId at_).id = x.id := by
  unfold edited
  split <;> rfl

theorem edited_key (x : Setting) (validated : Json) (actorUserId : Uuid) (at_ : Instant) :
    (edited x validated actorUserId at_).key = x.key := by
  unfold edited
  split <;> rfl

/-- What an update of the setting commits. -/
theorem Request.Makes.updateSetting {key : String} {value : Json} {caller : Caller}
    (h : Request.Makes w i tables (.updateSetting key value caller) e) :
    ∃ (at_ : Instant) (x : Setting) (validated : Json), Did w i .now at_ ∧
      Did w i (.selectSettingForUpdate key) (some x) ∧ x.key = key ∧ validateValue tables key value = .ok validated ∧
      e = ⟨.setting, some x, edited x validated caller.actorUserId at_,
        entryOf .setting "setting.updated" caller x.id (some [("key", .str key), ("value", x.value)])
          (some [("key", .str key), ("value", if differs x validated then validated else x.value)])⟩ := by
  obtain ⟨at_, x, hn, hd, hk, ch, hch, rfl⟩ := h
  obtain ⟨validated, hv, rfl⟩ := UpdateSetting.change_eq hch
  refine ⟨at_, x, validated, hn, hd, hk, hv, ?_⟩
  simp only [changeValue_eq]
  unfold edited
  by_cases hdiff : differs x validated = true
  · simp only [hdiff, if_true, saved_updated]
    rfl
  · simp only [hdiff]
    rfl

/-- An edit of a setting, on the row. -/
theorem Edit.Rel.setting {x after : Setting} {entry : AuditLogEntry} {db db' : Db}
    (h : Edit.Rel ⟨.setting, some x, after, entry⟩ db db') (hid : after.id = x.id) :
    (db.rows .setting).row x.id = some x ∧ (db'.rows .setting).row x.id = some after ∧
      ∀ id, id ≠ x.id → (db'.rows .setting).row id = (db.rows .setting).row id := by
  obtain ⟨hbefore, hafter, hothers, -⟩ := h
  change (db.rows .setting).row after.id = some x at hbefore
  change (db'.rows .setting).row after.id = some after at hafter
  rw [hid] at hbefore hafter
  refine ⟨hbefore, hafter, fun id hne => hothers .setting id fun _ => ?_⟩
  change id ≠ after.id
  rwa [hid]

theorem Request.Makes.audits (h : q.Makes w i tables e) : q.Audits e.entry := by
  cases hq : q.setting with
  | none => exact (h.reference hq).2
  | some key =>
    cases q with
    | updateSetting key value caller =>
      obtain ⟨at_, x, validated, -, -, -, -, rfl⟩ := h.updateSetting
      refine ⟨rfl, rfl, rfl, fun key' => ?_⟩
      dsimp only
      rw [settingChange_setting]
      by_cases hk : key = key'
      · simp [hk, Request.setting]
      · simp [hk, Request.setting]
    | _ => cases hq

/-- What a command does to the row of a setting, and what its audit row says of it. -/
theorem Request.Makes.setting_step {db db' : Db} {id : Uuid} {x : Setting} (hm : q.Makes w i tables e)
    (hrel : e.Rel db db') (hx : (db.rows .setting).row id = some x) :
    (q.setting ≠ some x.key ∧ (db'.rows .setting).row id = some x ∧ settingChange x.key e.entry = none) ∨
      ∃ (value : Json) (caller : Caller) (validated : Json) (at_ : Instant),
        q = .updateSetting x.key value caller ∧ validateValue tables x.key value = .ok validated ∧
        (db'.rows .setting).row id = some (edited x validated caller.actorUserId at_) ∧
        settingChange x.key e.entry = some (x.value, if differs x validated then validated else x.value) := by
  cases hq : q.setting with
  | none =>
    obtain ⟨⟨t, ht⟩, haud⟩ := hm.reference hq
    have hne : EntityType.setting ≠ e.t := fun h => by rw [ht] at h; cases h
    refine Or.inl ⟨by simp, ?_, ?_⟩
    · rw [hrel.others .setting id fun h => absurd h hne, hx]
    · simpa [hq] using haud.setting x.key
  | some key =>
    obtain ⟨value, caller, rfl⟩ : ∃ value caller, q = .updateSetting key value caller := by
      cases q with
      | updateSetting k value caller =>
        cases hq
        exact ⟨value, caller, rfl⟩
      | _ => cases hq
    obtain ⟨at_, y, validated, -, -, hyk, hv, rfl⟩ := hm.updateSetting
    obtain ⟨hrow, hafter, hothers⟩ := hrel.setting (edited_id y validated caller.actorUserId at_)
    by_cases hkey : key = x.key
    · subst hkey
      obtain rfl : id = y.id := db.uniqueKey _ _ _ _ hx hrow hyk.symm
      obtain rfl : x = y := by rw [hx] at hrow; exact Option.some.inj hrow
      refine Or.inr ⟨value, caller, validated, at_, rfl, hv, hafter, ?_⟩
      dsimp only
      rw [settingChange_setting, if_pos rfl]
    · refine Or.inl ⟨by simpa using hkey, ?_, ?_⟩
      · rw [hothers id fun hid => hkey ?_, hx]
        rw [hid, hrow] at hx
        cases hx
        exact hyk.symm
      · dsimp only
        rw [settingChange_setting, if_neg hkey]

/-! ## The history of one setting -/

section Serial

variable {db₀ db db' : Db} {req : ι → Request} {is : List ι}

/-- One audit row for each committed command, in commit order. -/
theorem Serial.audited (h : Serial tables req w db₀ is db) : ∃ entries, db.auditLogs = db₀.auditLogs ++ entries ∧
    List.Forall₂ (fun i entry => (req i).Audits entry) is entries := by
  induction h with
  | nil => exact ⟨[], by simp, .nil⟩
  | @snoc is db db' i e _ hm hrel ih =>
    obtain ⟨entries, hlogs, hall⟩ := ih
    refine ⟨entries ++ [e.entry], by rw [hrel.logs, hlogs, List.append_assoc], ?_⟩
    exact List.rel_append hall (.cons hm.audits .nil)

/-- The audit rows of one setting lead from its first value to its last, up to `g`: what is stored of a changed
value agrees with the value up to `g`. -/
theorem Serial.setting_chain {β : Type} {g : Json → β} {P : Json → Prop} {key : String}
    (hstep : ∀ (x : Setting) (value validated : Json), x.key = key → P x.value →
      validateValue tables key value = .ok validated → differs x validated = true →
      ∀ actorUserId at_, g (updated x validated actorUserId at_).value = g validated ∧
        P (updated x validated actorUserId at_).value)
    (h : Serial tables req w db₀ is db) {id : Uuid} {x₀ : Setting} (h0 : (db₀.rows .setting).row id = some x₀)
    (hk : x₀.key = key) (hP : P x₀.value) {entries : List AuditLogEntry}
    (hlogs : db.auditLogs = db₀.auditLogs ++ entries) :
    ∃ x : Setting, (db.rows .setting).row id = some x ∧ x.key = key ∧ P x.value ∧
      Chain (fun c => g c.1) (fun c => g c.2) (g x₀.value) (entries.filterMap (settingChange key)) (g x.value) := by
  induction h generalizing entries with
  | nil =>
    have hnil : entries = [] := by simpa using hlogs
    exact ⟨x₀, h0, hk, hP, by rw [hnil]; exact rfl⟩
  | @snoc is db db' i e hs hm hrel ih =>
    obtain ⟨entries', hl, -⟩ := hs.audited
    obtain ⟨x, hx, rfl, hxP, hchain⟩ := ih hl
    obtain rfl : entries = entries' ++ [e.entry] := by
      rw [hrel.logs, hl, List.append_assoc] at hlogs
      exact (List.append_cancel_left hlogs).symm
    rw [List.filterMap_append]
    rcases hm.setting_step hrel hx with ⟨-, hrow, hnone⟩ | ⟨value, caller, validated, at_, -, hv, hrow, hsome⟩
    · exact ⟨x, hrow, rfl, hxP, by simpa [hnone] using hchain⟩
    · have hg : g (edited x validated caller.actorUserId at_).value =
          g (if differs x validated then validated else x.value) ∧
            P (edited x validated caller.actorUserId at_).value := by
        unfold edited
        split
        · exact hstep x value validated rfl hxP hv ‹_› _ _
        · exact ⟨rfl, hxP⟩
      refine ⟨_, hrow, edited_key .., hg.2, ?_⟩
      have hnew : [e.entry].filterMap (settingChange x.key) =
          [(x.value, if differs x validated then validated else x.value)] := by
        rw [List.filterMap_cons, hsome]
        rfl
      rw [hnew, hg.1]
      exact hchain.snoc rfl

/-- No command removes a setting or changes its key. -/
theorem Serial.setting_row (h : Serial tables req w db₀ is db) {id : Uuid} {x₀ : Setting}
    (h0 : (db₀.rows .setting).row id = some x₀) : ∃ x : Setting, (db.rows .setting).row id = some x ∧ x.key = x₀.key := by
  obtain ⟨entries, hlogs, -⟩ := h.audited
  obtain ⟨x, hx, hk, -⟩ := h.setting_chain (g := fun _ => ()) (P := fun _ => True)
    (fun _ _ _ _ _ _ _ _ _ => ⟨rfl, trivial⟩) h0 rfl trivial hlogs
  exact ⟨x, hx, hk⟩

end Serial

/-! ## What is stored of a changed value -/

/-- A changed value is stored, up to how a number is spelled. -/
theorem updated_spelled {x : Setting} {validated : Json} (h : differs x validated = true) (actorUserId : Uuid)
    (at_ : Instant) : (updated x validated actorUserId at_).value.spelled = validated.spelled := by
  unfold updated
  dsimp only
  split
  · rename_i heq
    have ht : x.value.typeName ≠ validated.typeName := fun ht => by simp [differs, ht, heq] at h
    obtain ⟨n, hx, hv⟩ := Json.number_of_eq heq ht
    exact Json.spelled_number hx hv
  · rfl

/-- A changed value is stored, if what was stored was well typed. -/
theorem updated_wellTyped {d : SettingDefinition} {x : Setting} {validated : Json} (hx : WellTyped d x.value)
    (hv : WellTyped d validated) (h : differs x validated = true) (actorUserId : Uuid) (at_ : Instant) :
    (updated x validated actorUserId at_).value = validated := by
  unfold updated
  dsimp only
  split
  · rename_i heq
    simp [differs, hx.typeName_eq hv heq, heq] at h
  · rfl

/-! ## Updates that respell a number -/

/-- The update `q` of the setting `key` submits a number that is `==` to the stored one, and of another type. -/
def Respells (tables : Unicode) (q : Request) (key : String) (db : Db) : Prop :=
  ∃ (value : Json) (caller : Caller) (validated : Json) (id : Uuid) (x : Setting),
    q = .updateSetting key value caller ∧ validateValue tables key value = .ok validated ∧
    (db.rows .setting).row id = some x ∧ x.key = key ∧
    x.value.eq validated = true ∧ x.value.typeName ≠ validated.typeName

/-- The audit rows since `db₀` of the setting in the row `id` lead from its value in `db₀` to the one in `db`. -/
def Truthful (db₀ db : Db) (id : Uuid) : Prop :=
  ∃ (x₀ x : Setting) (entries : List AuditLogEntry), (db₀.rows .setting).row id = some x₀ ∧
    (db.rows .setting).row id = some x ∧ x.key = x₀.key ∧ db.auditLogs = db₀.auditLogs ++ entries ∧
    Chain Prod.fst Prod.snd x₀.value (entries.filterMap (settingChange x₀.key)) x.value

/-- What is stored is what the audit row names, unless the update respells a number. -/
theorem edited_value_iff {x : Setting} {validated : Json} (actorUserId : Uuid) (at_ : Instant) :
    (if differs x validated then validated else x.value) = (edited x validated actorUserId at_).value ↔
      ¬(x.value.eq validated = true ∧ x.value.typeName ≠ validated.typeName) := by
  unfold edited
  by_cases hd : differs x validated = true
  · rw [if_pos hd, if_pos hd]
    unfold updated
    dsimp only
    split
    · rename_i heq
      have hne : x.value.typeName ≠ validated.typeName := fun ht => by simp [differs, ht, heq] at hd
      exact iff_of_false (fun h => hne (by rw [h])) (not_not_intro ⟨heq, hne⟩)
    · rename_i heq
      exact iff_of_true rfl fun h => heq h.1
  · rw [if_neg hd, if_neg hd]
    refine iff_of_true rfl fun h => ?_
    simp [differs, h.1] at hd
    exact h.2 hd

/-- A commit keeps the audit rows of a setting truthful exactly if they were, and it does not respell a number. -/
theorem Truthful.commit {db₀ db db' : Db} {entries : List AuditLogEntry} {id : Uuid} {x₀ x : Setting}
    (h0 : (db₀.rows .setting).row id = some x₀) (hx : (db.rows .setting).row id = some x) (hk : x.key = x₀.key)
    (hlogs : db.auditLogs = db₀.auditLogs ++ entries) (hm : q.Makes w i tables e) (hrel : e.Rel db db') :
    Truthful db₀ db' id ↔ Truthful db₀ db id ∧ ¬Respells tables q x₀.key db := by
  have hlogs' : db'.auditLogs = db₀.auditLogs ++ (entries ++ [e.entry]) := by
    rw [hrel.logs, hlogs, List.append_assoc]
  -- the rows and the audit rows of both states are known
  have hold : Truthful db₀ db id ↔
      Chain Prod.fst Prod.snd x₀.value (entries.filterMap (settingChange x₀.key)) x.value := by
    constructor
    · rintro ⟨y₀, y, entries', hy₀, hy, -, hl, h⟩
      obtain rfl : x₀ = y₀ := Option.some.inj (h0.symm.trans hy₀)
      obtain rfl : x = y := Option.some.inj (hx.symm.trans hy)
      obtain rfl : entries = entries' := List.append_cancel_left (hlogs.symm.trans hl)
      exact h
    · exact fun h => ⟨x₀, x, entries, h0, hx, hk, hlogs, h⟩
  have hnew : ∀ {x' : Setting}, (db'.rows .setting).row id = some x' → x'.key = x₀.key → (Truthful db₀ db' id ↔
      Chain Prod.fst Prod.snd x₀.value ((entries ++ [e.entry]).filterMap (settingChange x₀.key)) x'.value) := by
    intro x' hx' hk'
    constructor
    · rintro ⟨y₀, y, entries', hy₀, hy, -, hl, h⟩
      obtain rfl : x₀ = y₀ := Option.some.inj (h0.symm.trans hy₀)
      obtain rfl : x' = y := Option.some.inj (hx'.symm.trans hy)
      rw [List.append_cancel_left (hlogs'.symm.trans hl)]
      exact h
    · exact fun h => ⟨x₀, x', _, h0, hx', hk', hlogs', h⟩
  rw [← hk] at hnew hold ⊢
  rw [hold]
  rcases hm.setting_step hrel hx with ⟨hne, hrow, hnone⟩ | ⟨value, caller, validated, at_, rfl, hv, hrow, hsome⟩
  · rw [hnew hrow rfl, List.filterMap_append, List.filterMap_cons, hnone]
    simp only [List.filterMap_nil, List.append_nil]
    refine (and_iff_left ?_).symm
    rintro ⟨value, caller, validated, id', y, rfl, -⟩
    exact hne rfl
  · have hone : [e.entry].filterMap (settingChange x.key) =
        [(x.value, if differs x validated then validated else x.value)] := by
      rw [List.filterMap_cons, hsome]
      rfl
    have hresp : Respells tables (.updateSetting x.key value caller) x.key db ↔
        (x.value.eq validated = true ∧ x.value.typeName ≠ validated.typeName) := by
      constructor
      · rintro ⟨value', caller', validated', id', y, hq, hv', hy, hyk, hne⟩
        cases hq
        obtain rfl : validated = validated' := Except.ok.inj (hv.symm.trans hv')
        obtain rfl : id = id' := db.uniqueKey _ _ _ _ hx hy hyk.symm
        obtain rfl : x = y := Option.some.inj (hx.symm.trans hy)
        exact hne
      · exact fun h => ⟨value, caller, validated, id, x, rfl, hv, hx, rfl, h⟩
    rw [hnew hrow (edited_key ..), List.filterMap_append, hone, Chain.snoc_iff, hresp,
      ← edited_value_iff caller.actorUserId at_]

/-! ## Runs -/

variable [DecidableEq ι] {A : World store ι → Event store ι → Prop} {db : Db} {req : ι → Request} {s s' : Sys store ι}

/-- The commit of an update, on the row that it locked. -/
theorem updateSetting_commit {key : String} {value : Json} {caller : Caller} (hr : Reach A (system tables db req) s)
    (h : Step A s s') (htr : s'.world.tr = s.world.tr ++ [⟨i, .commit⟩])
    (hq : req i = .updateSetting key value caller) :
    ∃ (at_ : Instant) (x : Setting) (validated : Json), Did s.world i .now at_ ∧
      Did s.world i (.selectSettingForUpdate key) (some x) ∧ validateValue tables key value = .ok validated ∧
      (s.world.db.rows .setting).row x.id = some x ∧
      (s'.world.db.rows .setting).row x.id = some (edited x validated caller.actorUserId at_) := by
  obtain ⟨e, hm, hrel⟩ := commit_step hr h htr
  rw [hq] at hm
  obtain ⟨at_, x, validated, hn, hd, hk, hv, rfl⟩ := hm.updateSetting
  obtain ⟨hrow, hafter, -⟩ := hrel.setting (edited_id ..)
  exact ⟨at_, x, validated, hn, hd, hv, hrow, hafter⟩

/-- Only the commit of an update of a setting changes its row. -/
theorem setting_changed {id : Uuid} (hr : Reach A (system tables db req) s) (h : Step A s s')
    (hne : (s'.world.db.rows .setting).row id ≠ (s.world.db.rows .setting).row id) :
    ∃ i key value caller x, req i = .updateSetting key value caller ∧ s'.world.tr = s.world.tr ++ [⟨i, .commit⟩] ∧
      (s.world.db.rows .setting).row id = some x ∧ Setting.key x = key := by
  rcases Logic.step_cases (Φ := contract tables A req) (fun _ => runs rfl) once hr h with ⟨i, hq⟩ | ⟨i, f, -, -, hc, hw⟩
  · exact absurd (by rw [hq.db]) hne
  · obtain ⟨-, e, hm, hrel, -⟩ := hc
    rw [hw] at hne
    change ((f s.world.db).rows .setting).row id ≠ _ at hne
    cases hq : req i with
    | updateSetting key value caller =>
      rw [hq] at hm
      obtain ⟨at_, x, validated, -, -, hk, -, rfl⟩ := hm.updateSetting
      obtain ⟨hrow, -, hothers⟩ := hrel.setting (edited_id ..)
      obtain rfl : id = x.id := by
        by_contra hid
        exact hne (hothers id hid)
      exact ⟨i, key, value, caller, x, hq, by rw [hw]; rfl, hrow, hk⟩
    | _ =>
      obtain ⟨⟨t, ht⟩, -⟩ := hm.reference (by rw [hq]; rfl)
      exact absurd (hrel.others .setting id fun h => by rw [ht] at h; cases h) hne

/-- A step keeps the audit rows of a setting truthful exactly if they were, and no commit respells a number. -/
theorem truthful_step {id : Uuid} {x₀ : Setting} (hr : Reach A (system tables db req) s) (h : Step A s s')
    (h0 : (db.rows .setting).row id = some x₀) : Truthful db s'.world.db id ↔ Truthful db s.world.db id ∧
      ∀ i, s'.world.tr = s.world.tr ++ [⟨i, .commit⟩] → ¬Respells tables (req i) x₀.key s.world.db := by
  rcases Logic.step_cases (Φ := contract tables A req) (fun _ => runs rfl) once hr h with
    ⟨j, hq⟩ | ⟨j, f, -, -, ⟨-, e, hm, hrel, -⟩, hw⟩
  · rw [hq.db]
    refine (and_iff_left fun i htr => ?_).symm
    obtain ⟨a, ha, hne, -⟩ := hq.tr
    rw [ha] at htr
    cases List.append_cancel_left htr
    exact absurd rfl hne
  · have hs := serializable hr
    obtain ⟨entries, hlogs, -⟩ := hs.audited
    obtain ⟨x, hx, hk⟩ := hs.setting_row h0
    rw [hw]
    refine (Truthful.commit h0 hx hk hlogs hm hrel).trans (and_congr_right fun _ => ?_)
    refine ⟨fun hn i htr => ?_, fun hn => hn j rfl⟩
    cases List.append_cancel_left htr
    exact hn

/-- The audit rows of a setting are truthful exactly if no update that was committed respelled a number. -/
theorem truthful_iff {id : Uuid} {x₀ : Setting} (hr : Reach A (system tables db req) s)
    (h0 : (db.rows .setting).row id = some x₀) : Truthful db s.world.db id ↔
      ∀ i db₁ db₂, Stores A (system tables db req) s i db₁ db₂ → ¬Respells tables (req i) x₀.key db₁ := by
  constructor
  · rintro h i db₁ db₂ ⟨s₁, s₂, h₁, hstep, h₂, htr, rfl, rfl⟩
    -- no later step mends what a commit broke
    have back : Truthful db s₂.world.db id := by
      clear hr
      induction h₂ with
      | refl => exact h
      | tail hpre hlast ih => exact ih ((truthful_step ((h₁.tail hstep).trans hpre) hlast h0).mp h).1
    exact ((truthful_step h₁ hstep h0).mp back).2 i htr
  · intro h
    induction hr with
    | refl => exact ⟨x₀, x₀, [], h0, h0, rfl, (List.append_nil _).symm, rfl⟩
    | tail hpre hstep ih =>
      refine (truthful_step hpre hstep h0).mpr ⟨ih fun i db₁ db₂ hst => h i db₁ db₂ (hst.tail hstep), fun i htr => ?_⟩
      exact h i _ _ ⟨_, _, hpre, hstep, .refl, htr, rfl, rfl⟩

variable (tables db req s) in
/-- What the audit log of the state `s` says of the settings, and what the next step does to them. -/
structure SettingsHistory : Prop where
  /-- One audit row for each committed command, in commit order; those on one setting lead from its first value to
  the stored one, up to how a number is spelled. -/
  audited : ∃ entries, s.world.db.auditLogs = db.auditLogs ++ entries ∧
    List.Forall₂ (fun i entry => (req i).Audits entry) (commits s.world.tr) entries ∧
    ∀ id x₀, (db.rows .setting).row id = some x₀ → ∃ x, (s.world.db.rows .setting).row id = some x ∧
      x.key = x₀.key ∧
      Chain (fun c => c.1.spelled) (fun c => c.2.spelled) x₀.value.spelled
        (entries.filterMap (settingChange x₀.key)) x.value.spelled
  /-- They do so to the letter exactly if no committed update respelled a number … -/
  truthful : ∀ id x₀, (db.rows .setting).row id = some x₀ → (Truthful db s.world.db id ↔
    ∀ i db₁ db₂, Stores Any (system tables db req) s i db₁ db₂ → ¬Respells tables (req i) x₀.key db₁)
  /-- … as none does if the first value is no number, or of the type that its setting declares. -/
  typed : ∀ id x₀ d, (db.rows .setting).row id = some x₀ → definitionFor x₀.key = .ok d → WellTyped d x₀.value →
    Truthful db s.world.db id
  once : (commits s.world.tr).Nodup
  rejected : ∀ i e, ⟨i, .done (.error e)⟩ ∈ s.world.tr → i ∉ commits s.world.tr
  /-- A committed update edits the row that it locked. -/
  commit : ∀ s' i key value caller, Step Any s s' → s'.world.tr = s.world.tr ++ [⟨i, .commit⟩] →
    req i = .updateSetting key value caller → ∃ at_ x validated, Did s.world i .now at_ ∧
      Did s.world i (.selectSettingForUpdate key) (some x) ∧ validateValue tables key value = .ok validated ∧
      (s.world.db.rows .setting).row x.id = some x ∧
      (s'.world.db.rows .setting).row x.id = some (edited x validated caller.actorUserId at_)
  /-- Nothing else changes it. -/
  frame : ∀ s' id, Step Any s s' → (s'.world.db.rows .setting).row id ≠ (s.world.db.rows .setting).row id →
    ∃ i key value caller x, req i = .updateSetting key value caller ∧
      s'.world.tr = s.world.tr ++ [⟨i, .commit⟩] ∧ (s.world.db.rows .setting).row id = some x ∧ x.key = key

/-- Two administrators set the cap to one value. -/
def capTwice : Fin 2 → Request := fun i => .updateSetting "daily_download_cap" (.int 30) ⟨i + 1, none, none⟩

/-- A switch that was restored as the number one. -/
def restoredDb : Db where
  rows
    | .setting => Table.empty.insert ⟨1, "accepting_orders", .boolean, .int 1, none, none, 0, 0⟩
    | .reference _ => .empty
  uniqueKey := by
    intro id id' x x' hx hx' _
    rw [Table.row_insert] at hx hx'
    simp [Table.empty] at hx hx'
    rw [hx.1, hx'.1]
  users := [1, 2]
  auditLogs := []

/-- Two administrators turn it on. -/
def turnOnTwice : Fin 2 → Request := fun i => .updateSetting "accepting_orders" (.bool true) ⟨i + 1, none, none⟩

/-- The types of the values that the audit rows of the setting `key` name. -/
def changedTypes (key : String) (db : Db) : List (String × String) :=
  (db.auditLogs.filterMap (settingChange key)).map fun c => (c.1.typeName, c.2.typeName)

end Bekaa3D.Admin
