import Bekaa3D.Txn.Chain
import Bekaa3D.Admin.Settings

/-!
# Admin.Lifecycle — categories, materials and colours over their lives

* `Request.assigns`: the fields of a row that a command assigns.
* `Request.Edits`: what an update or an archival makes of the value it has locked.
* `Serial.value_chain`, `Serial.last_write`: the audit rows of a value, and its fields, along committed commands.
* `reference_lifecycle`: any number of commands, in any interleaving.
-/

namespace Bekaa3D.Admin

open Txn
open Identity (Uuid Instant)
open Platform (Json Setting Unicode)
open Catalog (Category ReferenceValue ReferenceType ValueType Value CatalogError normaliseSlug)

/-! ## What a command assigns -/

structure Fields where
  name : Option String := none
  slug : Option String := none
  isActive : Option Bool := none

/-- The fields of the row that the command assigns. -/
def Request.assigns (tables : Unicode) (t : ReferenceType) (id : Uuid) : Request → Fields
  | .updateCategory categoryId name slug isActive _ =>
    if t = .category ∧ id = categoryId then ⟨name, slug.bind fun slug => (normaliseSlug tables slug).toOption, isActive⟩
    else {}
  | .archiveCategory categoryId _ => if t = .category ∧ id = categoryId then { isActive := some false } else {}
  | .updateReferenceValue t' valueId name isActive _ =>
    if t = .value t' ∧ id = valueId then { name, isActive } else {}
  | .archiveReferenceValue t' valueId _ => if t = .value t' ∧ id = valueId then { isActive := some false } else {}
  | _ => {}

/-- The command makes `v'` of the value `v` that it has locked, at the time `at_`. -/
structure Request.Edits (tables : Unicode) (q : Request) {t : ReferenceType} (v v' : Value t) (at_ : Instant) : Prop where
  live : v.base.isArchived = false
  id : v'.base.id = v.base.id
  same : v'.content = v.content → v' = v
  stamped : v'.content ≠ v.content → v'.base.updatedAt = at_
  inactive : v'.base.isArchived = true → v'.base.isActive = false
  name : v'.base.name = (q.assigns tables t v.base.id).name.getD v.base.name
  slug : v'.slug = v.slug.map ((q.assigns tables t v.base.id).slug.getD ·)
  isActive : v'.base.isActive = (q.assigns tables t v.base.id).isActive.getD v.base.isActive

/-- A flush writes every column that is assigned. -/
theorem saved_value {t : ReferenceType} {v v' : Value t} (hid : v'.base.id = v.base.id)
    (hc : v'.base.createdAt = v.base.createdAt) : Row.saved (t := .reference t) v v' = v' := by
  cases t with
  | category =>
    obtain ⟨⟨id, name, isActive, deletedAt, createdAt, updatedAt⟩, slug⟩ := v'
    cases hid
    cases hc
    change Cols.applyCategory (categoryCols v _) v = _
    simp [Cols.applyCategory, Cols.applyBase, categoryCols, valueCols]
    exact ⟨rfl, rfl⟩
  | value t =>
    obtain ⟨id, name, isActive, deletedAt, createdAt, updatedAt⟩ := v'
    cases hid
    cases hc
    change Cols.applyBase (valueCols v _) v = _
    simp [Cols.applyBase, valueCols]
    exact ⟨rfl, rfl⟩

section Edits

variable {tables : Unicode} {q : Request} {t : ReferenceType} {v : Value t} {at_ : Instant}

/-- An archival. -/
theorem edits_archive (hlive : v.base.isArchived = false)
    (hq : q.assigns tables t v.base.id = { isActive := some false }) :
    Row.saved (t := .reference t) v (v.archive at_) = v.archive at_ ∧ q.Edits tables v (v.archive at_) at_ := by
  have hb : (v.archive at_).base = v.base.archive at_ := Value.archive_base
  refine ⟨saved_value (by rw [hb]; rfl) (by rw [hb]; rfl), hlive, by rw [hb]; rfl, fun h => ?_, fun _ => by rw [hb]; rfl,
    fun _ => by rw [hb]; rfl, by rw [hb, hq]; rfl, ?_, by rw [hb, hq]; rfl⟩
  · have hd : (v.archive at_).base.deletedAt = v.base.deletedAt := congrArg (fun c => c.2.2.2) h
    rw [hb] at hd
    simp [ReferenceValue.isArchived, ← hd, ReferenceValue.archive] at hlive
  · rw [Value.archive_slug, hq]
    cases v.slug <;> rfl

/-- An update. -/
theorem edits_update {name slug : Option String} {isActive : Option Bool} (hlive : v.base.isArchived = false)
    (hname : (q.assigns tables t v.base.id).name = name)
    (hslug : v.slug.map ((q.assigns tables t v.base.id).slug.getD ·) = v.slug.map (slug.getD ·))
    (hactive : (q.assigns tables t v.base.id).isActive = isActive) :
    (if (v.applyUpdate name slug isActive at_).1 then
        Row.saved (t := .reference t) v (v.applyUpdate name slug isActive at_).2 else v) =
      (v.applyUpdate name slug isActive at_).2 ∧ q.Edits tables v (v.applyUpdate name slug isActive at_).2 at_ := by
  obtain ⟨hid, hdel, hcreated⟩ := @Value.applyUpdate_frame t v name slug isActive at_
  obtain ⟨hn, hs, ha⟩ := @Value.applyUpdate_fields t v name slug isActive at_
  cases hch : (v.applyUpdate name slug isActive at_).1 with
  | false =>
    have hsame : (v.applyUpdate name slug isActive at_).2 = v := Value.applyUpdate_unchanged hch
    rw [hsame] at hn hs ha ⊢
    refine ⟨by simp, hlive, rfl, fun _ => rfl, fun h => absurd rfl h, fun h => ?_, by rw [hname]; exact hn,
      by rw [hslug]; exact hs, by rw [hactive]; exact ha⟩
    rw [hlive] at h
    cases h
  | true =>
    obtain ⟨hat, hne⟩ := Value.applyUpdate_changed hch
    refine ⟨by rw [if_pos rfl]; exact saved_value hid hcreated, hlive, hid, fun h => absurd h hne, fun _ => hat,
      fun h => ?_, by rw [hname]; exact hn, by rw [hslug]; exact hs, by rw [hactive]; exact ha⟩
    unfold ReferenceValue.isArchived at h hlive
    rw [hdel, hlive] at h
    cases h

end Edits

/-! ## What a command on reference data makes -/

/-- The audit row is about the row. -/
def concerns (t : ReferenceType) (id : Uuid) (entry : AuditLogEntry) : Bool :=
  entry.entityType = t.name && entry.entityId = some id

theorem ReferenceType.name_inj {t t' : ReferenceType} (h : t.name = t'.name) : t = t' := by
  have ne : ∀ t t' : ValueType, (ReferenceType.value t).name = (ReferenceType.value t').name → t = t' := by
    intro t t'
    cases t <;> cases t' <;> simp [Catalog.ReferenceType.name]
  cases t with
  | category => 
    cases t' with
    | category => rfl
    | value t' => cases t' <;> simp [Catalog.ReferenceType.name] at h
  | value t =>
    cases t' with
    | category => cases t <;> simp [Catalog.ReferenceType.name] at h
    | value t' => rw [ne t t' h]

theorem concerns_entryOf {t t' : ReferenceType} {id id' : Uuid} {action : String} {caller : Caller}
    {before after : Option AuditData} :
    concerns t id (entryOf (.reference t') action caller id' before after) = decide (t = t' ∧ id = id') := by
  unfold concerns entryOf EntityType.name
  by_cases ht : t = t'
  · subst ht
    simp [eq_comm]
  · have hn : t'.name ≠ t.name := fun h => ht (ReferenceType.name_inj h).symm
    simp [hn, ht]

variable {ι : Type} {tables : Unicode} {w : World store ι} {i : ι} {e : Edit} {q : Request}

variable (tables w i q e) in
/-- The command edits a value that it has locked. -/
def EditsValue : Prop :=
  ∃ (t : ReferenceType) (v v' : Value t) (at_ : Instant) (action : String), Did w i .now at_ ∧
    Did w i (.selectForUpdate t v.base.id) (some v) ∧ q.Edits tables v v' at_ ∧
    (∀ t' id, (t' = t → id ≠ v.base.id) → q.assigns tables t' id = {}) ∧
    e = ⟨.reference t, some v, v', entryOf (.reference t) action q.caller v.base.id (some v.auditSnapshot)
      (some v'.auditSnapshot)⟩

theorem MakesOf.values {t : ReferenceType} {valueId : Uuid}
    {change : Value t → Except CatalogError (Instant → Bool × Value t)} {action : String} {caller : Caller}
    (h : MakesOf w i t valueId (valueCommand t valueId change action caller) e) (hc : q.caller = caller)
    (hedits : ∀ v at_ ch, v.base.id = valueId → v.base.isArchived = false → change v = .ok ch →
      (if (ch at_).1 then Row.saved (t := .reference t) v (ch at_).2 else v) = (ch at_).2 ∧
        q.Edits tables v (ch at_).2 at_)
    (hother : ∀ t' id, ¬(t' = t ∧ id = valueId) → q.assigns tables t' id = {}) : EditsValue tables w i e q := by
  obtain ⟨at_, v, hn, hd, hid, ch, hch, rfl⟩ := h
  obtain ⟨hlive, hch⟩ := valueCommand_change hch
  obtain ⟨hafter, hedit⟩ := hedits v at_ ch hid hlive hch
  subst hid
  refine ⟨t, v, (ch at_).2, at_, action, hn, hd, hedit, fun t' id hne => hother t' id fun h => hne h.1 h.2, ?_⟩
  rw [hafter, hc]
  rfl

/-- A value is created, or one that is not archived is edited. -/
theorem Request.Makes.values (h : q.Makes w i tables e) (hq : q.setting = none) :
    (∃ (t : ReferenceType) (v : Value t) (action : String), e = ⟨.reference t, none, v, createdEntry t action q.caller v⟩ ∧
      v.base.isArchived = false ∧ ∀ t' id, q.assigns tables t' id = {}) ∨ EditsValue tables w i e q := by
  cases q with
  | updateSetting => cases hq
  | createCategory =>
    obtain ⟨slug', v, -, hv, -, rfl⟩ := h
    exact Or.inl ⟨.category, v, _, rfl, by rw [hv]; rfl, fun _ _ => rfl⟩
  | createReferenceValue t =>
    obtain ⟨v, hv, -, rfl⟩ := h
    refine Or.inl ⟨.value t, v, _, rfl, ?_, fun _ _ => rfl⟩
    change v.isArchived = false
    rw [hv]
    rfl
  | updateCategory categoryId name slug isActive caller =>
    refine Or.inr (MakesOf.values h rfl (fun v at_ ch hid hlive hch => ?_) fun t' id hne => if_neg hne)
    obtain ⟨slug', hs, rfl⟩ := UpdateCategory.change_eq hch
    have hassigns : Request.assigns tables .category v.base.id (.updateCategory categoryId name slug isActive caller) =
        ⟨name, slug.bind fun slug => (normaliseSlug tables slug).toOption, isActive⟩ := if_pos ⟨rfl, hid⟩
    have hslug : (slug.bind fun slug => (normaliseSlug tables slug).toOption) = slug' := by
      cases slug with
      | none => cases hs; rfl
      | some raw =>
        dsimp only [normaliseGiven] at hs
        cases hn : normaliseSlug tables raw with
        | error e => rw [hn] at hs; cases hs
        | ok s => rw [hn] at hs; cases hs; simp [hn, Except.toOption]
    exact edits_update hlive (by rw [hassigns]) (by rw [hassigns, hslug]) (by rw [hassigns])
  | archiveCategory categoryId caller =>
    refine Or.inr (MakesOf.values h rfl (fun v at_ ch hid hlive hch => ?_) fun t' id hne => if_neg hne)
    cases hch
    exact edits_archive hlive (if_pos ⟨rfl, hid⟩)
  | updateReferenceValue t valueId name isActive caller =>
    refine Or.inr (MakesOf.values h rfl (fun v at_ ch hid hlive hch => ?_) fun t' id hne => if_neg hne)
    cases hch
    have hassigns : Request.assigns tables (.value t) v.base.id (.updateReferenceValue t valueId name isActive caller) =
        { name, isActive } := if_pos ⟨rfl, hid⟩
    exact @edits_update tables _ (.value t) v at_ name none isActive hlive (by rw [hassigns]) rfl (by rw [hassigns])
  | archiveReferenceValue t valueId caller =>
    refine Or.inr (MakesOf.values h rfl (fun v at_ ch hid hlive hch => ?_) fun t' id hne => if_neg hne)
    cases hch
    exact edits_archive hlive (if_pos ⟨rfl, hid⟩)

/-- What a committed command does to the row of `t` with `id`, which was `r` and is `r'`, and what its audit row says
of it. -/
inductive Effect (tables : Unicode) (w : World store ι) (i : ι) (q : Request) (t : ReferenceType) (id : Uuid)
    (entry : AuditLogEntry) : Option (Value t) → Option (Value t) → Prop where
  | untouched (r : Option (Value t)) (hc : concerns t id entry = false) (ha : q.assigns tables t id = {}) :
    Effect tables w i q t id entry r r
  | created (v : Value t) (hc : concerns t id entry = true) (ha : q.assigns tables t id = {})
    (hlive : v.base.isArchived = false) (hb : entry.beforeData = none) (haf : entry.afterData = some v.auditSnapshot) :
    Effect tables w i q t id entry none (some v)
  | edited (v v' : Value t) (at_ : Instant) (hc : concerns t id entry = true) (hid : v.base.id = id)
    (hn : Did w i .now at_) (hl : Did w i (.selectForUpdate t id) (some v)) (he : q.Edits tables v v' at_)
    (hb : entry.beforeData = some v.auditSnapshot) (haf : entry.afterData = some v'.auditSnapshot) :
    Effect tables w i q t id entry (some v) (some v')

variable {db db' : Db}

/-- **The effect of a commit** on a value. -/
theorem Request.Makes.effect (h : q.Makes w i tables e) (hrel : e.Rel db db') (t : ReferenceType) (id : Uuid) :
    Effect tables w i q t id e.entry ((db.rows (.reference t)).row id) ((db'.rows (.reference t)).row id) := by
  cases hq : q.setting with
  | some key =>
    cases q with
    | updateSetting key value caller =>
      obtain ⟨at_, x, validated, -, -, -, -, rfl⟩ := h.updateSetting
      rw [hrel.others (.reference t) id fun h => by cases h]
      refine .untouched _ ?_ rfl
      rcases t with _ | _ | _ <;> rfl
    | _ => cases hq
  | none =>
    rcases h.values hq with ⟨t', v, action, rfl, hlive, hassigns⟩ |
      ⟨t', v, v', at_, action, hn, hl, hedits, hother, rfl⟩
    · by_cases hk : t = t' ∧ id = v.base.id
      · obtain ⟨rfl, rfl⟩ := hk
        have hrow : (db.rows (.reference t)).row v.base.id = none := hrel.before
        have hrow' : (db'.rows (.reference t)).row v.base.id = some v := hrel.after
        rw [hrow, hrow']
        exact .created v (by simp [createdEntry, concerns_entryOf]) (hassigns _ _) hlive rfl rfl
      · rw [hrel.others (.reference t) id fun ht hid => hk ⟨by cases ht; rfl, hid⟩]
        exact .untouched _ (by simp only [createdEntry, concerns_entryOf, hk]; rfl) (hassigns _ _)
    · have hid' : Row.id (t := .reference t') v' = v.base.id := hedits.id
      by_cases hk : t = t' ∧ id = v.base.id
      · obtain ⟨rfl, rfl⟩ := hk
        have hrow := hrel.before
        have hrow' := hrel.after
        dsimp only at hrow hrow'
        rw [hid'] at hrow hrow'
        rw [hrow, hrow']
        exact .edited v v' at_ (by simp [concerns_entryOf]) rfl hn hl hedits rfl rfl
      · rw [hrel.others (.reference t) id fun ht hid => hk ⟨by cases ht; rfl, hid.trans hid'⟩]
        refine .untouched _ (by simp only [concerns_entryOf, hk]; rfl) (hother t id fun ht hid => hk ⟨ht, hid⟩)

namespace Effect

variable {t : ReferenceType} {id : Uuid} {entry : AuditLogEntry} {r r' : Option (Value t)} {v : Value t}

/-- The audit row, if it is about the row, leads from what it was to what it is. -/
theorem chain {s₀ : Option AuditData} {entries : List AuditLogEntry} (h : Effect tables w i q t id entry r r')
    (hchain : Chain AuditLogEntry.beforeData AuditLogEntry.afterData s₀ (entries.filter (concerns t id))
      (r.map Value.auditSnapshot)) :
    Chain AuditLogEntry.beforeData AuditLogEntry.afterData s₀ ((entries ++ [entry]).filter (concerns t id))
      (r'.map Value.auditSnapshot) := by
  rw [List.filter_append]
  cases h with
  | untouched r hc =>
    rw [List.filter_cons_of_neg (by simp [hc])]
    simpa using hchain
  | created v hc _ _ hb haf =>
    rw [List.filter_cons_of_pos (by simp [hc]), Option.map_some, ← haf]
    exact hchain.snoc hb
  | edited v v' at_ hc _ _ _ _ hb haf =>
    rw [List.filter_cons_of_pos (by simp [hc]), Option.map_some, ← haf]
    exact hchain.snoc hb

theorem inactive (h : Effect tables w i q t id entry r r')
    (hr : ∀ v, r = some v → v.base.isArchived = true → v.base.isActive = false) :
    ∀ v, r' = some v → v.base.isArchived = true → v.base.isActive = false := by
  intro v hv ha
  cases h with
  | untouched => exact hr v hv ha
  | created v' _ _ hlive =>
    cases hv
    rw [hlive] at ha
    cases ha
  | edited v₀ v' at_ _ _ _ _ he =>
    cases hv
    exact he.inactive ha

/-- An archived row stays as it is. -/
theorem frozen (h : Effect tables w i q t id entry r r') (hr : r = some v) (ha : v.base.isArchived = true) :
    r' = some v := by
  cases h with
  | untouched => exact hr
  | created => cases hr
  | edited v₀ v' at_ _ _ _ _ he =>
    cases hr
    rw [he.live] at ha
    cases ha

/-- A row changes with its content only, and is stamped then. -/
theorem stamped (h : Effect tables w i q t id entry r r') (hr : r = some v) : ∃ v', r' = some v' ∧
    (v'.content = v.content → v' = v) ∧
    (v'.content ≠ v.content → ∃ at_, Did w i .now at_ ∧ v'.base.updatedAt = at_) := by
  cases h with
  | untouched => exact ⟨v, hr, fun _ => rfl, fun h => absurd rfl h⟩
  | created => cases hr
  | edited v₀ v' at_ _ _ hn _ he =>
    cases hr
    exact ⟨v', rfl, he.same, fun hne => ⟨at_, hn, he.stamped hne⟩⟩

end Effect

/-! ## Along committed commands -/

section Serial

variable {db₀ : Db} {req : ι → Request} {is : List ι} {t : ReferenceType} {id : Uuid}

/-- The audit rows of a value lead from what it was to what it is. -/
theorem Serial.value_chain (h : Serial tables req w db₀ is db) {entries : List AuditLogEntry}
    (hlogs : db.auditLogs = db₀.auditLogs ++ entries) :
    Chain AuditLogEntry.beforeData AuditLogEntry.afterData (((db₀.rows (.reference t)).row id).map Value.auditSnapshot)
      (entries.filter (concerns t id)) (((db.rows (.reference t)).row id).map Value.auditSnapshot) := by
  induction h generalizing entries with
  | nil =>
    have hnil : entries = [] := by simpa using hlogs
    rw [hnil]
    rfl
  | @snoc is db db' i e hs hm hrel ih =>
    obtain ⟨entries', hl, -⟩ := hs.audited
    obtain rfl : entries = entries' ++ [e.entry] := by
      rw [hrel.logs, hl, List.append_assoc] at hlogs
      exact (List.append_cancel_left hlogs).symm
    exact (hm.effect hrel t id).chain (ih hl)

theorem Serial.inactive (h : Serial tables req w db₀ is db)
    (h0 : ∀ v, (db₀.rows (.reference t)).row id = some v → v.base.isArchived = true → v.base.isActive = false) :
    ∀ v, (db.rows (.reference t)).row id = some v → v.base.isArchived = true → v.base.isActive = false := by
  induction h with
  | nil => exact h0
  | snoc _ hm hrel ih => exact (hm.effect hrel t id).inactive ih

/-- The last command to assign a field decides it. -/
theorem Serial.last_write {β : Type} {f : Fields → Option β} {g : Value t → Option β} (hnone : f {} = none)
    (hset : ∀ (q : Request) (v v' : Value t) at_ x, q.Edits tables v v' at_ →
      f (q.assigns tables t v.base.id) = some x → g v' = some x)
    (hkeep : ∀ (q : Request) (v v' : Value t) at_, q.Edits tables v v' at_ →
      f (q.assigns tables t v.base.id) = none → g v' = g v)
    (h : Serial tables req w db₀ is db) {pre post : List ι} {x : β} (his : is = pre ++ i :: post)
    (hi : f ((req i).assigns tables t id) = some x) (hpost : ∀ j ∈ post, f ((req j).assigns tables t id) = none) :
    ∃ v, (db.rows (.reference t)).row id = some v ∧ g v = some x := by
  induction h generalizing post with
  | nil => simp at his
  | @snoc is db db' j e hs hm hrel ih =>
    have heff := hm.effect hrel t id
    rcases List.eq_nil_or_concat post with rfl | ⟨post, k, rfl⟩
    · -- the last command is the one that assigns
      obtain ⟨-, hlast⟩ := List.append_inj' his rfl
      cases hlast
      generalize (db.rows (.reference t)).row id = r at heff
      generalize (db'.rows (.reference t)).row id = r' at heff
      cases heff with
      | untouched _ _ ha | created _ _ ha =>
        rw [ha, hnone] at hi
        cases hi
      | edited v v' at_ _ hid _ _ he =>
        subst hid
        exact ⟨v', rfl, hset _ v v' at_ x he hi⟩
    · rw [List.concat_eq_append, ← List.cons_append, ← List.append_assoc] at his
      obtain ⟨hinit, hlast⟩ := List.append_inj' his rfl
      cases hlast
      obtain ⟨v, hv, hx⟩ := ih hinit fun j hj => hpost j (by simp [hj])
      rw [hv] at heff
      generalize (db'.rows (.reference t)).row id = r' at heff
      cases heff with
      | untouched => exact ⟨v, rfl, hx⟩
      | edited v v' at_ _ hid _ _ he =>
        subst hid
        exact ⟨v', rfl, by rw [hkeep _ v v' at_ he (hpost _ (by simp)), hx]⟩

end Serial

/-- Only categories have a slug assigned. -/
theorem assigns_slug {tables : Unicode} {q : Request} {t : ReferenceType} {id : Uuid} {slug : String}
    (h : (q.assigns tables t id).slug = some slug) : t = .category := by
  cases q with
  | updateCategory =>
    by_contra ht
    simp [Request.assigns, ht] at h
  | updateSetting | createCategory | createReferenceValue => cases h
  | archiveCategory | updateReferenceValue | archiveReferenceValue =>
    simp only [Request.assigns] at h
    split at h <;> cases h

/-! ## Every interleaving -/

variable [DecidableEq ι] {A : World store ι → Event store ι → Prop} {req : ι → Request} {s s' : Sys store ι}

/-- One step, on one value. -/
theorem value_step (hr : Reach A (system tables db req) s) (h : Step A s s') (t : ReferenceType) (id : Uuid) :
    (s'.world.db.rows (.reference t)).row id = (s.world.db.rows (.reference t)).row id ∨
      ∃ i entry, s'.world.tr = s.world.tr ++ [⟨i, .commit⟩] ∧ Effect tables s.world i (req i) t id entry
        ((s.world.db.rows (.reference t)).row id) ((s'.world.db.rows (.reference t)).row id) := by
  rcases Logic.step_cases (Φ := contract tables A req) (fun _ => runs rfl) once hr h with ⟨i, hq⟩ | ⟨i, f, -, -, hc, hw⟩
  · exact Or.inl (by rw [hq.db])
  · obtain ⟨-, e, hm, hrel, -⟩ := hc
    rw [hw]
    exact Or.inr ⟨i, e.entry, rfl, hm.effect hrel t id⟩

/-- Once a row is archived it stays as it is. -/
theorem archived_frozen {t : ReferenceType} {id : Uuid} {v : Value t} (hr : Reach A (system tables db req) s)
    (hs : Reach A s s') (hv : (s.world.db.rows (.reference t)).row id = some v) (ha : v.base.isArchived = true) :
    (s'.world.db.rows (.reference t)).row id = some v := by
  induction hs with
  | refl => exact hv
  | tail hpre hstep ih =>
    rcases value_step (hr.trans hpre) hstep t id with h | ⟨i, entry, -, h⟩
    · rw [h, ih]
    · exact h.frozen ih ha

/-- What is true of the catalogue's reference data in the state `s`, and of the steps from it. -/
structure Lifecycle (tables : Unicode) (db : Db) (req : ι → Request) (s : Sys store ι) : Prop where
  inactive : ∀ t id v, (s.world.db.rows (.reference t)).row id = some v → v.base.deletedAt ≠ none →
    v.base.isActive = false
  frozen : ∀ s' t id v, Reach Any s s' → (s.world.db.rows (.reference t)).row id = some v → v.base.deletedAt ≠ none →
    (s'.world.db.rows (.reference t)).row id = some v
  /-- One audit row for each committed command; those about a value lead from what it was at the start (nothing, if
  it is created since) to what it is. -/
  audited : ∃ entries, s.world.db.auditLogs = db.auditLogs ++ entries ∧
    List.Forall₂ (fun i entry => (req i).Audits entry) (commits s.world.tr) entries ∧
    ∀ t id, Chain AuditLogEntry.beforeData AuditLogEntry.afterData
      (((db.rows (.reference t)).row id).map Value.auditSnapshot) (entries.filter (concerns t id))
      (((s.world.db.rows (.reference t)).row id).map Value.auditSnapshot)
  /-- A row stays, as it is unless a name, a slug, an `is_active` or a `deleted_at` changes; `updated_at` is then the
  time of the command. -/
  stamped : ∀ s' t id v, Step Any s s' → (s.world.db.rows (.reference t)).row id = some v →
    ∃ v', (s'.world.db.rows (.reference t)).row id = some v' ∧ (v'.content = v.content → v' = v) ∧
      (v'.content ≠ v.content → ∃ i at_, s'.world.tr = s.world.tr ++ [⟨i, .commit⟩] ∧ Did s.world i .now at_ ∧
        v'.base.updatedAt = at_)
  /-- What a committed command assigned to a field persists until another assigns it. -/
  persists : ∀ pre i post t id, commits s.world.tr = pre ++ i :: post →
    (∀ name, ((req i).assigns tables t id).name = some name →
      (∀ j ∈ post, ((req j).assigns tables t id).name = none) →
      ∃ v, (s.world.db.rows (.reference t)).row id = some v ∧ v.base.name = name) ∧
    (∀ slug, ((req i).assigns tables t id).slug = some slug →
      (∀ j ∈ post, ((req j).assigns tables t id).slug = none) →
      ∃ v, (s.world.db.rows (.reference t)).row id = some v ∧ v.slug = some slug) ∧
    ∀ isActive, ((req i).assigns tables t id).isActive = some isActive →
      (∀ j ∈ post, ((req j).assigns tables t id).isActive = none) →
      ∃ v, (s.world.db.rows (.reference t)).row id = some v ∧ v.base.isActive = isActive
  /-- A command that raises commits nothing, and only commits change the database. -/
  rejected : ∀ i e, ⟨i, .done (.error e)⟩ ∈ s.world.tr → i ∉ commits s.world.tr
  quiet : ∀ s', Step Any s s' → s'.world.db = s.world.db ∨ ∃ i, s'.world.tr = s.world.tr ++ [⟨i, .commit⟩]

/-- **Reference-data lifecycle**: in every reachable state of every interleaving, if archived rows are inactive at
the start. -/
theorem reference_lifecycle
    (h0 : ∀ t id v, (db.rows (.reference t)).row id = some v → v.base.deletedAt ≠ none → v.base.isActive = false)
    (hr : Reach Any (system tables db req) s) : Lifecycle tables db req s := by
  have hs := serializable hr
  have archived : ∀ {t : ReferenceType} {v : Value t}, v.base.deletedAt ≠ none ↔ v.base.isArchived = true :=
    Option.ne_none_iff_isSome
  refine ⟨fun t id v hv hd => ?_, fun s' t id v h hv hd => archived_frozen hr h hv (archived.mp hd), ?_,
    fun s' t id v h hv => ?_, fun pre i post t id his => ⟨fun name hi hpost => ?_, fun slug hi hpost => ?_,
      fun isActive hi hpost => ?_⟩, fun i e he => mem_commits.not.mpr (rejected_not_committed hr he), fun s' h => ?_⟩
  · exact hs.inactive (fun v hv ha => h0 t id v hv (archived.mpr ha)) v hv (archived.mp hd)
  · obtain ⟨entries, hlogs, hall⟩ := hs.audited
    exact ⟨entries, hlogs, hall, fun t id => hs.value_chain hlogs⟩
  · rcases value_step hr h t id with hsame | ⟨i, entry, htr, heff⟩
    · exact ⟨v, by rw [hsame, hv], fun _ => rfl, fun hne => absurd rfl hne⟩
    · obtain ⟨v', hv', hc, hne⟩ := heff.stamped hv
      refine ⟨v', hv', hc, fun hd => ?_⟩
      obtain ⟨at_, hn, hat⟩ := hne hd
      exact ⟨i, at_, htr, hn, hat⟩
  · obtain ⟨v, hv, hn⟩ := hs.last_write (f := Fields.name) (g := fun v => some v.base.name) rfl
      (fun q v v' at_ x he hx => by rw [he.name, hx]; rfl) (fun q v v' at_ he hx => by rw [he.name, hx]; rfl) his hi hpost
    exact ⟨v, hv, Option.some.inj hn⟩
  · obtain rfl := assigns_slug hi
    exact hs.last_write (f := Fields.slug) (g := Value.slug) rfl
      (fun q v v' at_ x he hx => by rw [he.slug, hx]; rfl) (fun q v v' at_ he hx => by rw [he.slug, hx]; rfl) his hi hpost
  · obtain ⟨v, hv, hn⟩ := hs.last_write (f := Fields.isActive) (g := fun v => some v.base.isActive) rfl
      (fun q v v' at_ x he hx => by rw [he.isActive, hx]; rfl) (fun q v v' at_ he hx => by rw [he.isActive, hx]; rfl)
      his hi hpost
    exact ⟨v, hv, Option.some.inj hn⟩
  · rcases Logic.step_cases (Φ := contract tables Any req) (fun _ => runs rfl) once hr h with
      ⟨i, hq⟩ | ⟨i, f, -, -, -, hw⟩
    · exact Or.inl hq.db
    · exact Or.inr ⟨i, by rw [hw]; rfl⟩

/-- A category is created, renamed and archived. -/
def lampsRequests : Fin 3 → Request
  | 0 => .createCategory "Lamps" " lamps" true ⟨1, none, none⟩
  | 1 => .updateCategory 7 (some "Lights") none none ⟨2, none, none⟩
  | 2 => .archiveCategory 7 ⟨1, none, none⟩

theorem reference_lifecycle_lamps : ∃ s, Reach Any (system sampleTables sampleDb lampsRequests) s ∧
    commits s.world.tr = [0, 1, 2] ∧ Lifecycle sampleTables sampleDb lampsRequests s := by
  obtain ⟨s, hr, hs⟩ := play_any player (fun _ _ => true) (A := Any) (fun _ => trivial)
    (system sampleTables sampleDb lampsRequests)
    (List.replicate 4 (.go 0 7) ++ List.replicate 7 (.go 1 5) ++ List.replicate 7 (.go 2 6))
    (fun s => commits s.world.tr = [0, 1, 2]) (by decide +kernel)
  refine ⟨s, hr, of_decide_eq_true hs, reference_lifecycle (fun t id v hv => ?_) hr⟩
  cases hv

end Bekaa3D.Admin
