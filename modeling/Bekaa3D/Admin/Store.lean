import Bekaa3D.Txn.Engine
import Bekaa3D.Txn.Table
import Bekaa3D.Catalog.Entities

/-!
# Admin.Store — settings and reference data under administrators' edits

The tables that administrators edit (`platform/infrastructure/models.py`, `catalog/infrastructure/models.py`) and
the statements against them, as an instance of `Txn.Engine`.

* `Row t`: the rows of the four tables, as one family.
* `Cols`: the columns that a flush writes; for the value of a setting, only if it is not `==` to the loaded one.
* `resp`: foreign keys and the unique index on live slugs are checked against the rows the statement sees.
* `need`: a `SELECT … FOR UPDATE`, an `UPDATE` and an `INSERT` lock their row; a write that makes an entry of the
  index on live slugs locks the entry.
-/

namespace Bekaa3D.Admin

open Txn
open Identity (Uuid Instant)
open Platform (Json Setting PlatformError)
open Catalog (Category ReferenceValue ReferenceType ValueType Value CatalogError)

/-! ## Tables -/

inductive EntityType where
  | setting
  | reference (t : ReferenceType)
  deriving DecidableEq, Repr

/-- The audit `entity_type`. -/
def EntityType.name : EntityType → String
  | .setting => "Setting"
  | .reference t => t.name

@[reducible] def Row : EntityType → Type
  | .setting => Setting
  | .reference t => Value t

def Row.id : {t : EntityType} → Row t → Uuid
  | .setting, x => Setting.id x
  | .reference _, v => v.base.id

abbrev Rows (t : EntityType) := @Table Uuid (Row t) Row.id

/-- A document of `audit_logs`. -/
abbrev AuditData := List (String × Json)

structure AuditLogEntry where
  actorUserId : Option Uuid
  action : String
  entityType : String
  entityId : Option Uuid
  beforeData : Option AuditData
  afterData : Option AuditData
  requestId : Option String
  ipHash : Option String

structure Db where
  rows : (t : EntityType) → Rows t
  /-- `UNIQUE (key)`. -/
  uniqueKey : ∀ id id' (x x' : Setting), (rows .setting).row id = some x → (rows .setting).row id' = some x' →
    x.key = x'.key → id = id'
  users : List Uuid
  auditLogs : List AuditLogEntry

/-! ## What a flush writes -/

structure Cols where
  value : Option Json := none
  updatedBy : Option (Option Uuid) := none
  name : Option String := none
  slug : Option String := none
  isActive : Option Bool := none
  deletedAt : Option (Option Instant) := none
  updatedAt : Option Instant := none

def Cols.isEmpty (c : Cols) : Bool :=
  c.value.isNone && c.updatedBy.isNone && c.name.isNone && c.slug.isNone && c.isActive.isNone &&
    c.deletedAt.isNone && c.updatedAt.isNone

def Cols.applyBase (c : Cols) (v : ReferenceValue) : ReferenceValue :=
  { v with
    name := c.name.getD v.name
    isActive := c.isActive.getD v.isActive
    deletedAt := c.deletedAt.getD v.deletedAt
    updatedAt := c.updatedAt.getD v.updatedAt }

def Cols.applySetting (c : Cols) (x : Setting) : Setting :=
  { x with
    value := c.value.getD x.value
    updatedBy := c.updatedBy.getD x.updatedBy
    updatedAt := c.updatedAt.getD x.updatedAt }

def Cols.applyCategory (c : Cols) (v : Category) : Category :=
  { v with toReferenceValue := c.applyBase v.toReferenceValue, slug := c.slug.getD v.slug }

def Cols.apply (c : Cols) : {t : EntityType} → Row t → Row t
  | .setting, x => c.applySetting x
  | .reference .category, v => c.applyCategory v
  | .reference (.value _), v => c.applyBase v

@[simp] theorem Cols.apply_id (c : Cols) {t : EntityType} (x : Row t) : (c.apply x).id = x.id := by
  rcases t with _ | _ | _ <;> rfl

namespace Db

/-- `UPDATE … WHERE id = …`. -/
def update (db : Db) (t : EntityType) (id : Uuid) (cols : Cols) : Db where
  rows := Function.update db.rows t ((db.rows t).modify id cols.apply cols.apply_id)
  uniqueKey k k' x x' := by
    have key : ∀ k x, (Function.update db.rows t ((db.rows t).modify id cols.apply cols.apply_id) .setting).row k = some x →
        ∃ y : Setting, (db.rows .setting).row k = some y ∧ y.key = Setting.key x := by
      intro k x h
      by_cases ht : EntityType.setting = t
      · subst ht
        rw [Function.update_self, Table.row_modify] at h
        split at h
        · obtain ⟨y, hy, rfl⟩ := Option.map_eq_some_iff.mp h
          exact ⟨y, hy, rfl⟩
        · exact ⟨x, h, rfl⟩
      · rw [Function.update_of_ne ht] at h
        exact ⟨x, h, rfl⟩
    intro hx hx' hkey
    obtain ⟨y, hy, hyk⟩ := key k x hx
    obtain ⟨y', hy', hyk'⟩ := key k' x' hx'
    exact db.uniqueKey k k' y y' hy hy' (by rw [hyk, hyk', hkey])
  users := db.users
  auditLogs := db.auditLogs

/-- `INSERT`, of reference data only. -/
def insert (db : Db) (t : ReferenceType) (v : Value t) : Db where
  rows := Function.update db.rows (.reference t) (Table.insert (db.rows (.reference t)) v)
  uniqueKey k k' x x' := by
    rw [Function.update_of_ne (by simp)]
    exact db.uniqueKey k k' x x'
  users := db.users
  auditLogs := db.auditLogs

theorem update_rows_self (db : Db) (t : EntityType) (id : Uuid) (cols : Cols) :
    (db.update t id cols).rows t = (db.rows t).modify id cols.apply cols.apply_id := Function.update_self ..

theorem update_rows_ne (db : Db) {t t' : EntityType} (h : t' ≠ t) (id : Uuid) (cols : Cols) :
    (db.update t id cols).rows t' = db.rows t' := Function.update_of_ne h ..

theorem insert_rows_self (db : Db) (t : ReferenceType) (v : Value t) :
    (db.insert t v).rows (.reference t) = Table.insert (db.rows (.reference t)) v := Function.update_self ..

theorem insert_rows_ne (db : Db) {t : ReferenceType} {t' : EntityType} (h : t' ≠ .reference t) (v : Value t) :
    (db.insert t v).rows t' = db.rows t' := Function.update_of_ne h ..

/-- The foreign key from a nullable column to `users`. -/
def hasUser (db : Db) : Option Uuid → Bool
  | none => true
  | some u => decide (u ∈ db.users)

end Db

/-! ## Statements -/

inductive Violation where
  | foreignKey
  /-- `ix_categories_live_slug`. -/
  | liveSlug
  deriving DecidableEq, Repr

inductive Op where
  | now
  | selectSettingForUpdate (key : String)
  | selectForUpdate (t : ReferenceType) (id : Uuid)
  | select (t : EntityType) (id : Uuid)
  | insertCategory (name slug : String) (isActive : Bool)
  | insertValue (t : ValueType) (name : String) (isActive : Bool)
  /-- `UPDATE` of the row with an `id`. -/
  | update (t : EntityType) (id : Uuid) (cols : Cols)
  | insertAudit (entry : AuditLogEntry)

@[reducible] def Resp : Op → Type
  | .now => Instant
  | .selectSettingForUpdate _ => Option Setting
  | .selectForUpdate t _ => Option (Value t)
  | .select t _ => Option (Row t)
  | .insertCategory _ _ _ => Except Violation Category
  | .insertValue _ _ _ => ReferenceValue
  | .update _ _ _ => Except Violation Bool
  | .insertAudit _ => Bool

/-- The exceptions that reach a handler. -/
inductive AdminError where
  | platform (e : PlatformError)
  | catalog (e : CatalogError)
  /-- `save` of a row that is gone. -/
  | notFound (id : Uuid)
  /-- A flush whose `UPDATE` matched no row. -/
  | staleData
  | integrity
  deriving DecidableEq, Repr

/-- What a command returns: the entity, and for an edit whether anything moved. -/
inductive Answer where
  | entity (t : EntityType) (row : Row t)
  | mutation (t : EntityType) (row : Row t) (changed : Bool)

@[reducible] def lang : Lang where
  Op := Op
  Resp := Resp
  Err := AdminError
  Ans := Answer

abbrev Handler := Prog lang

/-! ## Replies -/

/-- A row of the index on live slugs. -/
def live (slug : String) (v : Category) : Bool := v.deletedAt.isNone && v.slug = slug

/-- The index has the slug of a live category already, for another row. -/
def Db.SlugTaken (db : Db) (v : Category) : Prop :=
  v.deletedAt = none ∧ ∃ (id : Uuid) (v' : Category),
    (db.rows (.reference .category)).row id = some v' ∧ live v.slug v' = true ∧ id ≠ v.id

def Db.Violates (db : Db) : {t : EntityType} → Row t → Prop
  | .reference .category, v => db.SlugTaken v
  | _, _ => False

def resp : (o : Op) → Db → Resp o → Prop
  | .now, _, _ => True
  | .selectSettingForUpdate key, db, r => (db.rows .setting).Picks (fun x => Setting.key x = key) r
  | .selectForUpdate t id, db, r => r = (db.rows (.reference t)).row id
  | .select t id, db, r => r = (db.rows t).row id
  | .insertCategory name slug isActive, db, .ok v =>
      v = ⟨⟨v.id, name, isActive, none, v.createdAt, v.createdAt⟩, slug⟩ ∧
        (db.rows (.reference .category)).row v.id = none ∧ ¬db.SlugTaken v
  | .insertCategory _ slug _, db, .error e => e = .liveSlug ∧ ∃ (id : Uuid) (v : Category),
      (db.rows (.reference .category)).row id = some v ∧ live slug v = true
  | .insertValue t name isActive, db, v =>
      v = ⟨v.id, name, isActive, none, v.createdAt, v.createdAt⟩ ∧ (db.rows (.reference (.value t))).row v.id = none
  | .update t id cols, db, .ok hit => hit = ((db.rows t).row id).isSome ∧ db.hasUser cols.updatedBy.join = true ∧
      ∀ x, (db.rows t).row id = some x → ¬db.Violates (cols.apply x)
  | .update _ _ cols, db, .error .foreignKey => db.hasUser cols.updatedBy.join = false
  | .update t id cols, db, .error .liveSlug => ∃ x, (db.rows t).row id = some x ∧ db.Violates (cols.apply x)
  | .insertAudit entry, db, r => r = db.hasUser entry.actorUserId

/-! ## Locks -/

inductive Lock where
  | row (t : EntityType) (id : Uuid)
  /-- An entry of the index on live slugs. -/
  | liveSlug (slug : String)
  /-- The whole index: an update that un-archives a row. -/
  | liveSlugs
  deriving DecidableEq, Repr

def Lock.conflict : Lock → Lock → Bool
  | .row t id, .row t' id' => t = t' && id = id'
  | .liveSlug slug, .liveSlug slug' => slug = slug'
  | .liveSlug _, .liveSlugs => true
  | .liveSlugs, .liveSlug _ => true
  | .liveSlugs, .liveSlugs => true
  | _, _ => false

theorem Lock.conflict_comm (l m : Lock) : l.conflict m = m.conflict l := by
  cases l <;> cases m <;> simp [conflict, eq_comm]

/-- The entry of the index that an update may make. -/
def Cols.entry (c : Cols) : EntityType → List Lock
  | .reference .category =>
    (match c.slug with | some slug => [.liveSlug slug] | none => []) ++
      match c.deletedAt with | some none => [.liveSlugs] | _ => []
  | _ => []

def need : (o : Op) → Resp o → List Lock
  | .selectSettingForUpdate _, some x => [.row .setting x.id]
  | .selectForUpdate t _, some v => [.row (.reference t) v.base.id]
  | .insertCategory _ _ _, .ok v => [.row (.reference .category) v.id, .liveSlug v.slug]
  | .insertValue t _ _, v => [.row (.reference (.value t)) v.id]
  | .update t id cols, .ok true => .row t id :: cols.entry t
  | _, _ => []

/-! ## Effects -/

def write : (o : Op) → Resp o → Db → Db
  | .insertCategory _ _ _, .ok v, db => db.insert .category v
  | .insertValue t _ _, v, db => db.insert (.value t) v
  | .update t id cols, .ok true, db => db.update t id cols
  | .insertAudit entry, true, db => { db with auditLogs := db.auditLogs ++ [entry] }
  | _, _, db => db

/-! ## What a lock protects -/

def Prot : Lock → Db → Db → Prop
  | .row t id, db, db' => (db'.rows t).row id = (db.rows t).row id
  | .liveSlug slug, db, db' =>
      NoNew (fun v => live slug v = true) (db.rows (.reference .category)) (db'.rows (.reference .category))
  | .liveSlugs, _, _ => True

theorem prot_refl (l : Lock) (db : Db) : Prot l db db := by
  cases l with
  | row t id => rfl
  | liveSlug slug => exact .refl
  | liveSlugs => trivial

theorem prot_trans {l : Lock} {a b c : Db} (h : Prot l a b) (h' : Prot l b c) : Prot l a c := by
  cases l with
  | row t id => exact Eq.trans h' h
  | liveSlug slug => exact NoNew.trans h h'
  | liveSlugs => trivial

section Covered

variable {l : Lock} {db : Db}

theorem prot_insert {t : ReferenceType} {v : Value t} (hrow : l ≠ .row (.reference t) v.base.id)
    (hslug : ∀ slug, l = .liveSlug slug → v.slug ≠ some slug) : Prot l db (db.insert t v) := by
  cases l with
  | row t' id =>
    change ((db.insert t v).rows t').row id = _
    by_cases ht : t' = .reference t
    · subst ht
      rw [Db.insert_rows_self]
      exact Table.row_insert_ne fun h => hrow (by rw [h]; rfl)
    · rw [Db.insert_rows_ne db ht]
  | liveSlug slug =>
    change NoNew (fun v => live slug v = true) _ ((db.insert t v).rows (.reference .category))
    cases t with
    | category =>
      rw [Db.insert_rows_self]
      refine NoNew.insert fun h => hslug slug rfl ?_
      simp [live] at h
      simp [Value.slug, h.2]
    | value t =>
      rw [Db.insert_rows_ne db (by simp)]
      exact .refl
  | liveSlugs => trivial

theorem prot_update {t : EntityType} {id : Uuid} {cols : Cols} (hrow : l ≠ .row t id)
    (hslug : ∀ slug, l = .liveSlug slug → ∀ v : Category, t = .reference .category →
      live slug (cols.applyCategory v) = true → live slug v = true) :
    Prot l db (db.update t id cols) := by
  cases l with
  | row t' id' =>
    change ((db.update t id cols).rows t').row id' = _
    by_cases ht : t' = t
    · subst ht
      rw [Db.update_rows_self]
      exact Table.row_modify_ne (fun h => hrow (by rw [h])) _ _
    · rw [Db.update_rows_ne db ht]
  | liveSlug slug =>
    change NoNew (fun v => live slug v = true) _ ((db.update t id cols).rows (.reference .category))
    by_cases ht : .reference .category = t
    · subst ht
      rw [Db.update_rows_self]
      exact NoNew.modify fun v => hslug slug rfl v rfl
    · rw [Db.update_rows_ne db ht]
      exact .refl
  | liveSlugs => trivial

/-- An update that takes no lock of the slug's entry makes no row live with it. -/
theorem live_applyCategory {slug : String} {cols : Cols} {v : Category}
    (h : ∀ m ∈ cols.entry (.reference .category), m.conflict (.liveSlug slug) = false)
    (hl : live slug (cols.applyCategory v) = true) : live slug v = true := by
  have hdel : cols.deletedAt ≠ some none := fun hd => by
    have := h .liveSlugs (by simp [Cols.entry, hd])
    cases this
  have hslug : cols.slug ≠ some slug := fun hs => by
    have := h (.liveSlug slug) (by simp [Cols.entry, hs])
    simp [Lock.conflict] at this
  unfold live Cols.applyCategory Cols.applyBase at hl
  unfold live
  rcases hd : cols.deletedAt with _ | _ | _
  · rcases hs : cols.slug with _ | slug'
    · simpa [hd, hs] using hl
    · rw [hs] at hslug
      simp [hs] at hl
      exact absurd (by rw [hl.2]) hslug
  · exact absurd hd hdel
  · simp [hd] at hl

theorem prot_auditLogs {entries : List AuditLogEntry} : Prot l db { db with auditLogs := entries } := by
  cases l with
  | row t id => rfl
  | liveSlug slug => exact NoNew.refl
  | liveSlugs => trivial

end Covered

/-- The locks that a statement takes cover what it writes. -/
theorem covered (o : Op) (r : Resp o) (l : Lock) (h : ∀ m ∈ need o r, m.conflict l = false) (db : Db) :
    Prot l db (write o r db) := by
  have ne : ∀ {t id}, .row t id ∈ need o r → l ≠ .row t id := fun hm hl => by
    have := h _ hm
    simp [hl, Lock.conflict] at this
  cases o with
  | insertCategory name slug isActive =>
    cases r with
    | error e => exact prot_refl l db
    | ok v =>
      refine prot_insert (ne (by simp [need, Value.base])) fun slug' hl hs => ?_
      have := h (.liveSlug v.slug) (by simp [need])
      simp [hl, Lock.conflict, Value.slug] at this hs
      exact this hs
  | insertValue t name isActive => exact prot_insert (ne (by simp [need, Value.base])) fun _ _ h => by cases h
  | update t id cols =>
    cases r with
    | error e => exact prot_refl l db
    | ok done =>
      cases done with
      | false => exact prot_refl l db
      | true =>
        refine prot_update (ne (by simp [need])) fun slug hl v ht => ?_
        subst ht
        exact live_applyCategory fun m hm => by
          rw [← hl]
          exact h m (List.mem_cons_of_mem _ hm)
  | insertAudit entry =>
    cases r with
    | false => exact prot_refl l db
    | true => exact prot_auditLogs
  | _ => exact prot_refl l db

/-- PostgreSQL under the administrators' edits.  Nothing is kept outside it. -/
@[reducible] def store : Engine where
  toLang := lang
  Db := Db
  Mem := Unit
  Lock := Lock
  conflict := Lock.conflict
  conflict_comm := Lock.conflict_comm
  resp o db _ _ := resp o db
  need := need
  write := write
  memo _ _ mem := mem
  Prot := Prot
  prot_refl := prot_refl
  prot_trans := prot_trans
  covered := covered

end Bekaa3D.Admin
