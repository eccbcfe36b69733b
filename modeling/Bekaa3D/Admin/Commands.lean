import Bekaa3D.Admin.Store

/-!
# Admin.Commands — the administrators' commands

The commands on settings (`platform/application/commands/update_setting.py`) and on reference data
(`catalog/application/commands/category_admin.py`, `value_admin.py`), with the repository methods they call.

* `edit`: what every command does to the row it has locked: check, change, save if anything moved, audit.
* `Request`, `handle`: a command as one transaction, committed when it returns.
-/

namespace Bekaa3D.Admin

open Txn
open Identity (Uuid Instant)
open Platform (Json Setting PlatformError Unicode definitionFor validateValue)
open Catalog (Category ReferenceValue ReferenceType ValueType Value CatalogError normaliseSlug)

/-- One statement. -/
def stmt (o : Op) : Handler (Resp o) := Prog.sql (S := lang) o

def raise {α : Type} (e : AdminError) : Handler α := Prog.raise e

/-! ## Repositories -/

/-- The columns that the `save` of a row writes: those whose assigned value is not `==` to the loaded one. -/
def settingCols (model setting : Setting) : Cols where
  value := if model.value.eq setting.value then none else some setting.value
  updatedBy := changed model.updatedBy setting.updatedBy
  updatedAt := changed model.updatedAt setting.updatedAt

def valueCols (model value : ReferenceValue) : Cols where
  name := changed model.name value.name
  isActive := changed model.isActive value.isActive
  deletedAt := changed model.deletedAt value.deletedAt
  updatedAt := changed model.updatedAt value.updatedAt

def categoryCols (model category : Category) : Cols :=
  { valueCols model.toReferenceValue category.toReferenceValue with slug := changed model.slug category.slug }

def Row.cols : {t : EntityType} → Row t → Row t → Cols
  | .setting, model, setting => settingCols model setting
  | .reference .category, model, category => categoryCols model category
  | .reference (.value _), model, value => valueCols model value

/-- What the `save` of a row raises when another live category has its slug. -/
def Row.conflictError : {t : EntityType} → Row t → AdminError
  | .reference .category, v => .catalog (.slugConflict (Category.slug v))
  | _, _ => .integrity

/-- The `save` of every repository. -/
def save (t : EntityType) (row : Row t) : Handler Unit := do
  match ← stmt (.select t row.id) with
  | none => raise (.notFound row.id)
  | some model =>
    if (model.cols row).isEmpty then return ()
    else
      match ← stmt (.update t row.id (model.cols row)) with
      | .ok true => return ()
      | .ok false => raise .staleData
      | .error .liveSlug => raise row.conflictError
      | .error .foreignKey => raise .integrity

/-- A row is saved if anything moved. -/
def saveChanged (t : EntityType) (after : Bool × Row t) : Handler Unit := if after.1 then save t after.2 else pure ()

namespace CategoryRepository

def add (name slug : String) (isActive : Bool) : Handler Category := do
  match ← stmt (.insertCategory name slug isActive) with
  | .ok category => return category
  | .error .liveSlug => raise (.catalog (.slugConflict slug))
  | .error .foreignKey => raise .integrity

end CategoryRepository

/-- `AuditWriter.record` and `AuditLogRepository.add`. -/
def record (entry : AuditLogEntry) : Handler Unit := do
  if ← stmt (.insertAudit entry) then return () else raise .integrity

/-! ## Edits of a locked row -/

/-- Who makes a request. -/
structure Caller where
  actorUserId : Uuid
  requestId : Option String
  ipHash : Option String
  deriving DecidableEq, Repr

/-- What a command on an existing row does to it. -/
structure EditCommand (t : EntityType) where
  /-- The checks on the locked row, and the change to make at the current time. -/
  change : Row t → Except AdminError (Instant → Bool × Row t)
  action : String
  /-- What the audit row says of a row. -/
  snapshot : Row t → AuditData
  caller : Caller

/-- The audit row of a command. -/
def entryOf (t : EntityType) (action : String) (caller : Caller) (id : Uuid) (before after : Option AuditData) :
    AuditLogEntry where
  actorUserId := some caller.actorUserId
  action := action
  entityType := t.name
  entityId := some id
  beforeData := before
  afterData := after
  requestId := caller.requestId
  ipHash := caller.ipHash

def EditCommand.entry {t : EntityType} (c : EditCommand t) (before after : Row t) : AuditLogEntry :=
  entryOf t c.action c.caller before.id (some (c.snapshot before)) (some (c.snapshot after))

/-- What a command does after it has locked the row. -/
def edit {t : EntityType} (c : EditCommand t) (row : Row t) : Handler (Bool × Row t) := do
  let change ← Prog.ofExcept (S := lang) (c.change row)
  let now ← stmt .now
  let after := change now
  saveChanged t after
  record (c.entry row after.2)
  return after

/-! ## Settings -/

namespace UpdateSetting

def command (tables : Unicode) (key : String) (value : Json) (caller : Caller) : EditCommand .setting where
  change setting := do
    let validated ← (validateValue tables key value).mapError .platform
    return fun now => Setting.changeValue setting validated caller.actorUserId now
  action := "setting.updated"
  snapshot setting := [("key", .str key), ("value", Setting.value setting)]
  caller := caller

def execute (tables : Unicode) (key : String) (value : Json) (caller : Caller) : Handler Answer := do
  -- the registry first: an unregistered key is refused before any lock is taken
  let _ ← Prog.ofExcept (S := lang) ((definitionFor key).mapError .platform)
  match ← stmt (.selectSettingForUpdate key) with
  | none => raise (.platform (.settingNotFound key))
  | some setting => do
    let (changed, setting) ← edit (command tables key value caller) setting
    return .mutation .setting setting changed

end UpdateSetting

/-! ## Reference data -/

/-- The commands on a category, material or colour: an archived row is final. -/
def valueCommand (t : ReferenceType) (id : Uuid) (change : Value t → Except CatalogError (Instant → Bool × Value t))
    (action : String) (caller : Caller) : EditCommand (.reference t) where
  change v :=
    if v.base.isArchived then .error (.catalog (.archivedValueNotMutable t.name id))
    else (change v).mapError .catalog
  action := action
  snapshot v := v.auditSnapshot
  caller := caller

/-- The row is locked before anything of it is read. -/
def editValue (t : ReferenceType) (id : Uuid) (change : Value t → Except CatalogError (Instant → Bool × Value t))
    (action : String) (caller : Caller) : Handler (Bool × Value t) := do
  match ← stmt (.selectForUpdate t id) with
  | none => raise (.catalog (.referenceValueNotFound t.name id))
  | some v => edit (valueCommand t id change action caller) v

/-- The audit row of a creation. -/
def createdEntry (t : ReferenceType) (action : String) (caller : Caller) (v : Value t) : AuditLogEntry :=
  entryOf (.reference t) action caller v.base.id none (some v.auditSnapshot)

/-- `normalise_slug(slug) if slug is not None else None`. -/
def normaliseGiven (tables : Unicode) : Option String → Except CatalogError (Option String)
  | none => .ok none
  | some slug => (normaliseSlug tables slug).map some

namespace CreateCategory

def execute (tables : Unicode) (name slug : String) (isActive : Bool) (caller : Caller) : Handler Answer := do
  let slug ← Prog.ofExcept (S := lang) ((normaliseSlug tables slug).mapError .catalog)
  let category ← CategoryRepository.add name slug isActive
  record (createdEntry .category "category.created" caller category)
  return .entity (.reference .category) category

end CreateCategory

namespace UpdateCategory

def change (tables : Unicode) (name slug : Option String) (isActive : Option Bool) (category : Category) :
    Except CatalogError (Instant → Bool × Category) := do
  let slug ← normaliseGiven tables slug
  return fun now => category.applyUpdate name slug isActive now

def execute (tables : Unicode) (categoryId : Uuid) (name slug : Option String) (isActive : Option Bool)
    (caller : Caller) : Handler Answer := do
  let (changed, category) ←
    editValue .category categoryId (change tables name slug isActive) "category.updated" caller
  return .mutation (.reference .category) category changed

end UpdateCategory

namespace ArchiveCategory

def execute (categoryId : Uuid) (caller : Caller) : Handler Answer := do
  let (_, category) ← editValue .category categoryId (fun category => .ok fun now => (true, Category.archive category now))
    "category.archived" caller
  return .entity (.reference .category) category

end ArchiveCategory

/-- The audit action, derived from the audit `entity_type`. -/
def ValueType.action (t : ValueType) (verb : String) : String := (ReferenceType.value t).name.toLower ++ verb

namespace CreateReferenceValue

def execute (t : ValueType) (name : String) (isActive : Bool) (caller : Caller) : Handler Answer := do
  let value ← stmt (.insertValue t name isActive)
  record (createdEntry (.value t) (ValueType.action t ".created") caller value)
  return .entity (.reference (.value t)) value

end CreateReferenceValue

namespace UpdateReferenceValue

def execute (t : ValueType) (valueId : Uuid) (name : Option String) (isActive : Option Bool) (caller : Caller) :
    Handler Answer := do
  let (changed, value) ← editValue (.value t) valueId
    (fun value => .ok fun now => ReferenceValue.applyUpdate value name isActive now) (ValueType.action t ".updated") caller
  return .mutation (.reference (.value t)) value changed

end UpdateReferenceValue

namespace ArchiveReferenceValue

def execute (t : ValueType) (valueId : Uuid) (caller : Caller) : Handler Answer := do
  let (_, value) ← editValue (.value t) valueId (fun value => .ok fun now => (true, ReferenceValue.archive value now))
    (ValueType.action t ".archived") caller
  return .entity (.reference (.value t)) value

end ArchiveReferenceValue

/-! ## Requests -/

inductive Request where
  | updateSetting (key : String) (value : Json) (caller : Caller)
  | createCategory (name slug : String) (isActive : Bool) (caller : Caller)
  | updateCategory (categoryId : Uuid) (name slug : Option String) (isActive : Option Bool) (caller : Caller)
  | archiveCategory (categoryId : Uuid) (caller : Caller)
  | createReferenceValue (t : ValueType) (name : String) (isActive : Bool) (caller : Caller)
  | updateReferenceValue (t : ValueType) (valueId : Uuid) (name : Option String) (isActive : Option Bool)
      (caller : Caller)
  | archiveReferenceValue (t : ValueType) (valueId : Uuid) (caller : Caller)

def execute (tables : Unicode) : Request → Handler Answer
  | .updateSetting key value caller => UpdateSetting.execute tables key value caller
  | .createCategory name slug isActive caller => CreateCategory.execute tables name slug isActive caller
  | .updateCategory id name slug isActive caller => UpdateCategory.execute tables id name slug isActive caller
  | .archiveCategory id caller => ArchiveCategory.execute id caller
  | .createReferenceValue t name isActive caller => CreateReferenceValue.execute t name isActive caller
  | .updateReferenceValue t id name isActive caller => UpdateReferenceValue.execute t id name isActive caller
  | .archiveReferenceValue t id caller => ArchiveReferenceValue.execute t id caller

/-- `get_session` wraps the command. -/
def handle (tables : Unicode) (q : Request) : Handler Answer := Prog.transaction (S := lang) (execute tables q)

end Bekaa3D.Admin
