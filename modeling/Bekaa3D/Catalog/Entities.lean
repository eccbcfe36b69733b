import Bekaa3D.Platform.Registry

/-!
# Catalog.Entities — categories, materials and colours

The reference data of the catalogue with its lifecycle (`domain/entities.py`), its slugs (`domain/slug.py`) and
the exceptions it raises (`domain/exceptions.py`).

* A value is live, disabled (not active) or archived (`deletedAt` set); archiving is final.
* `Value t`: the entities of the three tables, as one family.
* `applyUpdate_changed`: an update says that it changed something exactly when a field that it may write differs.
-/

namespace Bekaa3D.Catalog

open Identity (Uuid Instant)
open Platform (Json Unicode strip)

inductive CatalogError where
  | referenceValueNotFound (entityType : String) (entityId : Uuid)
  | slugConflict (slug : String)
  | invalidSlug (slug reason : String)
  | archivedValueNotMutable (entityType : String) (entityId : Uuid)
  deriving DecidableEq, Repr

/-! ## Slugs -/

def maxSlugLength : ℕ := 200

/-- `[a-z0-9]`. -/
def isSlugChar (c : Char) : Bool := ('a' ≤ c && c ≤ 'z') || ('0' ≤ c && c ≤ '9')

/-- `$` also matches before a newline at the end. -/
def beforeNewline (s : List Char) : List Char := if s.getLast? = some '\n' then s.dropLast else s

/-- `^[a-z0-9]+(?:-[a-z0-9]+)*$`. -/
def matchesSlugPattern (s : String) : Bool :=
  ((beforeNewline s.toList).splitOn '-').all fun part => part ≠ [] && part.all isSlugChar

def normaliseSlug (tables : Unicode) (raw : String) : Except CatalogError String :=
  let candidate := tables.lower (strip raw)
  if candidate = "" then .error (.invalidSlug raw "slug must not be empty")
  else if maxSlugLength < candidate.length then
    .error (.invalidSlug raw ("slug must be at most " ++ toString maxSlugLength ++ " characters"))
  else if !matchesSlugPattern candidate then
    .error (.invalidSlug raw "slug may contain only lowercase letters, digits and single hyphens between them")
  else .ok candidate

/-! ## Timestamps -/

/-- A number of at least `width` digits. -/
def padded (width n : ℕ) : String := String.ofList ((toString n).toList.leftpad width '0')

/-- The year, month and day that many days after 1970-01-01. -/
def civil (days : ℕ) : ℕ × ℕ × ℕ :=
  let z := days + 719468
  let dayOfEra := z % 146097
  let yearOfEra := (dayOfEra - dayOfEra / 1460 + dayOfEra / 36524 - dayOfEra / 146096) / 365
  let dayOfYear := dayOfEra - (365 * yearOfEra + yearOfEra / 4 - yearOfEra / 100)
  let m := (5 * dayOfYear + 2) / 153
  let month := if m < 10 then m + 3 else m - 9
  let year := yearOfEra + z / 146097 * 400 + if month ≤ 2 then 1 else 0
  (year, month, dayOfYear - (153 * m + 2) / 5 + 1)

/-- `datetime.isoformat()`, in UTC. -/
def isoformat (t : Instant) : String :=
  let microseconds := t % 1000000
  let seconds := t / 1000000
  let (year, month, day) := civil (seconds / 86400)
  let fraction := if microseconds = 0 then "" else "." ++ padded 6 microseconds
  padded 4 year ++ "-" ++ padded 2 month ++ "-" ++ padded 2 day ++ "T" ++ padded 2 (seconds % 86400 / 3600) ++ ":" ++
    padded 2 (seconds % 3600 / 60) ++ ":" ++ padded 2 (seconds % 60) ++ fraction ++ "+00:00"

example : isoformat 1709210096000120 = "2024-02-29T12:34:56.000120+00:00" := by decide +kernel

/-! ## Entities -/

/-- A material or a colour, which have the same columns; and what a category has in common with them. -/
structure ReferenceValue where
  id : Uuid
  name : String
  isActive : Bool
  deletedAt : Option Instant
  createdAt : Instant
  updatedAt : Instant
  deriving DecidableEq, Repr

structure Category extends ReferenceValue where
  slug : String
  deriving DecidableEq, Repr

namespace ReferenceValue

def isArchived (v : ReferenceValue) : Bool := v.deletedAt.isSome

def auditSnapshot (v : ReferenceValue) : List (String × Json) :=
  [("name", .str v.name), ("is_active", .bool v.isActive),
   ("deleted_at", match v.deletedAt with | some t => .str (isoformat t) | none => .null)]

/-- Sets both columns in one step. -/
def archive (v : ReferenceValue) (at_ : Instant) : ReferenceValue :=
  { v with deletedAt := some at_, isActive := false, updatedAt := at_ }

/-- `Material.apply_update` and `Colour.apply_update`: whether anything changed, and the value after. -/
def applyUpdate (v : ReferenceValue) (name : Option String) (isActive : Option Bool) (at_ : Instant) :
    Bool × ReferenceValue :=
  let changed := (name.any fun x => x ≠ v.name) || isActive.any fun x => x ≠ v.isActive
  (changed, if changed then
      { v with name := name.getD v.name, isActive := isActive.getD v.isActive, updatedAt := at_ }
    else v)

end ReferenceValue

namespace Category

def auditSnapshot (v : Category) : List (String × Json) :=
  v.toReferenceValue.auditSnapshot ++ [("slug", .str v.slug)]

def archive (v : Category) (at_ : Instant) : Category := { v with toReferenceValue := v.toReferenceValue.archive at_ }

def applyUpdate (v : Category) (name slug : Option String) (isActive : Option Bool) (at_ : Instant) :
    Bool × Category :=
  let changed := (name.any fun x => x ≠ v.name) || (slug.any fun x => x ≠ v.slug) ||
    isActive.any fun x => x ≠ v.isActive
  (changed, if changed then
      { v with name := name.getD v.name, slug := slug.getD v.slug, isActive := isActive.getD v.isActive,
               updatedAt := at_ }
    else v)

end Category

/-! ## The three tables as one family -/

/-- The two resources that differ in nothing but their table and the name of their type. -/
inductive ValueType where
  | material
  | colour
  deriving DecidableEq, Repr

inductive ReferenceType where
  | category
  | value (t : ValueType)
  deriving DecidableEq, Repr

/-- The audit `entity_type`. -/
def ReferenceType.name : ReferenceType → String
  | .category => "Category"
  | .value .material => "Material"
  | .value .colour => "Colour"

@[reducible] def Value : ReferenceType → Type
  | .category => Category
  | .value _ => ReferenceValue

namespace Value

/-- The columns that the three tables have in common. -/
def base : {t : ReferenceType} → Value t → ReferenceValue
  | .category, v => v.toReferenceValue
  | .value _, v => v

def slug : {t : ReferenceType} → Value t → Option String
  | .category, v => some (Category.slug v)
  | .value _, _ => none

def auditSnapshot : {t : ReferenceType} → Value t → List (String × Json)
  | .category, v => Category.auditSnapshot v
  | .value _, v => ReferenceValue.auditSnapshot v

def archive : {t : ReferenceType} → Value t → Instant → Value t
  | .category, v, at_ => Category.archive v at_
  | .value _, v, at_ => ReferenceValue.archive v at_

/-- Materials and colours have no slug to update. -/
def applyUpdate : {t : ReferenceType} → Value t → Option String → Option String → Option Bool → Instant →
    Bool × Value t
  | .category, v, name, slug, isActive, at_ => Category.applyUpdate v name slug isActive at_
  | .value _, v, name, _, isActive, at_ => ReferenceValue.applyUpdate v name isActive at_

/-- What an edit may change, the time of the last change aside. -/
def content {t : ReferenceType} (v : Value t) : String × Option String × Bool × Option Instant :=
  (v.base.name, v.slug, v.base.isActive, v.base.deletedAt)

variable {t : ReferenceType} {v : Value t} {name slug : Option String} {isActive : Option Bool} {at_ : Instant}

@[simp] theorem archive_base : (v.archive at_).base = v.base.archive at_ := by
  cases t <;> rfl

@[simp] theorem archive_slug : (v.archive at_).slug = v.slug := by
  cases t <;> rfl

theorem any_ne {α : Type} [DecidableEq α] (o : Option α) (x : α) : (o.any fun y => y ≠ x) = decide (o.getD x ≠ x) := by
  cases o <;> simp

/-- An update that changes nothing. -/
theorem applyUpdate_unchanged (h : (v.applyUpdate name slug isActive at_).1 = false) :
    (v.applyUpdate name slug isActive at_).2 = v := by
  cases t with
  | category =>
    dsimp only [applyUpdate, Category.applyUpdate] at h ⊢
    rw [h]
    rfl
  | value _ =>
    dsimp only [applyUpdate, ReferenceValue.applyUpdate] at h ⊢
    rw [h]
    rfl

/-- The fields after an update. -/
theorem applyUpdate_fields : (v.applyUpdate name slug isActive at_).2.base.name = name.getD v.base.name ∧
    (v.applyUpdate name slug isActive at_).2.slug = v.slug.map (slug.getD ·) ∧
    (v.applyUpdate name slug isActive at_).2.base.isActive = isActive.getD v.base.isActive := by
  cases t with
  | category =>
    dsimp only [applyUpdate, Category.applyUpdate, any_ne, base]
    split
    · exact ⟨rfl, rfl, rfl⟩
    · rename_i h
      simp only [any_ne] at h
      simp at h
      simp [Value.slug, h]
  | value _ =>
    dsimp only [applyUpdate, ReferenceValue.applyUpdate, any_ne, base]
    split
    · exact ⟨rfl, rfl, rfl⟩
    · rename_i h
      simp only [any_ne] at h
      simp at h
      simp [Value.slug, h]

/-- An update leaves the other columns. -/
theorem applyUpdate_frame : (v.applyUpdate name slug isActive at_).2.base.id = v.base.id ∧
    (v.applyUpdate name slug isActive at_).2.base.deletedAt = v.base.deletedAt ∧
    (v.applyUpdate name slug isActive at_).2.base.createdAt = v.base.createdAt := by
  cases t with
  | category =>
    dsimp only [applyUpdate, Category.applyUpdate, base]
    split <;> exact ⟨rfl, rfl, rfl⟩
  | value _ =>
    dsimp only [applyUpdate, ReferenceValue.applyUpdate, base]
    split <;> exact ⟨rfl, rfl, rfl⟩

/-- An update that changes something stamps it. -/
theorem applyUpdate_changed (h : (v.applyUpdate name slug isActive at_).1 = true) :
    (v.applyUpdate name slug isActive at_).2.base.updatedAt = at_ ∧
      (v.applyUpdate name slug isActive at_).2.content ≠ v.content := by
  cases t with
  | category =>
    dsimp only [applyUpdate, Category.applyUpdate] at h ⊢
    rw [h]
    refine ⟨rfl, fun hc => ?_⟩
    simp only [any_ne] at h
    simp [content, base, Value.slug] at hc
    simp [hc] at h
  | value _ =>
    dsimp only [applyUpdate, ReferenceValue.applyUpdate] at h ⊢
    rw [h]
    refine ⟨rfl, fun hc => ?_⟩
    simp only [any_ne] at h
    simp [content, base] at hc
    simp [hc] at h

end Value

end Bekaa3D.Catalog
