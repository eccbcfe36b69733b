import Bekaa3D.Txn.Play
import Bekaa3D.Admin.System

/-!
# Admin.Play — schedules of administrators' commands

`player` answers the statements: queries from the rows that are there, clocks and generated keys by the schedule.
-/

namespace Bekaa3D.Admin

open Txn
open Identity (Uuid Instant)
open Platform (Setting Unicode)
open Catalog (Category ReferenceValue ReferenceType Value)

/-- Whether the index has the slug of a live category already, for another row. -/
def Db.slugTaken (db : Db) (v : Category) : Bool :=
  v.deletedAt.isNone && (Table.find (db.rows (.reference .category))
    fun v' : Category => live v.slug v' && v'.id ≠ v.id).isSome

theorem slugTaken_iff {db : Db} {v : Category} : db.SlugTaken v ↔ db.slugTaken v = true := by
  unfold Db.SlugTaken Db.slugTaken
  rw [Bool.and_eq_true, Option.isNone_iff_eq_none]
  refine and_congr_right fun _ => ?_
  have hf := Table.find_picks (t := db.rows (.reference .category))
    (p := fun v' : Category => live v.slug v' && v'.id ≠ v.id)
  constructor
  · rintro ⟨id, v', hrow, hlive, hne⟩
    cases hr : Table.find (db.rows (.reference .category)) fun v' : Category => live v.slug v' && v'.id ≠ v.id with
    | some _ => rfl
    | none =>
      rw [hr] at hf
      have hkey : v'.id = id := (db.rows (.reference .category)).row_key id v' hrow
      have := hf id v' hrow
      simp [hlive, hkey, hne] at this
  · intro h
    obtain ⟨v', hv'⟩ := Option.isSome_iff_exists.mp h
    rw [hv'] at hf
    have hc := hf.cond
    simp only [Bool.and_eq_true, decide_eq_true_eq] at hc
    exact ⟨_, v', hf.row, hc.1, hc.2⟩

def Db.violates (db : Db) : {t : EntityType} → Row t → Bool
  | .reference .category, v => db.slugTaken v
  | _, _ => false

theorem violates_iff {db : Db} {t : EntityType} {x : Row t} : db.Violates x ↔ db.violates x = true := by
  rcases t with _ | _ | _
  · simp [Db.Violates, Db.violates]
  · exact slugTaken_iff
  · simp [Db.Violates, Db.violates]

/-- The reply `r`, if the condition holds. -/
def replyIf {α : Type} (p : Bool) (r : α) : Option α := if p then some r else none

theorem replyIf_eq_some {α : Type} {p : Bool} {r r' : α} (h : replyIf p r = some r') : p = true ∧ r = r' := by
  unfold replyIf at h
  split at h
  · cases h; exact ⟨‹_›, rfl⟩
  · cases h

/-- The environment chooses a number at a statement. -/
def answer : (o : Op) → Db → ℕ → Option (Resp o)
  | .now, _, n => some n
  | .selectSettingForUpdate key, db, _ => some ((db.rows .setting).find fun x => Setting.key x = key)
  | .selectForUpdate t id, db, _ => some ((db.rows (.reference t)).row id)
  | .select t id, db, _ => some ((db.rows t).row id)
  | .insertCategory name slug isActive, db, n =>
      let v : Category := ⟨⟨n, name, isActive, none, 0, 0⟩, slug⟩
      replyIf (((db.rows (.reference .category)).row n).isNone && !db.slugTaken v) (.ok v)
  | .insertValue t name isActive, db, n =>
      replyIf ((db.rows (.reference (.value t))).row n).isNone ⟨n, name, isActive, none, 0, 0⟩
  | .update t id cols, db, _ =>
      if db.hasUser cols.updatedBy.join then
        match (db.rows t).row id with
        | none => some (.ok false)
        | some x => some (if db.violates (cols.apply x) then .error .liveSlug else .ok true)
      else some (.error .foreignKey)
  | .insertAudit entry, db, _ => some (db.hasUser entry.actorUserId)

theorem answer_sound {o : Op} {db : Db} {n : ℕ} {r : Resp o} (h : answer o db n = some r) : resp o db r := by
  cases o with
  | now => trivial
  | selectSettingForUpdate key =>
    cases h
    exact Table.find_picks
  | insertCategory name slug isActive =>
    obtain ⟨hp, rfl⟩ := replyIf_eq_some h
    rw [Bool.and_eq_true, Option.isNone_iff_eq_none] at hp
    refine ⟨rfl, hp.1, fun hv => ?_⟩
    rw [slugTaken_iff.mp hv] at hp
    simp at hp
  | insertValue t name isActive =>
    obtain ⟨hp, rfl⟩ := replyIf_eq_some h
    exact ⟨rfl, by simpa using hp⟩
  | update t id cols =>
    dsimp only [answer] at h
    split at h
    · rename_i hu
      cases hx : (db.rows t).row id with
      | none =>
        rw [hx] at h
        cases h
        exact ⟨by rw [hx]; rfl, hu, fun x hx' => by rw [hx] at hx'; cases hx'⟩
      | some x =>
        rw [hx] at h
        cases h
        by_cases hc : db.violates (cols.apply x) = true
        · rw [if_pos hc]
          exact ⟨x, hx, violates_iff.mpr hc⟩
        · rw [if_neg hc]
          refine ⟨by rw [hx]; rfl, hu, fun x' hx' hv => ?_⟩
          rw [hx] at hx'
          cases hx'
          exact hc (violates_iff.mp hv)
    · rename_i hu
      cases h
      simpa [resp] using hu
  | _ =>
    cases h
    rfl

def player : Player store ℕ := ⟨fun o db _ n => answer o db n, fun _ h => answer_sound h⟩

/-! ## A small world -/

/-- The ASCII digits, and nothing in upper case. -/
def sampleTables : Unicode := ⟨Char.isDigit, fun s => s⟩

def sampleSetting : Setting := ⟨1, "daily_download_cap", .integer, .int 20, none, none, 0, 0⟩

/-- One setting, two administrators. -/
def sampleDb : Db where
  rows
    | .setting => Table.empty.insert sampleSetting
    | .reference _ => .empty
  uniqueKey := by
    intro id id' x x' hx hx' _
    rw [Table.row_insert] at hx hx'
    simp [Table.empty] at hx hx'
    rw [hx.1, hx'.1]
  users := [1, 2]
  auditLogs := []

end Bekaa3D.Admin
