import Bekaa3D.Admin.Lifecycle
import Bekaa3D.Catalog.Slug

/-!
# Admin.Slugs — the slugs that commands store

* `SlugsOk`: every category has a slug in canonical form, and live categories have slugs of their own.
* `SlugsOk.commit`: a command that commits keeps it, by the index on live slugs and its locks.
* `slug_canonical`: the grammar, and the stored slugs of every reachable state.
-/

namespace Bekaa3D.Admin

open Txn
open Identity (Uuid Instant)
open Platform (Unicode strip)
open Catalog (Category ReferenceValue ReferenceType ValueType Value normaliseSlug Grammar IsSlug Lowers maxSlugLength)

/-- The category of an id. -/
abbrev Db.category (db : Db) (id : Uuid) : Option Category := (db.rows (.reference .category)).row id

structure SlugsOk (db : Db) : Prop where
  canonical : ∀ id v, db.category id = some v → IsSlug v.slug
  unique : ∀ id id' v v', db.category id = some v → db.category id' = some v' → v.deletedAt = none →
    v'.deletedAt = none → v.slug = v'.slug → id = id'

variable {ι : Type} {tables : Unicode} {w : World store ι} {i : ι} {q : Request} {e : Edit} {db db' : Db}

/-- A slug that a command assigns is the normal form of the one that was sent. -/
theorem assigns_normal {t : ReferenceType} {id : Uuid} {slug : String}
    (h : (q.assigns tables t id).slug = some slug) : ∃ raw, normaliseSlug tables raw = .ok slug := by
  cases q with
  | updateCategory categoryId name raw isActive caller =>
    unfold Request.assigns at h
    dsimp only at h
    split at h
    · obtain ⟨raw, -, hraw⟩ := Option.bind_eq_some_iff.mp h
      refine ⟨raw, ?_⟩
      cases hn : normaliseSlug tables raw with
      | error e => rw [hn] at hraw; cases hraw
      | ok s => rw [hn] at hraw; cases hraw; rfl
    · cases h
  | archiveCategory | updateReferenceValue | archiveReferenceValue =>
    unfold Request.assigns at h
    dsimp only at h
    split at h <;> cases h
  | updateSetting | createCategory | createReferenceValue => cases h

/-- A category is created with the normal form of the slug that was sent. -/
theorem Request.Makes.created_normal {v : Category} {entry : AuditLogEntry}
    (h : q.Makes w i tables ⟨.reference .category, none, v, entry⟩) : ∃ raw, normaliseSlug tables raw = .ok v.slug := by
  have of : ∀ {t valueId c}, MakesOf w i t valueId c ⟨.reference .category, none, v, entry⟩ → False := by
    rintro t valueId c ⟨at_, x, -, -, -, change, -, he⟩
    cases he
  cases q with
  | createCategory name slug isActive caller =>
    obtain ⟨slug', v', hs, hv, -, he⟩ := h
    cases he
    exact ⟨slug, by rw [hv]; exact hs⟩
  | updateSetting key value caller =>
    obtain ⟨at_, x, -, -, -, change, -, he⟩ := h
    cases he
  | createReferenceValue t name isActive caller =>
    obtain ⟨v', -, -, he⟩ := h
    cases he
  | updateCategory | archiveCategory | updateReferenceValue | archiveReferenceValue => exact (of h).elim

/-- What an edit makes of a category. -/
theorem SlugsOk.edit (hl : Lowers tables) (h : SlugsOk db) {before : Option Category} {after : Category}
    {entry : AuditLogEntry} (hrel : Edit.Rel ⟨.reference .category, before, after, entry⟩ db db')
    (hfresh : Edit.Fresh ⟨.reference .category, before, after, entry⟩ db)
    (hslug : (∃ raw, normaliseSlug tables raw = .ok after.slug) ∨ ∃ v, before = some v ∧ v.slug = after.slug)
    (hlive : ∀ v, before = some v → v.deletedAt = none) : SlugsOk db' := by
  have hafter : db'.category after.id = some after := hrel.after
  have hbefore : db.category after.id = before := hrel.before
  have hother : ∀ id, id ≠ after.id → db'.category id = db.category id := fun id hne =>
    hrel.others (.reference .category) id fun _ => hne
  -- no other live category has the slug of the row
  have alone : ∀ id v, db.category id = some v → id ≠ after.id → v.deletedAt = none → after.deletedAt = none →
      v.slug ≠ after.slug := by
    intro id v hv hne hd hda he
    obtain ⟨(x : Category), hx, hcov⟩ := hfresh ⟨hda, id, v, hv, by simp [live, hd, he], hne⟩
    have hx' : before = some x := hx
    have hslugx : live after.slug x = true := hcov (hlive x hx')
    have hs : x.deletedAt = none ∧ x.slug = after.slug := by simpa [live] using hslugx
    exact hne (h.unique id after.id v x hv (hbefore.trans hx') hd hs.1 (he.trans hs.2.symm))
  refine ⟨fun id v hv => ?_, fun id id' v v' hv hv' hd hd' he => ?_⟩
  · by_cases hid : id = after.id
    · subst hid
      rw [hafter] at hv
      cases hv
      rcases hslug with ⟨raw, hn⟩ | ⟨v₀, hv₀, hs⟩
      · exact ((Catalog.normaliseSlug_ok_iff hl).mp hn).2
      · rw [← hs]
        exact h.canonical after.id v₀ (hbefore.trans hv₀)
    · rw [hother id hid] at hv
      exact h.canonical id v hv
  · by_cases hid : id = after.id
    · by_cases hid' : id' = after.id
      · rw [hid, hid']
      · subst hid
        rw [hafter] at hv
        cases hv
        rw [hother id' hid'] at hv'
        exact absurd he.symm (alone id' v' hv' hid' hd' hd)
    · rw [hother id hid] at hv
      by_cases hid' : id' = after.id
      · subst hid'
        rw [hafter] at hv'
        cases hv'
        exact absurd he (alone id v hv hid hd hd')
      · rw [hother id' hid'] at hv'
        exact h.unique id id' v v' hv hv' hd hd' he

/-- A commit keeps the slugs. -/
theorem SlugsOk.commit (hl : Lowers tables) (h : SlugsOk db) (hm : q.Makes w i tables e) (hrel : e.Rel db db')
    (hfresh : e.Fresh db) : SlugsOk db' := by
  -- an edit of another table
  have other : e.t ≠ .reference .category → SlugsOk db' := by
    intro ht
    have hsame : ∀ id, db'.category id = db.category id := fun id =>
      hrel.others (.reference .category) id fun he => absurd he.symm ht
    refine ⟨fun id v hv => h.canonical id v ?_, fun id id' v v' hv hv' => h.unique id id' v v' ?_ ?_⟩
    · rwa [hsame] at hv
    · rwa [hsame] at hv
    · rwa [hsame] at hv'
  cases hq : q.setting with
  | some key =>
    cases q with
    | updateSetting key value caller =>
      obtain ⟨at_, x, -, -, -, change, -, rfl⟩ := hm
      exact other fun ht => by cases ht
    | _ => cases hq
  | none =>
    rcases hm.values hq with ⟨t, v, action, rfl, -, -⟩ | ⟨t, v, v', at_, action, -, -, hedits, -, rfl⟩
    · cases t with
      | category => exact h.edit hl hrel hfresh (Or.inl hm.created_normal) fun _ hb => by cases hb
      | value t => exact other fun ht => by cases ht
    · cases t with
      | value t => exact other fun ht => by cases ht
      | category =>
        refine h.edit hl hrel hfresh ?_ fun x hx => ?_
        · have hs : Value.slug (t := .category) v' =
              (Value.slug (t := .category) v).map ((q.assigns tables .category (Value.base v).id).slug.getD ·) := hedits.slug
          have hs' : Category.slug v' = (q.assigns tables .category (Value.base v).id).slug.getD (Category.slug v) :=
            Option.some.inj hs
          cases ha : (q.assigns tables .category (Value.base v).id).slug with
          | none => exact Or.inr ⟨v, rfl, by rw [hs', ha]; rfl⟩
          | some slug => exact Or.inl (by rw [hs', ha]; exact assigns_normal ha)
        · have hlive : v.base.isArchived = false := hedits.live
          cases hx
          show (Value.base (t := .category) v).deletedAt = none
          simpa [ReferenceValue.isArchived] using hlive

/-- The slugs of every reachable state. -/
theorem slugs_ok [DecidableEq ι] {A : World store ι → Event store ι → Prop} {req : ι → Request} {s : Sys store ι}
    (hl : Lowers tables) (h₀ : SlugsOk db) (hr : Reach A (system tables db req) s) : SlugsOk s.world.db := by
  refine Logic.invariant_commit (Φ := contract tables A req) (J := fun w => SlugsOk w.db) (fun _ => runs rfl) once
    (fun hq h => ?_) (fun _ h _ _ hc => ?_) h₀ hr
  · rw [hq.db]
    exact h
  · obtain ⟨-, e, hm, hrel, hfresh⟩ := hc
    exact h.commit hl hm hrel hfresh

/-- The slugs that are stored are in canonical form, and live categories have slugs that differ in more than case
and surrounding spaces. -/
structure StoredSlugs (tables : Unicode) (db : Db) : Prop where
  canonical : ∀ id v, db.category id = some v → IsSlug v.slug ∧ normaliseSlug tables v.slug = .ok v.slug
  distinct : ∀ id id' v v', db.category id = some v → db.category id' = some v' → v.deletedAt = none →
    v'.deletedAt = none → tables.lower (strip v.slug) = tables.lower (strip v'.slug) → id = id'

/-- **Normalisation accepts the grammar and is canonical**, and so is what commands store, in any interleaving. -/
theorem slug_canonical (hl : Lowers tables) :
    (∀ raw, ((∃ slug, normaliseSlug tables raw = .ok slug) ↔ IsSlug (tables.lower (strip raw))) ∧
      ∀ slug, normaliseSlug tables raw = .ok slug →
        slug = tables.lower (strip raw) ∧ normaliseSlug tables slug = .ok slug) ∧
    ∀ (ι : Type) [DecidableEq ι] (db : Db) (req : ι → Request) (s : Sys store ι), SlugsOk db →
      Reach Any (system tables db req) s → StoredSlugs tables s.world.db := by
  refine ⟨fun raw => ⟨⟨?_, fun h => ⟨_, (Catalog.normaliseSlug_ok_iff hl).mpr ⟨rfl, h⟩⟩⟩, fun slug h => ?_⟩,
    fun ι _ db req s h₀ hr => ?_⟩
  · rintro ⟨slug, h⟩
    obtain ⟨rfl, hs⟩ := (Catalog.normaliseSlug_ok_iff hl).mp h
    exact hs
  · exact ⟨((Catalog.normaliseSlug_ok_iff hl).mp h).1, Catalog.normaliseSlug_idempotent hl h⟩
  · have h := slugs_ok hl h₀ hr
    refine ⟨fun id v hv => ?_, fun id id' v v' hv hv' hd hd' he => ?_⟩
    · have hs := h.canonical id v hv
      exact ⟨hs, (Catalog.normaliseSlug_ok_iff hl).mpr ⟨(hs.canonical hl).symm, hs⟩⟩
    · rw [(h.canonical id v hv).canonical hl, (h.canonical id' v' hv').canonical hl] at he
      exact h.unique id id' v v' hv hv' hd hd' he

/-- `str.lower`, of text that is ASCII alone. -/
def asciiTables : Unicode := ⟨fun c => c.isDigit, fun s => String.ofList (s.toList.map Char.toLower)⟩

theorem lowers_ascii : Lowers asciiTables := by
  refine ⟨fun _ _ => rfl, fun s h => ?_⟩
  change (String.ofList (s.toList.map Char.toLower)).toList.getLast? = some '\n' at h
  rw [String.toList_ofList, List.getLast?_map] at h
  obtain ⟨c, hc, hlow⟩ := Option.map_eq_some_iff.mp h
  rw [hc]
  unfold Char.toLower at hlow
  split at hlow
  · rename_i hup
    -- a capital letter does not become a newline
    have hlo : 65 ≤ c.val.toNat := hup.1
    have hhi : c.val.toNat ≤ 90 := hup.2
    have hval : (c.val + ('a'.val - 'A'.val)).toNat = 10 := congrArg Char.toNat hlow
    rw [UInt32.toNat_add, show ('a'.val - 'A'.val).toNat = 32 from rfl] at hval
    omega
  · rw [hlow]

/-- A category gets another slug, and its old one goes to a new category, in another spelling. -/
def deskRequests : Fin 3 → Request
  | 0 => .createCategory "Desks" " Desk-Lamps" true ⟨1, none, none⟩
  | 1 => .updateCategory 7 none (some "DESK-2") none ⟨1, none, none⟩
  | 2 => .createCategory "Lamps" "desk-lamps " true ⟨2, none, none⟩

theorem slug_canonical_desks : ∃ s, Reach Any (system asciiTables sampleDb deskRequests) s ∧
    ((s.world.db.category 7).map Category.slug = some "desk-2" ∧
      (s.world.db.category 8).map Category.slug = some "desk-lamps") ∧ StoredSlugs asciiTables s.world.db := by
  obtain ⟨s, hr, hs⟩ := play_any player (fun _ _ => true) (A := Any) (fun _ => trivial)
    (system asciiTables sampleDb deskRequests)
    (List.replicate 4 (.go 0 7) ++ List.replicate 7 (.go 1 6) ++ List.replicate 4 (.go 2 8))
    (fun s => (s.world.db.category 7).map Category.slug = some "desk-2" ∧
      (s.world.db.category 8).map Category.slug = some "desk-lamps") (by decide +kernel)
  refine ⟨s, hr, of_decide_eq_true hs, (slug_canonical lowers_ascii).2 _ _ _ s ⟨?_, ?_⟩ hr⟩
  · intro id v hv
    cases hv
  · intro id id' v v' hv
    cases hv

end Bekaa3D.Admin
