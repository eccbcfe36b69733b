import Bekaa3D.Txn.Runs
import Bekaa3D.Admin.Commands

/-!
# Admin.Contract — what a command commits, whatever the others do

* `Edit`: one row before and after, and the audit row.  `Edit.Rel`: what a commit does to the database.
* `Request.Makes`: the edits that a command may commit, given what it ran.
* `contract`, `runs`: every command commits such an edit, against the committed row, or nothing.
-/

namespace Bekaa3D.Admin

open Txn
open Identity (Uuid Instant)
open Platform (Json Setting PlatformError Unicode definitionFor validateValue)
open Catalog (Category ReferenceValue ReferenceType ValueType Value CatalogError normaliseSlug)

/-! ## Edits -/

structure Edit where
  t : EntityType
  before : Option (Row t)
  after : Row t
  entry : AuditLogEntry

/-- The database `db'` is `db` after the edit. -/
structure Edit.Rel (e : Edit) (db db' : Db) : Prop where
  before : (db.rows e.t).row e.after.id = e.before
  after : (db'.rows e.t).row e.after.id = some e.after
  others : ∀ t id, (t = e.t → id ≠ e.after.id) → (db'.rows t).row id = (db.rows t).row id
  logs : db'.auditLogs = db.auditLogs ++ [e.entry]

/-- The first row, if it is not archived, has the entry of the second one in the index on live slugs already. -/
def Row.Covers : {t : EntityType} → Row t → Row t → Prop
  | .reference .category, (v : Category), (v' : Category) => v.deletedAt = none → live v'.slug v = true
  | _, _, _ => True

/-- The index on live slugs admits the row after the edit. -/
def Edit.Fresh (e : Edit) (db : Db) : Prop := db.Violates e.after → ∃ x, e.before = some x ∧ x.Covers e.after

/-- The row after the flush of what was assigned to it. -/
def Row.saved {t : EntityType} (row assigned : Row t) : Row t := (row.cols assigned).apply row

theorem Row.saved_id {t : EntityType} (row assigned : Row t) : (row.saved assigned).id = row.id :=
  Cols.apply_id _ _

theorem Cols.apply_empty {c : Cols} (h : c.isEmpty = true) {t : EntityType} (x : Row t) : c.apply x = x := by
  simp only [Cols.isEmpty, Bool.and_eq_true, Option.isNone_iff_eq_none] at h
  obtain ⟨⟨⟨⟨⟨⟨h1, h2⟩, h3⟩, h4⟩, h5⟩, h6⟩, h7⟩ := h
  rcases t with _ | _ | _
  · simp [Cols.apply, applySetting, h1, h2, h7]
  · simp [Cols.apply, applyCategory, applyBase, h3, h4, h5, h6, h7]
  · simp [Cols.apply, applyBase, h3, h5, h6, h7]

/-- The edit `e` is what the command makes of the row `x` at the time `at_`. -/
def EditCommand.Makes {t : EntityType} (c : EditCommand t) (at_ : Instant) (x : Row t) (e : Edit) : Prop :=
  ∃ change, c.change x = .ok change ∧
    e = ⟨t, some x, if (change at_).1 then x.saved (change at_).2 else x, c.entry x (change at_).2⟩

theorem UpdateSetting.change_eq {tables : Unicode} {key : String} {value : Json} {caller : Caller} {x : Setting}
    {change : Instant → Bool × Setting} (h : (command tables key value caller).change x = .ok change) :
    ∃ validated, validateValue tables key value = .ok validated ∧
      change = fun now => x.changeValue validated caller.actorUserId now := by
  change ((validateValue tables key value).mapError AdminError.platform >>= _) = _ at h
  cases hv : validateValue tables key value with
  | error e => rw [hv] at h; cases h
  | ok validated => rw [hv] at h; cases h; exact ⟨validated, rfl, rfl⟩

theorem UpdateCategory.change_eq {tables : Unicode} {name slug : Option String} {isActive : Option Bool} {v : Category}
    {ch : Instant → Bool × Category} (h : change tables name slug isActive v = .ok ch) :
    ∃ slug', normaliseGiven tables slug = .ok slug' ∧ ch = fun now => v.applyUpdate name slug' isActive now := by
  change (normaliseGiven tables slug >>= _) = _ at h
  cases hs : normaliseGiven tables slug with
  | error e => rw [hs] at h; cases h
  | ok slug' => rw [hs] at h; cases h; exact ⟨slug', rfl, rfl⟩

/-- What a command on reference data changes. -/
theorem valueCommand_change {t : ReferenceType} {id : Uuid}
    {change : Value t → Except CatalogError (Instant → Bool × Value t)} {action : String} {caller : Caller} {v : Value t}
    {ch : Instant → Bool × Value t} (h : (valueCommand t id change action caller).change v = .ok ch) :
    v.base.isArchived = false ∧ change v = .ok ch := by
  change (if v.base.isArchived then _ else (change v).mapError AdminError.catalog) = _ at h
  split at h
  · cases h
  · rename_i ha
    refine ⟨by simpa using ha, ?_⟩
    cases hv : change v with
    | error e => rw [hv] at h; cases h
    | ok ch' => rw [hv] at h; cases h; rfl

variable {ι : Type}

section Makes

variable (w : World store ι) (i : ι)

/-- An edit of a locked row of reference data. -/
def MakesOf (t : ReferenceType) (id : Uuid) (c : EditCommand (.reference t)) (e : Edit) : Prop :=
  ∃ at_ v, Did w i .now at_ ∧ Did w i (.selectForUpdate t id) (some v) ∧ v.base.id = id ∧ c.Makes at_ v e

def Request.Makes (tables : Unicode) : Request → Edit → Prop
  | .updateSetting key value caller, e => ∃ at_ x, Did w i .now at_ ∧ Did w i (.selectSettingForUpdate key) (some x) ∧
      x.key = key ∧ (UpdateSetting.command tables key value caller).Makes at_ x e
  | .createCategory name slug isActive caller, e => ∃ slug' v, normaliseSlug tables slug = .ok slug' ∧
      v = ⟨⟨v.id, name, isActive, none, v.createdAt, v.createdAt⟩, slug'⟩ ∧
      Did w i (.insertCategory name slug' isActive) (.ok v) ∧
      e = ⟨.reference .category, none, v, createdEntry .category "category.created" caller v⟩
  | .updateCategory id name slug isActive caller, e => MakesOf w i .category id
      (valueCommand .category id (UpdateCategory.change tables name slug isActive) "category.updated" caller) e
  | .archiveCategory id caller, e => MakesOf w i .category id (valueCommand .category id
      (fun category => .ok fun now => (true, Category.archive category now)) "category.archived" caller) e
  | .createReferenceValue t name isActive caller, e => ∃ v, v = ⟨v.id, name, isActive, none, v.createdAt, v.createdAt⟩ ∧
      Did w i (.insertValue t name isActive) v ∧
      e = ⟨.reference (.value t), none, v, createdEntry (.value t) (ValueType.action t ".created") caller v⟩
  | .updateReferenceValue t id name isActive caller, e => MakesOf w i (.value t) id (valueCommand (.value t) id
      (fun value => .ok fun now => ReferenceValue.applyUpdate value name isActive now) (ValueType.action t ".updated")
      caller) e
  | .archiveReferenceValue t id caller, e => MakesOf w i (.value t) id (valueCommand (.value t) id
      (fun value => .ok fun now => (true, ReferenceValue.archive value now)) (ValueType.action t ".archived") caller) e

end Makes

/-- What a command guarantees: it commits once, with one of its edits of the committed row, and if it raises it
has not committed. -/
@[reducible] def contract (tables : Unicode) (A : World store ι → Event store ι → Prop) (req : ι → Request) :
    Logic store ι where
  A := A
  Gr _ _ := True
  gr_refl _ := trivial
  gr_trans _ _ := trivial
  Chk w i _ _ _ := ¬Committed w i
  Cmt w i f := ¬Committed w i ∧ ∃ e, (req i).Makes w i tables e ∧ e.Rel w.db (f w.db) ∧ e.Fresh w.db
  Fin w i a :=
    match a with
    | .ok _ => Committed w i
    | .error _ => ¬Committed w i

/-! ## The steps of an edit -/

section Steps

variable {tables : Unicode} {A : World store ι → Event store ι → Prop} {req : ι → Request} {i : ι}
  {L : List Lock} {f : Db → Db} {w : World store ι} {F : World store ι → Prop}

/-- The writes `f` turn the row `x` into `y`, and do nothing else. -/
def Turns {t : EntityType} (x y : Row t) (f : Db → Db) : Prop :=
  ∀ db, (db.rows t).row x.id = some x → ((f db).rows t).row x.id = some y ∧
    (∀ t' id, (t' = t → id ≠ x.id) → ((f db).rows t').row id = (db.rows t').row id) ∧ (f db).auditLogs = db.auditLogs

theorem turns_id {t : EntityType} (x : Row t) : Turns x x id := fun _ h => ⟨h, fun _ _ _ => rfl, rfl⟩

theorem turns_update {t : EntityType} (x : Row t) (cols : Cols) :
    Turns x (cols.apply x) fun db => db.update t x.id cols := by
  refine fun db h => ⟨?_, fun t' id hne => ?_, rfl⟩
  · rw [Db.update_rows_self, Table.row_modify_self, h, Option.map_some]
  · by_cases ht : t' = t
    · subst ht
      rw [Db.update_rows_self, Table.row_modify_ne (hne rfl)]
    · rw [Db.update_rows_ne db ht]

/-- If another row has the entry of `y` in the index on live slugs, then so has `x`. -/
def Admits {t : EntityType} (x y : Row t) (db : Db) : Prop := db.Violates y → x.Covers y

theorem covers_refl {t : EntityType} (x : Row t) : x.Covers x := by
  rcases t with _ | _ | _
  · trivial
  · intro h
    simp [live, h]
  · trivial

/-- The entry that an update makes stays free. -/
theorem holds_admits {t : EntityType} {x : Row t} {cols : Cols} :
    (contract tables A req).Holds i (cols.entry t) fun w => Admits x (cols.apply x) w.db := by
  have always : (∀ db, Admits x (cols.apply x) db) →
      (contract tables A req).Holds i (cols.entry t) fun w => Admits x (cols.apply x) w.db :=
    fun h => Logic.Holds.of_true.imp (fun w _ => h w.db) fun _ _ => trivial
  rcases t with _ | _ | _
  · exact always fun _ h => h.elim
  · cases hs : cols.slug with
    | none =>
      refine always fun db _ hd => ?_
      change live (cols.slug.getD (Category.slug x)) x = true
      rw [hs]
      simp [live, hd]
    | some slug =>
      have hy : Category.slug (cols.applyCategory x) = slug := by
        change cols.slug.getD (Category.slug x) = slug
        rw [hs, Option.getD_some]
      refine Logic.Holds.prot (Φ := contract tables A req) (D := fun db => Admits x (cols.apply x) db)
        (l := .liveSlug slug) (List.mem_append_left _ (by rw [hs]; exact List.mem_singleton.mpr rfl)) ?_
      rintro db db' hprot h ⟨hd, id, v, hv, hl, hne⟩
      change live (Category.slug (cols.applyCategory x)) v = true at hl
      rw [hy] at hl
      obtain ⟨v', hv', hl'⟩ := hprot id v hv hl
      rw [← hy] at hl'
      exact h ⟨hd, id, v', hv', hl', hne⟩
  · exact always fun _ h => h.elim

theorem holds_admits_refl {t : EntityType} {x : Row t} (hF : (contract tables A req).Holds i L F) :
    (contract tables A req).Holds i L fun w => F w ∧ Admits x x w.db :=
  hF.imp (fun _ h => ⟨h, fun _ => covers_refl x⟩) fun _ h => h.1

/-- The `save` of the row that the transaction holds. -/
theorem wp_save {t : EntityType} {x y : Row t} (hF : (contract tables A req).Holds i L F) (h : F w)
    (hu : ∀ w, F w → ¬Committed w i) (hx : ∀ w, F w → (w.db.rows t).row x.id = some x) (hid : y.id = x.id) :
    (contract tables A req).wp i (save t y) L id w
      (fun _ L' f' w' => (contract tables A req).Holds i L' (fun w => F w ∧ Admits x (x.saved y) w.db) ∧
        (F w' ∧ Admits x (x.saved y) w'.db) ∧ Turns x (x.saved y) f')
      (fun _ _ _ w' => ¬Committed w' i) := by
  unfold save
  rw [hid]
  refine Logic.wp_stmt hF h hu fun w free r hw hr _ hw' => ?_
  obtain rfl : r = some x := hr.trans (hx w hw)
  change (contract tables A req).wp i (if (x.cols y).isEmpty then pure () else _) L id _ _ _
  split
  · rename_i he
    have hsaved : x.saved y = x := Cols.apply_empty he x
    rw [hsaved]
    exact ⟨holds_admits_refl hF, ⟨hw', fun _ => covers_refl x⟩, turns_id x⟩
  · refine Logic.wp_stmt hF hw' hu fun w free r hw hr _ hw' => ?_
    match r with
    | .ok true =>
      have hadmits : (contract tables A req).Holds i ((x.cols y).entry t) fun w => Admits x ((x.cols y).apply x) w.db :=
        holds_admits
      exact ⟨(hF.weaken fun l hl => List.mem_append_right _ hl).and
        (hadmits.weaken fun l hl => List.mem_append_left _ (List.mem_cons_of_mem _ hl)),
        ⟨hw', fun hv => absurd hv (hr.2.2 x (hx w hw))⟩, turns_update x _⟩
    | .ok false => exact hu _ hw'
    | .error .liveSlug => exact hu _ hw'
    | .error .foreignKey => exact hu _ hw'

variable (tables A req i) in
/-- The transaction is about to commit the edit `e`, given the facts `F`. -/
structure Settled (L : List Lock) (f : Db → Db) (w : World store ι) (F : World store ι → Prop) (e : Edit) : Prop where
  holds : (contract tables A req).Holds i L F
  now : F w
  rel : ∀ w, F w → e.Rel w.db (f w.db)
  fresh : ∀ w, F w → e.Fresh w.db

/-- The audit row. -/
theorem wp_record {entry : AuditLogEntry} (hF : (contract tables A req).Holds i L F) (h : F w)
    (hu : ∀ w, F w → ¬Committed w i) :
    (contract tables A req).wp i (record entry) L f w
      (fun _ L' f' w' => (contract tables A req).Holds i L' F ∧ F w' ∧ f' = write (.insertAudit entry) true ∘ f)
      (fun _ _ _ w' => ¬Committed w' i) := by
  unfold record
  refine Logic.wp_stmt hF h hu fun w free r hw _ _ hw' => ?_
  cases r with
  | false => exact hu _ hw'
  | true => exact ⟨hF.weaken fun l hl => List.mem_append_right _ hl, hw', rfl⟩

/-- An edit of the row `x`, which stays as it is while the transaction holds it. -/
theorem wp_edit {t : EntityType} {c : EditCommand t} {x : Row t} (hF : (contract tables A req).Holds i L F) (h : F w)
    (hu : ∀ w, F w → ¬Committed w i) (hx : ∀ w, F w → (w.db.rows t).row x.id = some x)
    (hid : ∀ change now, c.change x = .ok change → (change now).2.id = x.id) :
    (contract tables A req).wp i (edit c x) L id w
      (fun _ L' f' w' => ∃ at_ e F', c.Makes at_ x e ∧ (∀ w, F' w → F w ∧ Did w i .now at_) ∧
        Settled tables A req i L' f' w' F' e)
      (fun _ _ _ w' => ¬Committed w' i) := by
  unfold edit
  refine Logic.wp_bind.mpr ?_
  cases hc : c.change x with
  | error e => exact hu w h
  | ok change =>
    refine Logic.wp_bind.mpr (Logic.wp_stmt hF h hu fun w free at_ hw _ _ hw' => Logic.wp_ret.mpr ?_)
    have hF' := hF.and (Logic.Holds.did (Φ := contract tables A req) (L := L) .now at_)
    have hu' : ∀ w, F w ∧ Did w i .now at_ → ¬Committed w i := fun w h => hu w h.1
    have hx' : ∀ w, F w ∧ Did w i .now at_ → (w.db.rows t).row x.id = some x := fun w h => hx w h.1
    -- the row is saved if anything moved
    have saved : (contract tables A req).wp i (saveChanged t (change at_)) L id (w.stmt i .now at_) 
        (fun _ L' f' w' =>
          (contract tables A req).Holds i L' (fun w => (F w ∧ Did w i .now at_) ∧
            Admits x (if (change at_).1 then x.saved (change at_).2 else x) w.db) ∧
          ((F w' ∧ Did w' i .now at_) ∧ Admits x (if (change at_).1 then x.saved (change at_).2 else x) w'.db) ∧
          Turns x (if (change at_).1 then x.saved (change at_).2 else x) f')
        (fun _ _ _ w' => ¬Committed w' i) := by
      unfold saveChanged
      split
      · exact wp_save hF' ⟨hw', did_self⟩ hu' hx' (hid change at_ hc)
      · exact ⟨holds_admits_refl hF', ⟨⟨hw', did_self⟩, fun _ => covers_refl x⟩, turns_id x⟩
    refine Logic.wp_bind.mpr (Logic.wp_mono saved (fun _ L' f' w' h => ?_) fun _ _ _ _ h => h)
    obtain ⟨hF₁, hw₁, hf⟩ := h
    refine Logic.wp_bind.mpr (Logic.wp_mono (wp_record hF₁ hw₁ fun w h => hu' w h.1) (fun _ L₂ f₂ w₂ h => ?_)
      fun _ _ _ _ h => h)
    obtain ⟨hF₂, hw₂, rfl⟩ := h
    refine ⟨at_, _, _, ⟨change, hc, rfl⟩, fun w h => h.1, hF₂, hw₂, fun w hw => ?_, fun w hw hv => ⟨x, rfl, hw.2 hv⟩⟩
    obtain ⟨hafter, hothers, hlogs⟩ := hf w.db (hx w hw.1.1)
    have hkey : Row.id (if (change at_).1 then x.saved (change at_).2 else x) = x.id := by
      split
      · exact Row.saved_id _ _
      · rfl
    refine ⟨?_, ?_, ?_, ?_⟩
    · dsimp only; rw [hkey]; exact hx w hw.1.1
    · dsimp only; rw [hkey]; exact hafter
    · dsimp only; rw [hkey]; exact hothers
    · change (f' w.db).auditLogs ++ _ = _
      rw [hlogs]

variable (tables A req i) in
/-- The transaction is about to commit an edit that satisfies `M`. -/
def Commits (M : World store ι → Edit → Prop) (L : List Lock) (f : Db → Db) (w : World store ι) : Prop :=
  ∃ F e, Settled tables A req i L f w F e ∧ ∀ w, F w → ¬Committed w i ∧ M w e

/-- What a transaction knows of a row that it has locked. -/
theorem holds_locked {t : EntityType} {x : Row t} {o : Op} {r : Resp o} (hl : .row t x.id ∈ L) :
    (contract tables A req).Holds i L fun w =>
      ¬Committed w i ∧ Did w i o r ∧ (w.db.rows t).row x.id = some x := by
  have hrow : (contract tables A req).Holds i L fun w => (w.db.rows t).row x.id = some x :=
    Logic.Holds.prot (Φ := contract tables A req) (D := fun db : Db => (db.rows t).row x.id = some x) hl
      fun h hx => Eq.trans h hx
  exact .and .uncommitted (.and (Logic.Holds.did (Φ := contract tables A req) o r) hrow)

theorem wp_editValue {t : ReferenceType} {valueId : Uuid}
    {change : Value t → Except CatalogError (Instant → Bool × Value t)} {action : String} {caller : Caller}
    (hu : ¬Committed w i) (hid : ∀ v ch now, change v = .ok ch → (ch now).2.base.id = v.base.id) :
    (contract tables A req).wp i (editValue t valueId change action caller) [] id w
      (fun _ L f w =>
        Commits tables A req i (fun w => MakesOf w i t valueId (valueCommand t valueId change action caller)) L f w)
      (fun _ _ _ w => ¬Committed w i) := by
  unfold editValue
  refine Logic.wp_bind.mpr (Logic.wp_stmt .uncommitted hu (fun _ h => h) fun w free r hw hr _ hw' => Logic.wp_ret.mpr ?_)
  cases r with
  | none => exact hw'
  | some v =>
    have hkey : v.base.id = valueId := (w.db.rows (.reference t)).row_key valueId v hr.symm
    have hrow : (w.db.rows (.reference t)).row v.base.id = some v := by rw [hkey]; exact hr.symm
    have hF : (contract tables A req).Holds i [.row (.reference t) v.base.id] fun w =>
        ¬Committed w i ∧ Did w i (.selectForUpdate t valueId) (some v) ∧
          (w.db.rows (.reference t)).row v.base.id = some v :=
      @holds_locked _ tables A req i _ (.reference t) v (.selectForUpdate t valueId) (some v) (List.mem_singleton.mpr rfl)
    refine Logic.wp_mono (wp_edit (c := valueCommand t valueId change action caller) (x := v) hF
      ⟨hw', did_self, hrow⟩ (fun _ h => h.1) (fun _ h => h.2.2) fun ch now hch => ?_) (fun _ L f w h => ?_)
      fun _ _ _ _ h => h
    · exact hid v ch now (valueCommand_change hch).2
    · obtain ⟨at_, e, F', hm, hsub, hs⟩ := h
      refine ⟨F', e, hs, fun w h => ?_⟩
      obtain ⟨⟨hu, hd, -⟩, hn⟩ := hsub w h
      exact ⟨hu, at_, v, hn, hd, hkey, hm⟩

/-- A setting that the transaction has locked is edited. -/
theorem wp_updateSetting {key : String} {value : Json} {caller : Caller} (hu : ¬Committed w i) :
    (contract tables A req).wp i (UpdateSetting.execute tables key value caller) [] id w
      (fun _ L f w => Commits tables A req i (fun w => Request.Makes w i tables (.updateSetting key value caller)) L f w)
      (fun _ _ _ w => ¬Committed w i) := by
  unfold UpdateSetting.execute
  refine Logic.wp_bind.mpr ?_
  cases hd : definitionFor key with
  | error e => exact hu
  | ok d =>
    refine Logic.wp_bind.mpr (Logic.wp_stmt .uncommitted hu (fun _ h => h) fun w free r hw hr _ hw' =>
      Logic.wp_ret.mpr ?_)
    cases r with
    | none => exact hw'
    | some x =>
      have hx : (w.db.rows .setting).Picks (fun x => Setting.key x = key) (some x) := hr
      have hF := @holds_locked _ tables A req i _ .setting x (.selectSettingForUpdate key) (some x)
        (List.mem_singleton.mpr rfl)
      refine Logic.wp_bind.mpr (Logic.wp_mono (wp_edit (c := UpdateSetting.command tables key value caller) (x := x) hF
        ⟨hw', did_self, hx.row⟩ (fun _ h => h.1) (fun _ h => h.2.2) fun ch now hch => ?_) (fun _ L f w h => ?_)
        fun _ _ _ _ h => h)
      · obtain ⟨validated, -, rfl⟩ := UpdateSetting.change_eq hch
        exact Setting.changeValue_id
      · obtain ⟨at_, e, F', hm, hsub, hs⟩ := h
        refine ⟨F', e, hs, fun w h => ?_⟩
        obtain ⟨⟨hu, hd, -⟩, hn⟩ := hsub w h
        exact ⟨hu, at_, x, hn, hd, by simpa using hx.cond, hm⟩

/-- A row that the transaction has inserted, with its audit row. -/
theorem wp_created {t : ReferenceType} {v : Value t} {entry : AuditLogEntry} {o : Op} {r : Resp o} {a : Answer}
    {q : Request} (hu : ¬Committed w i) (hd : Did w i o r) (hf : f = fun db => db.insert t v)
    (hl : .row (.reference t) v.base.id ∈ L) (hrow : (w.db.rows (.reference t)).row v.base.id = none)
    (hfree : (contract tables A req).Holds i L fun w => ¬w.db.Violates (t := .reference t) v)
    (hfree' : ¬w.db.Violates (t := .reference t) v)
    (hm : ∀ w, Did w i o r → q.Makes w i tables ⟨.reference t, none, v, entry⟩) :
    (contract tables A req).wp i ((record entry).bind fun _ => .ret a) L f w
      (fun _ L f w => Commits tables A req i (fun w => q.Makes w i tables) L f w)
      (fun _ _ _ w => ¬Committed w i) := by
  have hF : (contract tables A req).Holds i L fun w =>
      ((¬Committed w i ∧ Did w i o r) ∧ (w.db.rows (.reference t)).row v.base.id = none) ∧
        ¬w.db.Violates (t := .reference t) v :=
    .and (.and (.and .uncommitted (Logic.Holds.did (Φ := contract tables A req) o r)) (Logic.Holds.prot
      (Φ := contract tables A req) (D := fun db : Db => (db.rows (.reference t)).row v.base.id = none) hl
      fun h hx => Eq.trans h hx)) hfree
  refine Logic.wp_bind.mpr (Logic.wp_mono (wp_record hF ⟨⟨⟨hu, hd⟩, hrow⟩, hfree'⟩ fun _ h => h.1.1.1)
    (fun _ L' f' w' h => ?_) fun _ _ _ _ h => h)
  obtain ⟨hF', hw', rfl⟩ := h
  subst hf
  refine ⟨_, ⟨.reference t, none, v, entry⟩, ⟨hF', hw', fun w hw => ⟨hw.1.2, ?_, fun t' id hne => ?_, rfl⟩,
    fun w hw hv => absurd hv hw.2⟩, fun w hw => ⟨hw.1.1.1, hm w hw.1.1.2⟩⟩
  · change ((w.db.insert t v).rows (.reference t)).row v.base.id = some v
    rw [Db.insert_rows_self]
    exact Table.row_insert_new hw.1.2
  · change ((w.db.insert t v).rows t').row id = _
    by_cases ht : t' = .reference t
    · subst ht
      rw [Db.insert_rows_self]
      exact Table.row_insert_ne (hne rfl)
    · rw [Db.insert_rows_ne w.db ht]

theorem wp_createCategory {name slug : String} {isActive : Bool} {caller : Caller} (hu : ¬Committed w i) :
    (contract tables A req).wp i (CreateCategory.execute tables name slug isActive caller) [] id w
      (fun _ L f w =>
        Commits tables A req i (fun w => Request.Makes w i tables (.createCategory name slug isActive caller)) L f w)
      (fun _ _ _ w => ¬Committed w i) := by
  unfold CreateCategory.execute
  refine Logic.wp_bind.mpr ?_
  cases hs : normaliseSlug tables slug with
  | error e => exact hu
  | ok slug' =>
    refine Logic.wp_bind.mpr (Logic.wp_stmt .uncommitted hu (fun _ h => h) fun w free r hw hr _ hw' => ?_)
    match r with
    | .error .liveSlug => exact hw'
    | .error .foreignKey => exact hw'
    | .ok v =>
      obtain ⟨hv, hrow, htaken⟩ : v = ⟨⟨v.id, name, isActive, none, v.createdAt, v.createdAt⟩, slug'⟩ ∧
        (w.db.rows (.reference .category)).row v.id = none ∧ ¬w.db.SlugTaken v := hr
      refine wp_created (t := .category) hw' did_self rfl (List.mem_cons_self ..) hrow ?_ htaken
        fun w hd => ⟨slug', v, hs, hv, hd, rfl⟩
      refine Logic.Holds.prot (Φ := contract tables A req) (D := fun db => ¬db.SlugTaken v) (l := .liveSlug v.slug)
        (List.mem_cons_of_mem _ (List.mem_cons_self ..)) ?_
      rintro db db' hprot h ⟨hd, id, v', hv', hl, hne⟩
      obtain ⟨v'', hv'', hl'⟩ := hprot id v' hv' hl
      exact h ⟨hd, id, v'', hv'', hl', hne⟩

theorem wp_createReferenceValue {t : ValueType} {name : String} {isActive : Bool} {caller : Caller}
    (hu : ¬Committed w i) :
    (contract tables A req).wp i (CreateReferenceValue.execute t name isActive caller) [] id w
      (fun _ L f w =>
        Commits tables A req i (fun w => Request.Makes w i tables (.createReferenceValue t name isActive caller)) L f w)
      (fun _ _ _ w => ¬Committed w i) := by
  unfold CreateReferenceValue.execute
  refine Logic.wp_bind.mpr (Logic.wp_stmt .uncommitted hu (fun _ h => h) fun w free v hw hr _ hw' => ?_)
  obtain ⟨hv, hrow⟩ : v = ⟨v.id, name, isActive, none, v.createdAt, v.createdAt⟩ ∧
    (w.db.rows (.reference (.value t))).row v.id = none := hr
  exact wp_created (t := .value t) hw' did_self rfl (List.mem_cons_self ..) hrow
    (Logic.Holds.of_true.imp (fun _ _ h => h.elim) fun _ _ => trivial) (fun h => h.elim) fun w hd => ⟨v, hv, hd, rfl⟩

/-- A command that edits reference data, and what it returns of the edit. -/
theorem wp_editing {t : ReferenceType} {valueId : Uuid}
    {change : Value t → Except CatalogError (Instant → Bool × Value t)} {action : String} {caller : Caller}
    {g : Bool × Value t → Answer} (hu : ¬Committed w i)
    (hid : ∀ v ch now, change v = .ok ch → (ch now).2.base.id = v.base.id) :
    (contract tables A req).wp i ((editValue t valueId change action caller).bind fun r => .ret (g r)) [] id w
      (fun _ L f w =>
        Commits tables A req i (fun w => MakesOf w i t valueId (valueCommand t valueId change action caller)) L f w)
      (fun _ _ _ w => ¬Committed w i) :=
  Logic.wp_bind.mpr (Logic.wp_mono (wp_editValue hu hid) (fun _ _ _ _ h => h) fun _ _ _ _ h => h)

theorem wp_execute (q : Request) (hu : ¬Committed w i) :
    (contract tables A req).wp i (execute tables q) [] id w
      (fun _ L f w => Commits tables A req i (fun w => q.Makes w i tables) L f w)
      (fun _ _ _ w => ¬Committed w i) := by
  cases q with
  | updateSetting key value caller => exact wp_updateSetting hu
  | createCategory name slug isActive caller => exact wp_createCategory hu
  | createReferenceValue t name isActive caller => exact wp_createReferenceValue hu
  | updateCategory categoryId name slug isActive caller =>
    refine wp_editing hu fun v ch now hch => ?_
    obtain ⟨slug', -, rfl⟩ := UpdateCategory.change_eq hch
    exact (Value.applyUpdate_frame (t := .category)).1
  | archiveCategory categoryId caller =>
    refine wp_editing hu fun v ch now hch => ?_
    cases hch
    rfl
  | updateReferenceValue t valueId name isActive caller =>
    refine wp_editing hu fun v ch now hch => ?_
    cases hch
    exact (@Value.applyUpdate_frame (.value t) v name none isActive now).1
  | archiveReferenceValue t valueId caller =>
    refine wp_editing hu fun v ch now hch => ?_
    cases hch
    rfl

/-- **Every command** keeps the contract. -/
theorem runs (h : w.tr = []) : (contract tables A req).Run i (handle tables (req i)) [] id w := by
  have hu : ¬Committed w i := by unfold Committed; rw [h]; exact List.not_mem_nil
  refine Logic.wp_bind.mpr (Logic.wp_mono (wp_execute (req i) hu) (fun a L f w h => ?_) fun e L f w h w' hw => ?_)
  · obtain ⟨F, e, hs, hm⟩ := h
    refine Logic.wp_commit hs.holds hs.now (fun w h => ⟨(hm w h).1, e, (hm w h).2, hs.rel w h, hs.fresh w h⟩) (fun _ _ => trivial)
      fun w _ w' hw => ?_
    exact hw.committed.mpr (committed_commit.mpr (Or.inr rfl))
  · exact fun hc => h (hw.committed.mp hc)

end Steps

end Bekaa3D.Admin
