import Mathlib.Data.List.Nodup
import Mathlib.Logic.Function.Basic
import Mathlib.Tactic.Common

/-!
# Txn.Table — keyed tables

`Table key` is a table of rows with the primary key `key`: a row for each key that has one, filed under its
own key, and the keys in insertion order, for the statements that read more than one row.

* `modify`, `insert`, `erase`: what a statement writes.
* `Change`: what a whole transaction does to a table, as one atomic change of the committed rows.
* `NoNew`: what a change adds no rows of.
* `changed`: the columns that an update of a loaded row writes.
-/

namespace Txn

structure Table {K V : Type} (key : V → K) where
  row : K → Option V
  keys : List K
  mem_keys : ∀ k, k ∈ keys ↔ (row k).isSome
  nodup : keys.Nodup
  row_key : ∀ k v, row k = some v → key v = k

namespace Table

variable {K V : Type} {key : V → K}

def empty : Table key := ⟨fun _ => none, [], by simp, List.nodup_nil, by simp⟩

instance : Inhabited (Table key) := ⟨empty⟩

/-- The keys of the rows that satisfy `p`. -/
def scan (t : Table key) (p : V → Bool) : List K := t.keys.filter fun k => (t.row k).any p

def rows (t : Table key) : List V := t.keys.filterMap t.row

/-- The first row that satisfies `p`. -/
def find (t : Table key) (p : V → Bool) : Option V := (t.keys.filterMap t.row).find? p

/-- A query for one row that satisfies `p` may return `r`. -/
def Picks (t : Table key) (p : V → Bool) : Option V → Prop
  | none => ∀ k v, t.row k = some v → p v = false
  | some v => t.row (key v) = some v ∧ p v = true

section Update

variable [DecidableEq K]

/-- `UPDATE` of the row of `k`, if there is one, by a function that keeps its key. -/
def modify (t : Table key) (k : K) (f : V → V) (hf : ∀ v, key (f v) = key v) : Table key where
  row := Function.update t.row k ((t.row k).map f)
  keys := t.keys
  mem_keys k' := by
    by_cases h : k' = k
    · subst h; rw [Function.update_self, Option.isSome_map, t.mem_keys]
    · rw [Function.update_of_ne h, t.mem_keys]
  nodup := t.nodup
  row_key k' v hv := by
    by_cases h : k' = k
    · subst h
      rw [Function.update_self] at hv
      obtain ⟨u, hu, rfl⟩ := Option.map_eq_some_iff.mp hv
      rw [hf, t.row_key _ _ hu]
    · rw [Function.update_of_ne h] at hv
      exact t.row_key _ _ hv

/-- `INSERT` of a row whose key has none. -/
def insert (t : Table key) (v : V) : Table key where
  row := if (t.row (key v)).isSome then t.row else Function.update t.row (key v) (some v)
  keys := if (t.row (key v)).isSome then t.keys else t.keys ++ [key v]
  mem_keys k' := by
    split
    · exact t.mem_keys k'
    · by_cases h : k' = key v
      · subst h; simp
      · rw [Function.update_of_ne h, ← t.mem_keys]; simp [h]
  nodup := by
    split
    · exact t.nodup
    · rename_i h
      refine List.Nodup.append t.nodup (List.nodup_singleton _) ?_
      rw [← t.mem_keys] at h
      simpa using h
  row_key k' u hu := by
    split at hu
    · exact t.row_key _ _ hu
    · by_cases h : k' = key v
      · subst h
        rw [Function.update_self] at hu
        rw [Option.some.inj hu]
      · rw [Function.update_of_ne h] at hu
        exact t.row_key _ _ hu

/-- `DELETE` of the row of `k`. -/
def erase (t : Table key) (k : K) : Table key where
  row := Function.update t.row k none
  keys := t.keys.filter (· ≠ k)
  mem_keys k' := by
    by_cases h : k' = k
    · subst h; simp
    · rw [Function.update_of_ne h, ← t.mem_keys]; simp [h]
  nodup := t.nodup.filter _
  row_key k' v hv := by
    by_cases h : k' = k
    · subst h; simp at hv
    · rw [Function.update_of_ne h] at hv
      exact t.row_key _ _ hv

end Update

variable {t : Table key} {p : V → Bool}

@[simp] theorem row_empty (k : K) : (empty : Table key).row k = none := rfl

theorem mem_scan {k : K} : k ∈ t.scan p ↔ ∃ v, t.row k = some v ∧ p v = true := by
  unfold scan
  rw [List.mem_filter, t.mem_keys, Option.any_eq_true]
  constructor
  · rintro ⟨-, v, hv, hp⟩; exact ⟨v, hv, hp⟩
  · rintro ⟨v, hv, hp⟩; exact ⟨by simp [hv], v, hv, hp⟩

theorem mem_rows {v : V} : v ∈ t.rows ↔ t.row (key v) = some v := by
  unfold rows
  rw [List.mem_filterMap]
  constructor
  · rintro ⟨k, -, hk⟩
    rw [t.row_key k v hk]
    exact hk
  · exact fun h => ⟨key v, (t.mem_keys _).mpr (by rw [h]; rfl), h⟩

/-- Rows have different images under a function that tells their keys. -/
theorem nodup_rows (t : Table key) {β : Type} {f : V → β} (h : ∀ v v', f v = f v' → key v = key v') :
    (t.rows.map f).Nodup := by
  have hnd : t.rows.Nodup := by
    refine t.nodup.filterMap fun k k' v hk hk' => ?_
    rw [Option.mem_def] at hk hk'
    rw [← t.row_key k v hk, t.row_key k' v hk']
  refine (List.nodup_map_iff_inj_on hnd).mpr fun v hv v' hv' he => ?_
  have hrow := mem_rows.mp hv
  rw [h v v' he, mem_rows.mp hv'] at hrow
  exact (Option.some.inj hrow).symm

theorem nodup_scan : (t.scan p).Nodup := t.nodup.filter _

theorem find_picks : t.Picks p (t.find p) := by
  unfold Picks
  split
  · rename_i h
    intro k v hv
    have hmem : v ∈ t.keys.filterMap t.row :=
      List.mem_filterMap.mpr ⟨k, (t.mem_keys k).mpr (by simp [hv]), hv⟩
    simpa using List.find?_eq_none.mp h v hmem
  · rename_i v h
    obtain ⟨k, -, hk⟩ := List.mem_filterMap.mp (List.mem_of_find?_eq_some h)
    exact ⟨by rw [t.row_key _ _ hk]; exact hk, List.find?_some h⟩

theorem Picks.row {v : V} (h : t.Picks p (some v)) : t.row (key v) = some v := h.1

theorem Picks.cond {v : V} (h : t.Picks p (some v)) : p v = true := h.2

section Update

variable [DecidableEq K]

theorem row_modify (k k' : K) (f : V → V) (hf : ∀ v, key (f v) = key v) :
    (t.modify k f hf).row k' = if k' = k then (t.row k').map f else t.row k' := by
  by_cases h : k' = k
  · subst h; simp [modify]
  · simp [modify, h]

theorem row_insert (v : V) (k' : K) :
    (t.insert v).row k' = if k' = key v ∧ t.row k' = none then some v else t.row k' := by
  have hrow : (t.insert v).row = if (t.row (key v)).isSome then t.row
      else Function.update t.row (key v) (some v) := rfl
  rw [hrow]
  by_cases h : k' = key v
  · subst h
    cases hr : t.row (key v) <;> simp [hr]
  · split <;> simp [h]

theorem row_erase (k k' : K) : (t.erase k).row k' = if k' = k then none else t.row k' := by
  by_cases h : k' = k
  · subst h; simp [erase]
  · simp [erase, h]

@[simp] theorem row_modify_self (k : K) (f : V → V) (hf : ∀ v, key (f v) = key v) :
    (t.modify k f hf).row k = (t.row k).map f := by
  rw [row_modify, if_pos rfl]

theorem row_modify_ne {k k' : K} (h : k' ≠ k) (f : V → V) (hf : ∀ v, key (f v) = key v) :
    (t.modify k f hf).row k' = t.row k' := by
  rw [row_modify, if_neg h]

theorem row_insert_new {v : V} (h : t.row (key v) = none) : (t.insert v).row (key v) = some v := by
  rw [row_insert, if_pos ⟨rfl, h⟩]

theorem row_insert_ne {k : K} {v : V} (h : k ≠ key v) : (t.insert v).row k = t.row k := by
  rw [row_insert, if_neg (by simp [h])]

@[simp] theorem row_erase_self (k : K) : (t.erase k).row k = none := by
  rw [row_erase, if_pos rfl]

theorem row_erase_ne {k k' : K} (h : k' ≠ k) : (t.erase k).row k' = t.row k' := by
  rw [row_erase, if_neg h]

end Update

/-! ## Atomic changes -/

/-- What a transaction does to a table. -/
inductive Change (V : Type) where
  | keep
  /-- The row `v` becomes `v'`. -/
  | set (v v' : V)
  | new (v : V)
  | map (g : V → V)
  /-- Rows that satisfy `p` come and go. -/
  | within (p : V → Bool)

/-- The rows of `t'` are those of `t` after the change. -/
def Change.Rel (t t' : Table key) : Change V → Prop
  | .keep => ∀ k, t'.row k = t.row k
  | .set v v' => t.row (key v) = some v ∧ t'.row (key v) = some v' ∧ ∀ k, k ≠ key v → t'.row k = t.row k
  | .new v => t.row (key v) = none ∧ t'.row (key v) = some v ∧ ∀ k, k ≠ key v → t'.row k = t.row k
  | .map g => ∀ k, t'.row k = (t.row k).map g
  | .within p => ∀ k, t'.row k = t.row k ∨
      (∀ v, t.row k = some v → p v = true) ∧ ∀ v, t'.row k = some v → p v = true

namespace Change

variable {t' : Table key}

theorem new_insert [DecidableEq K] {v : V} (h : t.row (key v) = none) : (new v).Rel t (t.insert v) :=
  ⟨h, row_insert_new h, fun _ hk => row_insert_ne hk⟩

theorem set_modify [DecidableEq K] {k : K} {v : V} {f : V → V} (hf : ∀ v, key (f v) = key v)
    (hk : k = key v) (h : t.row k = some v) : (set v (f v)).Rel t (t.modify k f hf) := by
  subst hk
  exact ⟨h, by simp [h], fun _ hk => row_modify_ne hk _ _⟩

theorem Rel.keep_trans {t'' : Table key} {c : Change V} (h : keep.Rel t t') (h' : c.Rel t' t'') : c.Rel t t'' := by
  cases c with
  | keep => exact fun k => (h' k).trans (h k)
  | set v v' => exact ⟨by rw [← h]; exact h'.1, h'.2.1, fun k hk => (h'.2.2 k hk).trans (h k)⟩
  | new v => exact ⟨by rw [← h]; exact h'.1, h'.2.1, fun k hk => (h'.2.2 k hk).trans (h k)⟩
  | map g => exact fun k => by rw [h' k, h k]
  | within q => exact fun k => by rw [← h k]; exact h' k

/-- A row after a `set`. -/
theorem Rel.of_set {v v' u : V} {k : K} (h : (set v v').Rel t t') (hk : t.row k = some u) :
    u = v ∧ k = key v ∧ t'.row k = some v' ∨ k ≠ key v ∧ t'.row k = some u := by
  by_cases hkv : k = key v
  · subst hkv
    rw [h.1] at hk
    exact Or.inl ⟨(Option.some.inj hk).symm, rfl, h.2.1⟩
  · exact Or.inr ⟨hkv, by rw [h.2.2 k hkv, hk]⟩

/-- A row after a `new`. -/
theorem Rel.of_new {v u : V} {k : K} (h : (new v).Rel t t') (hk : t.row k = some u) :
    k ≠ key v ∧ t'.row k = some u := by
  have hkv : k ≠ key v := by
    rintro rfl
    rw [h.1] at hk
    cases hk
  exact ⟨hkv, by rw [h.2.2 k hkv, hk]⟩

theorem Rel.of_map {g : V → V} {u : V} {k : K} (h : (map g).Rel t t') (hk : t.row k = some u) :
    t'.row k = some (g u) := by
  rw [h k, hk, Option.map_some]

/-- Rows that satisfy `Q` stay, and change along `P`. -/
def Keeps (Q : V → Prop) (P : V → V → Prop) : Change V → Prop
  | .set v v' => Q v → P v v'
  | .map g => ∀ v, Q v → P v (g v)
  | .within p => ∀ v, p v = true → ¬Q v
  | _ => True

theorem Rel.keeps {Q : V → Prop} {P : V → V → Prop} {c : Change V} (hP : ∀ v, P v v) (h : c.Rel t t')
    (hk : c.Keeps Q P) {k : K} {v : V} (hv : t.row k = some v) (hQ : Q v) :
    ∃ v', t'.row k = some v' ∧ P v v' := by
  cases c with
  | keep => exact ⟨v, by rw [h k, hv], hP v⟩
  | set u u' =>
    rcases Rel.of_set h hv with ⟨rfl, -, hu⟩ | ⟨-, hu⟩
    · exact ⟨u', hu, hk hQ⟩
    · exact ⟨v, hu, hP v⟩
  | new u => exact ⟨v, (Rel.of_new h hv).2, hP v⟩
  | map g => exact ⟨g v, Rel.of_map h hv, hk v hQ⟩
  | within p =>
    rcases h k with h | ⟨h, -⟩
    · exact ⟨v, by rw [h, hv], hP v⟩
    · exact absurd hQ (hk v (h v hv))

section Sweep

variable {live : V → Bool} {mark : V → V} {T : List K}

/-- Rows with the keys `T` are marked. -/
def markIn [DecidableEq K] (key : V → K) (mark : V → V) (T : List K) (v : V) : V := if key v ∈ T then mark v else v

theorem Rel.markNil [DecidableEq K] (h : keep.Rel t t') : (map (markIn key mark [])).Rel t t' := by
  intro k
  have h0 : markIn key mark [] = id := funext fun v => by simp [markIn]
  rw [h k, h0, Option.map_id_apply]

theorem Rel.markSet [DecidableEq K] {v : V} (h : (set v (mark v)).Rel t t') :
    (map (markIn key mark [key v])).Rel t t' := by
  intro k
  by_cases hk : k = key v
  · subst hk
    rw [h.2.1, h.1, Option.map_some, markIn, if_pos (List.mem_singleton.mpr rfl)]
  · rw [h.2.2 k hk]
    cases hv : t.row k with
    | none => rfl
    | some u =>
      have hu : key u ∉ [key v] := by rw [t.row_key _ _ hv, List.mem_singleton]; exact hk
      rw [Option.map_some, markIn, if_neg hu]

/-- One more row is marked. -/
theorem Rel.markCons [DecidableEq K] {k : K} (h : (map (markIn key mark T)).Rel t t')
    (hf : ∀ v, key (mark v) = key v) (hk : k ∉ T) :
    (map (markIn key mark (k :: T))).Rel t (t'.modify k mark hf) := by
  intro k'
  rw [row_modify, h k']
  cases hv : t.row k' with
  | none => simp
  | some v =>
    have hkey := t.row_key _ _ hv
    simp only [Option.map_some, markIn, hkey, List.mem_cons]
    by_cases hkk : k' = k
    · subst hkk
      simp [hk]
    · simp [hkk]

/-- When the marked rows are those that are live, the sweep is one `UPDATE … WHERE`. -/
theorem Rel.markAll [DecidableEq K] (h : (map (markIn key mark T)).Rel t t')
    (hT : ∀ k ∈ T, ∃ v, t.row k = some v ∧ live v = true)
    (hl : ∀ k v, t.row k = some v → live v = true → k ∈ T) :
    (map fun v => if live v then mark v else v).Rel t t' := by
  intro k
  rw [h k]
  cases hv : t.row k with
  | none => rfl
  | some v =>
    rw [Option.map_some, Option.map_some, markIn, t.row_key _ _ hv]
    by_cases hlv : live v = true
    · rw [if_pos (hl k v hv hlv), if_pos hlv]
    · have hk : k ∉ T := fun hk => by
        obtain ⟨u, hu, hlu⟩ := hT k hk
        rw [hv] at hu
        cases hu
        exact hlv hlu
      rw [if_neg hk, if_neg hlv]

theorem Rel.within_erase [DecidableEq K] {q : V → Bool} {k : K} (h : (within q).Rel t t')
    (hk : ∀ v, t.row k = some v → q v = true) : (within q).Rel t (t'.erase k) := by
  intro k'
  by_cases hkk : k' = k
  · subst hkk
    exact Or.inr ⟨hk, by simp⟩
  · rw [row_erase_ne hkk]
    exact h k'

theorem Rel.within_insert [DecidableEq K] {q : V → Bool} {v : V} (h : (within q).Rel t t') (hv : q v = true) :
    (within q).Rel t (t'.insert v) := by
  intro k
  rw [row_insert]
  split
  · rename_i hk
    refine Or.inr ⟨fun u hu => ?_, fun u hu => by cases hu; exact hv⟩
    rcases h k with h | ⟨h, -⟩
    · rw [← h, hk.2] at hu
      cases hu
    · exact h u hu
  · exact h k

/-- A row that satisfies the condition did so before. -/
theorem Rel.of_within {q : V → Bool} {k : K} {u : V} (h : (within q).Rel t t') (hk : t'.row k = some u)
    (hq : q u = true) : ∀ v, t.row k = some v → q v = true := by
  intro v hv
  rcases h k with h | ⟨h, -⟩
  · rw [hk, hv] at h
    cases h
    exact hq
  · exact h v hv

theorem Rel.within_modify [DecidableEq K] {q : V → Bool} {k : K} {g : V → V} (hg : ∀ v, key (g v) = key v)
    (h : keep.Rel t t') (hk : ∀ v, key v = k → q v = true) : (within q).Rel t (t'.modify k g hg) := by
  intro k'
  rw [row_modify, h k']
  split
  · rename_i hkk
    subst hkk
    refine Or.inr ⟨fun v hv => hk v (t.row_key _ _ hv), fun v hv => ?_⟩
    obtain ⟨u, hu, rfl⟩ := Option.map_eq_some_iff.mp hv
    exact hk _ (by rw [hg, t.row_key _ _ hu])
  · exact Or.inl rfl

theorem Rel.within_keep {q : V → Bool} (h : keep.Rel t t') : (within q).Rel t t' := fun k => Or.inl (h k)

end Sweep

end Change

end Table

/-! ## Rows that do not appear -/

/-- No new rows of `t'` satisfy `own`. -/
def NoNew {K V : Type} {key : V → K} (own : V → Prop) (t t' : Table key) : Prop :=
  ∀ k v', t'.row k = some v' → own v' → ∃ v, t.row k = some v ∧ own v

section NoNew

variable {K V : Type} {key : V → K} {own : V → Prop} {t t' t'' : Table key}

theorem NoNew.refl : NoNew own t t := fun _ v h ho => ⟨v, h, ho⟩

theorem NoNew.trans (h : NoNew own t t') (h' : NoNew own t' t'') : NoNew own t t'' := by
  intro k v hv ho
  obtain ⟨v', hv', ho'⟩ := h' k v hv ho
  exact h k v' hv' ho'

variable [DecidableEq K]

/-- An update that does not make rows satisfy `own`. -/
theorem NoNew.modify {k : K} {f : V → V} {hf : ∀ v, key (f v) = key v} (h : ∀ v, own (f v) → own v) :
    NoNew own t (t.modify k f hf) := by
  intro k' v hv ho
  rw [Table.row_modify] at hv
  split at hv
  · obtain ⟨u, hu, rfl⟩ := Option.map_eq_some_iff.mp hv
    exact ⟨u, hu, h u ho⟩
  · exact ⟨v, hv, ho⟩

theorem NoNew.insert {v : V} (h : ¬own v) : NoNew own t (t.insert v) := by
  intro k' u hu ho
  rw [Table.row_insert] at hu
  split at hu
  · cases hu; exact absurd ho h
  · exact ⟨u, hu, ho⟩

theorem NoNew.erase {k : K} : NoNew own t (t.erase k) := by
  intro k' u hu ho
  rw [Table.row_erase] at hu
  split at hu
  · cases hu
  · exact ⟨u, hu, ho⟩

end NoNew

/-! ## Columns that an update writes -/

/-- The columns of a row that a flush writes: those whose assigned value differs from the loaded one. -/
def changed {α : Type} [DecidableEq α] (loaded assigned : α) : Option α :=
  if loaded = assigned then none else some assigned

@[simp] theorem changed_getD {α : Type} [DecidableEq α] (loaded assigned : α) :
    (changed loaded assigned).getD loaded = assigned := by
  unfold changed
  split
  · assumption
  · rfl

theorem eq_of_changed {α : Type} [DecidableEq α] {loaded assigned : α} (h : changed loaded assigned = none) :
    loaded = assigned := by
  unfold changed at h
  split at h
  · assumption
  · cases h

end Txn
