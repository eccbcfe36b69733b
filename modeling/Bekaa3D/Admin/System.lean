import Bekaa3D.Admin.Contract

/-!
# Admin.System — administrators' commands in any interleaving

`system tables db req` is the system in which transaction `i` handles the command `req i`, from the database `db`.

* `Serial`: committed commands executed one after the other.
* `serializable`: the committed database of every reachable state is that of the committed commands executed one
  after the other, in commit order.
* `rejected_not_committed`: a command that raises has committed nothing.
-/

namespace Bekaa3D.Admin

open Txn
open Identity (Uuid Instant)
open Platform (Unicode)

variable {ι : Type}

/-- No command has run yet. -/
@[reducible] def system (tables : Unicode) (db : Db) (req : ι → Request) : Sys store ι :=
  Sys.start db () fun i => handle tables (req i)

/-- From the database `db₀`, the commands of these transactions executed one after the other lead to the database;
what each read and wrote is in the history of `w`. -/
inductive Serial (tables : Unicode) (req : ι → Request) (w : World store ι) (db₀ : Db) : List ι → Db → Prop where
  | nil : Serial tables req w db₀ [] db₀
  | snoc {is : List ι} {db db' : Db} {i : ι} {e : Edit} (h : Serial tables req w db₀ is db)
      (hm : (req i).Makes w i tables e) (hrel : e.Rel db db') : Serial tables req w db₀ (is ++ [i]) db'

section Mono

variable {tables : Unicode} {w w' : World store ι} {i : ι} {e : Edit} (hw : ∀ x ∈ w.tr, x ∈ w'.tr)

include hw

theorem Request.Makes.mono {q : Request} (h : q.Makes w i tables e) : q.Makes w' i tables e := by
  have of : ∀ {t valueId c}, MakesOf w i t valueId c e → MakesOf w' i t valueId c e := by
    rintro t valueId c ⟨at_, v, hn, hd, hid, hm⟩
    exact ⟨at_, v, hn.mono hw, hd.mono hw, hid, hm⟩
  cases q with
  | updateSetting key value caller =>
    obtain ⟨at_, x, hn, hd, hk, hm⟩ := h
    exact ⟨at_, x, hn.mono hw, hd.mono hw, hk, hm⟩
  | createCategory name slug isActive caller =>
    obtain ⟨slug', v, hs, hv, hd, he⟩ := h
    exact ⟨slug', v, hs, hv, hd.mono hw, he⟩
  | createReferenceValue t name isActive caller =>
    obtain ⟨v, hv, hd, he⟩ := h
    exact ⟨v, hv, hd.mono hw, he⟩
  | updateCategory | archiveCategory | updateReferenceValue | archiveReferenceValue => exact of h

theorem Serial.mono {req : ι → Request} {db₀ db : Db} {is : List ι} (h : Serial tables req w db₀ is db) :
    Serial tables req w' db₀ is db := by
  induction h with
  | nil => exact .nil
  | snoc _ hm hrel ih => exact .snoc ih (hm.mono hw) hrel

end Mono

variable [DecidableEq ι] {tables : Unicode} {A : World store ι → Event store ι → Prop} {db : Db} {req : ι → Request}
  {s s' : Sys store ι} {i : ι}

omit [DecidableEq ι] in
theorem once : (contract tables A req).Once := ⟨fun h => h, fun h => h.1⟩

/-- **Serializability**: the committed commands, one after the other in commit order. -/
theorem serializable (hr : Reach A (system tables db req) s) :
    Serial tables req s.world db (commits s.world.tr) s.world.db := by
  refine Logic.invariant_commit (Φ := contract tables A req) (J := fun w => Serial tables req w db (commits w.tr) w.db)
    (fun _ => runs rfl) once (fun hq h => ?_) (fun _ h _ _ hc => ?_) .nil hr
  · rw [hq.commits, hq.db]
    exact h.mono hq.mono
  · obtain ⟨-, e, hm, hrel, -⟩ := hc
    have hmono : ∀ {w : World store ι} {i f}, ∀ x ∈ w.tr, x ∈ (w.commit i f).tr := fun x hx => mem_commit hx
    rw [commits_commit]
    exact .snoc (h.mono hmono) (hm.mono hmono) hrel

theorem commits_once (hr : Reach A (system tables db req) s) : (commits s.world.tr).Nodup :=
  Logic.nodup_commits (Φ := contract tables A req) (fun _ => runs rfl) once hr

/-- A command that raises has committed nothing. -/
theorem rejected_not_committed (hr : Reach A (system tables db req) s) {e : AdminError}
    (he : ⟨i, .done (.error e)⟩ ∈ s.world.tr) : ¬Committed s.world i := by
  suffices hJ : ∀ i e, ⟨i, .done (.error e)⟩ ∈ s.world.tr → ¬Committed s.world i from hJ i e he
  refine Logic.invariant (Φ := contract tables A req)
    (J := fun w => ∀ i e, ⟨i, .done (.error e)⟩ ∈ w.tr → ¬Committed w i) (fun _ => runs rfl) ?_
    (fun _ _ h => (List.not_mem_nil h).elim) hr
  have old : ∀ {w : World store ι} {j a}, (∀ i e, ⟨i, .done (.error e)⟩ ∈ w.tr → ¬Committed w i) → a ≠ .commit →
      (∀ e, a ≠ .done (.error e)) → ∀ i e, ⟨i, .done (.error e)⟩ ∈ (w.push j a).tr → ¬Committed (w.push j a) i := by
    intro w j a hJ hc ha i e hm hcom
    rw [committed_push hc] at hcom
    rcases List.mem_append.mp hm with hm | hm
    · exact hJ i e hm hcom
    · cases List.mem_singleton.mp hm
      exact ha e rfl
  exact {
    stmt := fun _ hJ _ _ _ _ => old hJ (fun h => by cases h) fun _ h => by cases h
    commit := fun {s i f} hs hJ hi _ _ _ j e hm hcom => by
      have hdone : ⟨j, .done (.error e)⟩ ∈ s.world.tr := by
        rcases List.mem_append.mp hm with hm | hm
        · exact hm
        · cases List.mem_singleton.mp hm
      rcases committed_commit.mp hcom with hcom | rfl
      · exact hJ j e hdone hcom
      · exact hi (over_of_final hs hdone trivial)
    done := fun {s i a} _ hJ _ hf j e hm hcom => by
      rw [committed_push fun h => by cases h] at hcom
      rcases List.mem_append.mp hm with hm | hm
      · exact hJ j e hm hcom
      · cases List.mem_singleton.mp hm
        exact hf hcom
    crash := fun _ hJ _ => old hJ (fun h => by cases h) fun _ h => by cases h }

/-- A step that is a commit makes one edit of its command. -/
theorem commit_step (hr : Reach A (system tables db req) s) (h : Step A s s')
    (htr : s'.world.tr = s.world.tr ++ [⟨i, .commit⟩]) :
    ∃ e, (req i).Makes s.world i tables e ∧ e.Rel s.world.db s'.world.db := by
  obtain ⟨f, -, hc, hw⟩ := Logic.commit_step (Φ := contract tables A req) (fun _ => runs rfl) once hr h htr
  obtain ⟨-, e, hm, hrel, -⟩ := hc
  rw [hw]
  exact ⟨e, hm, hrel⟩

end Bekaa3D.Admin
