import Bekaa3D.Txn.Trace
import Mathlib.Data.Set.Card

/-!
# Txn.History — what has run and what has committed

* `Did`: transaction `i` ran a statement, with its reply.  `Committed`: it committed.
* `Quiet`: a step that commits nothing.  What it leaves as it is of the transactions that have committed.
* `commits`: the committed transactions, in commit order; `ncard_commit`: counting them.
-/

namespace Txn

variable {E : Engine} {ι : Type}

section Evidence

variable (w : World E ι) (i : ι)

/-- Transaction `i` ran the statement `o` with the reply `r`. -/
def Did (o : E.Op) (r : E.Resp o) : Prop := ⟨i, .stmt o r⟩ ∈ w.tr

def Committed : Prop := ⟨i, .commit⟩ ∈ w.tr

end Evidence

section Events

variable {w w' : World E ι} {i j : ι}

theorem did_stmt {o o' : E.Op} {r : E.Resp o} {r' : E.Resp o'} :
    Did (w.stmt i o r) i o' r' ↔ Did w i o' r' ∨ (⟨o, r⟩ : (o : E.Op) × E.Resp o) = ⟨o', r'⟩ := by
  unfold Did
  rw [World.stmt_tr, List.mem_append, List.mem_singleton]
  constructor
  · rintro (h | h)
    · exact Or.inl h
    · cases h; exact Or.inr rfl
  · rintro (h | h)
    · exact Or.inl h
    · cases h; exact Or.inr rfl

theorem did_stmt_ne {j : ι} (h : j ≠ i) {o o' : E.Op} {r : E.Resp o} {r' : E.Resp o'} :
    Did (w.stmt i o r) j o' r' ↔ Did w j o' r' := by
  unfold Did
  rw [World.stmt_tr, List.mem_append, List.mem_singleton]
  exact ⟨fun hd => hd.resolve_right fun he => h (congrArg Event.who he), Or.inl⟩

theorem did_self {o : E.Op} {r : E.Resp o} : Did (w.stmt i o r) i o r := did_stmt.mpr (Or.inr rfl)

theorem committed_stmt {o : E.Op} {r : E.Resp o} : Committed (w.stmt i o r) i ↔ Committed w i := by
  unfold Committed
  simp

theorem Did.mono {o : E.Op} {r : E.Resp o} (h : Did w i o r) (hw : ∀ e ∈ w.tr, e ∈ w'.tr) : Did w' i o r := hw _ h

theorem did_commit {f : E.Db → E.Db} {o : E.Op} {r : E.Resp o} : Did (w.commit j f) i o r ↔ Did w i o r := by
  unfold Did
  simp

theorem did_push {a : Act E} (ha : ∀ o r, a ≠ .stmt o r) {o : E.Op} {r : E.Resp o} :
    Did (w.push j a) i o r ↔ Did w i o r := by
  unfold Did
  rw [World.push_tr, List.mem_append, List.mem_singleton]
  refine ⟨fun h => h.resolve_right fun h => ?_, Or.inl⟩
  cases h
  exact ha o r rfl

theorem committed_commit {f : E.Db → E.Db} : Committed (w.commit j f) i ↔ Committed w i ∨ i = j := by
  unfold Committed
  simp

theorem committed_stmt_iff {o : E.Op} {r : E.Resp o} : Committed (w.stmt j o r) i ↔ Committed w i := by
  unfold Committed
  simp

theorem committed_push {a : Act E} (ha : a ≠ .commit) : Committed (w.push j a) i ↔ Committed w i := by
  unfold Committed
  rw [World.push_tr, List.mem_append, List.mem_singleton]
  refine ⟨fun h => h.resolve_right fun h => ?_, Or.inl⟩
  cases h
  exact ha rfl

/-- A statement is not a commit. -/
theorem before_commit_stmt {o : E.Op} {r : E.Resp o} {e : Event E ι} :
    Before e ⟨i, .commit⟩ (w.stmt j o r).tr ↔ Before e ⟨i, .commit⟩ w.tr := by
  rw [World.stmt_tr, before_append]
  exact ⟨fun h => h.resolve_right (fun h => by cases h.1), Or.inl⟩

theorem before_commit_commit {f : E.Db → E.Db} {e : Event E ι} :
    Before e ⟨i, .commit⟩ (w.commit j f).tr ↔ Before e ⟨i, .commit⟩ w.tr ∨ i = j ∧ e ∈ w.tr := by
  rw [World.commit_tr, before_append]
  simp

theorem before_commit_push {a : Act E} (ha : a ≠ .commit) {e : Event E ι} :
    Before e ⟨i, .commit⟩ (w.push j a).tr ↔ Before e ⟨i, .commit⟩ w.tr := by
  rw [World.push_tr, before_append]
  refine ⟨fun h => h.resolve_right fun h => ?_, Or.inl⟩
  cases h.1
  exact ha rfl

/-- A commit is not a statement. -/
theorem before_stmt_commit {f : E.Db → E.Db} {o : E.Op} {r : E.Resp o} {e : Event E ι} :
    Before e ⟨i, .stmt o r⟩ (w.commit j f).tr ↔ Before e ⟨i, .stmt o r⟩ w.tr := by
  rw [World.commit_tr, before_append]
  exact ⟨fun h => h.resolve_right (fun h => by cases h.1), Or.inl⟩

theorem before_stmt_push {a : Act E} (ha : ∀ o r, a ≠ .stmt o r) {o : E.Op} {r : E.Resp o} {e : Event E ι} :
    Before e ⟨i, .stmt o r⟩ (w.push j a).tr ↔ Before e ⟨i, .stmt o r⟩ w.tr := by
  rw [World.push_tr, before_append]
  refine ⟨fun h => h.resolve_right fun h => ?_, Or.inl⟩
  cases h.1
  exact ha o r rfl

theorem mem_commit {f : E.Db → E.Db} {e : Event E ι} (h : e ∈ w.tr) : e ∈ (w.commit i f).tr :=
  List.mem_append_left _ h

end Events

/-! ## Steps that commit nothing -/

section Quiet

variable {w w' : World E ι} {i j : ι}

/-- A step of `i` that is not a commit: a statement, if `i` has not committed, or its end. -/
structure Quiet (i : ι) (w w' : World E ι) : Prop where
  db : w'.db = w.db
  tr : ∃ a, w'.tr = w.tr ++ [⟨i, a⟩] ∧ a ≠ .commit ∧ ∀ o r, a = .stmt o r → ¬Committed w i

theorem Quiet.stmt {o : E.Op} {r : E.Resp o} (hu : ¬Committed w i) : Quiet i w (w.stmt i o r) :=
  ⟨rfl, _, rfl, by simp, fun _ _ _ => hu⟩

theorem Quiet.push {a : Act E} (ha : ∀ o r, a ≠ .stmt o r) (hc : a ≠ .commit) : Quiet i w (w.push i a) :=
  ⟨rfl, _, rfl, hc, fun o r h => absurd h (ha o r)⟩

theorem Quiet.mono (h : Quiet i w w') : ∀ e ∈ w.tr, e ∈ w'.tr := by
  obtain ⟨a, htr, -⟩ := h.tr
  intro e he
  rw [htr]
  exact List.mem_append_left _ he

theorem Quiet.committed (h : Quiet i w w') : Committed w' j ↔ Committed w j := by
  obtain ⟨a, htr, hc, -⟩ := h.tr
  unfold Committed
  rw [htr, List.mem_append, List.mem_singleton]
  refine ⟨fun h => h.resolve_right fun h => ?_, Or.inl⟩
  cases h
  exact hc rfl

theorem Quiet.did (h : Quiet i w w') (hj : Committed w j) {o : E.Op} {r : E.Resp o} :
    Did w' j o r ↔ Did w j o r := by
  obtain ⟨a, htr, -, hs⟩ := h.tr
  unfold Did
  rw [htr, List.mem_append, List.mem_singleton]
  refine ⟨fun h => h.resolve_right fun h => ?_, Or.inl⟩
  cases h
  exact hs o r rfl hj

theorem Quiet.before_commit (h : Quiet i w w') {e : Event E ι} :
    Before e ⟨j, .commit⟩ w'.tr ↔ Before e ⟨j, .commit⟩ w.tr := by
  obtain ⟨a, htr, hc, -⟩ := h.tr
  rw [htr, before_append]
  refine ⟨fun h => h.resolve_right fun h => ?_, Or.inl⟩
  cases h.1
  exact hc rfl

theorem Quiet.before_stmt (h : Quiet i w w') (hj : Committed w j) {o : E.Op} {r : E.Resp o} {e : Event E ι} :
    Before e ⟨j, .stmt o r⟩ w'.tr ↔ Before e ⟨j, .stmt o r⟩ w.tr := by
  obtain ⟨a, htr, -, hs⟩ := h.tr
  rw [htr, before_append]
  refine ⟨fun h => h.resolve_right fun h => ?_, Or.inl⟩
  cases h.1
  exact hs o r rfl hj

end Quiet

/-! ## The order of commits -/

section Commits

variable {w w' : World E ι} {i : ι}

/-- The transactions that have committed, in commit order. -/
def commits (tr : List (Event E ι)) : List ι :=
  tr.filterMap fun e =>
    match e.act with
    | .commit => some e.who
    | _ => none

theorem commits_commit {f : E.Db → E.Db} : commits (w.commit i f).tr = commits w.tr ++ [i] := by
  unfold commits
  rw [World.commit_tr, List.filterMap_append]
  rfl

theorem Quiet.commits (h : Quiet i w w') : commits w'.tr = commits w.tr := by
  obtain ⟨a, htr, hc, -⟩ := h.tr
  unfold Txn.commits
  rw [htr, List.filterMap_append]
  cases a with
  | commit => exact absurd rfl hc
  | _ => simp

theorem mem_commits : i ∈ commits w.tr ↔ Committed w i := by
  unfold commits Committed
  rw [List.mem_filterMap]
  constructor
  · rintro ⟨⟨j, a⟩, he, h⟩
    cases a with
    | commit => cases h; exact he
    | _ => cases h
  · exact fun h => ⟨_, h, rfl⟩

end Commits

/-! ## Counting commits -/

section Count

variable {w w' : World E ι} {i : ι} {P P' : ι → Prop}

theorem Quiet.setOf (h : Quiet i w w') (hP : ∀ c, Committed w c → (P' c ↔ P c)) :
    {c | Committed w' c ∧ P' c} = {c | Committed w c ∧ P c} := by
  ext c
  rw [Set.mem_ofPred_eq, Set.mem_ofPred_eq, h.committed]
  exact and_congr_right (hP c)

theorem finite_committed (w : World E ι) : {c | Committed w c ∧ P c}.Finite := by
  have h : {c | Committed w c ∧ P c} ⊆ {c | c ∈ w.tr.map Event.who} := fun c hc =>
    List.mem_map.mpr ⟨_, hc.1, rfl⟩
  exact (List.finite_toSet _).subset h

open Classical in
/-- One more transaction has committed. -/
theorem ncard_commit (hu : ¬Committed w i) {f : E.Db → E.Db} (hP : ∀ c, P' c ↔ P c) :
    {c | Committed (w.commit i f) c ∧ P' c}.ncard = {c | Committed w c ∧ P c}.ncard + if P i then 1 else 0 := by
  have heq : {c | Committed (w.commit i f) c ∧ P' c} =
      if P i then insert i {c | Committed w c ∧ P c} else {c | Committed w c ∧ P c} := by
    ext c
    split <;> simp only [Set.mem_ofPred_eq, Set.mem_insert_iff, committed_commit, hP] <;> grind
  rw [heq]
  split
  · exact Set.ncard_insert_of_notMem (fun h => hu h.1) (finite_committed w)
  · rfl

end Count

end Txn
