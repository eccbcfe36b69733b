import Bekaa3D.Txn.Logic
import Bekaa3D.Txn.History

/-!
# Txn.Runs — runs of transactions that commit once

A logic in which a transaction that has committed issues no statement and commits no more (`Logic.Once`).

* `Logic.step_cases`: a step commits with the guarantees of the logic, or is quiet.
* `Logic.invariant_commit`, `Logic.invariant_from`: what every commit keeps holds of every reachable state.
-/

namespace Txn

variable {E : Engine} {ι : Type}

/-- Transactions commit once and do nothing after it. -/
structure Logic.Once (Φ : Logic E ι) : Prop where
  stmt : ∀ {w i L f o}, Φ.Chk w i L f o → ¬Committed w i
  commit : ∀ {w i f}, Φ.Cmt w i f → ¬Committed w i

variable [DecidableEq ι] {A : World E ι → Event E ι → Prop} {db : E.Db} {mem : E.Mem}
  {prog : ι → Prog E.toLang E.Ans} {s s' : Sys E ι} {i j : ι}

/-- A transaction that takes a step and has not committed has not ended. -/
theorem not_ended (hr : Reach A (Sys.start db mem prog) s) (hi : s.txs i ≠ .over) (hu : ¬Committed s.world i) :
    ¬s.world.Ended i := by
  rintro ⟨⟨j, a⟩, he, rfl, ha⟩
  cases a with
  | stmt o r => exact ha
  | commit => exact hu he
  | done a => exact hi (over_of_final hr he trivial)
  | crash => exact hi (over_of_final hr he trivial)

/-- Transactions that took conflicting locks and have not ended are one. -/
theorem did_exclusive (hr : Reach A (Sys.start db mem prog) s) {o o' : E.Op} {r : E.Resp o} {r' : E.Resp o'}
    (hd : Did s.world i o r) (hd' : Did s.world j o' r') (hn : ¬s.world.Ended i) (hn' : ¬s.world.Ended j)
    {l m : E.Lock} (hl : l ∈ E.need o r) (hm : m ∈ E.need o' r') (hc : E.conflict l m = true) : i = j := by
  by_contra hne
  have h : E.conflict l m = false := exclusive hr hd hd' hne hn hn' hl hm
  rw [hc] at h
  cases h

namespace Logic

section Rely

omit [DecidableEq ι]

variable {Φ : Logic E ι} {L : List E.Lock} {w w' : World E ι}

theorem Rely.did (hw : Φ.Rely i L w w') {o : E.Op} {r : E.Resp o} : Did w' i o r ↔ Did w i o r := by
  refine ⟨fun hd => ?_, fun hd => hw.mem_tr hd⟩
  obtain ⟨x, hx, hxe⟩ := hw.tr
  unfold Did at hd
  rw [hx] at hd
  rcases List.mem_append.mp hd with hd | hd
  · exact hd
  · exact absurd rfl (hxe _ hd).1

theorem Rely.committed (hw : Φ.Rely i L w w') : Committed w' i ↔ Committed w i := by
  refine ⟨fun hc => ?_, fun hc => hw.mem_tr hc⟩
  obtain ⟨x, hx, hxe⟩ := hw.tr
  unfold Committed at hc
  rw [hx] at hc
  rcases List.mem_append.mp hc with hc | hc
  · exact hc
  · exact absurd rfl (hxe _ hc).1

theorem Holds.did (o : E.Op) (r : E.Resp o) : Φ.Holds i L fun w => Did w i o r := Holds.mem _

theorem Holds.uncommitted : Φ.Holds i L fun w => ¬Committed w i :=
  ⟨fun hw hu hc => hu (hw.committed.mp hc), fun _ _ hu hc => hu (committed_stmt.mp hc)⟩

end Rely

variable {Φ : Logic E ι} (hp : ∀ i, Φ.Run i (prog i) [] id ⟨db, mem, []⟩) (once : Φ.Once)

include hp once

/-- A step commits what the logic lets it commit, or is quiet. -/
theorem step_cases (hr : Reach Φ.A (Sys.start db mem prog) s) (h : Step Φ.A s s') :
    (∃ i, Quiet i s.world s'.world) ∨ ∃ i f, Φ.A s.world ⟨i, .commit⟩ ∧ ¬s.world.Ended i ∧ Φ.Cmt s.world i f ∧
      s'.world = s.world.commit i f := by
  have hs := sound hp hr
  cases h with
  | @stmt i o k L f r hi hresp hl hA =>
    obtain ⟨hc, -⟩ := (hs.run _ _ _ _ hi) s.world (.refl _ _ _)
    exact Or.inl ⟨i, .stmt (once.stmt hc)⟩
  | @commit i k L f hi hA =>
    obtain ⟨hc, -⟩ := (hs.run _ _ _ _ hi) s.world (.refl _ _ _)
    have hn := not_ended hr (fun h => by rw [hi] at h; cases h) (once.commit hc)
    exact Or.inr ⟨i, f, hA, hn, hc, rfl⟩
  | ret hi hA => exact Or.inl ⟨_, .push (fun _ _ h => by cases h) fun h => by cases h⟩
  | raise hi hA => exact Or.inl ⟨_, .push (fun _ _ h => by cases h) fun h => by cases h⟩
  | crash hi hA => exact Or.inl ⟨_, .push (fun _ _ h => by cases h) fun h => by cases h⟩

/-- A step that is a commit. -/
theorem commit_step (hr : Reach Φ.A (Sys.start db mem prog) s) (h : Step Φ.A s s')
    (htr : s'.world.tr = s.world.tr ++ [⟨i, .commit⟩]) :
    ∃ f, ¬s.world.Ended i ∧ Φ.Cmt s.world i f ∧ s'.world = s.world.commit i f := by
  rcases step_cases hp once hr h with ⟨j, hq⟩ | ⟨j, f, -, hn, hc, hw⟩
  · obtain ⟨a, ha, hne, -⟩ := hq.tr
    rw [ha] at htr
    cases List.append_cancel_left htr
    exact absurd rfl hne
  · rw [hw] at htr
    cases List.append_cancel_left htr
    exact ⟨f, hn, hc, hw⟩

/-- A property that every commit keeps, and every step that commits nothing. -/
theorem invariant_commit {J : World E ι → Prop} (quiet : ∀ {i w w'}, Quiet i w w' → J w → J w')
    (commit : ∀ {s : Sys E ι} {i f}, Reach Φ.A (Sys.start db mem prog) s → J s.world →
      Φ.A s.world ⟨i, .commit⟩ → ¬s.world.Ended i → Φ.Cmt s.world i f → J (s.world.commit i f))
    (h0 : J ⟨db, mem, []⟩) (hr : Reach Φ.A (Sys.start db mem prog) s) : J s.world := by
  induction hr with
  | refl => exact h0
  | tail hpre hstep ih =>
    rcases step_cases hp once hpre hstep with ⟨i, hq⟩ | ⟨i, f, hA, hn, hc, hw⟩
    · exact quiet hq ih
    · rw [hw]
      exact commit hpre ih hA hn hc

/-- A transaction commits at most once. -/
theorem nodup_commits (hr : Reach Φ.A (Sys.start db mem prog) s) : (commits s.world.tr).Nodup := by
  refine invariant_commit hp once (J := fun w => (commits w.tr).Nodup) (fun hq h => ?_) (fun _ h _ _ hc => ?_)
    List.nodup_nil hr
  · rw [hq.commits]
    exact h
  · rw [commits_commit]
    exact List.Nodup.append h (List.nodup_singleton _) (by simpa using mem_commits.not.mpr (once.commit hc))

/-- A property of the committed database that every commit keeps, from a reachable state on. -/
theorem invariant_from {J : E.Db → Prop} (hr : Reach Φ.A (Sys.start db mem prog) s)
    (commit : ∀ {s₁ : Sys E ι} {i f}, Reach Φ.A s s₁ → J s₁.world.db → ¬s₁.world.Ended i → Φ.Cmt s₁.world i f →
      J (f s₁.world.db))
    (h0 : J s.world.db) (hs : Reach Φ.A s s') : J s'.world.db := by
  induction hs with
  | refl => exact h0
  | tail hpre hstep ih =>
    rcases step_cases hp once (hr.trans hpre) hstep with ⟨i, hq⟩ | ⟨i, f, -, hn, hc, hw⟩
    · rw [hq.db]
      exact ih
    · rw [hw]
      exact commit hpre ih hn hc

end Logic

end Txn
