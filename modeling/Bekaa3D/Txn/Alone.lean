import Bekaa3D.Txn.Trace

/-!
# Txn.Alone — handlers one at a time

An environment that answers every statement makes of a handler that runs alone a function of the database.

* `Solo`: such an environment.  `Solo.run`: the answer of a handler, and what it leaves.
* `Solo.reach`: that is a run of the system in which nobody else takes a step.
* `serve`: requests one after another; `serve_reach`.
-/

namespace Txn

variable {E : Engine}

/-- Replies to statements, chosen by the database and the store outside it. -/
structure Solo (E : Engine) where
  reply : (o : E.Op) → E.Db → E.Mem → E.Resp o
  sound : ∀ o db mem free, E.resp o db mem free (reply o db mem)

/-- The answer of a handler, the committed database and the store outside it. -/
structure Outcome (E : Engine) where
  answer : Except E.Err E.Ans
  db : E.Db
  mem : E.Mem

namespace Solo

variable (S : Solo E)

/-- A handler with the committed database, the database as it sees it, and the store outside it. -/
def run : Prog E.toLang E.Ans → E.Db → E.Db → E.Mem → Outcome E
  | .ret a, committed, _, mem => ⟨.ok a, committed, mem⟩
  | .raise e, committed, _, mem => ⟨.error e, committed, mem⟩
  | .call o k, committed, seen, mem =>
    run (k (S.reply o seen mem)) committed (E.write o (S.reply o seen mem) seen) (E.memo o (S.reply o seen mem) mem)
  | .commit k, _, seen, mem => run k seen seen mem

variable {ι : Type} [DecidableEq ι]

/-- **A handler that runs alone**, as a run of the system. -/
theorem reach {p : Prog E.toLang E.Ans} {L : List E.Lock} {f : E.Db → E.Db} {s : Sys E ι} {i : ι}
    (hi : s.txs i = .run p L f) (hfree : ∀ j, j ≠ i → (s.txs j).held = []) :
    ∃ s', Reach Any s s' ∧ s'.world.db = (S.run p s.world.db (f s.world.db) s.world.mem).db ∧
      s'.world.mem = (S.run p s.world.db (f s.world.db) s.world.mem).mem ∧
      ⟨i, .done (S.run p s.world.db (f s.world.db) s.world.mem).answer⟩ ∈ s'.world.tr ∧
      s'.txs = Function.update s.txs i .over := by
  have others : ∀ {s : Sys E ι} {t : Tx E}, (∀ j, j ≠ i → (s.txs j).held = []) →
      ∀ j, j ≠ i → ((Function.update s.txs i t) j).held = [] := fun h j hj => by
    rw [Function.update_of_ne hj]
    exact h j hj
  induction p generalizing L f s with
  | ret a => exact ⟨_, .single (.ret hi trivial), rfl, rfl, by simp [run], rfl⟩
  | raise e => exact ⟨_, .single (.raise hi trivial), rfl, rfl, by simp [run], rfl⟩
  | call o k ih =>
    have hl : ∀ l ∈ E.need o (S.reply o (f s.world.db) s.world.mem), s.Free i l := by
      intro l _ j hj m hm
      rw [hfree j hj] at hm
      cases hm
    have hstep := Step.stmt (A := Any) hi (S.sound o (f s.world.db) s.world.mem (s.Free i)) hl trivial
    let r := S.reply o (f s.world.db) s.world.mem
    let s₁ : Sys E ι := ⟨s.world.stmt i o r, Function.update s.txs i (.run (k r) (E.need o r ++ L) (E.write o r ∘ f))⟩
    obtain ⟨s', hr, hdb, hmem, htr, htxs⟩ := ih r (s := s₁) (Function.update_self ..) (others hfree)
    refine ⟨s', .head hstep hr, hdb, hmem, htr, ?_⟩
    rw [htxs, Function.update_idem]
  | commit k ih =>
    have hstep := Step.commit (A := Any) hi trivial
    let s₁ : Sys E ι := ⟨s.world.commit i f, Function.update s.txs i (.run k [] id)⟩
    obtain ⟨s', hr, hdb, hmem, htr, htxs⟩ := ih (s := s₁) (Function.update_self ..) (others hfree)
    refine ⟨s', .head hstep hr, hdb, hmem, htr, ?_⟩
    rw [htxs, Function.update_idem]

end Solo

/-- Requests one after another, each with its environment: their answers, and what they leave. -/
def serve : List (Solo E × Prog E.toLang E.Ans) → E.Db → E.Mem → List (Except E.Err E.Ans) × E.Db × E.Mem
  | [], db, mem => ([], db, mem)
  | (S, p) :: rest, db, mem =>
    ((S.run p db db mem).answer :: (serve rest (S.run p db db mem).db (S.run p db db mem).mem).1,
      (serve rest (S.run p db db mem).db (S.run p db db mem).mem).2)

section Serve

variable {ι : Type} [DecidableEq ι]

/-- **Requests one after another**, as a run of the system. -/
theorem serve_reach {is : List (ι × Solo E)} {prog : ι → Prog E.toLang E.Ans} (hnd : (is.map Prod.fst).Nodup)
    {s : Sys E ι} (hi : ∀ x ∈ is, s.txs x.1 = .run (prog x.1) [] id) (hfree : ∀ j, (s.txs j).held = []) :
    ∃ s', Reach Any s s' ∧
      (s'.world.db, s'.world.mem) = (serve (is.map fun x => (x.2, prog x.1)) s.world.db s.world.mem).2 ∧
      List.Forall₂ (fun x a => ⟨x.1, .done a⟩ ∈ s'.world.tr) is
        (serve (is.map fun x => (x.2, prog x.1)) s.world.db s.world.mem).1 := by
  induction is generalizing s with
  | nil => exact ⟨s, .refl, rfl, .nil⟩
  | cons x is ih =>
    obtain ⟨i, S⟩ := x
    rw [List.map_cons, List.nodup_cons] at hnd
    obtain ⟨s₁, hr₁, hdb, hmem, htr, htxs⟩ := S.reach (hi (i, S) (by simp)) fun j _ => hfree j
    have hi₁ : ∀ x ∈ is, s₁.txs x.1 = .run (prog x.1) [] id := fun x hx => by
      have hne : x.1 ≠ i := fun h => hnd.1 (List.mem_map.mpr ⟨x, hx, h⟩)
      rw [htxs, Function.update_of_ne hne]
      exact hi x (by simp [hx])
    have hfree₁ : ∀ j, (s₁.txs j).held = [] := fun j => by
      rw [htxs]
      by_cases hj : j = i
      · rw [hj, Function.update_self]
        rfl
      · rw [Function.update_of_ne hj]
        exact hfree j
    obtain ⟨s₂, hr₂, hend, hall⟩ := ih hnd.2 hi₁ hfree₁
    rw [hdb, hmem] at hend hall
    exact ⟨s₂, hr₁.trans hr₂, hend, .cons (hr₂.mem_tr htr) hall⟩

end Serve

end Txn
