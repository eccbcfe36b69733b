import Mathlib.Data.Bool.Count
import Mathlib.Data.List.Basic
import Mathlib.Tactic.Common

/-!
# Retry.Bounded — work that is tried again until it succeeds, a bounded number of times

* `State`: a piece of work that waits after some failures, has succeeded, or is given up.
* `step max`: one more attempt; there is none after a success or after `max` failures.
* `run max`: attempts one after another.
* `run_leads`: how many attempts of a run have failed and succeeded.
-/

namespace Retry

inductive State where
  | waiting (failures : ℕ)
  | succeeded (failures : ℕ)
  | abandoned
  deriving DecidableEq, Repr

/-- One more attempt, which succeeds or not. -/
def step (max : ℕ) : State → Bool → Option State
  | .waiting k, true => some (.succeeded k)
  | .waiting k, false => some (if max ≤ k + 1 then .abandoned else .waiting (k + 1))
  | _, _ => none

/-- Attempts one after another, by whether they succeed. -/
def run (max : ℕ) : State → List Bool → Option State
  | s, [] => some s
  | s, b :: bs => (step max s b).bind fun s' => run max s' bs

def State.failures (max : ℕ) : State → ℕ
  | .waiting k => k
  | .succeeded k => k
  | .abandoned => max

/-- Nothing is tried any more. -/
def State.Final : State → Prop
  | .waiting _ => False
  | _ => True

variable {max k : ℕ} {s t u : State} {b : Bool} {bs : List Bool}

@[simp] theorem run_cons : run max s (b :: bs) = (step max s b).bind fun s' => run max s' bs := rfl

theorem step_final (h : s.Final) : step max s b = none := by
  cases s with
  | waiting k => exact absurd h id
  | succeeded k => rfl
  | abandoned => rfl

/-- No attempt follows a success or the last failure. -/
theorem run_final (h : s.Final) (hr : run max s bs = some t) : bs = [] := by
  cases bs with
  | nil => rfl
  | cons b bs =>
    rw [run_cons, step_final h] at hr
    cases hr

/-- The attempts that lead to a state, when `k` have failed before. -/
structure Leads (max k : ℕ) (bs : List Bool) (t : State) : Prop where
  failed : k + bs.count false = t.failures max
  succeeded : bs.count true = if t = .succeeded (t.failures max) then 1 else 0
  bound : ∀ n, t = .waiting n ∨ t = .succeeded n → n < max

/-- **The attempts so far**: how many have failed, that at most one has succeeded, and that fewer than `max`
have failed unless the work is given up. -/
theorem run_leads (hk : k < max) (hr : run max (.waiting k) bs = some t) : Leads max k bs t := by
  induction bs generalizing k with
  | nil =>
    cases hr
    refine ⟨rfl, by simp, fun n hn => ?_⟩
    rcases hn with hn | hn
    · cases hn
      exact hk
    · cases hn
  | cons b bs ih =>
    cases b with
    | true =>
      have hbs : bs = [] := run_final (s := .succeeded k) trivial hr
      subst hbs
      cases hr
      refine ⟨by simp [State.failures], by simp [State.failures], fun n hn => ?_⟩
      rcases hn with hn | hn
      · cases hn
      · cases hn
        exact hk
    | false =>
      by_cases hm : max ≤ k + 1
      · have hstep : step max (.waiting k) false = some .abandoned := by simp only [step, if_pos hm]
        rw [run_cons, hstep, Option.bind_some] at hr
        have hbs : bs = [] := run_final (s := .abandoned) trivial hr
        subst hbs
        cases hr
        have hmax : k + 1 = max := by omega
        exact ⟨by simpa [State.failures] using hmax, by simp, by simp⟩
      · have hstep : step max (.waiting k) false = some (.waiting (k + 1)) := by simp only [step, if_neg hm]
        rw [run_cons, hstep, Option.bind_some] at hr
        have hl := ih (by omega) hr
        refine ⟨?_, ?_, hl.bound⟩
        · rw [← hl.failed, List.count_cons_self]
          omega
        · rw [← hl.succeeded, List.count_cons_of_ne (by decide)]

variable (hm : 0 < max) (hr : run max (.waiting 0) bs = some t)

include hm hr

theorem failed_of_run : bs.count false = t.failures max := by
  have h := (run_leads hm hr).failed
  rwa [Nat.zero_add] at h

/-- At most one attempt succeeds. -/
theorem count_success : bs.count true ≤ 1 := by
  rw [(run_leads hm hr).succeeded]
  split <;> omega

/-- As long as the work waits, no attempt has succeeded. -/
theorem no_success (ht : t = .waiting k) : bs.count true = 0 := by
  subst ht
  rw [(run_leads hm hr).succeeded, if_neg (by simp)]

/-- As long as the work waits, every attempt has failed. -/
theorem length_waiting (ht : t = .waiting k) : bs.length = k := by
  have hf := failed_of_run hm hr
  have hs := no_success hm hr ht
  subst ht
  rw [← List.count_true_add_count_false, hs, hf, Nat.zero_add]
  rfl

theorem length_le : bs.length ≤ max := by
  have hl := run_leads hm hr
  have hf := failed_of_run hm hr
  have hs := hl.succeeded
  rw [← List.count_true_add_count_false]
  cases t with
  | waiting n =>
    have hn := hl.bound n (Or.inl rfl)
    rw [if_neg (by simp)] at hs
    rw [State.failures] at hf
    omega
  | succeeded n =>
    have hn := hl.bound n (Or.inr rfl)
    rw [if_pos (by rfl)] at hs
    rw [State.failures] at hf
    omega
  | abandoned =>
    rw [if_neg (by simp)] at hs
    rw [State.failures] at hf
    omega

end Retry
