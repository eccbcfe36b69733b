import Bekaa3D.Txn.Runs
import Bekaa3D.Jobs.Outbox

/-!
# Jobs.Ledger — what the workers have done, read off the history

* `Attempt`: a message that was given to the provider, what the provider said, and what the clock said then.
* `ledger`: the attempts of a history: those of transactions that are not over yet, those that were committed,
  in commit order, and those of transactions that ended without a commit.
* `At`: what the ledger says about one transaction, which only its own steps change.
-/

namespace Bekaa3D.Jobs

open Txn
open Identity (Uuid Instant seconds)
open Platform (OutboxStatus redactPayload)
open Text.Json (Str Doc Numeral)

/-! ## Attempts -/

structure Attempt where
  message : EmailOutboxMessage
  /-- The time at which it was claimed. -/
  claimedAt : Instant
  outcome : Except Str Unit
  /-- What the clock said after that. -/
  readings : List Instant

namespace Attempt

def read (t : Instant) (a : Attempt) : Attempt := { a with readings := a.readings ++ [t] }

/-- The message as the attempt leaves it. -/
def settle (a : Attempt) : Option EmailOutboxMessage :=
  match a.outcome, a.readings with
  | .ok _, [at_] => some (a.message.markSent at_)
  | .error exc, [failedAt, at_] =>
    some (a.message.markFailed exc (failedAt + backoff a.message.attemptCount) at_)
  | _, _ => none

def success (a : Attempt) : Bool :=
  match a.outcome with
  | .ok _ => true
  | .error _ => false

end Attempt

variable {ι : Type} [DecidableEq ι]

structure Ledger (ι : Type) where
  /-- When each worker last looked for a message. -/
  polled : ι → Instant
  flying : ι → Option Attempt
  settled : List (ι × Attempt)
  lost : List (ι × Attempt)

namespace Ledger

def empty : Ledger ι := ⟨fun _ => 0, fun _ => none, [], []⟩

def record (g : Ledger ι) (e : Event store ι) : Ledger ι :=
  match e.act with
  | .stmt (.claimDue _ now) _ => { g with polled := Function.update g.polled e.who now }
  | .stmt (.send message) outcome =>
    { g with flying := Function.update g.flying e.who (some ⟨message, g.polled e.who, outcome, []⟩) }
  | .stmt .now t => { g with flying := Function.update g.flying e.who ((g.flying e.who).map (Attempt.read t)) }
  | .stmt _ _ => g
  | .commit =>
    { g with
      flying := Function.update g.flying e.who none
      settled := g.settled ++ (g.flying e.who).toList.map fun a => (e.who, a) }
  | .done _ | .crash =>
    { g with
      flying := Function.update g.flying e.who none
      lost := g.lost ++ (g.flying e.who).toList.map fun a => (e.who, a) }

/-- The committed attempts of a worker. -/
def mine (g : Ledger ι) (i : ι) : List (ι × Attempt) := g.settled.filter fun x => x.1 = i

/-- The committed attempts of a message, in commit order. -/
def attempts (g : Ledger ι) (id : Uuid) : List Attempt :=
  (g.settled.map Prod.snd).filter fun a => a.message.id = id

end Ledger

def ledger (tr : List (Event store ι)) : Ledger ι := tr.foldl Ledger.record .empty

@[simp] theorem ledger_snoc (tr : List (Event store ι)) (e : Event store ι) :
    ledger (tr ++ [e]) = (ledger tr).record e := by
  unfold ledger
  rw [List.foldl_append]
  rfl

/-- What the ledger says about transaction `i`. -/
structure At (i : ι) (fl : Option Attempt) (polled : Instant) (n : ℕ) (g : Ledger ι) : Prop where
  flying : g.flying i = fl
  polled : g.polled i = polled
  mine : (g.mine i).length = n

section At

variable {i : ι} {fl : Option Attempt} {c : Instant} {n : ℕ} {g : Ledger ι}

/-- What others do is not in the entries of `i`. -/
theorem At.other (h : At i fl c n g) {e : Event store ι} (he : e.who ≠ i) : At i fl c n (g.record e) := by
  have hne : i ≠ e.who := Ne.symm he
  obtain ⟨hf, hp, hm⟩ := h
  obtain ⟨j, a⟩ := e
  have hmine : ∀ l : List Attempt, (l.map fun a => (j, a)).filter (fun x : ι × Attempt => x.1 = i) = [] := by
    intro l
    rw [List.filter_eq_nil_iff]
    intro x hx
    obtain ⟨a, -, rfl⟩ := List.mem_map.mp hx
    simpa using he
  cases a with
  | stmt o r =>
    cases o with
    | now => exact ⟨(Function.update_of_ne hne _ _).trans hf, hp, hm⟩
    | claimDue limit now => exact ⟨hf, (Function.update_of_ne hne _ _).trans hp, hm⟩
    | send message => exact ⟨(Function.update_of_ne hne _ _).trans hf, hp, hm⟩
    | _ => exact ⟨hf, hp, hm⟩
  | commit =>
    refine ⟨(Function.update_of_ne hne _ _).trans hf, hp, ?_⟩
    unfold Ledger.mine Ledger.record at *
    rw [List.filter_append, hmine, List.append_nil]
    exact hm
  | done a => exact ⟨(Function.update_of_ne hne _ _).trans hf, hp, hm⟩
  | crash => exact ⟨(Function.update_of_ne hne _ _).trans hf, hp, hm⟩

theorem At.others (h : At i fl c n g) {ext : List (Event store ι)} (he : ∀ e ∈ ext, e.who ≠ i) :
    At i fl c n (ext.foldl Ledger.record g) := by
  induction ext generalizing g with
  | nil => exact h
  | cons e ext ih =>
    exact ih (h.other (he e (List.mem_cons_self ..))) fun x hx => he x (List.mem_cons_of_mem _ hx)

theorem At.now (h : At i fl c n g) (t : Instant) :
    At i (fl.map (Attempt.read t)) c n (g.record ⟨i, .stmt .now t⟩) := by
  refine ⟨?_, h.polled, h.mine⟩
  rw [← h.flying]
  exact Function.update_self ..

theorem At.claim (h : At i fl c n g) (limit : ℕ) (now : Instant) (ms : List EmailOutboxMessage) :
    At i fl now n (g.record ⟨i, .stmt (.claimDue limit now) ms⟩) :=
  ⟨h.flying, Function.update_self .., h.mine⟩

theorem At.send (h : At i fl c n g) (message : EmailOutboxMessage) (outcome : Except Str Unit) :
    At i (some ⟨message, c, outcome, []⟩) c n (g.record ⟨i, .stmt (.send message) outcome⟩) := by
  refine ⟨?_, h.polled, h.mine⟩
  rw [← h.polled]
  exact Function.update_self ..

theorem At.commit (h : At i fl c n g) : At i none c (n + fl.toList.length) (g.record ⟨i, .commit⟩) := by
  refine ⟨Function.update_self .., h.polled, ?_⟩
  have hall : ((g.flying i).toList.map fun a => (i, a)).filter (fun x : ι × Attempt => x.1 = i) =
      (g.flying i).toList.map fun a => (i, a) := by
    rw [List.filter_eq_self]
    intro x hx
    obtain ⟨a, -, rfl⟩ := List.mem_map.mp hx
    simp
  unfold Ledger.mine Ledger.record
  rw [List.filter_append, hall, List.length_append, List.length_map, h.flying]
  exact congrArg (· + _) h.mine

/-- A message is with the provider since it was sent, until its transaction ends. -/
theorem record_flying {e : Event store ι} {a : Attempt} (h : (g.record e).flying i = some a) :
    (∃ a₀, g.flying i = some a₀ ∧ a₀.message = a.message ∧ a₀.outcome = a.outcome ∧ (e.who = i → ¬e.act.ends)) ∨
      e = ⟨i, .stmt (.send a.message) a.outcome⟩ := by
  obtain ⟨j, act⟩ := e
  by_cases hj : j = i
  · subst hj
    have kept : ∀ {act : Act store}, g.flying j = some a → ¬act.ends → ∃ a₀, g.flying j = some a₀ ∧
        a₀.message = a.message ∧ a₀.outcome = a.outcome ∧ (j = j → ¬act.ends) :=
      fun hg hn => ⟨a, hg, rfl, rfl, fun _ => hn⟩
    have closed : Function.update g.flying j none j ≠ some a := by
      rw [Function.update_self]
      exact fun h => by cases h
    cases act with
    | stmt o r =>
      cases o with
      | now =>
        change Function.update g.flying j ((g.flying j).map (Attempt.read r)) j = some a at h
        rw [Function.update_self, Option.map_eq_some_iff] at h
        obtain ⟨a₀, h₀, rfl⟩ := h
        exact Or.inl ⟨a₀, h₀, rfl, rfl, fun _ => id⟩
      | send message =>
        change Function.update g.flying j (some ⟨message, g.polled j, r, []⟩) j = some a at h
        rw [Function.update_self] at h
        cases h
        exact Or.inr rfl
      | _ => exact Or.inl (kept h id)
    | commit => exact absurd h closed
    | done ans => exact absurd h closed
    | crash => exact absurd h closed
  · refine Or.inl ⟨a, ?_, rfl, rfl, fun h => absurd h hj⟩
    rw [← h]
    exact ((At.mk rfl rfl rfl : At i (g.flying i) (g.polled i) (g.mine i).length g).other hj).flying.symm

end At

end Bekaa3D.Jobs
