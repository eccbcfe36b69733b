import Bekaa3D.Retry.Bounded
import Bekaa3D.Txn.Chain
import Bekaa3D.Jobs.Play

/-!
# Jobs.Delivery — what becomes of a message

* `Story`: a message is what its insertion made it, changed by the committed attempts to send it, one after another.
* `row_story`: every message of every reachable outbox has its story.
* `retry_refines`: the attempts are a run of `Retry.Bounded`, which ends in the state of the message; each is made
  when the wait after the last one is over, and with the payload that was put in.
-/

namespace Bekaa3D.Jobs

open Txn
open Identity (Uuid Instant seconds)
open Platform (OutboxStatus redactPayload)
open Text.Json (Str Doc Numeral)

/-! ## Attempts one after another -/

/-- The message after the attempt. -/
def Attempt.saved (a : Attempt) : EmailOutboxMessage := a.settle.getD a.message

/-- An attempt that was committed. -/
structure Attempt.Valid (a : Attempt) : Prop where
  due : a.message.Due a.claimedAt
  settles : a.settle = some a.saved

/-- The attempts lead from the message `m₀` to the message `m`, up to its user and the time of its last change. -/
def Leads (m₀ : EmailOutboxMessage) (l : List Attempt) (m : EmailOutboxMessage) : Prop :=
  Chain (fun a : Attempt => a.message.core) (fun a => a.saved.core) m₀.core l m.core

/-- What the columns of a message say about its delivery. -/
def EmailOutboxMessage.state (m : EmailOutboxMessage) : Option Retry.State :=
  match m.status with
  | .pending => some (.waiting m.attemptCount)
  | .sent => some (.succeeded m.attemptCount)
  | .failed => some .abandoned
  | .sending => none

section Saved

variable {a : Attempt}

/-- An attempt fails: the message waits longer, or is given up. -/
theorem saved_failed (ha : a.Valid) (h : a.success = false) : ∃ exc failedAt at_, a.readings = [failedAt, at_] ∧
    a.saved = a.message.markFailed exc (failedAt + backoff a.message.attemptCount) at_ := by
  obtain ⟨⟨-, -⟩, hs⟩ := ha
  obtain ⟨message, claimedAt, outcome, readings⟩ := a
  cases outcome with
  | ok u => cases h
  | error exc =>
    generalize Attempt.saved _ = m' at hs
    unfold Attempt.settle at hs
    split at hs
    · cases ‹Except.error exc = Except.ok _›
    · rename_i exc' failedAt at_ ho hr
      cases hs
      exact ⟨exc', failedAt, at_, hr, rfl⟩
    · cases hs

theorem saved_succeeded (ha : a.Valid) (h : a.success = true) : ∃ at_, a.readings = [at_] ∧
    a.saved = a.message.markSent at_ := by
  obtain ⟨⟨-, -⟩, hs⟩ := ha
  obtain ⟨message, claimedAt, outcome, readings⟩ := a
  cases outcome with
  | error exc => cases h
  | ok u =>
    generalize Attempt.saved _ = m' at hs
    unfold Attempt.settle at hs
    split at hs
    · rename_i at_ ho hr
      cases hs
      exact ⟨at_, hr, rfl⟩
    · cases ‹Except.ok u = Except.error _›
    · cases hs

/-- **One attempt** is a step of the bounded retry. -/
theorem saved_state (ha : a.Valid) :
    a.message.state = some (.waiting a.message.attemptCount) ∧
      Retry.step maxOutboxAttempts (.waiting a.message.attemptCount) a.success = a.saved.state := by
  have hpending : a.message.status = .pending := ha.due.1
  refine ⟨by simp only [EmailOutboxMessage.state, hpending], ?_⟩
  cases h : a.success with
  | true =>
    obtain ⟨at_, -, hs⟩ := saved_succeeded ha h
    rw [hs]
    rfl
  | false =>
    obtain ⟨exc, failedAt, at_, -, hs⟩ := saved_failed ha h
    rw [hs]
    by_cases hmax : maxOutboxAttempts ≤ a.message.attemptCount + 1
    · simp only [EmailOutboxMessage.markFailed, Retry.step, if_pos hmax, EmailOutboxMessage.state]
    · simp only [EmailOutboxMessage.markFailed, Retry.step, if_neg hmax, EmailOutboxMessage.state]

theorem saved_count (ha : a.Valid) :
    a.saved.attemptCount = a.message.attemptCount + [a.success].count false := by
  cases h : a.success with
  | true =>
    obtain ⟨at_, -, hs⟩ := saved_succeeded ha h
    rw [hs]
    rfl
  | false =>
    obtain ⟨exc, failedAt, at_, -, hs⟩ := saved_failed ha h
    rw [hs]
    unfold EmailOutboxMessage.markFailed
    dsimp only
    split <;> rfl

/-- The payload stays as it is while the message waits; then only its keys stay. -/
theorem saved_payload (ha : a.Valid) : a.saved.payload =
    if a.saved.status = .pending then a.message.payload else redactPayload a.message.payload := by
  cases h : a.success with
  | true =>
    obtain ⟨at_, -, hs⟩ := saved_succeeded ha h
    rw [hs]
    rfl
  | false =>
    obtain ⟨exc, failedAt, at_, -, hs⟩ := saved_failed ha h
    rw [hs]
    by_cases hmax : maxOutboxAttempts ≤ a.message.attemptCount + 1
    · simp [EmailOutboxMessage.markFailed, if_pos hmax]
    · simp [EmailOutboxMessage.markFailed, if_neg hmax]

/-- A message that waits after an attempt waits for the backoff of that attempt. -/
theorem saved_sendAfter (ha : a.Valid) (hp : a.saved.status = .pending) : ∃ failedAt at_, a.readings = [failedAt, at_] ∧
    a.saved.sendAfter = failedAt + backoff a.message.attemptCount := by
  cases h : a.success with
  | true =>
    obtain ⟨at_, -, hs⟩ := saved_succeeded ha h
    rw [hs] at hp
    cases hp
  | false =>
    obtain ⟨exc, failedAt, at_, hr, hs⟩ := saved_failed ha h
    refine ⟨failedAt, at_, hr, ?_⟩
    rw [hs] at hp ⊢
    by_cases hmax : maxOutboxAttempts ≤ a.message.attemptCount + 1
    · simp only [EmailOutboxMessage.markFailed, if_pos hmax] at hp
      cases hp
    · simp only [EmailOutboxMessage.markFailed, if_neg hmax]

end Saved

section Leads

variable {m₀ m : EmailOutboxMessage} {l : List Attempt}

theorem core_state (m : EmailOutboxMessage) : m.core.state = m.state := rfl

/-- The attempts from a message on are a run of the bounded retry. -/
theorem leads_run {c c' : EmailOutboxMessage} {t : Retry.State}
    (h : Chain (fun a : Attempt => a.message.core) (fun a => a.saved.core) c l c') (hv : ∀ a ∈ l, a.Valid)
    (ht : c.state = some t) :
    ∃ t', c'.state = some t' ∧ Retry.run maxOutboxAttempts t (l.map Attempt.success) = some t' := by
  induction l generalizing c t with
  | nil =>
    rw [Chain.nil] at h
    exact ⟨t, by rw [h, ht], rfl⟩
  | cons a l ih =>
    rw [Chain.cons] at h
    obtain ⟨rfl, h⟩ := h
    obtain ⟨hw, hstep⟩ := saved_state (hv a (List.mem_cons_self ..))
    rw [core_state, hw] at ht
    cases ht
    rw [← core_state a.saved] at hstep
    rw [List.map_cons, Retry.run_cons, hstep]
    cases hs : a.saved.core.state with
    | some t => exact ih h (fun x hx => hv x (List.mem_cons_of_mem _ hx)) hs
    | none =>
      -- a step of a message that waits is defined
      cases hb : a.success <;> rw [hb, hs] at hstep <;> cases hstep

theorem leads_count {c c' : EmailOutboxMessage}
    (h : Chain (fun a : Attempt => a.message.core) (fun a => a.saved.core) c l c') (hv : ∀ a ∈ l, a.Valid) :
    c'.attemptCount = c.attemptCount + (l.map Attempt.success).count false := by
  induction l generalizing c with
  | nil =>
    rw [Chain.nil] at h
    rw [h]
    rfl
  | cons a l ih =>
    rw [Chain.cons] at h
    obtain ⟨rfl, h⟩ := h
    have hc : a.saved.core.attemptCount = a.message.core.attemptCount + [a.success].count false :=
      saved_count (hv a (List.mem_cons_self ..))
    rw [ih h fun x hx => hv x (List.mem_cons_of_mem _ hx), hc, Nat.add_assoc, ← List.count_append]
    rfl

/-- What the attempts do to the payload. -/
theorem leads_payload {c c' : EmailOutboxMessage} {payload : Payload}
    (h : Chain (fun a : Attempt => a.message.core) (fun a => a.saved.core) c l c') (hv : ∀ a ∈ l, a.Valid)
    (hc : c.payload = if c.status = .pending then payload else redactPayload payload) :
    c'.payload = if c'.status = .pending then payload else redactPayload payload := by
  induction l generalizing c with
  | nil =>
    rw [Chain.nil] at h
    rw [h]
    exact hc
  | cons a l ih =>
    rw [Chain.cons] at h
    obtain ⟨rfl, h⟩ := h
    have ha := hv a (List.mem_cons_self ..)
    have hpending : a.message.core.status = .pending := ha.due.1
    rw [if_pos hpending] at hc
    refine ih h (fun x hx => hv x (List.mem_cons_of_mem _ hx)) ?_
    have hp := saved_payload ha
    change a.message.payload = payload at hc
    rw [hc] at hp
    exact hp

/-- What no attempt changes. -/
theorem leads_const {β : Type} {g : EmailOutboxMessage → β} (hg : ∀ m, g m.core = g m)
    (hs : ∀ a : Attempt, a.Valid → g a.saved = g a.message) {c c' : EmailOutboxMessage}
    (h : Chain (fun a : Attempt => a.message.core) (fun a => a.saved.core) c l c') (hv : ∀ a ∈ l, a.Valid) :
    g c' = g c := by
  induction l generalizing c with
  | nil =>
    rw [Chain.nil] at h
    rw [h]
  | cons a l ih =>
    rw [Chain.cons] at h
    obtain ⟨rfl, h⟩ := h
    rw [ih h fun x hx => hv x (List.mem_cons_of_mem _ hx), hg, hg, hs a (hv a (List.mem_cons_self ..))]

/-- Who gets the message, and what it is made of. -/
def EmailOutboxMessage.address (m : EmailOutboxMessage) : Uuid × String × String × Instant :=
  (m.id, m.recipientEmail, m.template, m.createdAt)

theorem saved_address {a : Attempt} (ha : a.Valid) : a.saved.address = a.message.address := by
  cases h : a.success with
  | true =>
    obtain ⟨at_, -, hs⟩ := saved_succeeded ha h
    rw [hs]
    rfl
  | false =>
    obtain ⟨exc, failedAt, at_, -, hs⟩ := saved_failed ha h
    rw [hs]
    unfold EmailOutboxMessage.markFailed
    dsimp only
    split <;> rfl

/-- What the outbox keeps of a message that was put in as `m₀`, after the attempts `l`. -/
structure Accounted (m₀ : EmailOutboxMessage) (l : List Attempt) (m : EmailOutboxMessage) : Prop where
  refines : ∃ t, m.state = some t ∧ Retry.run maxOutboxAttempts (.waiting 0) (l.map Attempt.success) = some t
  failures : m.attemptCount = (l.map Attempt.success).count false
  bounded : l.length ≤ maxOutboxAttempts ∧ (l.map Attempt.success).count true ≤ 1
  address : m.address = m₀.address
  payload : m.payload = if m.status = .pending then m₀.payload else redactPayload m₀.payload
  /-- The attempt before which there were others. -/
  nth : ∀ pre a post, l = pre ++ a :: post → a.message.attemptCount = pre.length ∧ a.message.address = m₀.address ∧
    a.message.payload = m₀.payload
  spaced : ∀ pre a b post, l = pre ++ a :: b :: post → ∃ failedAt at_, a.readings = [failedAt, at_] ∧
    failedAt + backoff pre.length ≤ b.claimedAt

theorem fresh_state (h : m₀.Fresh) : m₀.core.state = some (.waiting 0) := by
  rw [h]
  rfl

theorem fresh_payload (h : m₀.Fresh) :
    m₀.core.payload = if m₀.core.status = .pending then m₀.payload else redactPayload m₀.payload := by
  have hs : m₀.core.status = .pending := by
    rw [h]
    rfl
  rw [if_pos hs]
  rfl

theorem fresh_count (h : m₀.Fresh) : m₀.core.attemptCount = 0 := by
  rw [h]
  rfl

theorem accounted (h₀ : m₀.Fresh) (h : Leads m₀ l m) (hv : ∀ a ∈ l, a.Valid) : Accounted m₀ l m := by
  have hmax : 0 < maxOutboxAttempts := by decide
  obtain ⟨t, hst, hrun⟩ := leads_run h hv (fresh_state h₀)
  have hcount := leads_count h hv
  have hpayload := leads_payload h hv (fresh_payload h₀)
  have haddress : m.core.address = m₀.core.address := leads_const (fun _ => rfl) (fun a ha => saved_address ha) h hv
  have hlen := Retry.length_le hmax hrun
  rw [List.length_map] at hlen
  rw [fresh_count h₀, Nat.zero_add] at hcount
  have hnth : ∀ pre a post, l = pre ++ a :: post → a.message.attemptCount = pre.length ∧
      a.message.address = m₀.address ∧ a.message.payload = m₀.payload := by
    rintro pre a post rfl
    obtain ⟨c, hpre, hpost⟩ := Chain.append.mp h
    rw [Chain.cons] at hpost
    obtain ⟨rfl, -⟩ := hpost
    have hvp : ∀ x ∈ pre, x.Valid := fun x hx => hv x (List.mem_append_left _ hx)
    have ha : a.Valid := hv a (List.mem_append_right _ (List.mem_cons_self ..))
    obtain ⟨u, hu, hrunp⟩ := leads_run hpre hvp (fresh_state h₀)
    rw [core_state, (saved_state ha).1] at hu
    have hl := Retry.length_waiting hmax hrunp (Option.some.inj hu).symm
    rw [List.length_map] at hl
    have hp := leads_payload hpre hvp (fresh_payload h₀)
    have hpending : a.message.core.status = .pending := ha.due.1
    rw [if_pos hpending] at hp
    have hc : a.message.core.address = m₀.core.address :=
      leads_const (fun _ => rfl) (fun a ha => saved_address ha) hpre hvp
    exact ⟨hl.symm, hc, hp⟩
  refine ⟨⟨t, hst, hrun⟩, hcount, ⟨hlen, Retry.count_success hmax hrun⟩, haddress, hpayload,
    hnth, ?_⟩
  rintro pre a b post rfl
  have ha : a.Valid := hv a (by simp)
  have hb : b.Valid := hv b (by simp)
  have hchain : Chain (fun a : Attempt => a.message.core) (fun a => a.saved.core) m₀.core _ m.core := h
  have hnext := hchain.next
  change b.message.core = a.saved.core at hnext
  have hpending : a.saved.status = .pending := by
    have hs : b.message.core.status = a.saved.core.status := congrArg EmailOutboxMessage.status hnext
    exact hs.symm.trans hb.due.1
  obtain ⟨failedAt, at_, hr, hafter⟩ := saved_sendAfter ha hpending
  refine ⟨failedAt, at_, hr, ?_⟩
  have hsend : b.message.core.sendAfter = a.saved.core.sendAfter := congrArg EmailOutboxMessage.sendAfter hnext
  have hdue : b.message.core.sendAfter ≤ b.claimedAt := hb.due.2
  rw [hsend] at hdue
  change a.saved.sendAfter ≤ b.claimedAt at hdue
  rwa [hafter, (hnth pre a _ rfl).1] at hdue

end Leads

/-! ## The story of every message -/

variable {ι : Type} [DecidableEq ι]

/-- How the message of `id` was put in as `m₀` and has become `m`. -/
structure Story (w : World store ι) (id : Uuid) (m₀ m : EmailOutboxMessage) : Prop where
  added : ∃ j, Inserted w j id m₀ ∧ Committed w j
  leads : Leads m₀ ((ledger w.tr).attempts id) m

structure Told (w : World store ι) : Prop where
  valid : ∀ x ∈ (ledger w.tr).settled, x.2.Valid
  absent : ∀ id, w.db.row id = none → (ledger w.tr).attempts id = []
  present : ∀ id m, w.db.row id = some m → ∃ m₀, Story w id m₀ m

section Step

variable {w w' : World store ι} {i : ι} {f : Db → Db}

omit [DecidableEq ι] in
theorem Inserted.mono {id : Uuid} {m : EmailOutboxMessage} (h : Inserted w i id m) (hw : ∀ e ∈ w.tr, e ∈ w'.tr) :
    Inserted w' i id m :=
  ⟨hw _ h.did, h.id, h.fresh⟩

/-- A step that commits nothing. -/
theorem Told.quiet (h : Told w) (hdb : w'.db = w.db) (hw : ∀ e ∈ w.tr, e ∈ w'.tr)
    (hs : (ledger w'.tr).settled = (ledger w.tr).settled) : Told w' := by
  have ha : ∀ id, (ledger w'.tr).attempts id = (ledger w.tr).attempts id := fun id => by
    unfold Ledger.attempts
    rw [hs]
  refine ⟨by rw [hs]; exact h.valid, fun id hn => ?_, fun id m hm => ?_⟩
  · rw [ha]
    exact h.absent id (by rwa [hdb] at hn)
  · rw [hdb] at hm
    obtain ⟨m₀, ⟨j, hi, hc⟩, hl⟩ := h.present id m hm
    exact ⟨m₀, ⟨j, hi.mono hw, hw _ hc⟩, by rw [ha]; exact hl⟩

theorem settled_stmt {g : Ledger ι} (o : Op) (r : Resp o) : (g.record ⟨i, .stmt o r⟩).settled = g.settled := by
  cases o <;> rfl

theorem attempts_commit {g : Ledger ι} {fl : Option Attempt} (hf : g.flying i = fl) (id : Uuid) :
    (g.record ⟨i, .commit⟩).attempts id =
      g.attempts id ++ fl.toList.filter fun a => a.message.id = id := by
  subst hf
  unfold Ledger.attempts Ledger.record
  rw [List.map_append, List.map_map, List.filter_append]
  change _ ++ List.filter _ (List.map (fun a => a) _) = _
  rw [List.map_id']

/-- The message that is saved is, in what delivery changes, the one that the attempt leaves. -/
theorem assign_core {a : Attempt} {m' : EmailOutboxMessage} (hs : a.settle = some m') (now : Instant) :
    (m'.assign now a.message).core = m'.core := by
  unfold Attempt.settle at hs
  split at hs
  · cases hs
    rfl
  · cases hs
    unfold EmailOutboxMessage.markFailed
    dsimp only
    split <;> rfl
  · cases hs

/-- **A commit** continues the story of a message. -/
theorem Told.commit (h : Told w) (hc : Commits w i f) : Told (w.commit i f) := by
  have mono : ∀ e ∈ w.tr, e ∈ (w.commit i f).tr := fun e he => List.mem_append_left _ he
  have told : ∀ {id m m₀}, Story w id m₀ m → (ledger (w.commit i f).tr).attempts id = (ledger w.tr).attempts id →
      Story (w.commit i f) id m₀ m := by
    rintro id m m₀ ⟨⟨j, hi, hj⟩, hl⟩ ha
    exact ⟨⟨j, hi.mono mono, mono _ hj⟩, by rw [ha]; exact hl⟩
  have idle : (ledger w.tr).flying i = none →
      (ledger (w.commit i f).tr).settled = (ledger w.tr).settled ∧
      ∀ id, (ledger (w.commit i f).tr).attempts id = (ledger w.tr).attempts id := by
    intro hf
    refine ⟨?_, fun id => ?_⟩
    · rw [World.commit_tr, ledger_snoc]
      change (ledger w.tr).settled ++ ((ledger w.tr).flying i).toList.map _ = _
      rw [hf]
      exact List.append_nil _
    · rw [World.commit_tr, ledger_snoc, attempts_commit hf]
      exact List.append_nil _
  cases hc with
  | added hf rows =>
    obtain ⟨hs, ha⟩ := idle hf
    refine ⟨by rw [hs]; exact h.valid, fun id hn => ?_, fun id m hm => ?_⟩
    · rw [ha]
      rcases rows id with hr | ⟨-, m, -, hr⟩
      · exact h.absent id (by rw [← hr]; exact hn)
      · change (f w.db).row id = none at hn
        rw [hr] at hn
        cases hn
    · rcases rows id with hr | ⟨hn, m', hi, hr⟩
      · obtain ⟨m₀, hm₀⟩ := h.present id m (by rw [← hr]; exact hm)
        exact ⟨m₀, told hm₀ (ha id)⟩
      · change (f w.db).row id = some m at hm
        rw [hr] at hm
        cases hm
        refine ⟨m, ⟨i, hi.mono mono, committed_commit.mpr (Or.inr rfl)⟩, ?_⟩
        rw [ha, h.absent id hn]
        exact Chain.nil.mpr rfl
  | forgot hf rows =>
    obtain ⟨hs, ha⟩ := idle hf
    refine ⟨by rw [hs]; exact h.valid, fun id hn => ?_, fun id m hm => ?_⟩
    · rw [ha]
      refine h.absent id ?_
      rcases rows id with hr | hr
      · rw [← hr]
        exact hn
      · change (f w.db).row id = none at hn
        rw [hr] at hn
        exact Option.map_eq_none_iff.mp hn
    · change (f w.db).row id = some m at hm
      rcases rows id with hr | hr
      · obtain ⟨m₀, hm₀⟩ := h.present id m (by rw [← hr]; exact hm)
        exact ⟨m₀, told hm₀ (ha id)⟩
      · rw [hr] at hm
        obtain ⟨m', hm', rfl⟩ := Option.map_eq_some_iff.mp hm
        obtain ⟨m₀, hm₀⟩ := h.present id m' hm'
        exact ⟨m₀, told (m := m'.forget) ⟨hm₀.added, hm₀.leads⟩ (ha id)⟩
  | settled a m' now hf row due hs saved others =>
    have ha : ∀ id, (ledger (w.commit i f).tr).attempts id =
        (ledger w.tr).attempts id ++ [a].filter fun a => a.message.id = id := fun id => by
      rw [World.commit_tr, ledger_snoc, attempts_commit hf]
      rfl
    have hsaved : a.saved = m' := by rw [Attempt.saved, hs]; rfl
    refine ⟨fun x hx => ?_, fun id hn => ?_, fun id m hm => ?_⟩
    · rw [World.commit_tr, ledger_snoc] at hx
      rcases List.mem_append.mp hx with hx | hx
      · exact h.valid x hx
      · rw [hf] at hx
        obtain rfl := List.mem_singleton.mp hx
        exact ⟨due, by rw [hs, hsaved]⟩
    · change (f w.db).row id = none at hn
      have hid : id ≠ a.message.id := fun hid => by
        subst hid
        rw [saved] at hn
        cases hn
      rw [others id hid] at hn
      rw [ha, h.absent id hn, List.nil_append, List.filter_eq_nil_iff]
      simpa using fun h => hid h.symm
    · change (f w.db).row id = some m at hm
      by_cases hid : id = a.message.id
      · subst hid
        rw [saved] at hm
        cases hm
        obtain ⟨m₀, ⟨j, hi, hj⟩, hl⟩ := h.present _ _ row
        refine ⟨m₀, ⟨j, hi.mono mono, mono _ hj⟩, ?_⟩
        rw [ha, List.filter_singleton, decide_eq_true rfl, cond_true, Leads, assign_core hs now, ← hsaved]
        exact Chain.snoc hl rfl
      · rw [others id hid] at hm
        obtain ⟨m₀, hm₀⟩ := h.present id m hm
        refine ⟨m₀, told hm₀ ?_⟩
        rw [ha, List.filter_eq_nil_iff.mpr (by simpa using fun h => hid h.symm), List.append_nil]

end Step

variable {A : World store ι → Event store ι → Prop} {job : ι → Job} {s s' : Sys store ι}

theorem told (hr : Reach A (system job) s) : Told s.world := by
  refine Logic.invariant (Φ := contract A) (J := Told) (fun i => runs (job i)) ⟨?_, ?_, ?_, ?_⟩ ?_ hr
  · intro s i L f o r _ h _ _ _ _
    refine h.quiet rfl (fun e he => List.mem_append_left _ he) ?_
    rw [World.stmt_tr, ledger_snoc, settled_stmt]
  · intro s i f _ h _ _ hc _
    exact h.commit hc
  · intro s i a _ h _ _
    refine h.quiet rfl (fun e he => List.mem_append_left _ he) ?_
    rw [World.push_tr, ledger_snoc]
    rfl
  · intro s i _ h _
    refine h.quiet rfl (fun e he => List.mem_append_left _ he) ?_
    rw [World.push_tr, ledger_snoc]
    rfl
  · exact ⟨fun x hx => (by cases hx), fun _ _ => rfl, fun id m hm => (by cases hm)⟩

/-- The committed attempts of a message. -/
theorem Told.attempts {w : World store ι} (h : Told w) {id : Uuid} : ∀ a ∈ (ledger w.tr).attempts id, a.Valid := by
  intro a ha
  obtain ⟨x, hx, rfl⟩ := List.mem_map.mp (List.mem_of_mem_filter ha)
  exact h.valid x hx

/-- **Bounded retry**: in every reachable outbox, each message is what was put in and committed, changed by at most
`maxOutboxAttempts` committed attempts, of which at most one succeeds and none follows a success; each is made with
the payload that was put in, when the wait after the failure before it is over. -/
theorem delivery_accounts (hr : Reach A (system job) s) {id : Uuid} {m : EmailOutboxMessage}
    (hm : s.world.db.row id = some m) : ∃ j m₀, Inserted s.world j id m₀ ∧ Committed s.world j ∧
      Accounted m₀ ((ledger s.world.tr).attempts id) m := by
  have ht := told hr
  obtain ⟨m₀, ⟨j, hi, hj⟩, hl⟩ := ht.present id m hm
  exact ⟨j, m₀, hi, hj, accounted hi.fresh hl ht.attempts⟩

/-- The second attempt that is recorded succeeds. -/
theorem delivery_accounts_sample : ∃ s m, Reach Any (system sampleJob) s ∧ s.world.db.row 7 = some m ∧
    m.status = .sent ∧ m.attemptCount = 1 ∧ ∃ j m₀, Inserted s.world j 7 m₀ ∧ Committed s.world j ∧
      Accounted m₀ ((ledger s.world.tr).attempts 7) m := by
  obtain ⟨s, hr, hs⟩ := play_any player (fun _ _ => true) (A := Any) (fun _ => trivial) (system sampleJob) sampleSchedule
    (fun s => (s.world.db.row 7).any fun m : EmailOutboxMessage => decide (m.status = .sent) && decide (m.attemptCount = 1))
    (by decide +kernel)
  obtain ⟨m, hm, hp⟩ := (Option.any_eq_true _ _).mp hs
  rw [Bool.and_eq_true, decide_eq_true_eq, decide_eq_true_eq] at hp
  exact ⟨s, m, hr, hm, hp.1, hp.2, delivery_accounts hr hm⟩

end Bekaa3D.Jobs
