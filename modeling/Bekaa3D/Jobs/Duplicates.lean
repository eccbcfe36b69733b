import Bekaa3D.Jobs.Delivery

/-!
# Jobs.Duplicates — what is sent twice

* `Fate`: what has become of a call of the provider: its transaction goes on, has crashed, or has recorded it.
* `resent_after_crash`: a message that the provider has accepted is sent again only when the worker that sent it has
  crashed before its commit, and a worker that crashes leaves one such message at most.
-/

namespace Bekaa3D.Jobs

open Txn
open Identity (Uuid Instant)
open Platform (OutboxStatus redactPayload)
open Text.Json (Str Doc Numeral)

variable {ι : Type} [DecidableEq ι] {A : World store ι → Event store ι → Prop} {job : ι → Job} {s s' : Sys store ι}

/-- The event that the provider is given the message `m`, and answers `r`. -/
@[reducible] def sends (i : ι) (m : EmailOutboxMessage) (r : Except Str Unit) : Event store ι := ⟨i, .stmt (.send m) r⟩

/-- What has become of a call of the provider, which was followed by `post`. -/
inductive Fate (w : World store ι) (i : ι) (m : EmailOutboxMessage) (r : Except Str Unit)
    (post : List (Event store ι)) : Prop where
  | flying {a : Attempt} (h : (ledger w.tr).flying i = some a) (message : a.message = m) (outcome : a.outcome = r)
  | crashed (h : ⟨i, .crash⟩ ∈ post)
  | recorded (h : ⟨i, .commit⟩ ∈ post)
      (sent : r = .ok () → ∃ m', w.db.row m.id = some m' ∧ m'.status ≠ .pending)

/-- Every call of the provider has its fate. -/
def Fates (w : World store ι) : Prop :=
  ∀ pre i m r post, w.tr = pre ++ sends i m r :: post → Fate w i m r post

/-- The row of a message that is not pending any more. -/
theorem settled_stays {db db' : Db} (h : Keeps db db') {id : Uuid}
    (hs : ∃ m, db.row id = some m ∧ m.status ≠ .pending) : ∃ m, db'.row id = some m ∧ m.status ≠ .pending := by
  obtain ⟨m, hm, hs⟩ := hs
  obtain ⟨m', hm', hk⟩ := h id m hm
  exact ⟨m', hm', fun hp => hs (hk.waiting hp).1⟩

/-- An attempt that the provider accepts leaves the message sent. -/
theorem settle_ok {a : Attempt} {m' : EmailOutboxMessage} (hs : a.settle = some m') (ho : a.outcome = .ok ()) :
    m'.status = .sent := by
  unfold Attempt.settle at hs
  split at hs
  · cases hs
    rfl
  · rename_i exc failedAt at_ h hr
    rw [ho] at h
    cases h
  · cases hs

section Step

variable {i j : ι} {m : EmailOutboxMessage} {r : Except Str Unit} {post : List (Event store ι)}

/-- The provider has been called: the transaction goes on, crashes, or commits what it was told. -/
theorem fate_flying {a : Attempt} (hj : Moves A s s' i) (hf : (ledger s.world.tr).flying i = some a) :
    (∃ a', (ledger s'.world.tr).flying i = some a' ∧ a'.message = a.message ∧ a'.outcome = a.outcome) ∨
      s'.world.tr = s.world.tr ++ [⟨i, .crash⟩] ∨ s'.world.tr = s.world.tr ++ [⟨i, .commit⟩] ∧
        (a.outcome = .ok () → ∃ m', s'.world.db.row a.message.id = some m' ∧ m'.status ≠ .pending) := by
  have hat : At i (some a) ((ledger s.world.tr).polled i) ((ledger s.world.tr).mine i).length (ledger s.world.tr) :=
    ⟨hf, rfl, rfl⟩
  cases hj with
  | @stmt o reply L f live held checked world =>
    refine Or.inl ?_
    rw [world, World.stmt_tr, ledger_snoc]
    cases o with
    | send message =>
      -- a worker that waits for the provider calls nobody else
      rw [checked.1] at hf
      cases hf
    | now => exact ⟨_, (hat.now reply).flying, rfl, rfl⟩
    | _ => exact ⟨a, hf, rfl, rfl⟩
  | @commit f commits world =>
    refine Or.inr (Or.inr ⟨by rw [world]; rfl, fun hok => ?_⟩)
    rw [world]
    cases commits with
    | added idle rows =>
      rw [hf] at idle
      cases idle
    | forgot idle rows =>
      rw [hf] at idle
      cases idle
    | settled a' m' now fl row due hs saved others =>
      rw [hf] at fl
      cases fl
      have hsent := settle_ok hs hok
      refine ⟨_, saved, ?_⟩
      change m'.status ≠ _
      rw [hsent]
      decide
  | @done ans fin world =>
    rw [fin.1] at hf
    cases hf
  | crash world => exact Or.inr (Or.inl (by rw [world]; rfl))

/-- **One step** keeps the fates. -/
theorem Fate.step (hj : Moves A s s' j) {act : Act store} (htr : s'.world.tr = s.world.tr ++ [⟨j, act⟩])
    (h : Fate s.world i m r post) : Fate s'.world i m r (post ++ [⟨j, act⟩]) := by
  cases h with
  | @flying a hf hm ho =>
    subst hm ho
    by_cases hij : j = i
    · subst hij
      have last : ∀ {e : Event store ι}, s'.world.tr = s.world.tr ++ [e] → e ∈ post ++ [⟨j, act⟩] := fun h => by
        rw [htr] at h
        rw [List.append_cancel_left h]
        exact List.mem_append_right _ (List.mem_singleton.mpr rfl)
      rcases fate_flying hj hf with ⟨a', h, hm, ho⟩ | h | ⟨h, hs⟩
      · exact .flying h hm ho
      · exact .crashed (last h)
      · exact .recorded (last h) hs
    · refine .flying (a := a) ?_ rfl rfl
      rw [htr, ledger_snoc]
      exact ((At.mk hf rfl rfl : At i _ _ _ (ledger s.world.tr)).other hij).flying
  | crashed h => exact .crashed (List.mem_append_left _ h)
  | recorded h hs => exact .recorded (List.mem_append_left _ h) fun hr => settled_stays hj.keeps (hs hr)

/-- A message that the provider is given is now with it. -/
theorem fate_new (htr : s'.world.tr = s.world.tr ++ [sends i m r]) : Fate s'.world i m r [] := by
  refine .flying (a := ⟨m, (ledger s.world.tr).polled i, r, []⟩) ?_ rfl rfl
  rw [htr, ledger_snoc]
  exact ((At.mk rfl rfl rfl : At i _ _ _ (ledger s.world.tr)).send m r).flying

end Step

/-- A split of a history before its last event, or at it. -/
theorem split_snoc {α : Type} {tr pre post : List α} {x e : α} (h : tr ++ [e] = pre ++ x :: post) :
    (post = [] ∧ x = e ∧ tr = pre) ∨ ∃ post', post = post' ++ [e] ∧ tr = pre ++ x :: post' := by
  rcases List.eq_nil_or_concat post with rfl | ⟨post', y, rfl⟩
  · obtain ⟨h1, h2⟩ := List.append_inj' h rfl
    exact Or.inl ⟨rfl, (List.singleton_inj.mp h2).symm, h1⟩
  · rw [List.concat_eq_append, ← List.cons_append, ← List.append_assoc] at h
    obtain ⟨h1, h2⟩ := List.append_inj' h rfl
    exact Or.inr ⟨post', by rw [List.concat_eq_append, List.singleton_inj.mp h2], h1⟩

/-- **Every run**: every call of the provider has its fate. -/
theorem fates (hr : Reach A (system job) s) : Fates s.world := by
  induction hr with
  | refl =>
    intro pre i m r post h
    simp [system, Sys.start] at h
  | @tail s s' hpre hstep ih =>
    obtain ⟨j, hj⟩ := moves hpre hstep
    obtain ⟨act, htr⟩ := hj.tr
    intro pre i m r post h
    rw [htr] at h
    rcases split_snoc h with ⟨rfl, hx, -⟩ | ⟨post', rfl, hsplit⟩
    · cases hx
      exact fate_new htr
    · exact (ih pre i m r post' hsplit).step hj htr

/-- What a worker knows when it calls the provider. -/
structure Calling (s : Sys store ι) (i : ι) (m : EmailOutboxMessage) : Prop where
  live : s.txs i ≠ .over
  idle : (ledger s.world.tr).flying i = none
  row : s.world.db.row m.id = some m
  due : m.Due ((ledger s.world.tr).polled i)
  locked : m.id ∈ (s.txs i).held

theorem Moves.calling {i j : ι} {m : EmailOutboxMessage} {r : Except Str Unit} (hj : Moves A s s' j)
    (htr : s'.world.tr = s.world.tr ++ [sends i m r]) : Calling s i m := by
  cases hj with
  | @stmt o reply L f live held checked world =>
    rw [world] at htr
    have h := List.singleton_inj.mp (List.append_cancel_left htr)
    cases h
    obtain ⟨hf, hrow, hd, hl⟩ := checked
    exact ⟨live, hf, hrow, hd, by rw [held]; exact hl⟩
  | commit commits world =>
    rw [world] at htr
    cases List.singleton_inj.mp (List.append_cancel_left htr)
  | done fin world =>
    rw [world] at htr
    cases List.singleton_inj.mp (List.append_cancel_left htr)
  | crash world =>
    rw [world] at htr
    cases List.singleton_inj.mp (List.append_cancel_left htr)

/-- A call that the provider accepted and another of the same message. -/
theorem Calling.crashed (hr : Reach A (system job) s) {i j : ι} {m m' : EmailOutboxMessage} {pre mid : List (Event store ι)}
    (hc : Calling s j m') (hid : m'.id = m.id) (htr : s.world.tr = pre ++ sends i m (.ok ()) :: mid) :
    ⟨i, .crash⟩ ∈ mid := by
  cases fates hr pre i m (.ok ()) mid htr with
  | @flying a hf hm ho =>
    subst hm
    have hl : a.message.id ∈ (s.txs j).held := hid ▸ hc.locked
    obtain rfl := flying_exclusive hr hf hl
    rw [hc.idle] at hf
    cases hf
  | crashed h => exact h
  | recorded h hs =>
    obtain ⟨m'', hm'', hne⟩ := hs rfl
    rw [← hid, hc.row] at hm''
    cases hm''
    exact absurd hc.due.1 hne

/-- Two calls of one worker. -/
theorem Calling.committed (hr : Reach A (system job) s) {i : ι} {m m' : EmailOutboxMessage} {r : Except Str Unit}
    {pre mid : List (Event store ι)} (hc : Calling s i m') (htr : s.world.tr = pre ++ sends i m r :: mid) :
    ⟨i, .commit⟩ ∈ mid := by
  cases fates hr pre i m r mid htr with
  | flying hf hm ho =>
    rw [hc.idle] at hf
    cases hf
  | crashed h =>
    have he : (⟨i, .crash⟩ : Event store ι) ∈ s.world.tr := by
      rw [htr]
      exact List.mem_append_right _ (List.mem_cons_of_mem _ h)
    exact absurd (over_of_final hr he trivial) hc.live
  | recorded h hs => exact h

/-- The message `m` is given to the provider as it was put in, before it has failed as often as it may. -/
structure Given (w : World store ι) (m : EmailOutboxMessage) : Prop where
  attempts : m.attemptCount < maxOutboxAttempts
  original : ∃ j m₀, Inserted w j m.id m₀ ∧ Committed w j ∧ m.address = m₀.address ∧ m.payload = m₀.payload

omit [DecidableEq ι] in
theorem Given.mono {w w' : World store ι} {m : EmailOutboxMessage} (h : Given w m) (hw : ∀ e ∈ w.tr, e ∈ w'.tr) :
    Given w' m := by
  obtain ⟨j, m₀, hi, hj, he⟩ := h.original
  exact ⟨h.attempts, j, m₀, hi.mono hw, hw _ hj, he⟩

theorem Calling.given (hr : Reach A (system job) s) {i : ι} {m : EmailOutboxMessage} (hc : Calling s i m) :
    Given s.world m := by
  obtain ⟨j, m₀, hi, hj, ha⟩ := delivery_accounts hr hc.row
  have hpending := hc.due.1
  obtain ⟨t, ht, hrun⟩ := ha.refines
  have hwait : m.state = some (.waiting m.attemptCount) := by simp only [EmailOutboxMessage.state, hpending]
  rw [hwait] at ht
  cases ht
  refine ⟨(Retry.run_leads (by decide) hrun).bound _ (Or.inl rfl), j, m₀, hi, hj, ha.address, ?_⟩
  rw [ha.payload, if_pos hpending]

/-- What the calls of the provider in a history are. -/
structure Calls (w : World store ι) : Prop where
  given : ∀ i m r, sends i m r ∈ w.tr → Given w m
  resent : ∀ pre i m mid j m' r post, w.tr = pre ++ sends i m (.ok ()) :: mid ++ sends j m' r :: post →
    m'.id = m.id → ⟨i, .crash⟩ ∈ mid
  single : ∀ pre i m r mid m' r' post, w.tr = pre ++ sends i m r :: mid ++ sends i m' r' :: post → ⟨i, .commit⟩ ∈ mid

/-- **At least once**: whatever the interleaving, a message that the provider has accepted is given to it again only
if the worker that sent it crashed in between, each worker leaves at most its last call unrecorded, and every call
hands over the message as it was put in. -/
theorem resent_after_crash (hr : Reach A (system job) s) : Calls s.world := by
  induction hr with
  | refl =>
    refine ⟨fun i m r h => (by cases h), fun pre i m mid j m' r post h => ?_, fun pre i m r mid m' r' post h => ?_⟩
    · simp [system, Sys.start] at h
    · simp [system, Sys.start] at h
  | @tail s s' hpre hstep ih =>
    obtain ⟨k, hk⟩ := moves hpre hstep
    obtain ⟨act, htr⟩ := hk.tr
    have mono : ∀ e ∈ s.world.tr, e ∈ s'.world.tr := fun e he => hstep.mem_tr he
    refine ⟨fun i m r h => ?_, fun pre i m mid j m' r post h hid => ?_, fun pre i m r mid m' r' post h => ?_⟩
    · rw [htr] at h
      rcases List.mem_append.mp h with h | h
      · exact (ih.given i m r h).mono mono
      · rw [← List.mem_singleton.mp h] at htr
        exact ((hk.calling htr).given hpre).mono mono
    · rw [htr] at h
      rcases split_snoc h with ⟨-, hx, hsplit⟩ | ⟨post', -, hsplit⟩
      · rw [← hx] at htr
        exact (hk.calling htr).crashed hpre hid hsplit
      · exact ih.resent pre i m mid j m' r post' hsplit hid
    · rw [htr] at h
      rcases split_snoc h with ⟨-, hx, hsplit⟩ | ⟨post', -, hsplit⟩
      · rw [← hx] at htr
        exact (hk.calling htr).committed hpre hsplit
      · exact ih.single pre i m r mid m' r' post' hsplit

/-- How often the provider has accepted a message. -/
def accepted (tr : List (Event store ι)) : ℕ :=
  tr.countP fun e =>
    match e.act with
    | .stmt (.send _) (.ok _) => true
    | _ => false

/-- A message is accepted twice. -/
theorem resent_after_crash_sample : ∃ s, Reach Any (system sampleJob) s ∧ accepted s.world.tr = 2 ∧
    Calls s.world := by
  obtain ⟨s, hr, hs⟩ := play_any player (fun _ _ => true) (A := Any) (fun _ => trivial) (system sampleJob) sampleSchedule
    (fun s => decide (accepted s.world.tr = 2)) (by decide +kernel)
  exact ⟨s, hr, of_decide_eq_true hs, resent_after_crash hr⟩

/-! ## What stays -/

/-- **Messages stay**: from any reachable outbox on, no message is removed, its address never changes, its payload
stays while it waits and its keys stay for ever; a message that has been sent or given up changes no more, but that it
loses its user with the account. -/
theorem messages_stay (hr : Reach A (system job) s) (hs : Reach A s s') {id : Uuid} {m : EmailOutboxMessage}
    (hm : s.world.db.row id = some m) : ∃ m', s'.world.db.row id = some m' ∧ m.Kept m' :=
  Logic.gr_reach (Φ := contract A) (good hr) hs id m hm

/-- The message that was sent is still there. -/
theorem messages_stay_sample : ∃ s s' m, Reach Any (system sampleJob) s ∧ Reach Any s s' ∧
    s.world.db.row 7 = some m ∧ m.status = .pending ∧ ∃ m', s'.world.db.row 7 = some m' ∧ m.Kept m' := by
  obtain ⟨s, hr, hs⟩ := play_any player (fun _ _ => true) (A := Any) (fun _ => trivial) (system sampleJob)
    (sampleSchedule.take 3)
    (fun s => ((s.world.db.row 7).any fun m : EmailOutboxMessage => decide (m.status = .pending)) &&
      (play player (fun _ _ => true) s (sampleSchedule.drop 3)).isSome) (by decide +kernel)
  rw [Bool.and_eq_true] at hs
  obtain ⟨m, hm, hp⟩ := (Option.any_eq_true _ _).mp hs.1
  obtain ⟨s', hs'⟩ := Option.isSome_iff_exists.mp hs.2
  have hr' : Reach Any s s' := play_reach (fun _ => trivial) hs'
  exact ⟨s, s', m, hr, hr', hm, of_decide_eq_true hp, messages_stay hr hr' hm⟩

end Bekaa3D.Jobs
