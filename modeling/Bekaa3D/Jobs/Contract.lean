import Bekaa3D.Jobs.Ledger

/-!
# Jobs.Contract — what is committed to the outbox, whatever the others do

* `Kept`: what no commit changes of a message.
* `Commits`: a commit adds messages, deletes a user, or records one attempt to send one message.
* `contract`, `runs`: every worker, every sender and every deletion of a user commits that and nothing else.
* `flying_held`: a message that is with the provider is locked.
-/

namespace Bekaa3D.Jobs

open Txn
open Identity (Uuid Instant seconds)
open Platform (OutboxStatus redactPayload)
open Text.Json (Str Doc Numeral)

variable {ι : Type} [DecidableEq ι]

/-! ## What a message keeps -/

namespace EmailOutboxMessage

/-- A message without its user and without the time of its last change. -/
def core (m : EmailOutboxMessage) : EmailOutboxMessage := { m with userId := none, updatedAt := 0 }

/-- What no commit changes of the message `m`, which has become `m'`. -/
structure Kept (m m' : EmailOutboxMessage) : Prop where
  /-- It loses its user with the account, and nothing else. -/
  frozen : m.status ≠ .pending → m' = m ∨ m' = m.forget
  user : m'.userId = m.userId ∨ m'.userId = none
  waiting : m'.status = .pending → m.status = .pending ∧ m'.payload = m.payload
  recipient : m'.recipientEmail = m.recipientEmail
  template : m'.template = m.template
  created : m'.createdAt = m.createdAt
  keys : m'.payload.map Prod.fst = m.payload.map Prod.fst
  attempts : m.attemptCount ≤ m'.attemptCount

namespace Kept

variable {m m' m'' : EmailOutboxMessage}

theorem refl (m : EmailOutboxMessage) : Kept m m :=
  ⟨fun _ => Or.inl rfl, Or.inl rfl, fun h => ⟨h, rfl⟩, rfl, rfl, rfl, rfl, Nat.le_refl _⟩

theorem trans (h : Kept m m') (h' : Kept m' m'') : Kept m m'' := by
  refine ⟨fun hm => ?_, ?_, fun hm => ?_, h'.recipient.trans h.recipient, h'.template.trans h.template,
    h'.created.trans h.created, h'.keys.trans h.keys, h.attempts.trans h'.attempts⟩
  · rcases h.frozen hm with rfl | rfl
    · exact h'.frozen hm
    · rcases h'.frozen hm with rfl | rfl
      · exact Or.inr rfl
      · exact Or.inr rfl
  · rcases h'.user with hu | hu
    · rw [hu]
      exact h.user
    · exact Or.inr hu
  · have h1 := h'.waiting hm
    have h2 := h.waiting h1.1
    exact ⟨h2.1, h1.2.trans h2.2⟩

theorem forget (m : EmailOutboxMessage) : Kept m m.forget :=
  ⟨fun _ => Or.inr rfl, Or.inr rfl, fun h => ⟨h, rfl⟩, rfl, rfl, rfl, rfl, Nat.le_refl _⟩

end Kept

theorem keys_redact (payload : Payload) : (redactPayload payload).map Prod.fst = payload.map Prod.fst := by
  unfold redactPayload Platform.fromKeys
  rw [List.map_map]
  rfl

end EmailOutboxMessage

theorem Attempt.kept {a : Attempt} {m' : EmailOutboxMessage} (hs : a.settle = some m')
    (hm : a.message.status = .pending) (now : Instant) : a.message.Kept (m'.assign now a.message) := by
  obtain ⟨message, claimedAt, outcome, readings⟩ := a
  have frozen : ∀ {P : Prop}, message.status ≠ .pending → P := fun h => absurd hm h
  unfold Attempt.settle at hs
  split at hs
  · rename_i at_ ho hr
    cases hs
    exact ⟨frozen, Or.inl rfl, fun h => (by cases h), rfl, rfl, rfl, EmailOutboxMessage.keys_redact _, Nat.le_refl _⟩
  · rename_i exc failedAt at_ ho hr
    cases hs
    by_cases hmax : maxOutboxAttempts ≤ message.attemptCount + 1
    · simp only [EmailOutboxMessage.markFailed, if_pos hmax]
      exact ⟨frozen, Or.inl rfl, fun h => (by cases h), rfl, rfl, rfl, EmailOutboxMessage.keys_redact _, Nat.le_succ _⟩
    · simp only [EmailOutboxMessage.markFailed, if_neg hmax]
      exact ⟨frozen, Or.inl rfl, fun _ => ⟨hm, rfl⟩, rfl, rfl, rfl, rfl, Nat.le_succ _⟩
  · cases hs

/-- Messages stay. -/
def Keeps (db db' : Db) : Prop := ∀ id m, db.row id = some m → ∃ m', db'.row id = some m' ∧ m.Kept m'

/-! ## Commits -/

/-- A message as it was put into the outbox. -/
def EmailOutboxMessage.Fresh (m : EmailOutboxMessage) : Prop :=
  m = .new m.id m.userId m.recipientEmail m.template m.payload m.createdAt

/-- The message of `id` was put into the outbox by transaction `i`. -/
structure Inserted (w : World store ι) (i : ι) (id : Uuid) (m : EmailOutboxMessage) : Prop where
  did : Did w i (.insert m.userId m.recipientEmail m.template m.payload) m
  id : m.id = id
  fresh : m.Fresh

/-- What a commit does. -/
inductive Commits (w : World store ι) (i : ι) (f : Db → Db) : Prop where
  | added (idle : (ledger w.tr).flying i = none)
      (rows : ∀ id, (f w.db).row id = w.db.row id ∨
        w.db.row id = none ∧ ∃ m, Inserted w i id m ∧ (f w.db).row id = some m)
  | forgot (idle : (ledger w.tr).flying i = none)
      (rows : ∀ id, (f w.db).row id = w.db.row id ∨
        (f w.db).row id = (w.db.row id).map EmailOutboxMessage.forget)
  | settled (a : Attempt) (m' : EmailOutboxMessage) (now : Instant) (flying : (ledger w.tr).flying i = some a)
      (row : w.db.row a.message.id = some a.message) (due : a.message.Due a.claimedAt) (settle : a.settle = some m')
      (saved : (f w.db).row a.message.id = some (m'.assign now a.message))
      (others : ∀ id, id ≠ a.message.id → (f w.db).row id = w.db.row id)

theorem Commits.keeps {w : World store ι} {i : ι} {f : Db → Db} (h : Commits w i f) : Keeps w.db (f w.db) := by
  intro id m hm
  cases h with
  | added idle rows =>
    rcases rows id with h | ⟨h, -⟩
    · exact ⟨m, by rw [h, hm], .refl m⟩
    · rw [h] at hm
      cases hm
  | forgot idle rows =>
    rcases rows id with h | h
    · exact ⟨m, by rw [h, hm], .refl m⟩
    · exact ⟨m.forget, by rw [h, hm, Option.map_some], .forget m⟩
  | settled a m' now flying row due settle saved others =>
    by_cases hid : id = a.message.id
    · subst hid
      rw [row] at hm
      cases hm
      exact ⟨_, saved, Attempt.kept settle due.1 now⟩
    · exact ⟨m, by rw [others id hid, hm], .refl m⟩

/-- What workers, senders and deletions of users guarantee. -/
@[reducible] def contract (A : World store ι → Event store ι → Prop) : Logic store ι where
  A := A
  Gr := Keeps
  gr_refl _ _ m h := ⟨m, h, .refl m⟩
  gr_trans h h' id m hm := by
    obtain ⟨m', hm', hk⟩ := h id m hm
    obtain ⟨m'', hm'', hk'⟩ := h' id m' hm'
    exact ⟨m'', hm'', hk.trans hk'⟩
  Chk w i L _ o :=
    match o with
    | .send message => (ledger w.tr).flying i = none ∧ w.db.row message.id = some message ∧
      message.Due ((ledger w.tr).polled i) ∧ message.id ∈ L
    | .update message => message.id ∈ L
    | _ => True
  Cmt := Commits
  Fin w i a := (ledger w.tr).flying i = none ∧
    match a with
    | .ok (.processed n) => ((ledger w.tr).mine i).length = n
    | .ok .done => True
    | .error _ => False

variable {A : World store ι → Event store ι → Prop} {i : ι} {L : List Uuid} {w w' : World store ι}
  {fl : Option Attempt} {c : Instant} {n : ℕ} {m : EmailOutboxMessage}

/-! ## The worker -/

theorem At.rely (hw : (contract A).Rely i L w w') (h : At i fl c n (ledger w.tr)) : At i fl c n (ledger w'.tr) := by
  obtain ⟨ext, htr, he⟩ := hw.tr
  unfold ledger at *
  rw [htr, List.foldl_append]
  exact h.others fun e hx => (he e hx).1

/-- Transaction `i` is at work on the message `m`. -/
structure Holding (i : ι) (m : EmailOutboxMessage) (fl : Option Attempt) (c : Instant) (n : ℕ) (w : World store ι) :
    Prop where
  entry : At i fl c n (ledger w.tr)
  row : w.db.row m.id = some m

theorem Holding.rely (hl : m.id ∈ L) (hw : (contract A).Rely i L w w') (h : Holding i m fl c n w) :
    Holding i m fl c n w' :=
  ⟨h.entry.rely hw, (hw.prot m.id hl).trans h.row⟩

theorem Holding.now (h : Holding i m fl c n w) (t : Instant) :
    Holding i m (fl.map (Attempt.read t)) c n (w.stmt i .now t) :=
  ⟨by rw [World.stmt_tr, ledger_snoc]; exact h.entry.now t, h.row⟩

theorem Holding.send (h : Holding i m fl c n w) (outcome : Except Str Unit) :
    Holding i m (some ⟨m, c, outcome, []⟩) c n (w.stmt i (.send m) outcome) :=
  ⟨by rw [World.stmt_tr, ledger_snoc]; exact h.entry.send m outcome, h.row⟩

/-- What `attempt` leaves: the message that `a` settles as `m'`. -/
def Attempted (i : ι) (m : EmailOutboxMessage) (c : Instant) (n : ℕ) (m' : EmailOutboxMessage) (w : World store ι) :
    Prop :=
  ∃ a : Attempt, a.message = m ∧ a.claimedAt = c ∧ a.settle = some m' ∧ Holding i m (some a) c n w

theorem wp_attempt (hl : m.id ∈ L) (h : Holding i m none c n w) (hd : m.Due c) :
    (contract A).wp i (attempt m) L id w
      (fun m' L f w => m.id ∈ L ∧ f = id ∧ Attempted i m c n m' w) (fun _ _ _ _ => False) := by
  unfold attempt
  refine Logic.wp_call (fun hw h => h.rely hl hw) h (fun w h => ?_) fun w free r h _ => ?_
  · exact ⟨h.entry.flying, h.row, by rw [h.entry.polled]; exact hd, hl⟩
  · have h := h.send r
    cases r with
    | error exc =>
      refine Logic.wp_call (fun hw h => h.rely hl hw) h (fun w h => trivial) fun w free failedAt h _ => ?_
      have h := h.now failedAt
      refine Logic.wp_call (fun hw h => h.rely hl hw) h (fun w h => trivial) fun w free at_ h _ => ?_
      exact ⟨hl, rfl, _, rfl, rfl, rfl, h.now at_⟩
    | ok u =>
      refine Logic.wp_call (fun hw h => h.rely hl hw) h (fun w h => trivial) fun w free at_ h _ => ?_
      exact ⟨hl, rfl, _, rfl, rfl, rfl, h.now at_⟩

theorem wp_save {m' : EmailOutboxMessage} (hid : m'.id = m.id) (hl : m.id ∈ L) (h : Attempted i m c n m' w) :
    (contract A).wp i (EmailOutboxRepository.save m') L id w
      (fun _ L f w => m.id ∈ L ∧ (∃ now, f = write (.update m') now) ∧ Attempted i m c n m' w)
      (fun _ _ _ _ => False) := by
  have rely : ∀ {L : List Uuid} {w w'}, m.id ∈ L → (contract A).Rely i L w w' → Attempted i m c n m' w →
      Attempted i m c n m' w' := by
    rintro L w w' hl hw ⟨a, ha, hc, hs, h⟩
    exact ⟨a, ha, hc, hs, h.rely hl hw⟩
  have quiet : ∀ {o : Op} {r : Resp o} {w : World store ι}, (∀ g : Ledger ι, g.record ⟨i, .stmt o r⟩ = g) →
      Attempted i m c n m' w → Attempted i m c n m' (w.stmt i o r) := by
    rintro o r w hq ⟨a, ha, hc, hs, h⟩
    exact ⟨a, ha, hc, hs, by rw [World.stmt_tr, ledger_snoc, hq]; exact h.entry, h.row⟩
  unfold EmailOutboxRepository.save
  refine Logic.wp_call (fun hw h => rely hl hw h) h (fun w h => trivial) fun w free r h hr => ?_
  have hrow : r = some m := by
    obtain ⟨a, -, -, -, h⟩ := h
    change r = w.db.row m'.id at hr
    rw [hr, hid, h.row]
  subst hrow
  have h := quiet (o := .get m'.id) (r := some m) (fun _ => rfl) h
  refine Logic.wp_call (fun hw h => rely hl hw h) h (fun w h => ?_) fun w free now h _ => ?_
  · exact (hid ▸ hl : m'.id ∈ L)
  · exact ⟨List.mem_append_right _ hl, ⟨now, rfl⟩, quiet (o := .update m') (r := now) (fun _ => rfl) h⟩

theorem settle_id {a : Attempt} {m' : EmailOutboxMessage} (hs : a.settle = some m') : m'.id = a.message.id := by
  unfold Attempt.settle at hs
  split at hs
  · cases hs
    rfl
  · cases hs
    unfold EmailOutboxMessage.markFailed
    dsimp only
    split <;> rfl
  · cases hs

/-- The recorded attempt is committed. -/
theorem Attempted.commits {m' : EmailOutboxMessage} (h : Attempted i m c n m' w) (hd : m.Due c) (now : Instant) :
    Commits w i (write (.update m') now) := by
  obtain ⟨a, rfl, rfl, hs, h⟩ := h
  refine .settled a m' now h.entry.flying h.row hd hs ?_ fun id hid => ?_
  · change (w.db.modify m'.id (m'.assign now) (m'.assign_id now)).row a.message.id = _
    rw [settle_id hs, Table.row_modify_self, h.row, Option.map_some]
  · exact Table.row_modify_ne (by rw [settle_id hs]; exact hid) _ (m'.assign_id now)

/-- The end of a transaction. -/
theorem wp_end {α : Type} {a : α} {f : Db → Db} {F : World store ι → Prop}
    {Q : α → List Uuid → (Db → Db) → World store ι → Prop} {R : OutboxError → List Uuid → (Db → Db) → World store ι → Prop}
    (hF : ∀ {w w'}, (contract A).Rely i L w w' → F w → F w') (h : F w) (hc : ∀ w, F w → Commits w i f)
    (hQ : ∀ w, F w → Q a [] id (w.commit i f)) : (contract A).wp i (.commit (.ret a)) L f w Q R :=
  fun w' hw => ⟨hc w' (hF hw h), (hc w' (hF hw h)).keeps, hQ w' (hF hw h)⟩

theorem wp_dispatchOne (h : At i none c n (ledger w.tr)) :
    (contract A).wp i dispatchOne.transaction [] id w
      (fun b L f w => L = [] ∧ f = id ∧ ∃ c, At i none c (if b then n + 1 else n) (ledger w.tr))
      (fun _ _ _ _ => False) := by
  refine Logic.wp_bind.mpr ?_
  unfold dispatchOne
  refine Logic.wp_call (fun hw h => At.rely hw h) h (fun w h => trivial) fun w free now h _ => ?_
  have h : At i none c n (ledger (w.stmt i .now now).tr) := by
    rw [World.stmt_tr, ledger_snoc]
    exact h.now now
  refine Logic.wp_call (fun hw h => At.rely hw h) h (fun w h => trivial) fun w free ms h hms => ?_
  have h : At i none now n (ledger (w.stmt i (.claimDue 1 now) ms).tr) := by
    rw [World.stmt_tr, ledger_snoc]
    exact h.claim 1 now ms
  change Claims 1 now w.db free ms at hms
  cases ms with
  | nil =>
    refine wp_end (fun hw h => At.rely hw h) h (fun w h => ?_) fun w h => ⟨rfl, rfl, now, ?_⟩
    · exact .added h.flying fun id => Or.inl rfl
    · rw [World.commit_tr, ledger_snoc]
      exact h.commit
  | cons m ms =>
    obtain ⟨hrow, hd⟩ := hms.due m (List.mem_cons_self ..)
    have hl : m.id ∈ need (.claimDue 1 now) (m :: ms) ++ [] := by simp [need]
    change (contract A).wp i ((attempt m).bind fun m' => (EmailOutboxRepository.save m').bind fun _ => .ret true)
      (need (.claimDue 1 now) (m :: ms) ++ []) id _ _ _
    refine Logic.wp_bind.mpr (Logic.wp_mono (wp_attempt hl ⟨h, hrow⟩ hd) (fun m' L f w h => ?_) fun _ _ _ _ h => h)
    obtain ⟨hl, rfl, h⟩ := h
    have hid : m'.id = m.id := by
      obtain ⟨a, rfl, -, hs, -⟩ := h
      exact settle_id hs
    refine Logic.wp_bind.mpr (Logic.wp_mono (wp_save hid hl h) (fun _ L f w h => ?_) fun _ _ _ _ h => h)
    obtain ⟨hl, ⟨t, rfl⟩, h⟩ := h
    have rely : ∀ {w w'}, (contract A).Rely i L w w' → Attempted i m now n m' w → Attempted i m now n m' w' := by
      rintro w w' hw ⟨a, ha, hc, hs, h⟩
      exact ⟨a, ha, hc, hs, h.rely hl hw⟩
    refine wp_end rely h (fun w h => h.commits hd t) fun w h => ⟨rfl, rfl, now, ?_⟩
    obtain ⟨a, -, -, -, h⟩ := h
    rw [World.commit_tr, ledger_snoc]
    exact h.entry.commit

/-- **The loop**: it counts the committed attempts of its worker. -/
theorem wp_dispatchLoop {k : ℕ} (h : At i none c n (ledger w.tr)) :
    (contract A).wp i (dispatchLoop k n) [] id w
      (fun processed L f w => L = [] ∧ f = id ∧ ∃ c, At i none c processed (ledger w.tr)) (fun _ _ _ _ => False) := by
  induction k generalizing c n w with
  | zero => exact ⟨rfl, rfl, c, h⟩
  | succ k ih =>
    refine Logic.wp_bind.mpr (Logic.wp_mono (wp_dispatchOne h) (fun b L f w h => ?_) fun _ _ _ _ h => h)
    obtain ⟨rfl, rfl, c, h⟩ := h
    cases b with
    | true => exact ih h
    | false => exact ⟨rfl, rfl, c, h⟩

/-! ## The others -/

/-- What a transaction has added so far. -/
def Adds (i : ι) (f : Db → Db) (w : World store ι) : Prop :=
  ∀ db id, (f db).row id = db.row id ∨ db.row id = none ∧ ∃ m, Inserted w i id m ∧ (f db).row id = some m

omit [DecidableEq ι] in
theorem Adds.mono {f : Db → Db} (h : Adds i f w) (hw : ∀ e ∈ w.tr, e ∈ w'.tr) : Adds i f w' := by
  intro db id
  refine (h db id).imp_right ?_
  rintro ⟨hn, m, hm, hr⟩
  exact ⟨hn, m, ⟨hw _ hm.did, hm.id, hm.fresh⟩, hr⟩

omit [DecidableEq ι] in
theorem Adds.insert {f : Db → Db} (h : Adds i f w) {id : Uuid} (hm : Inserted w i id m) :
    Adds i ((fun db : Db => db.insert m) ∘ f) w := by
  intro db id'
  change ((f db).insert m).row id' = _ ∨ _ ∧ ∃ m', _ ∧ ((f db).insert m).row id' = _
  rw [Table.row_insert]
  split
  · rename_i hid
    rcases h db id' with hr | ⟨-, m', -, hr⟩
    · refine Or.inr ⟨by rw [← hr, hid.2], m, ⟨hm.did, hid.1.symm, hm.fresh⟩, rfl⟩
    · rw [hid.2] at hr
      cases hr
  · exact h db id'

theorem wp_addAll {mails : List Mail} {f : Db → Db} (h : At i none c n (ledger w.tr)) (ha : Adds i f w) :
    (contract A).wp i (addAll mails) L f w
      (fun _ _ f w => At i none c n (ledger w.tr) ∧ Adds i f w) (fun _ _ _ _ => False) := by
  induction mails generalizing L f w with
  | nil => exact ⟨h, ha⟩
  | cons mail mails ih =>
    have rely : ∀ {w w'}, (contract A).Rely i L w w' → At i none c n (ledger w.tr) ∧ Adds i f w →
        At i none c n (ledger w'.tr) ∧ Adds i f w' :=
      fun hw h => ⟨h.1.rely hw, h.2.mono fun e he => hw.mem_tr he⟩
    refine Logic.wp_call rely ⟨h, ha⟩ (fun w h => trivial) fun w free m h hm => ?_
    obtain ⟨id, now, rfl, -⟩ := hm
    refine ih ?_ ((h.2.mono fun e he => World.mem_stmt he).insert ⟨did_self, rfl, rfl⟩)
    rw [World.stmt_tr, ledger_snoc]
    exact h.1

/-- **Every transaction keeps the contract.** -/
theorem runs (job : Job) : (contract A).Run i (perform job) [] id ⟨(Table.empty : Db), (), []⟩ := by
  have h : At i none 0 0 (ledger ([] : List (Event store ι))) := ⟨rfl, rfl, rfl⟩
  cases job with
  | dispatchOutbox =>
    refine Logic.wp_bind.mpr (Logic.wp_mono (wp_dispatchLoop h) (fun k L f w h => ?_) fun _ _ _ _ h => h.elim)
    obtain ⟨rfl, rfl, c, h⟩ := h
    intro w' hw
    exact ⟨(h.rely hw).flying, (h.rely hw).mine⟩
  | add mails =>
    refine Logic.wp_bind.mpr (Logic.wp_bind.mpr
      (Logic.wp_mono (wp_addAll h fun db id => Or.inl rfl) (fun _ L f w h => ?_) fun _ _ _ _ h => h.elim))
    have rely : ∀ {w w'}, (contract A).Rely i L w w' → At i none 0 0 (ledger w.tr) ∧ Adds i f w →
        At i none 0 0 (ledger w'.tr) ∧ Adds i f w' :=
      fun hw h => ⟨h.1.rely hw, h.2.mono fun e he => hw.mem_tr he⟩
    refine wp_end rely h (fun w h => .added h.1.flying (h.2 w.db)) fun w h w' hw => ⟨?_, trivial⟩
    have hc : At i none 0 0 (ledger (w.commit i f).tr) := by
      rw [World.commit_tr, ledger_snoc]
      exact h.1.commit
    exact (hc.rely hw).flying
  | deleteUser userId =>
    refine Logic.wp_call (fun hw h => At.rely hw h) h (fun w h => trivial) fun w free ids h _ => ?_
    have h : At i none 0 0 (ledger (w.stmt i (.deleteUser userId) ids).tr) := by
      rw [World.stmt_tr, ledger_snoc]
      exact h
    refine wp_end (fun hw h => At.rely hw h) h (fun w h => .forgot h.flying fun id => row_forgetAll)
      fun w h w' hw => ⟨?_, trivial⟩
    have hc : At i none 0 0 (ledger (w.commit i (forgetAll · ids)).tr) := by
      rw [World.commit_tr, ledger_snoc]
      exact h.commit
    exact (hc.rely hw).flying

/-! ## Locks -/

variable {job : ι → Job} {s s' : Sys store ι}

theorem good (hr : Reach A (system job) s) : (contract A).Good s :=
  Logic.sound (Φ := contract A) (fun i => runs (job i)) hr

/-- What a step does. -/
inductive Moves (A : World store ι → Event store ι → Prop) (s s' : Sys store ι) (i : ι) : Prop where
  | stmt {o : Op} {r : Resp o} {L : List Uuid} {f : Db → Db} (live : s.txs i ≠ .over) (held : (s.txs i).held = L)
      (checked : (contract A).Chk s.world i L f o) (world : s'.world = s.world.stmt i o r)
  | commit {f : Db → Db} (commits : Commits s.world i f) (world : s'.world = s.world.commit i f)
  | done {a : Except OutboxError Answer} (fin : (contract A).Fin s.world i a)
      (world : s'.world = s.world.push i (.done a))
  | crash (world : s'.world = s.world.push i .crash)

theorem moves (hr : Reach A (system job) s) (h : Step A s s') : ∃ i, Moves A s s' i := by
  have hs := good hr
  cases h with
  | @stmt i o k L f r hi hresp hl hA =>
    obtain ⟨hc, -⟩ := (hs.run _ _ _ _ hi) s.world (.refl _ _ _)
    exact ⟨i, .stmt (fun h => by rw [hi] at h; cases h) (by rw [hi]; rfl) hc rfl⟩
  | @commit i k L f hi hA =>
    obtain ⟨hc, -⟩ := (hs.run _ _ _ _ hi) s.world (.refl _ _ _)
    exact ⟨i, .commit hc rfl⟩
  | ret hi hA => exact ⟨_, .done ((hs.run _ _ _ _ hi) s.world (.refl _ _ _)) rfl⟩
  | raise hi hA => exact ⟨_, .done ((hs.run _ _ _ _ hi) s.world (.refl _ _ _)) rfl⟩
  | crash hi hA => exact ⟨_, .crash rfl⟩

theorem Moves.tr (h : Moves A s s' i) : ∃ act, s'.world.tr = s.world.tr ++ [⟨i, act⟩] := by
  cases h with
  | stmt live held checked world => exact ⟨_, by rw [world]; rfl⟩
  | commit commits world => exact ⟨_, by rw [world]; rfl⟩
  | done fin world => exact ⟨_, by rw [world]; rfl⟩
  | crash world => exact ⟨_, by rw [world]; rfl⟩

theorem Moves.keeps (h : Moves A s s' i) : Keeps s.world.db s'.world.db := by
  cases h with
  | commit commits world =>
    rw [world]
    exact commits.keeps
  | stmt live held checked world =>
    rw [world]
    exact (contract A).gr_refl _
  | done fin world =>
    rw [world]
    exact (contract A).gr_refl _
  | crash world =>
    rw [world]
    exact (contract A).gr_refl _

/-- A message that is with the provider is locked by the worker that sent it. -/
theorem flying_held (hr : Reach A (system job) s) {i : ι} {a : Attempt} (ha : (ledger s.world.tr).flying i = some a) :
    a.message.id ∈ (s.txs i).held := by
  induction hr generalizing i a with
  | refl => cases ha
  | @tail s s' hpre hstep ih =>
    have hs := good hpre
    -- a step of `j` leaves the others as they are, and keeps its own locks unless it ends its transaction
    have keep : ∀ {j : ι} {act : Act store} {t : Tx store},
        (ledger (s.world.tr ++ [⟨j, act⟩])).flying i = some a →
        (i = j → ¬act.ends → a.message.id ∈ (s.txs i).held ∨ act = .stmt (.send a.message) a.outcome →
          a.message.id ∈ t.held) →
        a.message.id ∈ (Function.update s.txs j t i).held := by
      intro j act t hrec hown
      rw [ledger_snoc] at hrec
      have hf := record_flying hrec
      by_cases hij : i = j
      · subst hij
        rw [Function.update_self]
        rcases hf with ⟨a₀, h₀, hm, -, hn⟩ | he
        · exact hown rfl (hn rfl) (Or.inl (hm ▸ ih h₀))
        · cases he
          exact hown rfl id (Or.inr rfl)
      · rw [Function.update_of_ne hij]
        rcases hf with ⟨a₀, h₀, hm, -, -⟩ | he
        · rw [← hm]
          exact ih h₀
        · cases he
          exact absurd rfl hij
    cases hstep with
    | @stmt j o k L f r hi hresp hl hA =>
      obtain ⟨hc, -⟩ := (hs.run _ _ _ _ hi) s.world (.refl _ _ _)
      refine keep ha fun hij _ h => List.mem_append_right _ ?_
      subst hij
      rcases h with h | h
      · rwa [hi] at h
      · cases h
        exact hc.2.2.2
    | commit hi hA => exact keep ha fun _ hn => absurd trivial hn
    | ret hi hA => exact keep ha fun _ hn => absurd trivial hn
    | raise hi hA => exact keep ha fun _ hn => absurd trivial hn
    | crash hi hA => exact keep ha fun _ hn => absurd trivial hn

/-- Two transactions are not at work on one message. -/
theorem flying_exclusive (hr : Reach A (system job) s) {i j : ι} {a : Attempt}
    (ha : (ledger s.world.tr).flying i = some a) (hj : a.message.id ∈ (s.txs j).held) : i = j := by
  by_contra hne
  have h := (good hr).excl i j hne _ (flying_held hr ha) _ hj
  simp at h

end Bekaa3D.Jobs
