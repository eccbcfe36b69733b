import Bekaa3D.Identity.Rotation
import Bekaa3D.Identity.Totp

/-!
# Identity.SecondFactors — one-time passwords and recovery codes are spent once

Second-factor checks, confirmations and everything else but a new set-up, in any interleaving.

* `Accepts`: a transaction found the TOTP of a time step that the credential had not spent.
* `RedeemsCode`: a transaction locked an unused recovery code.
* `second_factors_single_use`: accepted steps rise in commit order, a code is redeemed once, and a refused request
  spends nothing.
-/

namespace Bekaa3D.Identity

open Txn

variable {env : Env} {ι : Type} [DecidableEq ι]

/-- Transaction `i` matched a TOTP with the time step `step`, which the credential `c` that it locked had not spent. -/
inductive Accepts (req : ι → Request) (w : World (store env) ι) (i : ι) (c : MfaCredential) (step : ℤ) : Prop
  | verified {challengeId code secret : String} {ua : Option String} {ctx : AuditContext} {userId : Uuid}
      {now : Instant} (request : req i = .verifyMfa challengeId (some code) none ua ctx)
      (read : ReadAt w i userId c now) (decrypted : env.decryptSecret c.secretCiphertext = some secret)
      (matched : verifyCodeStep env secret code now = some step) (new : c.isTotpStepReplayed step = false)
  | confirmed {claims : AccessTokenClaims} {code secret : String} {csrf : Option String} {ctx : AuditContext}
      {now : Instant} (request : req i = .confirmMfaSetup claims csrf code ctx) (pending : c.isEnabled = false)
      (read : ReadAt w i claims.userId c now) (decrypted : env.decryptSecret c.secretCiphertext = some secret)
      (matched : verifyCodeStep env secret code now = some step)

/-- Transaction `i` locked the unused recovery code `k` to redeem it. -/
def RedeemsCode (w : World (store env) ι) (i : ι) (k : MfaRecoveryCode) : Prop :=
  ∃ cid hash, Did w i (.selectUnusedCodeForUpdate cid hash) (some k)

variable {A : World (store env) ι → Event (store env) ι → Prop} {req : ι → Request} {db db' db₁ db₂ : Db} {mem : Mem}
  {i j : ι} {w w' : World (store env) ι} {ch : Change} {c d : MfaCredential} {step a b : ℤ}
  {s s' : Sys (store env) ι}

/-! ## What one commit does to a credential -/

/-- No time step is recorded for a credential that has not been confirmed. -/
def PendingUnspent (db : Db) : Prop :=
  ∀ k c, db.mfaCredentials.row k = some c → c.enabledAt = none → c.lastTotpStep = none

/-- The time step `step` or a later one is recorded for the credential `k`. -/
def Spent (k : Uuid) (step : ℤ) (db : Db) : Prop :=
  ∃ c last, db.mfaCredentials.row k = some c ∧ c.lastTotpStep = some last ∧ step ≤ last

/-- A recorded step is never taken back, and a credential that is pending afterwards was as it is. -/
structure Later (c c' : MfaCredential) : Prop where
  step : ∀ last, c.lastTotpStep = some last → ∃ last', c'.lastTotpStep = some last' ∧ last ≤ last'
  pending : c'.enabledAt = none → c.enabledAt = none ∧ c'.lastTotpStep = c.lastTotpStep

theorem recordTotpStep_max {now : Instant} {last : ℤ} (h : c.lastTotpStep = some last) :
    (c.recordTotpStep step now).lastTotpStep = some (max last step) := by
  show some _ = _
  rw [h]

theorem later_recordTotpStep {now : Instant} (h : c.enabledAt.isSome = true) : Later c (c.recordTotpStep step now) := by
  refine ⟨fun last hl => ⟨max last step, recordTotpStep_max hl, le_max_left _ _⟩, fun hn => ?_⟩
  have hn : c.enabledAt = none := hn
  rw [hn] at h
  cases h

theorem later_confirmed {now : Instant} (h : c.isEnabled = false) :
    Later c ((c.enable now).recordTotpStep step now) := by
  have he : c.enable now = { c with enabledAt := some now } := by
    unfold MfaCredential.enable
    rw [h]
    rfl
  rw [he]
  exact ⟨fun last hl => ⟨max last step, recordTotpStep_max hl, le_max_left _ _⟩, fun hn => by cases hn⟩

/-- Without a new set-up, a commit leaves the credentials or takes one of them further. -/
theorem Allowed.credentials (ha : Allowed A w i (req i) ch)
    (hp : ∀ claims csrf password ctx, req i ≠ .setupMfa claims csrf password ctx) :
    ch.credentials = .keep ∨ ∃ c c', ch.credentials = .set c c' ∧ c'.id = c.id ∧ Later c c' := by
  generalize hreq : req i = r at ha
  cases ha with
  | setupStarted | setupUnchanged | setupRestarted => exact absurd hreq (hp _ _ _ _)
  | @confirmed claims csrf code ctx a c secret step now lock pending decrypted read matched completed =>
    refine Or.inr ⟨_, _, rfl, ?_, later_confirmed pending⟩
    unfold MfaCredential.enable
    split <;> rfl
  | verifiedTotp lock enabled decrypted read matched isNew open_ =>
    exact Or.inr ⟨_, _, rfl, rfl, later_recordTotpStep enabled⟩
  | verifiedRecovery lock enabled redeemed owner hash unused open_ =>
    exact Or.inr ⟨_, _, rfl, rfl, fun last h => ⟨last, h, le_refl _⟩, fun h => ⟨h, rfl⟩⟩
  | _ => exact Or.inl rfl

section Credentials

variable (ha : Allowed A w i (req i) ch)
  (hp : ∀ claims csrf password ctx, req i ≠ .setupMfa claims csrf password ctx) (hrel : ch.Rel db db')

include ha hp hrel

theorem Allowed.spent {k : Uuid} (h : Spent k step db) : Spent k step db' := by
  obtain ⟨c, last, hc, hl, hle⟩ := h
  have hr := hrel.credentials
  rcases ha.credentials hp with hk | ⟨v, v', hset, hid, hlater⟩
  · rw [hk] at hr
    exact ⟨c, last, by rw [hr k, hc], hl, hle⟩
  · rw [hset] at hr
    rcases hr.of_set hc with ⟨rfl, -, hv'⟩ | ⟨-, hc'⟩
    · obtain ⟨last', hl', hle'⟩ := hlater.step last hl
      exact ⟨v', last', hv', hl', le_trans hle hle'⟩
    · exact ⟨c, last, hc', hl, hle⟩

theorem Allowed.pendingUnspent (h : PendingUnspent db) : PendingUnspent db' := by
  intro k c' hc' he
  have hr := hrel.credentials
  rcases ha.credentials hp with hk | ⟨v, v', hset, hid, hlater⟩
  · rw [hk] at hr
    rw [hr k] at hc'
    exact h k c' hc' he
  · rw [hset] at hr
    by_cases hk : k = v.id
    · subst hk
      rw [hr.2.1] at hc'
      obtain rfl := Option.some.inj hc'
      obtain ⟨he, hl⟩ := hlater.pending he
      rw [hl]
      exact h v.id v hr.1 he
    · rw [hr.2.2 k hk] at hc'
      exact h k c' hc' he

end Credentials

section Runs

variable (hp : ∀ i claims csrf password ctx, req i ≠ .setupMfa claims csrf password ctx)

include hp

theorem spent_stays {k : Uuid} (hr : Reach A (system env db mem req) s) (hs : Reach A s s')
    (h : Spent k step s.world.db) : Spent k step s'.world.db :=
  invariant_from (J := Spent k step) hr (fun _ hJ _ ha hrel => ha.spent (hp _) hrel hJ) h hs

theorem pendingUnspent (hdb : PendingUnspent db) (hr : Reach A (system env db mem req) s) :
    PendingUnspent s.world.db :=
  invariant_from (J := PendingUnspent) .refl (fun _ hJ _ ha hrel => ha.pendingUnspent (hp _) hrel hJ) hdb hr

end Runs

/-! ## Accepted steps -/

omit [DecidableEq ι] in
theorem Told.lockCredential (h : Told req w) {u v : Uuid} {r r' : Option MfaCredential}
    (hd : Did w i (.selectCredentialByUserForUpdate u) r) (hd' : Did w i (.selectCredentialByUserForUpdate v) r') :
    u = v ∧ r = r' := by
  cases h.once (k := .lockCredential) rfl rfl hd hd'
  exact ⟨rfl, rfl⟩

theorem readAt_unique (hr : Reach A (system env db mem req) s) {u v : Uuid} {now now' : Instant}
    (h : ReadAt s.world i u c now) (h' : ReadAt s.world i v d now') : u = v ∧ c = d ∧ now = now' := by
  have hd := readAfter_did (o := .selectCredentialByUserForUpdate u) (r := some c) h
  have hd' := readAfter_did (o := .selectCredentialByUserForUpdate v) (r := some d) h'
  obtain ⟨rfl, he⟩ := (told hr).lockCredential hd hd'
  obtain rfl := Option.some.inj he
  exact ⟨rfl, rfl, readAfter_unique hr (o := .selectCredentialByUserForUpdate u) (r := some c) (m := .lockCredential)
    rfl h h'⟩

/-- The commit of an accepted step records it in the row that the transaction locked. -/
theorem CommitOf.accepts {s₁ s₂ : Sys (store env) ι} (h : CommitOf A req (system env db mem req) s s₁ s₂ i ch)
    (hacc : Accepts req s.world i c step) (hdb : PendingUnspent s₁.world.db) :
    s₁.world.db.mfaCredentials.row c.id = some c ∧ Unspent c step ∧ Spent c.id step s₂.world.db := by
  have hr := h.before.trans h.reach
  have ha := h.allowed
  have hrel := h.rel.credentials
  -- the row that is recorded is the one that was matched
  have spent : ∀ {c' : MfaCredential}, Unspent c step → ch.credentials = .set c c' → c'.lastTotpStep = some step →
      s₁.world.db.mfaCredentials.row c.id = some c ∧ Unspent c step ∧ Spent c.id step s₂.world.db := by
    intro c' hu hset hl
    rw [hset] at hrel
    exact ⟨hrel.1, hu, c', step, hrel.2.1, hl, le_refl _⟩
  cases hacc with
  | verified request read decrypted matched new =>
    rw [request] at ha
    have hu := isTotpStepReplayed_iff.mp new
    cases ha with
    | replayed lock enabled read' spent' noneOf =>
      obtain ⟨-, rfl, rfl⟩ := readAt_unique hr read (readAt_own h.own read')
      simp [spentStep, decrypted, matched, new] at spent'
    | verifiedTotp lock enabled decrypted' read' matched' isNew open_ =>
      obtain ⟨-, rfl, rfl⟩ := readAt_unique hr read (readAt_own h.own read')
      rw [decrypted] at decrypted'
      obtain rfl := Option.some.inj decrypted'
      rw [matched] at matched'
      obtain rfl := Option.some.inj matched'
      exact spent hu rfl (recordTotpStep_last hu _)
  | confirmed request pending read decrypted matched =>
    rw [request] at ha
    cases ha with
    | @confirmed claims csrf code ctx a c' secret step now lock pending' decrypted' read' matched' completed =>
      obtain ⟨-, rfl, rfl⟩ := readAt_unique hr read (readAt_own h.own read')
      rw [decrypted] at decrypted'
      obtain rfl := Option.some.inj decrypted'
      rw [matched] at matched'
      obtain rfl := Option.some.inj matched'
      have hn : c.enabledAt = none := by simpa [MfaCredential.isEnabled] using pending
      have hl : c.lastTotpStep = none := hdb c.id c lock.row hn
      have hu : Unspent c step := fun last h => by rw [hl] at h; cases h
      have hu' : ∀ {now}, Unspent (c.enable now) step := fun {now} => by
        unfold MfaCredential.enable
        split
        · exact hu
        · exact hu
      exact spent hu rfl (recordTotpStep_last hu' _)

/-- What had committed before `i` had committed when `i` did. -/
theorem CommitOf.committed_before {s₁ s₂ : Sys (store env) ι}
    (h : CommitOf A req (system env db mem req) s s₁ s₂ i ch) (hb : Before ⟨j, .commit⟩ ⟨i, .commit⟩ s.world.tr) :
    Committed s₁.world j := by
  obtain ⟨ext, hext⟩ := h.after.history
  rw [h.tr, List.append_assoc] at hext
  have hs := (told (h.before.trans h.reach)).single (i := i)
  rw [hext] at hb hs
  exact mem_of_before hb hs

/-- **Accepted steps rise** in commit order. -/
theorem accepted_rise (hp : ∀ i claims csrf password ctx, req i ≠ .setupMfa claims csrf password ctx)
    (hdb : PendingUnspent db) (hr : Reach A (system env db mem req) s)
    (hb : Before ⟨i, .commit⟩ ⟨j, .commit⟩ s.world.tr) (hi : Accepts req s.world i c a)
    (hj : Accepts req s.world j d b) (hid : c.id = d.id) : a < b := by
  obtain ⟨s₁, s₂, ch, h, -⟩ := persisted hr hb.right
  obtain ⟨t₁, t₂, h₁, hstep, h₂, htr⟩ := event_step h.before (h.committed_before hb) List.not_mem_nil
  obtain ⟨ch', h'⟩ := commitOf_step .refl h₁ hstep (h₂.trans h.reach) htr
  -- what `i` committed is still recorded when `j` locks the row
  have hspent : Spent d.id a s₁.world.db := by
    obtain ⟨-, -, hs⟩ := h'.accepts hi (pendingUnspent hp hdb h₁)
    rw [hid] at hs
    exact spent_stays hp (h₁.tail hstep) h₂ hs
  obtain ⟨hrow, hu, -⟩ := h.accepts hj (pendingUnspent hp hdb h.before)
  obtain ⟨c', last, hrow', hl, hle⟩ := hspent
  rw [hrow] at hrow'
  obtain rfl := Option.some.inj hrow'
  exact lt_of_le_of_lt hle (hu last hl)

/-! ## Redeemed codes -/

/-- The commit of a transaction that locked a code to redeem it marks the code as used. -/
theorem CommitOf.redeemsCode {s₁ s₂ : Sys (store env) ι} (h : CommitOf A req (system env db mem req) s s₁ s₂ i ch)
    {k : MfaRecoveryCode} (hk : RedeemsCode s.world i k) :
    s₁.world.db.mfaRecoveryCodes.row k.id = some k ∧ k.usedAt = none ∧
      ∃ now, s₂.world.db.mfaRecoveryCodes.row k.id = some (k.usedAtIs (some now)) := by
  have ht := told (h.before.trans h.reach)
  obtain ⟨cid, hash, hd⟩ := hk
  obtain ⟨challengeId, code, recovery, ua, ctx, request⟩ := ht.chk hd
  have ha := h.allowed
  have hrel := h.rel.codes
  rw [request] at ha
  cases ha with
  | replayed lock enabled read spent noneOf => cases spent
  | @verifiedRecovery challengeId code recovery ua ctx u x c k' now n lock enabled redeemed owner hash unused open_ =>
    have he := ht.once (k := .lockCode) rfl rfl hd (redeemed.mono h.history)
    cases he
    exact ⟨hrel.1, unused, now, hrel.2.1⟩

/-- **A code is redeemed once.** -/
theorem redeemed_once (hr : Reach A (system env db mem req) s) {k l : MfaRecoveryCode} (hi : Committed s.world i)
    (hj : Committed s.world j) (hk : RedeemsCode s.world i k) (hl : RedeemsCode s.world j l) (hid : k.id = l.id) : i = j := by
  have first : ∀ {i j : ι} {k l : MfaRecoveryCode}, RedeemsCode s.world i k → RedeemsCode s.world j l → k.id = l.id →
      ¬Before ⟨i, .commit⟩ ⟨j, .commit⟩ s.world.tr := by
    intro i j k l hk hl hid hb
    obtain ⟨s₁, s₂, ch, h, -⟩ := persisted hr hb.right
    obtain ⟨t₁, t₂, h₁, hstep, h₂, htr⟩ := event_step h.before (h.committed_before hb) List.not_mem_nil
    obtain ⟨ch', h'⟩ := commitOf_step .refl h₁ hstep (h₂.trans h.reach) htr
    obtain ⟨-, -, now, hused⟩ := h'.redeemsCode hk
    obtain ⟨hrow, hunused, -⟩ := h.redeemsCode hl
    have hrow' := (grows (h₁.tail hstep) h₂).codes _ _ now hused rfl
    rw [hid, hrow] at hrow'
    rw [Option.some.inj hrow'] at hunused
    cases hunused
  by_contra hne
  rcases before_total hi hj (fun h => hne (congrArg Event.who h)) with hb | hb
  · exact first hk hl hid hb
  · exact first hl hk hid.symm hb

/-! ## What a commit leaves alone -/

/-- What a transaction stores is an allowed change. -/
theorem stores_allowed (hr : Stores A (system env db mem req) s i db₁ db₂) :
    ∃ w ch, (∀ e ∈ w.tr, e ∈ s.world.tr) ∧ Allowed A w i (req i) ch ∧ ch.Rel db₁ db₂ := by
  obtain ⟨s₁, s₂, h₁, hstep, h₂, htr, rfl, rfl⟩ := hr
  obtain ⟨-, ch, ha, hrel⟩ := commit_step h₁ hstep htr
  exact ⟨s₁.world, ch, fun e he => h₂.mem_tr (hstep.mem_tr he), ha, hrel⟩

/-- The second factors that requests spend. -/
structure SingleUse (A : World (store env) ι → Event (store env) ι → Prop) (s₀ : Sys (store env) ι) (req : ι → Request)
    (s : Sys (store env) ι) : Prop where
  /-- The time steps that are accepted for a credential rise in commit order. -/
  steps : ∀ i j c d a b, Before ⟨i, .commit⟩ ⟨j, .commit⟩ s.world.tr → Accepts req s.world i c a →
    Accepts req s.world j d b → c.id = d.id → a < b
  /-- A recovery code is redeemed by one transaction … -/
  codes : ∀ i j k l, Committed s.world i → Committed s.world j → RedeemsCode s.world i k → RedeemsCode s.world j l →
    k.id = l.id → i = j
  /-- … and stays as it was when it was used. -/
  used : ∀ s', Reach A s s' → ∀ id k at_, s.world.db.mfaRecoveryCodes.row id = some k → k.usedAt = some at_ →
    s'.world.db.mfaRecoveryCodes.row id = some k
  /-- A check of a TOTP stores no recovery code … -/
  totp : ∀ i challengeId code ua ctx db₁ db₂, req i = .verifyMfa challengeId code none ua ctx →
    Stores A s₀ s i db₁ db₂ → ∀ id, db₂.mfaRecoveryCodes.row id = db₁.mfaRecoveryCodes.row id
  /-- … and that of a recovery code no time step. -/
  recovery : ∀ i challengeId code recovery ua ctx db₁ db₂,
    req i = .verifyMfa challengeId code (some recovery) ua ctx → Stores A s₀ s i db₁ db₂ →
    ∀ id c, db₁.mfaCredentials.row id = some c → ∃ c', db₂.mfaCredentials.row id = some c' ∧
      c'.lastTotpStep = c.lastTotpStep
  /-- A check that is refused spends nothing. -/
  refused : ∀ i challengeId code recovery ua ctx e db₁ db₂, req i = .verifyMfa challengeId code recovery ua ctx →
    ⟨i, .done (.error e)⟩ ∈ s.world.tr → Stores A s₀ s i db₁ db₂ →
    (∀ id, db₂.mfaCredentials.row id = db₁.mfaCredentials.row id) ∧
      ∀ id, db₂.mfaRecoveryCodes.row id = db₁.mfaRecoveryCodes.row id

section Stores

variable {challengeId : String} {code : Option String} {ua : Option String} {ctx : AuditContext}

theorem totp_stores (hreq : req i = .verifyMfa challengeId code none ua ctx)
    (h : Stores A (system env db mem req) s i db₁ db₂) (id : Uuid) :
    db₂.mfaRecoveryCodes.row id = db₁.mfaRecoveryCodes.row id := by
  obtain ⟨w, ch, -, ha, hrel⟩ := stores_allowed h
  rw [hreq] at ha
  cases ha with
  | replayed | verifiedTotp => exact hrel.codes id

theorem recovery_stores {recovery : String} (hreq : req i = .verifyMfa challengeId code (some recovery) ua ctx)
    (h : Stores A (system env db mem req) s i db₁ db₂) {id : Uuid} (hc : db₁.mfaCredentials.row id = some c) :
    ∃ c', db₂.mfaCredentials.row id = some c' ∧ c'.lastTotpStep = c.lastTotpStep := by
  obtain ⟨w, ch, -, ha, hrel⟩ := stores_allowed h
  rw [hreq] at ha
  cases ha with
  | replayed lock enabled read spent noneOf => cases spent
  | verifiedRecovery =>
    have hr := hrel.credentials
    rcases hr.of_set hc with ⟨rfl, -, hc'⟩ | ⟨-, hc'⟩
    · exact ⟨_, hc', rfl⟩
    · exact ⟨c, hc', rfl⟩

/-- A refused check has committed at most the record of a replay. -/
theorem refused_stores {recovery : Option String} {e : IdentityError} (hr : Reach A (system env db mem req) s)
    (hreq : req i = .verifyMfa challengeId code recovery ua ctx) (he : ⟨i, .done (.error e)⟩ ∈ s.world.tr)
    (h : Stores A (system env db mem req) s i db₁ db₂) :
    (∀ id, db₂.mfaCredentials.row id = db₁.mfaCredentials.row id) ∧
      ∀ id, db₂.mfaRecoveryCodes.row id = db₁.mfaRecoveryCodes.row id := by
  obtain ⟨w, ch, hw, ha, hrel⟩ := stores_allowed h
  obtain ⟨w', -, hsame, hf⟩ := finished hr he
  rw [hreq] at ha hf
  rcases hf with ⟨-, hnone⟩ | ⟨hn, -⟩
  · have opened : ∀ {u x}, ¬Opened w i u x := fun hop =>
      hsame.noneOf hnone _ _ rfl (hop.lock.did.mono hw)
    cases ha with
    | replayed => exact ⟨hrel.credentials, hrel.codes⟩
    | verifiedTotp lock enabled decrypted read matched isNew open_ => exact absurd open_ opened
    | verifiedRecovery lock enabled redeemed owner hash unused open_ => exact absurd open_ opened
  · exact absurd (hsame.committed.mp h.committed) hn

end Stores

/-- **Second factors are single-use**, whatever requests but a new set-up run, in whatever order. -/
theorem second_factors_single_use (hp : ∀ i claims csrf password ctx, req i ≠ .setupMfa claims csrf password ctx)
    (hdb : PendingUnspent db) (hr : Reach A (system env db mem req) s) :
    SingleUse A (system env db mem req) req s where
  steps _ _ _ _ _ _ hb hi hj hid := accepted_rise hp hdb hr hb hi hj hid
  codes _ _ _ _ hi hj hk hl hid := redeemed_once hr hi hj hk hl hid
  used _ hs _ _ at_ hk hu := (grows hr hs).codes _ _ at_ hk hu
  totp _ _ _ _ _ _ _ hreq h id := totp_stores hreq h id
  recovery _ _ _ _ _ _ _ _ hreq h _ _ hc := recovery_stores hreq h hc
  refused _ _ _ _ _ _ _ _ _ hreq he h := refused_stores hr hreq he h

/-- An enabled second factor. -/
def sampleCredential : MfaCredential where
  id := 4
  userId := 1
  secretCiphertext := "123456"
  enabledAt := some 0
  lastTotpStep := none
  lastUsedAt := none

def factorDb : Db := { sampleDb with mfaCredentials := Table.empty.insert sampleCredential }

/-- Every login challenge is one of the account. -/
def factorMem : Mem
  | .mfaChallenge _ => some (.challenge 1 0)
  | _ => none

def verifyBoth (b : Bool) : Request := .verifyMfa (if b then "second" else "first") (some "123456") none none {}

theorem pendingUnspent_factorDb : PendingUnspent factorDb := by
  intro k c hc he
  by_cases hk : k = sampleCredential.id
  · subst hk
    obtain rfl := Option.some.inj hc
    rfl
  · have h0 : factorDb.mfaCredentials.row k = none := Table.row_insert_ne hk
    rw [h0] at hc
    cases hc

/-- One TOTP, twice: the second check is refused. -/
theorem totp_then_again : ∃ s, Reach Any (system sampleEnv factorDb factorMem verifyBoth) s ∧
    SingleUse Any (system sampleEnv factorDb factorMem verifyBoth) verifyBoth s ∧
    s.world.sees false (answered true) = true ∧ s.world.sees true (answered false) = true := by
  obtain ⟨s, hr, hs⟩ := play_any (player sampleEnv) (fun _ _ => true) (A := Any) (fun _ => trivial)
    (system sampleEnv factorDb factorMem verifyBoth)
    (List.replicate 18 (.go false { n := 5 }) ++ List.replicate 8 (.go true { n := 5 }))
    (fun s => s.world.sees false (answered true) && s.world.sees true (answered false)) (by decide +kernel)
  obtain ⟨h0, h1⟩ := Bool.and_eq_true_iff.mp hs
  exact ⟨s, hr, second_factors_single_use (fun _ _ _ _ _ h => by cases h) pendingUnspent_factorDb hr, h0, h1⟩

end Bekaa3D.Identity
