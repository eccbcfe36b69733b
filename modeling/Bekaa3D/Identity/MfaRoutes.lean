import Bekaa3D.Identity.AccountRoutes

/-!
# Identity.MfaRoutes — the routes of the second factor keep the contract
-/

namespace Bekaa3D.Identity

open Txn

variable {env : Env} {ι : Type} [DecidableEq ι] {A : World (store env) ι → Event (store env) ι → Prop}
  {req : ι → Request} {i : ι} {N : List Kind} {L : List RowLock} {f : Db → Db} {w : World (store env) ι} {ch : Change}
  {F : World (store env) ι → Prop}

/-! ## Setup -/

theorem holds_credentialRow {k : Uuid} {v : Option MfaCredential} {m : LockMode} (hm : m ≠ .keyShare)
    (h : ⟨.mfaCredential k, m⟩ ∈ L) : (contract A req).Holds i L fun w => w.db.mfaCredentials.row k = v :=
  ⟨fun hw hv => by rw [(hw.prot _ h hm).1, hv], fun _ _ h => h⟩

theorem wp_insertCredential {userId : Uuid} {ciphertext : String}
    {Q : MfaCredential → List RowLock → (Db → Db) → World (store env) ι → Prop}
    {R : IdentityError → List RowLock → (Db → Db) → World (store env) ι → Prop} (hk : Knows A req i N L f w ch F)
    (hcr : ch.credentials = .keep) (hR : ∀ e L f w, R e L f w)
    (next : ∀ L' f' w c (G : World (store env) ι → Prop), c.userId = userId → c.enabledAt = none →
      c.lastTotpStep = none → Knows A req i N L' f' w { ch with credentials := .new c } (fun w => F w ∧ G w) →
      Q c L' f' w) :
    (contract A req).wp i (MfaCredentialRepository.add userId ciphertext) L f w Q R := by
  refine wp_step hk nofun (fun _ _ => trivial) fun w free r hF hrel hp hr hA => ?_
  cases r with
  | none => exact hR _ _ _ _
  | some c =>
    have hr' : c = ⟨c.id, userId, ciphertext, none, none, none⟩ ∧ (f w.db).mfaCredentials.row c.id = none ∧ _ := hr
    have hnone : w.db.mfaCredentials.row c.id = none := by
      have h := hrel.credentials
      rw [hcr] at h
      rw [← h]
      exact hr'.2.1
    refine next _ _ _ c _ (by rw [hr'.1]) (by rw [hr'.1]) (by rw [hr'.1])
      (hk.next (o := .insertCredential userId ciphertext) (r := some c) hF (hp.stmt rfl)
        (holds_credentialRow (m := .update) nofun (List.mem_cons_self ..)) hnone
        fun w hF hG h => h.setCredentials hcr ?_)
    have h0 := h.credentials
    rw [hcr] at h0
    exact Table.Change.new_insert (by rw [h0]; exact hG)

/-- Saving a credential that was read without a lock. -/
theorem wp_saveCredentialUnlocked {c' : MfaCredential}
    {Q : Unit → List RowLock → (Db → Db) → World (store env) ι → Prop}
    {R : IdentityError → List RowLock → (Db → Db) → World (store env) ι → Prop}
    (hk : Knows A req i N L f w ch F) (hcr : ch.credentials = .keep) (hR : ∀ e L f w, R e L f w)
    (same : ∀ w, Knows A req i N L f w ch F → Q () L f w)
    (next : ∀ L' f' w c₁ c (w₀ : World (store env) ι), c.id = c'.id → w₀.db.mfaCredentials.row c'.id = some c →
      A w₀ ⟨i, .stmt (.updateCredential c'.id (MfaCredentialRepository.cols c₁ c')) true⟩ →
      Knows A req i N L' f' w { ch with credentials := .set c ((MfaCredentialRepository.cols c₁ c').apply c) }
        (fun w => (F w ∧ Did w i (.selectCredential c'.id) (some c₁)) ∧ w.db.mfaCredentials.row c'.id = some c) →
      Q () L' f' w) :
    (contract A req).wp i (MfaCredentialRepository.save c') L f w Q R := by
  refine wp_read hk (fun _ => rfl) (fun _ _ => rfl) rfl (fun _ _ => trivial) fun w free r hF hrel hr hA hk' => ?_
  cases r with
  | none => exact hR _ _ _ _
  | some c₁ =>
    change (contract A req).wp i (if decide (MfaCredentialRepository.cols c₁ c' = {}) then _ else _) L f _ Q R
    split
    · exact same _ (hk.forget hk')
    · refine wp_step hk' nofun (fun _ _ => trivial) fun w free r hF hrel hp hr hA => ?_
      cases r with
      | false => exact hR _ _ _ _
      | true =>
        obtain ⟨c, hc'⟩ := Option.isSome_iff_exists.mp (Eq.symm hr)
        have hrow : w.db.mfaCredentials.row c'.id = some c := by
          have h := hrel.credentials
          rw [hcr] at h
          rw [← h]
          exact hc'
        have hid : c.id = c'.id := w.db.mfaCredentials.row_key _ _ hrow
        refine next _ _ _ c₁ c w hid hrow hA
          (hk'.next (o := .updateCredential c'.id (MfaCredentialRepository.cols c₁ c')) (r := true) hF
            (hp.stmt rfl) (holds_credentialRow (m := .noKeyUpdate) nofun (List.mem_cons_self ..)) hrow
            fun w hF hG h => h.setCredentials hcr ?_)
        have h0 := h.credentials
        rw [hcr] at h0
        exact Table.Change.set_modify (f := (MfaCredentialRepository.cols c₁ c').apply) (fun _ => rfl) hid.symm (by rw [h0]; exact hG)

theorem run_setupMfa {claims : AccessTokenClaims} {csrf : Option String} {password : String} {ctx : AuditContext}
    (hreq : req i = .setupMfa claims csrf password ctx) (hw : w.tr = []) :
    (contract A req).Run i (handle env (req i)) [] id w := by
  rw [hreq]
  refine run_plain (fun w a e => by rw [hreq]; exact ⟨trivial, trivial⟩) ?_
  refine Logic.wp_bind.mpr (wp_requireAdminEnrollment (Knows.start w hw) (fun _ _ _ _ => trivial) fun w hk => ?_)
  refine Logic.wp_bind.mpr (Logic.wp_catchAll.mpr ?_)
  refine Logic.wp_bind.mpr (wp_query hk (fun _ => rfl) (fun _ _ => rfl) rfl (fun _ _ => trivial)
    fun _ _ w u _ _ _ hk => ?_)
  split
  · trivial
  rename_i u' _
  split
  · trivial
  refine Logic.wp_bind.mpr (wp_query hk (fun _ => rfl) (fun _ _ => rfl) rfl (fun _ _ => trivial)
    fun _ _ w existing _ _ _ hk => ?_)
  split
  · trivial
  rename_i hpending
  refine Logic.wp_bind.mpr (wp_query hk (fun _ => rfl) (fun _ _ => rfl) rfl (fun _ _ => trivial)
    fun _ _ w secret _ _ _ hk => ?_)
  refine Logic.wp_bind.mpr (wp_query hk (fun _ => rfl) (fun _ _ => rfl) rfl (fun _ _ => trivial)
    fun _ _ w ciphertext _ _ _ hk => ?_)
  cases existing with
  | none =>
    refine Logic.wp_bind.mpr (wp_insertCredential hk rfl (fun _ _ _ _ => trivial) fun L f w c G hu he ht hk => ?_)
    refine Logic.wp_bind.mpr (wp_audit hk (fun _ _ _ _ _ => trivial) fun L f w _ hk => ?_)
    exact ⟨_, _, _, hk, fun w h _ => by rw [hreq]; exact .setupStarted hu ⟨he, ht⟩⟩
  | some c₀ =>
    have hpending : c₀.enabledAt = none := by simpa [MfaCredential.isEnabled] using hpending
    refine Logic.wp_bind.mpr (wp_saveCredentialUnlocked hk rfl (fun _ _ _ _ => trivial) (fun w hk => ?_)
      fun L f w c₁ c w₀ hid hrow met hk => ?_)
    · refine Logic.wp_bind.mpr (wp_audit hk (fun _ _ _ _ _ => trivial) fun L f w _ hk => ?_)
      exact ⟨_, _, _, hk, fun w h _ => by rw [hreq]; exact .setupUnchanged⟩
    · refine Logic.wp_bind.mpr (wp_audit hk (fun _ _ _ _ _ => trivial) fun L f w _ hk => ?_)
      refine ⟨_, _, _, hk, fun w h _ => ?_⟩
      rw [hreq]
      exact .setupRestarted hpending h.1.1.1.1.2 h.1.2 met hid hrow

/-! ## Recovery codes -/

theorem wp_issueRecoveryCodes {cid : Uuid} {Q : List String → List RowLock → (Db → Db) → World (store env) ι → Prop}
    {R : IdentityError → List RowLock → (Db → Db) → World (store env) ι → Prop} (hk : Knows A req i N L f w ch F)
    (hc : ch.codes = .within (MfaRecoveryCode.unusedOf cid)) (hR : ∀ e L f w, R e L f w)
    (next : ∀ L' f' w codes (G : World (store env) ι → Prop), Knows A req i N L' f' w ch (fun w => F w ∧ G w) →
      Q codes L' f' w) :
    (contract A req).wp i (issueRecoveryCodes env cid) L f w Q R := by
  refine Logic.wp_bind.mpr (wp_query hk (fun _ => rfl) (fun _ _ => rfl) rfl (fun _ _ => trivial)
    fun _ _ w codes _ _ _ hk => ?_)
  exact Logic.wp_bind.mpr (wp_addSet hk hc (fun _ _ _ => hR _ _ _ _) fun L f w _ hk => next L f w codes _ hk)

theorem run_regenerateRecoveryCodes {claims : AccessTokenClaims} {csrf : Option String} {password : String}
    {ctx : AuditContext} (hreq : req i = .regenerateRecoveryCodes claims csrf password ctx) (hw : w.tr = []) :
    (contract A req).Run i (handle env (req i)) [] id w := by
  rw [hreq]
  refine run_plain (fun w a e => by rw [hreq]; exact ⟨trivial, trivial⟩) ?_
  refine Logic.wp_bind.mpr (wp_requireCsrf (Knows.start w hw) (fun _ _ _ _ => trivial) fun w hk => ?_)
  refine Logic.wp_bind.mpr (wp_adminBoundary hk (fun _ _ _ _ => trivial) fun w hk => ?_)
  refine Logic.wp_bind.mpr (Logic.wp_catchAll.mpr ?_)
  refine Logic.wp_bind.mpr (wp_query hk (fun _ => rfl) (fun _ _ => rfl) rfl (fun _ _ => trivial)
    fun _ _ w u _ _ _ hk => ?_)
  split
  · trivial
  split
  · trivial
  refine Logic.wp_bind.mpr (wp_query hk (fun _ => rfl) (fun _ _ => rfl) rfl (fun _ _ => trivial)
    fun _ _ w c _ _ _ hk => ?_)
  split
  · trivial
  refine Logic.wp_bind.mpr (wp_deleteUnused hk rfl fun n L f w G _ hk => ?_)
  refine Logic.wp_bind.mpr (wp_issueRecoveryCodes hk rfl (fun _ _ _ _ => trivial) fun L f w codes G hk => ?_)
  refine Logic.wp_bind.mpr (wp_audit hk (fun _ _ _ _ _ => trivial) fun L f w _ hk => ?_)
  refine Logic.wp_bind.mpr (wp_now hk fun w now hk => ?_)
  exact ⟨_, _, _, hk, fun w h _ => by rw [hreq]; exact .regenerated⟩

/-! ## Confirmation of the setup -/

theorem MfaCredential.cols_confirm (c : MfaCredential) (step : ℤ) (now : Instant) :
    (MfaCredentialRepository.cols c ((c.enable now).recordTotpStep step now)).apply c =
      (c.enable now).recordTotpStep step now := by
  refine MfaCredentialRepository.cols_apply ?_
  unfold enable
  split <;> rfl

theorem MfaCredential.id_confirm (c : MfaCredential) (step : ℤ) (now : Instant) :
    ((c.enable now).recordTotpStep step now).id = c.id := by
  unfold enable
  split <;> rfl

theorem run_confirmMfaSetup {claims : AccessTokenClaims} {csrf : Option String} {code : String} {ctx : AuditContext}
    (hreq : req i = .confirmMfaSetup claims csrf code ctx) (hw : w.tr = []) :
    (contract A req).Run i (handle env (req i)) [] id w := by
  rw [hreq]
  refine run_plain (fun w a e => by rw [hreq]; exact ⟨trivial, trivial⟩) ?_
  refine Logic.wp_bind.mpr (wp_requireAdminEnrollment (Knows.start w hw) (fun _ _ _ _ => trivial) fun w hk => ?_)
  refine Logic.wp_bind.mpr (Logic.wp_catchAll.mpr ?_)
  refine wp_lockCredential hk (by decide) rfl (fun w _ => by rw [hreq]; exact nofun) (fun _ _ => trivial)
    fun w c pre hlast hk => ?_
  change (contract A req).wp i (if c.isEnabled then _ else _) _ _ _ _ _
  split
  · trivial
  rename_i hpending
  refine Logic.wp_bind.mpr (wp_nowAfter hk hlast fun w now hk => Logic.wp_ret.mpr (Logic.wp_bind.mpr ?_))
  generalize hv : verifyCodeStep env = verify
  unfold decryptSecret
  cases hsecret : env.decryptSecret c.secretCiphertext with
  | none => trivial
  | some secret =>
    refine Logic.wp_ret.mpr ?_
    cases hstep : verify secret code now with
    | none => trivial
    | some step =>
      refine Logic.wp_bind.mpr (wp_saveCredential hk rfl (fun w h => h.1.2) (MfaCredential.id_confirm c step now)
        (MfaCredential.cols_confirm c step now) fun L f w _ hk => ?_)
      refine Logic.wp_bind.mpr (wp_deleteUnused hk rfl fun n L f w G _ hk => ?_)
      refine Logic.wp_bind.mpr (wp_issueRecoveryCodes hk rfl (fun _ _ _ _ => trivial) fun L f w codes G hk => ?_)
      refine Logic.wp_bind.mpr (wp_audit hk (fun _ _ _ _ _ => trivial) fun L f w _ hk => ?_)
      refine Logic.wp_ret.mpr (Logic.wp_bind.mpr (wp_query hk (fun _ => rfl) (fun _ _ => rfl) rfl (fun w h => ?_)
        fun _ _ w _ _ _ _ hk => ?_))
      · rw [hreq]
        exact ⟨rfl, c, h.1.1.1.2.did⟩
      refine Logic.wp_bind.mpr (wp_now hk fun w now' hk => ?_)
      refine Logic.wp_bind.mpr (wp_mint hk (by decide) (fun w h => Or.inl ⟨claims, csrf, code, ctx, hreq⟩)
        fun w token hk => ?_)
      refine ⟨_, _, _, hk, fun w h _ => ?_⟩
      rw [hreq]
      subst hv
      have h' := h.1.1.1.1.1
      exact .confirmed h'.1.2 (by simpa using hpending) hsecret h'.2 hstep h.1.1.2

/-! ## Verification -/

theorem MfaRecoveryCode.redeem_unused {k : MfaRecoveryCode} {now : Instant} (h : k.usedAt = none) :
    k.redeem now = .ok { k with usedAt := some now } := by
  simp [redeem, isUsed, h]

section Verify

variable {challengeId : String} {code recovery ua : Option String} {ctx : AuditContext}

/-- A verification that has not committed may raise. -/
theorem Knows.ends (hreq : req i = .verifyMfa challengeId code recovery ua ctx) {e : IdentityError}
    (hk : Knows A req i N L f w ch F) (hu : ∀ w, F w → Fresh N w i → Unreplayed w i code recovery) :
    (contract A req).Ends i (.error e) L w := by
  intro w' hw
  have hp := hk.fresh.rely hw
  change Finishes w' i A (req i) _
  rw [hreq]
  exact Or.inr ⟨hp.uncommitted, hu w' (hk.holds.rely hw hk.now) hp⟩

theorem verifyError_raise (hreq : req i = .verifyMfa challengeId code recovery ua ctx) {e : IdentityError}
    (he : e ≠ .mfaCodeReplayed) (hk : Knows A req i N L f w ch F)
    (hu : ∀ w, F w → Fresh N w i → Unreplayed w i code recovery)
    {Q : MfaVerifyResult → List RowLock → (Db → Db) → World (store env) ι → Prop} :
    (contract A req).wp i (verifyError e) L f w Q fun e L _ w => (contract A req).Ends i (.error e) L w := by
  unfold verifyError
  split
  · exact absurd rfl he
  all_goals exact hk.ends hreq hu

/-- A replay commits its audit row, and no account was locked. -/
theorem verifyError_replayed {userId : Uuid} {c : MfaCredential} {step : ℤ} {now : Instant}
    (hreq : req i = .verifyMfa challengeId code recovery ua ctx) (hN : .lockUser ∈ N)
    (enabled : c.isEnabled = true) (hl : ∀ w, F w → LockedCredential w i userId c)
    (hr : ∀ w, F w → ReadAt w i userId c now) (spent : spentStep env c code recovery now = some step)
    (hk : Knows A req i N L f w { audits := [ctx.log userId "mfa.replay_rejected" "MfaCredential" (some c.id) none
      (some [("time_step", .int step)])] } F)
    {Q : MfaVerifyResult → List RowLock → (Db → Db) → World (store env) ι → Prop} :
    (contract A req).wp i (verifyError .mfaCodeReplayed) L f w Q
      fun e L _ w => (contract A req).Ends i (.error e) L w := by
  refine wp_commit hk (fun w hF hp => ?_) fun w hF hp w' hw => ?_
  · rw [hreq]
    exact .replayed (hl w hF) enabled (hr w hF) spent (hp.noneOf _ hN)
  · change Finishes w' i A (req i) _
    rw [hreq]
    exact Or.inl ⟨hw.mem_tr (by simp), noneOf_rely hw (noneOf_commit (hp.noneOf _ hN))⟩

/-- What `VerifyMfa` leaves for `CompleteMfaLogin`: an accepted factor of an enabled credential. -/
def Verified (A : World (store env) ι → Event (store env) ι → Prop) (req : ι → Request) (i : ι) (userId : Uuid)
    (code recovery : Option String) (ctx : AuditContext) (F : World (store env) ι → Prop) (L : List RowLock)
    (f : Db → Db) (w : World (store env) ι) : Prop :=
  ∃ (N : List Kind) (ch : Change) (c : MfaCredential) (G : World (store env) ι → Prop),
    (Kind.lockUser ∈ N ∧ Kind.insertSession ∈ N ∧ Kind.mint ∈ N) ∧ c.isEnabled = true ∧
    Knows A req i N L f w ch (fun w => F w ∧ LockedCredential w i userId c ∧ G w) ∧
    ch.users = .keep ∧ ch.sessions = .keep ∧ (∀ w, G w → Unreplayed w i code recovery) ∧
    ∀ w u x, G w → LockedCredential w i userId c → u.id = userId → x.userId = u.id → Opened w i u x →
      Allowed A w i (req i) { ch with sessions := .new x, audits := ch.audits ++ [ctx.loggedIn x] }

/-- What `acceptTotp` does, by the time step that the code matches. -/
theorem spentStep_totp {c : MfaCredential} {secret : String} (submitted : String) (now : Instant)
    (hsecret : env.decryptSecret c.secretCiphertext = some secret) :
    spentStep env c (some submitted) none now = match verifyCodeStep env secret submitted now with
      | none => none
      | some step => if c.isTotpStepReplayed step then some step else none := by
  simp only [spentStep, hsecret, Option.bind_eq_bind, Option.bind_some]
  generalize verifyCodeStep env secret submitted now = matched
  cases matched <;> rfl

theorem wp_acceptTotp {c : MfaCredential} {userId : Uuid} {code : Option String} {now : Instant}
    {Q : ℤ × ℕ → List RowLock → (Db → Db) → World (store env) ι → Prop}
    {Q' : MfaVerifyResult → List RowLock → (Db → Db) → World (store env) ι → Prop}
    (hreq : req i = .verifyMfa challengeId code none ua ctx) (hN : .lockUser ∈ N) (enabled : c.isEnabled = true)
    (hk : Knows A req i N L f w {} F) (hl : ∀ w, F w → LockedCredential w i userId c)
    (hr : ∀ w, F w → ReadAt w i userId c now) (hrow : ∀ w, F w → ∃ u, w.db.users.row userId = some u)
    (next : ∀ L' f' w secret submitted step n, code = some submitted →
      env.decryptSecret c.secretCiphertext = some secret → verifyCodeStep env secret submitted now = some step →
      c.isTotpStepReplayed step = false → Knows A req i N L' f' w
        { audits := [ctx.log userId "mfa.verified" "MfaCredential" (some c.id)] } F → Q (step, n) L' f' w) :
    (contract A req).wp i (acceptTotp env c userId code now ctx) L f w Q
      fun e L f w => (contract A req).wp i (verifyError e) L f w Q'
        fun e L _ w => (contract A req).Ends i (.error e) L w := by
  have other : spentStep env c code none now = none → ∀ {N} w, F w → Fresh N w i → Unreplayed w i code none :=
    fun h _ w hF _ => .other (hr w hF) h
  cases code with
  | none => exact verifyError_raise (e := .invalidMfaCode) (Q := Q') hreq (by decide) hk (other rfl)
  | some submitted =>
    refine Logic.wp_bind.mpr ?_
    unfold decryptSecret
    cases hsecret : env.decryptSecret c.secretCiphertext with
    | none =>
      exact verifyError_raise (e := .secretDecryption) (Q := Q') hreq (by decide) hk
        (other (by simp [spentStep, hsecret]))
    | some secret =>
      have hspent := spentStep_totp submitted now hsecret
      refine Logic.wp_ret.mpr ?_
      cases hstep : verifyCodeStep env secret submitted now with
      | none =>
        rw [hstep] at hspent
        exact verifyError_raise (e := .invalidMfaCode) (Q := Q') hreq (by decide) hk (other hspent)
      | some step =>
        rw [hstep] at hspent
        change (contract A req).wp i (if c.isTotpStepReplayed step then _ else _) _ _ _ _ _
        split
        · rename_i hreplayed
          simp only [hreplayed, if_true] at hspent
          refine Logic.wp_bind.mpr (wp_audit hk (fun w _ h hno _ => ?_) fun L f w _ hk =>
            verifyError_replayed hreq hN enabled hl hr hspent hk)
          -- the account that the challenge names is still there
          obtain ⟨u, hu⟩ := hrow w h
          have hkeep := (hk.rel w h).users userId
          rw [hu] at hkeep
          simp [AuditContext.log, Db.hasUser, hkeep] at hno
        · rename_i hnew
          simp only [hnew] at hspent
          refine Logic.wp_bind.mpr (wp_query hk (fun _ => rfl) (fun _ _ => rfl) rfl (fun _ _ => trivial)
            fun _ _ w n _ _ _ hk' => ?_)
          refine Logic.wp_bind.mpr (wp_audit (hk.forget hk') (fun _ _ _ _ hk =>
            verifyError_raise (e := .integrity) (Q := Q') hreq (by decide) hk (other hspent)) fun L f w _ hk => ?_)
          exact next L f w secret submitted step n rfl hsecret hstep (by simpa using hnew) hk

theorem wp_redeemRecoveryCode {c : MfaCredential} {userId : Uuid} {presented : String} {now : Instant}
    {Q : ℕ → List RowLock → (Db → Db) → World (store env) ι → Prop}
    {Q' : MfaVerifyResult → List RowLock → (Db → Db) → World (store env) ι → Prop}
    (hreq : req i = .verifyMfa challengeId code (some presented) ua ctx) (hN : .lockCode ∈ N)
    (hk : Knows A req i N L f w {} F) (hu : ∀ w, F w → Unreplayed w i code (some presented))
    (next : ∀ L' f' w k (n : ℕ), k.unusedOf c.id = true → k.codeHash = env.hashToken (env.normalizeCode presented) →
      Knows A req i (N.filter (· ≠ .lockCode)) L' f' w
        { codes := .set k (k.usedAtIs (some now))
          audits := [ctx.log userId "mfa.recovery_code_used" "MfaCredential" (some c.id) none
            (some [("remaining_recovery_codes", .int n)])] }
        (fun w => F w ∧ LockedCode w i c.id (env.hashToken (env.normalizeCode presented)) k) → Q n L' f' w) :
    (contract A req).wp i (redeemRecoveryCode env c userId presented now ctx) L f w Q
      fun e L f w => (contract A req).wp i (verifyError e) L f w Q'
        fun e L _ w => (contract A req).Ends i (.error e) L w := by
  refine wp_lockCode hk hN rfl (fun w _ => ⟨challengeId, code, presented, ua, ctx, hreq⟩)
    (fun w hk => verifyError_raise (e := .invalidRecoveryCode) (Q := Q') hreq (by decide) hk fun w h _ => hu w h)
    fun w k hcond hk => ?_
  obtain ⟨hun, hhash⟩ := Bool.and_eq_true_iff.mp hcond
  have hnone : k.usedAt = none := by
    simpa [MfaRecoveryCode.isUsed] using (Bool.and_eq_true_iff.mp hun).2
  simp only [Prog.ret_bind, MfaRecoveryCode.redeem_unused hnone]
  refine Logic.wp_bind.mpr (Logic.wp_ret.mpr (Logic.wp_bind.mpr (wp_saveCode hk rfl (fun w h => h.2.row)
    fun L f w _ hk => ?_)))
  refine Logic.wp_bind.mpr (wp_query hk (fun _ => rfl) (fun _ _ => rfl) rfl (fun _ _ => trivial)
    fun _ _ w n _ _ _ hk' => ?_)
  refine Logic.wp_bind.mpr (wp_audit (hk.forget hk') (fun _ _ _ _ hk =>
    verifyError_raise (e := .integrity) (Q := Q') hreq (by decide) hk fun w h _ => hu w h.1) fun L f w _ hk => ?_)
  exact next L f w k n hun (by simpa using hhash) hk

theorem wp_verifyMfa {userId : Uuid} (hreq : req i = .verifyMfa challengeId code recovery ua ctx)
    (hk : Knows A req i Kind.all [] id w {} F)
    (hget : ∀ w, F w → (∃ v, Did w i (.redisGet (.mfaChallenge challengeId)) (some v)) ∧
      Did w i (.redisDelete (.mfaChallenge challengeId)) ())
    (hrow : ∀ w, F w → ∃ u, w.db.users.row userId = some u)
    {Q' : MfaVerifyResult → List RowLock → (Db → Db) → World (store env) ι → Prop} :
    (contract A req).wp i (verifyMfa env userId code recovery ctx) [] id w
      (fun _ L f w => Verified A req i userId code recovery ctx F L f w)
      fun e L f w => (contract A req).wp i (verifyError e) L f w Q'
        fun e L _ w => (contract A req).Ends i (.error e) L w := by
  refine wp_lockCredential hk (by decide) rfl (fun w h => ?_)
    (fun w hk => verifyError_raise (e := .mfaNotEnrolled) (Q := Q') hreq (by decide) hk fun _ h _ => .missing h.2)
    fun w c pre hlast hk => ?_
  · rw [hreq]
    rintro _ _ _ _ _ ⟨⟩
    exact hget w h
  by_cases enabled : c.isEnabled = true
  · have hf : (some c).filter MfaCredential.isEnabled = some c := by simp [Option.filter, enabled]
    simp only [Prog.ret_bind, hf]
    refine Logic.wp_bind.mpr (wp_nowAfter hk hlast fun w now hk => ?_)
    cases recovery with
    | some presented =>
      refine Logic.wp_bind.mpr (wp_redeemRecoveryCode hreq (by decide) hk (fun w h => .other h.2 rfl)
        fun L f w k n hun hhash hk => ?_)
      refine Logic.wp_bind.mpr (wp_saveCredential hk rfl (fun w h => h.1.1.2) rfl
        (MfaCredentialRepository.cols_apply rfl) fun L f w _ hk => ?_)
      refine ⟨_, _, c, fun w => ReadAt w i userId c now ∧ LockedCode w i c.id _ k, ⟨by decide, by decide, by decide⟩,
        enabled, ⟨hk.holds.imp (fun w h => ⟨h.1.1.1, h.1.1.2, h.1.2, h.2⟩) fun w h => ⟨⟨⟨h.1, h.2.1⟩, h.2.2.1⟩, h.2.2.2⟩,
          ⟨hk.now.1.1.1, hk.now.1.1.2, hk.now.1.2, hk.now.2⟩,
          fun w h => hk.rel w ⟨⟨⟨h.1, h.2.1⟩, h.2.2.1⟩, h.2.2.2⟩, hk.fresh⟩, rfl, rfl,
        fun w h => .other h.1 rfl, fun w u x h hl hu hxu ho => ?_⟩
      rw [hreq, AuditContext.loggedIn, hxu]
      subst hu
      simp only [MfaRecoveryCode.unusedOf, MfaRecoveryCode.isUsed, Bool.and_eq_true, decide_eq_true_eq,
        Bool.not_eq_true', Option.isSome_eq_false_iff, Option.isNone_iff_eq_none] at hun
      exact .verifiedRecovery hl enabled h.2.did hun.1 hhash hun.2 ho
    | none =>
      refine Logic.wp_bind.mpr (wp_acceptTotp hreq (by decide) enabled hk (fun w h => h.1.2) (fun w h => h.2)
        (fun w h => hrow w h.1.1) fun L f w secret submitted step n hcode hsecret hstep hnew hk => ?_)
      refine Logic.wp_bind.mpr (wp_saveCredential hk rfl (fun w h => h.1.2) rfl
        (MfaCredentialRepository.cols_apply rfl) fun L f w _ hk => ?_)
      have unspent : spentStep env c code none now = none := by
        rw [hcode, spentStep_totp submitted now hsecret, hstep]
        simp [hnew]
      refine ⟨_, _, c, fun w => ReadAt w i userId c now, ⟨by decide, by decide, by decide⟩, enabled,
        ⟨hk.holds.imp (fun w h => ⟨h.1.1, h.1.2, h.2⟩) fun w h => ⟨⟨h.1, h.2.1⟩, h.2.2⟩,
          ⟨hk.now.1.1, hk.now.1.2, hk.now.2⟩, fun w h => hk.rel w ⟨⟨h.1, h.2.1⟩, h.2.2⟩, hk.fresh⟩, rfl, rfl,
        fun w h => .other h unspent, fun w u x h hl hu hxu ho => ?_⟩
      rw [hreq, hcode, AuditContext.loggedIn, hxu]
      subst hu
      exact .verifiedTotp hl enabled hsecret h hstep hnew ho
  · have hf : (some c).filter MfaCredential.isEnabled = none := by simp [Option.filter, enabled]
    simp only [Prog.ret_bind, hf]
    exact verifyError_raise (e := .mfaNotEnrolled) (Q := Q') hreq (by decide) hk fun w h _ =>
      .disabled h.2.did (by simpa using enabled)

theorem run_verifyMfa (hreq : req i = .verifyMfa challengeId code recovery ua ctx) (hw : w.tr = []) :
    (contract A req).Run i (handle env (req i)) [] id w := by
  rw [hreq]
  refine run_transaction ?_
  have unlocked : ∀ {F : World (store env) ι → Prop} (w : World (store env) ι), F w → Fresh Kind.all w i →
      Unreplayed w i code recovery := fun w _ hp => .unlocked (hp.noneOf _ (by decide))
  refine Logic.wp_bind.mpr (Logic.wp_bind.mpr (wp_query (Knows.start w hw) (fun _ => rfl) (fun _ _ => rfl) rfl
    (fun _ _ => trivial) fun _ _ w raw _ _ _ hk => Logic.wp_ret.mpr ?_))
  refine Logic.wp_bind.mpr (wp_query hk (fun _ => rfl) (fun _ _ => rfl) rfl (fun _ _ => trivial)
    fun _ _ w _ _ _ _ hk => ?_)
  split
  · exact hk.ends hreq unlocked
  · rename_i pending hpending
    obtain ⟨userId, epoch⟩ := pending
    have hraw : raw = some (.challenge userId epoch) := by
      split at hpending
      · cases hpending; rfl
      · cases hpending
    subst hraw
    refine Logic.wp_bind.mpr (wp_read hk (fun _ => rfl) (fun _ _ => rfl) rfl (fun _ _ => trivial)
      fun w _ current _ _ hr _ hk => Logic.wp_ret.mpr ?_)
    split
    · exact hk.ends hreq unlocked
    · rename_i hepoch
      have hrow : ∃ u, w.db.users.row userId = some u := by
        have hr : current = (w.db.users.row userId).map User.authEpoch := hr
        rw [← show some epoch = current by simpa using hepoch] at hr
        obtain ⟨u, hu, -⟩ := Option.map_eq_some_iff.mp hr.symm
        exact ⟨u, hu⟩
      have hk := hk.and (holds_userRow (L := [])) hrow
      refine Logic.wp_bind.mpr (Logic.wp_catchAll.mpr (Logic.wp_mono (wp_verifyMfa hreq hk (fun w h =>
        ⟨⟨_, h.1.1.1.2⟩, h.1.1.2⟩) fun w h => h.2) (fun res L f w hv => ?_) fun _ _ _ _ h => h))
      obtain ⟨N, ch, c, G, ⟨hU, hI, hM⟩, enabled, hk, hu, hs, unspent, allowed⟩ := hv
      refine Logic.wp_bind.mpr (Logic.wp_catchAll.mpr (wp_completeMfaLogin hk hU hI hM hu hs
        (fun w u h hid he => ?_) (by rw [hreq]; simp)
        (fun _ _ _ _ _ _ _ hF hk => hk.ends hreq fun w h _ => unspent w (hF w h).2.2)
        fun N L f w u x res H hid hres hxu ht hk => ?_))
      · rw [hreq]
        subst hid
        subst he
        exact h.1.1.1.1.2
      · refine Logic.wp_bind.mpr (wp_query hk (fun _ => rfl) (fun _ _ => rfl) rfl (fun w h => ?_)
          fun _ _ w _ _ _ _ hk => ?_)
        · rw [hreq]
          exact ⟨x, c, hres.symm, h.2.1.did, by rw [hxu, hid]; exact h.1.2.1.did, enabled⟩
        · exact ⟨_, _, _, hk, fun w h _ => allowed w u x h.1.1.2.2 h.1.1.2.1 hid hxu h.1.2.1,
            fun w h => by rw [hreq]; exact ⟨_, rfl, x, h.1.2.1.did, ht⟩⟩

end Verify

end Bekaa3D.Identity
