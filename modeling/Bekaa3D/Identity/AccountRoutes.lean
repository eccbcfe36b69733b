import Bekaa3D.Identity.SessionRoutes

/-!
# Identity.AccountRoutes — password resets, e-mail verification and account changes keep the contract
-/

namespace Bekaa3D.Identity

open Txn

variable {env : Env} {ι : Type} [DecidableEq ι] {A : World (store env) ι → Event (store env) ι → Prop}
  {req : ι → Request} {i : ι} {N : List Kind} {L : List RowLock} {f : Db → Db} {w : World (store env) ι} {ch : Change}
  {F : World (store env) ι → Prop}

/-! ## Password resets -/

theorem PasswordResetToken.markUsed_ok {t t' : PasswordResetToken} {now : Instant} (h : t.markUsed now = .ok t') :
    t.usedAt = none ∧ t' = { t with usedAt := some now } := by
  unfold markUsed isUsed at h
  split at h
  · cases h
  · rename_i hu
    split at h
    · cases h
    · cases h
      exact ⟨by simpa using hu, rfl⟩

theorem run_confirmPasswordReset {raw password : String} {ctx : AuditContext}
    (hreq : req i = .confirmPasswordReset raw password ctx) (hw : w.tr = []) :
    (contract A req).Run i (handle env (req i)) [] id w := by
  rw [hreq]
  refine run_plain (fun w a e => by rw [hreq]; exact ⟨trivial, trivial⟩) ?_
  refine Logic.wp_bind.mpr (Logic.wp_catchAll.mpr ?_)
  refine wp_lockToken (Knows.start w hw) (by decide) rfl (fun _ => trivial) fun w t hk => ?_
  refine wp_lockUser hk (by decide) rfl (fun _ _ _ _ _ _ => trivial) fun w u hid hk => ?_
  by_cases can : u.canAuthenticate = true
  · have hf : (some u).filter User.canAuthenticate = some u := by simp [Option.filter, can]
    simp only [Prog.ret_bind, hf]
    refine Logic.wp_bind.mpr (wp_now hk fun w now hk => ?_)
    refine Logic.wp_bind.mpr ?_
    cases hm : t.markUsed now with
    | error e => trivial
    | ok t' =>
      obtain ⟨hun, rfl⟩ := PasswordResetToken.markUsed_ok hm
      refine Logic.wp_ret.mpr (Logic.wp_bind.mpr (wp_query hk (fun _ => rfl) (fun _ _ => rfl) rfl
        (fun w h => ⟨_, _, h.1.2.did⟩) fun _ _ w h _ _ _ hk => ?_))
      refine Logic.wp_bind.mpr (wp_saveToken hk rfl (fun w h => h.1.1.1.2) fun L₁ f w hL₁ hk => ?_)
      refine Logic.wp_bind.mpr (wp_saveUser hk rfl (fun w h => h.1.1.2) rfl (UserRepository.cols_apply rfl)
        fun L₂ f w hL₂ hk => ?_)
      refine Logic.wp_bind.mpr (wp_consumeOutstandingForUser (u := u.id) hk rfl (fun w h => h.1.1.1.2) ?_
        (hL₂ _ (hL₁ _ (by simp))) (hL₂ _ (hL₁ _ (by simp))) fun n L₃ f w G hL₃ hk => ?_)
      · simp [PasswordResetToken.unusedOf, PasswordResetToken.isUsed, hun, hid]
      refine Logic.wp_bind.mpr (wp_revokeAllForUser (u := u.id) hk rfl (fun w h => ⟨u, rfl, h.1.1.1.2.did⟩)
        (hL₃ _ (hL₂ _ (hL₁ _ (by simp)))) fun m ids L₄ f w G' _ hk => ?_)
      refine wp_audit hk (fun _ _ _ _ _ => trivial) fun L f w _ hk => ?_
      refine ⟨_, _, _, hk, fun w hF _ => ?_⟩
      rw [hreq]
      have h := hF.1.1
      exact .reset h.1.1.1.2 hun h.1.1.2 hid.symm can h.2
  · have hf : (some u).filter User.canAuthenticate = none := by simp [Option.filter, can]
    simp only [Prog.ret_bind, hf]
    trivial

/-- The insertion of a new reset token. -/
theorem wp_insertToken {userId : Uuid} {hash : String} {expiresAt : Instant} {α : Type}
    {k : Option PasswordResetToken → Handler α} {Q : α → List RowLock → (Db → Db) → World (store env) ι → Prop}
    {R : IdentityError → List RowLock → (Db → Db) → World (store env) ι → Prop} (hk : Knows A req i N L f w ch F)
    (hN : .insertToken ∈ N) (ht : ch.tokens = .keep)
    (refused : ∀ w, (contract A req).wp i (k none) L f w Q R)
    (next : ∀ L' f' w t (G : World (store env) ι → Prop), t.usedAt = none →
      Knows A req i (N.filter (· ≠ .insertToken)) L' f' w { ch with tokens := .new t }
        (fun w => F w ∧ Did w i (.insertResetToken userId hash expiresAt) (some t) ∧ G w) →
      (contract A req).wp i (k (some t)) L' f' w Q R) :
    (contract A req).wp i (.call (.insertResetToken userId hash expiresAt) k) L f w Q R := by
  refine wp_step hk (fun k hk => by cases hk; exact hN) (fun _ _ => trivial) fun w free r hF hrel hp hr hA => ?_
  cases r with
  | none => exact refused _
  | some t =>
    have hr' : t = ⟨t.id, userId, hash, expiresAt, none, t.createdAt⟩ ∧
      (f w.db).passwordResetTokens.row t.id = none ∧ _ := hr
    have hnone : w.db.passwordResetTokens.row t.id = none := by
      have h := hrel.tokens
      rw [ht] at h
      rw [← h]
      exact hr'.2.1
    let o : Op := .insertResetToken userId hash expiresAt
    have hG : (contract A req).Holds i (need o (some t) ++ L) fun w => w.db.passwordResetTokens.row t.id = none :=
      ⟨fun hw h => by rw [hw.prot ⟨.passwordResetToken t.id, .update⟩ (List.mem_cons_self ..) nofun, h],
        fun _ _ h => h⟩
    refine next _ _ _ t _ (by rw [hr'.1]) (hk.next (o := o) (r := some t) hF (hp.spend rfl)
      ((holds_did o (some t)).and hG) ⟨did_self, hnone⟩ fun w hF hG h => h.setTokens ht ?_)
    have h0 := h.tokens
    rw [ht] at h0
    exact Table.Change.new_insert (by rw [h0]; exact hG.2)

theorem run_requestPasswordReset {email : String} {ctx : AuditContext}
    (hreq : req i = .requestPasswordReset email ctx) (hw : w.tr = []) :
    (contract A req).Run i (handle env (req i)) [] id w := by
  rw [hreq]
  refine run_plain (fun w a e => by rw [hreq]; exact ⟨trivial, trivial⟩) ?_
  have quiet : ∀ {N : List Kind} {L : List RowLock} {w : World (store env) ι} {F : World (store env) ι → Prop},
      .insertToken ∈ N → Knows A req i N L id w {} F → Commits A req i L id w := fun hN hk =>
    ⟨_, _, _, hk, fun w _ hp => by rw [hreq]; exact .resetNotRequested (hp.noneOf _ hN)⟩
  refine Logic.wp_bind.mpr (wp_readUser (Knows.start w hw) (by decide) rfl fun w r hk => ?_)
  cases r with
  | none => exact quiet (by decide) hk
  | some u =>
    have issue : ∀ {w : World (store env) ι} {F : World (store env) ι → Prop},
        Knows A req i (Kind.all.filter (· ≠ .readUser)) [] id w {} F →
        (contract A req).wp i (do
          issuePasswordResetEmail env u
          AuditLogRepository.add (ctx.log u.id "user.password_reset_requested" "User" (some u.id))) [] id w
          (fun _ L f w => Commits A req i L f w) fun _ _ _ _ => True := by
      intro w F hk
      refine Logic.wp_bind.mpr (Logic.wp_bind.mpr (wp_query hk (fun _ => rfl) (fun _ _ => rfl) rfl
        (fun _ _ => trivial) fun _ _ w raw _ _ _ hk => ?_))
      refine Logic.wp_bind.mpr (wp_now hk fun w now hk => ?_)
      refine Logic.wp_bind.mpr (wp_insertToken hk (by decide) rfl (fun _ => trivial) fun L f w t G hun hk => ?_)
      refine Logic.wp_ret.mpr (wp_outbox hk (fun _ _ => trivial) fun L f w _ hk => ?_)
      refine wp_audit hk (fun _ _ _ _ _ => trivial) fun L f w _ hk => ?_
      exact ⟨_, _, _, hk, fun w h _ => by rw [hreq]; exact .resetRequested h.2.1 hun⟩
    change (contract A req).wp i (Prog.bind (if !u.canAuthenticate then _ else _) _) _ _ _ _ _
    refine Logic.wp_bind.mpr ?_
    split
    · exact quiet (by decide) hk
    · refine Logic.wp_bind.mpr (wp_query hk (fun _ => rfl) (fun _ _ => rfl) rfl (fun _ _ => trivial)
        fun _ _ w latest _ _ _ hk => ?_)
      cases latest with
      | none => exact issue hk
      | some latest =>
        refine Logic.wp_bind.mpr (wp_now hk fun w now hk => Logic.wp_ret.mpr ?_)
        split
        · exact issue hk
        · exact quiet (by decide) hk

/-! ## E-mail verification -/

theorem VerificationToken.markUsed_ok {t t' : VerificationToken} {now : Instant} (h : t.markUsed now = .ok t') :
    t.usedAt = none ∧ t' = { t with usedAt := some now } := by
  unfold markUsed isUsed at h
  split at h
  · cases h
  · rename_i hu
    split at h
    · cases h
    · cases h
      exact ⟨by simpa using hu, rfl⟩

theorem User.markVerified_ok {u u' : User} {now : Instant} (h : u.markVerified now = .ok u') :
    u.isVerified = false ∧ u' = { u with emailVerifiedAt := some now } := by
  unfold markVerified at h
  split at h
  · cases h
  · rename_i hu
    cases h
    exact ⟨by simpa using hu, rfl⟩

theorem holds_user {k : Uuid} {u : User} {m : LockMode} (hm : m ≠ .keyShare) (h : ⟨.user k, m⟩ ∈ L) :
    (contract A req).Holds i L fun w => w.db.users.row k = some u :=
  ⟨fun hw hu => by rw [(hw.prot _ h hm).1, hu], fun _ _ h => h⟩

/-- Transaction `i`, which knows `F`, reads the account that it is about to save as `u'` once more: `u₁`. -/
structure Rereads (A : World (store env) ι → Event (store env) ι → Prop) (i : ι) (F : World (store env) ι → Prop)
    (u' u₁ : User) (w₁ : World (store env) ι) : Prop where
  now : F w₁
  id : u₁.id = u'.id
  met : A w₁ ⟨i, .stmt (.selectUser u'.id) (some u₁)⟩
  row : w₁.db.users.row u'.id = some u₁

/-- Saving an account that was read without a lock: the columns that differ from the re-read row are written to
the row as it is by then. -/
theorem wp_saveUserUnlocked {u' : User} {Q : Unit → List RowLock → (Db → Db) → World (store env) ι → Prop}
    {R : IdentityError → List RowLock → (Db → Db) → World (store env) ι → Prop}
    (hk : Knows A req i N L f w ch F) (hu : ch.users = .keep) (hR : ∀ e L f w, R e L f w)
    (same : ∀ w u₁ w₁, Rereads A i F u' u₁ w₁ → u₁.emailVerifiedAt = u'.emailVerifiedAt →
      Knows A req i N L f w ch F → Q () L f w)
    (next : ∀ L' f' w u₁ u w₁ (w₀ : World (store env) ι), Rereads A i F u' u₁ w₁ → u.id = u'.id →
      A w₀ ⟨i, .stmt (.updateUser u'.id (UserRepository.cols u₁ u')) true⟩ → w₀.db.users.row u'.id = some u →
      Knows A req i N L' f' w { ch with users := .set u ((UserRepository.cols u₁ u').apply u) }
        (fun w => F w ∧ w.db.users.row u'.id = some u) → Q () L' f' w) :
    (contract A req).wp i (UserRepository.save u') L f w Q R := by
  refine wp_read hk (fun _ => rfl) (fun _ _ => rfl) rfl (fun _ _ => trivial) fun w free r hF hrel hr hA hk' => ?_
  cases r with
  | none => exact hR _ _ _ _
  | some u₁ =>
    have hread : Rereads A i F u' u₁ w := by
      refine ⟨hF, (f w.db).users.row_key _ _ (Eq.symm hr), hA, ?_⟩
      rw [← hk.users_keep hu w hF]
      exact Eq.symm hr
    have hk := hk.forget hk'
    change (contract A req).wp i (if decide (UserRepository.cols u₁ u' = {}) then _ else _) L f _ Q R
    split
    · rename_i hcols
      have hcols : UserRepository.cols u₁ u' = {} := by simpa using hcols
      exact same _ u₁ w hread (eq_of_changed (congrArg UserCols.emailVerifiedAt hcols)) hk
    · refine wp_step hk nofun (fun _ _ => trivial) fun w₀ free r hF hrel hp hr hA => ?_
      cases r with
      | false => exact hR _ _ _ _
      | true =>
        obtain ⟨u, hu'⟩ := Option.isSome_iff_exists.mp (Eq.symm hr)
        have hrow : w₀.db.users.row u'.id = some u := by
          rw [← hk.users_keep hu w₀ hF]
          exact hu'
        have hid : u.id = u'.id := w₀.db.users.row_key _ _ hrow
        refine next _ _ _ u₁ u w w₀ hread hid hA hrow (hk.next
          (o := .updateUser u'.id (UserRepository.cols u₁ u')) (r := true) hF
          (hp.stmt rfl) (holds_user (m := .noKeyUpdate) nofun (List.mem_cons_self ..)) hrow
          fun w hF hG h => h.setUsers hu ?_)
        have h0 := h.users
        rw [hu] at h0
        exact Table.Change.set_modify (f := (UserRepository.cols u₁ u').apply) (fun _ => rfl) hid.symm (by rw [h0]; exact hG)

theorem wp_saveVerificationToken {t : VerificationToken}
    {Q : Unit → List RowLock → (Db → Db) → World (store env) ι → Prop}
    {R : IdentityError → List RowLock → (Db → Db) → World (store env) ι → Prop}
    (hk : Knows A req i N L f w ch F) (hv : ch.verifications = .keep) (hR : ∀ e L f w, R e L f w)
    (next : ∀ L' f' w, Knows A req i N L' f' w { ch with verifications := .within fun t' => t'.id = t.id } F →
      Q () L' f' w) :
    (contract A req).wp i (VerificationTokenRepository.save t) L f w Q R := by
  have keep : ∀ {w : World (store env) ι} {db' : Db}, ch.Rel w.db db' →
      Table.Change.keep.Rel w.db.verificationTokens db'.verificationTokens := fun h => by
    have h' := h.verifications
    rwa [hv] at h'
  refine wp_read hk (fun _ => rfl) (fun _ _ => rfl) rfl (fun _ _ => trivial) fun w free r hF hrel hr hA hk' => ?_
  have hk := hk.forget hk'
  cases r with
  | none => exact hR _ _ _ _
  | some t₁ =>
    change (contract A req).wp i (if decide (t₁.usedAt = t.usedAt) then _ else _) L f _ Q R
    split
    · exact next _ _ _ (hk.change fun w _ h => ⟨h.users, h.sessions, h.tokens, h.credentials, h.codes, h.audits,
        h.mails, (keep h).within_keep⟩)
    · refine wp_step hk nofun (fun _ _ => trivial) fun w free r hF hrel hp hr hA => ?_
      cases r with
      | false => exact hR _ _ _ _
      | true =>
        refine next _ _ _ ⟨hk.holds.need (.updateVerificationToken t.id t.usedAt) true, hk.holds.own _ _ hF,
          fun w h => ?_, hp.stmt rfl⟩
        have h := hk.rel w h
        exact ⟨h.users, h.sessions, h.tokens, h.credentials, h.codes, h.audits, h.mails,
          .within_modify (g := VerificationToken.usedAtIs t.usedAt) (fun _ => rfl) (keep h) fun v hk => by simpa using hk⟩

theorem run_verifyEmail {raw : String} {ctx : AuditContext} (hreq : req i = .verifyEmail raw ctx) (hw : w.tr = []) :
    (contract A req).Run i (handle env (req i)) [] id w := by
  rw [hreq]
  refine run_plain (fun w a e => by rw [hreq]; exact ⟨trivial, trivial⟩) ?_
  refine Logic.wp_bind.mpr (Logic.wp_catchAll.mpr ?_)
  refine Logic.wp_bind.mpr (wp_readVerification (Knows.start w hw) (by decide) fun w t hk => Logic.wp_ret.mpr ?_)
  cases t with
  | none => trivial
  | some t =>
    refine Logic.wp_bind.mpr (wp_query hk (fun _ => rfl) (fun _ _ => rfl) rfl (fun _ _ => trivial)
      fun w₀ _ w u _ hrel hr hk => ?_)
    cases u with
    | none => trivial
    | some u =>
      have hid : u.id = t.userId := w₀.db.users.row_key _ _ (Eq.symm hr)
      refine Logic.wp_bind.mpr (wp_now hk fun w now hk => ?_)
      refine Logic.wp_bind.mpr ?_
      cases ht : t.markUsed now with
      | error e => trivial
      | ok t' =>
        refine Logic.wp_ret.mpr (Logic.wp_bind.mpr ?_)
        cases hu : u.markVerified now with
        | error e => trivial
        | ok u' =>
          obtain ⟨unused, rfl⟩ := VerificationToken.markUsed_ok ht
          obtain ⟨unverified, rfl⟩ := User.markVerified_ok hu
          have redeemed : ∀ {w : World (store env) ι} {u₁ w₁}, Did w i (.selectVerificationTokenByHash (env.hashToken raw))
              (some t) → Rereads A i (fun w => ((True ∧ Did w i (.selectVerificationTokenByHash (env.hashToken raw))
                (some t)) ∧ Did w i (.selectUser t.userId) (some u)) ∧ Did w i .now now)
                { u with emailVerifiedAt := some now } u₁ w₁ → Redeemed A w i raw t u u₁ w₁ := fun hd h =>
            ⟨hd, unused, hid.symm, unverified, by rw [hid]; exact h.now.1.2, h.id, by rw [h.id]; exact h.met,
              by rw [h.id]; exact h.row⟩
          refine Logic.wp_ret.mpr (Logic.wp_bind.mpr (wp_saveUserUnlocked hk rfl (fun _ _ _ _ => trivial)
            (fun w u₁ w₁ hread he hk => ?_) fun L f w u₁ v w₁ w₀ hread hidv met hrow hk => ?_))
          · refine Logic.wp_bind.mpr (wp_saveVerificationToken hk rfl (fun _ _ _ _ => trivial) fun L f w hk => ?_)
            refine wp_audit hk (fun _ _ _ _ _ => trivial) fun L f w _ hk => ?_
            refine ⟨_, _, _, hk, fun w h _ => ?_⟩
            rw [hreq]
            exact @Allowed.emailUnchanged _ _ _ _ _ _ _ _ _ t u u₁ now w₁ (redeemed h.1.1.2 hread) he
          · refine Logic.wp_bind.mpr (wp_saveVerificationToken hk rfl (fun _ _ _ _ => trivial) fun L f w hk => ?_)
            refine wp_audit hk (fun _ _ _ _ _ => trivial) fun L f w _ hk => ?_
            refine ⟨_, _, _, hk, fun w h _ => ?_⟩
            rw [hreq]
            exact .verifiedEmail (redeemed h.1.1.1.2 hread) hidv met hrow

/-! ## Accounts -/

theorem wp_setUserActive {claims : AccessTokenClaims} {csrf : Option String} {userId : Uuid} {isActive : Bool}
    {ctx : AuditContext} {R : IdentityError → List RowLock → (Db → Db) → World (store env) ι → Prop}
    (hreq : req i = .updateUser claims csrf userId isActive ctx) (hk : Knows A req i Kind.all [] id w {} F)
    (hR : ∀ e L f w, R e L f w) :
    (contract A req).wp i (setUserActive userId isActive claims.userId ctx) [] id w
      (fun r L f w => r.isSome → Commits A req i L f w) R := by
  refine wp_lockUser hk (by decide) rfl (fun _ _ _ _ _ _ => nofun) fun w u hid hk => ?_
  change (contract A req).wp i (if (u.anonymizedAt.isSome || u.deletedAt.isSome) = true then _ else _) _ _ _ _ _
  split
  · exact hR _ _ _ _
  refine Logic.wp_bind.mpr (wp_now hk fun w now hk => ?_)
  by_cases same : isActive = u.isActive
  · have h0 : u.setActive isActive = (false, u) := if_pos same
    simp only [h0]
    intro _
    refine ⟨_, _, _, hk, fun w h _ => ?_⟩
    rw [hreq]
    subst hid
    exact .userUnchanged h.1.2.did same
  · have h0 : u.setActive isActive = (true, { u with isActive := isActive }) := if_neg same
    simp only [h0]
    cases isActive with
    | true =>
      have inactive : u.isActive = false := Bool.eq_false_iff.mpr fun h => same h.symm
      simp only [inactive, Bool.false_and, Bool.not_true, Bool.false_eq_true, if_false]
      refine Logic.wp_bind.mpr (wp_saveUser hk rfl (fun w h => h.1.2) rfl (UserRepository.cols_apply rfl)
        fun L₁ f w hL₁ hk => ?_)
      refine Logic.wp_bind.mpr (Logic.wp_ret.mpr (Logic.wp_bind.mpr (wp_audit hk (fun _ _ _ _ _ => hR _ _ _ _)
        fun L f w _ hk => ?_)))
      intro _
      refine ⟨_, _, _, hk, fun w h _ => ?_⟩
      rw [hreq]
      exact .userActivated h.1.2 hid inactive
    | false =>
      have active : u.isActive = true := by simpa using fun h : u.isActive = false => same h.symm
      simp only [active, Bool.not_false, Bool.and_self, Bool.not_true, Bool.false_eq_true, if_false, if_true]
      refine Logic.wp_bind.mpr (wp_saveUser hk rfl (fun w h => h.1.2) rfl (UserRepository.cols_apply rfl)
        fun L₁ f w hL₁ hk => ?_)
      refine Logic.wp_bind.mpr (wp_revokeAllForUser (u := u.id) hk rfl (fun w h => ⟨u, rfl, h.1.2.did⟩) (hL₁ _ (by simp))
        fun m ids L₂ f w G _ hk => ?_)
      refine Logic.wp_bind.mpr (wp_audit hk (fun _ _ _ _ _ => hR _ _ _ _) fun L f w _ hk => ?_)
      intro _
      refine ⟨_, _, _, hk, fun w h _ => ?_⟩
      rw [hreq]
      exact .userDeactivated h.1.1.2 hid active h.2.1 h.2.2.1

theorem run_updateUser {claims : AccessTokenClaims} {csrf : Option String} {userId : Uuid} {isActive : Bool}
    {ctx : AuditContext} (hreq : req i = .updateUser claims csrf userId isActive ctx) (hw : w.tr = []) :
    (contract A req).Run i (handle env (req i)) [] id w := by
  rw [hreq]
  refine run_plain (fun w a e => by rw [hreq]; exact ⟨trivial, trivial⟩) ?_
  refine Logic.wp_bind.mpr (wp_currentClaims (Knows.start w hw) (fun _ _ _ _ => trivial) fun w hk => ?_)
  refine Logic.wp_bind.mpr (wp_adminBoundary hk (fun _ _ _ _ => trivial) fun w hk => ?_)
  refine Logic.wp_bind.mpr (wp_checkCsrf (fun _ => trivial) ?_)
  refine Logic.wp_bind.mpr (Logic.wp_catchAll.mpr (Logic.wp_mono
    (wp_setUserActive hreq hk fun _ _ _ _ => trivial) (fun r L f w h => ?_) fun _ _ _ _ h => h))
  cases r with
  | none => trivial
  | some r => exact h rfl

/-! ## The rest of the system -/

theorem run_expire {key : RedisKey} (hreq : req i = .expire key) (hw : w.tr = []) :
    (contract A req).Run i (handle env (req i)) [] id w := by
  rw [hreq]
  refine run_plain (fun w a e => by rw [hreq]; exact ⟨trivial, trivial⟩) ?_
  refine wp_read (Knows.start w hw) (fun _ => rfl) (fun _ _ => rfl) rfl (fun _ _ => trivial) fun w _ _ _ _ _ _ hk => ?_
  exact ⟨_, _, _, hk, fun w _ _ => by rw [hreq]; exact .expired⟩

end Bekaa3D.Identity
