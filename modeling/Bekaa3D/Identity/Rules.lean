import Bekaa3D.Identity.Contract

/-!
# Identity.Rules — what the repositories do to a transaction half-way

One rule per repository method: from `Knows` before it to `Knows` after it, with the row it locked among the
facts or its table's part of the change.

* `wp_revokeAllForUser`, `wp_consumeOutstandingForUser`: a sweep row by row, under the lock of the account, is
  the one `UPDATE` it stands for.
-/

namespace Bekaa3D.Identity

open Txn

variable {env : Env} {ι : Type} [DecidableEq ι] {A : World (store env) ι → Event (store env) ι → Prop} {req : ι → Request}
  {i : ι} {N : List Kind} {L : List RowLock} {f : Db → Db} {w : World (store env) ι} {ch : Change}
  {F : World (store env) ι → Prop} {α : Type}
  {Q : α → List RowLock → (Db → Db) → World (store env) ι → Prop}
  {R : IdentityError → List RowLock → (Db → Db) → World (store env) ι → Prop}

/-! ## Reads -/

/-- A statement that locks and writes nothing, on its own. -/
theorem wp_query {o : Op} {Q : Resp o → List RowLock → (Db → Db) → World (store env) ι → Prop}
    (hk : Knows A req i N L f w ch F) (hn : ∀ r, need o r = []) (hw : ∀ r db, write o r db = db)
    (ho : o.kind = none) (hc : ∀ w, F w → Chk w i (req i) f o)
    (next : ∀ w free w' r, F w → ch.Rel w.db (f w.db) → resp env o (f w.db) w.mem free r →
      Knows A req i N L f w' ch (fun w => F w ∧ Did w i o r) → Q r L f w') :
    (contract A req).wp i (stmt o) L f w Q R :=
  wp_read hk hn hw ho hc fun w free r hF hrel hr _ hk' => next w free _ r hF hrel hr hk'

theorem wp_now {Q : Instant → List RowLock → (Db → Db) → World (store env) ι → Prop}
    (hk : Knows A req i N L f w ch F)
    (next : ∀ w now, Knows A req i N L f w ch (fun w => F w ∧ Did w i .now now) → Q now L f w) :
    (contract A req).wp i (stmt .now) L f w Q R :=
  wp_query hk (fun _ => rfl) (fun _ _ => rfl) rfl (fun _ _ => trivial) fun _ _ w' now _ _ _ hk' => next w' now hk'

/-- No account has a pending change. -/
theorem Knows.users_keep (hk : Knows A req i N L f w ch F) (hu : ch.users = .keep) (w : World (store env) ι)
    (hF : F w) : ∀ k, (f w.db).users.row k = w.db.users.row k := by
  have h := (hk.rel w hF).users
  rw [hu] at h
  exact h

theorem Knows.sessions_keep (hk : Knows A req i N L f w ch F) (hs : ch.sessions = .keep) (w : World (store env) ι)
    (hF : F w) : ∀ k, (f w.db).sessions.row k = w.db.sessions.row k := by
  have h := (hk.rel w hF).sessions
  rw [hs] at h
  exact h

/-- The account of an e-mail address, read without a lock. -/
theorem wp_readUser {email : String} {k : Option User → Handler α} (hk : Knows A req i N L f w ch F)
    (hN : .readUser ∈ N) (hu : ch.users = .keep)
    (next : ∀ w u, Knows A req i (N.filter (· ≠ .readUser)) L f w ch
        (fun w => F w ∧ Did w i (.selectUserByEmail email) u) →
      (contract A req).wp i (k u) L f w Q R) :
    (contract A req).wp i (.call (.selectUserByEmail email) k) L f w Q R := by
  refine wp_step hk (fun k hk => by cases hk; exact hN) (hk.users_keep hu) fun w free r hF _ hp hr hA => ?_
  exact next _ r (hk.next (o := .selectUserByEmail email) (r := r) hF (hp.spend rfl) (holds_did _ _) did_self
    fun w _ _ h => h)

theorem wp_readVerification {hash : String} {k : Option VerificationToken → Handler α}
    (hk : Knows A req i N L f w ch F) (hN : .readVerification ∈ N)
    (next : ∀ w t, Knows A req i (N.filter (· ≠ .readVerification)) L f w ch
        (fun w => F w ∧ Did w i (.selectVerificationTokenByHash hash) t) →
      (contract A req).wp i (k t) L f w Q R) :
    (contract A req).wp i (.call (.selectVerificationTokenByHash hash) k) L f w Q R := by
  refine wp_step hk (fun k hk => by cases hk; exact hN) (fun _ _ => trivial) fun w free r hF _ hp hr hA => ?_
  exact next _ r (hk.next (o := .selectVerificationTokenByHash hash) (r := r) hF (hp.spend rfl) (holds_did _ _)
    did_self fun w _ _ h => h)

/-! ## Locking reads -/

theorem wp_lockUser {userId : Uuid} {k : Option User → Handler α} (hk : Knows A req i N L f w ch F)
    (hN : .lockUser ∈ N) (hu : ch.users = .keep)
    (none : ∀ w₀ w, F w₀ → A w₀ ⟨i, .stmt (.selectUserForUpdate userId) none⟩ → w₀.db.users.row userId = none →
      Knows A req i (N.filter (· ≠ .lockUser)) L f w ch
        (fun w => F w ∧ Did w i (.selectUserForUpdate userId) none) →
      (contract A req).wp i (k none) L f w Q R)
    (some : ∀ w u, u.id = userId →
      Knows A req i (N.filter (· ≠ .lockUser)) (⟨.user u.id, .update⟩ :: L) f w ch
        (fun w => F w ∧ LockedUser w i u) →
      (contract A req).wp i (k (some u)) (⟨.user u.id, .update⟩ :: L) f w Q R) :
    (contract A req).wp i (.call (.selectUserForUpdate userId) k) L f w Q R := by
  have keep := hk.users_keep hu
  refine wp_step hk (fun k hk => by cases hk; exact hN) keep fun w free r hF hrel hp hr hA => ?_
  cases r with
  | none =>
    have hrow : w.db.users.row userId = Option.none := by rw [← keep w hF]; exact hr.symm
    exact none w _ hF hA hrow (hk.next (o := .selectUserForUpdate userId) (r := Option.none) hF (hp.spend rfl)
      (holds_did _ _) did_self fun w _ _ h => h)
  | some u =>
    have hrow : w.db.users.row userId = Option.some u := by rw [← keep w hF]; exact hr.symm
    have hid : u.id = userId := w.db.users.row_key _ _ hrow
    subst hid
    exact some _ u rfl (hk.next (o := .selectUserForUpdate u.id) (r := Option.some u) hF (hp.spend rfl)
      (holds_lockedUser (List.mem_cons_self ..)) ⟨did_self, hrow⟩ fun w _ _ h => h)

theorem wp_lockOwner {userId : Uuid} {k : Option User → Handler α} (hk : Knows A req i N L f w ch F)
    (hN : .lockUser ∈ N) (hu : ch.users = .keep)
    (next : ∀ L' w u, (∀ l ∈ L, l ∈ L') →
      (u = none → ∃ w₀, F w₀ ∧ A w₀ ⟨i, .stmt (.selectUserForUpdate userId) none⟩ ∧
        w₀.db.users.row userId = none) →
      Knows A req i (N.filter (· ≠ .lockUser)) L' f w ch (fun w => F w ∧ LockedOwner w i userId u) →
      (contract A req).wp i (k u) L' f w Q R) :
    (contract A req).wp i (.call (.selectUserForUpdate userId) k) L f w Q R := by
  refine wp_lockUser hk hN hu (fun w₀ w hF hA hrow hk => next L w none (fun _ h => h) (fun _ => ⟨w₀, hF, hA, hrow⟩) hk)
    fun w u hid hk => ?_
  subst hid
  refine next _ w (some u) (fun _ h => List.mem_cons_of_mem _ h) nofun ⟨hk.holds.imp (fun w h => ⟨h.1, h.2, rfl⟩)
    fun w h => ⟨h.1, h.2.1⟩, ⟨hk.now.1, hk.now.2, rfl⟩, fun w h => hk.rel w ⟨h.1, h.2.1⟩, hk.fresh⟩

theorem wp_lockSession {sessionId : Uuid} {k : Option Session → Handler α} (hk : Knows A req i N L f w ch F)
    (hN : .lockSession ∈ N) (hs : ch.sessions = .keep)
    (none : ∀ w, Knows A req i (N.filter (· ≠ .lockSession)) L f w ch
        (fun w => F w ∧ Did w i (.selectSessionForUpdate sessionId) none) →
      (contract A req).wp i (k none) L f w Q R)
    (some : ∀ w x pre, x.id = sessionId →
      w.own i = pre ++ [⟨i, .stmt (.selectSessionForUpdate x.id) (some x)⟩] →
      Knows A req i (N.filter (· ≠ .lockSession)) (⟨.session x.id, .update⟩ :: L) f w ch
        (fun w => F w ∧ LockedSession w i x) →
      (contract A req).wp i (k (some x)) (⟨.session x.id, .update⟩ :: L) f w Q R) :
    (contract A req).wp i (.call (.selectSessionForUpdate sessionId) k) L f w Q R := by
  have keep := hk.sessions_keep hs
  refine wp_step hk (fun k hk => by cases hk; exact hN) keep fun w free r hF hrel hp hr hA => ?_
  cases r with
  | none =>
    exact none _ (hk.next (o := .selectSessionForUpdate sessionId) (r := Option.none) hF (hp.spend rfl)
      (holds_did _ _) did_self fun w _ _ h => h)
  | some x =>
    have hrow : w.db.sessions.row sessionId = Option.some x := by rw [← keep w hF]; exact hr.symm
    have hid : x.id = sessionId := w.db.sessions.row_key _ _ hrow
    subst hid
    exact some _ x (w.own i) rfl (World.own_stmt _)
      (hk.next (o := .selectSessionForUpdate x.id) (r := Option.some x) hF (hp.spend rfl) (holds_lockedSession
        (List.mem_cons_self ..)) ⟨did_self, hrow⟩ fun w _ _ h => h)

theorem wp_lockToken {hash : String} {k : Option PasswordResetToken → Handler α} (hk : Knows A req i N L f w ch F)
    (hN : .lockToken ∈ N) (ht : ch.tokens = .keep)
    (none : ∀ w, (contract A req).wp i (k none) L f w Q R)
    (some : ∀ w t,
      Knows A req i (N.filter (· ≠ .lockToken)) (⟨.passwordResetToken t.id, .update⟩ :: L) f w ch
        (fun w => F w ∧ LockedToken w i hash t) →
      (contract A req).wp i (k (some t)) (⟨.passwordResetToken t.id, .update⟩ :: L) f w Q R) :
    (contract A req).wp i (.call (.selectResetTokenForUpdate hash) k) L f w Q R := by
  refine wp_step hk (fun k hk => by cases hk; exact hN) (fun _ _ => trivial) fun w free r hF hrel hp hr hA => ?_
  cases r with
  | none => exact none _
  | some t =>
    have h := hrel.tokens
    rw [ht] at h
    have hr' : (f w.db).passwordResetTokens.Picks (fun t => t.tokenHash = hash) (Option.some t) := hr
    have hrow : w.db.passwordResetTokens.row t.id = Option.some t := by rw [← h]; exact hr'.row
    exact some _ t (hk.next (o := .selectResetTokenForUpdate hash) (r := Option.some t) hF (hp.spend rfl)
      (holds_lockedToken (List.mem_cons_self ..)) ⟨did_self, hrow, by simpa using hr'.cond⟩ fun w _ _ h => h)

/-- The credential of `userId`, and its lock as the last thing that happened. -/
theorem wp_lockCredential {userId : Uuid} {k : Option MfaCredential → Handler α}
    (hk : Knows A req i N L f w ch F) (hN : .lockCredential ∈ N) (hcr : ch.credentials = .keep)
    (hc : ∀ w, F w → Chk w i (req i) f (.selectCredentialByUserForUpdate userId))
    (none : ∀ w, Knows A req i (N.filter (· ≠ .lockCredential)) L f w ch
        (fun w => F w ∧ Did w i (.selectCredentialByUserForUpdate userId) none) →
      (contract A req).wp i (k none) L f w Q R)
    (some : ∀ w c pre, w.own i = pre ++ [⟨i, .stmt (.selectCredentialByUserForUpdate userId) (some c)⟩] →
      Knows A req i (N.filter (· ≠ .lockCredential)) (⟨.mfaCredential c.id, .update⟩ :: L) f w ch
        (fun w => F w ∧ LockedCredential w i userId c) →
      (contract A req).wp i (k (some c)) (⟨.mfaCredential c.id, .update⟩ :: L) f w Q R) :
    (contract A req).wp i (.call (.selectCredentialByUserForUpdate userId) k) L f w Q R := by
  refine wp_step hk (fun k hk => by cases hk; exact hN) hc fun w free r hF hrel hp hr hA => ?_
  cases r with
  | none =>
    exact none _ (hk.next (o := .selectCredentialByUserForUpdate userId) (r := Option.none) hF (hp.spend rfl)
      (holds_did _ _) did_self fun w _ _ h => h)
  | some c =>
    have h := hrel.credentials
    rw [hcr] at h
    have hr' : (f w.db).mfaCredentials.Picks (fun c => c.userId = userId) (Option.some c) := hr
    have hrow : w.db.mfaCredentials.row c.id = Option.some c := by rw [← h]; exact hr'.row
    exact some _ c (w.own i) (World.own_stmt _)
      (hk.next (o := .selectCredentialByUserForUpdate userId) (r := Option.some c) hF (hp.spend rfl)
        (holds_lockedCredential (List.mem_cons_self ..)) ⟨did_self, hrow, by simpa using hr'.cond⟩
        fun w _ _ h => h)

/-- An account stays. -/
theorem holds_userRow {userId : Uuid} : (contract A req).Holds i L fun w => ∃ u, w.db.users.row userId = some u :=
  ⟨fun hw h => hw.gr.users _ _ h.choose_spec, fun _ _ h => h⟩

theorem holds_readAfter {o : Op} {r : Resp o} {now : Instant} :
    (contract A req).Holds i L fun w => ReadAfter w i o r now := by
  refine ⟨fun hw h => ?_, fun o' r' h => ?_⟩
  · unfold ReadAfter
    rw [hw.own]
    exact h
  · obtain ⟨pre, post, h⟩ := h
    exact ⟨pre, post ++ [⟨i, .stmt o' r'⟩], by rw [World.own_stmt, h]; simp⟩

/-- The clock reading right after the statement that ran last. -/
theorem wp_nowAfter {o : Op} {r : Resp o} {pre : List (Event (store env) ι)} {k : Instant → Handler α}
    (hk : Knows A req i N L f w ch F) (hlast : w.own i = pre ++ [⟨i, .stmt o r⟩])
    (next : ∀ w now, Knows A req i N L f w ch (fun w => F w ∧ ReadAfter w i o r now) →
      (contract A req).wp i (k now) L f w Q R) :
    (contract A req).wp i (.call .now k) L f w Q R := by
  intro w' hw
  have hF := hk.holds.rely hw hk.now
  have hp := hk.fresh.rely hw
  refine ⟨⟨hp.uncommitted, nofun, trivial⟩, fun free now hr hA => ?_⟩
  refine next _ now (hk.next (o := .now) hF (hp.stmt rfl) holds_readAfter ⟨pre, [], ?_⟩ fun w _ _ h => h)
  rw [World.own_stmt, hw.own, hlast, List.append_assoc]
  rfl

/-- The unused code that the presented one hashes to. -/
structure LockedCode (w : World (store env) ι) (i : ι) (cid : Uuid) (hash : String) (c : MfaRecoveryCode) :
    Prop where
  did : Did w i (.selectUnusedCodeForUpdate cid hash) (some c)
  row : w.db.mfaRecoveryCodes.row c.id = some c

theorem holds_lockedCode {cid : Uuid} {hash : String} {c : MfaRecoveryCode}
    (h : ⟨.mfaRecoveryCode c.id, .update⟩ ∈ L) : (contract A req).Holds i L fun w => LockedCode w i cid hash c := by
  refine ⟨fun hw hc => ⟨hw.mem_tr hc.did, ?_⟩, fun o r hc => ⟨World.mem_stmt hc.did, hc.row⟩⟩
  rw [hw.prot _ h nofun, hc.row]

theorem wp_lockCode {cid : Uuid} {hash : String} {k : Option MfaRecoveryCode → Handler α}
    (hk : Knows A req i N L f w ch F) (hN : .lockCode ∈ N) (hcc : ch.codes = .keep)
    (hc : ∀ w, F w → Chk w i (req i) f (.selectUnusedCodeForUpdate cid hash))
    (none : ∀ w, Knows A req i (N.filter (· ≠ .lockCode)) L f w ch F → (contract A req).wp i (k none) L f w Q R)
    (some : ∀ w c, (c.unusedOf cid && c.codeHash = hash) = true →
      Knows A req i (N.filter (· ≠ .lockCode)) (⟨.mfaRecoveryCode c.id, .update⟩ :: L) f w ch
        (fun w => F w ∧ LockedCode w i cid hash c) →
      (contract A req).wp i (k (some c)) (⟨.mfaRecoveryCode c.id, .update⟩ :: L) f w Q R) :
    (contract A req).wp i (.call (.selectUnusedCodeForUpdate cid hash) k) L f w Q R := by
  refine wp_step hk (fun k hk => by cases hk; exact hN) hc fun w free r hF hrel hp hr hA => ?_
  cases r with
  | none => exact none _ ⟨hk.holds, hk.holds.own _ _ hF, hk.rel, hp.spend rfl⟩
  | some c =>
    have h := hrel.codes
    rw [hcc] at h
    have hr' : (f w.db).mfaRecoveryCodes.Picks (fun c => c.unusedOf cid && c.codeHash = hash) (Option.some c) := hr
    have hrow : w.db.mfaRecoveryCodes.row c.id = Option.some c := by rw [← h]; exact hr'.row
    exact some _ c hr'.cond (hk.next (o := .selectUnusedCodeForUpdate cid hash) (r := Option.some c) hF
      (hp.spend rfl) (holds_lockedCode (List.mem_cons_self ..)) ⟨did_self, hrow⟩ fun w _ _ h => h)

/-! ## Audit and outbox rows -/

/-- The change with one more audit row. -/
def Change.log (ch : Change) (row : AuditLog) : Change := { ch with audits := ch.audits ++ [row] }

theorem Change.Rel.audit {db db' : Db} {row : AuditLog} (h : ch.Rel db db') :
    (ch.log row).Rel db (write (.insertAudit row) true db') := by
  refine ⟨h.users, h.sessions, h.tokens, h.credentials, h.codes, ?_, h.mails, h.verifications⟩
  change db'.auditLogs ++ [row] = db.auditLogs ++ (ch.audits ++ [row])
  rw [h.audits, List.append_assoc]

/-- The change with one more mail. -/
def Change.mail (ch : Change) (row : EmailOutbox) : Change := { ch with mails := ch.mails ++ [row] }

theorem Change.Rel.outbox {db db' : Db} {row : EmailOutbox} (h : ch.Rel db db') :
    (ch.mail row).Rel db (write (.insertOutbox row) true db') := by
  refine ⟨h.users, h.sessions, h.tokens, h.credentials, h.codes, h.audits, ?_, h.verifications⟩
  change db'.emailOutbox ++ [row] = db.emailOutbox ++ (ch.mails ++ [row])
  rw [h.mails, List.append_assoc]

theorem wp_audit {row : AuditLog} {Q : Unit → List RowLock → (Db → Db) → World (store env) ι → Prop}
    (hk : Knows A req i N L f w ch F)
    (refused : ∀ w w', F w → (f w.db).hasUser row.actorUserId = false → Knows A req i N L f w' ch F →
      R .integrity L f w')
    (next : ∀ L' f' w, (∀ l ∈ L, l ∈ L') → Knows A req i N L' f' w (ch.log row) F → Q () L' f' w) :
    (contract A req).wp i (AuditLogRepository.add row) L f w Q R := by
  refine wp_step hk nofun (fun _ _ => trivial) fun w free r hF hrel hp hr hA => ?_
  have hF' := hk.holds.own (.insertAudit row) r hF
  cases r with
  | false => exact refused w _ hF (Eq.symm hr) ⟨hk.holds, hF', hk.rel, hp.stmt rfl⟩
  | true =>
    exact next _ _ _ (fun _ h => List.mem_append_right _ h) ⟨hk.holds.need (.insertAudit row) Bool.true, hF',
      fun w h => (hk.rel w h).audit, hp.stmt rfl⟩

theorem wp_outbox {row : EmailOutbox} {Q : Unit → List RowLock → (Db → Db) → World (store env) ι → Prop}
    (hk : Knows A req i N L f w ch F) (refused : ∀ w, F w → R .integrity L f w)
    (next : ∀ L' f' w, (∀ l ∈ L, l ∈ L') → Knows A req i N L' f' w (ch.mail row) F → Q () L' f' w) :
    (contract A req).wp i (EmailOutboxRepository.add row) L f w Q R := by
  refine wp_step hk nofun (fun _ _ => trivial) fun w free r hF hrel hp hr hA => ?_
  cases r with
  | false => exact refused _ (hk.holds.own _ _ hF)
  | true =>
    exact next _ _ _ (fun _ h => List.mem_append_right _ h) ⟨hk.holds.need (.insertOutbox row) Bool.true,
      hk.holds.own _ _ hF, fun w h => (hk.rel w h).outbox, hp.stmt rfl⟩

/-! ## Who may call -/

theorem wp_currentClaims {claims : AccessTokenClaims}
    {Q : Unit → List RowLock → (Db → Db) → World (store env) ι → Prop} (hk : Knows A req i N L f w ch F)
    (hR : ∀ e L f w, R e L f w) (next : ∀ w, Knows A req i N L f w ch F → Q () L f w) :
    (contract A req).wp i (currentClaims claims) L f w Q R := by
  refine wp_read hk (fun _ => rfl) (fun _ _ => rfl) rfl (fun _ _ => trivial) fun w free r hF hrel hr hA hk' => ?_
  cases r with
  | none => exact hR _ _ _ _
  | some epoch =>
    change (contract A req).wp i (if claims.authEpoch ≠ epoch then _ else _) L f _ Q R
    split
    · exact hR _ _ _ _
    · exact next _ (hk.forget hk')

theorem wp_checkCsrf {sessionId : Uuid} {csrf : Option String}
    {Q : Unit → List RowLock → (Db → Db) → World (store env) ι → Prop} (hR : ∀ e, R e L f w)
    (next : Q () L f w) : (contract A req).wp i (checkCsrf env sessionId csrf) L f w Q R := by
  unfold checkCsrf
  split
  · exact next
  · exact hR _
  · exact hR _

theorem wp_requireCsrf {claims : AccessTokenClaims} {csrf : Option String}
    {Q : Unit → List RowLock → (Db → Db) → World (store env) ι → Prop} (hk : Knows A req i N L f w ch F)
    (hR : ∀ e L f w, R e L f w) (next : ∀ w, Knows A req i N L f w ch F → Q () L f w) :
    (contract A req).wp i (requireCsrf env claims csrf) L f w Q R := by
  exact Logic.wp_bind.mpr (wp_currentClaims hk hR fun w hk =>
    wp_checkCsrf (fun _ => hR _ _ _ _) (next w hk))

theorem wp_requireAdminEnrollment {claims : AccessTokenClaims} {csrf : Option String}
    {Q : Unit → List RowLock → (Db → Db) → World (store env) ι → Prop} (hk : Knows A req i N L f w ch F)
    (hR : ∀ e L f w, R e L f w) (next : ∀ w, Knows A req i N L f w ch F → Q () L f w) :
    (contract A req).wp i (requireAdminEnrollment env claims csrf) L f w Q R := by
  refine Logic.wp_bind.mpr (wp_requireCsrf hk hR fun w hk => ?_)
  split
  · exact hR _ _ _ _
  · exact next w hk

theorem wp_adminBoundary {claims : AccessTokenClaims}
    {Q : Unit → List RowLock → (Db → Db) → World (store env) ι → Prop} (hk : Knows A req i N L f w ch F)
    (hR : ∀ e L f w, R e L f w) (next : ∀ w, Knows A req i N L f w ch F → Q () L f w) :
    (contract A req).wp i (adminBoundary claims) L f w Q R := by
  unfold adminBoundary
  split
  · exact hR _ _ _ _
  · split
    · exact hR _ _ _ _
    · exact next w hk

/-! ## Changes of one row -/

section Rel

variable {db db' : Db}

theorem Change.Rel.setUsers {c : Table.Change User} {t : Table User.id} (h : ch.Rel db db')
    (hk : ch.users = .keep) (hc : c.Rel db'.users t) :
    Change.Rel { ch with users := c } db { db' with users := t } := by
  have h0 := h.users
  rw [hk] at h0
  exact ⟨Table.Change.Rel.keep_trans h0 hc, h.sessions, h.tokens, h.credentials, h.codes, h.audits, h.mails, h.verifications⟩

theorem Change.Rel.setSessions {c : Table.Change Session} {t : Table Session.id} (h : ch.Rel db db')
    (hk : ch.sessions = .keep) (hc : c.Rel db'.sessions t) :
    Change.Rel { ch with sessions := c } db { db' with sessions := t } := by
  have h0 := h.sessions
  rw [hk] at h0
  exact ⟨h.users, Table.Change.Rel.keep_trans h0 hc, h.tokens, h.credentials, h.codes, h.audits, h.mails, h.verifications⟩

theorem Change.Rel.setTokens {c : Table.Change PasswordResetToken} {t : Table PasswordResetToken.id}
    (h : ch.Rel db db') (hk : ch.tokens = .keep) (hc : c.Rel db'.passwordResetTokens t) :
    Change.Rel { ch with tokens := c } db { db' with passwordResetTokens := t } := by
  have h0 := h.tokens
  rw [hk] at h0
  exact ⟨h.users, h.sessions, Table.Change.Rel.keep_trans h0 hc, h.credentials, h.codes, h.audits, h.mails, h.verifications⟩

theorem Change.Rel.setCredentials {c : Table.Change MfaCredential} {t : Table MfaCredential.id}
    (h : ch.Rel db db') (hk : ch.credentials = .keep) (hc : c.Rel db'.mfaCredentials t) :
    Change.Rel { ch with credentials := c } db { db' with mfaCredentials := t } := by
  have h0 := h.credentials
  rw [hk] at h0
  exact ⟨h.users, h.sessions, h.tokens, Table.Change.Rel.keep_trans h0 hc, h.codes, h.audits, h.mails, h.verifications⟩

theorem Change.Rel.setCodes {c : Table.Change MfaRecoveryCode} {t : Table MfaRecoveryCode.id}
    (h : ch.Rel db db') (hk : ch.codes = .keep) (hc : c.Rel db'.mfaRecoveryCodes t) :
    Change.Rel { ch with codes := c } db { db' with mfaRecoveryCodes := t } := by
  have h0 := h.codes
  rw [hk] at h0
  exact ⟨h.users, h.sessions, h.tokens, h.credentials, Table.Change.Rel.keep_trans h0 hc, h.audits, h.mails, h.verifications⟩

end Rel

/-! ### Inserting a session, minting a token -/

theorem wp_insertSession {x : Session} {k : Bool → Handler α} (hk : Knows A req i N L f w ch F)
    (hN : .insertSession ∈ N) (hs : ch.sessions = .keep) (hc : ∀ w, F w → Chk w i (req i) f (.insertSession x))
    (refused : ∀ w, Knows A req i (N.filter (· ≠ .insertSession)) L f w ch F →
      (contract A req).wp i (k false) L f w Q R)
    (next : ∀ L' f' w (G : World (store env) ι → Prop), (∀ l ∈ L, l ∈ L') →
      Knows A req i (N.filter (· ≠ .insertSession)) L' f' w { ch with sessions := .new x }
        (fun w => F w ∧ Did w i (.insertSession x) true ∧ G w) →
      (contract A req).wp i (k true) L' f' w Q R) :
    (contract A req).wp i (.call (.insertSession x) k) L f w Q R := by
  refine wp_step hk (fun k hk => by cases hk; exact hN) hc fun w free r hF hrel hp hr hA => ?_
  have hF' := hk.holds.own (.insertSession x) r hF
  cases r with
  | false => exact refused _ ⟨hk.holds, hF', hk.rel, hp.spend rfl⟩
  | true =>
    have hnone : w.db.sessions.row x.id = none := by
      have h := hrel.sessions
      rw [hs] at h
      rw [← h]
      exact ((show true = true ↔ _ from hr).mp rfl).1
    have hG : (contract A req).Holds i (need (.insertSession x) true ++ L) fun w => w.db.sessions.row x.id = none :=
      ⟨fun hw h => by rw [hw.prot ⟨.session x.id, .update⟩ (List.mem_cons_self ..) nofun, h], fun _ _ h => h⟩
    refine next _ _ _ _ (fun _ h => List.mem_append_right _ h) (hk.next (o := .insertSession x) (r := true) hF
      (hp.spend rfl) ((holds_did _ _).and hG) ⟨did_self, hnone⟩ fun w hF hG h => h.setSessions hs ?_)
    have h0 := h.sessions
    rw [hs] at h0
    exact Table.Change.new_insert (by rw [h0]; exact hG.2)

theorem wp_mint {c : AccessTokenClaims} {now : Instant} {k : String → Handler α} (hk : Knows A req i N L f w ch F)
    (hN : .mint ∈ N) (hc : ∀ w, F w → Chk w i (req i) f (.issueAccessToken c now))
    (next : ∀ w r, Knows A req i (N.filter (· ≠ .mint)) L f w ch
        (fun w => F w ∧ Did w i (.issueAccessToken c now) r) → (contract A req).wp i (k r) L f w Q R) :
    (contract A req).wp i (.call (.issueAccessToken c now) k) L f w Q R := by
  refine wp_step hk (fun k hk => by cases hk; exact hN) hc fun w free r hF hrel hp hr hA => ?_
  exact next _ r (hk.next (o := .issueAccessToken c now) (r := r) hF (hp.spend rfl) (holds_did _ _) did_self
    fun w _ _ h => h)

/-! ### Saving a locked row

The re-read finds the row as it was locked, and the update writes it, or nothing changed. -/

theorem wp_saveUser {u u' : User} {Q : Unit → List RowLock → (Db → Db) → World (store env) ι → Prop}
    (hk : Knows A req i N L f w ch F) (hu : ch.users = .keep) (hl : ∀ w, F w → LockedUser w i u)
    (hid : u'.id = u.id) (hcols : (UserRepository.cols u u').apply u = u')
    (next : ∀ L' f' w, (∀ l ∈ L, l ∈ L') → Knows A req i N L' f' w { ch with users := .set u u' } F →
      Q () L' f' w) :
    (contract A req).wp i (UserRepository.save u') L f w Q R := by
  have row : ∀ w, F w → (f w.db).users.row u'.id = some u := fun w hF => by
    have h := (hk.rel w hF).users
    rw [hu] at h
    rw [hid, h, (hl w hF).row]
  refine wp_read hk (fun _ => rfl) (fun _ _ => rfl) rfl (fun _ _ => trivial) fun w free r hF hrel hr hA hk' => ?_
  obtain rfl : r = some u := Eq.trans hr (row w hF)
  have hk := hk.forget hk'
  change (contract A req).wp i (if decide (UserRepository.cols u u' = {}) then _ else _) L f _ Q R
  by_cases hc : UserRepository.cols u u' = {}
  · have hsame : u' = u := by rw [← hcols, hc]; rfl
    rw [if_pos (by simpa using hc)]
    subst hsame
    exact next L f _ (fun _ h => h) ⟨hk.holds, hk.now, fun w hF =>
      (hk.rel w hF).setUsers hu ⟨row w hF, row w hF, fun _ _ => rfl⟩, hk.fresh⟩
  · rw [if_neg (by simpa using hc)]
    refine wp_step hk nofun (fun _ _ => trivial) fun w free r hF hrel hp hr hA => ?_
    obtain rfl : r = true := Eq.trans hr (by rw [row w hF]; rfl)
    refine next _ _ _ (fun _ h => List.mem_append_right _ h) ⟨hk.holds.need (.updateUser u'.id (UserRepository.cols u u')) true,
      hk.holds.own _ _ hF, fun w hF => (hk.rel w hF).setUsers hu ?_, hp.stmt rfl⟩
    have h := Table.Change.set_modify (f := (UserRepository.cols u u').apply) (fun _ => rfl) hid (row w hF)
    rwa [hcols] at h

theorem wp_saveSession {x x' : Session} {Q : Unit → List RowLock → (Db → Db) → World (store env) ι → Prop}
    (hk : Knows A req i N L f w ch F) (hs : ch.sessions = .keep) (hl : ∀ w, F w → LockedSession w i x)
    (hid : x'.id = x.id) (hcols : (SessionRepository.cols x x').apply x = x')
    (next : ∀ L' f' w, (∀ l ∈ L, l ∈ L') → Knows A req i N L' f' w { ch with sessions := .set x x' } F →
      Q () L' f' w) :
    (contract A req).wp i (SessionRepository.save x') L f w Q R := by
  have row : ∀ w, F w → (f w.db).sessions.row x'.id = some x := fun w hF => by
    have h := (hk.rel w hF).sessions
    rw [hs] at h
    rw [hid, h, (hl w hF).row]
  refine wp_read hk (fun _ => rfl) (fun _ _ => rfl) rfl (fun _ _ => trivial) fun w free r hF hrel hr hA hk' => ?_
  obtain rfl : r = some x := Eq.trans hr (row w hF)
  have hk := hk.forget hk'
  change (contract A req).wp i (if decide (SessionRepository.cols x x' = {}) then _ else _) L f _ Q R
  by_cases hc : SessionRepository.cols x x' = {}
  · have hsame : x' = x := by rw [← hcols, hc]; rfl
    rw [if_pos (by simpa using hc)]
    subst hsame
    exact next L f _ (fun _ h => h) ⟨hk.holds, hk.now, fun w hF =>
      (hk.rel w hF).setSessions hs ⟨row w hF, row w hF, fun _ _ => rfl⟩, hk.fresh⟩
  · rw [if_neg (by simpa using hc)]
    refine wp_step hk nofun (fun _ _ => trivial) fun w free r hF hrel hp hr hA => ?_
    obtain rfl : r = true := Eq.trans hr (by rw [row w hF]; rfl)
    refine next _ _ _ (fun _ h => List.mem_append_right _ h) ⟨hk.holds.need (.updateSession x'.id (SessionRepository.cols x x')) true,
      hk.holds.own _ _ hF, fun w hF => (hk.rel w hF).setSessions hs ?_, hp.stmt rfl⟩
    have h := Table.Change.set_modify (f := (SessionRepository.cols x x').apply) (fun _ => rfl) hid (row w hF)
    rwa [hcols] at h

theorem wp_saveToken {t : PasswordResetToken} {at_ : Instant} {hash : String}
    {Q : Unit → List RowLock → (Db → Db) → World (store env) ι → Prop}
    (hk : Knows A req i N L f w ch F) (ht : ch.tokens = .keep) (hl : ∀ w, F w → LockedToken w i hash t)
    (next : ∀ L' f' w, (∀ l ∈ L, l ∈ L') →
      Knows A req i N L' f' w { ch with tokens := .set t { t with usedAt := some at_ } } F → Q () L' f' w) :
    (contract A req).wp i (PasswordResetTokenRepository.save { t with usedAt := some at_ }) L f w Q R := by
  have row : ∀ w, F w → (f w.db).passwordResetTokens.row t.id = some t := fun w hF => by
    have h := (hk.rel w hF).tokens
    rw [ht] at h
    rw [h, (hl w hF).row]
  refine wp_read hk (fun _ => rfl) (fun _ _ => rfl) rfl (fun _ _ => trivial) fun w free r hF hrel hr hA hk' => ?_
  obtain rfl : r = some t := Eq.trans hr (row w hF)
  have hk := hk.forget hk'
  change (contract A req).wp i (if decide (t.usedAt = some at_) then _ else _) L f _ Q R
  by_cases hc : t.usedAt = some at_
  · rw [if_pos (by simpa using hc)]
    refine next L f _ (fun _ h => h) ⟨hk.holds, hk.now, fun w hF =>
      (hk.rel w hF).setTokens ht ⟨row w hF, ?_, fun _ _ => rfl⟩, hk.fresh⟩
    rw [row w hF, ← hc]
  · rw [if_neg (by simpa using hc)]
    refine wp_step hk nofun (fun _ _ => trivial) fun w free r hF hrel hp hr hA => ?_
    obtain rfl : r = true := Eq.trans hr (by rw [row w hF]; rfl)
    exact next _ _ _ (fun _ h => List.mem_append_right _ h) ⟨hk.holds.need (.updateResetToken t.id (some at_)) true,
      hk.holds.own _ _ hF, fun w hF => (hk.rel w hF).setTokens ht
        (Table.Change.set_modify (f := PasswordResetToken.usedAtIs _) (fun _ => rfl) rfl (row w hF)),
      hp.stmt rfl⟩

theorem wp_saveCredential {c c' : MfaCredential} {userId : Uuid}
    {Q : Unit → List RowLock → (Db → Db) → World (store env) ι → Prop}
    (hk : Knows A req i N L f w ch F) (hcr : ch.credentials = .keep) (hl : ∀ w, F w → LockedCredential w i userId c)
    (hid : c'.id = c.id) (hcols : (MfaCredentialRepository.cols c c').apply c = c')
    (next : ∀ L' f' w, (∀ l ∈ L, l ∈ L') → Knows A req i N L' f' w { ch with credentials := .set c c' } F →
      Q () L' f' w) :
    (contract A req).wp i (MfaCredentialRepository.save c') L f w Q R := by
  have row : ∀ w, F w → (f w.db).mfaCredentials.row c'.id = some c := fun w hF => by
    have h := (hk.rel w hF).credentials
    rw [hcr] at h
    rw [hid, h, (hl w hF).row]
  refine wp_read hk (fun _ => rfl) (fun _ _ => rfl) rfl (fun _ _ => trivial) fun w free r hF hrel hr hA hk' => ?_
  obtain rfl : r = some c := Eq.trans hr (row w hF)
  have hk := hk.forget hk'
  change (contract A req).wp i (if decide (MfaCredentialRepository.cols c c' = {}) then _ else _) L f _ Q R
  by_cases hc : MfaCredentialRepository.cols c c' = {}
  · have hsame : c' = c := by rw [← hcols, hc]; rfl
    rw [if_pos (by simpa using hc)]
    subst hsame
    exact next L f _ (fun _ h => h) ⟨hk.holds, hk.now, fun w hF =>
      (hk.rel w hF).setCredentials hcr ⟨row w hF, row w hF, fun _ _ => rfl⟩, hk.fresh⟩
  · rw [if_neg (by simpa using hc)]
    refine wp_step hk nofun (fun _ _ => trivial) fun w free r hF hrel hp hr hA => ?_
    obtain rfl : r = true := Eq.trans hr (by rw [row w hF]; rfl)
    refine next _ _ _ (fun _ h => List.mem_append_right _ h) ⟨hk.holds.need (.updateCredential c'.id (MfaCredentialRepository.cols c c')) true,
      hk.holds.own _ _ hF, fun w hF => (hk.rel w hF).setCredentials hcr ?_, hp.stmt rfl⟩
    have h := Table.Change.set_modify (f := (MfaCredentialRepository.cols c c').apply) (fun _ => rfl) hid
      (row w hF)
    rwa [hcols] at h

theorem wp_saveCode {k : MfaRecoveryCode} {at_ : Instant}
    {Q : Unit → List RowLock → (Db → Db) → World (store env) ι → Prop}
    (hk : Knows A req i N L f w ch F) (hc : ch.codes = .keep)
    (hl : ∀ w, F w → w.db.mfaRecoveryCodes.row k.id = some k)
    (next : ∀ L' f' w, (∀ l ∈ L, l ∈ L') →
      Knows A req i N L' f' w { ch with codes := .set k (k.usedAtIs (some at_)) } F → Q () L' f' w) :
    (contract A req).wp i (MfaRecoveryCodeRepository.save { k with usedAt := some at_ }) L f w Q R := by
  have row : ∀ w, F w → (f w.db).mfaRecoveryCodes.row k.id = some k := fun w hF => by
    have h := (hk.rel w hF).codes
    rw [hc] at h
    rw [h, hl w hF]
  refine wp_read hk (fun _ => rfl) (fun _ _ => rfl) rfl (fun _ _ => trivial) fun w free r hF hrel hr hA hk' => ?_
  obtain rfl : r = some k := Eq.trans hr (row w hF)
  have hk := hk.forget hk'
  change (contract A req).wp i (if decide (k.usedAt = some at_) then _ else _) L f _ Q R
  by_cases hu : k.usedAt = some at_
  · rw [if_pos (by simpa using hu)]
    refine next L f _ (fun _ h => h) ⟨hk.holds, hk.now, fun w hF =>
      (hk.rel w hF).setCodes hc ⟨row w hF, ?_, fun _ _ => rfl⟩, hk.fresh⟩
    rw [row w hF, MfaRecoveryCode.usedAtIs, ← hu]
  · rw [if_neg (by simpa using hu)]
    refine wp_step hk nofun (fun _ _ => trivial) fun w free r hF hrel hp hr hA => ?_
    obtain rfl : r = true := Eq.trans hr (by rw [row w hF]; rfl)
    exact next _ _ _ (fun _ h => List.mem_append_right _ h) ⟨hk.holds.need (.updateCode k.id (some at_)) true,
      hk.holds.own _ _ hF, fun w hF => (hk.rel w hF).setCodes hc
        (Table.Change.set_modify (f := MfaRecoveryCode.usedAtIs _) (fun _ => rfl) rfl (row w hF)),
      hp.stmt rfl⟩

end Bekaa3D.Identity
