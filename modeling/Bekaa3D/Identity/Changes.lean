import Bekaa3D.Identity.Api
import Bekaa3D.Txn.Runs

/-!
# Identity.Changes — what each request may commit

The accounts, sessions, tokens and second factors as an abstract machine whose steps are atomic: `Change` says
what one commit does to each table, and `Allowed` which changes a request may commit, with the evidence that
its transaction gathered on the way (`Did`: the statements it ran and their replies).

* `Grows`: what every commit keeps.  Rows of accounts, sessions, tokens and credentials stay, with the columns
  that are never written; a session stays revoked, a reset token and a redeemed recovery code stay used.
* `Allowed.grows`: every allowed change grows the database.
-/

namespace Bekaa3D.Identity

open Txn

/-! ## Changes -/

structure Change where
  users : Table.Change User := .keep
  sessions : Table.Change Session := .keep
  tokens : Table.Change PasswordResetToken := .keep
  credentials : Table.Change MfaCredential := .keep
  codes : Table.Change MfaRecoveryCode := .keep
  /-- The rows it adds to the audit log. -/
  audits : List AuditLog := []
  /-- … and to the outbox. -/
  mails : List EmailOutbox := []
  verifications : Table.Change VerificationToken := .keep

structure Change.Rel (ch : Change) (db db' : Db) : Prop where
  users : ch.users.Rel db.users db'.users
  sessions : ch.sessions.Rel db.sessions db'.sessions
  tokens : ch.tokens.Rel db.passwordResetTokens db'.passwordResetTokens
  credentials : ch.credentials.Rel db.mfaCredentials db'.mfaCredentials
  codes : ch.codes.Rel db.mfaRecoveryCodes db'.mfaRecoveryCodes
  audits : db'.auditLogs = db.auditLogs ++ ch.audits
  mails : db'.emailOutbox = db.emailOutbox ++ ch.mails
  verifications : ch.verifications.Rel db.verificationTokens db'.verificationTokens

/-- Every row of every table is as it was. -/
structure Unchanged (db db' : Db) : Prop where
  users : ∀ k, db'.users.row k = db.users.row k
  sessions : ∀ k, db'.sessions.row k = db.sessions.row k
  verificationTokens : ∀ k, db'.verificationTokens.row k = db.verificationTokens.row k
  passwordResetTokens : ∀ k, db'.passwordResetTokens.row k = db.passwordResetTokens.row k
  mfaCredentials : ∀ k, db'.mfaCredentials.row k = db.mfaCredentials.row k
  mfaRecoveryCodes : ∀ k, db'.mfaRecoveryCodes.row k = db.mfaRecoveryCodes.row k
  auditLogs : db'.auditLogs = db.auditLogs
  emailOutbox : db'.emailOutbox = db.emailOutbox

theorem Change.Rel.unchanged {db db' : Db} (h : ({} : Change).Rel db db') : Unchanged db db' :=
  ⟨h.users, h.sessions, h.verifications, h.tokens, h.credentials, h.codes, h.audits.trans (List.append_nil _),
    h.mails.trans (List.append_nil _)⟩

structure Grows (db db' : Db) : Prop where
  users : ∀ k u, db.users.row k = some u → ∃ u', db'.users.row k = some u'
  sessions : ∀ k x, db.sessions.row k = some x → ∃ x', db'.sessions.row k = some x' ∧ x'.userId = x.userId ∧
    x'.expiresAt = x.expiresAt ∧ ∀ t, x.revokedAt = some t → x'.revokedAt = some t
  tokens : ∀ k t, db.passwordResetTokens.row k = some t → ∃ t', db'.passwordResetTokens.row k = some t' ∧
    t'.userId = t.userId ∧ t'.tokenHash = t.tokenHash ∧ ∀ a, t.usedAt = some a → t'.usedAt = some a
  credentials : ∀ k c, db.mfaCredentials.row k = some c →
    ∃ c', db'.mfaCredentials.row k = some c' ∧ c'.userId = c.userId
  codes : ∀ k c a, db.mfaRecoveryCodes.row k = some c → c.usedAt = some a → db'.mfaRecoveryCodes.row k = some c

theorem Grows.refl (db : Db) : Grows db db :=
  ⟨fun _ u h => ⟨u, h⟩, fun _ x h => ⟨x, h, rfl, rfl, fun _ h => h⟩, fun _ t h => ⟨t, h, rfl, rfl, fun _ h => h⟩,
    fun _ c h => ⟨c, h, rfl⟩, fun _ _ _ h _ => h⟩

theorem Grows.trans {a b c : Db} (h : Grows a b) (h' : Grows b c) : Grows a c := by
  refine ⟨fun k u hu => ?_, fun k x hx => ?_, fun k t ht => ?_, fun k d hd => ?_, fun k d at_ hd ha => ?_⟩
  · obtain ⟨u', hu'⟩ := h.users k u hu
    exact h'.users k u' hu'
  · obtain ⟨x', hx', h1, h2, h3⟩ := h.sessions k x hx
    obtain ⟨x'', hx'', h1', h2', h3'⟩ := h'.sessions k x' hx'
    exact ⟨x'', hx'', h1'.trans h1, h2'.trans h2, fun t ht => h3' t (h3 t ht)⟩
  · obtain ⟨t', ht', h1, h2, h3⟩ := h.tokens k t ht
    obtain ⟨t'', ht'', h1', h2', h3'⟩ := h'.tokens k t' ht'
    exact ⟨t'', ht'', h1'.trans h1, h2'.trans h2, fun t ht => h3' t (h3 t ht)⟩
  · obtain ⟨d', hd', h1⟩ := h.credentials k d hd
    obtain ⟨d'', hd'', h1'⟩ := h'.credentials k d' hd'
    exact ⟨d'', hd'', h1'.trans h1⟩
  · exact h'.codes k d at_ (h.codes k d at_ hd ha) ha

/-! ## Evidence -/

/-- The statements that a request runs at most once. -/
inductive Kind where
  | readUser
  | readVerification
  | lockUser
  | lockSession
  | lockToken
  | lockCredential
  | lockCode
  | insertSession
  | insertToken
  | mint
  deriving DecidableEq

def Kind.all : List Kind :=
  [.readUser, .readVerification, .lockUser, .lockSession, .lockToken, .lockCredential, .lockCode, .insertSession, .insertToken, .mint]

def Op.kind : Op → Option Kind
  | .selectUserByEmail _ => some .readUser
  | .selectVerificationTokenByHash _ => some .readVerification
  | .selectUserForUpdate _ => some .lockUser
  | .selectSessionForUpdate _ => some .lockSession
  | .selectResetTokenForUpdate _ => some .lockToken
  | .selectCredentialByUserForUpdate _ => some .lockCredential
  | .selectUnusedCodeForUpdate _ _ => some .lockCode
  | .insertSession _ => some .insertSession
  | .insertResetToken _ _ _ => some .insertToken
  | .issueAccessToken _ _ => some .mint
  | _ => none

section Evidence

variable {env : Env} {ι : Type} (w : World (store env) ι) (i : ι)

/-- Transaction `i` ran no statement of the kind `k`. -/
def NoneOf (k : Kind) : Prop := ∀ o r, o.kind = some k → ¬Did w i o r

/-- Transaction `i` ran `o` with the reply `r` and read the clock right after: `now`. -/
def ReadAfter [DecidableEq ι] (o : Op) (r : Resp o) (now : Instant) : Prop :=
  ∃ pre post, w.own i = pre ++ ⟨i, .stmt o r⟩ :: ⟨i, .stmt .now now⟩ :: post

/-- Transaction `i` locked the credential `c` of `userId` and then read the clock: `now`. -/
def ReadAt [DecidableEq ι] (userId : Uuid) (c : MfaCredential) (now : Instant) : Prop :=
  ∃ pre post, w.own i = pre ++ ⟨i, .stmt (.selectCredentialByUserForUpdate userId) (some c)⟩ ::
    ⟨i, .stmt .now now⟩ :: post

/-- Transaction `i` holds the row of `u` and read it as it is. -/
structure LockedUser (u : User) : Prop where
  did : Did w i (.selectUserForUpdate u.id) (some u)
  row : w.db.users.row u.id = some u

/-- What the locking read of the account `userId` returned. -/
def LockedOwner (userId : Uuid) : Option User → Prop
  | none => Did w i (.selectUserForUpdate userId) none
  | some u => LockedUser w i u ∧ u.id = userId

structure LockedSession (x : Session) : Prop where
  did : Did w i (.selectSessionForUpdate x.id) (some x)
  row : w.db.sessions.row x.id = some x

structure LockedToken (tokenHash : String) (t : PasswordResetToken) : Prop where
  did : Did w i (.selectResetTokenForUpdate tokenHash) (some t)
  row : w.db.passwordResetTokens.row t.id = some t
  hash : t.tokenHash = tokenHash

structure LockedCredential (userId : Uuid) (c : MfaCredential) : Prop where
  did : Did w i (.selectCredentialByUserForUpdate userId) (some c)
  row : w.db.mfaCredentials.row c.id = some c
  owner : c.userId = userId

end Evidence

section Evidence

variable {env : Env} {ι : Type} {w : World (store env) ι} {i : ι}

theorem noneOf_stmt {o : Op} {r : Resp o} {k : Kind} (h : NoneOf w i k) (hk : o.kind ≠ some k) :
    NoneOf (w.stmt i o r) i k := by
  intro o' r' hk' hd
  rcases did_stmt.mp hd with hd | hd
  · exact h o' r' hk' hd
  · cases hd; exact hk hk'

end Evidence

/-- The row of a new session. -/
def openedSession (env : Env) (sessionId userId : Uuid) (now : Instant) (ipHash userAgent : Option String) :
    Session where
  id := sessionId
  userId := userId
  refreshTokenHash :=
    env.hashToken (issueRefreshToken env sessionId 1 (now + days env.refreshTokenDays) now)
  tokenVersion := 1
  expiresAt := now + days env.refreshTokenDays
  lastUsedAt := none
  rotatedAt := none
  revokedAt := none
  reuseDetectedAt := none
  ipHash := ipHash
  userAgent := userAgent

/-- The row of a session after its rotation. -/
def rotatedSession (env : Env) (x : Session) (now : Instant) : Session :=
  x.rotate (env.hashToken (issueRefreshToken env x.id (x.tokenVersion + 1) x.expiresAt now)) now

/-- The time step of a TOTP that is presented without a recovery code, if `c` has spent it. -/
def spentStep (env : Env) (c : MfaCredential) (code recovery : Option String) (now : Instant) : Option ℤ :=
  match recovery, code with
  | none, some code => do
    let secret ← env.decryptSecret c.secretCiphertext
    let step ← verifyCodeStep env secret code now
    if c.isTotpStepReplayed step then some step else none
  | _, _ => none

/-- `UPDATE sessions SET revoked_at = … WHERE user_id = … AND revoked_at IS NULL`, on one row. -/
def revokeLive (userId : Uuid) (at_ : Instant) (x : Session) : Session :=
  if x.liveOf userId then x.revokedAtIs at_ else x

/-- `UPDATE password_reset_tokens SET used_at = … WHERE user_id = … AND used_at IS NULL`, on one row. -/
def consumeUnused (userId : Uuid) (at_ : Instant) (t : PasswordResetToken) : PasswordResetToken :=
  if t.unusedOf userId then t.usedAtIs (some at_) else t

section Allowed

variable {env : Env} {ι : Type} [DecidableEq ι] (A : World (store env) ι → Event (store env) ι → Prop)
  (w : World (store env) ι) (i : ι)

/-- Transaction `i` opened the session `x` of the account `u`, which it holds. -/
structure Opened (u : User) (x : Session) : Prop where
  lock : LockedUser w i u
  auth : u.canAuthenticate = true
  did : Did w i (.insertSession x) true
  new : ∃ now ip ua, x = openedSession env x.id u.id now ip ua

/-- Transaction `i` presents the verification token `t` of the account that it first read as `u₀`, unverified, and
later, in the database of `w₁`, as `u₁`. -/
structure Redeemed (raw : String) (t : VerificationToken) (u₀ u₁ : User) (w₁ : World (store env) ι) : Prop where
  token : Did w i (.selectVerificationTokenByHash (env.hashToken raw)) (some t)
  unused : t.usedAt = none
  owner : t.userId = u₀.id
  unverified : u₀.isVerified = false
  read : Did w₁ i (.selectUser u₀.id) (some u₀)
  id : u₁.id = u₀.id
  met : A w₁ ⟨i, .stmt (.selectUser u₁.id) (some u₁)⟩
  row : w₁.db.users.row u₁.id = some u₁

/-- The changes that a request may commit, with what its transaction saw. -/
inductive Allowed : Request → Change → Prop where
  | loginChallenge {email password ip ua ctx a} (noneOf : NoneOf w i .insertSession) :
      Allowed (.login email password ip ua ctx) { audits := a }
  | loggedIn {email password ip ua ctx a} {u : User} {x : Session} (open_ : Opened w i u x) :
      Allowed (.login email password ip ua ctx) { sessions := .new x, audits := a }
  | completed {userId epoch ua ctx a} {u : User} {x : Session} (open_ : Opened w i u x) :
      Allowed (.completeMfaLogin userId epoch ua ctx) { sessions := .new x, audits := a }
  | loggedOutBefore {claims csrf ctx} : Allowed (.logout claims csrf ctx) {}
  | loggedOut {claims csrf ctx a} {x : Session} {now : Instant} (lock : LockedSession w i x)
      (live : x.isRevoked = false) :
      Allowed (.logout claims csrf ctx) { sessions := .set x (x.revoke now), audits := a }
  | refreshed {raw csrf ctx} {u : User} {x : Session} {at_ now : Instant} {v : ℤ}
      (presented : decodeRefreshToken env raw at_ = .ok ⟨x.id, v⟩) (lock : LockedUser w i u)
      (owner : x.userId = u.id) (lockS : LockedSession w i x)
      (read : ReadAfter w i (.selectSessionForUpdate x.id) (some x) now)
      (auth : x.authorizeRotation (env.hashToken raw) v now = .ok ()) (can : u.canAuthenticate = true)
      (minted : ∃ claims token, Did w i (.issueAccessToken claims now) token) :
      Allowed (.refresh (some raw) csrf ctx) { sessions := .set x (rotatedSession env x now) }
  | reuse {raw csrf ctx} {x : Session} {at_ now : Instant} {v : ℤ}
      (presented : decodeRefreshToken env raw at_ = .ok ⟨x.id, v⟩) (lockS : LockedSession w i x)
      (read : ReadAfter w i (.selectSessionForUpdate x.id) (some x) now)
      (auth : x.authorizeRotation (env.hashToken raw) v now = .error (.refreshTokenReuse x.id))
      (noneOf : NoneOf w i .mint) :
      Allowed (.refresh (some raw) csrf ctx)
        { sessions := .set x (x.markReuseDetected now)
          audits := [ctx.log x.userId "session.reuse_detected" "Session" (some x.id)] }
  | ownerRevoked {raw csrf ctx} {owner : Option User} {x : Session} {at_ now : Instant} {v : ℤ}
      (presented : decodeRefreshToken env raw at_ = .ok ⟨x.id, v⟩) (lockO : LockedOwner w i x.userId owner)
      (cannot : owner.any User.canAuthenticate = false) (lockS : LockedSession w i x)
      (read : ReadAfter w i (.selectSessionForUpdate x.id) (some x) now)
      (auth : x.authorizeRotation (env.hashToken raw) v now = .ok ()) (noneOf : NoneOf w i .mint) :
      Allowed (.refresh (some raw) csrf ctx) { sessions := .set x (x.revoke now) }
  | resetNotRequested {email ctx} (noneOf : NoneOf w i .insertToken) : Allowed (.requestPasswordReset email ctx) {}
  | resetRequested {email ctx a m} {u : User} {t : PasswordResetToken} {h : String} {expiresAt : Instant}
      (did : Did w i (.insertResetToken u.id h expiresAt) (some t)) (unused : t.usedAt = none) :
      Allowed (.requestPasswordReset email ctx) { tokens := .new t, audits := a, mails := m }
  | reset {raw password ctx} {u : User} {t : PasswordResetToken} {now : Instant} {h : String} {n : ℕ}
      (lockT : LockedToken w i (env.hashToken raw) t) (unused : t.usedAt = none) (lock : LockedUser w i u)
      (owner : t.userId = u.id) (can : u.canAuthenticate = true) (hashed : Did w i (.hashPassword password) h) :
      Allowed (.confirmPasswordReset raw password ctx)
        { users := .set u (u.changePassword h).invalidateCredentials
          sessions := .map (revokeLive u.id now), tokens := .map (consumeUnused u.id now)
          audits := [ctx.log u.id "user.password_reset" "User" (some u.id) none
            (some [("sessions_revoked", .int n)])] }
  | verifiedEmail {raw ctx g} {t : VerificationToken} {u₀ u₁ u : User} {now : Instant} {w₀ w₁ : World (store env) ι}
      (redeemed : Redeemed A w i raw t u₀ u₁ w₁) (id : u.id = u₀.id)
      (met : A w₀ ⟨i, .stmt (.updateUser u₀.id
        (UserRepository.cols u₁ { u₀ with emailVerifiedAt := some now })) true⟩)
      (row₀ : w₀.db.users.row u₀.id = some u) :
      Allowed (.verifyEmail raw ctx)
        { users := .set u ((UserRepository.cols u₁ { u₀ with emailVerifiedAt := some now }).apply u)
          audits := [ctx.log u₀.id "user.email_verified" "User" (some u₀.id)], verifications := g }
  | emailUnchanged {raw ctx g} {t : VerificationToken} {u₀ u₁ : User} {now : Instant} {w₁ : World (store env) ι}
      (redeemed : Redeemed A w i raw t u₀ u₁ w₁) (verified : u₁.emailVerifiedAt = some now) :
      Allowed (.verifyEmail raw ctx)
        { audits := [ctx.log u₀.id "user.email_verified" "User" (some u₀.id)], verifications := g }
  | userUnchanged {claims csrf userId isActive ctx} {u : User}
      (did : Did w i (.selectUserForUpdate userId) (some u)) (same : isActive = u.isActive) :
      Allowed (.updateUser claims csrf userId isActive ctx) {}
  | userActivated {claims csrf userId ctx} {u : User} (lock : LockedUser w i u) (id : u.id = userId)
      (inactive : u.isActive = false) :
      Allowed (.updateUser claims csrf userId true ctx)
        { users := .set u { u with isActive := true }
          audits := [ctx.log claims.userId "user.activated" "User" (some u.id) (some [("is_active", .bool false)])
            (some [("is_active", .bool true)])] }
  | userDeactivated {claims csrf userId ctx} {u : User} {now : Instant} {ids : List Uuid} {n : ℕ}
      (lock : LockedUser w i u) (id : u.id = userId) (active : u.isActive = true)
      (scanned : Did w i (.scanLiveSessions u.id) ids)
      (count : n = (w.db.sessions.scan (Session.liveOf u.id)).length) :
      Allowed (.updateUser claims csrf userId false ctx)
        { users := .set u { u with isActive := false }.invalidateCredentials
          sessions := .map (revokeLive u.id now)
          audits := [ctx.log claims.userId "user.deactivated" "User" (some u.id) (some [("is_active", .bool true)])
            (some [("is_active", .bool false), ("sessions_revoked", .int n)])] }
  | setupStarted {claims csrf password ctx a} {c : MfaCredential} (owner : c.userId = claims.userId)
      (pending : c.enabledAt = none ∧ c.lastTotpStep = none) :
      Allowed (.setupMfa claims csrf password ctx) { credentials := .new c, audits := a }
  | setupUnchanged {claims csrf password ctx a} : Allowed (.setupMfa claims csrf password ctx) { audits := a }
  | setupRestarted {claims csrf password ctx a} {c₀ c₁ c : MfaCredential} {secret : String}
      {w₀ : World (store env) ι} (pending : c₀.enabledAt = none)
      (read : Did w i (.selectCredentialByUser claims.userId) (some c₀))
      (reread : Did w i (.selectCredential c₀.id) (some c₁))
      (met : A w₀ ⟨i, .stmt (.updateCredential c₀.id
        (MfaCredentialRepository.cols c₁ { c₀ with secretCiphertext := secret })) true⟩)
      (id : c.id = c₀.id) (row₀ : w₀.db.mfaCredentials.row c₀.id = some c) :
      Allowed (.setupMfa claims csrf password ctx)
        { credentials := .set c
            ((MfaCredentialRepository.cols c₁ { c₀ with secretCiphertext := secret }).apply c), audits := a }
  | confirmed {claims csrf code ctx a} {c : MfaCredential} {secret : String} {step : ℤ} {now : Instant}
      (lock : LockedCredential w i claims.userId c) (pending : c.isEnabled = false)
      (decrypted : env.decryptSecret c.secretCiphertext = some secret)
      (read : ReadAt w i claims.userId c now) (matched : verifyCodeStep env secret code now = some step)
      (completed : Did w i (.redisSet (.mfaCompleted claims.sessionId) .flag (max (completedTtlSeconds env) 1)) ()) :
      Allowed (.confirmMfaSetup claims csrf code ctx)
        { credentials := .set c ((c.enable now).recordTotpStep step now)
          codes := .within (MfaRecoveryCode.unusedOf c.id), audits := a }
  | replayed {challengeId code recovery ua ctx} {userId : Uuid} {c : MfaCredential} {step : ℤ} {now : Instant}
      (lock : LockedCredential w i userId c) (enabled : c.isEnabled = true) (read : ReadAt w i userId c now)
      (spent : spentStep env c code recovery now = some step) (noneOf : NoneOf w i .lockUser) :
      Allowed (.verifyMfa challengeId code recovery ua ctx)
        { audits := [ctx.log userId "mfa.replay_rejected" "MfaCredential" (some c.id) none
            (some [("time_step", .int step)])] }
  | verifiedTotp {challengeId code ua ctx} {u : User} {x : Session} {c : MfaCredential} {secret : String}
      {step : ℤ} {now : Instant} (lock : LockedCredential w i u.id c) (enabled : c.isEnabled = true)
      (decrypted : env.decryptSecret c.secretCiphertext = some secret) (read : ReadAt w i u.id c now)
      (matched : verifyCodeStep env secret code now = some step) (new : c.isTotpStepReplayed step = false)
      (open_ : Opened w i u x) :
      Allowed (.verifyMfa challengeId (some code) none ua ctx)
        { credentials := .set c (c.recordTotpStep step now), sessions := .new x
          audits := [ctx.log u.id "mfa.verified" "MfaCredential" (some c.id),
            ctx.log u.id "user.logged_in" "Session" (some x.id)] }
  | verifiedRecovery {challengeId code recovery ua ctx} {u : User} {x : Session} {c : MfaCredential}
      {k : MfaRecoveryCode} {now : Instant} {n : ℕ} (lock : LockedCredential w i u.id c) (enabled : c.isEnabled = true)
      (redeemed : Did w i (.selectUnusedCodeForUpdate c.id (env.hashToken (env.normalizeCode recovery))) (some k))
      (owner : k.mfaCredentialId = c.id) (hash : k.codeHash = env.hashToken (env.normalizeCode recovery))
      (unused : k.usedAt = none) (open_ : Opened w i u x) :
      Allowed (.verifyMfa challengeId code (some recovery) ua ctx)
        { credentials := .set c (c.markUsed now), codes := .set k (k.usedAtIs (some now)), sessions := .new x
          audits := [ctx.log u.id "mfa.recovery_code_used" "MfaCredential" (some c.id) none
              (some [("remaining_recovery_codes", .int n)]),
            ctx.log u.id "user.logged_in" "Session" (some x.id)] }
  | regenerated {claims csrf password ctx a} {cid : Uuid} :
      Allowed (.regenerateRecoveryCodes claims csrf password ctx)
        { codes := .within (MfaRecoveryCode.unusedOf cid), audits := a }
  | expired {key} : Allowed (.expire key) {}

end Allowed

/-! ## Every allowed change grows the database -/

section Grows

variable {db db' : Db} {ch : Change}

def GrowsSession (x x' : Session) : Prop :=
  x'.userId = x.userId ∧ x'.expiresAt = x.expiresAt ∧ ∀ t, x.revokedAt = some t → x'.revokedAt = some t

def GrowsToken (t t' : PasswordResetToken) : Prop :=
  t'.userId = t.userId ∧ t'.tokenHash = t.tokenHash ∧ ∀ a, t.usedAt = some a → t'.usedAt = some a

structure Change.Grows (ch : Change) : Prop where
  users : ch.users.Keeps (fun _ => True) fun _ _ => True
  sessions : ch.sessions.Keeps (fun _ => True) GrowsSession
  tokens : ch.tokens.Keeps (fun _ => True) GrowsToken
  credentials : ch.credentials.Keeps (fun _ => True) fun c c' => c'.userId = c.userId
  codes : ch.codes.Keeps (fun k => k.usedAt.isSome) fun k k' => k' = k

theorem Change.Rel.grows (h : ch.Rel db db') (hg : ch.Grows) : Identity.Grows db db' := by
  refine ⟨fun k u hu => ?_, fun k x hx => ?_, fun k t ht => ?_, fun k c hc => ?_, fun k c a hc ha => ?_⟩
  · obtain ⟨u', hu', -⟩ := Table.Change.Rel.keeps (fun _ => trivial) h.users hg.users hu trivial
    exact ⟨u', hu'⟩
  · exact Table.Change.Rel.keeps (fun _ => ⟨rfl, rfl, fun _ h => h⟩) h.sessions hg.sessions hx trivial
  · exact Table.Change.Rel.keeps (fun _ => ⟨rfl, rfl, fun _ h => h⟩) h.tokens hg.tokens ht trivial
  · exact Table.Change.Rel.keeps (P := fun c c' => c'.userId = c.userId) (fun _ => rfl) h.credentials
      hg.credentials hc trivial
  · obtain ⟨c', hc', rfl⟩ := Table.Change.Rel.keeps (P := fun k k' => k' = k) (fun _ => rfl) h.codes hg.codes hc
      (by simp [ha])
    exact hc'

theorem growsSession_revoke (x : Session) (a : Instant) : GrowsSession x (x.revoke a) := by
  unfold Session.revoke
  split
  · exact ⟨rfl, rfl, fun _ h => h⟩
  · rename_i h
    refine ⟨rfl, rfl, fun t ht => ?_⟩
    simp [Session.isRevoked, ht] at h

theorem growsSession_markReuseDetected (x : Session) (a : Instant) : GrowsSession x (x.markReuseDetected a) :=
  growsSession_revoke ({ x with reuseDetectedAt := some a } : Session) a

theorem growsSession_revokeLive (u : Uuid) (a : Instant) (x : Session) : GrowsSession x (revokeLive u a x) := by
  unfold revokeLive
  split
  · rename_i h
    refine ⟨rfl, rfl, fun t ht => ?_⟩
    simp [Session.liveOf, Session.isRevoked, ht] at h
  · exact ⟨rfl, rfl, fun _ h => h⟩

theorem growsToken_consumeUnused (u : Uuid) (a : Instant) (t : PasswordResetToken) :
    GrowsToken t (consumeUnused u a t) := by
  unfold consumeUnused
  split
  · rename_i h
    refine ⟨rfl, rfl, fun b hb => ?_⟩
    simp [PasswordResetToken.unusedOf, PasswordResetToken.isUsed, hb] at h
  · exact ⟨rfl, rfl, fun _ h => h⟩

theorem MfaCredential.userId_enable (c : MfaCredential) (now : Instant) : (c.enable now).userId = c.userId := by
  unfold enable; split <;> rfl

theorem MfaRecoveryCode.not_used_of_unusedOf {cid : Uuid} {k : MfaRecoveryCode} (h : k.unusedOf cid = true) :
    ¬k.usedAt.isSome = true := by
  simpa [unusedOf, isUsed] using (Bool.and_eq_true_iff.mp h).2

theorem Allowed.grows {env : Env} {ι : Type} [DecidableEq ι] {A : World (store env) ι → Event (store env) ι → Prop}
    {w : World (store env) ι} {i : ι} {r : Request} (ha : Allowed A w i r ch) : ch.Grows := by
  cases ha with
  | loggedOut _ _ => exact ⟨trivial, fun _ => growsSession_revoke _ _, trivial, trivial, trivial⟩
  | refreshed => exact ⟨trivial, fun _ => ⟨rfl, rfl, fun _ h => h⟩, trivial, trivial, trivial⟩
  | reuse => exact ⟨trivial, fun _ => growsSession_markReuseDetected _ _, trivial, trivial, trivial⟩
  | ownerRevoked => exact ⟨trivial, fun _ => growsSession_revoke _ _, trivial, trivial, trivial⟩
  | reset _ _ _ _ _ _ =>
    exact ⟨fun _ => trivial, fun x _ => growsSession_revokeLive _ _ x,
      fun t _ => growsToken_consumeUnused _ _ t, trivial, trivial⟩
  | verifiedEmail _ _ _ _ => exact ⟨fun _ => trivial, trivial, trivial, trivial, trivial⟩
  | userActivated _ _ _ => exact ⟨fun _ => trivial, trivial, trivial, trivial, trivial⟩
  | userDeactivated _ _ _ _ _ =>
    exact ⟨fun _ => trivial, fun x _ => growsSession_revokeLive _ _ x, trivial, trivial, trivial⟩
  | setupRestarted _ _ _ _ _ _ => exact ⟨trivial, trivial, trivial, fun _ => rfl, trivial⟩
  | confirmed _ _ _ _ _ _ =>
    exact ⟨trivial, trivial, trivial, fun _ => MfaCredential.userId_enable _ _,
      fun _ => MfaRecoveryCode.not_used_of_unusedOf⟩
  | verifiedTotp _ _ _ _ _ _ _ => exact ⟨trivial, trivial, trivial, fun _ => rfl, trivial⟩
  | verifiedRecovery _ _ _ _ _ hu _ =>
    exact ⟨trivial, trivial, trivial, fun _ => rfl, fun h => by simp [hu] at h⟩
  | regenerated =>
    exact ⟨trivial, trivial, trivial, trivial, fun _ => MfaRecoveryCode.not_used_of_unusedOf⟩
  | _ => exact ⟨trivial, trivial, trivial, trivial, trivial⟩

end Grows

end Bekaa3D.Identity
