import Bekaa3D.Txn.Engine
import Bekaa3D.Txn.Table
import Bekaa3D.Identity.Tokens

/-!
# Identity.Schema — the identity tables and the statements against them

The tables of the identity context (`infrastructure/models.py`), the row locks of PostgreSQL that matter
here, and the statements that the repositories send.  `Identity.Store` gives them their meaning.

* A statement reads and writes at most one row, or only reads.  An `UPDATE` or `DELETE` with a condition that
  many rows may meet is a scan, which lists the rows that meet it when the statement starts, in any order,
  followed by one statement per row, which locks the row and evaluates the condition on it again.
* Clocks, random sources, salted hashes and ciphertexts are statements that any reply answers.
-/

namespace Bekaa3D.Identity

open Txn

/-! ## Tables -/

inductive AuditValue where
  | bool (b : Bool)
  | int (n : ℤ)
  deriving DecidableEq, Repr

abbrev AuditData := List (String × AuditValue)

structure AuditLog where
  actorUserId : Option Uuid
  action : String
  entityType : String
  entityId : Option Uuid
  beforeData : Option AuditData := none
  afterData : Option AuditData := none
  requestId : Option String
  ipHash : Option String
  deriving DecidableEq, Repr

structure EmailOutbox where
  userId : Option Uuid
  recipientEmail : String
  template : String
  payload : List (String × String)
  deriving DecidableEq, Repr

structure Db where
  users : Table User.id
  sessions : Table Session.id
  verificationTokens : Table VerificationToken.id
  passwordResetTokens : Table PasswordResetToken.id
  mfaCredentials : Table MfaCredential.id
  mfaRecoveryCodes : Table MfaRecoveryCode.id
  auditLogs : List AuditLog
  emailOutbox : List EmailOutbox

structure UserCols where
  passwordHash : Option String := none
  emailVerifiedAt : Option (Option Instant) := none
  isActive : Option Bool := none
  anonymizedAt : Option (Option Instant) := none
  deletedAt : Option (Option Instant) := none
  authEpoch : Option ℕ := none
  deriving DecidableEq, Repr

def UserCols.apply (c : UserCols) (u : User) : User :=
  { u with
    passwordHash := c.passwordHash.getD u.passwordHash
    emailVerifiedAt := c.emailVerifiedAt.getD u.emailVerifiedAt
    isActive := c.isActive.getD u.isActive
    anonymizedAt := c.anonymizedAt.getD u.anonymizedAt
    deletedAt := c.deletedAt.getD u.deletedAt
    authEpoch := c.authEpoch.getD u.authEpoch }

structure SessionCols where
  refreshTokenHash : Option String := none
  tokenVersion : Option ℕ := none
  lastUsedAt : Option (Option Instant) := none
  rotatedAt : Option (Option Instant) := none
  revokedAt : Option (Option Instant) := none
  reuseDetectedAt : Option (Option Instant) := none
  deriving DecidableEq, Repr

def SessionCols.apply (c : SessionCols) (x : Session) : Session :=
  { x with
    refreshTokenHash := c.refreshTokenHash.getD x.refreshTokenHash
    tokenVersion := c.tokenVersion.getD x.tokenVersion
    lastUsedAt := c.lastUsedAt.getD x.lastUsedAt
    rotatedAt := c.rotatedAt.getD x.rotatedAt
    revokedAt := c.revokedAt.getD x.revokedAt
    reuseDetectedAt := c.reuseDetectedAt.getD x.reuseDetectedAt }

structure MfaCredentialCols where
  secretCiphertext : Option String := none
  enabledAt : Option (Option Instant) := none
  lastUsedAt : Option (Option Instant) := none
  lastTotpStep : Option (Option ℤ) := none
  deriving DecidableEq, Repr

def MfaCredentialCols.apply (c : MfaCredentialCols) (x : MfaCredential) : MfaCredential :=
  { x with
    secretCiphertext := c.secretCiphertext.getD x.secretCiphertext
    enabledAt := c.enabledAt.getD x.enabledAt
    lastUsedAt := c.lastUsedAt.getD x.lastUsedAt
    lastTotpStep := c.lastTotpStep.getD x.lastTotpStep }

/-! ## Row locks -/

inductive RowId where
  | user (id : Uuid)
  | session (id : Uuid)
  | verificationToken (id : Uuid)
  | passwordResetToken (id : Uuid)
  | mfaCredential (id : Uuid)
  | mfaRecoveryCode (id : Uuid)
  /-- The entry of the unique index on `mfa_credentials.user_id`. -/
  | mfaCredentialOf (userId : Uuid)
  deriving DecidableEq, Repr

inductive LockMode where
  | keyShare
  | noKeyUpdate
  | update
  deriving DecidableEq, Repr

structure RowLock where
  row : RowId
  mode : LockMode
  deriving DecidableEq, Repr

/-- PostgreSQL's row-lock conflicts, of the three modes in use. -/
def LockMode.conflict : LockMode → LockMode → Bool
  | .keyShare, .update => true
  | .update, .keyShare => true
  | .noKeyUpdate, .noKeyUpdate => true
  | .noKeyUpdate, .update => true
  | .update, .noKeyUpdate => true
  | .update, .update => true
  | _, _ => false

def RowLock.conflict (l m : RowLock) : Bool := l.row = m.row && l.mode.conflict m.mode

theorem RowLock.conflict_comm (l m : RowLock) : l.conflict m = m.conflict l := by
  have h : decide (l.row = m.row) = decide (m.row = l.row) := decide_eq_decide.mpr eq_comm
  unfold RowLock.conflict
  rw [h]
  cases l.mode <;> cases m.mode <;> rfl

/-! ## Statements -/

/-- Redis keys: the login throttle's counter, a session's completion flag, a login challenge. -/
inductive RedisKey where
  | loginThrottle (emailDigest ip : String)
  | mfaCompleted (sessionId : Uuid)
  | mfaChallenge (challengeId : String)
  deriving DecidableEq, Repr

/-- Redis values: a counter, `"1"`, and `"{user_id}:{auth_epoch}"`. -/
inductive RedisVal where
  | counter (n : ℕ)
  | flag
  | challenge (userId : Uuid) (epoch : ℕ)
  deriving DecidableEq, Repr

inductive Op where
  -- the process: clock, random sources, salted hashes and ciphertexts, sleeping
  | now
  | uuid4
  | tokenUrlsafe (bytes : ℕ)
  | hashPassword (password : String)
  | generateSecret
  | encryptSecret (secret : String)
  | generateCodeSet
  | sleep (seconds : ℕ)
  /-- An access token is signed. -/
  | issueAccessToken (claims : AccessTokenClaims) (now : Instant)
  -- users
  | selectUserByEmail (email : String)
  | selectUser (id : Uuid)
  | selectAuthEpoch (id : Uuid)
  | selectUserForUpdate (id : Uuid)
  | updateUser (id : Uuid) (cols : UserCols)
  -- sessions
  | selectSessionOwner (id : Uuid)
  | selectSession (id : Uuid)
  | selectSessionForUpdate (id : Uuid)
  | insertSession (row : Session)
  | updateSession (id : Uuid) (cols : SessionCols)
  | scanLiveSessions (userId : Uuid)
  | revokeSession (id userId : Uuid) (at_ : Instant)
  -- verification_tokens
  | selectVerificationTokenByHash (tokenHash : String)
  | selectVerificationToken (id : Uuid)
  | updateVerificationToken (id : Uuid) (usedAt : Option Instant)
  -- password_reset_tokens
  | selectResetTokenForUpdate (tokenHash : String)
  | selectResetToken (id : Uuid)
  | selectLatestResetToken (userId : Uuid)
  | insertResetToken (userId : Uuid) (tokenHash : String) (expiresAt : Instant)
  | updateResetToken (id : Uuid) (usedAt : Option Instant)
  | scanUnusedResetTokens (userId : Uuid)
  | consumeResetToken (id userId : Uuid) (at_ : Instant)
  -- mfa_credentials
  | selectCredentialByUser (userId : Uuid)
  | selectCredentialByUserForUpdate (userId : Uuid)
  | selectCredential (id : Uuid)
  | insertCredential (userId : Uuid) (secretCiphertext : String)
  | updateCredential (id : Uuid) (cols : MfaCredentialCols)
  -- mfa_recovery_codes
  | selectUnusedCodeForUpdate (mfaCredentialId : Uuid) (codeHash : String)
  | selectCode (id : Uuid)
  | updateCode (id : Uuid) (usedAt : Option Instant)
  | countUnusedCodes (mfaCredentialId : Uuid)
  | scanUnusedCodes (mfaCredentialId : Uuid)
  | deleteUnusedCode (id mfaCredentialId : Uuid)
  | insertCode (mfaCredentialId : Uuid) (codeHash : String)
  -- audit_logs, email_outbox
  | insertAudit (row : AuditLog)
  | insertOutbox (row : EmailOutbox)
  -- Redis
  | redisGet (key : RedisKey)
  | redisSet (key : RedisKey) (val : RedisVal) (ex : ℕ)
  | redisIncr (key : RedisKey)
  | redisExpire (key : RedisKey) (seconds : ℕ)
  | redisDelete (key : RedisKey)

@[reducible] def Resp : Op → Type
  | .now => Instant
  | .uuid4 => Uuid
  | .tokenUrlsafe _ => String
  | .hashPassword _ => String
  | .generateSecret => String
  | .encryptSecret _ => String
  | .generateCodeSet => List String
  | .sleep _ => Unit
  | .issueAccessToken _ _ => String
  | .selectUserByEmail _ => Option User
  | .selectUser _ => Option User
  | .selectAuthEpoch _ => Option ℕ
  | .selectUserForUpdate _ => Option User
  | .updateUser _ _ => Bool
  | .selectSessionOwner _ => Option Uuid
  | .selectSession _ => Option Session
  | .selectSessionForUpdate _ => Option Session
  | .insertSession _ => Bool
  | .updateSession _ _ => Bool
  | .scanLiveSessions _ => List Uuid
  | .revokeSession _ _ _ => Bool
  | .selectVerificationTokenByHash _ => Option VerificationToken
  | .selectVerificationToken _ => Option VerificationToken
  | .updateVerificationToken _ _ => Bool
  | .selectResetTokenForUpdate _ => Option PasswordResetToken
  | .selectResetToken _ => Option PasswordResetToken
  | .selectLatestResetToken _ => Option PasswordResetToken
  | .insertResetToken _ _ _ => Option PasswordResetToken
  | .updateResetToken _ _ => Bool
  | .scanUnusedResetTokens _ => List Uuid
  | .consumeResetToken _ _ _ => Bool
  | .selectCredentialByUser _ => Option MfaCredential
  | .selectCredentialByUserForUpdate _ => Option MfaCredential
  | .selectCredential _ => Option MfaCredential
  | .insertCredential _ _ => Option MfaCredential
  | .updateCredential _ _ => Bool
  | .selectUnusedCodeForUpdate _ _ => Option MfaRecoveryCode
  | .selectCode _ => Option MfaRecoveryCode
  | .updateCode _ _ => Bool
  | .countUnusedCodes _ => ℕ
  | .scanUnusedCodes _ => List Uuid
  | .deleteUnusedCode _ _ => Bool
  | .insertCode _ _ => Option MfaRecoveryCode
  | .insertAudit _ => Bool
  | .insertOutbox _ => Bool
  | .redisGet _ => Option RedisVal
  | .redisSet _ _ _ => Unit
  | .redisIncr _ => ℕ
  | .redisExpire _ _ => Unit
  | .redisDelete _ => Unit

/-! ## Answers -/

/-- What the authentication cookies carry. -/
structure SessionCookies where
  accessToken : String
  refreshToken : String
  csrfToken : String
  deriving DecidableEq, Repr

structure SessionRead where
  userId : Uuid
  email : String
  role : UserRole
  emailVerified : Bool
  sessionExpiresAt : Instant
  deriving DecidableEq, Repr

structure MfaSetupResult where
  secret : String
  otpauthUri : String
  issuer : String
  accountName : String
  deriving DecidableEq, Repr

structure MfaRecoveryCodesRead where
  recoveryCodes : List String
  generatedAt : Instant
  deriving DecidableEq, Repr

/-- The successful answers of the routes. -/
inductive Answer where
  | noContent
  /-- 204, and the cookies are cleared. -/
  | cookiesCleared
  | loggedIn (read : SessionRead) (cookies : SessionCookies)
  | mfaChallenge (challengeId : String) (expiresInSeconds : ℕ)
  | cookiesSet (cookies : SessionCookies)
  | mfaSetup (read : MfaSetupResult)
  | mfaEnabled (read : MfaRecoveryCodesRead) (accessToken : String)
  | recoveryCodes (read : MfaRecoveryCodesRead)
  | user (read : User)
  | passwordResetAccepted
  deriving DecidableEq, Repr

/-- The statement language of the identity context. -/
@[reducible] def lang : Lang where
  Op := Op
  Resp := Resp
  Err := IdentityError
  Ans := Answer

/-- A request handler, or a part of one. -/
abbrev Handler := Prog lang

end Bekaa3D.Identity
