import Bekaa3D.Identity.Store

/-!
# Identity.Repositories — the statements each repository method sends

The methods of `infrastructure/repositories.py` and of the audit and outbox repositories.

* `save` re-reads the row, since nothing holds on to the instance loaded before, and updates the columns whose
  assigned value differs from the re-read one: no column, no `UPDATE`.
* An `INSERT` that violates a foreign key or a unique index raises.
-/

namespace Bekaa3D.Identity

open Txn

/-- One statement. -/
def stmt (o : Op) : Handler (Resp o) := Prog.sql (S := lang) o

def raise {α : Type} (e : IdentityError) : Handler α := Prog.raise e

/-- The rest of a multi-row statement: one statement per row, and how many of them it hit. -/
def sweepRows (each : Uuid → Handler Bool) : List Uuid → Handler ℕ
  | [] => return 0
  | id :: ids => do
    let hit ← each id
    let n ← sweepRows each ids
    return if hit then n + 1 else n

/-- A statement that may hit many rows. -/
def sweep (scan : Handler (List Uuid)) (each : Uuid → Handler Bool) : Handler ℕ := do
  let ids ← scan
  sweepRows each ids

/-- A flush of one changed row. -/
def flush (update : Handler Bool) : Handler Unit := do
  if ← update then return () else raise .staleData

/-- The `save` of every repository: the row is loaded again, and updated unless nothing changed. -/
def saveRow {V : Type} (id : Uuid) (load : Handler (Option V)) (unchanged : V → Bool) (update : V → Handler Bool) :
    Handler Unit := do
  match ← load with
  | none => raise (.notFound id)
  | some model => if unchanged model then return () else flush (update model)

/-! ## Users -/

namespace UserRepository

def getByEmail (email : String) : Handler (Option User) := stmt (.selectUserByEmail email)

def getById (userId : Uuid) : Handler (Option User) := stmt (.selectUser userId)

def getAuthEpoch (userId : Uuid) : Handler (Option ℕ) := stmt (.selectAuthEpoch userId)

def getByIdForUpdate (userId : Uuid) : Handler (Option User) := stmt (.selectUserForUpdate userId)

/-- The columns that `save` writes to the row `model`. -/
def cols (model user : User) : UserCols where
  passwordHash := changed model.passwordHash user.passwordHash
  emailVerifiedAt := changed model.emailVerifiedAt user.emailVerifiedAt
  isActive := changed model.isActive user.isActive
  anonymizedAt := changed model.anonymizedAt user.anonymizedAt
  deletedAt := changed model.deletedAt user.deletedAt
  authEpoch := changed model.authEpoch user.authEpoch

/-- The written columns make the row what was saved, if the columns that are never written agree. -/
theorem cols_apply {u u' : User} (h : u' = { u with
    passwordHash := u'.passwordHash, emailVerifiedAt := u'.emailVerifiedAt, isActive := u'.isActive,
    anonymizedAt := u'.anonymizedAt, deletedAt := u'.deletedAt, authEpoch := u'.authEpoch }) :
    (cols u u').apply u = u' := by
  rw [h]
  simp [cols, UserCols.apply]

def save (user : User) : Handler Unit :=
  saveRow user.id (stmt (.selectUser user.id)) (fun model => cols model user = {}) fun model =>
    stmt (.updateUser user.id (cols model user))

end UserRepository

/-! ## Sessions -/

namespace SessionRepository

def getOwnerId (sessionId : Uuid) : Handler (Option Uuid) := stmt (.selectSessionOwner sessionId)

def getForUpdate (sessionId : Uuid) : Handler (Option Session) := stmt (.selectSessionForUpdate sessionId)

def add (sessionId userId : Uuid) (refreshTokenHash : String) (expiresAt : Instant)
    (ipHash userAgent : Option String) : Handler Session := do
  let row : Session := {
    id := sessionId, userId, refreshTokenHash, tokenVersion := 1, expiresAt, lastUsedAt := none,
    rotatedAt := none, revokedAt := none, reuseDetectedAt := none, ipHash, userAgent }
  if ← stmt (.insertSession row) then return row else raise .integrity

def cols (model session : Session) : SessionCols where
  refreshTokenHash := changed model.refreshTokenHash session.refreshTokenHash
  tokenVersion := changed model.tokenVersion session.tokenVersion
  lastUsedAt := changed model.lastUsedAt session.lastUsedAt
  rotatedAt := changed model.rotatedAt session.rotatedAt
  revokedAt := changed model.revokedAt session.revokedAt
  reuseDetectedAt := changed model.reuseDetectedAt session.reuseDetectedAt

theorem cols_apply {x x' : Session} (h : x' = { x with
    refreshTokenHash := x'.refreshTokenHash, tokenVersion := x'.tokenVersion, lastUsedAt := x'.lastUsedAt,
    rotatedAt := x'.rotatedAt, revokedAt := x'.revokedAt, reuseDetectedAt := x'.reuseDetectedAt }) :
    (cols x x').apply x = x' := by
  rw [h]
  simp [cols, SessionCols.apply]

def save (session : Session) : Handler Unit :=
  saveRow session.id (stmt (.selectSession session.id)) (fun model => cols model session = {}) fun model =>
    stmt (.updateSession session.id (cols model session))

def revokeAllForUser (userId : Uuid) (at_ : Instant) : Handler ℕ :=
  sweep (stmt (.scanLiveSessions userId)) fun id => stmt (.revokeSession id userId at_)

end SessionRepository

/-! ## One-time tokens -/

namespace VerificationTokenRepository

def getByHash (tokenHash : String) : Handler (Option VerificationToken) :=
  stmt (.selectVerificationTokenByHash tokenHash)

def save (token : VerificationToken) : Handler Unit :=
  saveRow token.id (stmt (.selectVerificationToken token.id)) (fun model => model.usedAt = token.usedAt) fun _ =>
    stmt (.updateVerificationToken token.id token.usedAt)

end VerificationTokenRepository

namespace PasswordResetTokenRepository

def getByHashForUpdate (tokenHash : String) : Handler (Option PasswordResetToken) :=
  stmt (.selectResetTokenForUpdate tokenHash)

def getLatestForUser (userId : Uuid) : Handler (Option PasswordResetToken) :=
  stmt (.selectLatestResetToken userId)

def add (userId : Uuid) (tokenHash : String) (expiresAt : Instant) : Handler PasswordResetToken := do
  match ← stmt (.insertResetToken userId tokenHash expiresAt) with
  | some token => return token
  | none => raise .integrity

def save (token : PasswordResetToken) : Handler Unit :=
  saveRow token.id (stmt (.selectResetToken token.id)) (fun model => model.usedAt = token.usedAt) fun _ =>
    stmt (.updateResetToken token.id token.usedAt)

def consumeOutstandingForUser (userId : Uuid) (at_ : Instant) : Handler ℕ :=
  sweep (stmt (.scanUnusedResetTokens userId)) fun id => stmt (.consumeResetToken id userId at_)

end PasswordResetTokenRepository

/-! ## Second factors -/

namespace MfaCredentialRepository

def getByUserId (userId : Uuid) : Handler (Option MfaCredential) := stmt (.selectCredentialByUser userId)

def getByUserIdForUpdate (userId : Uuid) : Handler (Option MfaCredential) :=
  stmt (.selectCredentialByUserForUpdate userId)

def add (userId : Uuid) (secretCiphertext : String) : Handler MfaCredential := do
  match ← stmt (.insertCredential userId secretCiphertext) with
  | some credential => return credential
  | none => raise .integrity

def cols (model credential : MfaCredential) : MfaCredentialCols where
  secretCiphertext := changed model.secretCiphertext credential.secretCiphertext
  enabledAt := changed model.enabledAt credential.enabledAt
  lastUsedAt := changed model.lastUsedAt credential.lastUsedAt
  lastTotpStep := changed model.lastTotpStep credential.lastTotpStep

theorem cols_apply {c c' : MfaCredential} (h : c' = { c with
    secretCiphertext := c'.secretCiphertext, enabledAt := c'.enabledAt, lastUsedAt := c'.lastUsedAt,
    lastTotpStep := c'.lastTotpStep }) : (cols c c').apply c = c' := by
  rw [h]
  simp [cols, MfaCredentialCols.apply]

def save (credential : MfaCredential) : Handler Unit :=
  saveRow credential.id (stmt (.selectCredential credential.id)) (fun model => cols model credential = {})
    fun model => stmt (.updateCredential credential.id (cols model credential))

end MfaCredentialRepository

namespace MfaRecoveryCodeRepository

def getUnusedByHash (mfaCredentialId : Uuid) (codeHash : String) : Handler (Option MfaRecoveryCode) :=
  stmt (.selectUnusedCodeForUpdate mfaCredentialId codeHash)

def addSet (mfaCredentialId : Uuid) : List String → Handler Unit
  | [] => return ()
  | codeHash :: codeHashes => do
    match ← stmt (.insertCode mfaCredentialId codeHash) with
    | some _ => addSet mfaCredentialId codeHashes
    | none => raise .integrity

def countUnused (mfaCredentialId : Uuid) : Handler ℕ := stmt (.countUnusedCodes mfaCredentialId)

def deleteUnused (mfaCredentialId : Uuid) : Handler ℕ :=
  sweep (stmt (.scanUnusedCodes mfaCredentialId)) fun id => stmt (.deleteUnusedCode id mfaCredentialId)

def save (code : MfaRecoveryCode) : Handler Unit :=
  saveRow code.id (stmt (.selectCode code.id)) (fun model => model.usedAt = code.usedAt) fun _ =>
    stmt (.updateCode code.id code.usedAt)

end MfaRecoveryCodeRepository

/-! ## Audit log and outbox -/

def AuditLogRepository.add (row : AuditLog) : Handler Unit := do
  if ← stmt (.insertAudit row) then return () else raise .integrity

def EmailOutboxRepository.add (row : EmailOutbox) : Handler Unit := do
  if ← stmt (.insertOutbox row) then return () else raise .integrity

end Bekaa3D.Identity
