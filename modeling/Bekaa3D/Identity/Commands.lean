import Bekaa3D.Identity.Services

/-!
# Identity.Commands — the use cases

The commands of `application/commands/`, each as the sequence of its statements with its refusals.
-/

namespace Bekaa3D.Identity

open Txn

/-- The audit columns that a request fills. -/
structure AuditContext where
  requestId : Option String := none
  ipHash : Option String := none
  deriving DecidableEq, Repr

def AuditContext.log (ctx : AuditContext) (actor : Uuid) (action entityType : String) (entityId : Option Uuid)
    (beforeData afterData : Option AuditData := none) : AuditLog where
  actorUserId := some actor
  action := action
  entityType := entityType
  entityId := entityId
  beforeData := beforeData
  afterData := afterData
  requestId := ctx.requestId
  ipHash := ctx.ipHash

structure LoginResult where
  userId : Uuid
  email : String
  sessionId : Uuid
  sessionExpiresAt : Instant
  role : UserRole
  emailVerified : Bool
  accessToken : String
  refreshToken : String
  csrfToken : String

/-- Login stopped short of issuing a session. -/
structure MfaChallengeRequired where
  userId : Uuid
  authEpoch : ℕ

variable (env : Env)

/-! ## Login -/

/-- The end of `Login.execute` and of `CompleteMfaLogin.execute`: a session of the locked account, its tokens,
and the audit row. -/
def openSession (user : User) (mfaCompleted : Bool) (userAgent : Option String) (ctx : AuditContext) :
    Handler LoginResult := do
  let now ← stmt .now
  let sessionId ← stmt .uuid4
  let expiresAt := now + days env.refreshTokenDays
  let refreshToken := issueRefreshToken env sessionId 1 expiresAt now
  let _ ← SessionRepository.add sessionId user.id (env.hashToken refreshToken) expiresAt ctx.ipHash userAgent
  AuditLogRepository.add (ctx.log user.id "user.logged_in" "Session" (some sessionId))
  let accessToken ← stmt (.issueAccessToken {
    userId := user.id, sessionId := sessionId, role := user.role, emailVerified := user.isVerified,
    mfaCompleted := mfaCompleted, authEpoch := user.authEpoch } now)
  return {
    userId := user.id, email := user.email, sessionId := sessionId, sessionExpiresAt := expiresAt,
    role := user.role, emailVerified := user.isVerified, accessToken := accessToken,
    refreshToken := refreshToken, csrfToken := env.csrfTokenForSession sessionId }

def login (email password : String) (ip : Option String) (userAgent : Option String) (ctx : AuditContext) :
    Handler (LoginResult ⊕ MfaChallengeRequired) := do
  LoginThrottle.check env email ip
  -- Unlocked: the password check is slow.
  match ← UserRepository.getByEmail email with
  | none =>
    let _ := env.verifyPassword password env.dummyPasswordHash
    LoginThrottle.recordFailure env email ip
    raise .invalidCredentials
  | some user =>
    let verifiedHash := user.passwordHash
    if !env.verifyPassword password verifiedHash then
      LoginThrottle.recordFailure env email ip
      raise .invalidCredentials
    else if !user.canAuthenticate then raise (.accountDisabled user.id)
    else
      LoginThrottle.reset env email ip
      match ← UserRepository.getByIdForUpdate user.id with
      | none => raise .invalidCredentials
      | some user =>
        if !user.canAuthenticate then raise (.accountDisabled user.id)
        else if user.passwordHash ≠ verifiedHash then raise .invalidCredentials
        else if ← AdminMfaGate.challengeRequired user then
          AuditLogRepository.add (ctx.log user.id "user.mfa_challenge_issued" "User" (some user.id))
          return .inr ⟨user.id, user.authEpoch⟩
        else
          let result ← openSession env user false userAgent ctx
          return .inl result

def completeMfaLogin (userId : Uuid) (challengeEpoch : ℕ) (userAgent : Option String) (ctx : AuditContext) :
    Handler LoginResult := do
  match ← UserRepository.getByIdForUpdate userId with
  | none => raise .invalidCredentials
  | some user =>
    if !user.canAuthenticate then raise (.accountDisabled user.id)
    else if challengeEpoch ≠ user.authEpoch then raise .invalidCredentials
    else openSession env user true userAgent ctx

/-! ## Sessions -/

structure RefreshResult where
  sessionId : Uuid
  accessToken : String
  refreshToken : String
  csrfToken : String

/-- The end of `RefreshSession.execute`, with the owner and the session locked. -/
def rotateSession (rawRefreshToken : String) (mfaCompleted : Bool) (ctx : AuditContext)
    (claims : RefreshTokenClaims) (user : Option User) (session : Session) : Handler RefreshResult := do
  let now ← stmt .now
  match session.authorizeRotation (env.hashToken rawRefreshToken) claims.tokenVersion now with
  | .error (.refreshTokenReuse id) =>
    SessionRepository.save (session.markReuseDetected now)
    AuditLogRepository.add (ctx.log session.userId "session.reuse_detected" "Session" (some session.id))
    raise (.refreshTokenReuse id)
  | .error e => raise e
  | .ok () =>
    match user.filter User.canAuthenticate with
    | none =>
      SessionRepository.save (session.revoke now)
      raise (.sessionOwnerRevoked session.id)
    | some user =>
      let refreshToken := issueRefreshToken env session.id (session.tokenVersion + 1) session.expiresAt now
      SessionRepository.save (session.rotate (env.hashToken refreshToken) now)
      let accessToken ← stmt (.issueAccessToken {
        userId := user.id, sessionId := session.id, role := user.role, emailVerified := user.isVerified,
        mfaCompleted := mfaCompleted, authEpoch := user.authEpoch } now)
      return {
        sessionId := session.id, accessToken := accessToken, refreshToken := refreshToken,
        csrfToken := env.csrfTokenForSession session.id }

def refreshSession (rawRefreshToken : String) (mfaCompleted : Bool) (ctx : AuditContext) :
    Handler RefreshResult := do
  let at_ ← stmt .now
  let claims ← Prog.ofExcept (decodeRefreshToken env rawRefreshToken at_)
  match ← SessionRepository.getOwnerId claims.sessionId with
  | none => raise .invalidSession
  | some ownerId =>
    let user ← UserRepository.getByIdForUpdate ownerId
    match ← SessionRepository.getForUpdate claims.sessionId with
    | none => raise .invalidSession
    | some session => rotateSession env rawRefreshToken mfaCompleted ctx claims user session

def logout (sessionId : Uuid) (ctx : AuditContext) : Handler Unit := do
  match ← SessionRepository.getForUpdate sessionId with
  | none => return ()
  | some session =>
    if session.isRevoked then return ()
    else
      let now ← stmt .now
      SessionRepository.save (session.revoke now)
      AuditLogRepository.add (ctx.log session.userId "user.logged_out" "Session" (some session.id))

/-! ## Accounts -/

def requestPasswordReset (email : String) (ctx : AuditContext) : Handler Unit := do
  match ← UserRepository.getByEmail email with
  | none => return ()
  | some user =>
    if ← resetRequestEligible user then
      issuePasswordResetEmail env user
      AuditLogRepository.add (ctx.log user.id "user.password_reset_requested" "User" (some user.id))
    else return ()

def confirmPasswordReset (rawToken newPassword : String) (ctx : AuditContext) : Handler Unit := do
  match ← PasswordResetTokenRepository.getByHashForUpdate (env.hashToken rawToken) with
  | none => raise .invalidPasswordResetToken
  | some token =>
    match (← UserRepository.getByIdForUpdate token.userId).filter User.canAuthenticate with
    | none => raise .invalidPasswordResetToken
    | some user =>
      let now ← stmt .now
      let token ← Prog.ofExcept (token.markUsed now)
      let passwordHash ← stmt (.hashPassword newPassword)
      let user := (user.changePassword passwordHash).invalidateCredentials
      PasswordResetTokenRepository.save token
      UserRepository.save user
      let _ ← PasswordResetTokenRepository.consumeOutstandingForUser user.id now
      let revoked ← SessionRepository.revokeAllForUser user.id now
      AuditLogRepository.add (ctx.log user.id "user.password_reset" "User" (some user.id) none
        (some [("sessions_revoked", .int revoked)]))

def verifyEmail (rawToken : String) (ctx : AuditContext) : Handler Unit := do
  match ← VerificationTokenRepository.getByHash (env.hashToken rawToken) with
  | none => raise .invalidVerificationToken
  | some token =>
    match ← UserRepository.getById token.userId with
    | none => raise .invalidVerificationToken
    | some user =>
      let now ← stmt .now
      let token ← Prog.ofExcept (token.markUsed now)
      let user ← Prog.ofExcept (user.markVerified now)
      UserRepository.save user
      VerificationTokenRepository.save token
      AuditLogRepository.add (ctx.log user.id "user.email_verified" "User" (some user.id))

structure SetUserActiveResult where
  user : User
  changed : Bool
  sessionsRevoked : ℕ

def setUserActive (userId : Uuid) (isActive : Bool) (actorUserId : Uuid) (ctx : AuditContext) :
    Handler (Option SetUserActiveResult) := do
  match ← UserRepository.getByIdForUpdate userId with
  | none => return none
  | some user =>
    if user.anonymizedAt.isSome || user.deletedAt.isSome then raise (.accountNotMutable userId)
    else
      let beforeActive := user.isActive
      let now ← stmt .now
      let (moved, user) := user.setActive isActive
      if !moved then return some ⟨user, false, 0⟩
      else
        let deactivating := beforeActive && !isActive
        let user := if deactivating then user.invalidateCredentials else user
        UserRepository.save user
        let sessionsRevoked ←
          if deactivating then SessionRepository.revokeAllForUser user.id now else pure 0
        let action := if isActive then "user.activated" else "user.deactivated"
        let afterData : AuditData := ("is_active", .bool isActive) ::
          (if isActive then [] else [("sessions_revoked", .int sessionsRevoked)])
        AuditLogRepository.add (ctx.log actorUserId action "User" (some user.id)
          (some [("is_active", .bool beforeActive)]) (some afterData))
        return some ⟨user, true, sessionsRevoked⟩

/-! ## Second factors -/

def mfaSetup (userId : Uuid) (currentPassword : String) (ctx : AuditContext) : Handler MfaSetupResult := do
  match (← UserRepository.getById userId).filter User.canAuthenticate with
  | none => raise .mfaNotEnrolled
  | some user =>
    if !env.verifyPassword currentPassword user.passwordHash then raise .invalidCredentials
    else
      let existing ← MfaCredentialRepository.getByUserId userId
      if existing.any MfaCredential.isEnabled then raise .mfaAlreadyEnabled
      else
        let secret ← stmt .generateSecret
        let ciphertext ← stmt (.encryptSecret secret)
        match existing with
        | none =>
          let _ ← MfaCredentialRepository.add userId ciphertext
        | some existing =>
          MfaCredentialRepository.save { existing with secretCiphertext := ciphertext }
        AuditLogRepository.add (ctx.log userId "mfa.enrollment_started" "MfaCredential" none)
        return {
          secret := secret, otpauthUri := env.provisioningUri secret user.email, issuer := env.mfaIssuer,
          accountName := user.email }

/-- A fresh set of recovery codes for a credential; the plaintext is returned. -/
def issueRecoveryCodes (mfaCredentialId : Uuid) : Handler (List String) := do
  let codes ← stmt .generateCodeSet
  MfaRecoveryCodeRepository.addSet mfaCredentialId (codes.map fun c => env.hashToken (env.normalizeCode c))
  return codes

def decryptSecret (ciphertext : String) : Handler String :=
  match env.decryptSecret ciphertext with
  | some secret => return secret
  | none => raise .secretDecryption

def confirmMfaSetup (userId : Uuid) (code : String) (ctx : AuditContext) : Handler MfaRecoveryCodesRead := do
  match ← MfaCredentialRepository.getByUserIdForUpdate userId with
  | none => raise .mfaNotEnrolled
  | some credential =>
    if credential.isEnabled then raise .mfaAlreadyEnabled
    else
      let now ← stmt .now
      let secret ← decryptSecret env credential.secretCiphertext
      match verifyCodeStep env secret code now with
      | none => raise .invalidMfaCode
      | some matchedStep =>
        MfaCredentialRepository.save ((credential.enable now).recordTotpStep matchedStep now)
        let _ ← MfaRecoveryCodeRepository.deleteUnused credential.id
        let codes ← issueRecoveryCodes env credential.id
        AuditLogRepository.add (ctx.log userId "mfa.enabled" "MfaCredential" (some credential.id) none
          (some [("recovery_codes_issued", .int codes.length)]))
        return ⟨codes, now⟩

structure MfaVerifyResult where
  usedRecoveryCode : Bool
  remainingRecoveryCodes : ℕ

/-- The recovery-code branch of `VerifyMfa.execute`: the code is redeemed; returns how many are left. -/
def redeemRecoveryCode (credential : MfaCredential) (userId : Uuid) (recoveryCode : String) (now : Instant)
    (ctx : AuditContext) : Handler ℕ := do
  match ← MfaRecoveryCodeRepository.getUnusedByHash credential.id
      (env.hashToken (env.normalizeCode recoveryCode)) with
  | none => raise .invalidRecoveryCode
  | some stored =>
    let stored ← Prog.ofExcept (stored.redeem now)
    MfaRecoveryCodeRepository.save stored
    let remaining ← MfaRecoveryCodeRepository.countUnused credential.id
    AuditLogRepository.add (ctx.log userId "mfa.recovery_code_used" "MfaCredential" (some credential.id) none
      (some [("remaining_recovery_codes", .int remaining)]))
    return remaining

/-- The TOTP branch of `VerifyMfa.execute`: the time step the code matched, unless it is spent. -/
def acceptTotp (credential : MfaCredential) (userId : Uuid) (code : Option String) (now : Instant)
    (ctx : AuditContext) : Handler (ℤ × ℕ) := do
  let matched ← match code with
    | none => pure none
    | some code => do
      let secret ← decryptSecret env credential.secretCiphertext
      pure (verifyCodeStep env secret code now)
  match matched with
  | none => raise .invalidMfaCode
  | some matchedStep =>
    if credential.isTotpStepReplayed matchedStep then
      AuditLogRepository.add (ctx.log userId "mfa.replay_rejected" "MfaCredential" (some credential.id) none
        (some [("time_step", .int matchedStep)]))
      raise .mfaCodeReplayed
    else
      let remaining ← MfaRecoveryCodeRepository.countUnused credential.id
      AuditLogRepository.add (ctx.log userId "mfa.verified" "MfaCredential" (some credential.id))
      return (matchedStep, remaining)

def verifyMfa (userId : Uuid) (code recoveryCode : Option String) (ctx : AuditContext) :
    Handler MfaVerifyResult := do
  match (← MfaCredentialRepository.getByUserIdForUpdate userId).filter MfaCredential.isEnabled with
  | none => raise .mfaNotEnrolled
  | some credential =>
    let now ← stmt .now
    match recoveryCode with
    | some recoveryCode =>
      let remaining ← redeemRecoveryCode env credential userId recoveryCode now ctx
      MfaCredentialRepository.save (credential.markUsed now)
      return ⟨true, remaining⟩
    | none =>
      let (matchedStep, remaining) ← acceptTotp env credential userId code now ctx
      MfaCredentialRepository.save (credential.recordTotpStep matchedStep now)
      return ⟨false, remaining⟩

def regenerateRecoveryCodes (userId : Uuid) (currentPassword : String) (ctx : AuditContext) :
    Handler MfaRecoveryCodesRead := do
  match (← UserRepository.getById userId).filter User.canAuthenticate with
  | none => raise .mfaNotEnrolled
  | some user =>
    if !env.verifyPassword currentPassword user.passwordHash then raise .invalidCredentials
    else
      match (← MfaCredentialRepository.getByUserId userId).filter MfaCredential.isEnabled with
      | none => raise .mfaNotEnrolled
      | some credential =>
        let invalidated ← MfaRecoveryCodeRepository.deleteUnused credential.id
        let codes ← issueRecoveryCodes env credential.id
        AuditLogRepository.add (ctx.log userId "mfa.recovery_codes_regenerated" "MfaCredential"
          (some credential.id) (some [("unused_codes_invalidated", .int invalidated)])
          (some [("recovery_codes_issued", .int codes.length)]))
        let now ← stmt .now
        return ⟨codes, now⟩

end Bekaa3D.Identity
