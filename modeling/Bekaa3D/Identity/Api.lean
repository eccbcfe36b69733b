import Bekaa3D.Identity.Commands

/-!
# Identity.Api — the routes

The routes of `api/auth.py`, `api/mfa.py` and `api/admin_users.py` over the commands: who may call them, what
they do around the command (challenges, completion flags, cookies), and the answers they give for its errors.

* Every route is one transaction, committed when it answers and rolled back when it raises; `refresh` and
  `verifyMfa` commit what they wrote before some of the errors they raise.
* `handle`: the route of a request.
-/

namespace Bekaa3D.Identity

open Txn

/-! ## Errors -/

def unauthenticatedError : IdentityError := .api {
  statusCode := 401
  code := "AUTH_REQUIRED"
  title := "Authentication required"
  detail := "A valid session is required for this request." }

def notFoundError : IdentityError := .api {
  statusCode := 404
  code := "NOT_FOUND"
  title := "Request cannot be completed"
  detail := "Not Found" }

def csrfInvalidError : IdentityError := .api {
  statusCode := 403
  code := "CSRF_INVALID"
  title := "CSRF token missing or invalid"
  detail := "Send this session's CSRF cookie value in the X-CSRF-Token header." }

def mfaRequiredError : IdentityError := .api {
  statusCode := 401
  code := "MFA_REQUIRED"
  title := "Second factor required"
  detail := "This session has not completed MFA. Sign in again to be challenged." }

/-- The single answer for every wrong second factor. -/
def invalidMfaError : IdentityError := .api {
  statusCode := 401
  code := "MFA_INVALID"
  title := "Second factor rejected"
  detail := "The code provided is not valid." }

def challengeExpiredError : IdentityError := .api {
  statusCode := 410
  code := "RESOURCE_EXPIRED"
  title := "Challenge expired"
  detail := "This MFA challenge is no longer valid. Sign in again to obtain a new one." }

def accountDisabledError : IdentityError := .api {
  statusCode := 403
  code := "ACCOUNT_DISABLED"
  title := "Account unavailable"
  detail := "This account can no longer be used to sign in." }

def passwordIncorrectError : IdentityError := .api {
  statusCode := 401
  code := "INVALID_CREDENTIALS"
  title := "Password incorrect"
  detail := "The current password is incorrect." }

variable (env : Env)

/-! ## Who may call -/

/-- `current_claims`, of the claims of a token that decodes. -/
def currentClaims (claims : AccessTokenClaims) : Handler Unit := do
  match ← UserRepository.getAuthEpoch claims.userId with
  | none => raise unauthenticatedError
  | some currentEpoch => if claims.authEpoch ≠ currentEpoch then raise unauthenticatedError else return ()

/-- The double submit of the CSRF token of a session. -/
def checkCsrf (sessionId : Uuid) (csrf : Option String) : Handler Unit :=
  match verifyCsrfToken env sessionId csrf with
  | .ok true => return ()
  | .ok false => raise csrfInvalidError
  | .error _ => raise .uncaught

/-- `require_csrf`, of the claims of a token that decodes. -/
def requireCsrf (claims : AccessTokenClaims) (csrf : Option String) : Handler Unit := do
  currentClaims claims
  checkCsrf env claims.sessionId csrf

def requireAdminEnrollment (claims : AccessTokenClaims) (csrf : Option String) : Handler Unit := do
  requireCsrf env claims csrf
  if claims.role ≠ .admin then raise notFoundError else return ()

/-- `require_admin` after `current_claims`, which runs once for a request. -/
def adminBoundary (claims : AccessTokenClaims) : Handler Unit :=
  if claims.role ≠ .admin then raise notFoundError
  else if !claims.mfaCompleted then raise mfaRequiredError
  else return ()

/-! ## Authentication -/

def loginError : IdentityError → IdentityError
  | .accountLocked retryAfter => .api {
      statusCode := 429
      code := "RATE_LIMITED"
      title := "Too many failed attempts"
      detail := "Too many failed login attempts. Try again later."
      retryAfter := some retryAfter }
  | .invalidCredentials => .api {
      statusCode := 401
      code := "INVALID_CREDENTIALS"
      title := "Login failed"
      detail := "Email or password is incorrect." }
  | .accountDisabled _ => accountDisabledError
  | e => e

/-- The answer to a login that `check` refuses. -/
def lockedOutError : IdentityError := loginError (.accountLocked LoginThrottle.lockoutSeconds)

def LoginResult.cookies (r : LoginResult) : SessionCookies := ⟨r.accessToken, r.refreshToken, r.csrfToken⟩

/-- `POST /auth/login`. -/
def loginRoute (email password : String) (ip userAgent : Option String) (ctx : AuditContext) :
    Handler Answer := do
  match ← (login env email password ip userAgent ctx).catchAll fun e => raise (loginError e) with
  | .inr required =>
    let challengeId ← MfaSessionStore.createLoginChallenge required.userId required.authEpoch
    return .mfaChallenge challengeId MfaSessionStore.challengeTtlSeconds
  | .inl result =>
    return .loggedIn ⟨result.userId, result.email, result.role, result.emailVerified, result.sessionExpiresAt⟩
      result.cookies

/-- `POST /auth/logout`. -/
def logoutRoute (claims : AccessTokenClaims) (csrf : Option String) (ctx : AuditContext) : Handler Answer := do
  requireCsrf env claims csrf
  logout claims.sessionId ctx
  return .cookiesCleared

/-- What `refresh` does with an exception of `RefreshSession`: the writes of a session that was terminated are
committed. -/
def refreshError (e : IdentityError) : Handler RefreshResult :=
  if e.isSessionTerminated then Prog.commit (raise unauthenticatedError)
  else if e.isInvalidSession then raise unauthenticatedError
  else raise e

/-- `POST /auth/refresh`. -/
def refreshRoute (rawRefreshToken : Option String) (csrf : Option String) (ctx : AuditContext) :
    Handler Answer := do
  match rawRefreshToken with
  | none | some "" => raise unauthenticatedError
  | some raw =>
    let now ← stmt .now
    let claims ← (Prog.ofExcept (decodeRefreshToken env raw now)).catchAll fun e =>
      raise (if e.isInvalidSession then unauthenticatedError else e)
    checkCsrf env claims.sessionId csrf
    let mfaCompleted ← MfaSessionStore.isCompleted claims.sessionId
    let result ← (refreshSession env raw mfaCompleted ctx).catchAll refreshError
    return .cookiesSet ⟨result.accessToken, result.refreshToken, result.csrfToken⟩

/-! ## Password reset and e-mail verification -/

/-- `POST /auth/password-reset/request`. -/
def requestPasswordResetRoute (email : String) (ctx : AuditContext) : Handler Answer := do
  requestPasswordReset env email ctx
  return .passwordResetAccepted

def confirmPasswordResetError : IdentityError → IdentityError
  | .passwordResetTokenExpired _ => .api {
      statusCode := 410
      code := "RESOURCE_EXPIRED"
      title := "Reset link expired"
      detail := "This password reset link has expired. Request a new one." }
  | .invalidPasswordResetToken => .api {
      statusCode := 400
      code := "INVALID_TOKEN"
      title := "Reset link invalid"
      detail := "This password reset link is invalid or has already been used." }
  | e => e

/-- `POST /auth/password-reset/confirm`. -/
def confirmPasswordResetRoute (token newPassword : String) (ctx : AuditContext) : Handler Answer := do
  (confirmPasswordReset env token newPassword ctx).catchAll fun e => raise (confirmPasswordResetError e)
  return .cookiesCleared

def verifyEmailError : IdentityError → IdentityError
  | .verificationTokenExpired _ => .api {
      statusCode := 410
      code := "RESOURCE_EXPIRED"
      title := "Verification link expired"
      detail := "This verification link has expired. Request a new one." }
  | .invalidVerificationToken | .alreadyVerified _ => .api {
      statusCode := 400
      code := "INVALID_TOKEN"
      title := "Verification link invalid"
      detail := "This verification link is invalid or has already been used." }
  | e => e

/-- `POST /auth/verify-email`. -/
def verifyEmailRoute (token : String) (ctx : AuditContext) : Handler Answer := do
  (verifyEmail env token ctx).catchAll fun e => raise (verifyEmailError e)
  return .noContent

/-! ## Accounts -/

def updateUserError : IdentityError → IdentityError
  | .accountNotMutable userId => .api {
      statusCode := 409
      code := "INVALID_STATE_TRANSITION"
      title := "Account is anonymised or deleted"
      detail := "User " ++ env.uuidToString userId ++
        " has been anonymised or deleted and can no longer be activated or deactivated." }
  | e => e

/-- `PATCH /admin/users/{user_id}`, on a router that depends on `require_admin`: `current_claims` runs once, and the
CSRF check comes last. -/
def updateUserRoute (claims : AccessTokenClaims) (csrf : Option String) (userId : Uuid) (isActive : Bool)
    (ctx : AuditContext) : Handler Answer := do
  currentClaims claims
  adminBoundary claims
  checkCsrf env claims.sessionId csrf
  match ← (setUserActive userId isActive claims.userId ctx).catchAll fun e => raise (updateUserError env e) with
  | none => raise notFoundError
  | some result => return .user result.user

/-! ## Second factors -/

def setupMfaError : IdentityError → IdentityError
  | .invalidCredentials => passwordIncorrectError
  | .mfaAlreadyEnabled => .api {
      statusCode := 409
      code := "INVALID_STATE_TRANSITION"
      title := "MFA is already enabled"
      detail := "MFA is already enabled for this account and cannot be re-enrolled." }
  | .mfaNotEnrolled => notFoundError
  | e => e

/-- `POST /auth/mfa/setup`. -/
def setupMfaRoute (claims : AccessTokenClaims) (csrf : Option String) (currentPassword : String)
    (ctx : AuditContext) : Handler Answer := do
  requireAdminEnrollment env claims csrf
  let result ← (mfaSetup env claims.userId currentPassword ctx).catchAll fun e => raise (setupMfaError e)
  return .mfaSetup result

def confirmMfaSetupError : IdentityError → IdentityError
  | .invalidMfaCode => .api {
      statusCode := 422
      code := "MFA_INVALID"
      title := "Second factor rejected"
      detail := "The code provided does not match the enrolled secret." }
  | .mfaAlreadyEnabled => .api {
      statusCode := 409
      code := "INVALID_STATE_TRANSITION"
      title := "MFA is already enabled"
      detail := "MFA is already enabled for this account and cannot be re-confirmed." }
  | .mfaNotEnrolled => notFoundError
  | e => e

def completedTtlSeconds : ℕ := env.refreshTokenDays * 24 * 60 * 60

/-- `POST /auth/mfa/setup/confirm`: the completion flag is set before the transaction commits. -/
def confirmMfaSetupRoute (claims : AccessTokenClaims) (csrf : Option String) (code : String)
    (ctx : AuditContext) : Handler Answer := do
  requireAdminEnrollment env claims csrf
  let result ← (confirmMfaSetup env claims.userId code ctx).catchAll fun e => raise (confirmMfaSetupError e)
  MfaSessionStore.markCompleted claims.sessionId (completedTtlSeconds env)
  let now ← stmt .now
  let accessToken ← stmt (.issueAccessToken { claims with mfaCompleted := true } now)
  return .mfaEnabled result accessToken

/-- What `verify_mfa` does with an exception of `VerifyMfa`: the audit row of a replay is committed. -/
def verifyError (e : IdentityError) : Handler MfaVerifyResult :=
  match e with
  | .mfaCodeReplayed => Prog.commit (raise invalidMfaError)
  | .invalidMfaCode | .invalidRecoveryCode | .mfaNotEnrolled => raise invalidMfaError
  | e => raise e

def completeError : IdentityError → IdentityError
  | .invalidCredentials => invalidMfaError
  | .accountDisabled _ => accountDisabledError
  | e => e

/-- `POST /auth/mfa/verify`: the challenge is consumed before the factor is checked. -/
def verifyMfaRoute (challengeId : String) (code recoveryCode userAgent : Option String) (ctx : AuditContext) :
    Handler Answer := do
  let pending ← MfaSessionStore.resolveLoginChallenge challengeId
  MfaSessionStore.consumeLoginChallenge challengeId
  match pending with
  | none => raise challengeExpiredError
  | some pending =>
    let currentEpoch ← UserRepository.getAuthEpoch pending.userId
    if some pending.epoch ≠ currentEpoch then raise challengeExpiredError
    else
      let _ ← (verifyMfa env pending.userId code recoveryCode ctx).catchAll verifyError
      let result ← (completeMfaLogin env pending.userId pending.epoch userAgent ctx).catchAll fun e =>
        raise (completeError e)
      MfaSessionStore.markCompleted result.sessionId (completedTtlSeconds env)
      return .cookiesSet result.cookies

def regenerateError : IdentityError → IdentityError
  | .invalidCredentials => passwordIncorrectError
  | .mfaNotEnrolled => notFoundError
  | e => e

/-- `POST /auth/mfa/recovery-codes/regenerate`. -/
def regenerateRecoveryCodesRoute (claims : AccessTokenClaims) (csrf : Option String) (currentPassword : String)
    (ctx : AuditContext) : Handler Answer := do
  requireCsrf env claims csrf
  adminBoundary claims
  let result ← (regenerateRecoveryCodes env claims.userId currentPassword ctx).catchAll fun e =>
    raise (regenerateError e)
  return .recoveryCodes result

/-! ## Requests -/

/-- What a transaction of the system runs: a request, with the claims that its access token decodes to; the
second half of an MFA login alone; or Redis dropping a key that expired. -/
inductive Request where
  | login (email password : String) (ip userAgent : Option String) (ctx : AuditContext)
  | logout (claims : AccessTokenClaims) (csrf : Option String) (ctx : AuditContext)
  | refresh (rawRefreshToken csrf : Option String) (ctx : AuditContext)
  | requestPasswordReset (email : String) (ctx : AuditContext)
  | confirmPasswordReset (token newPassword : String) (ctx : AuditContext)
  | verifyEmail (token : String) (ctx : AuditContext)
  | updateUser (claims : AccessTokenClaims) (csrf : Option String) (userId : Uuid) (isActive : Bool)
      (ctx : AuditContext)
  | setupMfa (claims : AccessTokenClaims) (csrf : Option String) (currentPassword : String) (ctx : AuditContext)
  | confirmMfaSetup (claims : AccessTokenClaims) (csrf : Option String) (code : String) (ctx : AuditContext)
  | verifyMfa (challengeId : String) (code recoveryCode userAgent : Option String) (ctx : AuditContext)
  | completeMfaLogin (userId : Uuid) (challengeEpoch : ℕ) (userAgent : Option String) (ctx : AuditContext)
  | regenerateRecoveryCodes (claims : AccessTokenClaims) (csrf : Option String) (currentPassword : String)
      (ctx : AuditContext)
  | expire (key : RedisKey)

def route : Request → Handler Answer
  | .login email password ip userAgent ctx => loginRoute env email password ip userAgent ctx
  | .logout claims csrf ctx => logoutRoute env claims csrf ctx
  | .refresh raw csrf ctx => refreshRoute env raw csrf ctx
  | .requestPasswordReset email ctx => requestPasswordResetRoute env email ctx
  | .confirmPasswordReset token newPassword ctx => confirmPasswordResetRoute env token newPassword ctx
  | .verifyEmail token ctx => verifyEmailRoute env token ctx
  | .updateUser claims csrf userId isActive ctx => updateUserRoute env claims csrf userId isActive ctx
  | .setupMfa claims csrf currentPassword ctx => setupMfaRoute env claims csrf currentPassword ctx
  | .confirmMfaSetup claims csrf code ctx => confirmMfaSetupRoute env claims csrf code ctx
  | .verifyMfa challengeId code recoveryCode userAgent ctx =>
      verifyMfaRoute env challengeId code recoveryCode userAgent ctx
  | .completeMfaLogin userId challengeEpoch userAgent ctx => do
      let result ← completeMfaLogin env userId challengeEpoch userAgent ctx
      return .cookiesSet result.cookies
  | .regenerateRecoveryCodes claims csrf currentPassword ctx =>
      regenerateRecoveryCodesRoute env claims csrf currentPassword ctx
  | .expire key => do
      stmt (.redisDelete key)
      return .noContent

/-- A request as one transaction. -/
def handle (r : Request) : Handler Answer := (route env r).transaction

end Bekaa3D.Identity
