import Bekaa3D.Identity.Repositories

/-!
# Identity.Services — login throttle, MFA state in Redis, reset mails

The application services of the identity context (`application/services/`).
-/

namespace Bekaa3D.Identity

open Txn

variable (env : Env)

/-! ## LoginThrottle -/

namespace LoginThrottle

def freeAttempts : ℕ := 3
def maxDelaySeconds : ℕ := 8
def lockoutAtAttempt : ℕ := 10
def lockoutSeconds : ℕ := 15 * 60

def delayFor (attempt : ℕ) : ℕ :=
  if attempt ≤ freeAttempts then 0 else min (2 ^ (attempt - freeAttempts - 1)) maxDelaySeconds

def key (email : String) (ip : Option String) : RedisKey :=
  .loginThrottle (env.emailDigest email) (match ip with
    | none | some "" => "unknown"
    | some ip => ip)

/-- `int(raw) if raw else 0`. -/
def failures : Option RedisVal → ℕ
  | some (.counter n) => n
  | _ => 0

def check (email : String) (ip : Option String) : Handler Unit := do
  let raw ← stmt (.redisGet (key env email ip))
  let attempt := failures raw + 1
  if lockoutAtAttempt ≤ attempt then raise (.accountLocked lockoutSeconds)
  else if delayFor attempt = 0 then return ()
  else stmt (.sleep (delayFor attempt))

def recordFailure (email : String) (ip : Option String) : Handler Unit := do
  let _ ← stmt (.redisIncr (key env email ip))
  stmt (.redisExpire (key env email ip) lockoutSeconds)

def reset (email : String) (ip : Option String) : Handler Unit := stmt (.redisDelete (key env email ip))

end LoginThrottle

/-! ## MfaSessionStore -/

/-- Whose a login challenge is, and the authentication epoch it was minted in. -/
structure PendingLoginChallenge where
  userId : Uuid
  epoch : ℕ
  deriving DecidableEq, Repr

namespace MfaSessionStore

def challengeTtlSeconds : ℕ := 5 * 60

def markCompleted (sessionId : Uuid) (ttlSeconds : ℕ) : Handler Unit :=
  stmt (.redisSet (.mfaCompleted sessionId) .flag (max ttlSeconds 1))

def isCompleted (sessionId : Uuid) : Handler Bool := do
  let raw ← stmt (.redisGet (.mfaCompleted sessionId))
  return raw.isSome

def createLoginChallenge (userId : Uuid) (authEpoch : ℕ) : Handler String := do
  let challengeId ← stmt (.tokenUrlsafe 24)
  stmt (.redisSet (.mfaChallenge challengeId) (.challenge userId authEpoch) challengeTtlSeconds)
  return challengeId

def resolveLoginChallenge (challengeId : String) : Handler (Option PendingLoginChallenge) := do
  let raw ← stmt (.redisGet (.mfaChallenge challengeId))
  return match raw with
    | some (.challenge userId epoch) => some ⟨userId, epoch⟩
    | _ => none

def consumeLoginChallenge (challengeId : String) : Handler Unit := stmt (.redisDelete (.mfaChallenge challengeId))

end MfaSessionStore

/-- Administrators with confirmed MFA, and nobody else. -/
def AdminMfaGate.challengeRequired (user : User) : Handler Bool := do
  if user.role ≠ .admin then return false
  else
    let credential ← MfaCredentialRepository.getByUserId user.id
    return credential.any MfaCredential.isEnabled

/-! ## Password-reset mails -/

def passwordResetTokenTtl : ℕ := hours 1
def resetRequestCooldown : ℕ := minutes 2

def resetRequestEligible (user : User) : Handler Bool := do
  if !user.canAuthenticate then return false
  else match ← PasswordResetTokenRepository.getLatestForUser user.id with
    | none => return true
    | some latest =>
      let now ← stmt .now
      return latest.createdAt + resetRequestCooldown ≤ now

def issuePasswordResetEmail (user : User) : Handler Unit := do
  let rawToken ← stmt (.tokenUrlsafe 32)
  let now ← stmt .now
  let expiresAt := now + passwordResetTokenTtl
  let _ ← PasswordResetTokenRepository.add user.id (env.hashToken rawToken) expiresAt
  EmailOutboxRepository.add {
    userId := some user.id
    recipientEmail := user.email
    template := "password_reset_email"
    payload := [("token", rawToken),
      ("reset_url", env.baseUrl ++ "/api/v1/auth/password-reset/confirm?token=" ++ rawToken),
      ("expires_at", env.toIso expiresAt)] }

end Bekaa3D.Identity
