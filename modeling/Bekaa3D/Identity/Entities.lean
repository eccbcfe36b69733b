import Mathlib.Data.Int.Order.Basic
import Mathlib.Tactic.Common

/-!
# Identity.Entities — accounts, sessions, second factors and one-time tokens

The domain entities of the identity context with the rules they enforce (`domain/entities.py`), and the
exceptions they raise (`domain/exceptions.py`).  A method that mutates an entity returns the new entity; one
that may raise returns an `Except`.
-/

namespace Bekaa3D.Identity

abbrev Uuid := ℕ

/-- Microseconds since the Unix epoch. -/
abbrev Instant := ℕ

inductive UserRole where
  | customer
  | admin
  deriving DecidableEq, Repr

/-- An error answer of the API. -/
structure ApiError where
  statusCode : ℕ
  code : String
  title : String
  detail : String
  retryAfter : Option ℕ := none
  deriving DecidableEq, Repr

/-- The exceptions that reach a handler: the domain's own, those of the mapping layer, and the answers a
route turns them into. -/
inductive IdentityError where
  | alreadyVerified (userId : Uuid)
  | invalidVerificationToken
  | verificationTokenExpired (tokenId : Uuid)
  | invalidCredentials
  | accountDisabled (userId : Uuid)
  | accountLocked (retryAfterSeconds : ℕ)
  | invalidSession
  | sessionRevoked (sessionId : Uuid)
  | sessionExpired (sessionId : Uuid)
  | refreshTokenReuse (sessionId : Uuid)
  | sessionOwnerRevoked (sessionId : Uuid)
  | invalidRecoveryCode
  | mfaNotEnrolled
  | mfaAlreadyEnabled
  | invalidMfaCode
  | mfaCodeReplayed
  | invalidPasswordResetToken
  | passwordResetTokenExpired (tokenId : Uuid)
  | accountNotMutable (userId : Uuid)
  | secretDecryption
  /-- A row that `save` was given is gone. -/
  | notFound (id : Uuid)
  /-- A flush whose `UPDATE` matched no row. -/
  | staleData
  /-- A unique index or primary key is violated. -/
  | integrity
  /-- An exception that no handler expects (`AttributeError`, `OverflowError`). -/
  | uncaught
  | api (e : ApiError)
  deriving DecidableEq, Repr

/-- `InvalidSessionError` and its subclasses. -/
def IdentityError.isInvalidSession : IdentityError → Bool
  | .invalidSession | .sessionRevoked _ | .sessionExpired _ => true
  | _ => false

/-- `SessionTerminatedError` and its subclasses: the caller commits before propagating these. -/
def IdentityError.isSessionTerminated : IdentityError → Bool
  | .refreshTokenReuse _ | .sessionOwnerRevoked _ => true
  | _ => false

/-! ## Accounts -/

structure User where
  id : Uuid
  email : String
  passwordHash : String
  role : UserRole
  emailVerifiedAt : Option Instant
  isActive : Bool
  anonymizedAt : Option Instant
  deletedAt : Option Instant
  createdAt : Instant
  authEpoch : ℕ
  deriving DecidableEq, Repr

namespace User

def isVerified (u : User) : Bool := u.emailVerifiedAt.isSome

def canAuthenticate (u : User) : Bool := u.isActive && u.anonymizedAt.isNone && u.deletedAt.isNone

def markVerified (u : User) (at_ : Instant) : Except IdentityError User :=
  if u.isVerified then .error (.alreadyVerified u.id) else .ok { u with emailVerifiedAt := some at_ }

def changePassword (u : User) (newPasswordHash : String) : User := { u with passwordHash := newPasswordHash }

def invalidateCredentials (u : User) : User := { u with authEpoch := u.authEpoch + 1 }

/-- Whether anything moved, and the account after. -/
def setActive (u : User) (isActive : Bool) : Bool × User :=
  if isActive = u.isActive then (false, u) else (true, { u with isActive := isActive })

end User

structure VerificationToken where
  id : Uuid
  userId : Uuid
  tokenHash : String
  expiresAt : Instant
  usedAt : Option Instant
  createdAt : Instant
  deriving DecidableEq, Repr

namespace VerificationToken

def isUsed (t : VerificationToken) : Bool := t.usedAt.isSome

def markUsed (t : VerificationToken) (at_ : Instant) : Except IdentityError VerificationToken :=
  if t.isUsed then .error .invalidVerificationToken
  else if t.expiresAt ≤ at_ then .error (.verificationTokenExpired t.id)
  else .ok { t with usedAt := some at_ }

end VerificationToken

/-! ## Sessions -/

structure Session where
  id : Uuid
  userId : Uuid
  refreshTokenHash : String
  tokenVersion : ℕ
  expiresAt : Instant
  lastUsedAt : Option Instant
  rotatedAt : Option Instant
  revokedAt : Option Instant
  reuseDetectedAt : Option Instant
  ipHash : Option String
  userAgent : Option String
  deriving DecidableEq, Repr

namespace Session

def isRevoked (x : Session) : Bool := x.revokedAt.isSome

def isExpired (x : Session) (at_ : Instant) : Bool := x.expiresAt ≤ at_

/-- Whether a presented refresh token may rotate this session.  The reuse check comes before the hash check: a
replayed old token fails both. -/
def authorizeRotation (x : Session) (presentedTokenHash : String) (presentedVersion : ℤ) (at_ : Instant) :
    Except IdentityError Unit :=
  if x.isRevoked then .error (.sessionRevoked x.id)
  else if x.isExpired at_ then .error (.sessionExpired x.id)
  else if presentedVersion < x.tokenVersion then .error (.refreshTokenReuse x.id)
  else if presentedVersion ≠ x.tokenVersion then .error .invalidSession
  else if presentedTokenHash ≠ x.refreshTokenHash then .error .invalidSession
  else .ok ()

def rotate (x : Session) (newTokenHash : String) (at_ : Instant) : Session :=
  { x with refreshTokenHash := newTokenHash, tokenVersion := x.tokenVersion + 1, rotatedAt := some at_,
           lastUsedAt := some at_ }

def revoke (x : Session) (at_ : Instant) : Session :=
  if x.isRevoked then x else { x with revokedAt := some at_ }

def markReuseDetected (x : Session) (at_ : Instant) : Session :=
  ({ x with reuseDetectedAt := some at_ } : Session).revoke at_

end Session

/-! ## Second factors -/

structure MfaCredential where
  id : Uuid
  userId : Uuid
  secretCiphertext : String
  enabledAt : Option Instant
  lastUsedAt : Option Instant
  lastTotpStep : Option ℤ
  deriving DecidableEq, Repr

namespace MfaCredential

def isEnabled (c : MfaCredential) : Bool := c.enabledAt.isSome

def enable (c : MfaCredential) (at_ : Instant) : MfaCredential :=
  if c.isEnabled then c else { c with enabledAt := some at_ }

def markUsed (c : MfaCredential) (at_ : Instant) : MfaCredential := { c with lastUsedAt := some at_ }

/-- `≤` rather than `=`: the window looks one step backwards as well. -/
def isTotpStepReplayed (c : MfaCredential) (step : ℤ) : Bool :=
  match c.lastTotpStep with
  | none => false
  | some last => step ≤ last

def recordTotpStep (c : MfaCredential) (step : ℤ) (at_ : Instant) : MfaCredential :=
  ({ c with lastTotpStep := some (match c.lastTotpStep with
      | none => step
      | some last => max last step) } : MfaCredential).markUsed at_

end MfaCredential

structure MfaRecoveryCode where
  id : Uuid
  mfaCredentialId : Uuid
  codeHash : String
  usedAt : Option Instant
  deriving DecidableEq, Repr

namespace MfaRecoveryCode

def isUsed (c : MfaRecoveryCode) : Bool := c.usedAt.isSome

def redeem (c : MfaRecoveryCode) (at_ : Instant) : Except IdentityError MfaRecoveryCode :=
  if c.isUsed then .error .invalidRecoveryCode else .ok { c with usedAt := some at_ }

end MfaRecoveryCode

/-! ## Password resets -/

structure PasswordResetToken where
  id : Uuid
  userId : Uuid
  tokenHash : String
  expiresAt : Instant
  usedAt : Option Instant
  createdAt : Instant
  deriving DecidableEq, Repr

namespace PasswordResetToken

def isUsed (t : PasswordResetToken) : Bool := t.usedAt.isSome

/-- Used is checked before expiry, so that a replayed token always reads as invalid. -/
def markUsed (t : PasswordResetToken) (at_ : Instant) : Except IdentityError PasswordResetToken :=
  if t.isUsed then .error .invalidPasswordResetToken
  else if t.expiresAt ≤ at_ then .error (.passwordResetTokenExpired t.id)
  else .ok { t with usedAt := some at_ }

end PasswordResetToken

end Bekaa3D.Identity
