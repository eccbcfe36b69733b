import Bekaa3D.Identity.Entities
import Bekaa3D.Platform.Json

/-!
# Identity.Tokens — hashes and signed session tokens

The pure services around the entities: token hashes, passwords, TOTP, and the two signed cookies of a login
session (`infrastructure/session_tokens.py`).  Cryptography and the JWT library are fields of `Env`; what
this code does with their results is defined here.
-/

namespace Bekaa3D.Identity

/-- A number that `json.loads` returns. -/
inductive PyFloat where
  | fin (q : ℚ)
  | inf
  | negInf
  | nan
  deriving DecidableEq

/-- A value that `json.loads` returns. -/
inductive Json where
  | null
  | bool (b : Bool)
  | int (n : ℤ)
  | float (x : PyFloat)
  | str (s : String)
  | arr (xs : List Json)
  | obj (kvs : List (String × Json))

/-- `payload.get(key)`. -/
def getKey (payload : List (String × Json)) (key : String) : Option Json :=
  (payload.find? fun kv => kv.1 = key).map Prod.snd

/-- An exception of the built-in types. -/
inductive PyError where
  | keyError
  | valueError
  | typeError
  | attributeError
  | overflowError
  deriving DecidableEq, Repr

/-- Third-party code, the standard library's `uuid` and `hashlib`, and the settings. -/
structure Env where
  verifyPassword : String → String → Bool
  hashToken : String → String
  /-- `jwt.encode(payload, settings.jwt_signing_key, algorithm="HS256")`. -/
  jwtEncode : List (String × Json) → String
  /-- `jwt.decode`: the payload, if the signature holds … -/
  jwtVerify : String → Option (List (String × Json))
  /-- … and whether its registered claims hold at an instant; `int` of a time claim may raise. -/
  jwtClaims : List (String × Json) → Instant → Except PyError Bool
  uuidToString : Uuid → String
  uuidOfString : String → Option Uuid
  /-- `int(s)`. -/
  intOfString : String → Option ℤ
  csrfTokenForSession : Uuid → String
  /-- `pyotp.TOTP(secret).at(step * TOTP_STEP_SECONDS)`. -/
  totpAt : String → ℤ → String
  decryptSecret : String → Option String
  provisioningUri : String → String → String
  normalizeCode : String → String
  /-- `hashlib.sha256(email.lower().encode()).hexdigest()[:32]`. -/
  emailDigest : String → String
  /-- The form in which `CITEXT` compares. -/
  citext : String → String
  toIso : Instant → String
  dummyPasswordHash : String
  accessTokenMinutes : ℕ
  refreshTokenDays : ℕ
  mfaIssuer : String
  baseUrl : String

section Time

def microsPerSecond : ℕ := 1000000

def seconds (n : ℕ) : ℕ := n * microsPerSecond
def minutes (n : ℕ) : ℕ := seconds (60 * n)
def hours (n : ℕ) : ℕ := minutes (60 * n)
def days (n : ℕ) : ℕ := hours (24 * n)

/-- A time claim of a JWT: whole seconds. -/
def numericDate (t : Instant) : Json := .int (t / microsPerSecond : ℕ)

end Time

variable (env : Env)

/-! ## Access and refresh tokens -/

structure AccessTokenClaims where
  userId : Uuid
  sessionId : Uuid
  role : UserRole
  emailVerified : Bool
  mfaCompleted : Bool := false
  authEpoch : ℕ := 0
  deriving DecidableEq, Repr

structure RefreshTokenClaims where
  sessionId : Uuid
  tokenVersion : ℤ
  deriving DecidableEq, Repr

def UserRole.value : UserRole → String
  | .customer => "customer"
  | .admin => "admin"

def UserRole.ofValue : String → Option UserRole
  | "customer" => some .customer
  | "admin" => some .admin
  | _ => none

def accessType : String := "access"
def refreshType : String := "refresh"

/-- The payload of an access token. -/
def accessPayload (c : AccessTokenClaims) (now : Instant) : List (String × Json) :=
  [("typ", .str accessType), ("sub", .str (env.uuidToString c.userId)), ("sid", .str (env.uuidToString c.sessionId)),
   ("role", .str c.role.value), ("ver", .bool c.emailVerified), ("mfa", .bool c.mfaCompleted),
   ("auth_epoch", .int c.authEpoch), ("iat", numericDate now),
   ("exp", numericDate (now + minutes env.accessTokenMinutes))]

def issueAccessToken (c : AccessTokenClaims) (now : Instant) : String := env.jwtEncode (accessPayload env c now)

/-- The payload of a refresh token; `exp` is the session's deadline. -/
def refreshPayload (sessionId : Uuid) (tokenVersion : ℕ) (expiresAt now : Instant) : List (String × Json) :=
  [("typ", .str refreshType), ("sid", .str (env.uuidToString sessionId)), ("tv", .int tokenVersion),
   ("iat", numericDate now), ("exp", numericDate expiresAt)]

def issueRefreshToken (sessionId : Uuid) (tokenVersion : ℕ) (expiresAt now : Instant) : String :=
  env.jwtEncode (refreshPayload env sessionId tokenVersion expiresAt now)

/-- `_decode`: a validly signed payload of the expected type. -/
def decode (token expectedType : String) (now : Instant) : Except IdentityError (List (String × Json)) :=
  match env.jwtVerify token with
  | none => .error .invalidSession
  | some payload =>
    match env.jwtClaims payload now with
    | .error _ => .error .uncaught
    | .ok false => .error .invalidSession
    | .ok true =>
      match getKey payload "typ" with
      | some (.str t) => if t = expectedType then .ok payload else .error .invalidSession
      | _ => .error .invalidSession

/-- `try: … except (…): raise InvalidSessionError()`. -/
def invalidOn (exceptions : List PyError) {α : Type} : Except PyError α → Except IdentityError α
  | .ok a => .ok a
  | .error e => .error (if e ∈ exceptions then .invalidSession else .uncaught)

/-- `UUID(payload[key])`. -/
def uuidClaim (payload : List (String × Json)) (key : String) : Except PyError Uuid :=
  match getKey payload key with
  | none => .error .keyError
  | some (.str s) =>
    match env.uuidOfString s with
    | some u => .ok u
    | none => .error .valueError
  | some .null => .error .typeError
  | some _ => .error .attributeError

/-- `int(payload[key])`. -/
def intClaim (payload : List (String × Json)) (key : String) : Except PyError ℤ :=
  match getKey payload key with
  | none => .error .keyError
  | some (.int n) => .ok n
  | some (.bool b) => .ok (if b then 1 else 0)
  | some (.float (.fin q)) => .ok (Int.tdiv q.num q.den)
  | some (.float .nan) => .error .valueError
  | some (.float _) => .error .overflowError
  | some (.str s) =>
    match env.intOfString s with
    | some n => .ok n
    | none => .error .valueError
  | some _ => .error .typeError

/-- The claims of the payload of a refresh token. -/
def refreshClaims (payload : List (String × Json)) : Except PyError RefreshTokenClaims := do
  let sessionId ← uuidClaim env payload "sid"
  let tokenVersion ← intClaim env payload "tv"
  return ⟨sessionId, tokenVersion⟩

def decodeRefreshToken (token : String) (now : Instant) : Except IdentityError RefreshTokenClaims := do
  let payload ← decode env token refreshType now
  invalidOn [.keyError, .typeError, .valueError] (refreshClaims env payload)

section Decoding

variable {env : Env} {token ty : String} {now now' : Instant} {payload : List (String × Json)} {e : IdentityError}

theorem decode_ok (h : decode env token ty now = .ok payload) : env.jwtVerify token = some payload := by
  unfold decode at h
  split at h
  · cases h
  · rename_i p hp
    split at h
    · cases h
    · cases h
    · split at h
      · split at h
        · cases h; exact hp
        · cases h
      · cases h

theorem invalidOn_ok {exceptions : List PyError} {α : Type} {x : Except PyError α} {a : α}
    (h : invalidOn exceptions x = .ok a) : x = .ok a := by
  cases x with
  | ok a' => cases h; rfl
  | error e => cases h

theorem refreshClaims_ok {c : RefreshTokenClaims} (h : refreshClaims env payload = .ok c) :
    uuidClaim env payload "sid" = .ok c.sessionId ∧ intClaim env payload "tv" = .ok c.tokenVersion := by
  unfold refreshClaims at h
  cases hs : uuidClaim env payload "sid" with
  | error e => simp only [bind, Except.bind, hs] at h; cases h
  | ok sid =>
    cases ht : intClaim env payload "tv" with
    | error e => simp only [bind, Except.bind, hs, ht] at h; cases h
    | ok tv =>
      simp only [bind, Except.bind, hs, ht] at h
      cases h
      exact ⟨rfl, rfl⟩

theorem decodeRefreshToken_ok {c : RefreshTokenClaims} (h : decodeRefreshToken env token now = .ok c) :
    ∃ payload, env.jwtVerify token = some payload ∧ uuidClaim env payload "sid" = .ok c.sessionId ∧
      intClaim env payload "tv" = .ok c.tokenVersion := by
  unfold decodeRefreshToken at h
  cases hd : decode env token refreshType now with
  | error e => rw [hd] at h; cases h
  | ok payload =>
    rw [hd] at h
    exact ⟨payload, decode_ok hd, refreshClaims_ok (invalidOn_ok h)⟩

/-- What a refresh token says does not depend on when it is decoded. -/
theorem decodeRefreshToken_unique {c c' : RefreshTokenClaims} (h : decodeRefreshToken env token now = .ok c)
    (h' : decodeRefreshToken env token now' = .ok c') : c = c' := by
  obtain ⟨p, hp, hs, ht⟩ := decodeRefreshToken_ok h
  obtain ⟨p', hp', hs', ht'⟩ := decodeRefreshToken_ok h'
  rw [hp] at hp'
  cases hp'
  rw [hs] at hs'
  rw [ht] at ht'
  cases c
  cases c'
  cases hs'
  cases ht'
  rfl

/-- The ways in which decoding fails. -/
def IdentityError.isDecoding (e : IdentityError) : Prop := e = .invalidSession ∨ e = .uncaught

theorem invalidOn_error {exceptions : List PyError} {α : Type} {x : Except PyError α}
    (h : invalidOn exceptions x = .error e) : e.isDecoding := by
  cases x with
  | ok a => cases h
  | error e' =>
    unfold invalidOn at h
    dsimp only at h
    split at h
    · cases h; exact Or.inl rfl
    · cases h; exact Or.inr rfl

theorem decode_error (h : decode env token ty now = .error e) : e.isDecoding := by
  unfold decode at h
  split at h
  · cases h; exact Or.inl rfl
  · split at h
    · cases h; exact Or.inr rfl
    · cases h; exact Or.inl rfl
    · split at h
      · split at h
        · cases h
        · cases h; exact Or.inl rfl
      · cases h; exact Or.inl rfl

theorem decodeRefreshToken_error (h : decodeRefreshToken env token now = .error e) : e.isDecoding := by
  unfold decodeRefreshToken at h
  cases hd : decode env token refreshType now with
  | error e' => rw [hd] at h; cases h; exact decode_error hd
  | ok payload => rw [hd] at h; exact invalidOn_error h

end Decoding

/-- `bool(x)` of a JSON value. -/
def Json.truthy : Json → Bool
  | .null => false
  | .bool b => b
  | .int n => n ≠ 0
  | .float x => x ≠ .fin 0
  | .str s => s ≠ ""
  | .arr xs => !xs.isEmpty
  | .obj kvs => !kvs.isEmpty

/-- The `auth_epoch` claim: an integer that is not a `bool` and not negative; absent, it is 0. -/
def epochClaim (payload : List (String × Json)) : Except IdentityError ℕ :=
  match getKey payload "auth_epoch" with
  | none => .ok 0
  | some (.int n) => if n < 0 then .error .invalidSession else .ok n.toNat
  | some _ => .error .invalidSession

/-- `UserRole(payload["role"])`. -/
def roleClaim (payload : List (String × Json)) : Except PyError UserRole :=
  match getKey payload "role" with
  | none => .error .keyError
  | some (.str s) =>
    match UserRole.ofValue s with
    | some role => .ok role
    | none => .error .valueError
  | some _ => .error .valueError

/-- The claims of the payload of an access token, whose epoch was read before. -/
def accessClaims (payload : List (String × Json)) (authEpoch : ℕ) : Except PyError AccessTokenClaims := do
  let userId ← uuidClaim env payload "sub"
  let sessionId ← uuidClaim env payload "sid"
  let role ← roleClaim payload
  match getKey payload "ver" with
  | none => .error .keyError
  | some ver =>
    return {
      userId := userId, sessionId := sessionId, role := role, emailVerified := ver.truthy,
      mfaCompleted := (getKey payload "mfa").any Json.truthy, authEpoch := authEpoch }

def decodeAccessToken (token : String) (now : Instant) : Except IdentityError AccessTokenClaims := do
  let payload ← decode env token accessType now
  let authEpoch ← epochClaim payload
  invalidOn [.keyError, .valueError] (accessClaims env payload authEpoch)

/-! ## CSRF tokens -/

/-- Every character is an ASCII character. -/
def isAscii (s : String) : Bool := s.toList.all fun c => c.toNat < 128

/-- `secrets.compare_digest`, of two strings. -/
def compareDigest (a b : String) : Except PyError Bool :=
  if isAscii a && isAscii b then .ok (a = b) else .error .typeError

/-- `verify_csrf_token`. -/
def verifyCsrfToken (sessionId : Uuid) (presented : Option String) : Except PyError Bool :=
  match presented with
  | none => .ok false
  | some p => if p = "" then .ok false else compareDigest p (env.csrfTokenForSession sessionId)

/-! ## TOTP -/

def totpStepSeconds : ℕ := 30
def validWindow : ℤ := 1

/-- A quotient, rounded to the nearest whole number, and to the even one halfway. -/
def roundHalfEven (n d : ℕ) : ℕ :=
  let q := n / d
  let r := n % d
  if 2 * r < d ∨ (2 * r = d ∧ q % 2 = 0) then q else q + 1

/-- `int(now.timestamp())`: the timestamp is a double, of 53 binary digits. -/
def timestampSeconds (now : Instant) : ℕ :=
  let ulps := 2 ^ (52 - (now / microsPerSecond).log2)
  roundHalfEven (now * ulps) microsPerSecond / ulps

/-- From the year 2514 on the last microsecond of a second counts to the next one. -/
example : timestampSeconds (seconds (2 ^ 34) + 999999) = 2 ^ 34 + 1 := by decide +kernel

def currentStep (now : Instant) : ℤ := (timestampSeconds now / totpStepSeconds : ℕ)

/-- The time steps a code is compared at, in order. -/
def window (now : Instant) : List ℤ :=
  [currentStep now - validWindow, currentStep now, currentStep now + validWindow]

/-- The last time step of the window whose code the submission matches. -/
def verifyCodeStep (secret code : String) (now : Instant) : Option ℤ :=
  let submitted := Platform.strip code
  if isAscii submitted then
    (window now).foldl (fun matched step => if env.totpAt secret step = submitted then some step else matched) none
  else none

end Bekaa3D.Identity
