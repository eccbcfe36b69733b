import Bekaa3D.Identity.Api
import Bekaa3D.Identity.Play

/-!
# Identity.Codec — session tokens and the checks on what a client sends

* `SignedAs`: what the signature, the time claims and the type say of a token.
* `token_codec`: an issued token decodes to what it was issued for, as its own type only; an `auth_epoch` of any
  other form than a non-negative integer is refused.
* `input_contract`: which cookies and headers make the checks raise an exception that no route handles.
-/

namespace Bekaa3D.Identity

open Txn

variable {env : Env} {token ty : String} {at_ : Instant} {payload : List (String × Json)}

/-! ## Signed payloads -/

variable (env) in
/-- The token is validly signed, timely, and of the type. -/
structure SignedAs (token ty : String) (at_ : Instant) (payload : List (String × Json)) : Prop where
  verified : env.jwtVerify token = some payload
  timely : env.jwtClaims payload at_ = .ok true
  type : getKey payload "typ" = some (.str ty)

variable (env) in
/-- The library's check of the registered claims raises no exception but its own. -/
def Checked (token : String) (at_ : Instant) : Prop :=
  ∀ payload e, env.jwtVerify token = some payload → env.jwtClaims payload at_ ≠ .error e

theorem decode_iff : decode env token ty at_ = .ok payload ↔ SignedAs env token ty at_ payload := by
  unfold decode
  constructor
  · intro h
    split at h
    · cases h
    · rename_i p hv
      split at h
      · cases h
      · cases h
      · rename_i ht
        split at h
        · rename_i t hty
          split at h
          · cases h
            subst t
            exact ⟨hv, ht, hty⟩
          · cases h
        · cases h
  · rintro ⟨hv, ht, hty⟩
    rw [hv]
    dsimp only
    rw [ht]
    dsimp only
    rw [hty]
    exact if_pos rfl

theorem SignedAs.checked (h : SignedAs env token ty at_ payload) : Checked env token at_ := by
  intro payload' e hv he
  have hp : payload = payload' := Option.some.inj (h.verified.symm.trans hv)
  rw [← hp, h.timely] at he
  cases he

/-- What is not so is refused. -/
theorem decode_refused (hc : Checked env token at_) (h : ∀ payload, ¬SignedAs env token ty at_ payload) :
    decode env token ty at_ = .error .invalidSession := by
  cases hd : decode env token ty at_ with
  | ok payload => exact absurd (decode_iff.mp hd) (h payload)
  | error e =>
    unfold decode at hd
    split at hd
    · cases hd; rfl
    · rename_i p hv
      split at hd
      · exact absurd ‹_› (hc p _ hv)
      · cases hd; rfl
      · split at hd
        · split at hd
          · cases hd
          · cases hd; rfl
        · cases hd; rfl

/-- An exception of the library escapes. -/
theorem decode_unchecked (h : ¬Checked env token at_) : decode env token ty at_ = .error .uncaught := by
  simp only [Checked, not_forall, not_not] at h
  obtain ⟨payload, e, hv, he⟩ := h
  unfold decode
  rw [hv]
  dsimp only
  rw [he]

theorem SignedAs.unique {payload' : List (String × Json)} (h : SignedAs env token ty at_ payload)
    (h' : SignedAs env token ty at_ payload') : payload' = payload := by
  have hv := h.verified
  rw [h'.verified] at hv
  exact Option.some.inj hv

theorem decodeAccessToken_eq (h : SignedAs env token accessType at_ payload) :
    decodeAccessToken env token at_ = (epochClaim payload).bind fun authEpoch =>
      invalidOn [.keyError, .valueError] (accessClaims env payload authEpoch) := by
  unfold decodeAccessToken
  rw [decode_iff.mpr h]
  rfl

theorem decodeRefreshToken_eq (h : SignedAs env token refreshType at_ payload) :
    decodeRefreshToken env token at_ = invalidOn [.keyError, .typeError, .valueError] (refreshClaims env payload) := by
  unfold decodeRefreshToken
  rw [decode_iff.mpr h]
  rfl

theorem decodeAccessToken_refused (hc : Checked env token at_) (h : ∀ payload, ¬SignedAs env token accessType at_ payload) :
    decodeAccessToken env token at_ = .error .invalidSession := by
  unfold decodeAccessToken
  rw [decode_refused hc h]
  rfl

theorem decodeRefreshToken_refused (hc : Checked env token at_)
    (h : ∀ payload, ¬SignedAs env token refreshType at_ payload) :
    decodeRefreshToken env token at_ = .error .invalidSession := by
  unfold decodeRefreshToken
  rw [decode_refused hc h]
  rfl

theorem decodeAccessToken_unchecked (h : ¬Checked env token at_) :
    decodeAccessToken env token at_ = .error .uncaught := by
  unfold decodeAccessToken
  rw [decode_unchecked h]
  rfl

theorem decodeRefreshToken_unchecked (h : ¬Checked env token at_) :
    decodeRefreshToken env token at_ = .error .uncaught := by
  unfold decodeRefreshToken
  rw [decode_unchecked h]
  rfl

/-! ## Issued tokens -/

variable (env) in
/-- The payloads that this code signs. -/
def Issued (payload : List (String × Json)) : Prop :=
  (∃ c now, payload = accessPayload env c now) ∨
    ∃ sessionId tokenVersion expiresAt now, payload = refreshPayload env sessionId tokenVersion expiresAt now

variable (env) in
/-- The JWT library and `uuid`, on what this code gives them. -/
structure Signs : Prop where
  verify : ∀ payload, Issued env payload → env.jwtVerify (env.jwtEncode payload) = some payload
  timely : ∀ payload, Issued env payload → ∀ (iat exp : ℕ) at_, getKey payload "iat" = some (.int iat) →
    getKey payload "exp" = some (.int exp) →
    env.jwtClaims payload at_ = .ok (decide (seconds iat ≤ at_ ∧ at_ < seconds exp))
  uuid : ∀ u, env.uuidOfString (env.uuidToString u) = some u

/-- The library checks what this code signs without an exception. -/
theorem Signs.checked (hs : Signs env) (hi : Issued env payload) : Checked env (env.jwtEncode payload) at_ := by
  intro payload' e hv he
  rw [hs.verify _ hi] at hv
  cases hv
  rcases hi with ⟨c, now, rfl⟩ | ⟨sessionId, tokenVersion, expiresAt, now, rfl⟩
  · rw [hs.timely _ (.inl ⟨c, now, rfl⟩) _ _ at_ rfl rfl] at he
    cases he
  · rw [hs.timely _ (.inr ⟨_, _, _, _, rfl⟩) _ _ at_ rfl rfl] at he
    cases he

theorem Signs.signed (hs : Signs env) (hi : Issued env payload) {iat exp : ℕ}
    (hiat : getKey payload "iat" = some (.int iat)) (hexp : getKey payload "exp" = some (.int exp))
    (hty : getKey payload "typ" = some (.str ty)) (h : seconds iat ≤ at_ ∧ at_ < seconds exp) :
    SignedAs env (env.jwtEncode payload) ty at_ payload := by
  refine ⟨hs.verify _ hi, ?_, hty⟩
  rw [hs.timely _ hi _ _ at_ hiat hexp, decide_eq_true h]

theorem ofValue_value (role : UserRole) : UserRole.ofValue role.value = some role := by
  cases role <;> rfl

theorem seconds_div_le (t : Instant) : seconds (t / microsPerSecond) ≤ t := Nat.div_mul_le_self t microsPerSecond

theorem roleClaim_str {payload : List (String × Json)} {s : String} {role : UserRole}
    (hk : getKey payload "role" = some (.str s)) (hrole : UserRole.ofValue s = some role) :
    roleClaim payload = .ok role := by
  unfold roleClaim
  rw [hk]
  dsimp only
  rw [hrole]

variable (env) in
/-- What the claims of an access token say. -/
structure ReadsAs (payload : List (String × Json)) (c : AccessTokenClaims) : Prop where
  sub : ∃ s, getKey payload "sub" = some (.str s) ∧ env.uuidOfString s = some c.userId
  sid : ∃ s, getKey payload "sid" = some (.str s) ∧ env.uuidOfString s = some c.sessionId
  role : getKey payload "role" = some (.str c.role.value)
  ver : ∃ x, getKey payload "ver" = some x ∧ c.emailVerified = x.truthy
  mfa : (getKey payload "mfa" = none ∧ c.mfaCompleted = false) ∨
    ∃ x, getKey payload "mfa" = some x ∧ c.mfaCompleted = x.truthy
  epoch : (getKey payload "auth_epoch" = none ∧ c.authEpoch = 0) ∨ getKey payload "auth_epoch" = some (.int c.authEpoch)

variable (env) in
/-- What decoding makes of issued tokens, and of the claims of any validly signed one. -/
structure TokenCodec : Prop where
  access : ∀ c now at_, now ≤ at_ → at_ < seconds ((now + minutes env.accessTokenMinutes) / microsPerSecond) →
    decodeAccessToken env (issueAccessToken env c now) at_ = .ok c
  refresh : ∀ sessionId tokenVersion expiresAt now at_, now ≤ at_ → at_ < seconds (expiresAt / microsPerSecond) →
    decodeRefreshToken env (issueRefreshToken env sessionId tokenVersion expiresAt now) at_ =
      .ok ⟨sessionId, tokenVersion⟩
  accessOnly : ∀ c now at_, decodeRefreshToken env (issueAccessToken env c now) at_ = .error .invalidSession
  refreshOnly : ∀ sessionId tokenVersion expiresAt now at_,
    decodeAccessToken env (issueRefreshToken env sessionId tokenVersion expiresAt now) at_ = .error .invalidSession
  /-- Which validly signed tokens decode, and to what. -/
  claims : ∀ token payload at_ c, SignedAs env token accessType at_ payload →
    (decodeAccessToken env token at_ = .ok c ↔ ReadsAs env payload c)
  /-- The epoch is the claim, or 0 if there is none. -/
  epoch : ∀ token payload at_ c, env.jwtVerify token = some payload → decodeAccessToken env token at_ = .ok c →
    (getKey payload "auth_epoch" = none ∧ c.authEpoch = 0) ∨ getKey payload "auth_epoch" = some (.int c.authEpoch)
  /-- A claim of any other form is refused. -/
  malformed : ∀ token payload at_ x, env.jwtVerify token = some payload → getKey payload "auth_epoch" = some x →
    (∀ n : ℕ, x ≠ .int n) → (∀ c, decodeAccessToken env token at_ ≠ .ok c) ∧
      (Checked env token at_ → decodeAccessToken env token at_ = .error .invalidSession)
  noMfa : ∀ token payload at_ c, env.jwtVerify token = some payload → decodeAccessToken env token at_ = .ok c →
    getKey payload "mfa" = none → c.mfaCompleted = false

theorem decodeAccessToken_cases {c : AccessTokenClaims} (h : decodeAccessToken env token at_ = .ok c) :
    ∃ payload, SignedAs env token accessType at_ payload := by
  cases hd : decode env token accessType at_ with
  | ok payload => exact ⟨payload, decode_iff.mp hd⟩
  | error e =>
    unfold decodeAccessToken at h
    rw [hd] at h
    cases h

theorem uuidClaim_iff {key : String} {u : Uuid} : uuidClaim env payload key = .ok u ↔
    ∃ s, getKey payload key = some (.str s) ∧ env.uuidOfString s = some u := by
  unfold uuidClaim
  cases hg : getKey payload key with
  | none => simp
  | some x =>
    cases x with
    | str s => cases hu : env.uuidOfString s <;> simp [hu]
    | _ => simp

theorem roleClaim_iff {role : UserRole} : roleClaim payload = .ok role ↔
    getKey payload "role" = some (.str role.value) := by
  constructor
  · intro h
    unfold roleClaim at h
    split at h
    · cases h
    · rename_i s hs
      rw [hs]
      unfold UserRole.ofValue at h
      split at h
      · rename_i hrole
        cases h
        split at hrole <;> cases hrole <;> rfl
      · cases h
    · cases h
  · intro h
    exact roleClaim_str h (ofValue_value role)

theorem epochClaim_ok_iff {authEpoch : ℕ} : epochClaim payload = .ok authEpoch ↔
    (getKey payload "auth_epoch" = none ∧ authEpoch = 0) ∨ getKey payload "auth_epoch" = some (.int authEpoch) := by
  unfold epochClaim
  cases hg : getKey payload "auth_epoch" with
  | none => simp [eq_comm]
  | some x =>
    cases x with
    | int n =>
      by_cases hn : n < 0
      · simp only [if_pos hn, reduceCtorEq, false_and, false_or, Option.some.injEq, Json.int.injEq, false_iff]
        omega
      · simp only [if_neg hn, Except.ok.injEq, reduceCtorEq, false_and, false_or, Option.some.injEq, Json.int.injEq]
        omega
    | _ => simp

theorem accessClaims_iff {authEpoch : ℕ} {c : AccessTokenClaims} : accessClaims env payload authEpoch = .ok c ↔
    uuidClaim env payload "sub" = .ok c.userId ∧ uuidClaim env payload "sid" = .ok c.sessionId ∧
      roleClaim payload = .ok c.role ∧ (∃ x, getKey payload "ver" = some x ∧ c.emailVerified = x.truthy) ∧
      c.mfaCompleted = (getKey payload "mfa").any Json.truthy ∧ c.authEpoch = authEpoch := by
  obtain ⟨userId, sessionId, role, emailVerified, mfaCompleted, epoch⟩ := c
  unfold accessClaims
  cases hu : uuidClaim env payload "sub" with
  | error e => simp [bind, Except.bind]
  | ok userId' =>
    cases hs : uuidClaim env payload "sid" with
    | error e => simp [bind, Except.bind]
    | ok sessionId' =>
      cases hr : roleClaim payload with
      | error e => simp [bind, Except.bind]
      | ok role' =>
        cases hv : getKey payload "ver" with
        | none => simp [bind, Except.bind]
        | some ver => simp [bind, Except.bind, pure, Except.pure, eq_comm]

/-- Which validly signed access tokens decode, and to what. -/
theorem decodeAccessToken_iff {c : AccessTokenClaims} (h : SignedAs env token accessType at_ payload) :
    decodeAccessToken env token at_ = .ok c ↔ ReadsAs env payload c := by
  rw [decodeAccessToken_eq h]
  have hmfa : c.mfaCompleted = (getKey payload "mfa").any Json.truthy ↔
      (getKey payload "mfa" = none ∧ c.mfaCompleted = false) ∨
        ∃ x, getKey payload "mfa" = some x ∧ c.mfaCompleted = x.truthy := by
    cases getKey payload "mfa" <;> simp
  constructor
  · intro hd
    cases he : epochClaim payload with
    | error e => rw [he] at hd; cases hd
    | ok authEpoch =>
      rw [he] at hd
      obtain ⟨hu, hs, hr, hv, hm, rfl⟩ := accessClaims_iff.mp (invalidOn_ok hd)
      exact ⟨uuidClaim_iff.mp hu, uuidClaim_iff.mp hs, roleClaim_iff.mp hr, hv, hmfa.mp hm, epochClaim_ok_iff.mp he⟩
  · rintro ⟨hu, hs, hr, hv, hm, he⟩
    rw [epochClaim_ok_iff.mpr he]
    change invalidOn _ (accessClaims env payload c.authEpoch) = _
    rw [accessClaims_iff.mpr ⟨uuidClaim_iff.mpr hu, uuidClaim_iff.mpr hs, roleClaim_iff.mpr hr, hv, hmfa.mpr hm, rfl⟩]
    rfl

theorem epochClaim_malformed {x : Json} (hx : getKey payload "auth_epoch" = some x) (hn : ∀ n : ℕ, x ≠ .int n) :
    epochClaim payload = .error .invalidSession := by
  unfold epochClaim
  rw [hx]
  cases x with
  | int n =>
    refine if_pos ?_
    by_contra hneg
    exact hn n.toNat (by rw [Int.toNat_of_nonneg (by omega)])
  | _ => rfl

/-- **Session tokens** decode to what they were issued for, and to nothing else. -/
theorem token_codec (hs : Signs env) : TokenCodec env where
  access c now at_ hnow hexp := by
    have hi : Issued env (accessPayload env c now) := .inl ⟨c, now, rfl⟩
    have hsigned : SignedAs env (issueAccessToken env c now) accessType at_ _ :=
      hs.signed hi rfl rfl rfl ⟨le_trans (seconds_div_le now) hnow, hexp⟩
    refine (decodeAccessToken_iff hsigned).mpr ⟨⟨_, rfl, hs.uuid _⟩, ⟨_, rfl, hs.uuid _⟩, rfl, ⟨_, rfl, rfl⟩, ?_, ?_⟩
    · exact .inr ⟨_, rfl, rfl⟩
    · exact .inr rfl
  refresh sessionId tokenVersion expiresAt now at_ hnow hexp := by
    have hi : Issued env (refreshPayload env sessionId tokenVersion expiresAt now) := .inr ⟨_, _, _, _, rfl⟩
    have hsigned : SignedAs env (issueRefreshToken env sessionId tokenVersion expiresAt now) refreshType at_ _ :=
      hs.signed hi rfl rfl rfl ⟨le_trans (seconds_div_le now) hnow, hexp⟩
    have hsid : uuidClaim env (refreshPayload env sessionId tokenVersion expiresAt now) "sid" = .ok sessionId := by
      exact uuidClaim_iff.mpr ⟨_, rfl, hs.uuid sessionId⟩
    rw [decodeRefreshToken_eq hsigned, refreshClaims, hsid]
    rfl
  accessOnly c now at_ := by
    have hi : Issued env (accessPayload env c now) := .inl ⟨c, now, rfl⟩
    refine decodeRefreshToken_refused (hs.checked hi) fun payload h => ?_
    have hv := h.verified
    rw [issueAccessToken, hs.verify _ hi] at hv
    cases hv
    have hty : some (Json.str accessType) = some (.str refreshType) := h.type
    simp [accessType, refreshType] at hty
  refreshOnly sessionId tokenVersion expiresAt now at_ := by
    have hi : Issued env (refreshPayload env sessionId tokenVersion expiresAt now) := .inr ⟨_, _, _, _, rfl⟩
    refine decodeAccessToken_refused (hs.checked hi) fun payload h => ?_
    have hv := h.verified
    rw [issueRefreshToken, hs.verify _ hi] at hv
    cases hv
    have hty : some (Json.str refreshType) = some (.str accessType) := h.type
    simp [accessType, refreshType] at hty
  claims token payload at_ c hsigned := decodeAccessToken_iff hsigned
  epoch token payload at_ c hv h := by
    obtain ⟨payload', hsigned⟩ := decodeAccessToken_cases h
    obtain rfl : payload' = payload := Option.some.inj (hsigned.verified.symm.trans hv)
    exact ((decodeAccessToken_iff hsigned).mp h).epoch
  malformed token payload at_ x hv hx hn := by
    have refused : Checked env token at_ → decodeAccessToken env token at_ = .error .invalidSession := by
      intro hc
      by_cases hsigned : SignedAs env token accessType at_ payload
      · rw [decodeAccessToken_eq hsigned, epochClaim_malformed hx hn]
        rfl
      · refine decodeAccessToken_refused hc fun payload' h => hsigned ?_
        obtain rfl : payload' = payload := Option.some.inj (h.verified.symm.trans hv)
        exact h
    refine ⟨fun c h => ?_, refused⟩
    obtain ⟨payload', hsigned⟩ := decodeAccessToken_cases h
    rw [refused hsigned.checked] at h
    cases h
  noMfa token payload at_ c hv h hm := by
    obtain ⟨payload', hsigned⟩ := decodeAccessToken_cases h
    obtain rfl : payload' = payload := Option.some.inj (hsigned.verified.symm.trans hv)
    rcases ((decodeAccessToken_iff hsigned).mp h).mfa with ⟨-, hfalse⟩ | ⟨x, hx, -⟩
    · exact hfalse
    · rw [hm] at hx
      cases hx

/-- The payload of an access token of the sample world, of numbers. -/
def accessForm (sub sid : ℕ) (role : UserRole) (ver mfa : Bool) (authEpoch iat exp : ℕ) : List (String × Json) :=
  [("typ", .str accessType), ("sub", .str (unary sub)), ("sid", .str (unary sid)), ("role", .str role.value),
   ("ver", .bool ver), ("mfa", .bool mfa), ("auth_epoch", .int authEpoch), ("iat", .int iat), ("exp", .int exp)]

def refreshForm (sid tv iat exp : ℕ) : List (String × Json) :=
  [("typ", .str refreshType), ("sid", .str (unary sid)), ("tv", .int tv), ("iat", .int iat), ("exp", .int exp)]

/-- A payload of one of the two forms as one number. -/
def payloadNumber : List (String × Json) → ℕ
  | [_, (_, .str sub), (_, .str sid), (_, .str role), (_, .bool ver), (_, .bool mfa), (_, .int authEpoch), (_, .int iat),
      (_, .int exp)] =>
    .pair 0 (.pair sub.length (.pair sid.length (.pair role.length (.pair ver.toNat (.pair mfa.toNat
      (.pair authEpoch.toNat (.pair iat.toNat exp.toNat)))))))
  | [_, (_, .str sid), (_, .int tv), (_, .int iat), (_, .int exp)] =>
    .pair 1 (.pair sid.length (.pair tv.toNat (.pair iat.toNat exp.toNat)))
  | _ => 0

/-- The payload of a number. -/
def payloadOf (n : ℕ) : List (String × Json) :=
  let n₁ := n.unpair.2
  let n₂ := n₁.unpair.2
  let n₃ := n₂.unpair.2
  let n₄ := n₃.unpair.2
  let n₅ := n₄.unpair.2
  let n₆ := n₅.unpair.2
  let n₇ := n₆.unpair.2
  if n.unpair.1 = 0 then
    accessForm n₁.unpair.1 n₂.unpair.1 (if n₃.unpair.1 = 5 then .admin else .customer) (n₄.unpair.1 = 1)
      (n₅.unpair.1 = 1) n₆.unpair.1 n₇.unpair.1 n₇.unpair.2
  else refreshForm n₁.unpair.1 n₂.unpair.1 n₃.unpair.1 n₃.unpair.2

/-- The sample world with tokens that carry their whole payload. -/
def signingEnv : Env := { sampleEnv with
  jwtEncode := fun payload => unary (payloadNumber payload)
  jwtVerify := fun s => some (payloadOf s.length)
  jwtClaims := fun payload at_ => match getKey payload "iat", getKey payload "exp" with
    | some (.int iat), some (.int exp) => .ok (decide (seconds iat.toNat ≤ at_ ∧ at_ < seconds exp.toNat))
    | _, _ => .ok false }

theorem length_unary (n : ℕ) : (unary n).length = n := by
  rw [unary, ← String.length_toList, String.toList_ofList, List.length_replicate]

theorem payloadOf_access (sub sid : ℕ) (role : UserRole) (ver mfa : Bool) (authEpoch iat exp : ℕ) :
    payloadOf (payloadNumber (accessForm sub sid role ver mfa authEpoch iat exp)) =
      accessForm sub sid role ver mfa authEpoch iat exp := by
  have hrole : (if role.value.length = 5 then UserRole.admin else .customer) = role := by cases role <;> decide
  have hflag : ∀ b : Bool, decide (b.toNat = 1) = b := by decide
  simp only [payloadNumber, accessForm, payloadOf, Nat.unpair_pair, length_unary, Int.toNat_natCast, hrole, hflag, if_true]

theorem payloadOf_refresh (sid tv iat exp : ℕ) :
    payloadOf (payloadNumber (refreshForm sid tv iat exp)) = refreshForm sid tv iat exp := by
  simp only [payloadNumber, refreshForm, payloadOf, Nat.unpair_pair, length_unary, Int.toNat_natCast, one_ne_zero, if_false]

theorem signs_signingEnv : Signs signingEnv where
  verify payload h := by
    change some (payloadOf (unary (payloadNumber payload)).length) = some payload
    rw [length_unary]
    rcases h with ⟨c, now, rfl⟩ | ⟨sessionId, tokenVersion, expiresAt, now, rfl⟩
    · exact congrArg some (payloadOf_access ..)
    · exact congrArg some (payloadOf_refresh ..)
  timely payload _ iat exp at_ hi he := by
    change (match getKey payload "iat", getKey payload "exp" with
      | some (.int iat), some (.int exp) => .ok (decide (seconds iat.toNat ≤ at_ ∧ at_ < seconds exp.toNat))
      | _, _ => .ok false : Except PyError Bool) = _
    rw [hi, he]
    rfl
  uuid u := congrArg some (length_unary u)

/-- The codec of the sample tokens. -/
theorem token_codec_sample : TokenCodec signingEnv := token_codec signs_signingEnv

/-! ## What a client sends -/

/-- The claim is there, and it is no string. -/
def NotString (payload : List (String × Json)) (key : String) : Prop :=
  ∃ x, getKey payload key = some x ∧ ∀ s, x ≠ .str s

theorem subjectClaim_iff : subjectClaim payload = true ↔ ¬NotString payload "sub" := by
  unfold subjectClaim NotString
  cases hg : getKey payload "sub" with
  | none => simp
  | some x => cases x <;> simp

variable (env) in
/-- The claim is the string of a UUID. -/
def IsUuid (payload : List (String × Json)) (key : String) : Prop :=
  ∃ s u, getKey payload key = some (.str s) ∧ env.uuidOfString s = some u

/-- The epoch is a non-negative integer, or not there. -/
def IsEpoch (payload : List (String × Json)) : Prop :=
  ∀ x, getKey payload "auth_epoch" = some x → ∃ n : ℕ, x = .int n

variable (env) in
/-- A session id that `UUID` is given is no string. -/
def AccessEscapes (payload : List (String × Json)) : Prop :=
  IsEpoch payload ∧ IsUuid env payload "sub" ∧ NotString payload "sid"

variable (env) in
/-- Every claim of an access token is as it is issued. -/
def AccessWellFormed (payload : List (String × Json)) : Prop :=
  IsEpoch payload ∧ IsUuid env payload "sub" ∧ IsUuid env payload "sid" ∧
    (∃ role : UserRole, getKey payload "role" = some (.str role.value)) ∧ (getKey payload "ver").isSome = true

variable (env) in
/-- A session id that `UUID` is given is neither a string nor null, or the version that `int` is given is infinite. -/
def RefreshEscapes (payload : List (String × Json)) : Prop :=
  (NotString payload "sid" ∧ getKey payload "sid" ≠ some .null) ∨
    (IsUuid env payload "sid" ∧ (getKey payload "tv" = some (.float .inf) ∨ getKey payload "tv" = some (.float .negInf)))

/-- The computation raises an exception that the `except` clause does not name. -/
def Escapes {α : Type} (exceptions : List PyError) (x : Except PyError α) : Prop :=
  ∃ e, x = .error e ∧ e ∉ exceptions

section Conversions

variable {α β : Type} {exceptions : List PyError} {x : Except PyError α} {f : α → Except PyError β}

theorem escapes_ok (a : α) : ¬Escapes exceptions (.ok a) := by
  rintro ⟨e, h, -⟩
  cases h

theorem escapes_error {e : PyError} : Escapes exceptions (.error e : Except PyError α) ↔ e ∉ exceptions := by
  constructor
  · rintro ⟨e', h, he⟩
    cases h
    exact he
  · exact fun h => ⟨e, rfl, h⟩

theorem escapes_bind :
    Escapes exceptions (x.bind f) ↔ Escapes exceptions x ∨ ∃ a, x = .ok a ∧ Escapes exceptions (f a) := by
  cases x with
  | ok a => simp [Except.bind, escapes_ok]
  | error e => simp [Except.bind, escapes_error]

theorem bind_isOk {ε : Type} {x : Except ε α} {f : α → Except ε β} : (∃ b, x.bind f = .ok b) ↔ ∃ a, x = .ok a ∧ ∃ b, f a = .ok b := by
  cases x <;> simp [Except.bind]

theorem invalidOn_iff : ((∃ a, invalidOn exceptions x = .ok a) ∨ invalidOn exceptions x = .error .invalidSession) ↔
    ¬Escapes exceptions x := by
  cases x with
  | ok a => simp [invalidOn, escapes_ok]
  | error e => simp [invalidOn, escapes_error]

theorem invalidOn_isOk : (∃ a, invalidOn exceptions x = .ok a) ↔ ∃ a, x = .ok a := by
  cases x <;> simp [invalidOn]

theorem uuidClaim_isOk {key : String} : (∃ u, uuidClaim env payload key = .ok u) ↔ IsUuid env payload key :=
  (exists_congr fun _ => uuidClaim_iff).trans exists_comm

theorem uuidClaim_escapes {key : String} : Escapes [.keyError, .valueError] (uuidClaim env payload key) ↔
    NotString payload key := by
  unfold uuidClaim NotString
  cases hg : getKey payload key with
  | none => simp [escapes_error]
  | some x =>
    cases x with
    | str s => cases hu : env.uuidOfString s <;> simp [escapes_error, escapes_ok, hu]
    | _ => simp [escapes_error]

theorem uuidClaim_escapes_type {key : String} :
    Escapes [.keyError, .typeError, .valueError] (uuidClaim env payload key) ↔
      NotString payload key ∧ getKey payload key ≠ some .null := by
  unfold uuidClaim NotString
  cases hg : getKey payload key with
  | none => simp [escapes_error]
  | some x =>
    cases x with
    | str s => cases hu : env.uuidOfString s <;> simp [escapes_error, escapes_ok, hu]
    | _ => simp [escapes_error]

theorem intClaim_escapes {key : String} : Escapes [.keyError, .typeError, .valueError] (intClaim env payload key) ↔
    getKey payload key = some (.float .inf) ∨ getKey payload key = some (.float .negInf) := by
  unfold intClaim
  cases hg : getKey payload key with
  | none => simp [escapes_error]
  | some x =>
    cases x with
    | str s => cases hi : env.intOfString s <;> simp [escapes_error, escapes_ok, hi]
    | float x => cases x <;> simp [escapes_error, escapes_ok]
    | _ => simp [escapes_error, escapes_ok]

theorem epochClaim_iff : (∃ authEpoch, epochClaim payload = .ok authEpoch) ↔ IsEpoch payload := by
  constructor
  · rintro ⟨authEpoch, h⟩ x hx
    rcases epochClaim_ok_iff.mp h with ⟨hnone, -⟩ | hsome
    · rw [hnone] at hx
      cases hx
    · rw [hsome] at hx
      cases hx
      exact ⟨authEpoch, rfl⟩
  · intro h
    unfold epochClaim
    cases hx : getKey payload "auth_epoch" with
    | none => exact ⟨0, rfl⟩
    | some x =>
      obtain ⟨n, rfl⟩ := h x hx
      exact ⟨_, if_neg (by omega)⟩

theorem epochClaim_refused (h : ¬IsEpoch payload) : epochClaim payload = .error .invalidSession := by
  simp only [IsEpoch, not_forall] at h
  obtain ⟨x, hx, hn⟩ := h
  exact epochClaim_malformed hx fun n hxn => hn ⟨n, hxn⟩

theorem roleClaim_isOk : (∃ role, roleClaim payload = .ok role) ↔
    ∃ role : UserRole, getKey payload "role" = some (.str role.value) := exists_congr fun _ => roleClaim_iff

theorem roleClaim_escapes : ¬Escapes [.keyError, .valueError] (roleClaim payload) := by
  unfold roleClaim
  cases hg : getKey payload "role" with
  | none => simp [escapes_error]
  | some x =>
    cases x with
    | str s => cases ho : UserRole.ofValue s <;> simp [escapes_error, escapes_ok, ho]
    | _ => simp [escapes_error]

end Conversions

theorem accessClaims_escapes (authEpoch : ℕ) :
    Escapes [.keyError, .valueError] (accessClaims env payload authEpoch) ↔
      NotString payload "sub" ∨ (IsUuid env payload "sub" ∧ NotString payload "sid") := by
  unfold accessClaims
  refine escapes_bind.trans (or_congr uuidClaim_escapes ?_)
  rw [← uuidClaim_isOk, ← exists_and_right]
  refine exists_congr fun userId => and_congr_right fun _ => escapes_bind.trans ?_
  rw [uuidClaim_escapes]
  refine or_iff_left ?_
  -- neither the role nor the flags raise anything else
  rintro ⟨sessionId, -, h⟩
  rcases escapes_bind.mp h with h | ⟨role, -, h⟩
  · exact roleClaim_escapes h
  · cases hv : getKey payload "ver" with
    | none => simp [hv, escapes_error] at h
    | some ver =>
      rw [hv] at h
      exact escapes_ok _ h

theorem accessClaims_isOk {authEpoch : ℕ} : (∃ c, accessClaims env payload authEpoch = .ok c) ↔
    IsUuid env payload "sub" ∧ IsUuid env payload "sid" ∧
      (∃ role : UserRole, getKey payload "role" = some (.str role.value)) ∧ (getKey payload "ver").isSome = true := by
  unfold accessClaims
  refine bind_isOk.trans ?_
  rw [← uuidClaim_isOk, ← uuidClaim_isOk, ← roleClaim_isOk, ← exists_and_right]
  refine exists_congr fun userId => and_congr_right fun _ => bind_isOk.trans ?_
  rw [← exists_and_right]
  refine exists_congr fun sessionId => and_congr_right fun _ => bind_isOk.trans ?_
  rw [← exists_and_right]
  refine exists_congr fun role => and_congr_right fun _ => ?_
  cases getKey payload "ver" with
  | none => simp
  | some ver => exact ⟨fun _ => rfl, fun _ => ⟨_, rfl⟩⟩

theorem refreshClaims_escapes : Escapes [.keyError, .typeError, .valueError] (refreshClaims env payload) ↔
    RefreshEscapes env payload := by
  unfold refreshClaims RefreshEscapes
  refine escapes_bind.trans (or_congr uuidClaim_escapes_type ?_)
  rw [← uuidClaim_isOk, ← exists_and_right]
  refine exists_congr fun sessionId => and_congr_right fun _ => escapes_bind.trans ?_
  rw [intClaim_escapes]
  refine or_iff_left ?_
  rintro ⟨tokenVersion, -, h⟩
  exact escapes_ok _ h

/-- The result is claims, or `InvalidSessionError`. -/
def Contained {α : Type} (x : Except IdentityError α) : Prop := (∃ a, x = .ok a) ∨ x = .error .invalidSession

theorem contained_refused {α : Type} : Contained (.error .invalidSession : Except IdentityError α) := .inr rfl

theorem contained_uncaught {α : Type} : ¬Contained (.error .uncaught : Except IdentityError α) := by
  rintro (⟨a, h⟩ | h) <;> cases h

/-- When `decode_access_token` keeps its contract. -/
theorem contained_access (hsub : ∀ payload at_, env.jwtClaims payload at_ = .ok true → ¬NotString payload "sub") :
    Contained (decodeAccessToken env token at_) ↔ Checked env token at_ ∧
      ∀ payload, SignedAs env token accessType at_ payload → ¬AccessEscapes env payload := by
  by_cases hc : Checked env token at_
  · rw [and_iff_right hc]
    by_cases hs : ∃ payload, SignedAs env token accessType at_ payload
    · obtain ⟨payload, hs⟩ := hs
      have hall : (∀ payload, SignedAs env token accessType at_ payload → ¬AccessEscapes env payload) ↔
          ¬AccessEscapes env payload := by
        refine ⟨fun h => h payload hs, fun h payload' hs' => ?_⟩
        rwa [hs.unique hs']
      rw [hall, decodeAccessToken_eq hs]
      unfold AccessEscapes
      by_cases he : IsEpoch payload
      · obtain ⟨authEpoch, hepoch⟩ := epochClaim_iff.mpr he
        have hstr : NotString payload "sub" ∨ (IsUuid env payload "sub" ∧ NotString payload "sid") ↔ _ :=
          or_iff_right (hsub payload at_ hs.timely)
        rw [hepoch, and_iff_right he, ← hstr, ← accessClaims_escapes authEpoch]
        exact invalidOn_iff
      · rw [epochClaim_refused he]
        exact iff_of_true contained_refused fun h => he h.1
    · rw [decodeAccessToken_refused hc fun payload h => hs ⟨payload, h⟩]
      exact iff_of_true contained_refused fun payload h => absurd ⟨payload, h⟩ hs
  · rw [decodeAccessToken_unchecked hc]
    exact iff_of_false contained_uncaught fun h => hc h.1

/-- Which access tokens are accepted. -/
theorem accepted_access : (∃ c, decodeAccessToken env token at_ = .ok c) ↔
    ∃ payload, SignedAs env token accessType at_ payload ∧ AccessWellFormed env payload := by
  have accepted : ∀ {payload}, SignedAs env token accessType at_ payload →
      ((∃ c, decodeAccessToken env token at_ = .ok c) ↔ AccessWellFormed env payload) := by
    intro payload hs
    rw [decodeAccessToken_eq hs, bind_isOk]
    unfold AccessWellFormed
    rw [← epochClaim_iff, ← exists_and_right]
    exact exists_congr fun authEpoch => and_congr_right fun _ => invalidOn_isOk.trans accessClaims_isOk
  constructor
  · rintro ⟨c, h⟩
    obtain ⟨payload, hs⟩ := decodeAccessToken_cases h
    exact ⟨payload, hs, (accepted hs).mp ⟨c, h⟩⟩
  · rintro ⟨payload, hs, hw⟩
    exact (accepted hs).mpr hw

/-- When `decode_refresh_token` keeps its contract. -/
theorem contained_refresh : Contained (decodeRefreshToken env token at_) ↔ Checked env token at_ ∧
    ∀ payload, SignedAs env token refreshType at_ payload → ¬RefreshEscapes env payload := by
  by_cases hc : Checked env token at_
  · rw [and_iff_right hc]
    by_cases hs : ∃ payload, SignedAs env token refreshType at_ payload
    · obtain ⟨payload, hs⟩ := hs
      rw [decodeRefreshToken_eq hs]
      refine invalidOn_iff.trans ((not_congr refreshClaims_escapes).trans ⟨fun h payload' hs' => ?_, fun h => h payload hs⟩)
      rwa [hs.unique hs']
    · rw [decodeRefreshToken_refused hc fun payload h => hs ⟨payload, h⟩]
      exact iff_of_true contained_refused fun payload h => absurd ⟨payload, h⟩ hs
  · rw [decodeRefreshToken_unchecked hc]
    exact iff_of_false contained_uncaught fun h => hc h.1

theorem decodeRefreshToken_cases {c : RefreshTokenClaims} (h : decodeRefreshToken env token at_ = .ok c) :
    ∃ payload, SignedAs env token refreshType at_ payload := by
  cases hd : decode env token refreshType at_ with
  | ok payload => exact ⟨payload, decode_iff.mp hd⟩
  | error e =>
    unfold decodeRefreshToken at h
    rw [hd] at h
    cases h

/-- Which refresh tokens are accepted. -/
theorem accepted_refresh : (∃ c, decodeRefreshToken env token at_ = .ok c) ↔
    ∃ payload, SignedAs env token refreshType at_ payload ∧ IsUuid env payload "sid" ∧
      ∃ n, intClaim env payload "tv" = .ok n := by
  have accepted : ∀ {payload}, SignedAs env token refreshType at_ payload →
      ((∃ c, decodeRefreshToken env token at_ = .ok c) ↔
        IsUuid env payload "sid" ∧ ∃ n, intClaim env payload "tv" = .ok n) := by
    intro payload hs
    rw [decodeRefreshToken_eq hs, invalidOn_isOk, ← uuidClaim_isOk, ← exists_and_right]
    unfold refreshClaims
    refine bind_isOk.trans (exists_congr fun sessionId => and_congr_right fun _ => bind_isOk.trans ?_)
    exact exists_congr fun tokenVersion => ⟨fun h => h.1, fun h => ⟨h, _, rfl⟩⟩
  constructor
  · rintro ⟨c, h⟩
    obtain ⟨payload, hs⟩ := decodeRefreshToken_cases h
    exact ⟨payload, hs, (accepted hs).mp ⟨c, h⟩⟩
  · rintro ⟨payload, hs, hw⟩
    exact (accepted hs).mpr hw

section Routes

variable (env)

/-- `current_claims`, of the access cookie. -/
def currentClaimsOf (raw : Option String) : Handler AccessTokenClaims := do
  match raw with
  | none | some "" => raise unauthenticatedError
  | some raw =>
    let now ← stmt .now
    let claims ← (Prog.ofExcept (decodeAccessToken env raw now)).catchAll fun e =>
      raise (if e.isInvalidSession then unauthenticatedError else e)
    currentClaims claims
    return claims

/-- `require_csrf`, of the access cookie and the header. -/
def requireCsrfOf (raw csrf : Option String) : Handler AccessTokenClaims := do
  let claims ← currentClaimsOf env raw
  checkCsrf env claims.sessionId csrf
  return claims

/-- The checks of `refresh`, of the refresh cookie and the header. -/
def refreshChecks (raw csrf : Option String) : Handler (String × RefreshTokenClaims) :=
  match raw with
  | none | some "" => raise unauthenticatedError
  | some raw => do
    let now ← stmt .now
    let claims ← (Prog.ofExcept (decodeRefreshToken env raw now)).catchAll fun e =>
      raise (if e.isInvalidSession then unauthenticatedError else e)
    checkCsrf env claims.sessionId csrf
    return (raw, claims)

/-- The route starts with its checks. -/
theorem refreshRoute_checks (raw csrf : Option String) (ctx : AuditContext) :
    refreshRoute env raw csrf ctx = (refreshChecks env raw csrf).bind fun (raw, claims) => do
      let mfaCompleted ← MfaSessionStore.isCompleted claims.sessionId
      let result ← (refreshSession env raw mfaCompleted ctx).catchAll refreshError
      return .cookiesSet ⟨result.accessToken, result.refreshToken, result.csrfToken⟩ := by
  unfold refreshRoute refreshChecks
  split
  · rfl
  · rfl
  · simp only [Prog.bind_eq, Prog.bind_assoc]
    rfl

variable {env} {sessionId : Uuid} {raw csrf : Option String}

/-- The answers 401 and 403 of the checks. -/
def Refused (e : IdentityError) : Prop := e = unauthenticatedError ∨ e = csrfInvalidError

theorem not_refused : ¬Refused .uncaught := by
  rintro (h | h) <;> cases h

/-- The header, if there is one, is ASCII. -/
def HeaderAscii (csrf : Option String) : Prop := ∀ presented, csrf = some presented → isAscii presented = true

variable (hhex : ∀ s, isAscii (env.csrfTokenForSession s) = true ∧ env.csrfTokenForSession s ≠ "")
  (hsub : ∀ payload at_, env.jwtClaims payload at_ = .ok true → ¬NotString payload "sub")

include hhex

/-- When `verify_csrf_token` is the equality with the token of the session. -/
theorem verifyCsrfToken_iff :
    verifyCsrfToken env sessionId csrf = .ok (csrf = some (env.csrfTokenForSession sessionId)) ↔ HeaderAscii csrf := by
  obtain ⟨hascii, hne⟩ := hhex sessionId
  unfold verifyCsrfToken HeaderAscii
  cases csrf with
  | none => simp
  | some presented =>
    by_cases hp : presented = ""
    · subst hp
      simp [isAscii, hne.symm]
    · cases hpa : isAscii presented <;> simp [hp, compareDigest, hascii, hpa]

theorem checkCsrf_iff : (checkCsrf env sessionId csrf).RaisesOnly Refused ↔ HeaderAscii csrf := by
  constructor
  · intro h presented hp
    subst hp
    by_contra hpa
    have hne : presented ≠ "" := fun hne => hpa (by rw [hne]; rfl)
    have herr : verifyCsrfToken env sessionId (some presented) = .error .typeError := by
      simp [verifyCsrfToken, hne, compareDigest, hpa]
    unfold checkCsrf at h
    rw [herr] at h
    exact not_refused h
  · intro h
    unfold checkCsrf
    rw [(verifyCsrfToken_iff hhex).mpr h]
    split
    · trivial
    · exact .inr rfl
    · rename_i heq
      cases heq

omit hhex in
theorem decodeAccessToken_error {e : IdentityError} (h : decodeAccessToken env token at_ = .error e) :
    e.isDecoding := by
  unfold decodeAccessToken at h
  cases hd : decode env token accessType at_ with
  | error e' => rw [hd] at h; cases h; exact decode_error hd
  | ok payload =>
    rw [hd] at h
    change (epochClaim payload).bind _ = _ at h
    by_cases he : IsEpoch payload
    · obtain ⟨authEpoch, hepoch⟩ := epochClaim_iff.mpr he
      rw [hepoch] at h
      exact invalidOn_error h
    · rw [epochClaim_refused he] at h
      cases h
      exact .inl rfl

omit hhex in
/-- What a route makes of an exception of decoding. -/
theorem refused_decoding {e : IdentityError} (he : e.isDecoding) :
    Refused (if e.isInvalidSession then unauthenticatedError else e) ↔ e = .invalidSession := by
  rcases he with rfl | rfl
  · exact iff_of_true (.inl rfl) rfl
  · exact iff_of_false not_refused fun h => by cases h

include hsub in
/-- When `require_csrf` ends in acceptance, 401 or 403. -/
theorem requireCsrf_iff : (requireCsrfOf env raw csrf).RaisesOnly Refused ↔
    ∀ token, raw = some token → token ≠ "" → ∀ at_, Checked env token at_ ∧
      ∀ payload, SignedAs env token accessType at_ payload →
        ¬AccessEscapes env payload ∧ (AccessWellFormed env payload → HeaderAscii csrf) := by
  unfold requireCsrfOf currentClaimsOf
  split
  · exact iff_of_true (.inl rfl) fun token h => by cases h
  · exact iff_of_true (.inl rfl) fun token h hne => absurd (Option.some.inj h).symm hne
  · rename_i token hne
    have hone : ∀ at_, ((((Prog.ofExcept (decodeAccessToken env token at_)).catchAll fun e =>
        raise (if e.isInvalidSession then unauthenticatedError else e)).bind fun claims =>
          (currentClaims claims).bind fun _ => .ret claims).bind fun claims =>
            (checkCsrf env claims.sessionId csrf).bind fun _ => .ret claims : Handler _).RaisesOnly Refused ↔
        Contained (decodeAccessToken env token at_) ∧ ((∃ c, decodeAccessToken env token at_ = .ok c) → HeaderAscii csrf) := by
      intro at_
      cases hd : decodeAccessToken env token at_ with
      | error e =>
        refine (refused_decoding (decodeAccessToken_error hd)).trans ?_
        simp [Contained]
      | ok c =>
        have hcheck : ((checkCsrf env c.sessionId csrf).bind fun _ => Prog.ret c).RaisesOnly Refused ↔ HeaderAscii csrf :=
          Prog.raisesOnly_bind_ret.trans (checkCsrf_iff hhex)
        have hiff : Contained (Except.ok c : Except IdentityError _) ∧
            ((∃ c', (Except.ok c : Except IdentityError _) = .ok c') → HeaderAscii csrf) ↔ HeaderAscii csrf := by
          simp [Contained]
        rw [hiff, ← hcheck]
        constructor
        · intro h
          have h := h (some c.authEpoch)
          simp only [Prog.ret_bind, ne_eq, not_true_eq_false, if_false, Prog.pure_eq] at h
          exact h
        · intro h r
          cases r with
          | none => exact .inl rfl
          | some epoch =>
            simp only [Prog.ret_bind]
            split
            · exact .inl rfl
            · exact h
    refine (forall_congr' hone).trans ⟨fun h token' heq _ at_ => ?_, fun h at_ => ?_⟩
    · cases heq
      obtain ⟨hchecked, hescapes⟩ := (contained_access hsub).mp (h at_).1
      exact ⟨hchecked, fun payload hs => ⟨hescapes payload hs, fun hw => (h at_).2 (accepted_access.mpr ⟨payload, hs, hw⟩)⟩⟩
    · obtain ⟨hchecked, hall⟩ := h token rfl (fun h0 => hne h0) at_
      refine ⟨(contained_access hsub).mpr ⟨hchecked, fun payload hs => (hall payload hs).1⟩, fun hc => ?_⟩
      obtain ⟨payload, hs, hw⟩ := accepted_access.mp hc
      exact (hall payload hs).2 hw

/-- When the checks of `refresh` end in acceptance, 401 or 403. -/
theorem refreshChecks_iff : (refreshChecks env raw csrf).RaisesOnly Refused ↔
    ∀ token, raw = some token → token ≠ "" → ∀ at_, Checked env token at_ ∧
      ∀ payload, SignedAs env token refreshType at_ payload → ¬RefreshEscapes env payload ∧
        (IsUuid env payload "sid" → (∃ n, intClaim env payload "tv" = .ok n) → HeaderAscii csrf) := by
  unfold refreshChecks
  split
  · exact iff_of_true (.inl rfl) fun token h => by cases h
  · exact iff_of_true (.inl rfl) fun token h hne => absurd (Option.some.inj h).symm hne
  · rename_i token hne
    have hone : ∀ at_, (((Prog.ofExcept (decodeRefreshToken env token at_)).catchAll fun e =>
        raise (if e.isInvalidSession then unauthenticatedError else e)).bind fun claims =>
          (checkCsrf env claims.sessionId csrf).bind fun _ => .ret (token, claims) : Handler _).RaisesOnly Refused ↔
        Contained (decodeRefreshToken env token at_) ∧
          ((∃ c, decodeRefreshToken env token at_ = .ok c) → HeaderAscii csrf) := by
      intro at_
      cases hd : decodeRefreshToken env token at_ with
      | error e =>
        refine (refused_decoding (decodeRefreshToken_error hd)).trans ?_
        simp [Contained]
      | ok c =>
        have hcheck : Prog.RaisesOnly Refused ((checkCsrf env c.sessionId csrf).bind fun _ => Prog.ret (token, c)) ↔
            HeaderAscii csrf := Prog.raisesOnly_bind_ret.trans (checkCsrf_iff hhex)
        exact hcheck.trans (by simp [Contained])
    refine (forall_congr' hone).trans ⟨fun h token' heq _ at_ => ?_, fun h at_ => ?_⟩
    · cases heq
      obtain ⟨hchecked, hescapes⟩ := contained_refresh.mp (h at_).1
      exact ⟨hchecked, fun payload hs => ⟨hescapes payload hs, fun hsid htv =>
        (h at_).2 (accepted_refresh.mpr ⟨payload, hs, hsid, htv⟩)⟩⟩
    · obtain ⟨hchecked, hall⟩ := h token rfl (fun h0 => hne h0) at_
      refine ⟨contained_refresh.mpr ⟨hchecked, fun payload hs => (hall payload hs).1⟩, fun hc => ?_⟩
      obtain ⟨payload, hs, hsid, htv⟩ := accepted_refresh.mp hc
      exact (hall payload hs).2 hsid htv

omit hhex in
variable (env) in
/-- For which cookies and headers each check keeps its contract. -/
structure InputContract : Prop where
  access : ∀ token at_, Contained (decodeAccessToken env token at_) ↔ Checked env token at_ ∧
    ∀ payload, SignedAs env token accessType at_ payload → ¬AccessEscapes env payload
  refresh : ∀ token at_, Contained (decodeRefreshToken env token at_) ↔ Checked env token at_ ∧
    ∀ payload, SignedAs env token refreshType at_ payload → ¬RefreshEscapes env payload
  csrf : ∀ sessionId csrf, verifyCsrfToken env sessionId csrf =
    .ok (csrf = some (env.csrfTokenForSession sessionId)) ↔ HeaderAscii csrf
  /-- `require_csrf`, whatever the stored epoch. -/
  requireCsrf : ∀ raw csrf, (requireCsrfOf env raw csrf).RaisesOnly Refused ↔
    ∀ token, raw = some token → token ≠ "" → ∀ at_, Checked env token at_ ∧
      ∀ payload, SignedAs env token accessType at_ payload →
        ¬AccessEscapes env payload ∧ (AccessWellFormed env payload → HeaderAscii csrf)
  /-- The checks with which `refresh` starts. -/
  refreshRoute : ∀ raw csrf, (refreshChecks env raw csrf).RaisesOnly Refused ↔
    ∀ token, raw = some token → token ≠ "" → ∀ at_, Checked env token at_ ∧
      ∀ payload, SignedAs env token refreshType at_ payload → ¬RefreshEscapes env payload ∧
        (IsUuid env payload "sid" → (∃ n, intClaim env payload "tv" = .ok n) → HeaderAscii csrf)

end Routes

/-- The sample world with a signed token whose session id is a number. -/
def numberEnv : Env := { sampleEnv with
  jwtVerify := fun _ => some [("typ", .str accessType), ("sub", .str (unary 1)), ("sid", .int 5)] }

end Bekaa3D.Identity
