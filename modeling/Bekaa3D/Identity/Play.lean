import Bekaa3D.Txn.Play
import Bekaa3D.Identity.System

/-!
# Identity.Play — schedules of identity requests

`player env` answers the statements of the identity context: queries and scans from the rows that are there,
clocks, random sources and generated keys by the schedule.
-/

namespace Bekaa3D.Identity

open Txn

/-- What the environment chooses at a statement: a number, a string, a list of strings. -/
structure Choice where
  n : ℕ := 0
  s : String := ""
  ss : List String := []

/-- The reply `r`, if the condition holds. -/
def Choice.when {α : Type} (p : Bool) (r : α) : Option α := if p then some r else none

def answer (env : Env) : (o : Op) → Db → Mem → Choice → Option (Resp o)
  | .now, _, _, c => some c.n
  | .uuid4, _, _, c => some c.n
  | .tokenUrlsafe _, _, _, c => some c.s
  | .hashPassword _, _, _, c => some c.s
  | .generateSecret, _, _, c => some c.s
  | .encryptSecret _, _, _, c => some c.s
  | .generateCodeSet, _, _, c => some c.ss
  | .sleep _, _, _, _ => some ()
  | .issueAccessToken claims now, _, _, _ => some (issueAccessToken env claims now)
  | .selectUserByEmail email, db, _, _ => some (db.users.find (User.emailIs env email))
  | .selectUser id, db, _, _ => some (db.users.row id)
  | .selectAuthEpoch id, db, _, _ => some ((db.users.row id).map User.authEpoch)
  | .selectUserForUpdate id, db, _, _ => some (db.users.row id)
  | .updateUser id _, db, _, _ => some (db.users.row id).isSome
  | .selectSessionOwner id, db, _, _ => some ((db.sessions.row id).map Session.userId)
  | .selectSession id, db, _, _ => some (db.sessions.row id)
  | .selectSessionForUpdate id, db, _, _ => some (db.sessions.row id)
  | .insertSession x, db, _, _ => some ((db.sessions.row x.id).isNone && (db.users.row x.userId).isSome &&
      (db.sessions.find fun y => y.refreshTokenHash = x.refreshTokenHash).isNone)
  | .updateSession id _, db, _, _ => some (db.sessions.row id).isSome
  | .scanLiveSessions userId, db, _, _ => some (db.sessions.scan (Session.liveOf userId))
  | .revokeSession id userId _, db, _, _ => some ((db.sessions.row id).any (Session.liveOf userId))
  | .selectVerificationTokenByHash h, db, _, _ => some (db.verificationTokens.find fun t => t.tokenHash = h)
  | .selectVerificationToken id, db, _, _ => some (db.verificationTokens.row id)
  | .updateVerificationToken id _, db, _, _ => some (db.verificationTokens.row id).isSome
  | .selectResetTokenForUpdate h, db, _, _ => some (db.passwordResetTokens.find fun t => t.tokenHash = h)
  | .selectResetToken id, db, _, _ => some (db.passwordResetTokens.row id)
  | .selectLatestResetToken userId, db, _, _ =>
      match db.passwordResetTokens.find fun t => t.userId = userId with
      | none => some none
      | some t => Choice.when ((db.passwordResetTokens.find fun t' => t'.userId = userId && t.createdAt < t'.createdAt).isNone)
          (some t)
  | .insertResetToken userId h expiresAt, db, _, c =>
      Choice.when ((db.passwordResetTokens.row c.n).isNone && (db.users.row userId).isSome &&
        (db.passwordResetTokens.find fun t => t.tokenHash = h).isNone) (some ⟨c.n, userId, h, expiresAt, none, 0⟩)
  | .updateResetToken id _, db, _, _ => some (db.passwordResetTokens.row id).isSome
  | .scanUnusedResetTokens userId, db, _, _ => some (db.passwordResetTokens.scan (PasswordResetToken.unusedOf userId))
  | .consumeResetToken id userId _, db, _, _ =>
      some ((db.passwordResetTokens.row id).any (PasswordResetToken.unusedOf userId))
  | .selectCredentialByUser userId, db, _, _ => some (db.mfaCredentials.find fun c => c.userId = userId)
  | .selectCredentialByUserForUpdate userId, db, _, _ => some (db.mfaCredentials.find fun c => c.userId = userId)
  | .selectCredential id, db, _, _ => some (db.mfaCredentials.row id)
  | .insertCredential userId secret, db, _, c =>
      Choice.when ((db.mfaCredentials.row c.n).isNone && (db.users.row userId).isSome &&
        (db.mfaCredentials.find fun c => c.userId = userId).isNone) (some ⟨c.n, userId, secret, none, none, none⟩)
  | .updateCredential id _, db, _, _ => some (db.mfaCredentials.row id).isSome
  | .selectUnusedCodeForUpdate cid h, db, _, _ =>
      some (db.mfaRecoveryCodes.find fun c => c.unusedOf cid && c.codeHash = h)
  | .selectCode id, db, _, _ => some (db.mfaRecoveryCodes.row id)
  | .updateCode id _, db, _, _ => some (db.mfaRecoveryCodes.row id).isSome
  | .countUnusedCodes cid, db, _, _ => some (db.mfaRecoveryCodes.scan (MfaRecoveryCode.unusedOf cid)).length
  | .scanUnusedCodes cid, db, _, _ => some (db.mfaRecoveryCodes.scan (MfaRecoveryCode.unusedOf cid))
  | .deleteUnusedCode id cid, db, _, _ => some ((db.mfaRecoveryCodes.row id).any (MfaRecoveryCode.unusedOf cid))
  | .insertCode cid h, db, _, c =>
      Choice.when ((db.mfaRecoveryCodes.row c.n).isNone && (db.mfaCredentials.row cid).isSome &&
        (db.mfaRecoveryCodes.find fun c => c.codeHash = h).isNone) (some ⟨c.n, cid, h, none⟩)
  | .insertAudit row, db, _, _ => some (db.hasUser row.actorUserId)
  | .insertOutbox row, db, _, _ => some (db.hasUser row.userId)
  | .redisGet key, _, mem, _ => some (mem key)
  | .redisSet _ _ _, _, _, _ => some ()
  | .redisIncr key, _, mem, _ => some ((match mem key with | some (.counter n) => n | _ => 0) + 1)
  | .redisExpire _ _, _, _, _ => some ()
  | .redisDelete _, _, _, _ => some ()

theorem Choice.when_eq_some {α : Type} {p : Bool} {r r' : α} (h : Choice.when p r = some r') : p = true ∧ r' = r := by
  unfold Choice.when at h
  split at h
  · cases h; exact ⟨‹_›, rfl⟩
  · cases h

/-- A query that finds nothing. -/
theorem picks_none {K V : Type} {key : V → K} {t : Table key} {p : V → Bool} :
    (t.find p).isNone = true ↔ t.Picks p none := by
  have h := t.find_picks (p := p)
  cases hf : t.find p with
  | none => rw [hf] at h; exact ⟨fun _ => h, fun _ => rfl⟩
  | some v =>
    rw [hf] at h
    refine ⟨fun hn => by simp at hn, fun hn => ?_⟩
    have hp := h.cond
    rw [hn _ v h.row] at hp
    cases hp

theorem answer_sound {env : Env} {o : Op} {db : Db} {mem : Mem} {c : Choice} {r : Resp o} (free : RowLock → Prop)
    (h : answer env o db mem c = some r) : resp env o db mem free r := by
  cases o with
  | now | uuid4 | tokenUrlsafe | hashPassword | generateSecret | encryptSecret | generateCodeSet | sleep
  | redisSet | redisExpire | redisDelete => trivial
  | selectUserByEmail | selectVerificationTokenByHash | selectResetTokenForUpdate | selectCredentialByUser
  | selectCredentialByUserForUpdate | selectUnusedCodeForUpdate =>
    cases h
    exact Table.find_picks
  | scanLiveSessions | scanUnusedResetTokens | scanUnusedCodes =>
    cases h
    exact .refl _
  | insertSession x =>
    cases h
    change (_ = true) ↔ _
    rw [Bool.and_eq_true, Bool.and_eq_true, Option.isNone_iff_eq_none, picks_none, and_assoc]
  | selectLatestResetToken userId =>
    have hf := db.passwordResetTokens.find_picks (p := fun t => t.userId = userId)
    dsimp only [answer] at h
    split at h
    · rename_i hn
      cases h
      rw [hn] at hf
      exact ⟨hf, fun _ _ _ h => by cases h⟩
    · rename_i t ht
      obtain ⟨hp, rfl⟩ := Choice.when_eq_some h
      rw [ht] at hf
      refine ⟨hf, fun k t₀ t' he hk hu => ?_⟩
      cases he
      have := picks_none.mp hp k t' hk
      simpa [hu] using this
  | insertResetToken userId hash expiresAt =>
    obtain ⟨hp, rfl⟩ := Choice.when_eq_some h
    simp only [Bool.and_eq_true, Option.isNone_iff_eq_none] at hp
    exact ⟨rfl, hp.1.1, hp.1.2, picks_none.mp (by simpa using hp.2)⟩
  | insertCredential userId secret =>
    obtain ⟨hp, rfl⟩ := Choice.when_eq_some h
    simp only [Bool.and_eq_true, Option.isNone_iff_eq_none] at hp
    exact ⟨rfl, hp.1.1, hp.1.2, picks_none.mp (by simpa using hp.2)⟩
  | insertCode cid hash =>
    obtain ⟨hp, rfl⟩ := Choice.when_eq_some h
    simp only [Bool.and_eq_true, Option.isNone_iff_eq_none] at hp
    exact ⟨rfl, hp.1.1, hp.1.2, picks_none.mp (by simpa using hp.2)⟩
  | _ =>
    cases h
    rfl

def player (env : Env) : Player (store env) Choice := ⟨answer env, fun free h => answer_sound free h⟩

/-! ## A small world -/

def unary (n : ℕ) : String := String.ofList (List.replicate n '|')

/-- A `sub`, if there is one, is a string. -/
def subjectClaim (payload : List (String × Json)) : Bool :=
  match getKey payload "sub" with
  | none | some (.str _) => true
  | some _ => false

/-- Plain hashes, recovery codes and secrets; a refresh token is written out as its session and version. -/
def sampleEnv : Env where
  verifyPassword password hash := password = hash
  hashToken s := s
  jwtEncode payload :=
    match getKey payload "sid", getKey payload "tv" with
    | some (.str sid), some (.int n) => sid ++ "." ++ unary n.toNat
    | _, _ => "access"
  jwtVerify s :=
    if '.' ∈ s.toList then
      some [("typ", .str refreshType), ("sid", .str (String.ofList (s.toList.takeWhile (· ≠ '.')))),
        ("tv", .int ((s.toList.dropWhile (· ≠ '.')).length - 1))]
    else none
  jwtClaims payload _ := .ok (subjectClaim payload)
  uuidToString := unary
  uuidOfString s := some s.length
  intOfString _ := none
  csrfTokenForSession _ := "csrf"
  totpAt secret _ := secret
  decryptSecret s := some s
  provisioningUri _ _ := ""
  normalizeCode s := s
  emailDigest s := s
  citext s := s
  toIso _ := ""
  dummyPasswordHash := ""
  accessTokenMinutes := 15
  refreshTokenDays := 7
  mfaIssuer := ""
  baseUrl := ""

def sampleUser : User where
  id := 1
  email := "ada"
  passwordHash := "old"
  role := .customer
  emailVerifiedAt := none
  isActive := true
  anonymizedAt := none
  deletedAt := none
  createdAt := 0
  authEpoch := 0

def sampleReset : PasswordResetToken := ⟨9, 1, "token", 1000, none, 0⟩

/-- One account with a password reset requested. -/
def sampleDb : Db where
  users := Table.empty.insert sampleUser
  sessions := .empty
  verificationTokens := .empty
  passwordResetTokens := Table.empty.insert sampleReset
  mfaCredentials := .empty
  mfaRecoveryCodes := .empty
  auditLogs := []
  emailOutbox := []

def sampleMem : Mem := fun _ => none

end Bekaa3D.Identity
