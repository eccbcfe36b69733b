import Bekaa3D.Identity.Schema

/-!
# Identity.Store — what the statements do

The identity tables and Redis as an instance of `Txn.Engine`.

* `resp`: the replies a statement may get.  A query for one row may return any row that meets its condition.
  A unique index is checked against the rows the statement sees.
* `need`: `SELECT … FOR UPDATE` and `DELETE` lock the row in mode `update`, an `UPDATE` in mode `noKeyUpdate`
  (`update` if it changes a column with a unique index), and an `INSERT` locks its own key and, in mode
  `keyShare`, every row its foreign keys refer to.
* `Prot`: a row lock keeps the row; in mode `update` it also keeps others from inserting rows that refer to it.
* `store env`: the engine.
-/

namespace Bekaa3D.Identity

open Txn

abbrev Mem := RedisKey → Option RedisVal

/-! ## Conditions -/

def User.emailIs (env : Env) (email : String) (u : User) : Bool :=
  env.citext u.email = env.citext email && u.deletedAt.isNone

def Session.liveOf (userId : Uuid) (x : Session) : Bool := x.userId = userId && !x.isRevoked

def PasswordResetToken.unusedOf (userId : Uuid) (t : PasswordResetToken) : Bool := t.userId = userId && !t.isUsed

def MfaRecoveryCode.unusedOf (mfaCredentialId : Uuid) (c : MfaRecoveryCode) : Bool :=
  c.mfaCredentialId = mfaCredentialId && !c.isUsed

/-- The foreign key from a nullable column to `users`. -/
def Db.hasUser (db : Db) : Option Uuid → Bool
  | none => true
  | some u => (db.users.row u).isSome

/-! ## Replies -/

/-- `ORDER BY created_at DESC LIMIT 1`. -/
def Latest (db : Db) (userId : Uuid) (r : Option PasswordResetToken) : Prop :=
  db.passwordResetTokens.Picks (fun t => t.userId = userId) r ∧
    ∀ k t t', r = some t → db.passwordResetTokens.row k = some t' → t'.userId = userId → t'.createdAt ≤ t.createdAt

def resp (env : Env) : (o : Op) → Db → Mem → (RowLock → Prop) → Resp o → Prop
  | .now, _, _, _, _ => True
  | .uuid4, _, _, _, _ => True
  | .tokenUrlsafe _, _, _, _, _ => True
  | .hashPassword _, _, _, _, _ => True
  | .generateSecret, _, _, _, _ => True
  | .encryptSecret _, _, _, _, _ => True
  | .generateCodeSet, _, _, _, _ => True
  | .sleep _, _, _, _, _ => True
  | .issueAccessToken c now, _, _, _, r => r = issueAccessToken env c now
  | .selectUserByEmail email, db, _, _, r => db.users.Picks (User.emailIs env email) r
  | .selectUser id, db, _, _, r => r = db.users.row id
  | .selectAuthEpoch id, db, _, _, r => r = (db.users.row id).map User.authEpoch
  | .selectUserForUpdate id, db, _, _, r => r = db.users.row id
  | .updateUser id _, db, _, _, r => r = (db.users.row id).isSome
  | .selectSessionOwner id, db, _, _, r => r = (db.sessions.row id).map Session.userId
  | .selectSession id, db, _, _, r => r = db.sessions.row id
  | .selectSessionForUpdate id, db, _, _, r => r = db.sessions.row id
  | .insertSession x, db, _, _, r => r = true ↔ db.sessions.row x.id = none ∧ (db.users.row x.userId).isSome ∧
      db.sessions.Picks (fun y => y.refreshTokenHash = x.refreshTokenHash) none
  | .updateSession id _, db, _, _, r => r = (db.sessions.row id).isSome
  | .scanLiveSessions userId, db, _, _, r => r.Perm (db.sessions.scan (Session.liveOf userId))
  | .revokeSession id userId _, db, _, _, r => r = (db.sessions.row id).any (Session.liveOf userId)
  | .selectVerificationTokenByHash h, db, _, _, r => db.verificationTokens.Picks (fun t => t.tokenHash = h) r
  | .selectVerificationToken id, db, _, _, r => r = db.verificationTokens.row id
  | .updateVerificationToken id _, db, _, _, r => r = (db.verificationTokens.row id).isSome
  | .selectResetTokenForUpdate h, db, _, _, r => db.passwordResetTokens.Picks (fun t => t.tokenHash = h) r
  | .selectResetToken id, db, _, _, r => r = db.passwordResetTokens.row id
  | .selectLatestResetToken userId, db, _, _, r => Latest db userId r
  | .insertResetToken userId h expiresAt, db, _, _, some t =>
      t = ⟨t.id, userId, h, expiresAt, none, t.createdAt⟩ ∧ db.passwordResetTokens.row t.id = none ∧
        (db.users.row userId).isSome ∧ db.passwordResetTokens.Picks (fun t' => t'.tokenHash = h) none
  | .insertResetToken userId h _, db, _, _, none =>
      db.users.row userId = none ∨ ∃ t, db.passwordResetTokens.Picks (fun t' => t'.tokenHash = h) (some t)
  | .updateResetToken id _, db, _, _, r => r = (db.passwordResetTokens.row id).isSome
  | .scanUnusedResetTokens userId, db, _, _, r =>
      r.Perm (db.passwordResetTokens.scan (PasswordResetToken.unusedOf userId))
  | .consumeResetToken id userId _, db, _, _, r =>
      r = (db.passwordResetTokens.row id).any (PasswordResetToken.unusedOf userId)
  | .selectCredentialByUser userId, db, _, _, r => db.mfaCredentials.Picks (fun c => c.userId = userId) r
  | .selectCredentialByUserForUpdate userId, db, _, _, r => db.mfaCredentials.Picks (fun c => c.userId = userId) r
  | .selectCredential id, db, _, _, r => r = db.mfaCredentials.row id
  | .insertCredential userId secret, db, _, _, some c =>
      c = ⟨c.id, userId, secret, none, none, none⟩ ∧ db.mfaCredentials.row c.id = none ∧
        (db.users.row userId).isSome ∧ db.mfaCredentials.Picks (fun c' => c'.userId = userId) none
  | .insertCredential userId _, db, _, _, none =>
      db.users.row userId = none ∨ ∃ c, db.mfaCredentials.Picks (fun c' => c'.userId = userId) (some c)
  | .updateCredential id _, db, _, _, r => r = (db.mfaCredentials.row id).isSome
  | .selectUnusedCodeForUpdate cid h, db, _, _, r =>
      db.mfaRecoveryCodes.Picks (fun c => c.unusedOf cid && c.codeHash = h) r
  | .selectCode id, db, _, _, r => r = db.mfaRecoveryCodes.row id
  | .updateCode id _, db, _, _, r => r = (db.mfaRecoveryCodes.row id).isSome
  | .countUnusedCodes cid, db, _, _, r => r = (db.mfaRecoveryCodes.scan (MfaRecoveryCode.unusedOf cid)).length
  | .scanUnusedCodes cid, db, _, _, r => r.Perm (db.mfaRecoveryCodes.scan (MfaRecoveryCode.unusedOf cid))
  | .deleteUnusedCode id cid, db, _, _, r => r = (db.mfaRecoveryCodes.row id).any (MfaRecoveryCode.unusedOf cid)
  | .insertCode cid h, db, _, _, some c =>
      c = ⟨c.id, cid, h, none⟩ ∧ db.mfaRecoveryCodes.row c.id = none ∧ (db.mfaCredentials.row cid).isSome ∧
        db.mfaRecoveryCodes.Picks (fun c' => c'.codeHash = h) none
  | .insertCode cid h, db, _, _, none =>
      db.mfaCredentials.row cid = none ∨ ∃ c, db.mfaRecoveryCodes.Picks (fun c' => c'.codeHash = h) (some c)
  | .insertAudit row, db, _, _, r => r = db.hasUser row.actorUserId
  | .insertOutbox row, db, _, _, r => r = db.hasUser row.userId
  | .redisGet key, _, mem, _, r => r = mem key
  | .redisSet _ _ _, _, _, _, _ => True
  | .redisIncr key, _, mem, _, r => r = (match mem key with | some (.counter n) => n | _ => 0) + 1
  | .redisExpire _ _, _, _, _, _ => True
  | .redisDelete _, _, _, _, _ => True

/-! ## Locks -/

/-- `FOR KEY SHARE` on the user that a nullable foreign key refers to. -/
def shareUser : Option Uuid → List RowLock
  | none => []
  | some u => [⟨.user u, .keyShare⟩]

def need : (o : Op) → Resp o → List RowLock
  | .selectUserForUpdate _, some u => [⟨.user u.id, .update⟩]
  | .updateUser id _, true => [⟨.user id, .noKeyUpdate⟩]
  | .selectSessionForUpdate _, some x => [⟨.session x.id, .update⟩]
  | .insertSession x, true => [⟨.session x.id, .update⟩, ⟨.user x.userId, .keyShare⟩]
  | .updateSession id cols, true =>
      [⟨.session id, if cols.refreshTokenHash.isSome then .update else .noKeyUpdate⟩]
  | .revokeSession id _ _, true => [⟨.session id, .noKeyUpdate⟩]
  | .updateVerificationToken id _, true => [⟨.verificationToken id, .noKeyUpdate⟩]
  | .selectResetTokenForUpdate _, some t => [⟨.passwordResetToken t.id, .update⟩]
  | .insertResetToken _ _ _, some t => [⟨.passwordResetToken t.id, .update⟩, ⟨.user t.userId, .keyShare⟩]
  | .updateResetToken id _, true => [⟨.passwordResetToken id, .noKeyUpdate⟩]
  | .consumeResetToken id _ _, true => [⟨.passwordResetToken id, .noKeyUpdate⟩]
  | .selectCredentialByUserForUpdate _, some c => [⟨.mfaCredential c.id, .update⟩]
  | .insertCredential _ _, some c =>
      [⟨.mfaCredential c.id, .update⟩, ⟨.mfaCredentialOf c.userId, .update⟩, ⟨.user c.userId, .keyShare⟩]
  | .updateCredential id _, true => [⟨.mfaCredential id, .noKeyUpdate⟩]
  | .selectUnusedCodeForUpdate _ _, some c => [⟨.mfaRecoveryCode c.id, .update⟩]
  | .updateCode id _, true => [⟨.mfaRecoveryCode id, .noKeyUpdate⟩]
  | .deleteUnusedCode id _, true => [⟨.mfaRecoveryCode id, .update⟩]
  | .insertCode _ _, some c => [⟨.mfaRecoveryCode c.id, .update⟩, ⟨.mfaCredential c.mfaCredentialId, .keyShare⟩]
  | .insertAudit row, true => shareUser row.actorUserId
  | .insertOutbox row, true => shareUser row.userId
  | _, _ => []

/-! ## Effects -/

def Session.revokedAtIs (at_ : Instant) (x : Session) : Session := { x with revokedAt := some at_ }

def PasswordResetToken.usedAtIs (at_ : Option Instant) (t : PasswordResetToken) : PasswordResetToken :=
  { t with usedAt := at_ }

def VerificationToken.usedAtIs (at_ : Option Instant) (t : VerificationToken) : VerificationToken :=
  { t with usedAt := at_ }

def MfaRecoveryCode.usedAtIs (at_ : Option Instant) (c : MfaRecoveryCode) : MfaRecoveryCode :=
  { c with usedAt := at_ }

def write : (o : Op) → Resp o → Db → Db
  | .updateUser id cols, true, db => { db with users := db.users.modify id cols.apply fun _ => rfl }
  | .insertSession x, true, db => { db with sessions := db.sessions.insert x }
  | .updateSession id cols, true, db => { db with sessions := db.sessions.modify id cols.apply fun _ => rfl }
  | .revokeSession id _ at_, true, db =>
      { db with sessions := db.sessions.modify id (Session.revokedAtIs at_) fun _ => rfl }
  | .updateVerificationToken id usedAt, true, db =>
      { db with verificationTokens := db.verificationTokens.modify id (VerificationToken.usedAtIs usedAt) fun _ => rfl }
  | .insertResetToken _ _ _, some t, db => { db with passwordResetTokens := db.passwordResetTokens.insert t }
  | .updateResetToken id usedAt, true, db =>
      { db with passwordResetTokens :=
          db.passwordResetTokens.modify id (PasswordResetToken.usedAtIs usedAt) fun _ => rfl }
  | .consumeResetToken id _ at_, true, db =>
      { db with passwordResetTokens :=
          db.passwordResetTokens.modify id (PasswordResetToken.usedAtIs (some at_)) fun _ => rfl }
  | .insertCredential _ _, some c, db => { db with mfaCredentials := db.mfaCredentials.insert c }
  | .updateCredential id cols, true, db =>
      { db with mfaCredentials := db.mfaCredentials.modify id cols.apply fun _ => rfl }
  | .updateCode id usedAt, true, db =>
      { db with mfaRecoveryCodes := db.mfaRecoveryCodes.modify id (MfaRecoveryCode.usedAtIs usedAt) fun _ => rfl }
  | .deleteUnusedCode id _, true, db => { db with mfaRecoveryCodes := db.mfaRecoveryCodes.erase id }
  | .insertCode _ _, some c, db => { db with mfaRecoveryCodes := db.mfaRecoveryCodes.insert c }
  | .insertAudit row, true, db => { db with auditLogs := db.auditLogs ++ [row] }
  | .insertOutbox row, true, db => { db with emailOutbox := db.emailOutbox ++ [row] }
  | _, _, db => db

def memo : (o : Op) → Resp o → Mem → Mem
  | .redisSet key val _, _, mem => Function.update mem key (some val)
  | .redisIncr key, n, mem => Function.update mem key (some (.counter n))
  | .redisDelete key, _, mem => Function.update mem key none
  | _, _, mem => mem

/-! ## What a row lock protects -/

def Prot (l : RowLock) (db db' : Db) : Prop :=
  l.mode ≠ .keyShare →
  match l.row with
  | .user id => db'.users.row id = db.users.row id ∧ (l.mode = .update →
      NoNew (fun x => x.userId = id) db.sessions db'.sessions ∧
      NoNew (fun t => t.userId = id) db.passwordResetTokens db'.passwordResetTokens ∧
      NoNew (fun c => c.userId = id) db.mfaCredentials db'.mfaCredentials)
  | .session id => db'.sessions.row id = db.sessions.row id
  | .verificationToken id => db'.verificationTokens.row id = db.verificationTokens.row id
  | .passwordResetToken id => db'.passwordResetTokens.row id = db.passwordResetTokens.row id
  | .mfaCredential id => db'.mfaCredentials.row id = db.mfaCredentials.row id ∧ (l.mode = .update →
      NoNew (fun c => c.mfaCredentialId = id) db.mfaRecoveryCodes db'.mfaRecoveryCodes)
  | .mfaRecoveryCode id => db'.mfaRecoveryCodes.row id = db.mfaRecoveryCodes.row id
  | .mfaCredentialOf userId => NoNew (fun c => c.userId = userId) db.mfaCredentials db'.mfaCredentials

theorem prot_refl (l : RowLock) (db : Db) : Prot l db db := by
  intro hm
  rcases l with ⟨_ | _ | _ | _ | _ | _ | _, m⟩
  · exact ⟨rfl, fun _ => ⟨.refl, .refl, .refl⟩⟩
  · rfl
  · rfl
  · rfl
  · exact ⟨rfl, fun _ => .refl⟩
  · rfl
  · exact .refl

theorem prot_trans {l : RowLock} {a b c : Db} (h : Prot l a b) (h' : Prot l b c) : Prot l a c := by
  intro hm
  have h := h hm
  have h' := h' hm
  rcases l with ⟨_ | _ | _ | _ | _ | _ | _, m⟩
  · refine ⟨h'.1.trans h.1, fun hu => ?_⟩
    obtain ⟨h1, h2, h3⟩ := h.2 hu
    obtain ⟨h1', h2', h3'⟩ := h'.2 hu
    exact ⟨h1.trans h1', h2.trans h2', h3.trans h3'⟩
  · exact h'.trans h
  · exact h'.trans h
  · exact h'.trans h
  · exact ⟨h'.1.trans h.1, fun hu => (h.2 hu).trans (h'.2 hu)⟩
  · exact h'.trans h
  · exact h.trans h'

/-! ### A change of one table, outside what a lock protects -/

section Tables

variable {l : RowLock} {db : Db}

theorem prot_users {t : Table User.id} (h : ∀ id, l.row = .user id → t.row id = db.users.row id) :
    Prot l db { db with users := t } := by
  intro hm
  rcases l with ⟨id | id | id | id | id | id | id, m⟩
  · exact ⟨h id rfl, fun _ => ⟨.refl, .refl, .refl⟩⟩
  all_goals exact prot_refl _ db hm

theorem prot_sessions {t : Table Session.id} (h : ∀ id, l.row = .session id → t.row id = db.sessions.row id)
    (hu : ∀ id, l.row = .user id → l.mode = .update → NoNew (fun x => x.userId = id) db.sessions t) :
    Prot l db { db with sessions := t } := by
  intro hm
  rcases l with ⟨id | id | id | id | id | id | id, m⟩
  · exact ⟨rfl, fun hu' => ⟨hu id rfl hu', .refl, .refl⟩⟩
  · exact h id rfl
  all_goals exact prot_refl _ db hm

theorem prot_verificationTokens {t : Table VerificationToken.id}
    (h : ∀ id, l.row = .verificationToken id → t.row id = db.verificationTokens.row id) :
    Prot l db { db with verificationTokens := t } := by
  intro hm
  rcases l with ⟨id | id | id | id | id | id | id, m⟩
  · exact prot_refl _ db hm
  · rfl
  · exact h id rfl
  all_goals exact prot_refl _ db hm

theorem prot_passwordResetTokens {t : Table PasswordResetToken.id}
    (h : ∀ id, l.row = .passwordResetToken id → t.row id = db.passwordResetTokens.row id)
    (hu : ∀ id, l.row = .user id → l.mode = .update →
      NoNew (fun x => x.userId = id) db.passwordResetTokens t) :
    Prot l db { db with passwordResetTokens := t } := by
  intro hm
  rcases l with ⟨id | id | id | id | id | id | id, m⟩
  · exact ⟨rfl, fun hu' => ⟨.refl, hu id rfl hu', .refl⟩⟩
  · rfl
  · rfl
  · exact h id rfl
  all_goals exact prot_refl _ db hm

theorem prot_mfaCredentials {t : Table MfaCredential.id}
    (h : ∀ id, l.row = .mfaCredential id → t.row id = db.mfaCredentials.row id)
    (hu : ∀ id, l.row = .user id ∧ l.mode = .update ∨ l.row = .mfaCredentialOf id →
      NoNew (fun c => c.userId = id) db.mfaCredentials t) :
    Prot l db { db with mfaCredentials := t } := by
  intro hm
  rcases l with ⟨id | id | id | id | id | id | id, m⟩
  · exact ⟨rfl, fun hu' => ⟨.refl, .refl, hu id (Or.inl ⟨rfl, hu'⟩)⟩⟩
  · rfl
  · rfl
  · rfl
  · exact ⟨h id rfl, fun _ => .refl⟩
  · rfl
  · exact hu id (Or.inr rfl)

theorem prot_mfaRecoveryCodes {t : Table MfaRecoveryCode.id}
    (h : ∀ id, l.row = .mfaRecoveryCode id → t.row id = db.mfaRecoveryCodes.row id)
    (hc : ∀ id, l.row = .mfaCredential id → l.mode = .update →
      NoNew (fun c => c.mfaCredentialId = id) db.mfaRecoveryCodes t) :
    Prot l db { db with mfaRecoveryCodes := t } := by
  intro hm
  rcases l with ⟨id | id | id | id | id | id | id, m⟩
  · exact prot_refl _ db hm
  · rfl
  · rfl
  · rfl
  · exact ⟨rfl, fun hu => hc id rfl hu⟩
  · exact h id rfl
  · exact prot_refl _ db hm

end Tables

/-! ### The locks of a statement cover its effect -/

/-- A lock that `m` does not conflict with is on another row, or one of the two is `keyShare`. -/
theorem RowLock.row_ne {l m : RowLock} (h : m.conflict l = false) (hl : l.mode ≠ .keyShare)
    (hm : m.mode ≠ .keyShare ∨ l.mode = .update) : l.row ≠ m.row := by
  intro heq
  rcases l with ⟨lr, lm⟩
  rcases m with ⟨mr, mm⟩
  dsimp only at heq hl hm
  subst heq
  cases lm <;> cases mm <;> simp_all [RowLock.conflict, LockMode.conflict]

theorem covered (o : Op) (r : Resp o) (l : RowLock) (h : ∀ m ∈ need o r, m.conflict l = false) (db : Db) :
    Prot l db (write o r db) := by
  by_cases hl : l.mode = .keyShare
  · exact fun h => absurd hl h
  have ne : ∀ {row m}, ⟨row, m⟩ ∈ need o r → m ≠ .keyShare ∨ l.mode = .update → l.row ≠ row :=
    fun hmem hmode => RowLock.row_ne (h _ hmem) hl hmode
  clear h
  have upd : LockMode.update ≠ .keyShare := by decide
  have nku : LockMode.noKeyUpdate ≠ .keyShare := by decide
  cases o with
  | updateUser id cols =>
    cases r with
    | false => exact prot_refl l db
    | true =>
      refine prot_users fun id' hid => Table.row_modify_ne ?_ _ _
      rintro rfl
      exact ne (m := .noKeyUpdate) (by simp [need]) (Or.inl nku) hid
  | insertSession x =>
    cases r with
    | false => exact prot_refl l db
    | true =>
      refine prot_sessions (fun id' hid => Table.row_insert_ne ?_) fun id' hid hu => NoNew.insert ?_
      · rintro rfl
        exact ne (m := .update) (by simp [need]) (Or.inl upd) hid
      · rintro rfl
        exact ne (m := .keyShare) (by simp [need]) (Or.inr hu) hid
  | updateSession id cols =>
    cases r with
    | false => exact prot_refl l db
    | true =>
      refine prot_sessions (fun id' hid => Table.row_modify_ne ?_ _ _) fun id' _ _ => NoNew.modify fun _ h => h
      rintro rfl
      refine ne (List.mem_singleton.mpr rfl) (Or.inl ?_) hid
      split
      · exact upd
      · exact nku
  | revokeSession id userId at_ =>
    cases r with
    | false => exact prot_refl l db
    | true =>
      refine prot_sessions (fun id' hid => Table.row_modify_ne ?_ _ _) fun id' _ _ => NoNew.modify fun _ h => h
      rintro rfl
      exact ne (m := .noKeyUpdate) (by simp [need]) (Or.inl nku) hid
  | updateVerificationToken id usedAt =>
    cases r with
    | false => exact prot_refl l db
    | true =>
      refine prot_verificationTokens fun id' hid => Table.row_modify_ne ?_ _ _
      rintro rfl
      exact ne (m := .noKeyUpdate) (by simp [need]) (Or.inl nku) hid
  | insertResetToken userId hash expiresAt =>
    cases r with
    | none => exact prot_refl l db
    | some t =>
      refine prot_passwordResetTokens (fun id' hid => Table.row_insert_ne ?_) fun id' hid hu => NoNew.insert ?_
      · rintro rfl
        exact ne (m := .update) (by simp [need]) (Or.inl upd) hid
      · rintro rfl
        exact ne (m := .keyShare) (by simp [need]) (Or.inr hu) hid
  | updateResetToken id usedAt =>
    cases r with
    | false => exact prot_refl l db
    | true =>
      refine prot_passwordResetTokens (fun id' hid => Table.row_modify_ne ?_ _ _)
        fun id' _ _ => NoNew.modify fun _ h => h
      rintro rfl
      exact ne (m := .noKeyUpdate) (by simp [need]) (Or.inl nku) hid
  | consumeResetToken id userId at_ =>
    cases r with
    | false => exact prot_refl l db
    | true =>
      refine prot_passwordResetTokens (fun id' hid => Table.row_modify_ne ?_ _ _)
        fun id' _ _ => NoNew.modify fun _ h => h
      rintro rfl
      exact ne (m := .noKeyUpdate) (by simp [need]) (Or.inl nku) hid
  | insertCredential userId secret =>
    cases r with
    | none => exact prot_refl l db
    | some c =>
      refine prot_mfaCredentials (fun id' hid => Table.row_insert_ne ?_) fun id' hid => NoNew.insert ?_
      · rintro rfl
        exact ne (m := .update) (by simp [need]) (Or.inl upd) hid
      · rintro rfl
        rcases hid with ⟨hid, hu⟩ | hid
        · exact ne (m := .keyShare) (by simp [need]) (Or.inr hu) hid
        · exact ne (m := .update) (by simp [need]) (Or.inl upd) hid
  | updateCredential id cols =>
    cases r with
    | false => exact prot_refl l db
    | true =>
      refine prot_mfaCredentials (fun id' hid => Table.row_modify_ne ?_ _ _)
        fun id' _ => NoNew.modify fun _ h => h
      rintro rfl
      exact ne (m := .noKeyUpdate) (by simp [need]) (Or.inl nku) hid
  | updateCode id usedAt =>
    cases r with
    | false => exact prot_refl l db
    | true =>
      refine prot_mfaRecoveryCodes (fun id' hid => Table.row_modify_ne ?_ _ _)
        fun id' _ _ => NoNew.modify fun _ h => h
      rintro rfl
      exact ne (m := .noKeyUpdate) (by simp [need]) (Or.inl nku) hid
  | deleteUnusedCode id cid =>
    cases r with
    | false => exact prot_refl l db
    | true =>
      refine prot_mfaRecoveryCodes (fun id' hid => Table.row_erase_ne ?_) fun id' _ _ => NoNew.erase
      rintro rfl
      exact ne (m := .update) (by simp [need]) (Or.inl upd) hid
  | insertCode cid hash =>
    cases r with
    | none => exact prot_refl l db
    | some c =>
      refine prot_mfaRecoveryCodes (fun id' hid => Table.row_insert_ne ?_) fun id' hid hu => NoNew.insert ?_
      · rintro rfl
        exact ne (m := .update) (by simp [need]) (Or.inl upd) hid
      · rintro rfl
        exact ne (m := .keyShare) (by simp [need]) (Or.inr hu) hid
  | insertAudit row => cases r <;> exact prot_refl l db
  | insertOutbox row => cases r <;> exact prot_refl l db
  | _ => exact prot_refl l db

/-- PostgreSQL and Redis under the identity context. -/
@[reducible] def store (env : Env) : Engine where
  toLang := lang
  Db := Db
  Mem := Mem
  Lock := RowLock
  conflict := RowLock.conflict
  conflict_comm := RowLock.conflict_comm
  resp := resp env
  need := need
  write := write
  memo := memo
  Prot := Prot
  prot_refl := prot_refl
  prot_trans := prot_trans
  covered := covered

end Bekaa3D.Identity
