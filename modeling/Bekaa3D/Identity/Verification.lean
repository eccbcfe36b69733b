import Bekaa3D.Identity.Revocation

/-!
# Identity.Verification — e-mail verification next to everything else that writes accounts

A verification takes no lock: it reads its token and the account, checks both, then reads the account again and
writes every column in which the two reads differ.  Password resets and activations lock the account, which does
not keep a verification from having read it before.

* `Allowed.security`: a verification keeps the columns that decide who may use the account, if the second read
  agrees with the first on them (`RereadsSame`).
* `Verifications`: a verification is redeemed once, if the account that it writes is still unverified
  (`StillUnverified`).
-/

namespace Bekaa3D.Identity

open Txn

variable {env : Env} {ι : Type}

/-- The requests that write accounts. -/
def Request.ofAccounts : Request → Prop
  | .verifyEmail _ _ | .confirmPasswordReset _ _ _ | .updateUser _ _ _ _ _ => True
  | _ => False

def Request.isVerifyEmail : Request → Prop
  | .verifyEmail _ _ => True
  | _ => False

/-- Transaction `i` presents a verification token of the account `u`. -/
def Verifies (req : ι → Request) (w : World (store env) ι) (i : ι) (u : Uuid) : Prop :=
  (req i).isVerifyEmail ∧ ∃ hash t, Did w i (.selectVerificationTokenByHash hash) (some t) ∧ t.userId = u

/-- The columns that decide who may use an account are the same. -/
structure SameSecurity (v v' : User) : Prop where
  passwordHash : v'.passwordHash = v.passwordHash
  authEpoch : v'.authEpoch = v.authEpoch
  isActive : v'.isActive = v.isActive
  anonymizedAt : v'.anonymizedAt = v.anonymizedAt
  deletedAt : v'.deletedAt = v.deletedAt

theorem SameSecurity.refl (v : User) : SameSecurity v v := ⟨rfl, rfl, rfl, rfl, rfl⟩

/-- When a verification reads an account that it has read before, the columns that decide who may use it are the
same. -/
def RereadsSame (req : ι → Request) (w : World (store env) ι) (e : Event (store env) ι) : Prop :=
  ∀ i u r v₀ v, (req i).isVerifyEmail → e = ⟨i, .stmt (.selectUser u) r⟩ → Did w i (.selectUser u) (some v₀) →
    w.db.users.row u = some v → SameSecurity v₀ v

/-- When a verification reads an account that it has read before, or writes it, the account is unverified. -/
def StillUnverified (req : ι → Request) (w : World (store env) ι) (e : Event (store env) ι) : Prop :=
  ∀ i u v, (req i).isVerifyEmail → w.db.users.row u = some v →
    (∃ r v₀, e = ⟨i, .stmt (.selectUser u) r⟩ ∧ Did w i (.selectUser u) (some v₀)) ∨
      (∃ cols r, e = ⟨i, .stmt (.updateUser u cols) r⟩) → v.isVerified = false

/-- The audit row of a verification of `u`. -/
def AuditLog.isVerification (u : Uuid) (row : AuditLog) : Bool :=
  row.entityId = some u && row.action = "user.email_verified"

variable [DecidableEq ι] {A : World (store env) ι → Event (store env) ι → Prop}
  {req : ι → Request} {db db' : Db} {mem : Mem} {i : ι} {k u : Uuid} {v : User} {w : World (store env) ι}
  {ch : Change} {s : Sys (store env) ι}

/-! ## The columns that a verification leaves alone -/

/-- What a verification writes to the row `v`, having read the account as `u₀` and then as `u₁`. -/
theorem sameSecurity_apply {u₀ u₁ : User} {x : Option Instant} (h : SameSecurity u₀ u₁) (v : User) :
    SameSecurity v ((UserRepository.cols u₁ { u₀ with emailVerifiedAt := x }).apply v) := by
  have same : ∀ {α : Type} [DecidableEq α] {a b c : α}, a = b → (changed a b).getD c = c := fun h => by
    simp [changed, h]
  exact ⟨same h.passwordHash, same h.authEpoch, same h.isActive, same h.anonymizedAt, same h.deletedAt⟩

/-- A verification that read the same columns twice keeps them. -/
theorem Allowed.security (hA : ∀ w e, A w e → RereadsSame req w e) (ha : Allowed A w i (req i) ch)
    (hreq : (req i).isVerifyEmail) (hrel : ch.Rel w.db db') (hv : w.db.users.row k = some v) :
    ∃ v', db'.users.row k = some v' ∧ SameSecurity v v' := by
  have hverify := hreq
  generalize hr : req i = r at ha hreq
  cases ha with
  | @verifiedEmail raw ctx g t u₀ u₁ v₁ now w₀ w₁ redeemed id met row₀ =>
    rcases Table.Change.Rel.of_set hrel.users hv with ⟨rfl, rfl, h'⟩ | ⟨-, h'⟩
    · refine ⟨_, h', sameSecurity_apply ?_ v⟩
      exact hA _ _ redeemed.met i _ _ _ _ hverify rfl (by rw [redeemed.id]; exact redeemed.read) redeemed.row
    · exact ⟨v, h', .refl v⟩
  | emailUnchanged redeemed verified => exact ⟨v, (hrel.users k).trans hv, .refl v⟩
  | _ => exact hreq.elim

/-- What one commit does to the columns of an account that decide who may use it. -/
theorem Allowed.keepsUpdates (hA : ∀ w e, A w e → RereadsSame req w e) (ha : Allowed A w i (req i) ch)
    (hp : (req i).ofAccounts) (hrel : ch.Rel w.db db') (hv : w.db.users.row k = some v) :
    ∃ v', db'.users.row k = some v' ∧ v.authEpoch ≤ v'.authEpoch ∧
      (v.isActive = false → v'.isActive = true → ∃ claims csrf ctx, req i = .updateUser claims csrf k true ctx) := by
  have same : (req i).isVerifyEmail → ∃ v', db'.users.row k = some v' ∧ v.authEpoch ≤ v'.authEpoch ∧
      (v.isActive = false → v'.isActive = true → ∃ claims csrf ctx, req i = .updateUser claims csrf k true ctx) :=
    fun hreq => by
      obtain ⟨v', hv', hs⟩ := ha.security hA hreq hrel hv
      exact ⟨v', hv', Nat.le_of_eq hs.authEpoch.symm, fun hf ht => by rw [hs.isActive, hf] at ht; cases ht⟩
  generalize hr : req i = r at ha hp same ⊢
  cases ha with
  | verifiedEmail | emailUnchanged => exact same trivial
  | @reset raw password ctx x t now h n lockT unused lock owner can hashed =>
    rcases Table.Change.Rel.of_set hrel.users hv with ⟨rfl, rfl, h'⟩ | ⟨-, h'⟩
    · exact ⟨_, h', Nat.le_succ _, fun hf ht => by rw [show v.isActive = true from ht] at hf; cases hf⟩
    · exact ⟨v, h', Nat.le_refl _, fun hf ht => by rw [ht] at hf; cases hf⟩
  | @userUnchanged claims csrf userId isActive ctx x did same =>
    exact ⟨v, (hrel.users k).trans hv, Nat.le_refl _, fun hf ht => by rw [ht] at hf; cases hf⟩
  | @userActivated claims csrf userId ctx x lock id inactive =>
    rcases Table.Change.Rel.of_set hrel.users hv with ⟨rfl, rfl, h'⟩ | ⟨-, h'⟩
    · exact ⟨_, h', Nat.le_refl _, fun _ _ => ⟨claims, csrf, ctx, by rw [id]⟩⟩
    · exact ⟨v, h', Nat.le_refl _, fun hf ht => by rw [ht] at hf; cases hf⟩
  | @userDeactivated claims csrf userId ctx x now ids n lock id active scanned count =>
    rcases Table.Change.Rel.of_set hrel.users hv with ⟨rfl, rfl, h'⟩ | ⟨-, h'⟩
    · exact ⟨_, h', Nat.le_succ _, fun hf ht => by cases ht⟩
    · exact ⟨v, h', Nat.le_refl _, fun hf ht => by rw [ht] at hf; cases hf⟩
  | _ => exact hp.elim

/-- Verifications, resets and activations keep the hash of an account or set one computed under its lock. -/
theorem Allowed.rehashes (hA : ∀ w e, A w e → RereadsSame req w e) (ha : Allowed A w i (req i) ch)
    (hrel : ch.Rel w.db db') : Rehashes w i db' := by
  by_cases hreq : (req i).isVerifyEmail
  · intro k v hv
    obtain ⟨v', hv', hs⟩ := ha.security hA hreq hrel hv
    exact ⟨v', hv', Or.inl hs.passwordHash⟩
  · refine ha.hash (fun raw ctx h => hreq ?_) hrel
    rw [h]
    trivial

/-! ## What a verification loses -/

/-- From the state `s` on, no verification undoes what another transaction committed to an account. -/
structure LosesNothing (A : World (store env) ι → Event (store env) ι → Prop) (req : ι → Request)
    (s : Sys (store env) ι) : Prop where
  /-- The commit of a verification keeps the columns that decide who may use an account. -/
  kept : ∀ s' i, Step A s s' → s'.world.tr = s.world.tr ++ [commitOf i] → (req i).isVerifyEmail →
    ∀ k v, s.world.db.users.row k = some v → ∃ v', s'.world.db.users.row k = some v' ∧ SameSecurity v v'
  /-- The epoch of an account never falls. -/
  epoch : ∀ s', Reach A s s' → ∀ k v, s.world.db.users.row k = some v →
    ∃ v', s'.world.db.users.row k = some v' ∧ v.authEpoch ≤ v'.authEpoch
  /-- A password hash that was replaced does not come back. -/
  hash : ∀ s₁ s₂, Reach A s s₁ → Reach A s₁ s₂ → ∀ k v v₁ v₂, s.world.db.users.row k = some v →
    s₁.world.db.users.row k = some v₁ → s₂.world.db.users.row k = some v₂ → v₁.passwordHash ≠ v.passwordHash →
      v₂.passwordHash ≠ v.passwordHash
  /-- An account that is not active becomes active only by an activation of it. -/
  active : ∀ s', Step A s s' → ∀ k v v', s.world.db.users.row k = some v → s'.world.db.users.row k = some v' →
    v.isActive = false → v'.isActive = true → ∃ i claims csrf ctx, s'.world.tr = s.world.tr ++ [commitOf i] ∧
      req i = .updateUser claims csrf k true ctx

theorem hash_gone (hA : ∀ w e, A w e → Salted db w e ∧ RereadsSame req w e) {s₁ s₂ : Sys (store env) ι}
    (hr : Reach A (system env db mem req) s) (h₁ : Reach A s s₁) (h₂ : Reach A s₁ s₂) {v₁ v₂ : User}
    (hv : s.world.db.users.row k = some v) (hv₁ : s₁.world.db.users.row k = some v₁)
    (hv₂ : s₂.world.db.users.row k = some v₂) (hne : v₁.passwordHash ≠ v.passwordHash) :
    v₂.passwordHash ≠ v.passwordHash := by
  have hh : ∀ {s : Sys (store env) ι}, Reach A (system env db mem req) s → Hashes db req s.world :=
    hashes (fun w e h => (hA w e h).1) fun ha hrel => ha.rehashes (fun w e h => (hA w e h).2) hrel
  -- the replaced hash was stored for the account, so no row that differs from it takes it on
  suffices h : ∃ v', s₂.world.db.users.row k = some v' ∧ v'.passwordHash ≠ v.passwordHash by
    obtain ⟨v', hv', h⟩ := h
    rw [hv₂] at hv'
    cases hv'
    exact h
  refine invariant_from (J := fun db => ∃ v', db.users.row k = some v' ∧ v'.passwordHash ≠ v.passwordHash)
    (hr.trans h₁) (fun {s₃ i db' ch} h₃ hJ hn ha hrel => ?_) ⟨v₁, hv₁, hne⟩ h₂
  obtain ⟨v₃, hv₃, hne₃⟩ := hJ
  have hst : StoredFor db s₃.world k v.passwordHash :=
    ((hh hr).row hv).mono fun e he => h₃.mem_tr (h₁.mem_tr he)
  exact (hh ((hr.trans h₁).trans h₃)).differs hn (ha.rehashes (fun w e h => (hA w e h).2) hrel) hst hv₃ hne₃

/-- **A verification loses nobody's update**, in every interleaving in which its two reads of the account agree. -/
theorem verification_loses_nothing (hp : ∀ i, (req i).ofAccounts)
    (hr : Reach (fun w e => Salted db w e ∧ RereadsSame req w e) (system env db mem req) s) :
    LosesNothing (fun w e => Salted db w e ∧ RereadsSame req w e) req s := by
  refine ⟨fun s' i hstep htr hreq k v hv => ?_, fun s' hs k v hv => ?_,
    fun s₁ s₂ h₁ h₂ k v v₁ v₂ hv hv₁ hv₂ hne => hash_gone (fun _ _ h => h) hr h₁ h₂ hv hv₁ hv₂ hne,
    fun s' hstep k v v' hv hv' hf ht => ?_⟩
  · obtain ⟨-, ch, ha, hrel⟩ := commit_step hr hstep htr
    exact ha.security (fun _ _ h => h.2) hreq hrel hv
  · refine invariant_from (J := fun db => ∃ v', db.users.row k = some v' ∧ v.authEpoch ≤ v'.authEpoch) hr
      (fun {s₁ i db' ch} h₁ hJ hn ha hrel => ?_) ⟨v, hv, Nat.le_refl _⟩ hs
    obtain ⟨v₁, hv₁, hle⟩ := hJ
    obtain ⟨v', hv', hle', -⟩ := ha.keepsUpdates (fun _ _ h => h.2) (hp i) hrel hv₁
    exact ⟨v', hv', Nat.le_trans hle hle'⟩
  · rcases step_cases hr hstep with ⟨i, hq⟩ | ⟨i, f, ch, hn, ha, hrel, hw⟩
    · rw [hq.db, hv] at hv'
      cases hv'
      rw [hf] at ht
      cases ht
    · obtain ⟨v₁, hv₁, -, h⟩ := ha.keepsUpdates (fun _ _ h => h.2) (hp i) hrel hv
      rw [hw] at hv' ⊢
      rw [show (f s.world.db).users.row k = some v' from hv'] at hv₁
      cases hv₁
      obtain ⟨claims, csrf, ctx, hreq⟩ := h hf ht
      exact ⟨i, claims, csrf, ctx, rfl, hreq⟩

/-! ### Runs -/

instance (v v' : User) : Decidable (SameSecurity v v') :=
  decidable_of_iff (v'.passwordHash = v.passwordHash ∧ v'.authEpoch = v.authEpoch ∧ v'.isActive = v.isActive ∧
    v'.anonymizedAt = v.anonymizedAt ∧ v'.deletedAt = v.deletedAt)
    ⟨fun ⟨h1, h2, h3, h4, h5⟩ => ⟨h1, h2, h3, h4, h5⟩, fun ⟨h1, h2, h3, h4, h5⟩ => ⟨h1, h2, h3, h4, h5⟩⟩

def rereadsSameCheck (w : World (store env) ι) (e : Event (store env) ι) : Bool :=
  match e.act with
  | .stmt (.selectUser u) _ => w.tr.all fun e' =>
      match e'.act with
      | .stmt (.selectUser u') (some v₀) => !(decide (e'.who = e.who) && decide (u' = u)) ||
          (w.db.users.row u).all fun v => decide (SameSecurity v₀ v)
      | _ => true
  | _ => true

theorem rereadsSameCheck_sound {e : Event (store env) ι} (h : rereadsSameCheck w e = true) : RereadsSame req w e := by
  rintro i u r v₀ v - rfl hd hv
  have h' := List.all_eq_true.mp h _ hd
  simpa [hv] using h'

/-- An account whose address is not verified, with a verification and a password reset under way. -/
def verifyDb : Db := { sampleDb with verificationTokens := Table.empty.insert ⟨3, 1, "link", 1000, none, 0⟩ }

def verifyAndReset : Fin 2 → Request
  | 0 => .verifyEmail "link" {}
  | 1 => .confirmPasswordReset "token" "new" {}

/-- The epoch of the account `u`. -/
def epochIs (u : Uuid) (n : ℕ) (s : Sys (store env) ι) : Bool := (s.world.db.users.row u).any fun v => v.authEpoch = n

/-- After a verification, a reset, and nothing is lost. -/
theorem verification_then_reset : ∃ s, Reach (fun w e => Salted verifyDb w e ∧ RereadsSame verifyAndReset w e)
    (system sampleEnv verifyDb sampleMem verifyAndReset) s ∧ s.world.sees 0 Act.isCommit = true ∧
      LosesNothing (fun w e => Salted verifyDb w e ∧ RereadsSame verifyAndReset w e) verifyAndReset s := by
  obtain ⟨s, hr, hs⟩ := play_any (player sampleEnv) (fun w e => saltedCheck verifyDb w e && rereadsSameCheck w e)
    (A := fun w e => Salted verifyDb w e ∧ RereadsSame verifyAndReset w e)
    (fun h => ⟨saltedCheck_sound (Bool.and_eq_true_iff.mp h).1, rereadsSameCheck_sound (Bool.and_eq_true_iff.mp h).2⟩)
    (system sampleEnv verifyDb sampleMem verifyAndReset)
    (List.replicate 9 (.go 0 { n := 5 }) ++ List.replicate 12 (.go 1 { n := 6, s := "new" }))
    (fun s => s.world.sees 0 Act.isCommit && s.world.sees 1 Act.isCommit) (by decide +kernel)
  refine ⟨s, hr, (Bool.and_eq_true_iff.mp hs).1, verification_loses_nothing (fun i => ?_) hr⟩
  match i with
  | 0 => trivial
  | 1 => trivial

/-- The verification has read the account, the reset commits, and the verification writes back what it read: the
epoch falls. -/
theorem verification_undoes_reset : ∃ s, Reach (Salted verifyDb)
    (system sampleEnv verifyDb sampleMem verifyAndReset) s ∧ ¬LosesNothing (Salted verifyDb) verifyAndReset s := by
  obtain ⟨s, hr, hs⟩ := play_any (player sampleEnv) (saltedCheck verifyDb) saltedCheck_sound
    (system sampleEnv verifyDb sampleMem verifyAndReset)
    (List.replicate 3 (.go 0 { n := 5 }) ++ List.replicate 12 (.go 1 { n := 6, s := "new" }))
    (fun s => epochIs 1 1 s && (play (player sampleEnv) (saltedCheck verifyDb) s
      (List.replicate 6 (.go 0 {}))).any (epochIs 1 0)) (by decide +kernel)
  obtain ⟨h1, h0⟩ := Bool.and_eq_true_iff.mp hs
  obtain ⟨s', hs', h0⟩ := play_any _ _ saltedCheck_sound _ _ _ h0
  refine ⟨s, hr, fun h => ?_⟩
  obtain ⟨v, hv, he⟩ := (Option.any_eq_true _ _).mp h1
  obtain ⟨v', hv', he'⟩ := (Option.any_eq_true _ _).mp h0
  obtain ⟨v'', hv'', hle⟩ := h.epoch s' hs' 1 v hv
  rw [hv'] at hv''
  cases hv''
  simp at he he'
  omega

/-! ## What a verification redeems -/

/-- An account that is verified stays so, at the same time. -/
def StaysVerified (v v' : User) : Prop := ∀ at_, v.emailVerifiedAt = some at_ → v'.emailVerifiedAt = some at_

/-- A verification finds the account unverified, verifies it and writes one audit row; nothing else does. -/
theorem Allowed.verifies (hA : ∀ w e, A w e → StillUnverified req w e) (ha : Allowed A w i (req i) ch)
    (hp : (req i).ofAccounts) (ht : Told req w) (hrel : ch.Rel w.db db') (hv : w.db.users.row u = some v) :
    ∃ v', db'.users.row u = some v' ∧ StaysVerified v v' ∧
      (Verifies req w i u ∧ v.isVerified = false ∧ v'.isVerified = true ∧
          (ch.audits.filter (AuditLog.isVerification u)).length = 1 ∨
        ¬Verifies req w i u ∧ ch.audits.filter (AuditLog.isVerification u) = []) := by
  have hverify : (req i).isVerifyEmail ∨ ¬(req i).isVerifyEmail := em _
  generalize hr : req i = r at ha hp hverify
  have other : ¬r.isVerifyEmail → ¬Verifies req w i u := fun h hv => h (by rw [← hr]; exact hv.1)
  have still : ∀ {v'}, db'.users.row u = some v' → v'.emailVerifiedAt = v.emailVerifiedAt → ¬r.isVerifyEmail →
      ch.audits.filter (AuditLog.isVerification u) = [] → ∃ v', db'.users.row u = some v' ∧ StaysVerified v v' ∧
      (Verifies req w i u ∧ v.isVerified = false ∧ v'.isVerified = true ∧
          (ch.audits.filter (AuditLog.isVerification u)).length = 1 ∨
        ¬Verifies req w i u ∧ ch.audits.filter (AuditLog.isVerification u) = []) := fun h' he hn hnone =>
    ⟨_, h', fun at_ h => by rw [he, h], Or.inr ⟨other hn, hnone⟩⟩
  cases ha with
  | @verifiedEmail raw ctx g t u₀ u₁ v₁ now w₀ w₁ redeemed id met row₀ =>
    have hi : (req i).isVerifyEmail := by rw [hr]; trivial
    have unread : u₁.isVerified = false := hA _ _ redeemed.met i _ _ hi redeemed.row
      (Or.inl ⟨_, u₀, rfl, by rw [redeemed.id]; exact redeemed.read⟩)
    have unwritten : v₁.isVerified = false := hA _ _ met i _ _ hi row₀ (Or.inr ⟨_, _, rfl⟩)
    rcases Table.Change.Rel.of_set hrel.users hv with ⟨rfl, rfl, h'⟩ | ⟨hne, h'⟩
    · have hnone : u₁.emailVerifiedAt = none := by simpa [User.isVerified] using unread
      refine ⟨_, h', fun at_ h => ?_, Or.inl ⟨⟨hi, _, t, redeemed.token, redeemed.owner.trans id.symm⟩, unwritten,
        ?_, ?_⟩⟩
      · simp [User.isVerified, h] at unwritten
      · simp [User.isVerified, UserRepository.cols, UserCols.apply, changed, hnone]
      · simp [AuditContext.log, AuditLog.isVerification, id]
    · refine ⟨v, h', fun _ h => h, Or.inr ⟨?_, ?_⟩⟩
      · rintro ⟨-, hash, t', hd, rfl⟩
        obtain ⟨-, he⟩ := ht.readVerification hd redeemed.token
        cases he
        exact hne (redeemed.owner.trans id.symm)
      · simpa [AuditContext.log, AuditLog.isVerification, ← id] using Ne.symm hne
  | @emailUnchanged raw ctx g t u₀ u₁ now w₁ redeemed verified =>
    have hi : (req i).isVerifyEmail := by rw [hr]; trivial
    have unread : u₁.isVerified = false := hA _ _ redeemed.met i _ _ hi redeemed.row
      (Or.inl ⟨_, u₀, rfl, by rw [redeemed.id]; exact redeemed.read⟩)
    simp [User.isVerified, verified] at unread
  | @reset raw password ctx x t now h n lockT unused lock owner can hashed =>
    rcases Table.Change.Rel.of_set hrel.users hv with ⟨rfl, rfl, h'⟩ | ⟨-, h'⟩
    · exact still h' rfl id (by simp [AuditContext.log, AuditLog.isVerification])
    · exact still h' rfl id (by simp [AuditContext.log, AuditLog.isVerification])
  | userUnchanged did same => exact still ((hrel.users u).trans hv) rfl id rfl
  | userActivated lock hid inactive =>
    rcases Table.Change.Rel.of_set hrel.users hv with ⟨rfl, rfl, h'⟩ | ⟨-, h'⟩
    · exact still h' rfl id (by simp [AuditContext.log, AuditLog.isVerification])
    · exact still h' rfl id (by simp [AuditContext.log, AuditLog.isVerification])
  | userDeactivated lock hid active scanned count =>
    rcases Table.Change.Rel.of_set hrel.users hv with ⟨rfl, rfl, h'⟩ | ⟨-, h'⟩
    · exact still h' rfl id (by simp [AuditContext.log, AuditLog.isVerification])
    · exact still h' rfl id (by simp [AuditContext.log, AuditLog.isVerification])
  | _ => exact hp.elim

section History

omit [DecidableEq ι]

theorem verifies_quiet {w' : World (store env) ι} {c : ι} (hq : Quiet i w w') (hc : Committed w c) :
    Verifies req w' c u ↔ Verifies req w c u := by
  unfold Verifies
  simp only [hq.did hc]

theorem verifies_commit {f : Db → Db} {c : ι} : Verifies req (w.commit i f) c u ↔ Verifies req w c u := by
  unfold Verifies
  simp only [did_commit]

/-- The verifications of the account `u` that have committed, with the audit log grown by `rows`. -/
structure Verifications (db : Db) (req : ι → Request) (w : World (store env) ι) (u : Uuid) (rows : List AuditLog) :
    Prop where
  log : w.db.auditLogs = db.auditLogs ++ rows
  count : (rows.filter (AuditLog.isVerification u)).length = {c | Committed w c ∧ Verifies req w c u}.ncard
  row : ∃ v, w.db.users.row u = some v
  verified : ∀ c v, Committed w c → Verifies req w c u → w.db.users.row u = some v → v.isVerified = true
  once : ∀ c c', Committed w c → Verifies req w c u → Committed w c' → Verifies req w c' u → c = c'

theorem Verifications.quiet {w' : World (store env) ι} {rows : List AuditLog} (h : Verifications db req w u rows)
    (hq : Quiet i w w') : Verifications db req w' u rows := by
  have old : ∀ {c}, Committed w' c → Verifies req w' c u → Committed w c ∧ Verifies req w c u := fun hc hv =>
    ⟨hq.committed.mp hc, (verifies_quiet hq (hq.committed.mp hc)).mp hv⟩
  refine ⟨by rw [hq.db]; exact h.log, ?_, by rw [hq.db]; exact h.row, fun c v hc hv hrow => ?_,
    fun c c' hc hv hc' hv' => ?_⟩
  · rw [hq.setOf fun c hc => verifies_quiet hq hc]
    exact h.count
  · obtain ⟨hc, hv⟩ := old hc hv
    rw [hq.db] at hrow
    exact h.verified c v hc hv hrow
  · obtain ⟨hc, hv⟩ := old hc hv
    obtain ⟨hc', hv'⟩ := old hc' hv'
    exact h.once c c' hc hv hc' hv'

end History

theorem StaysVerified.isVerified {v v' : User} (h : StaysVerified v v') (hv : v.isVerified = true) :
    v'.isVerified = true := by
  obtain ⟨at_, hat⟩ := Option.isSome_iff_exists.mp hv
  simp [User.isVerified, h at_ hat]

theorem Verifications.commit (hA : ∀ w e, A w e → StillUnverified req w e) {rows : List AuditLog}
    (h : Verifications db req w u rows) (hu : ¬Committed w i) (hp : (req i).ofAccounts) (ht : Told req w)
    (ha : Allowed A w i (req i) ch) {f : Db → Db} (hrel : ch.Rel w.db (f w.db)) :
    ∃ rows', Verifications db req (w.commit i f) u rows' := by
  classical
  obtain ⟨v, hv⟩ := h.row
  obtain ⟨v', hv', hstay, hcase⟩ := ha.verifies hA hp ht hrel hv
  have hrow : ∀ {x}, (w.commit i f).db.users.row u = some x → x = v' := fun hx => by
    rw [show (w.commit i f).db.users.row u = some v' from hv'] at hx
    exact (Option.some.inj hx).symm
  -- a verification that had committed before leaves this one no unverified account
  have fresh : Verifies req w i u → v.isVerified = false → ∀ c, Committed w c → ¬Verifies req w c u :=
    fun _ hf c hc hver => by rw [h.verified c v hc hver hv] at hf; cases hf
  refine ⟨rows ++ ch.audits, by rw [World.commit_db, hrel.audits, h.log, List.append_assoc], ?_, ⟨v', hv'⟩,
    fun c x hc hver hx => ?_, fun c c' hc hver hc' hver' => ?_⟩
  · rw [ncard_commit hu (P := fun c => Verifies req w c u) fun c => verifies_commit, List.filter_append,
      List.length_append, h.count]
    rcases hcase with ⟨hver, -, -, hone⟩ | ⟨hver, hnone⟩
    · rw [if_pos hver, hone]
    · rw [if_neg hver, hnone]
      rfl
  · obtain rfl := hrow hx
    rcases committed_commit.mp hc with hc | rfl
    · exact hstay.isVerified (h.verified c v hc (verifies_commit.mp hver) hv)
    · rcases hcase with ⟨-, -, hver', -⟩ | ⟨hn, -⟩
      · exact hver'
      · exact absurd (verifies_commit.mp hver) hn
  · replace hver := verifies_commit.mp hver
    replace hver' := verifies_commit.mp hver'
    have one : Verifies req w i u → ∀ c, Committed w c → ¬Verifies req w c u := fun hi => by
      rcases hcase with ⟨-, hf, -, -⟩ | ⟨hn, -⟩
      · exact fresh hi hf
      · exact absurd hi hn
    rcases committed_commit.mp hc with h₀ | rfl <;> rcases committed_commit.mp hc' with h₀' | rfl
    · exact h.once c c' h₀ hver h₀' hver'
    · exact absurd hver (one hver' c h₀)
    · exact absurd hver' (one hver c' h₀')
    · rfl

theorem verifications (hA : ∀ w e, A w e → StillUnverified req w e) (hp : ∀ i, (req i).ofAccounts)
    (hr : Reach A (system env db mem req) s) (hu : db.users.row u = some v) :
    ∃ rows, Verifications db req s.world u rows := by
  refine invariant_commit (J := fun w => ∃ rows, Verifications db req w u rows)
    (fun hq ⟨rows, h⟩ => ⟨rows, h.quiet hq⟩)
    (fun hs ⟨rows, h⟩ _ hn ha hrel _ => h.commit hA (fun hc => hn ⟨_, hc, rfl, trivial⟩) (hp _) (told hs) ha hrel)
    ⟨[], by simp, ?_, ⟨v, hu⟩, fun c v hc => (List.not_mem_nil hc).elim, fun c c' hc => (List.not_mem_nil hc).elim⟩ hr
  have none : {c | Committed (⟨db, mem, []⟩ : World (store env) ι) c ∧
      Verifies req (⟨db, mem, []⟩ : World (store env) ι) c u} = ∅ := by
    ext c
    exact ⟨fun h => (List.not_mem_nil h.1).elim, fun h => h.elim⟩
  rw [none]
  simp

/-- The verification of the account `u` is redeemed at most once, and for good. -/
structure RedeemedOnce (A : World (store env) ι → Event (store env) ι → Prop) (db : Db) (req : ι → Request)
    (s : Sys (store env) ι) (u : Uuid) : Prop where
  /-- At most one execution commits … -/
  once : ∀ i j, Committed s.world i → Verifies req s.world i u → Committed s.world j → Verifies req s.world j u → i = j
  /-- … and writes the one audit row of a verification. -/
  audited : ∃ rows, s.world.db.auditLogs = db.auditLogs ++ rows ∧
    (rows.filter (AuditLog.isVerification u)).length = {i | Committed s.world i ∧ Verifies req s.world i u}.ncard
  /-- The time of the verification never changes. -/
  fixed : ∀ s', Reach A s s' → ∀ v at_, s.world.db.users.row u = some v → v.emailVerifiedAt = some at_ →
    ∃ v', s'.world.db.users.row u = some v' ∧ v'.emailVerifiedAt = some at_

/-- **A verification is redeemed at most once**, in every interleaving in which each verification still finds the
account unverified when it writes it. -/
theorem verification_redeemed_once (hp : ∀ i, (req i).ofAccounts) (hu : ∃ v, db.users.row u = some v)
    (hr : Reach (StillUnverified req) (system env db mem req) s) :
    RedeemedOnce (StillUnverified req) db req s u := by
  obtain ⟨v₀, hv₀⟩ := hu
  obtain ⟨rows, h⟩ := verifications (fun _ _ h => h) hp hr hv₀
  refine ⟨fun i j hi hvi hj hvj => h.once i j hi hvi hj hvj, ⟨rows, h.log, h.count⟩, fun s' hs v at_ hv hat => ?_⟩
  refine invariant_from (J := fun db => ∃ v', db.users.row u = some v' ∧ v'.emailVerifiedAt = some at_) hr
    (fun {s₁ i db' ch} h₁ hJ hn ha hrel => ?_) ⟨v, hv, hat⟩ hs
  obtain ⟨v₁, hv₁, hat₁⟩ := hJ
  obtain ⟨v', hv', hstay, -⟩ := ha.verifies (fun _ _ h => h) (hp i) (told (hr.trans h₁)) hrel hv₁
  exact ⟨v', hv', hstay at_ hat₁⟩

def stillUnverifiedCheck (w : World (store env) ι) (e : Event (store env) ι) : Bool :=
  let unverified u := (w.db.users.row u).all fun v => !v.isVerified
  match e.act with
  | .stmt (.selectUser u) _ => unverified u || !w.sees e.who fun
      | .stmt (.selectUser u') _ => u' = u
      | _ => false
  | .stmt (.updateUser u _) _ => unverified u
  | _ => true

theorem stillUnverifiedCheck_sound {e : Event (store env) ι} (h : stillUnverifiedCheck w e = true) :
    StillUnverified req w e := by
  rintro i u v - hv (⟨r, v₀, rfl, hd⟩ | ⟨cols, r, rfl⟩)
  · rcases Bool.or_eq_true_iff.mp h with h | h
    · simpa [hv] using h
    · simp only [World.sees, Bool.not_eq_true', List.any_eq_false] at h
      simpa using h _ hd
  · simpa [stillUnverifiedCheck, hv] using h

def verifyTwice : Fin 2 → Request := fun _ => .verifyEmail "link" {}

/-- Of two verifications with one token, one after the other, the second is refused. -/
theorem verification_then_again : ∃ s, Reach (StillUnverified verifyTwice)
    (system sampleEnv verifyDb sampleMem verifyTwice) s ∧ s.world.sees 0 Act.isCommit = true ∧
      RedeemedOnce (StillUnverified verifyTwice) verifyDb verifyTwice s 1 := by
  obtain ⟨s, hr, hs⟩ := play_any (player sampleEnv) stillUnverifiedCheck (A := StillUnverified verifyTwice)
    stillUnverifiedCheck_sound (system sampleEnv verifyDb sampleMem verifyTwice)
    (List.replicate 9 (.go 0 { n := 5 }) ++ List.replicate 4 (.go 1 { n := 6 }))
    (fun s => s.world.sees 0 Act.isCommit) (by decide +kernel)
  exact ⟨s, hr, hs, verification_redeemed_once (fun _ => trivial) ⟨sampleUser, by decide⟩ hr⟩

/-- A verification token of the account is read. -/
def readsTokenCheck (u : Uuid) : Act (store env) → Bool
  | .stmt (.selectVerificationTokenByHash _) (some t) => t.userId = u
  | _ => false

/-- Two verifications with one token both read the account before either commits, and both commit. -/
theorem verification_redeemed_twice : ∃ s, Reach Any (system sampleEnv verifyDb sampleMem verifyTwice) s ∧
    ¬RedeemedOnce Any verifyDb verifyTwice s 1 := by
  obtain ⟨s, hr, hs⟩ := play_any (player sampleEnv) (fun _ _ => true) (A := Any) (fun _ => trivial)
    (system sampleEnv verifyDb sampleMem verifyTwice)
    (List.replicate 3 (.go 0 { n := 5 }) ++ List.replicate 3 (.go 1 { n := 6 }) ++ List.replicate 6 (.go 0 {}) ++
      List.replicate 6 (.go 1 {}))
    (fun s => [0, 1].all fun i => s.world.sees i Act.isCommit && s.world.sees i (readsTokenCheck 1)) (by decide +kernel)
  have verifies : ∀ i ∈ ([0, 1] : List (Fin 2)), Committed s.world i ∧ Verifies verifyTwice s.world i 1 := by
    intro i hi
    obtain ⟨hc, ht⟩ := Bool.and_eq_true_iff.mp (List.all_eq_true.mp hs i hi)
    obtain ⟨a, ha, hc⟩ := World.of_sees hc
    rw [Act.eq_commit hc] at ha
    obtain ⟨a', ha', ht⟩ := World.of_sees ht
    unfold readsTokenCheck at ht
    split at ht
    · exact ⟨ha, trivial, _, _, ha', by simpa using ht⟩
    · cases ht
  obtain ⟨h0, h0'⟩ := verifies 0 (by decide)
  obtain ⟨h1, h1'⟩ := verifies 1 (by decide)
  exact ⟨s, hr, fun h => absurd (h.once 0 1 h0 h0' h1 h1') (by decide)⟩

end Bekaa3D.Identity
