import Bekaa3D.Identity.Play

/-!
# Identity.Revocation — what a password reset or a deactivation cuts off

Logins, refreshes, logouts, resets and activations of any number of accounts, in any interleaving.  A reset of
an account, or a deactivation that found it active, raises its authentication epoch and revokes its sessions
under the lock of the account; everything else that is issued for the account is issued under that lock and
carries the epoch it was issued in.

* `Epochs`: the invariant.  The epoch of an account never falls, rises at every cut, and is still the one a
  session was opened in as long as the session is not revoked.
* `CutOff`: what holds after a cut has committed.
-/

namespace Bekaa3D.Identity

open Txn

variable {env : Env} {ι : Type}

/-- The requests that open, use and end sessions. -/
def Request.ofSessions : Request → Prop
  | .login _ _ _ _ _ | .completeMfaLogin _ _ _ _ | .refresh _ _ _ | .logout _ _ _ => True
  | .confirmPasswordReset _ _ _ | .updateUser _ _ _ _ _ => True
  | _ => False

/-- Transaction `i` locks the account that it sees as `v`. -/
def lockOf (i : ι) (v : User) : Event (store env) ι := ⟨i, .stmt (.selectUserForUpdate v.id) (some v)⟩

/-- Transaction `i` finds the account `v` by its e-mail address. -/
def readOf (i : ι) (email : String) (v : User) : Event (store env) ι := ⟨i, .stmt (.selectUserByEmail email) (some v)⟩

/-- Transaction `i` issues a login challenge to the account `userId` in its epoch `epoch`. -/
def stampOf (i : ι) (challengeId : String) (userId : Uuid) (epoch ttl : ℕ) : Event (store env) ι :=
  ⟨i, .stmt (.redisSet (.mfaChallenge challengeId) (.challenge userId epoch) ttl) ()⟩

def commitOf (i : ι) : Event (store env) ι := ⟨i, .commit⟩

/-- Transaction `c` resets the password of `u`, or finds `u` active and deactivates it. -/
def Cuts (req : ι → Request) (w : World (store env) ι) (c : ι) (u : Uuid) : Prop :=
  ∃ v : User, v.id = u ∧ Did w c (.selectUserForUpdate v.id) (some v) ∧
    match req c with
    | .confirmPasswordReset _ _ _ => True
    | .updateUser _ _ _ isActive _ => isActive = false ∧ v.isActive = true
    | _ => False

/-- Transaction `i` opens no session and mints no access token. -/
structure OpensNothing (w : World (store env) ι) (i : ι) : Prop where
  session : ∀ x, ¬Did w i (.insertSession x) true
  token : ∀ claims now token, ¬Did w i (.issueAccessToken claims now) token

/-- `current_claims` refuses the claims. -/
def Refuses (env : Env) (db : Db) (claims : AccessTokenClaims) : Prop :=
  ∃ k, currentClaims claims = .call (.selectAuthEpoch claims.userId) k ∧
    ∀ mem free r, resp env (.selectAuthEpoch claims.userId) db mem free r → k r = .raise unauthenticatedError

theorem refuses_of_lt {db : Db} {claims : AccessTokenClaims} {v : User} (hv : db.users.row claims.userId = some v)
    (hlt : claims.authEpoch < v.authEpoch) : Refuses env db claims := by
  refine ⟨_, rfl, fun mem free r hr => ?_⟩
  have hr : r = (db.users.row claims.userId).map User.authEpoch := hr
  rw [hr, hv]
  exact if_pos (Nat.ne_of_lt hlt)

variable [DecidableEq ι] {A : World (store env) ι → Event (store env) ι → Prop}
  {req : ι → Request} {db : Db} {mem : Mem} {i j c : ι} {u : Uuid} {v : User} {w : World (store env) ι}
  {r : Request} {ch : Change}

/-! ## What one commit does -/

/-- A commit keeps the epoch of an account, or raises it and revokes every session of the account. -/
theorem Allowed.epoch (ha : Allowed A w i r ch) (hp : r.ofSessions) {db db' : Db} (hrel : ch.Rel db db')
    {k : Uuid} (hv : db.users.row k = some v) :
    ∃ v', db'.users.row k = some v' ∧ (v'.authEpoch = v.authEpoch ∨ v.authEpoch < v'.authEpoch ∧
      ∀ s y, db'.sessions.row s = some y → y.userId = k → y.isRevoked = true) := by
  have keep : ch.users = .keep → ∃ v', db'.users.row k = some v' ∧ (v'.authEpoch = v.authEpoch ∨
      v.authEpoch < v'.authEpoch ∧ ∀ s y, db'.sessions.row s = some y → y.userId = k → y.isRevoked = true) :=
    fun h => by
      have h' := hrel.users
      rw [h] at h'
      exact ⟨v, (h' k).trans hv, Or.inl rfl⟩
  have revoked : ∀ {u : Uuid} {now : Instant}, ch.sessions = .map (revokeLive u now) →
      ∀ s y, db'.sessions.row s = some y → y.userId = u → y.isRevoked = true := by
    intro u now h s y hy hu
    have h' := hrel.sessions
    rw [h] at h'
    rw [h' s] at hy
    obtain ⟨x, -, rfl⟩ := Option.map_eq_some_iff.mp hy
    unfold revokeLive at hu ⊢
    split
    · rfl
    · rename_i hl
      rw [if_neg hl] at hu
      simpa [Session.liveOf, hu] using hl
  cases ha with
  | @reset raw password ctx u t now h n lockT unused lock owner can hashed =>
    rcases Table.Change.Rel.of_set hrel.users hv with ⟨rfl, rfl, h'⟩ | ⟨-, h'⟩
    · exact ⟨_, h', Or.inr ⟨Nat.lt_succ_self _, revoked rfl⟩⟩
    · exact ⟨v, h', Or.inl rfl⟩
  | @userActivated claims csrf userId ctx u lock id inactive =>
    rcases Table.Change.Rel.of_set hrel.users hv with ⟨rfl, rfl, h'⟩ | ⟨-, h'⟩
    · exact ⟨_, h', Or.inl rfl⟩
    · exact ⟨v, h', Or.inl rfl⟩
  | @userDeactivated claims csrf userId ctx u now ids n lock id active =>
    rcases Table.Change.Rel.of_set hrel.users hv with ⟨rfl, rfl, h'⟩ | ⟨-, h'⟩
    · exact ⟨_, h', Or.inr ⟨Nat.lt_succ_self _, revoked rfl⟩⟩
    · exact ⟨v, h', Or.inl rfl⟩
  | verifiedEmail _ _ _ _ => cases hp
  | _ => exact keep rfl

/-- The commit of a cut raises the epoch of the account. -/
theorem Allowed.cut (ha : Allowed A w i (req i) ch) (ht : Told req w) (hc : Cuts req w i u) {db' : Db}
    (hrel : ch.Rel w.db db') :
    ∃ v v', w.db.users.row u = some v ∧ db'.users.row u = some v' ∧ v.authEpoch < v'.authEpoch := by
  obtain ⟨v, rfl, hd, hreq⟩ := hc
  generalize req i = r at ha hreq
  cases ha with
  | @reset raw password ctx u t now h n lockT unused lock owner can hashed =>
    obtain ⟨hid, hu⟩ := ht.lockUser hd lock.did
    cases hu
    exact ⟨v, _, lock.row, hrel.users.2.1, Nat.lt_succ_self _⟩
  | @userUnchanged claims csrf userId isActive ctx u did same =>
    obtain ⟨hid, hu⟩ := ht.lockUser hd did
    cases hu
    rw [hreq.1, hreq.2] at same
    cases same
  | @userDeactivated claims csrf userId ctx u now ids n lock id active =>
    obtain ⟨hid, hu⟩ := ht.lockUser hd lock.did
    cases hu
    exact ⟨v, _, lock.row, hrel.users.2.1, Nat.lt_succ_self _⟩
  | userActivated => exact absurd hreq.1 (by decide)
  | _ => exact hreq.elim

/-- The commit of a transaction that inserted a session adds its row, and changes no account. -/
theorem Allowed.opens (ha : Allowed A w i (req i) ch) (ht : Told req w) {x : Session}
    (hx : Did w i (.insertSession x) true) {db' : Db} (hrel : ch.Rel w.db db') :
    ∃ v, LockedUser w i v ∧ v.id = x.userId ∧ x.revokedAt = none ∧ db'.sessions.row x.id = some x ∧
      ∀ k, db'.users.row k = w.db.users.row k := by
  obtain ⟨v, hl, -, -, ho⟩ := ht.chk hx
  have opened : ∀ {u : User} {y : Session}, Opened w i u y → ch.sessions = .new y → ch.users = .keep →
      ∃ v, LockedUser w i v ∧ v.id = x.userId ∧ x.revokedAt = none ∧ db'.sessions.row x.id = some x ∧
        ∀ k, db'.users.row k = w.db.users.row k := by
    intro u y hop hs hu
    obtain ⟨rfl, -⟩ := ht.insertSession hop.did hx
    obtain ⟨now, ip, ua, hy⟩ := hop.new
    have h1 := hrel.sessions
    have h2 := hrel.users
    rw [hs] at h1
    rw [hu] at h2
    exact ⟨u, hop.lock, by rw [hy]; rfl, by rw [hy]; rfl, h1.2.1, h2⟩
  generalize req i = r at ha ho
  cases ha with
  | loginChallenge noneOf => exact absurd hx (noneOf _ _ rfl)
  | loggedIn hop => exact opened hop rfl rfl
  | completed hop => exact opened hop rfl rfl
  | replayed _ _ _ _ noneOf => exact absurd hl (noneOf _ _ rfl)
  | verifiedTotp _ _ _ _ _ _ hop => exact opened hop rfl rfl
  | verifiedRecovery _ _ _ _ _ _ hop => exact opened hop rfl rfl
  | _ => exact ho.elim

/-! ## The invariant -/

structure Epochs (req : ι → Request) (w : World (store env) ι) : Prop where
  /-- The epoch under which an account was locked has not fallen … -/
  lock : ∀ {i v}, Did w i (.selectUserForUpdate v.id) (some v) →
    ∃ v', w.db.users.row v.id = some v' ∧ v.authEpoch ≤ v'.authEpoch
  /-- … and has risen, once a cut has committed. -/
  cut : ∀ {i v c}, Before (lockOf i v) (commitOf c) w.tr → Cuts req w c v.id →
    ∃ v', w.db.users.row v.id = some v' ∧ v.authEpoch < v'.authEpoch
  again : ∀ {i v c j v'}, Before (lockOf i v) (commitOf c) w.tr → Cuts req w c v.id → v'.id = v.id →
    Before (commitOf c) (lockOf j v') w.tr → v.authEpoch < v'.authEpoch
  /-- A session that is not revoked was opened in the account's current epoch. -/
  session : ∀ {i x}, Committed w i → Did w i (.insertSession x) true →
    ∃ v y, Did w i (.selectUserForUpdate v.id) (some v) ∧ v.id = x.userId ∧ w.db.sessions.row x.id = some y ∧
      y.userId = x.userId ∧ (y.revokedAt = none → ∃ v', w.db.users.row v.id = some v' ∧ v'.authEpoch = v.authEpoch)
  /-- A login challenge is stamped under the lock of its account. -/
  stamp : ∀ {i challengeId u e ttl c}, Before (stampOf i challengeId u e ttl) (commitOf c) w.tr →
    ∃ v, v.id = u ∧ v.authEpoch = e ∧ Before (lockOf i v) (commitOf c) w.tr

omit [DecidableEq ι] in
theorem Cuts.of_stmt {o : Op} {r : Resp o} (h : Cuts req (w.stmt i o r) c u) (hi : c ≠ i) : Cuts req w c u := by
  obtain ⟨v, hid, hd, h⟩ := h
  exact ⟨v, hid, (did_stmt_ne hi).mp hd, h⟩

omit [DecidableEq ι] in
theorem Cuts.of_commit {f : Db → Db} (h : Cuts req (w.commit i f) c u) : Cuts req w c u := by
  obtain ⟨v, hid, hd, h⟩ := h
  exact ⟨v, hid, did_commit.mp hd, h⟩

omit [DecidableEq ι] in
theorem Cuts.of_push {a : Act (store env)} (ha : ∀ o r, a ≠ .stmt o r) (h : Cuts req (w.push i a) c u) :
    Cuts req w c u := by
  obtain ⟨v, hid, hd, h⟩ := h
  exact ⟨v, hid, (did_push ha).mp hd, h⟩

/-- A statement that a request may issue. -/
theorem Epochs.stmt (h : Epochs req w) {o : Op} {r : Resp o} {f : Db → Db} {free : RowLock → Prop}
    (hu : ¬Committed w i) (hc : Chk w i (req i) f o) (hr : resp env o (f w.db) w.mem free r) :
    Epochs req (w.stmt i o r) := by
  -- a new lock reads the row as it is
  have row : ∀ {v : User}, (⟨o, r⟩ : (o : Op) × Resp o) = ⟨.selectUserForUpdate v.id, some v⟩ →
      w.db.users.row v.id = some v := by
    intro v he
    cases he
    have hr : some v = (f w.db).users.row v.id := hr
    rw [← hc v.id, ← hr]
  have uncut : ∀ {e c}, Before e (commitOf c) (w.stmt i o r).tr → Before e (commitOf c) w.tr ∧ c ≠ i := by
    intro e c hb
    have hb' := before_commit_stmt.mp hb
    refine ⟨hb', ?_⟩
    rintro rfl
    exact hu hb'.right
  refine ⟨fun {j v} hd => ?_, fun {j v c} hb hcut => ?_, fun {j v c j' v'} hb hcut hid hb' => ?_,
    fun {j x} hj hx => ?_, fun {j challengeId u e ttl c} hb => ?_⟩
  · by_cases hj : j = i
    · subst hj
      rcases did_stmt.mp hd with hd | he
      · exact h.lock hd
      · exact ⟨v, row he, Nat.le_refl _⟩
    · exact h.lock ((did_stmt_ne hj).mp hd)
  · obtain ⟨hb, hci⟩ := uncut hb
    exact h.cut hb (hcut.of_stmt hci)
  · obtain ⟨hb, hci⟩ := uncut hb
    rcases before_append.mp hb' with hb' | ⟨he, -⟩
    · exact h.again hb (hcut.of_stmt hci) hid hb'
    · obtain ⟨v₀, hv₀, hlt⟩ := h.cut hb (hcut.of_stmt hci)
      have hrow : w.db.users.row v'.id = some v' := row (by cases he; rfl)
      rw [hid, hv₀] at hrow
      cases hrow
      exact hlt
  · have hji : j ≠ i := by
      rintro rfl
      exact hu (committed_stmt.mp hj)
    obtain ⟨v, y, hd, h⟩ := h.session (committed_stmt_iff.mp hj) ((did_stmt_ne hji).mp hx)
    exact ⟨v, y, World.mem_stmt hd, h⟩
  · obtain ⟨v, hid, he, hl⟩ := h.stamp (uncut hb).1
    exact ⟨v, hid, he, hl.mono⟩

theorem Epochs.commit (h : Epochs req w) (ht : Told req w) {f : Db → Db} (hu : ¬Committed w i)
    (hp : (req i).ofSessions) (ha : Allowed A w i (req i) ch) (hrel : ch.Rel w.db (f w.db)) (hg : Grows w.db (f w.db)) :
    Epochs req (w.commit i f) := by
  -- epochs do not fall
  have le : ∀ {k : Uuid} {v₀ : User} {n : ℕ}, w.db.users.row k = some v₀ → n ≤ v₀.authEpoch →
      ∃ v', (f w.db).users.row k = some v' ∧ n ≤ v'.authEpoch := by
    intro k v₀ n hv hn
    obtain ⟨v', hv', he⟩ := ha.epoch hp hrel hv
    refine ⟨v', hv', Nat.le_trans hn ?_⟩
    rcases he with he | ⟨he, -⟩
    · exact Nat.le_of_eq he.symm
    · exact Nat.le_of_lt he
  refine ⟨fun {j v} hd => ?_, fun {j v c} hb hcut => ?_, fun {j v c j' v'} hb hcut hid hb' => ?_,
    fun {j x} hj hx => ?_, fun {j challengeId u e ttl c} hb => ?_⟩
  · obtain ⟨v₀, hv₀, hle⟩ := h.lock (did_commit.mp hd)
    exact le hv₀ hle
  · rcases before_commit_commit.mp hb with hb | ⟨rfl, hl⟩
    · obtain ⟨v₀, hv₀, hlt⟩ := h.cut hb hcut.of_commit
      exact le hv₀ hlt
    · obtain ⟨v₀, hv₀, hle⟩ := h.lock hl
      obtain ⟨v₁, v', hv₁, hv', hlt⟩ := ha.cut ht hcut.of_commit hrel
      rw [hv₀] at hv₁
      cases hv₁
      exact ⟨v', hv', Nat.lt_of_le_of_lt hle hlt⟩
  · have hafter := before_stmt_commit.mp hb'
    rcases before_commit_commit.mp hb with hb | ⟨rfl, -⟩
    · exact h.again hb hcut.of_commit hid hafter
    · exact absurd hafter.left hu
  · have hin := did_commit.mp hx
    by_cases hji : j = i
    · subst hji
      obtain ⟨v, hl, hid, -, hrow, hk⟩ := ha.opens ht hin hrel
      exact ⟨v, x, did_commit.mpr hl.did, hid, hrow, rfl, fun _ => ⟨v, (hk _).trans hl.row, rfl⟩⟩
    · have hj := (committed_commit.mp hj).resolve_right hji
      obtain ⟨v, y, hd, hid, hy, hyu, hlive⟩ := h.session hj hin
      obtain ⟨y', hy', hyu', -, hrev⟩ := hg.sessions _ _ hy
      refine ⟨v, y', did_commit.mpr hd, hid, hy', hyu'.trans hyu, fun hnone => ?_⟩
      have hnone' : y.revokedAt = none := by
        cases hr : y.revokedAt with
        | none => rfl
        | some t => rw [hrev t hr] at hnone; cases hnone
      obtain ⟨v₀, hv₀, he⟩ := hlive hnone'
      obtain ⟨v', hv', he' | ⟨-, hall⟩⟩ := ha.epoch hp hrel hv₀
      · exact ⟨v', hv', he'.trans he⟩
      · have hrev' := hall _ _ hy' ((hyu'.trans hyu).trans hid.symm)
        simp [Session.isRevoked, hnone] at hrev'
  · rcases before_commit_commit.mp hb with hb | ⟨rfl, hd⟩
    · obtain ⟨v, hid, he, hl⟩ := h.stamp hb
      exact ⟨v, hid, he, hl.mono⟩
    · obtain ⟨v, hd, hid, he, -⟩ := ht.chk hd
      exact ⟨v, hid, he, before_commit_commit.mpr (Or.inr ⟨rfl, hd⟩)⟩

omit [DecidableEq ι] in
theorem Epochs.push (h : Epochs req w) {a : Act (store env)} (ha : ∀ o r, a ≠ .stmt o r) (hc : a ≠ .commit) :
    Epochs req (w.push i a) := by
  refine ⟨fun hd => h.lock ((did_push ha).mp hd),
    fun hb hcut => h.cut ((before_commit_push hc).mp hb) (hcut.of_push ha),
    fun hb hcut hid hb' => h.again ((before_commit_push hc).mp hb) (hcut.of_push ha) hid
      ((before_stmt_push ha).mp hb'), fun hj hx => ?_, fun hb => ?_⟩
  · obtain ⟨v, y, hd, h⟩ := h.session ((committed_push hc).mp hj) ((did_push ha).mp hx)
    exact ⟨v, y, (did_push ha).mpr hd, h⟩
  · obtain ⟨v, hid, he, hl⟩ := h.stamp ((before_commit_push hc).mp hb)
    exact ⟨v, hid, he, hl.mono⟩

theorem epochs (hp : ∀ i, (req i).ofSessions) {s : Sys (store env) ι} (hr : Reach A (system env db mem req) s) :
    Epochs req s.world := by
  refine invariant ?_ ?_ hr
  · exact {
      stmt := fun _ hJ _ _ hc hresp => hJ.stmt hc.1 hc.2.2 hresp
      commit := fun hs hJ _ _ hc hg => by
        obtain ⟨ch, ha, hrel⟩ := hc.2
        exact hJ.commit (told hs) hc.1 (hp _) ha hrel hg
      done := fun _ hJ _ _ => hJ.push (fun _ _ h => by cases h) fun h => by cases h
      crash := fun _ hJ _ => hJ.push (fun _ _ h => by cases h) fun h => by cases h }
  · exact ⟨fun hd => (List.not_mem_nil hd).elim, fun hb => (not_before_nil hb).elim,
      fun hb => (not_before_nil hb).elim, fun hd => (List.not_mem_nil hd).elim, fun hb => (not_before_nil hb).elim⟩

/-! ## Password hashes -/

/-- `h` is a password hash that an account had at the start, or that a committed reset produced. -/
def Stored (db : Db) (w : World (store env) ι) (h : String) : Prop :=
  (∃ k v, db.users.row k = some v ∧ v.passwordHash = h) ∨
    ∃ i password, Committed w i ∧ Did w i (.hashPassword password) h

/-- `hash_password` never returns a hash that was stored before. -/
def Salted (db : Db) (w : World (store env) ι) (e : Event (store env) ι) : Prop :=
  ∀ i password h, e = ⟨i, .stmt (.hashPassword password) h⟩ → ¬Stored db w h

/-- `h` is a password hash that the account `u` had. -/
def StoredFor (db : Db) (w : World (store env) ι) (u : Uuid) (h : String) : Prop :=
  (∃ v, db.users.row u = some v ∧ v.passwordHash = h) ∨
    ∃ (i : ι) (v : User) (password : String), Committed w i ∧ v.id = u ∧
      Did w i (.selectUserForUpdate v.id) (some v) ∧ Did w i (.hashPassword password) h

def Resets (req : ι → Request) (w : World (store env) ι) (c : ι) (u : Uuid) : Prop :=
  (∃ raw password ctx, req c = .confirmPasswordReset raw password ctx) ∧
    ∃ v : User, v.id = u ∧ Did w c (.selectUserForUpdate v.id) (some v)

omit [DecidableEq ι] in
theorem StoredFor.stored {h : String} (hs : StoredFor db w u h) : Stored db w h := by
  rcases hs with ⟨v, hv, rfl⟩ | ⟨i, v, password, hc, -, -, hd⟩
  · exact Or.inl ⟨u, v, hv, rfl⟩
  · exact Or.inr ⟨i, password, hc, hd⟩

omit [DecidableEq ι] in
theorem StoredFor.mono {w' : World (store env) ι} {h : String} (hs : StoredFor db w u h)
    (hw : ∀ e ∈ w.tr, e ∈ w'.tr) : StoredFor db w' u h := by
  rcases hs with hs | ⟨i, v, password, hc, hid, hl, hd⟩
  · exact Or.inl hs
  · exact Or.inr ⟨i, v, password, hw _ hc, hid, hl.mono hw, hd.mono hw⟩

omit [DecidableEq ι] in
theorem StoredFor.of_stmt {h : String} {o : Op} {r : Resp o} (hs : StoredFor db (w.stmt i o r) u h)
    (hu : ¬Committed w i) : StoredFor db w u h := by
  rcases hs with hs | ⟨j, v, password, hc, hid, hl, hd⟩
  · exact Or.inl hs
  · have hcom := committed_stmt_iff.mp hc
    have hji : j ≠ i := by
      rintro rfl
      exact hu hcom
    exact Or.inr ⟨j, v, password, hcom, hid, (did_stmt_ne hji).mp hl, (did_stmt_ne hji).mp hd⟩

/-- A commit keeps the password hash of every account, or sets the hash that it computed under the account's
lock. -/
def Rehashes (w : World (store env) ι) (i : ι) (db' : Db) : Prop :=
  ∀ k v, w.db.users.row k = some v → ∃ v', db'.users.row k = some v' ∧ (v'.passwordHash = v.passwordHash ∨
    v.id = k ∧ Did w i (.selectUserForUpdate v.id) (some v) ∧
      ∃ password, Did w i (.hashPassword password) v'.passwordHash)

theorem Allowed.hash (ha : Allowed A w i r ch) (hp : ∀ raw ctx, r ≠ .verifyEmail raw ctx) {db' : Db}
    (hrel : ch.Rel w.db db') : Rehashes w i db' := by
  intro k v hv
  have keep : ch.users = .keep → ∃ v', db'.users.row k = some v' ∧ v'.passwordHash = v.passwordHash := fun h => by
    have h' := hrel.users
    rw [h] at h'
    exact ⟨v, (h' k).trans hv, rfl⟩
  cases ha with
  | @reset raw password ctx u t now h n lockT unused lock owner can hashed =>
    rcases Table.Change.Rel.of_set hrel.users hv with ⟨rfl, rfl, h'⟩ | ⟨-, h'⟩
    · exact ⟨_, h', Or.inr ⟨rfl, lock.did, password, hashed⟩⟩
    · exact ⟨v, h', Or.inl rfl⟩
  | userActivated | userDeactivated =>
    rcases Table.Change.Rel.of_set hrel.users hv with ⟨rfl, rfl, h'⟩ | ⟨-, h'⟩
    · exact ⟨_, h', Or.inl rfl⟩
    · exact ⟨v, h', Or.inl rfl⟩
  | @verifiedEmail raw ctx _ _ _ _ _ _ _ _ _ _ _ _ => exact absurd rfl (hp raw ctx)
  | _ =>
    obtain ⟨v', hv', he⟩ := keep rfl
    exact ⟨v', hv', Or.inl he⟩

/-- No request adds an account. -/
theorem Allowed.no_user (ha : Allowed A w i r ch) {db db' : Db} (hrel : ch.Rel db db') {k : Uuid}
    (hk : db.users.row k = none) : db'.users.row k = none := by
  have keep : ch.users = .keep → db'.users.row k = none := fun h => by
    have h' := hrel.users
    rw [h] at h'
    rw [h' k, hk]
  have set : ∀ {u u'}, ch.users = .set u u' → db'.users.row k = none := fun h => by
    have h' := hrel.users
    rw [h] at h'
    rw [h'.2.2 k (fun hku => by rw [hku, h'.1] at hk; cases hk), hk]
  cases ha with
  | reset | verifiedEmail | userActivated | userDeactivated => exact set rfl
  | _ => exact keep rfl

/-- The commit of a reset sets the hash that it computed. -/
theorem Allowed.resets (ha : Allowed A w i (req i) ch) (ht : Told req w) (hc : Resets req w i u) {db' : Db}
    (hrel : ch.Rel w.db db') :
    ∃ v', db'.users.row u = some v' ∧ ∃ password, Did w i (.hashPassword password) v'.passwordHash := by
  obtain ⟨⟨raw, password, ctx, hreq⟩, v, rfl, hd⟩ := hc
  rw [hreq] at ha
  cases ha with
  | reset lockT unused lock owner can hashed =>
    obtain ⟨-, hu⟩ := ht.lockUser hd lock.did
    cases hu
    exact ⟨_, hrel.users.2.1, password, hashed⟩

structure Hashes (db : Db) (req : ι → Request) (w : World (store env) ι) : Prop where
  row : ∀ {u v}, w.db.users.row u = some v → StoredFor db w u v.passwordHash
  read : ∀ {i email v}, Did w i (.selectUserByEmail email) (some v) → StoredFor db w v.id v.passwordHash
  /-- The hash of a reset that has not ended is new to the account. -/
  new : ∀ {i v password h}, Did w i (.selectUserForUpdate v.id) (some v) → Did w i (.hashPassword password) h →
    ¬w.Ended i → ¬StoredFor db w v.id h
  /-- A hash read before the commit of a reset is not the account's hash any more … -/
  cut : ∀ {i email v c}, Before (readOf i email v) (commitOf c) w.tr → Resets req w c v.id →
    ∃ v', w.db.users.row v.id = some v' ∧ v'.passwordHash ≠ v.passwordHash
  /-- … in any lock of the account taken since. -/
  again : ∀ {i email v c j v'}, Before (readOf i email v) (commitOf c) w.tr → Resets req w c v.id → v'.id = v.id →
    Before (commitOf c) (lockOf j v') w.tr → v'.passwordHash ≠ v.passwordHash

omit [DecidableEq ι] in
theorem Resets.of_stmt {o : Op} {r : Resp o} (h : Resets req (w.stmt i o r) c u) (hi : c ≠ i) :
    Resets req w c u := by
  obtain ⟨hreq, v, hid, hd⟩ := h
  exact ⟨hreq, v, hid, (did_stmt_ne hi).mp hd⟩

omit [DecidableEq ι] in
theorem Resets.of_commit {f : Db → Db} (h : Resets req (w.commit i f) c u) : Resets req w c u := by
  obtain ⟨hreq, v, hid, hd⟩ := h
  exact ⟨hreq, v, hid, did_commit.mp hd⟩

omit [DecidableEq ι] in
theorem Resets.of_push {a : Act (store env)} (ha : ∀ o r, a ≠ .stmt o r) (h : Resets req (w.push i a) c u) :
    Resets req w c u := by
  obtain ⟨hreq, v, hid, hd⟩ := h
  exact ⟨hreq, v, hid, (did_push ha).mp hd⟩

theorem Hashes.stmt (h : Hashes db req w) (ht : Told req w) {o : Op} {r : Resp o} {f : Db → Db}
    {free : RowLock → Prop} (hu : ¬Committed w i) (hk : ∀ k, o.kind = some k → NoneOf w i k)
    (hc : Chk w i (req i) f o) (hr : resp env o (f w.db) w.mem free r)
    (hA : Salted db w ⟨i, .stmt o r⟩) : Hashes db req (w.stmt i o r) := by
  have mono : ∀ {u : Uuid} {h : String}, StoredFor db w u h → StoredFor db (w.stmt i o r) u h := fun hs =>
    hs.mono fun e he => World.mem_stmt he
  have uncut : ∀ {e c}, Before e (commitOf c) (w.stmt i o r).tr → Before e (commitOf c) w.tr ∧ c ≠ i := by
    intro e c hb
    have hb' := before_commit_stmt.mp hb
    refine ⟨hb', ?_⟩
    rintro rfl
    exact hu hb'.right
  refine ⟨fun hv => mono (h.row hv), fun {j email v} hd => ?_, fun {j v password g} hl hd hn hs => ?_,
    fun hb hreset => ?_, fun {j email v c j' v'} hb hreset hid hb' => ?_⟩
  · by_cases hj : j = i
    · subst hj
      rcases did_stmt.mp hd with hd | he
      · exact mono (h.read hd)
      · cases he
        have hr : (f w.db).users.Picks (User.emailIs env email) (some v) := hr
        have hrow := hr.row
        rw [hc v.id] at hrow
        exact mono (h.row hrow)
    · exact mono (h.read ((did_stmt_ne hj).mp hd))
  · have hold := hs.of_stmt hu
    have hn' : ¬w.Ended j := fun ⟨e, he, he'⟩ => hn ⟨e, World.mem_stmt he, he'⟩
    by_cases hj : j = i
    · subst hj
      rcases did_stmt.mp hl with hl' | he <;> rcases did_stmt.mp hd with hd' | he'
      · exact h.new hl' hd' hn' hold
      · cases he'
        exact hA j password g rfl hold.stored
      · cases he
        obtain ⟨u', v', hlock⟩ := ht.chk hd'
        exact hk _ rfl _ _ rfl hlock
      · cases he
        cases he'
    · exact h.new ((did_stmt_ne hj).mp hl) ((did_stmt_ne hj).mp hd) hn' hold
  · obtain ⟨hb, hci⟩ := uncut hb
    exact h.cut hb (hreset.of_stmt hci)
  · obtain ⟨hb, hci⟩ := uncut hb
    rcases before_append.mp hb' with hb' | ⟨he, -⟩
    · exact h.again hb (hreset.of_stmt hci) hid hb'
    · obtain ⟨v₀, hv₀, hne⟩ := h.cut hb (hreset.of_stmt hci)
      cases he
      have hr : some v' = (f w.db).users.row v'.id := hr
      rw [hc v'.id, hid, hv₀] at hr
      cases hr
      exact hne

omit [DecidableEq ι] in
/-- A row that differs from a hash the account had still does: a new hash was never stored. -/
theorem Hashes.differs (h : Hashes db req w) {db' : Db} (hn : ¬w.Ended i) (hh : Rehashes w i db') {k : Uuid}
    {g : String} (hg : StoredFor db w k g) (hv : w.db.users.row k = some v) (hne : v.passwordHash ≠ g) :
    ∃ v', db'.users.row k = some v' ∧ v'.passwordHash ≠ g := by
  obtain ⟨v', hv', he | ⟨rfl, hl, password, hd⟩⟩ := hh k v hv
  · exact ⟨v', hv', by rw [he]; exact hne⟩
  · refine ⟨v', hv', ?_⟩
    rintro rfl
    exact h.new hl hd hn hg

theorem Hashes.commit {s : Sys (store env) ι} (hs : Reach A (system env db mem req) s) (h : Hashes db req s.world)
    {f : Db → Db} (hi : s.txs i ≠ .over) (hu : ¬Committed s.world i) (ha : Allowed A s.world i (req i) ch)
    (hrel : ch.Rel s.world.db (f s.world.db)) (hh : Rehashes s.world i (f s.world.db)) :
    Hashes db req (s.world.commit i f) := by
  have ht := told hs
  have hlive := not_ended hs hi hu
  have mono : ∀ {u : Uuid} {g : String}, StoredFor db s.world u g → StoredFor db (s.world.commit i f) u g :=
    fun hs => hs.mono fun e he => List.mem_append_left _ he
  refine ⟨fun {k v} hv => ?_, fun hd => mono (h.read (did_commit.mp hd)), fun {j v password g} hl hd hn hst => ?_,
    fun {j email v c} hb hreset => ?_, fun {j email v c j' v'} hb hreset hid hb' => ?_⟩
  · cases hv₀ : s.world.db.users.row k with
    | none =>
      have hv : (f s.world.db).users.row k = some v := hv
      rw [ha.no_user hrel hv₀] at hv
      cases hv
    | some v₀ =>
      obtain ⟨v', hv', he⟩ := hh k v₀ hv₀
      rw [show (f s.world.db).users.row k = some v from hv] at hv'
      cases hv'
      rcases he with he | ⟨rfl, hl, password, hd⟩
      · rw [he]
        exact mono (h.row hv₀)
      · exact Or.inr ⟨i, v₀, password, committed_commit.mpr (Or.inr rfl), rfl, did_commit.mpr hl, did_commit.mpr hd⟩
  · have hji : j ≠ i := by
      rintro rfl
      exact hn ⟨⟨j, .commit⟩, by simp, rfl, trivial⟩
    have hn' : ¬s.world.Ended j := fun ⟨e, he, he'⟩ => hn ⟨e, List.mem_append_left _ he, he'⟩
    have hlock := did_commit.mp hl
    refine h.new hlock (did_commit.mp hd) hn' ?_
    rcases hst with hst | ⟨i', v', password', hc, hid, hl', hd'⟩
    · exact Or.inl hst
    · rcases committed_commit.mp hc with hc | rfl
      · exact Or.inr ⟨i', v', password', hc, hid, did_commit.mp hl', did_commit.mp hd'⟩
      · exact absurd (lockUser_exclusive hs hlock (did_commit.mp hl') hid.symm hn' hlive) hji
  · rcases before_commit_commit.mp hb with hb | ⟨rfl, hd⟩
    · obtain ⟨v₀, hv₀, hne⟩ := h.cut hb hreset.of_commit
      exact h.differs hlive hh (h.read hb.left) hv₀ hne
    · obtain ⟨v', hv', password, hh⟩ := ha.resets ht hreset.of_commit hrel
      refine ⟨v', hv', fun he => ?_⟩
      obtain ⟨-, v₁, hid, hl⟩ := hreset.of_commit
      rw [he] at hh
      exact h.new hl hh hlive (by rw [hid]; exact h.read hd)
  · have hafter := before_stmt_commit.mp hb'
    rcases before_commit_commit.mp hb with hb | ⟨rfl, -⟩
    · exact h.again hb hreset.of_commit hid hafter
    · exact absurd hafter.left hu

omit [DecidableEq ι] in
theorem Hashes.push (h : Hashes db req w) {a : Act (store env)} (ha : ∀ o r, a ≠ .stmt o r) (hc : a ≠ .commit) :
    Hashes db req (w.push i a) := by
  have mono : ∀ {u : Uuid} {g : String}, StoredFor db w u g → StoredFor db (w.push i a) u g := fun hs =>
    hs.mono fun e he => List.mem_append_left _ he
  refine ⟨fun hv => mono (h.row hv), fun hd => mono (h.read ((did_push ha).mp hd)), fun hl hd hn hst => ?_,
    fun hb hreset => h.cut ((before_commit_push hc).mp hb) (hreset.of_push ha),
    fun hb hreset hid hb' => h.again ((before_commit_push hc).mp hb) (hreset.of_push ha) hid
      ((before_stmt_push ha).mp hb')⟩
  refine h.new ((did_push ha).mp hl) ((did_push ha).mp hd)
    (fun ⟨e, he, he'⟩ => hn ⟨e, List.mem_append_left _ he, he'⟩) ?_
  rcases hst with hst | ⟨i', v', password', hcm, hid, hl', hd'⟩
  · exact Or.inl hst
  · exact Or.inr ⟨i', v', password', (committed_push hc).mp hcm, hid, (did_push ha).mp hl', (did_push ha).mp hd'⟩

theorem hashes (hA : ∀ w e, A w e → Salted db w e)
    (hh : ∀ {w : World (store env) ι} {i ch db'}, Allowed A w i (req i) ch → ch.Rel w.db db' → Rehashes w i db')
    {s : Sys (store env) ι} (hr : Reach A (system env db mem req) s) : Hashes db req s.world := by
  refine invariant ?_ ?_ hr
  · exact {
      stmt := fun hs hJ _ hA' hc hresp => hJ.stmt (told hs) hc.1 hc.2.1 hc.2.2 hresp (hA _ _ hA')
      commit := fun hs hJ hi _ hc _ => by
        obtain ⟨ch, ha, hrel⟩ := hc.2
        exact hJ.commit hs hi hc.1 ha hrel (hh ha hrel)
      done := fun _ hJ _ _ => hJ.push (fun _ _ h => by cases h) fun h => by cases h
      crash := fun _ hJ _ => hJ.push (fun _ _ h => by cases h) fun h => by cases h }
  · exact ⟨fun hv => Or.inl ⟨_, hv, rfl⟩, fun hd => (List.not_mem_nil hd).elim,
      fun hd => (List.not_mem_nil hd).elim, fun hb => (not_before_nil hb).elim, fun hb => (not_before_nil hb).elim⟩

/-! ## What a cut cuts off -/

/-- What holds of the state `s` once the cut `c` of the account `u` has committed. -/
structure CutOff (A : World (store env) ι → Event (store env) ι → Prop) (req : ι → Request)
    (s : Sys (store env) ι) (c : ι) (u : Uuid) : Prop where
  /-- A session opened under a lock taken before the cut is revoked, for good. -/
  session : ∀ i v x, v.id = u → Before (lockOf i v) (commitOf c) s.world.tr → Committed s.world i →
    Did s.world i (.insertSession x) true → ∃ y t, s.world.db.sessions.row x.id = some y ∧ y.userId = u ∧
      y.revokedAt = some t ∧ ∀ s', Reach A s s' →
        ∃ y', s'.world.db.sessions.row x.id = some y' ∧ y'.revokedAt = some t
  /-- A token minted under a lock taken before the cut is of an older epoch, and refused. -/
  token : ∀ i v claims now token, v.id = u → Before (lockOf i v) (commitOf c) s.world.tr →
    Did s.world i (.issueAccessToken claims now) token → claims.userId = u ∧
      (∃ v', s.world.db.users.row u = some v' ∧ claims.authEpoch < v'.authEpoch) ∧ Refuses env s.world.db claims
  /-- A challenge stamped before the cut opens nothing under a lock taken after it. -/
  challenge : ∀ i j challengeId e ttl ua ctx, Before (stampOf j challengeId u e ttl) (commitOf c) s.world.tr →
    req i = .completeMfaLogin u e ua ctx → (∀ v, ¬Before (lockOf i v) (commitOf c) s.world.tr) →
      OpensNothing s.world i ∧ ¬Committed s.world i
  /-- Nor does a login that read a password hash which the cut replaced. -/
  login : ∀ i email v, v.id = u → (∃ raw password ctx, req c = .confirmPasswordReset raw password ctx) →
    (∃ password ip ua ctx, req i = .login email password ip ua ctx) →
    Before (readOf i email v) (commitOf c) s.world.tr → (∀ v, ¬Before (lockOf i v) (commitOf c) s.world.tr) →
      OpensNothing s.world i ∧ ∀ challengeId u e ttl, stampOf i challengeId u e ttl ∉ s.world.tr

omit [DecidableEq ι] in
/-- A lock that was not taken before a commit was taken after it. -/
theorem lock_after (hc : Committed w c) (hd : Did w i (.selectUserForUpdate v.id) (some v))
    (hn : ¬Before (lockOf i v) (commitOf c) w.tr) : Before (commitOf c) (lockOf i v) w.tr :=
  (before_total hd hc (by intro h; cases h)).resolve_left hn

omit [DecidableEq ι] in
/-- A transaction that inserts no session mints no token, unless it refreshes or confirms a second factor. -/
theorem Told.no_token (ht : Told req w) (hs : ∀ x, ¬Did w i (.insertSession x) true)
    (hr : ∀ raw csrf ctx, req i ≠ .refresh raw csrf ctx)
    (hm : ∀ claims csrf code ctx, req i ≠ .confirmMfaSetup claims csrf code ctx) :
    OpensNothing w i := by
  refine ⟨hs, fun claims now token hd => ?_⟩
  rcases ht.chk hd with ⟨claims', csrf, code, ctx, h⟩ | ⟨u, -, -, -, h⟩
  · exact hm claims' csrf code ctx h
  · unfold MintsFor at h
    split at h
    · rename_i raw csrf ctx hreq
      exact hr raw csrf ctx hreq
    · obtain ⟨x, -, -, hx⟩ := h
      exact hs x hx

section CutOff

variable {s : Sys (store env) ι}

theorem cutOff_session (hp : ∀ i, (req i).ofSessions) (hr : Reach A (system env db mem req) s)
    (hcut : Cuts req s.world c v.id) {x : Session} (hl : Before (lockOf i v) (commitOf c) s.world.tr)
    (hi : Committed s.world i) (hx : Did s.world i (.insertSession x) true) :
    ∃ y t, s.world.db.sessions.row x.id = some y ∧ y.userId = v.id ∧ y.revokedAt = some t ∧
      ∀ s', Reach A s s' → ∃ y', s'.world.db.sessions.row x.id = some y' ∧ y'.revokedAt = some t := by
  have he := epochs hp hr
  obtain ⟨v₀, y, hd, hid, hy, hyu, hlive⟩ := he.session hi hx
  obtain ⟨heq, hv⟩ := (told hr).lockUser hl.left hd
  cases hv
  obtain ⟨v₁, hv₁, hlt⟩ := he.cut hl hcut
  cases hrev : y.revokedAt with
  | none =>
    obtain ⟨v₂, hv₂, he⟩ := hlive hrev
    rw [hv₁] at hv₂
    cases hv₂
    exact absurd he (Nat.ne_of_gt hlt)
  | some t =>
    refine ⟨y, t, hy, hyu.trans hid.symm, hrev, fun s' hs' => ?_⟩
    obtain ⟨y', hy', -, -, h⟩ := (grows hr hs').sessions _ _ hy
    exact ⟨y', hy', h t hrev⟩

theorem cutOff_token (hp : ∀ i, (req i).ofSessions) (hr : Reach A (system env db mem req) s)
    (hcut : Cuts req s.world c v.id) {claims : AccessTokenClaims} {now : Instant} {token : String}
    (hl : Before (lockOf i v) (commitOf c) s.world.tr)
    (hd : Did s.world i (.issueAccessToken claims now) token) :
    claims.userId = v.id ∧ (∃ v', s.world.db.users.row v.id = some v' ∧ claims.authEpoch < v'.authEpoch) ∧
      Refuses env s.world.db claims := by
  obtain ⟨v₁, hv₁, hlt⟩ := (epochs hp hr).cut hl hcut
  rcases (told hr).chk hd with ⟨claims', csrf, code, ctx, h⟩ | ⟨v₀, hd₀, hid, he, -⟩
  · have := hp i
    rw [h] at this
    exact this.elim
  · obtain ⟨heq, hv⟩ := (told hr).lockUser hl.left hd₀
    cases hv
    rw [he] at hlt
    exact ⟨hid.symm, ⟨v₁, hv₁, hlt⟩, refuses_of_lt (by rw [← hid]; exact hv₁) hlt⟩

theorem cutOff_challenge (hp : ∀ i, (req i).ofSessions) (hr : Reach A (system env db mem req) s)
    (hc : Committed s.world c) (hcut : Cuts req s.world c u) {challengeId : String} {e ttl : ℕ}
    {ua : Option String} {ctx : AuditContext} (hb : Before (stampOf j challengeId u e ttl) (commitOf c) s.world.tr)
    (hreq : req i = .completeMfaLogin u e ua ctx) (hn : ∀ v, ¬Before (lockOf i v) (commitOf c) s.world.tr) :
    ∀ x, ¬Did s.world i (.insertSession x) true := by
  intro x hx
  obtain ⟨v, hd, -, -, ho⟩ := (told hr).chk hx
  rw [hreq] at ho
  obtain ⟨rfl, he⟩ := ho
  obtain ⟨v₀, hid, he₀, hl⟩ := (epochs hp hr).stamp hb
  have hlt := (epochs hp hr).again hl (by rw [hid]; exact hcut) hid.symm (lock_after hc hd (hn v))
  rw [he₀, he] at hlt
  exact Nat.lt_irrefl _ hlt

/-- What a login opens, it opens for an account that it read after the cut. -/
theorem cutOff_login (hp : ∀ i, (req i).ofSessions) (hr : Reach (Salted db) (system env db mem req) s)
    (hc : Committed s.world c) (hcut : Resets req s.world c v.id) {email : String}
    (hb : Before (readOf i email v) (commitOf c) s.world.tr)
    (hn : ∀ v, ¬Before (lockOf i v) (commitOf c) s.world.tr) {v' : User}
    (hd : Did s.world i (.selectUserForUpdate v'.id) (some v')) {password : String} {ip ua : Option String}
    {ctx : AuditContext} (ho : OpensFor s.world i v' (.login email password ip ua ctx)) : False := by
  obtain ⟨v₀, hread, hid, hhash⟩ := ho
  obtain ⟨-, hv⟩ := (told hr).readUser hread hb.left
  cases hv
  refine (hashes (fun _ _ h => h) (fun {w i} ch db' ha hrel => ha.hash (fun raw ctx he => ?_) hrel) hr).again hb hcut
    hid.symm (lock_after hc hd (hn v')) hhash.symm
  have := hp i
  rw [he] at this
  exact this

/-- A second factor that completes a login commits a session or nothing. -/
theorem committed_completeMfaLogin (hr : Reach A (system env db mem req) s) {userId : Uuid} {e : ℕ}
    {ua : Option String} {ctx : AuditContext} (hreq : req i = .completeMfaLogin userId e ua ctx)
    (hc : Committed s.world i) : ∃ x, Did s.world i (.insertSession x) true := by
  refine committed_of (P := fun w i => (∃ userId e ua ctx, req i = .completeMfaLogin userId e ua ctx) →
    ∃ x, Did w i (.insertSession x) true) (fun hw h hr => ?_) (fun _ ha ⟨userId, e, ua, ctx, hr⟩ => ?_) hr hc
    ⟨userId, e, ua, ctx, hreq⟩
  · obtain ⟨x, hx⟩ := h hr
    exact ⟨x, hx.mono hw⟩
  · rw [hr] at ha
    cases ha with
    | completed hop => exact ⟨_, hop.did⟩

/-- **A reset or a deactivation cuts off everything issued before it**, in every interleaving. -/
theorem credentials_cut_off (hp : ∀ i, (req i).ofSessions) (hr : Reach (Salted db) (system env db mem req) s)
    (hc : Committed s.world c) (hcut : Cuts req s.world c u) : CutOff (Salted db) req s c u := by
  refine ⟨fun i v x hid hl hi hx => ?_, fun i v claims now token hid hl hd => ?_,
    fun i j challengeId e ttl ua ctx hb hreq hn => ?_, fun i email v hid hreset hlogin hb hn => ?_⟩
  · subst hid
    exact cutOff_session hp hr hcut hl hi hx
  · subst hid
    exact cutOff_token hp hr hcut hl hd
  · have hs := cutOff_challenge hp hr hc hcut hb hreq hn
    refine ⟨(told hr).no_token hs (fun _ _ _ h => by rw [hreq] at h; cases h)
      (fun _ _ _ _ h => by rw [hreq] at h; cases h), fun hi => ?_⟩
    obtain ⟨x, hx⟩ := committed_completeMfaLogin hr hreq hi
    exact hs x hx
  · subst hid
    obtain ⟨password, ip, ua, ctx, hreq⟩ := hlogin
    obtain ⟨v₁, hid₁, hd₁, -⟩ := hcut
    have hresets : Resets req s.world c v.id := ⟨hreset, v₁, hid₁, hd₁⟩
    have none : ∀ {v'}, Did s.world i (.selectUserForUpdate v'.id) (some v') → ¬OpensFor s.world i v' (req i) :=
      fun hd ho => by
        rw [hreq] at ho
        exact cutOff_login hp hr hc hresets hb hn hd ho
    refine ⟨(told hr).no_token (fun x hx => ?_) (fun _ _ _ h => by rw [hreq] at h; cases h)
      (fun _ _ _ _ h => by rw [hreq] at h; cases h), fun challengeId u e ttl hs => ?_⟩
    · obtain ⟨v', hd, -, -, ho⟩ := (told hr).chk hx
      exact none hd ho
    · obtain ⟨v', hd, -, -, ho⟩ := (told hr).chk hs
      exact none hd ho

end CutOff

/-- A login and a reset of the same account. -/
def loginAndReset : Fin 2 → Request
  | 0 => .login "ada" "old" none none {}
  | 1 => .confirmPasswordReset "token" "new" {}

/-- The hash that a step returns, if it is the one of a hashing, is not `h`. -/
def saltedCheck (db : Db) (w : World (store env) ι) (e : Event (store env) ι) : Bool :=
  match e.act with
  | .stmt (.hashPassword _) h => (db.users.find fun v => v.passwordHash = h).isNone && w.tr.all fun e' =>
      match e'.act with
      | .stmt (.hashPassword _) h' => h' ≠ h
      | _ => true
  | _ => true

omit [DecidableEq ι] in
theorem saltedCheck_sound {e : Event (store env) ι} (h : saltedCheck db w e = true) : Salted db w e := by
  rintro i password hash rfl hs
  obtain ⟨h1, h2⟩ := Bool.and_eq_true_iff.mp h
  rcases hs with ⟨k, v, hv, hh⟩ | ⟨j, password', -, hd⟩
  · have := picks_none.mp h1 k v hv
    simp [hh] at this
  · have := List.all_eq_true.mp h2 _ hd
    simp at this

def cutsCheck (u : Uuid) : Act (store env) → Bool
  | .stmt (.selectUserForUpdate k) (some v) => k = v.id && v.id = u
  | _ => false

theorem of_cutsCheck {a : Act (store env)} (h : cutsCheck u a = true) :
    ∃ v : User, v.id = u ∧ a = .stmt (.selectUserForUpdate v.id) (some v) := by
  unfold cutsCheck at h
  split at h
  · obtain ⟨rfl, hu⟩ := by simpa using h
    exact ⟨_, hu, rfl⟩
  · cases h

/-- The session that the login opened is cut off by the reset. -/
theorem login_cut_off_by_reset : ∃ s, Reach (Salted sampleDb)
    (system sampleEnv sampleDb sampleMem loginAndReset) s ∧ CutOff (Salted sampleDb) loginAndReset s 1 1 := by
  obtain ⟨s, hr, hs⟩ := play_any (player sampleEnv) (saltedCheck sampleDb) saltedCheck_sound
    (system sampleEnv sampleDb sampleMem loginAndReset)
    (List.replicate 10 (.go 0 { n := 5 }) ++ List.replicate 14 (.go 1 { s := "new" }))
    (fun s => s.world.sees 1 Act.isCommit && s.world.sees 1 (cutsCheck 1)) (by decide +kernel)
  obtain ⟨hc, hl⟩ := Bool.and_eq_true_iff.mp hs
  obtain ⟨a, ha, hc⟩ := World.of_sees hc
  obtain ⟨a', ha', hl⟩ := World.of_sees hl
  obtain ⟨v, hv, rfl⟩ := of_cutsCheck hl
  rw [Act.eq_commit hc] at ha
  refine ⟨s, hr, credentials_cut_off (fun i => ?_) hr ha ⟨v, hv, ha', trivial⟩⟩
  match i with
  | 0 => trivial
  | 1 => trivial

end Bekaa3D.Identity
