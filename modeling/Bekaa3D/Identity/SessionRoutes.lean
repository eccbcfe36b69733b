import Bekaa3D.Identity.Sweeps

/-!
# Identity.SessionRoutes — login, refresh and logout keep the contract

* `run_transaction`: a route keeps the contract when what it leaves to commit is allowed.
* `wp_openSession`: the session and the tokens that every kind of login ends with.
-/

namespace Bekaa3D.Identity

open Txn

theorem mintsFor_new {env : Env} {ι : Type} {w : World (store env) ι} {i : ι} {c : AccessTokenClaims} {u : User} {r : Request} (hr : ∀ raw csrf ctx, r ≠ .refresh raw csrf ctx)
    (h : ∃ x : Session, x.id = c.sessionId ∧ x.userId = u.id ∧ Did w i (.insertSession x) true) :
    MintsFor w i c u r := by
  cases r with
  | refresh raw csrf ctx => exact absurd rfl (hr raw csrf ctx)
  | _ => exact h

variable {env : Env} {ι : Type} [DecidableEq ι] {A : World (store env) ι → Event (store env) ι → Prop}
  {req : ι → Request} {i : ι} {N : List Kind} {L : List RowLock} {f : Db → Db} {w : World (store env) ι} {ch : Change}
  {F : World (store env) ι → Prop}

/-! ## Whole transactions -/

/-- What is pending may be committed. -/
def Commits (A : World (store env) ι → Event (store env) ι → Prop) (req : ι → Request) (i : ι) (L : List RowLock)
    (f : Db → Db) (w : World (store env) ι) : Prop :=
  ∃ N ch F, Knows A req i N L f w ch F ∧ ∀ w, F w → Fresh N w i → Allowed A w i (req i) ch

/-- What is pending may be committed, and `P` is known of it. -/
def CommitsWith (A : World (store env) ι → Event (store env) ι → Prop) (req : ι → Request) (i : ι)
    (P : World (store env) ι → Prop) (L : List RowLock) (f : Db → Db) (w : World (store env) ι) : Prop :=
  ∃ N ch F, Knows A req i N L f w ch F ∧ (∀ w, F w → Fresh N w i → Allowed A w i (req i) ch) ∧ ∀ w, F w → P w

theorem run_transaction {p : Handler Answer}
    (h : (contract A req).wp i p L f w (fun a L f w => CommitsWith A req i (fun w => Promised w i (req i) a) L f w)
      fun e L _ w => (contract A req).Ends i (.error e) L w) : (contract A req).Run i p.transaction L f w := by
  refine Logic.wp_bind.mpr (Logic.wp_mono h (fun a L f w hc => ?_) fun _ _ _ _ h => h)
  obtain ⟨N, ch, F, hk, ha, hp⟩ := hc
  refine wp_commit hk ha fun w hF _ w' hw => ⟨hw.mem_tr (by simp), ?_⟩
  exact (hp w hF).mono fun e he => hw.mem_tr (mem_commit he)

/-- Requests that promise nothing about their answers. -/
theorem run_plain {p : Handler Answer}
    (hp : ∀ (w : World (store env) ι) a e, Promised w i (req i) a ∧ Finishes w i A (req i) (.error e))
    (h : (contract A req).wp i p L f w (fun _ L f w => Commits A req i L f w) fun _ _ _ _ => True) :
    (contract A req).Run i p.transaction L f w := by
  refine run_transaction (Logic.wp_mono h (fun a L f w hc => ?_) fun e _ _ _ _ w' _ => (hp w' .noContent e).2)
  obtain ⟨N, ch, F, hk, ha⟩ := hc
  exact ⟨N, ch, F, hk, ha, fun w _ => (hp w a .uncaught).1⟩

/-! ## Logout -/

theorem Session.id_revoke (x : Session) (now : Instant) : (x.revoke now).id = x.id := by
  unfold revoke
  split <;> rfl

theorem Session.cols_revoke (x : Session) (now : Instant) :
    (SessionRepository.cols x (x.revoke now)).apply x = x.revoke now := by
  refine SessionRepository.cols_apply ?_
  unfold revoke
  split <;> rfl

theorem run_logout {claims : AccessTokenClaims} {csrf : Option String} {ctx : AuditContext}
    (hreq : req i = .logout claims csrf ctx) (hw : w.tr = []) :
    (contract A req).Run i (handle env (req i)) [] id w := by
  rw [hreq]
  refine run_plain (fun w a e => by rw [hreq]; exact ⟨trivial, trivial⟩) ?_
  refine Logic.wp_bind.mpr (wp_requireCsrf (Knows.start w hw) (fun _ _ _ _ => trivial) fun w hk => ?_)
  refine Logic.wp_bind.mpr (wp_lockSession hk (by decide) rfl (fun w hk => ?_) fun w x _ hid _ hk => ?_)
  · exact ⟨_, _, _, hk, fun w _ _ => by rw [hreq]; exact .loggedOutBefore⟩
  · change (contract A req).wp i (if x.isRevoked then _ else _) _ id w _ _
    split
    · exact ⟨_, {}, _, hk, fun w _ _ => by rw [hreq]; exact .loggedOutBefore⟩
    · rename_i hlive
      refine Logic.wp_bind.mpr (wp_now hk fun w now hk => ?_)
      refine Logic.wp_bind.mpr (wp_saveSession hk rfl (fun w hF => hF.1.2) (Session.id_revoke x now)
        (Session.cols_revoke x now) fun L f w _ hk => ?_)
      refine wp_audit hk (fun _ _ _ _ _ => trivial) fun L f w _ hk => ?_
      exact ⟨_, _, _, hk, fun w hF _ => by rw [hreq]; exact .loggedOut hF.1.2 (by simpa using hlive)⟩

/-! ## Refresh -/

theorem Session.authorizeRotation_error {x : Session} {hash : String} {v : ℤ} {now : Instant} {e : IdentityError}
    (h : x.authorizeRotation hash v now = .error e) : e = .refreshTokenReuse x.id ∨ e.isSessionTerminated = false := by
  unfold authorizeRotation at h
  split at h
  · cases h; exact Or.inr rfl
  · split at h
    · cases h; exact Or.inr rfl
    · split at h
      · cases h; exact Or.inl rfl
      · split at h
        · cases h; exact Or.inr rfl
        · split at h
          · cases h; exact Or.inr rfl
          · cases h

/-- A refresh that raises without committing. -/
theorem refreshError_raise {raw : String} {csrf : Option String} {ctx : AuditContext}
    (hreq : req i = .refresh (some raw) csrf ctx) {e : IdentityError} (he : e.isSessionTerminated = false)
    (hk : Knows A req i N L f w ch F) (hN : .mint ∈ N)
    (h : ∀ w, F w → Fresh N w i → Orphaned i A ∨ Unrotated w i raw)
    {Q : RefreshResult → List RowLock → (Db → Db) → World (store env) ι → Prop} :
    (contract A req).wp i (refreshError e) L f w Q fun e L _ w => (contract A req).Ends i (.error e) L w := by
  have ends : ∀ e, (contract A req).Ends i (.error e) L w := fun e w' hw => by
    have hp := hk.fresh.rely hw
    change Finishes w' i A (req i) _
    rw [hreq]
    exact ⟨hp.noneOf _ hN, Or.inr ⟨hp.uncommitted, h w' (hk.holds.rely hw hk.now) hp⟩⟩
  unfold refreshError
  rw [he]
  change (contract A req).wp i (if e.isInvalidSession then _ else _) L f w Q _
  split
  · exact ends _
  · exact ends _

omit [DecidableEq ι] in
theorem noneOf_commit {k : Kind} {w₀ : World (store env) ι} {g : Db → Db} (h : NoneOf w₀ i k) :
    NoneOf (w₀.commit i g) i k :=
  fun o r ho hd => h o r ho (did_commit.mp hd)

/-- A refresh that commits what it wrote before it raises. -/
theorem refreshError_commit {raw : String} {csrf : Option String} {ctx : AuditContext}
    (hreq : req i = .refresh (some raw) csrf ctx) {e : IdentityError} (he : e.isSessionTerminated = true)
    (hk : Knows A req i N L f w ch F) (hN : .mint ∈ N) (ha : ∀ w, F w → Fresh N w i → Allowed A w i (req i) ch)
    {Q : RefreshResult → List RowLock → (Db → Db) → World (store env) ι → Prop} :
    (contract A req).wp i (refreshError e) L f w Q fun e L _ w => (contract A req).Ends i (.error e) L w := by
  unfold refreshError
  rw [he]
  refine wp_commit hk ha fun w _ hp w' hw => ?_
  change Finishes w' i A (req i) _
  rw [hreq]
  exact ⟨noneOf_rely hw (noneOf_commit (hp.noneOf _ hN)), Or.inl (hw.mem_tr (by simp))⟩

theorem Session.cols_markReuseDetected (x : Session) (now : Instant) :
    (SessionRepository.cols x (x.markReuseDetected now)).apply x = x.markReuseDetected now := by
  refine SessionRepository.cols_apply ?_
  unfold markReuseDetected revoke
  split <;> rfl

theorem Session.id_markReuseDetected (x : Session) (now : Instant) : (x.markReuseDetected now).id = x.id :=
  Session.id_revoke _ now

theorem Session.cols_rotate (x : Session) (hash : String) (now : Instant) :
    (SessionRepository.cols x (x.rotate hash now)).apply x = x.rotate hash now :=
  SessionRepository.cols_apply rfl

/-- Whose session it is does not change. -/
theorem holds_sessionOwner {k o : Uuid} : (contract A req).Holds i L fun w =>
    ∃ y, w.db.sessions.row k = some y ∧ y.userId = o := by
  refine ⟨fun hw h => ?_, fun _ _ h => h⟩
  obtain ⟨y, hy, ho⟩ := h
  obtain ⟨y', hy', hu, -⟩ := hw.gr.sessions _ y hy
  exact ⟨y', hy', hu.trans ho⟩

/-- The locked row of a session whose owner was read before. -/
theorem owner_eq {db : Db} {x : Session} {ownerId : Uuid} (hx : db.sessions.row x.id = some x)
    (h : ∃ y, db.sessions.row x.id = some y ∧ y.userId = ownerId) : x.userId = ownerId := by
  obtain ⟨y, hy, ho⟩ := h
  rw [hx] at hy
  cases hy
  exact ho

/-- What `rotateSession` relies on. -/
structure Rotating (user : Option User) (x : Session) (mfaCompleted : Bool) (w : World (store env) ι) (i : ι) :
    Prop where
  owner : LockedOwner w i x.userId user
  session : LockedSession w i x
  flag : mfaCompleted = true → ∃ v, Did w i (.redisGet (.mfaCompleted x.id)) (some v)

theorem wp_rotateSession {raw : String} {csrf : Option String} {ctx : AuditContext} {mfaCompleted : Bool}
    {at_ : Instant} {c : RefreshTokenClaims} {user : Option User} {x : Session} {pre : List (Event (store env) ι)}
    (hreq : req i = .refresh (some raw) csrf ctx) (hd : decodeRefreshToken env raw at_ = .ok c)
    (hid : c.sessionId = x.id) (hN : .mint ∈ N) (hk : Knows A req i N L f w {} F)
    (hlast : w.own i = pre ++ [⟨i, .stmt (.selectSessionForUpdate x.id) (some x)⟩])
    (orphan : user = none → Orphaned i A) (hF : ∀ w, F w → Rotating user x mfaCompleted w i)
    {Q : RefreshResult → List RowLock → (Db → Db) → World (store env) ι → Prop} :
    (contract A req).wp i (rotateSession env raw mfaCompleted ctx c user x) L f w
      (fun r L f w => CommitsWith A req i
        (fun w => Promised w i (req i) (.cookiesSet ⟨r.accessToken, r.refreshToken, r.csrfToken⟩)) L f w)
      fun e L f w => (contract A req).wp i (refreshError e) L f w Q
        fun e L _ w => (contract A req).Ends i (.error e) L w := by
  have presented : decodeRefreshToken env raw at_ = .ok ⟨x.id, c.tokenVersion⟩ := by rw [hd, ← hid]
  refine Logic.wp_bind.mpr (wp_nowAfter hk hlast fun w now hk => Logic.wp_ret.mpr ?_)
  split
  · rename_i id hauth
    obtain rfl : id = x.id := by
      rcases Session.authorizeRotation_error hauth with h | h
      · cases h; rfl
      · cases h
    refine Logic.wp_bind.mpr (wp_saveSession hk rfl (fun w h => (hF w h.1).session)
      (Session.id_markReuseDetected x now) (Session.cols_markReuseDetected x now) fun L f w _ hk => ?_)
    refine Logic.wp_bind.mpr (wp_audit hk (fun w w' h hno hk' => ?_) fun L f w _ hk => ?_)
    · -- the owner's row exists, unless its locking read found none
      have gone : user = none := by
        cases user with
        | none => rfl
        | some u =>
          obtain ⟨hu, hid⟩ := (hF w h.1).owner
          have hrow := (hk.rel w h).users u.id
          rw [hu.row, hid] at hrow
          simp [AuditContext.log, Db.hasUser, hrow] at hno
      exact refreshError_raise hreq rfl hk' hN fun _ _ _ => Or.inl (orphan gone)
    · refine refreshError_commit hreq rfl hk hN fun w h hp => ?_
      rw [hreq]
      exact .reuse presented (hF w h.1).session h.2 hauth (hp.noneOf _ hN)
  · rename_i e hne hauth
    refine refreshError_raise hreq ?_ hk hN fun w h _ => Or.inr (.refused presented h.2 hauth fun h => hne _ h)
    rcases Session.authorizeRotation_error hauth with rfl | h
    · exact absurd rfl (hne _)
    · exact h
  · rename_i hauth
    cases hu : user.filter User.canAuthenticate with
    | none =>
      refine Logic.wp_bind.mpr (wp_saveSession hk rfl (fun w h => (hF w h.1).session) (Session.id_revoke x now)
        (Session.cols_revoke x now) fun L f w _ hk => ?_)
      refine refreshError_commit hreq rfl hk hN fun w h hp => ?_
      have cannot : user.any User.canAuthenticate = false := by
        cases user with
        | none => rfl
        | some u => simpa [Option.filter] using hu
      rw [hreq]
      exact .ownerRevoked presented (hF w h.1).owner cannot (hF w h.1).session h.2 hauth (hp.noneOf _ hN)
    | some u =>
      obtain ⟨rfl, can⟩ := Option.filter_eq_some_iff.mp hu
      refine Logic.wp_bind.mpr (wp_saveSession hk rfl (fun w h => (hF w h.1).session) rfl
        (Session.cols_rotate x _ now) fun L f w _ hk => ?_)
      refine Logic.wp_bind.mpr (wp_mint hk hN (fun w h => ?_) fun w token hk => ?_)
      · have h := hF w h.1
        refine Or.inr ⟨u, h.owner.1.did, rfl, rfl, ?_⟩
        rw [hreq]
        exact h.flag
      · refine ⟨_, _, _, hk, fun w h _ => ?_, fun w h => ?_⟩
        · rw [hreq]
          have hf := hF w h.1.1
          exact .refreshed presented hf.owner.1 hf.owner.2.symm hf.session h.1.2 hauth can ⟨_, _, h.2⟩
        · rw [hreq]
          exact ⟨_, x, _, now, rfl, (hF w h.1.1).session.did, h.2, ⟨now, rfl⟩, rfl⟩

theorem wp_refreshSession {raw : String} {csrf : Option String} {ctx : AuditContext} {mfaCompleted : Bool}
    {s : Uuid} (hreq : req i = .refresh (some raw) csrf ctx) (hk : Knows A req i Kind.all [] id w {} F)
    (hsid : ∀ at_ c, decodeRefreshToken env raw at_ = .ok c → c.sessionId = s)
    (hmfa : ∀ w, F w → mfaCompleted = true → ∃ v, Did w i (.redisGet (.mfaCompleted s)) (some v))
    {Q : RefreshResult → List RowLock → (Db → Db) → World (store env) ι → Prop} :
    (contract A req).wp i (refreshSession env raw mfaCompleted ctx) [] id w
      (fun r L f w => CommitsWith A req i
        (fun w => Promised w i (req i) (.cookiesSet ⟨r.accessToken, r.refreshToken, r.csrfToken⟩)) L f w)
      fun e L f w => (contract A req).wp i (refreshError e) L f w Q
        fun e L _ w => (contract A req).Ends i (.error e) L w := by
  have unlocked : ∀ {F : World (store env) ι → Prop} (w : World (store env) ι), F w → Fresh Kind.all w i →
      Orphaned i A ∨ Unrotated w i raw := fun w _ hp => Or.inr (.unlocked (hp.noneOf _ (by decide)))
  refine Logic.wp_bind.mpr (wp_now hk fun w at_ hk => ?_)
  refine Logic.wp_bind.mpr ?_
  cases hd : decodeRefreshToken env raw at_ with
  | error e =>
    refine refreshError_raise hreq ?_ hk (by decide) unlocked
    rcases decodeRefreshToken_error hd with rfl | rfl <;> rfl
  | ok c =>
    obtain rfl := hsid at_ c hd
    refine wp_read hk (fun _ => rfl) (fun _ _ => rfl) rfl (fun _ _ => trivial) fun w free r hF hrel hr hA hk' => ?_
    have hk := hk.forget hk'
    cases r with
    | none => exact refreshError_raise hreq rfl hk (by decide) unlocked
    | some ownerId =>
      obtain ⟨y, hy, ho⟩ := Option.map_eq_some_iff.mp (Eq.symm hr)
      have hk := hk.and (holds_sessionOwner (L := []) (k := c.sessionId) (o := ownerId)) ⟨y, hy, ho⟩
      refine Logic.wp_bind.mpr (wp_lockOwner hk (by decide) rfl fun L w user _ gone hk => ?_)
      have orphan : user = none → Orphaned i A := fun hn => by
        obtain ⟨w₀, h, hA, hrow⟩ := gone hn
        obtain ⟨y, hy, rfl⟩ := h.2
        exact ⟨w₀, y, hA, by rw [w₀.db.sessions.row_key _ _ hy]; exact hy, hrow⟩
      refine wp_lockSession hk (by decide) rfl (fun w hk => ?_) fun w x pre hid hlast hk => ?_
      · exact refreshError_raise hreq rfl hk (by decide) fun _ h _ => Or.inr (.missing h.2)
      · refine wp_rotateSession hreq hd hid.symm (by decide) hk hlast orphan fun w h => ⟨?_, h.2, fun hm => ?_⟩
        · have howner := h.1.1.2
          rw [← hid] at howner
          rw [owner_eq h.2.row howner]
          exact h.1.2
        · rw [hid]
          exact hmfa w h.1.1.1.1 hm

theorem run_refresh {raw csrf : Option String} {ctx : AuditContext} (hreq : req i = .refresh raw csrf ctx)
    (hw : w.tr = []) : (contract A req).Run i (handle env (req i)) [] id w := by
  rw [hreq]
  refine run_transaction ?_
  have unlocked : ∀ {w : World (store env) ι} {F : World (store env) ι → Prop} {e : IdentityError},
      Knows A req i Kind.all [] id w {} F → (contract A req).Ends i (.error e) [] w := by
    intro w F e hk w' hw'
    have hp := hk.fresh.rely hw'
    change Finishes w' i A (req i) _
    rw [hreq]
    cases raw with
    | none => exact hp.uncommitted
    | some raw =>
      exact ⟨hp.noneOf _ (by decide), Or.inr ⟨hp.uncommitted, Or.inr (.unlocked (hp.noneOf _ (by decide)))⟩⟩
  change (contract A req).wp i (refreshRoute env raw csrf ctx) [] id w _ _
  unfold refreshRoute
  split
  · exact unlocked (Knows.start w hw)
  · exact unlocked (Knows.start w hw)
  · rename_i raw _
    refine Logic.wp_bind.mpr (wp_now (Knows.start w hw) fun w now hk => ?_)
    refine Logic.wp_bind.mpr (Logic.wp_catchAll.mpr ?_)
    cases hd : decodeRefreshToken env raw now with
    | error e => exact unlocked hk
    | ok c =>
      refine Logic.wp_bind.mpr (wp_checkCsrf (fun _ => unlocked hk) ?_)
      refine Logic.wp_bind.mpr (Logic.wp_bind.mpr (wp_query hk (fun _ => rfl) (fun _ _ => rfl) rfl
        (fun _ _ => trivial) fun _ _ w r _ _ _ hk => ?_))
      refine Logic.wp_ret.mpr (Logic.wp_bind.mpr (Logic.wp_catchAll.mpr (wp_refreshSession (s := c.sessionId) hreq hk
        (fun at_ c' hd' => by rw [decodeRefreshToken_unique hd' hd]) fun w h hm => ?_)))
      obtain ⟨v, rfl⟩ := Option.isSome_iff_exists.mp hm
      exact ⟨v, h.2⟩

/-! ## Login -/

/-- The audit row of a new session. -/
def AuditContext.loggedIn (ctx : AuditContext) (x : Session) : AuditLog :=
  ctx.log x.userId "user.logged_in" "Session" (some x.id)

/-- The session and the tokens of a login, under the lock of the account. -/
theorem wp_openSession {user : User} {mfaCompleted : Bool} {ua : Option String} {ctx : AuditContext}
    {Q : LoginResult → List RowLock → (Db → Db) → World (store env) ι → Prop}
    {R : IdentityError → List RowLock → (Db → Db) → World (store env) ι → Prop}
    (hk : Knows A req i N L f w ch F) (hI : .insertSession ∈ N) (hM : .mint ∈ N) (hs : ch.sessions = .keep)
    (hl : ∀ w, F w → LockedUser w i user) (can : user.canAuthenticate = true)
    (ho : ∀ w, F w → OpensFor w i user (req i)) (hreq : ∀ raw csrf ctx, req i ≠ .refresh raw csrf ctx)
    (hR : ∀ e N L f w ch F', (∀ w, F' w → F w) → Knows A req i N L f w ch F' → R e L f w)
    (next : ∀ N L' f' w x (res : LoginResult) (G : World (store env) ι → Prop), res.sessionId = x.id →
      x.userId = user.id → Handed env x res.refreshToken →
      Knows A req i N L' f' w { ch with sessions := .new x, audits := ch.audits ++ [ctx.loggedIn x] }
        (fun w => F w ∧ Opened w i user x ∧ G w) → Q res L' f' w) :
    (contract A req).wp i (openSession env user mfaCompleted ua ctx) L f w Q R := by
  refine Logic.wp_bind.mpr (wp_now hk fun w now hk => ?_)
  refine Logic.wp_bind.mpr (wp_query hk (fun _ => rfl) (fun _ _ => rfl) rfl (fun _ _ => trivial)
    fun _ _ w sid _ _ _ hk => ?_)
  refine Logic.wp_bind.mpr (wp_insertSession hk hI hs (fun w h => ?_)
    (fun w hk => hR _ _ _ _ _ _ _ (fun _ h => h.1.1) hk) fun L f w G _ hk => ?_)
  · exact ⟨user, (hl w h.1.1).did, rfl, can, ho w h.1.1⟩
  refine Logic.wp_ret.mpr (Logic.wp_bind.mpr (wp_audit hk
    (fun _ _ _ _ hk => hR _ _ _ _ _ _ _ (fun _ h => h.1.1.1) hk) fun L f w _ hk => ?_))
  refine Logic.wp_bind.mpr (wp_mint hk (List.mem_filter.mpr ⟨hM, rfl⟩) (fun w h => ?_) fun w token hk => ?_)
  · exact Or.inr ⟨user, (hl w h.1.1.1).did, rfl, rfl, mintsFor_new hreq ⟨_, rfl, rfl, h.2.1⟩⟩
  · refine next _ _ _ _ (openedSession env sid user.id now ctx.ipHash ua) _ (fun w => Did w i .now now ∧
      Did w i .uuid4 sid ∧ G w ∧ Did w i _ token) rfl rfl ⟨⟨now, rfl⟩, rfl⟩
      ⟨hk.holds.imp (fun w h => ?_) fun w h => ?_, ?_, fun w h => ?_, hk.fresh⟩
    · have hu := h.1.1.1.1
      exact ⟨hu, ⟨hl w hu, can, h.1.2.1, ⟨now, ctx.ipHash, ua, rfl⟩⟩, h.1.1.1.2, h.1.1.2, h.1.2.2, h.2⟩
    · exact ⟨⟨⟨⟨h.1, h.2.2.1⟩, h.2.2.2.1⟩, h.2.1.did, h.2.2.2.2.1⟩, h.2.2.2.2.2⟩
    · have h := hk.now
      have hu := h.1.1.1.1
      exact ⟨hu, ⟨hl w hu, can, h.1.2.1, ⟨now, ctx.ipHash, ua, rfl⟩⟩, h.1.1.1.2, h.1.1.2, h.1.2.2, h.2⟩
    · exact hk.rel w ⟨⟨⟨⟨h.1, h.2.2.1⟩, h.2.2.2.1⟩, h.2.1.did, h.2.2.2.2.1⟩, h.2.2.2.2.2⟩

theorem wp_completeMfaLogin {userId : Uuid} {epoch : ℕ} {ua : Option String} {ctx : AuditContext}
    {Q : LoginResult → List RowLock → (Db → Db) → World (store env) ι → Prop}
    {R : IdentityError → List RowLock → (Db → Db) → World (store env) ι → Prop}
    (hk : Knows A req i N L f w ch F) (hU : .lockUser ∈ N) (hI : .insertSession ∈ N) (hM : .mint ∈ N)
    (hu : ch.users = .keep) (hs : ch.sessions = .keep)
    (ho : ∀ w u, F w → u.id = userId → u.authEpoch = epoch → OpensFor w i u (req i))
    (hreq : ∀ raw csrf ctx, req i ≠ .refresh raw csrf ctx)
    (hR : ∀ e N L f w ch F', (∀ w, F' w → F w) → Knows A req i N L f w ch F' → R e L f w)
    (next : ∀ N L' f' w u x (res : LoginResult) (G : World (store env) ι → Prop), u.id = userId →
      res.sessionId = x.id → x.userId = u.id → Handed env x res.refreshToken →
      Knows A req i N L' f' w { ch with sessions := .new x, audits := ch.audits ++ [ctx.loggedIn x] }
        (fun w => F w ∧ Opened w i u x ∧ G w) → Q res L' f' w) :
    (contract A req).wp i (completeMfaLogin env userId epoch ua ctx) L f w Q R := by
  refine wp_lockUser hk hU hu (fun _ _ _ _ _ hk => hR _ _ _ _ _ _ _ (fun _ h => h.1) hk) fun w u hid hk => ?_
  change (contract A req).wp i (if !u.canAuthenticate then _ else _) _ f w Q R
  split
  · exact hR _ _ _ _ _ _ _ (fun _ h => h.1) hk
  · rename_i can
    change (contract A req).wp i (if epoch ≠ u.authEpoch then _ else _) _ f w Q R
    split
    · exact hR _ _ _ _ _ _ _ (fun _ h => h.1) hk
    · rename_i hepoch
      have hepoch : u.authEpoch = epoch := by simpa [eq_comm] using hepoch
      refine wp_openSession hk (List.mem_filter.mpr ⟨hI, rfl⟩) (List.mem_filter.mpr ⟨hM, rfl⟩) hs
        (fun w h => h.2) (by simpa using can) (fun w h => ho w u h.1 hid hepoch) hreq
        (fun _ _ _ _ _ _ _ hF hk => hR _ _ _ _ _ _ _ (fun w h => (hF w h).1) hk)
        fun N L f w x res G hres hxu ht hk => next N L f w u x res (fun w => LockedUser w i u ∧ G w) hid hres hxu ht
          ⟨hk.holds.imp (fun w h => ⟨h.1.1, h.2.1, h.1.2, h.2.2⟩) fun w h => ⟨⟨h.1, h.2.2.1⟩, h.2.1, h.2.2.2⟩,
            ⟨hk.now.1.1, hk.now.2.1, hk.now.1.2, hk.now.2.2⟩,
            fun w h => hk.rel w ⟨⟨h.1, h.2.2.1⟩, h.2.1, h.2.2.2⟩, hk.fresh⟩

theorem run_completeMfaLogin {userId : Uuid} {epoch : ℕ} {ua : Option String} {ctx : AuditContext}
    (hreq : req i = .completeMfaLogin userId epoch ua ctx) (hw : w.tr = []) :
    (contract A req).Run i (handle env (req i)) [] id w := by
  have plain : ∀ (w : World (store env) ι) e, Finishes w i A (req i) (.error e) := fun w e => by rw [hreq]; trivial
  have run : (contract A req).wp i (route env (req i)) [] id w
      (fun a L f w => CommitsWith A req i (fun w => Promised w i (req i) a) L f w) fun _ _ _ _ => True := by
    rw [hreq]
    refine Logic.wp_bind.mpr (wp_completeMfaLogin (Knows.start w hw) (by decide) (by decide) (by decide) rfl rfl
      (fun w u _ hid he => ?_) (by rw [hreq]; exact nofun) (fun _ _ _ _ _ _ _ _ _ => trivial)
      fun N L f w u x res G _ _ _ ht hk => ⟨_, _, _, hk, fun w h _ => ?_, fun w h => ⟨_, rfl, x, h.2.1.did, ht⟩⟩)
    · rw [hreq]
      exact ⟨hid.symm, he.symm⟩
    · rw [hreq]
      exact .completed h.2.1
  exact run_transaction (Logic.wp_mono run (fun _ _ _ _ h => h) fun e _ _ _ _ w' _ => plain w' e)

theorem wp_throttleCheck {email : String} {ip : Option String}
    {Q : Unit → List RowLock → (Db → Db) → World (store env) ι → Prop}
    {R : IdentityError → List RowLock → (Db → Db) → World (store env) ι → Prop}
    (hk : Knows A req i N L f w ch F) (hR : ∀ e L f w, R e L f w)
    (next : ∀ w, Knows A req i N L f w ch F → Q () L f w) :
    (contract A req).wp i (LoginThrottle.check env email ip) L f w Q R := by
  refine Logic.wp_bind.mpr (wp_query hk (fun _ => rfl) (fun _ _ => rfl) rfl (fun _ _ => trivial)
    fun _ _ w' raw _ _ _ hk' => ?_)
  have hk := hk.forget hk'
  dsimp only
  split
  · exact hR _ _ _ _
  · split
    · exact next w' hk
    · exact wp_query hk (fun _ => rfl) (fun _ _ => rfl) rfl (fun _ _ => trivial)
        fun _ _ w _ _ _ _ hk' => next w (hk.forget hk')

/-- A rejected password counts as a failed attempt. -/
theorem wp_recordFailure {email : String} {ip : Option String} {α : Type} {e : IdentityError}
    {Q : α → List RowLock → (Db → Db) → World (store env) ι → Prop}
    {R : IdentityError → List RowLock → (Db → Db) → World (store env) ι → Prop}
    (hk : Knows A req i N L f w ch F) (hR : ∀ e L f w, R e L f w) :
    (contract A req).wp i (do LoginThrottle.recordFailure env email ip; raise e) L f w Q R := by
  refine wp_read hk (fun _ => rfl) (fun _ _ => rfl) rfl (fun _ _ => trivial) fun w _ _ _ _ _ _ hk' => ?_
  exact wp_read (hk.forget hk') (fun _ => rfl) (fun _ _ => rfl) rfl (fun _ _ => trivial)
    fun w _ _ _ _ _ _ _ => hR _ _ _ _

theorem wp_challengeRequired {user : User} {Q : Bool → List RowLock → (Db → Db) → World (store env) ι → Prop}
    {R : IdentityError → List RowLock → (Db → Db) → World (store env) ι → Prop}
    (hk : Knows A req i N L f w ch F) (next : ∀ w b, Knows A req i N L f w ch F → Q b L f w) :
    (contract A req).wp i (AdminMfaGate.challengeRequired user) L f w Q R := by
  unfold AdminMfaGate.challengeRequired
  split
  · exact next w _ hk
  · exact wp_read hk (fun _ => rfl) (fun _ _ => rfl) rfl (fun _ _ => trivial)
      fun w _ r _ _ _ _ hk' => next _ _ (hk.forget hk')

/-- What `login` leaves: a session to commit, or a challenge to issue under the lock of the account. -/
def LoggedIn (A : World (store env) ι → Event (store env) ι → Prop) (req : ι → Request) (i : ι)
    (r : LoginResult ⊕ MfaChallengeRequired) (L : List RowLock) (f : Db → Db) (w : World (store env) ι) : Prop :=
  match r with
  | .inl res => CommitsWith A req i (fun w => HandsOut w i res.refreshToken) L f w
  | .inr c => ∃ N F u a, .insertSession ∈ N ∧ Knows A req i N L f w { audits := a } F ∧
      (∀ w, F w → LockedUser w i u ∧ OpensFor w i u (req i)) ∧ c = ⟨u.id, u.authEpoch⟩

theorem wp_login {email password : String} {ip ua : Option String} {ctx : AuditContext}
    {R : IdentityError → List RowLock → (Db → Db) → World (store env) ι → Prop}
    (hreq : req i = .login email password ip ua ctx) (hk : Knows A req i Kind.all [] id w {} F)
    (hR : ∀ e L f w, R e L f w) :
    (contract A req).wp i (login env email password ip ua ctx) [] id w (LoggedIn A req i) R := by
  refine Logic.wp_bind.mpr (wp_throttleCheck hk hR fun w hk => ?_)
  refine wp_readUser hk (by decide) rfl fun w r hk => ?_
  cases r with
  | none => exact wp_recordFailure hk hR
  | some u₀ =>
    change (contract A req).wp i (if !env.verifyPassword password u₀.passwordHash then _ else _) _ _ _ _ _
    split
    · exact wp_recordFailure hk hR
    · split
      · exact hR _ _ _ _
      · refine wp_read hk (fun _ => rfl) (fun _ _ => rfl) rfl (fun _ _ => trivial) fun w _ _ _ _ _ _ hk => ?_
        refine wp_lockUser hk (by decide) rfl (fun _ _ _ _ _ _ => hR _ _ _ _) fun w u hid hk => ?_
        change (contract A req).wp i (if !u.canAuthenticate then _ else _) _ _ _ _ _
        split
        · exact hR _ _ _ _
        · rename_i can
          split
          · exact hR _ _ _ _
          · rename_i hhash
            have opens : ∀ {w : World (store env) ι}, Did w i (.selectUserByEmail email) (some u₀) →
                OpensFor w i u (req i) := fun hd => by
              rw [hreq]
              exact ⟨u₀, hd, hid.symm, by simpa [eq_comm] using hhash⟩
            refine Logic.wp_bind.mpr (wp_challengeRequired hk fun w b hk => ?_)
            split
            · refine Logic.wp_bind.mpr (wp_audit hk (fun _ _ _ _ _ => hR _ _ _ _) fun L f w _ hk => ?_)
              exact ⟨_, _, u, _, by decide, hk, fun w h => ⟨h.2, opens h.1.1.2⟩, rfl⟩
            · refine Logic.wp_bind.mpr (wp_openSession hk (by decide) (by decide) rfl (fun w h => h.2)
                (by simpa using can) (fun w h => opens h.1.1.2) (by rw [hreq]; simp)
                (fun _ _ _ _ _ _ _ _ _ => hR _ _ _ _) fun N L f w x res G _ _ ht hk => ?_)
              exact ⟨_, _, _, hk, fun w h _ => by rw [hreq]; exact .loggedIn h.2.1, fun w h => ⟨x, h.2.1.did, ht⟩⟩

theorem run_login {email password : String} {ip ua : Option String} {ctx : AuditContext}
    (hreq : req i = .login email password ip ua ctx) (hw : w.tr = []) :
    (contract A req).Run i (handle env (req i)) [] id w := by
  have plain : ∀ (w : World (store env) ι) e, Finishes w i A (req i) (.error e) := fun w e => by rw [hreq]; trivial
  have run : (contract A req).wp i (route env (req i)) [] id w
      (fun a L f w => CommitsWith A req i (fun w => Promised w i (req i) a) L f w) fun _ _ _ _ => True := by
    rw [hreq]
    refine Logic.wp_bind.mpr (Logic.wp_catchAll.mpr (Logic.wp_mono
      (wp_login hreq (Knows.start w hw) fun _ _ _ _ => trivial) (fun r L f w h => ?_) fun _ _ _ _ h => h))
    cases r with
    | inl res =>
      obtain ⟨N, ch, F, hk, ha, hp⟩ := h
      exact ⟨N, ch, F, hk, ha, fun w h => hp w h⟩
    | inr c =>
      obtain ⟨N, F, u, a, hN, hk, hl, rfl⟩ := h
      refine Logic.wp_bind.mpr (Logic.wp_bind.mpr (wp_query hk (fun _ => rfl) (fun _ _ => rfl) rfl
        (fun _ _ => trivial) fun _ _ w cid _ _ _ hk => ?_))
      refine Logic.wp_bind.mpr (wp_query hk (fun _ => rfl) (fun _ _ => rfl) rfl
        (fun w h => ⟨u, (hl w h.1).1.did, rfl, rfl, (hl w h.1).2⟩) fun _ _ w _ _ _ _ hk => ?_)
      exact ⟨_, _, _, hk, fun w h hp => by rw [hreq]; exact .loginChallenge (hp.noneOf _ hN), fun w _ => trivial⟩
  exact run_transaction (Logic.wp_mono run (fun _ _ _ _ h => h) fun e _ _ _ _ w' _ => plain w' e)

end Bekaa3D.Identity
