import Bekaa3D.Identity.Changes

/-!
# Identity.Contract — what a request guarantees while others run

`contract A req` is the logic of a system in which transaction `i` handles the request `req i`: what is known
at the statements that matter (`Chk`), that each commit makes an `Allowed` change, and what an answer says
about the commits before it (`Finishes`).  The modules after this one prove it of every route.

* `Holds` lemmas: what a transaction knows while it holds a row.
* `Knows`: the state of a transaction half-way, as the change it is about to commit and the facts it relies on.
* `Fresh`: what it has not done yet.
-/

namespace Bekaa3D.Identity

open Txn

variable {env : Env} {ι : Type}

/-! ## What has not happened -/

/-- Transaction `i` has not committed, and has run no statement of the kinds `N`. -/
structure Fresh (N : List Kind) (w : World (store env) ι) (i : ι) : Prop where
  uncommitted : ¬Committed w i
  noneOf : ∀ k ∈ N, NoneOf w i k

section Fresh

variable {N : List Kind} {w : World (store env) ι} {i : ι}

/-- A statement without a kind. -/
theorem Fresh.stmt (h : Fresh N w i) {o : Op} {r : Resp o} (ho : o.kind = none) : Fresh N (w.stmt i o r) i :=
  ⟨fun hc => h.uncommitted (committed_stmt.mp hc), fun k hk => noneOf_stmt (h.noneOf k hk) (by rw [ho]; nofun)⟩

/-- A statement of a kind: its kind is spent. -/
theorem Fresh.spend (h : Fresh N w i) {o : Op} {r : Resp o} {k : Kind} (ho : o.kind = some k) :
    Fresh (N.filter (· ≠ k)) (w.stmt i o r) i := by
  refine ⟨fun hc => h.uncommitted (committed_stmt.mp hc), fun k' hk' => ?_⟩
  rw [List.mem_filter] at hk'
  refine noneOf_stmt (h.noneOf k' hk'.1) ?_
  rw [ho]
  intro heq
  simp [Option.some.inj heq] at hk'

end Fresh

variable [DecidableEq ι]

/-! ## What is known at a statement and at the end -/

section Chk

variable (w : World (store env) ι) (i : ι)

/-- The account that a new session belongs to, and what it was checked against. -/
def OpensFor (u : User) : Request → Prop
  | .login email _ _ _ _ => ∃ u₀, Did w i (.selectUserByEmail email) (some u₀) ∧ u₀.id = u.id ∧
      u₀.passwordHash = u.passwordHash
  | .completeMfaLogin userId epoch _ _ => userId = u.id ∧ epoch = u.authEpoch
  | .verifyMfa challengeId _ _ _ _ =>
      Did w i (.redisGet (.mfaChallenge challengeId)) (some (.challenge u.id u.authEpoch))
  | _ => False

/-- What an access token is minted from. -/
def MintsFor (c : AccessTokenClaims) (u : User) : Request → Prop
  | .refresh _ _ _ => c.mfaCompleted = true → ∃ v, Did w i (.redisGet (.mfaCompleted c.sessionId)) (some v)
  | _ => ∃ x : Session, x.id = c.sessionId ∧ x.userId = u.id ∧ Did w i (.insertSession x) true

/-- Where the completion flag of a session comes from. -/
def CompletesFor (sessionId : Uuid) : Request → Prop
  | .confirmMfaSetup claims _ _ _ => claims.sessionId = sessionId ∧ ∃ c : MfaCredential,
      Did w i (.selectCredentialByUserForUpdate claims.userId) (some c)
  | .verifyMfa _ _ _ _ _ => ∃ (x : Session) (c : MfaCredential), x.id = sessionId ∧ Did w i (.insertSession x) true ∧
      Did w i (.selectCredentialByUserForUpdate x.userId) (some c) ∧ c.isEnabled = true
  | _ => False

def Chk (req : Request) (f : Db → Db) : Op → Prop
  | .selectUserByEmail _ => ∀ k, (f w.db).users.row k = w.db.users.row k
  | .selectUserForUpdate _ => ∀ k, (f w.db).users.row k = w.db.users.row k
  | .selectSessionForUpdate _ => ∀ k, (f w.db).sessions.row k = w.db.sessions.row k
  | .scanLiveSessions u => (∃ v, v.id = u ∧ Did w i (.selectUserForUpdate v.id) (some v)) ∧
      ∀ k, (f w.db).sessions.row k = w.db.sessions.row k
  | .hashPassword _ => ∃ u v, Did w i (.selectUserForUpdate u) (some v)
  | .insertSession x => ∃ u, Did w i (.selectUserForUpdate u.id) (some u) ∧ u.id = x.userId ∧
      u.canAuthenticate = true ∧ OpensFor w i u req
  | .issueAccessToken c _ => (∃ claims csrf code ctx, req = .confirmMfaSetup claims csrf code ctx) ∨
      ∃ u, Did w i (.selectUserForUpdate u.id) (some u) ∧ u.id = c.userId ∧ u.authEpoch = c.authEpoch ∧
        MintsFor w i c u req
  | .redisSet (.mfaChallenge _) (.challenge userId epoch) _ =>
      ∃ u, Did w i (.selectUserForUpdate u.id) (some u) ∧ u.id = userId ∧ u.authEpoch = epoch ∧ OpensFor w i u req
  | .redisSet (.mfaCompleted sessionId) _ _ => CompletesFor w i sessionId req
  | .selectCredentialByUserForUpdate _ => ∀ challengeId code recovery ua ctx,
      req = .verifyMfa challengeId code recovery ua ctx →
        (∃ v, Did w i (.redisGet (.mfaChallenge challengeId)) (some v)) ∧
          Did w i (.redisDelete (.mfaChallenge challengeId)) ()
  | .selectUnusedCodeForUpdate _ _ => ∃ challengeId code recovery ua ctx,
      req = .verifyMfa challengeId code (some recovery) ua ctx
  | _ => True

/-- `token` is a refresh token of the session `x` in its current version, and `x` holds its hash. -/
def Handed (env : Env) (x : Session) (token : String) : Prop :=
  (∃ t, token = issueRefreshToken env x.id x.tokenVersion x.expiresAt t) ∧ x.refreshTokenHash = env.hashToken token

/-- `token` belongs to the session that transaction `i` opened. -/
def HandsOut (token : String) : Prop := ∃ x, Did w i (.insertSession x) true ∧ Handed env x token

/-- What a successful answer says about what its transaction did. -/
def Promised : Request → Answer → Prop
  | .login _ _ _ _ _, .loggedIn _ cookies => HandsOut w i cookies.refreshToken
  | .completeMfaLogin _ _ _ _, a => ∃ cookies, a = .cookiesSet cookies ∧ HandsOut w i cookies.refreshToken
  | .verifyMfa _ _ _ _ _, a => ∃ cookies, a = .cookiesSet cookies ∧ HandsOut w i cookies.refreshToken
  | .refresh _ _ _, a => ∃ cookies x claims now, a = .cookiesSet cookies ∧
      Did w i (.selectSessionForUpdate x.id) (some x) ∧
      Did w i (.issueAccessToken claims now) cookies.accessToken ∧
      Handed env (rotatedSession env x now) cookies.refreshToken
  | _, _ => True

/-- Why a refresh leaves a session as it is: there is none, or the token presented may not rotate it and is no
replay. -/
inductive Unrotated (raw : String) : Prop
  | unlocked (noneOf : NoneOf w i .lockSession)
  | missing {s : Uuid} (did : Did w i (.selectSessionForUpdate s) none)
  | refused {x : Session} {at_ now : Instant} {v : ℤ} {e : IdentityError}
      (presented : decodeRefreshToken env raw at_ = .ok ⟨x.id, v⟩)
      (read : ReadAfter w i (.selectSessionForUpdate x.id) (some x) now)
      (auth : x.authorizeRotation (env.hashToken raw) v now = .error e) (ne : e ≠ .refreshTokenReuse x.id)

/-- Transaction `i` met a session whose account is gone. -/
def Orphaned (A : World (store env) ι → Event (store env) ι → Prop) : Prop :=
  ∃ (w₀ : World (store env) ι) (x : Session), A w₀ ⟨i, .stmt (.selectUserForUpdate x.userId) none⟩ ∧
    w₀.db.sessions.row x.id = some x ∧ w₀.db.users.row x.userId = none

/-- Why a verification finds no spent TOTP: there is no enabled credential, or the factor presented is another. -/
inductive Unreplayed (code recovery : Option String) : Prop
  | unlocked (noneOf : NoneOf w i .lockCredential)
  | missing {userId : Uuid} (did : Did w i (.selectCredentialByUserForUpdate userId) none)
  | disabled {userId : Uuid} {c : MfaCredential} (did : Did w i (.selectCredentialByUserForUpdate userId) (some c))
      (disabled : c.isEnabled = false)
  | other {userId : Uuid} {c : MfaCredential} {now : Instant} (read : ReadAt w i userId c now)
      (unspent : spentStep env c code recovery now = none)

/-- What an answer says about the commits before it. -/
def Finishes (A : World (store env) ι → Event (store env) ι → Prop) : Request → Except IdentityError Answer → Prop
  | r, .ok a => Committed w i ∧ Promised w i r a
  | .refresh none _ _, .error _ => ¬Committed w i
  | .refresh (some raw) _ _, .error _ =>
      NoneOf w i .mint ∧ (Committed w i ∨ ¬Committed w i ∧ (Orphaned i A ∨ Unrotated w i raw))
  | .verifyMfa _ code recovery _ _, .error _ =>
      Committed w i ∧ NoneOf w i .lockUser ∨ ¬Committed w i ∧ Unreplayed w i code recovery
  | _, .error _ => True

end Chk

omit [DecidableEq ι] in
theorem HandsOut.mono {w w' : World (store env) ι} {i : ι} {token : String} (h : HandsOut w i token)
    (hw : ∀ e ∈ w.tr, e ∈ w'.tr) : HandsOut w' i token := by
  obtain ⟨x, hd, hx⟩ := h
  exact ⟨x, hd.mono hw, hx⟩

omit [DecidableEq ι] in
/-- What was promised is still true. -/
theorem Promised.mono {w w' : World (store env) ι} {i : ι} {r : Request} {a : Answer} (h : Promised w i r a)
    (hw : ∀ e ∈ w.tr, e ∈ w'.tr) : Promised w' i r a := by
  cases r with
  | login email password ip ua ctx =>
    cases a with
    | loggedIn read cookies => exact HandsOut.mono h hw
    | _ => trivial
  | completeMfaLogin userId epoch ua ctx =>
    obtain ⟨cookies, ha, h⟩ := h
    exact ⟨cookies, ha, h.mono hw⟩
  | verifyMfa challengeId code recovery ua ctx =>
    obtain ⟨cookies, ha, h⟩ := h
    exact ⟨cookies, ha, h.mono hw⟩
  | refresh raw csrf ctx =>
    obtain ⟨cookies, x, claims, now, ha, hl, hm, h⟩ := h
    exact ⟨cookies, x, claims, now, ha, hl.mono hw, hm.mono hw, h⟩
  | _ => trivial

/-- The guarantees of a system of requests, in runs whose events satisfy `A`.  A request commits once and does
nothing after it; statements that have a kind run once. -/
@[reducible] def contract (A : World (store env) ι → Event (store env) ι → Prop) (req : ι → Request) :
    Logic (store env) ι where
  A := A
  Gr := Grows
  gr_refl := Grows.refl
  gr_trans := Grows.trans
  Chk w i _ f o := ¬Committed w i ∧ (∀ k, o.kind = some k → NoneOf w i k) ∧ Chk w i (req i) f o
  Cmt w i f := ¬Committed w i ∧ ∃ ch, Allowed A w i (req i) ch ∧ ch.Rel w.db (f w.db)
  Fin w i a := Finishes w i A (req i) a

/-! ## What stays known -/

section Holds

variable {A : World (store env) ι → Event (store env) ι → Prop} {req : ι → Request} {i : ι} {L : List RowLock}

theorem holds_did (o : Op) (r : Resp o) : (contract A req).Holds i L fun w => Did w i o r := Logic.Holds.mem _

theorem holds_lockedUser {u : User} (h : ⟨.user u.id, .update⟩ ∈ L) :
    (contract A req).Holds i L fun w => LockedUser w i u := by
  refine ⟨fun hw hu => ⟨hw.mem_tr hu.did, ?_⟩, fun o r hu => ⟨World.mem_stmt hu.did, hu.row⟩⟩
  rw [(hw.prot _ h nofun).1, hu.row]

theorem holds_lockedSession {x : Session} (h : ⟨.session x.id, .update⟩ ∈ L) :
    (contract A req).Holds i L fun w => LockedSession w i x := by
  refine ⟨fun hw hx => ⟨hw.mem_tr hx.did, ?_⟩, fun o r hx => ⟨World.mem_stmt hx.did, hx.row⟩⟩
  rw [hw.prot _ h nofun, hx.row]

theorem holds_lockedToken {hash : String} {t : PasswordResetToken} (h : ⟨.passwordResetToken t.id, .update⟩ ∈ L) :
    (contract A req).Holds i L fun w => LockedToken w i hash t := by
  refine ⟨fun hw ht => ⟨hw.mem_tr ht.did, ?_, ht.hash⟩, fun o r ht => ⟨World.mem_stmt ht.did, ht.row, ht.hash⟩⟩
  rw [hw.prot _ h nofun, ht.row]

theorem holds_lockedCredential {userId : Uuid} {c : MfaCredential} (h : ⟨.mfaCredential c.id, .update⟩ ∈ L) :
    (contract A req).Holds i L fun w => LockedCredential w i userId c := by
  refine ⟨fun hw hc => ⟨hw.mem_tr hc.did, ?_, hc.owner⟩, fun o r hc => ⟨World.mem_stmt hc.did, hc.row, hc.owner⟩⟩
  rw [(hw.prot _ h nofun).1, hc.row]

end Holds

/-! ## A transaction half-way -/

section Knows

variable (A : World (store env) ι → Event (store env) ι → Prop) (req : ι → Request) (i : ι)

/-- Transaction `i` holds `L`, and its pending writes `f` make the change `ch`, given the facts `F`. -/
structure Knows (N : List Kind) (L : List RowLock) (f : Db → Db) (w : World (store env) ι) (ch : Change)
    (F : World (store env) ι → Prop) : Prop where
  holds : (contract A req).Holds i L F
  now : F w
  rel : ∀ w, F w → ch.Rel w.db (f w.db)
  fresh : Fresh N w i

end Knows

section Steps

variable {A : World (store env) ι → Event (store env) ι → Prop} {req : ι → Request} {i : ι} {N N' : List Kind}
  {L : List RowLock} {f : Db → Db} {w w' : World (store env) ι} {ch : Change} {F G : World (store env) ι → Prop}
  {α : Type}

theorem Change.Rel.refl (db : Db) : ({} : Change).Rel db db :=
  ⟨fun _ => rfl, fun _ => rfl, fun _ => rfl, fun _ => rfl, fun _ => rfl, by simp, by simp, fun _ => rfl⟩

theorem Knows.start (w : World (store env) ι) (h : w.tr = []) : Knows A req i Kind.all [] id w {} fun _ => True := by
  refine ⟨.of_true, trivial, fun w _ => .refl w.db, ?_, fun k _ o r _ hd => ?_⟩
  · unfold Committed; rw [h]; exact List.not_mem_nil
  · unfold Did at hd; rw [h] at hd; cases hd

theorem noneOf_rely {k : Kind} (hw : (contract A req).Rely i L w w') (h : NoneOf w i k) : NoneOf w' i k :=
  fun o r hk hd => h o r hk (hw.did.mp hd)

theorem Fresh.rely (h : Fresh N w i) (hw : (contract A req).Rely i L w w') : Fresh N w' i :=
  ⟨fun hc => h.uncommitted (hw.committed.mp hc), fun k hk => noneOf_rely hw (h.noneOf k hk)⟩

/-- One statement of a transaction half-way. -/
theorem wp_step {o : Op} {k : Resp o → Handler α}
    {Q : α → List RowLock → (Db → Db) → World (store env) ι → Prop}
    {R : IdentityError → List RowLock → (Db → Db) → World (store env) ι → Prop} (hk : Knows A req i N L f w ch F)
    (hN : ∀ k, o.kind = some k → k ∈ N) (hc : ∀ w, F w → Chk w i (req i) f o)
    (next : ∀ w free r, F w → ch.Rel w.db (f w.db) → Fresh N w i → resp env o (f w.db) w.mem free r →
      A w ⟨i, .stmt o r⟩ →
      (contract A req).wp i (k r) (need o r ++ L) (write o r ∘ f) (w.stmt i o r) Q R) :
    (contract A req).wp i (.call o k) L f w Q R := by
  intro w' hw
  have hF := hk.holds.rely hw hk.now
  have hp := hk.fresh.rely hw
  exact ⟨⟨hp.uncommitted, fun k ho => hp.noneOf k (hN k ho), hc w' hF⟩,
    fun free r hr hA => next w' free r hF (hk.rel w' hF) hp hr hA⟩

/-- After a statement that makes the change `ch'` of what is pending, with the fact `G` gained. -/
theorem Knows.next {o : Op} {r : Resp o} {ch' : Change} (hk : Knows A req i N L f w ch F) (hF : F w')
    (hp : Fresh N' (w'.stmt i o r) i) (hG : (contract A req).Holds i (need o r ++ L) G) (hGw : G (w'.stmt i o r))
    (hrel : ∀ w, F w → G w → ch.Rel w.db (f w.db) → ch'.Rel w.db (write o r (f w.db))) :
    Knows A req i N' (need o r ++ L) (write o r ∘ f) (w'.stmt i o r) ch' fun w => F w ∧ G w :=
  ⟨(hk.holds.need o r).and hG, ⟨hk.holds.own o r hF, hGw⟩, fun w h => hrel w h.1 h.2 (hk.rel w h.1), hp⟩

theorem Knows.forget {L₀ : List RowLock} {f₀ : Db → Db} (hk : Knows A req i N L₀ f₀ w ch F)
    (hk' : Knows A req i N' L₀ f₀ w' ch fun w => F w ∧ G w) : Knows A req i N' L₀ f₀ w' ch F :=
  ⟨hk.holds, hk'.now.1, hk.rel, hk'.fresh⟩

/-- One more fact. -/
theorem Knows.and (hk : Knows A req i N L f w ch F) (hG : (contract A req).Holds i L G) (hGw : G w) :
    Knows A req i N L f w ch fun w => F w ∧ G w :=
  ⟨hk.holds.and hG, ⟨hk.now, hGw⟩, fun w h => hk.rel w h.1, hk.fresh⟩

/-- The same pending writes, seen as another change. -/
theorem Knows.change {ch' : Change} (hk : Knows A req i N L f w ch F)
    (h : ∀ w, F w → ch.Rel w.db (f w.db) → ch'.Rel w.db (f w.db)) : Knows A req i N L f w ch' F :=
  ⟨hk.holds, hk.now, fun w hF => h w hF (hk.rel w hF), hk.fresh⟩

/-- A statement that locks and writes nothing. -/
theorem wp_read {o : Op} {k : Resp o → Handler α}
    {Q : α → List RowLock → (Db → Db) → World (store env) ι → Prop}
    {R : IdentityError → List RowLock → (Db → Db) → World (store env) ι → Prop} (hk : Knows A req i N L f w ch F)
    (hn : ∀ r, need o r = []) (hw : ∀ r db, write o r db = db) (ho : o.kind = none)
    (hc : ∀ w, F w → Chk w i (req i) f o)
    (next : ∀ w free r, F w → ch.Rel w.db (f w.db) → resp env o (f w.db) w.mem free r → A w ⟨i, .stmt o r⟩ →
      Knows A req i N L f (w.stmt i o r) ch (fun w => F w ∧ Did w i o r) →
      (contract A req).wp i (k r) L f (w.stmt i o r) Q R) :
    (contract A req).wp i (.call o k) L f w Q R := by
  refine wp_step hk (fun k hk => by rw [ho] at hk; cases hk) hc fun w free r hF hrel hp hr hA => ?_
  have hf : write o r ∘ f = f := funext fun db => hw r (f db)
  have hL : need o r ++ L = L := by rw [hn]; rfl
  have hk' := hk.next hF (hp.stmt ho) (r := r) (holds_did o r) did_self
    fun w _ _ h => by rw [hw]; exact h
  rw [hf, hL] at hk' ⊢
  exact next w free r hF hrel hr hA hk'

/-- The commit of a transaction. -/
theorem wp_commit {k : Handler α} {Q : α → List RowLock → (Db → Db) → World (store env) ι → Prop}
    {R : IdentityError → List RowLock → (Db → Db) → World (store env) ι → Prop} (hk : Knows A req i N L f w ch F)
    (ha : ∀ w, F w → Fresh N w i → Allowed A w i (req i) ch)
    (next : ∀ w, F w → Fresh N w i → (contract A req).wp i k [] id (w.commit i f) Q R) :
    (contract A req).wp i (.commit k) L f w Q R := by
  intro w' hw
  have hF := hk.holds.rely hw hk.now
  have hp := hk.fresh.rely hw
  exact ⟨⟨hp.uncommitted, ch, ha w' hF hp, hk.rel w' hF⟩, (hk.rel w' hF).grows (ha w' hF hp).grows,
    next w' hF hp⟩

end Steps

end Bekaa3D.Identity
