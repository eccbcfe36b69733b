import Bekaa3D.Identity.Play
import Bekaa3D.Txn.Moments

/-!
# Identity.Evidence — what refreshes and second-factor checks leave behind

`POST /auth/refresh` and `POST /auth/mfa/verify` roll back when they fail, except for the evidence of an attack.

* `Persists`: the one commit of a transaction makes this change.
* `RefreshLeaves`, `VerifyLeaves`: what is committed, case by case, and which answer goes with it.
* `persisted_evidence`: every answered request left exactly this.
-/

namespace Bekaa3D.Identity

open Txn

variable {env : Env} {ι : Type} [DecidableEq ι] {A : World (store env) ι → Event (store env) ι → Prop}
  {req : ι → Request} {db db' : Db} {mem : Mem} {i : ι} {w : World (store env) ι} {r : Request} {ch : Change}
  {s s' : Sys (store env) ι}

/-! ## Owners of sessions -/

/-- Every session belongs to an account. -/
def Owned (db : Db) : Prop := ∀ k x, db.sessions.row k = some x → ∃ u, db.users.row x.userId = some u

/-- A session whose row is new was opened by the transaction that committed it. -/
theorem Allowed.newSession (ha : Allowed A w i r ch) (hrel : ch.Rel w.db db') {k : Uuid} {x : Session}
    (h0 : w.db.sessions.row k = none) (h1 : db'.sessions.row k = some x) : ∃ u, Opened w i u x := by
  have hr := hrel.sessions
  have keep : ch.sessions = .keep → ∃ u, Opened w i u x := fun h => by
    rw [h] at hr
    rw [hr k, h0] at h1
    cases h1
  have set : ∀ {y y' : Session}, ch.sessions = .set y y' → ∃ u, Opened w i u x := fun {y y'} h => by
    rw [h] at hr
    by_cases hk : k = y.id
    · rw [hk, hr.1] at h0
      cases h0
    · rw [hr.2.2 k hk, h0] at h1
      cases h1
  have map : ∀ {g : Session → Session}, ch.sessions = .map g → ∃ u, Opened w i u x := fun {g} h => by
    rw [h] at hr
    rw [hr k, h0] at h1
    cases h1
  have new : ∀ {u : User} {y : Session}, ch.sessions = .new y → Opened w i u y → ∃ u, Opened w i u x :=
    fun {u y} h ho => by
      rw [h] at hr
      by_cases hk : k = y.id
      · rw [hk, hr.2.1] at h1
        obtain rfl := Option.some.inj h1
        exact ⟨u, ho⟩
      · rw [hr.2.2 k hk, h0] at h1
        cases h1
  cases ha with
  | loggedIn open_ => exact new rfl open_
  | completed open_ => exact new rfl open_
  | verifiedTotp lock enabled decrypted read matched isNew open_ => exact new rfl open_
  | verifiedRecovery lock enabled redeemed owner hash unused open_ => exact new rfl open_
  | refreshed | reuse | ownerRevoked | loggedOut => exact set rfl
  | reset | userDeactivated => exact map rfl
  | _ => exact keep rfl

/-- **A commit** leaves every session its account. -/
theorem Allowed.owned (ha : Allowed A w i r ch) (hrel : ch.Rel w.db db') (ho : Owned w.db) : Owned db' := by
  intro k x hx
  have hg := hrel.grows ha.grows
  cases h0 : w.db.sessions.row k with
  | some x₀ =>
    obtain ⟨x', hx', huser, -⟩ := hg.sessions k x₀ h0
    rw [hx] at hx'
    obtain rfl := Option.some.inj hx'
    obtain ⟨u, hu⟩ := ho k x₀ h0
    rw [huser]
    exact hg.users _ u hu
  | none =>
    obtain ⟨u, hop⟩ := ha.newSession hrel h0 hx
    obtain ⟨now, ip, ua, hnew⟩ := hop.new
    rw [hnew]
    exact hg.users _ u hop.lock.row

/-- **In every reachable state** every session has its account. -/
theorem owned (ho : Owned db) (hr : Reach A (system env db mem req) s) : Owned s.world.db :=
  invariant_from (J := Owned) .refl (fun _ hJ _ ha hrel => ha.owned hrel hJ) ho hr

/-- … which its runs may assume. -/
theorem assume_owned (ho : Owned db) (hr : Reach A (system env db mem req) s) :
    Reach (fun w e => A w e ∧ Owned w.db) (system env db mem req) s :=
  hr.assume (J := fun w => Owned w.db) fun _ h => owned ho h

/-! ## What an answer left -/

/-- The transaction has committed once, and its commit made the change `ch`. -/
structure Persists (A : World (store env) ι → Event (store env) ι → Prop) (s₀ s : Sys (store env) ι) (i : ι)
    (ch : Change) : Prop where
  stores : ∃ db db', Stores A s₀ s i db db' ∧ ch.Rel db db'
  once : (commits s.world.tr).count i = 1

/-- Transaction `i` reads the session `x` at the time `now`, for the token `raw` of its version `v`. -/
structure Presents (w : World (store env) ι) (i : ι) (raw : String) (x : Session) (v : ℤ) (now : Instant) : Prop where
  presented : ∃ at_, decodeRefreshToken env raw at_ = .ok ⟨x.id, v⟩
  read : ReadAfter w i (.selectSessionForUpdate x.id) (some x) now

/-- What a refresh with the cookie `raw` has committed when it has answered. -/
inductive RefreshLeaves (A : World (store env) ι → Event (store env) ι → Prop) (s₀ s : Sys (store env) ι) (i : ι)
    (ctx : AuditContext) : Option String → Except IdentityError Answer → Prop
  /-- One rotation of the session. -/
  | rotation {raw x v now cookies} (presents : Presents s.world i raw x v now)
      (auth : x.authorizeRotation (env.hashToken raw) v now = .ok ())
      (persists : Persists A s₀ s i { sessions := .set x (rotatedSession env x now) })
      (minted : ∃ claims, Did s.world i (.issueAccessToken claims now) cookies.accessToken)
      (handed : Handed env (rotatedSession env x now) cookies.refreshToken) :
      RefreshLeaves A s₀ s i ctx (some raw) (.ok (.cookiesSet cookies))
  /-- The end of a session whose token was replayed, on record. -/
  | reuse {raw x v now e} (presents : Presents s.world i raw x v now)
      (auth : x.authorizeRotation (env.hashToken raw) v now = .error (.refreshTokenReuse x.id))
      (persists : Persists A s₀ s i
        { sessions := .set x (x.markReuseDetected now)
          audits := [ctx.log x.userId "session.reuse_detected" "Session" (some x.id)] }) :
      RefreshLeaves A s₀ s i ctx (some raw) (.error e)
  /-- The end of a session whose owner may no longer authenticate. -/
  | ownerRevoked {raw x v now owner e} (presents : Presents s.world i raw x v now)
      (auth : x.authorizeRotation (env.hashToken raw) v now = .ok ())
      (read : Did s.world i (.selectUserForUpdate x.userId) owner) (cannot : owner.any User.canAuthenticate = false)
      (persists : Persists A s₀ s i { sessions := .set x (x.revoke now) }) :
      RefreshLeaves A s₀ s i ctx (some raw) (.error e)
  | nothing {raw e} (not : ¬Committed s.world i) (cause : Unrotated s.world i raw) :
      RefreshLeaves A s₀ s i ctx (some raw) (.error e)
  | noToken {e} (not : ¬Committed s.world i) : RefreshLeaves A s₀ s i ctx none (.error e)

/-- The session `x` is new, and `token` is its refresh token. -/
structure NewSession (env : Env) (u : User) (x : Session) (token : String) : Prop where
  new : ∃ now ip ua, x = openedSession env x.id u.id now ip ua
  handed : Handed env x token

/-- What a second-factor check has committed when it has answered. -/
inductive VerifyLeaves (A : World (store env) ι → Event (store env) ι → Prop) (s₀ s : Sys (store env) ι) (i : ι)
    (ctx : AuditContext) : Option String → Option String → Except IdentityError Answer → Prop
  /-- A spent TOTP, a new session and their audit rows. -/
  | totp {code u x c secret step now cookies} (enabled : c.isEnabled = true)
      (decrypted : env.decryptSecret c.secretCiphertext = some secret) (read : ReadAt s.world i u.id c now)
      (matched : verifyCodeStep env secret code now = some step) (new : c.isTotpStepReplayed step = false)
      (session : NewSession env u x cookies.refreshToken)
      (persists : Persists A s₀ s i
        { credentials := .set c (c.recordTotpStep step now), sessions := .new x
          audits := [ctx.log u.id "mfa.verified" "MfaCredential" (some c.id),
            ctx.log u.id "user.logged_in" "Session" (some x.id)] }) :
      VerifyLeaves A s₀ s i ctx (some code) none (.ok (.cookiesSet cookies))
  /-- A spent recovery code, a new session and their audit rows. -/
  | recovery {code recovery u x c k now n cookies} (enabled : c.isEnabled = true)
      (owner : k.mfaCredentialId = c.id) (hash : k.codeHash = env.hashToken (env.normalizeCode recovery))
      (unused : k.usedAt = none) (session : NewSession env u x cookies.refreshToken)
      (persists : Persists A s₀ s i
        { credentials := .set c (c.markUsed now), codes := .set k (k.usedAtIs (some now)), sessions := .new x
          audits := [ctx.log u.id "mfa.recovery_code_used" "MfaCredential" (some c.id) none
              (some [("remaining_recovery_codes", .int n)]),
            ctx.log u.id "user.logged_in" "Session" (some x.id)] }) :
      VerifyLeaves A s₀ s i ctx code (some recovery) (.ok (.cookiesSet cookies))
  /-- The record of a replayed TOTP. -/
  | replay {code recovery userId c step now e} (enabled : c.isEnabled = true) (read : ReadAt s.world i userId c now)
      (spent : spentStep env c code recovery now = some step)
      (persists : Persists A s₀ s i
        { audits := [ctx.log userId "mfa.replay_rejected" "MfaCredential" (some c.id) none
            (some [("time_step", .int step)])] }) :
      VerifyLeaves A s₀ s i ctx code recovery (.error e)
  | nothing {code recovery e} (not : ¬Committed s.world i) (cause : Unreplayed s.world i code recovery) :
      VerifyLeaves A s₀ s i ctx code recovery (.error e)

/-! ## Facts of a transaction that has answered -/

theorem readAfter_own {w' : World (store env) ι} {o : Op} {r : Resp o} {now : Instant}
    (hown : ∃ ext, w'.own i = w.own i ++ ext) (h : ReadAfter w i o r now) : ReadAfter w' i o r now := by
  obtain ⟨ext, hext⟩ := hown
  obtain ⟨pre, post, h⟩ := h
  exact ⟨pre, post ++ ext, by rw [hext, h]; simp⟩

theorem readAt_own {w' : World (store env) ι} {userId : Uuid} {c : MfaCredential} {now : Instant}
    (hown : ∃ ext, w'.own i = w.own i ++ ext) (h : ReadAt w i userId c now) : ReadAt w' i userId c now :=
  readAfter_own (o := .selectCredentialByUserForUpdate userId) (r := some c) hown h

/-- What a transaction did and did not do when it answered, it has done and not done since. -/
structure Same (w w' : World (store env) ι) (i : ι) : Prop where
  own : ∃ a, w'.own i = w.own i ++ [⟨i, .done a⟩]

namespace Same

variable {w' : World (store env) ι}

theorem did (h : Same w w' i) {o : Op} {r : Resp o} : Did w' i o r ↔ Did w i o r := by
  obtain ⟨a, ha⟩ := h.own
  have own : ∀ {w : World (store env) ι}, Did w i o r ↔ ⟨i, .stmt o r⟩ ∈ w.own i := by
    intro w
    rw [World.mem_own]
    exact ⟨fun h => ⟨h, rfl⟩, fun h => h.1⟩
  rw [own, own, ha, List.mem_append, List.mem_singleton]
  refine ⟨fun h => h.resolve_right fun h => ?_, Or.inl⟩
  cases h

theorem committed (h : Same w w' i) : Committed w' i ↔ Committed w i := by
  obtain ⟨a, ha⟩ := h.own
  have own : ∀ {w : World (store env) ι}, Committed w i ↔ ⟨i, .commit⟩ ∈ w.own i := by
    intro w
    rw [World.mem_own]
    exact ⟨fun h => ⟨h, rfl⟩, fun h => h.1⟩
  rw [own, own, ha, List.mem_append, List.mem_singleton]
  refine ⟨fun h => h.resolve_right fun h => ?_, Or.inl⟩
  cases h

theorem noneOf (h : Same w w' i) {k : Kind} (hn : NoneOf w i k) : NoneOf w' i k :=
  fun o r hk hd => hn o r hk (h.did.mp hd)

theorem ext (h : Same w w' i) : ∃ ext, w'.own i = w.own i ++ ext := by
  obtain ⟨a, ha⟩ := h.own
  exact ⟨_, ha⟩

theorem unrotated (h : Same w w' i) {raw : String} (hu : Unrotated w i raw) : Unrotated w' i raw := by
  cases hu with
  | unlocked noneOf => exact .unlocked (h.noneOf noneOf)
  | missing did => exact .missing (h.did.mpr did)
  | refused presented read auth ne => exact .refused presented (readAfter_own h.ext read) auth ne

theorem unreplayed (h : Same w w' i) {code recovery : Option String} (hu : Unreplayed w i code recovery) :
    Unreplayed w' i code recovery := by
  cases hu with
  | unlocked noneOf => exact .unlocked (h.noneOf noneOf)
  | missing did => exact .missing (h.did.mpr did)
  | disabled did disabled => exact .disabled (h.did.mpr did) disabled
  | other read unspent => exact .other (readAt_own h.ext read) unspent

end Same

/-- **What an answer guarantees**, of a request that has answered. -/
theorem finished (hr : Reach A (system env db mem req) s) {a : Except IdentityError Answer}
    (ha : ⟨i, .done a⟩ ∈ s.world.tr) :
    ∃ w, (∀ e ∈ w.tr, e ∈ s.world.tr) ∧ Same w s.world i ∧ Finishes w i A (req i) a := by
  obtain ⟨s₁, -, h₁, hf, hown⟩ := Logic.answered (Φ := contract A req) (fun _ => runs rfl) hr ha
  exact ⟨s₁.world, fun e he => h₁.mem_tr he, ⟨a, hown⟩, hf⟩

/-- The commit of transaction `i` on the way from `s` to `s'`: the step from `s₁` to `s₂`. -/
structure CommitOf (A : World (store env) ι → Event (store env) ι → Prop) (req : ι → Request)
    (s s' s₁ s₂ : Sys (store env) ι) (i : ι) (ch : Change) : Prop where
  before : Reach A s s₁
  step : Step A s₁ s₂
  after : Reach A s₂ s'
  tr : s₂.world.tr = s₁.world.tr ++ [⟨i, .commit⟩]
  allowed : Allowed A s₁.world i (req i) ch
  rel : ch.Rel s₁.world.db s₂.world.db
  /-- Nothing was done after it. -/
  last : ∀ o r, Did s'.world i o r → Did s₁.world i o r

/-- A commit step of a run. -/
theorem commitOf_step {s₁ s₂ : Sys (store env) ι} (hr : Reach A (system env db mem req) s) (h₁ : Reach A s s₁)
    (hstep : Step A s₁ s₂) (h₂ : Reach A s₂ s') (htr : s₂.world.tr = s₁.world.tr ++ [⟨i, .commit⟩]) :
    ∃ ch, CommitOf A req s s' s₁ s₂ i ch := by
  obtain ⟨-, ch, ha, hrel⟩ := commit_step (hr.trans h₁) hstep htr
  refine ⟨ch, h₁, hstep, h₂, htr, ha, hrel, fun o r hd => ?_⟩
  obtain ⟨ext, hext⟩ := h₂.history
  rw [htr] at hext
  unfold Did at hd
  rw [hext, List.mem_append, List.mem_append, List.mem_singleton] at hd
  rcases hd with (hd | hd) | hd
  · exact hd
  · cases hd
  · -- the statement would follow the commit
    obtain ⟨pre, post, rfl⟩ := List.append_of_mem hd
    have hb : Before ⟨i, .commit⟩ ⟨i, .stmt o r⟩ s'.world.tr :=
      ⟨s₁.world.tr ++ [⟨i, .commit⟩] ++ pre, post, by rw [hext]; simp only [List.append_assoc], by simp⟩
    exact absurd hb (told (hr.trans (h₁.trans (.head hstep h₂)))).last

/-- The commit of a transaction that commits on the way from `s` to `s'`. -/
theorem exists_commitOf (hr : Reach A (system env db mem req) s) (h : Reach A s s') (hc : Committed s'.world i)
    (hu : ¬Committed s.world i) : ∃ s₁ s₂ ch, CommitOf A req s s' s₁ s₂ i ch := by
  obtain ⟨s₁, s₂, h₁, hstep, h₂, htr⟩ := event_step h hc hu
  obtain ⟨ch, h⟩ := commitOf_step hr h₁ hstep h₂ htr
  exact ⟨s₁, s₂, ch, h⟩

namespace CommitOf

variable {s₁ s₂ : Sys (store env) ι} (h : CommitOf A req s s' s₁ s₂ i ch)

include h

theorem reach : Reach A s₁ s' := (Relation.ReflTransGen.single h.step).trans h.after

theorem history : ∀ e ∈ s₁.world.tr, e ∈ s'.world.tr := fun _ he => h.reach.mem_tr he

theorem own : ∃ ext, s'.world.own i = s₁.world.own i ++ ext := h.reach.own i

theorem persists (hr : Reach A (system env db mem req) s) : Persists A s s' i ch := by
  have hs : Stores A s s' i s₁.world.db s₂.world.db := ⟨s₁, s₂, h.before, h.step, h.after, h.tr, rfl, rfl⟩
  refine ⟨⟨_, _, hs, h.rel⟩, List.count_eq_one_of_mem ?_ (mem_commits.mpr hs.committed)⟩
  exact Logic.nodup_commits (Φ := contract A req) (fun _ => runs rfl) once (hr.trans (h.before.trans h.reach))

end CommitOf

/-- The commit of a request that has committed. -/
theorem persisted (hr : Reach A (system env db mem req) s) (hc : Committed s.world i) :
    ∃ s₁ s₂ ch, CommitOf A req (system env db mem req) s s₁ s₂ i ch ∧ Persists A (system env db mem req) s i ch := by
  obtain ⟨s₁, s₂, ch, h⟩ := exists_commitOf .refl hr hc List.not_mem_nil
  exact ⟨s₁, s₂, ch, h, h.persists .refl⟩

omit [DecidableEq ι] in
theorem LockedOwner.did {userId : Uuid} {owner : Option User} (h : LockedOwner w i userId owner) :
    Did w i (.selectUserForUpdate userId) owner := by
  cases owner with
  | none => exact h
  | some u =>
    obtain ⟨hl, rfl⟩ := h
    exact hl.did

/-! ## Refreshes -/

theorem refresh_leaves (ho : Owned db) (hr : Reach A (system env db mem req) s) {raw csrf : Option String}
    {ctx : AuditContext} (hreq : req i = .refresh raw csrf ctx) {a : Except IdentityError Answer}
    (ha : ⟨i, .done a⟩ ∈ s.world.tr) : RefreshLeaves A (system env db mem req) s i ctx raw a := by
  obtain ⟨w, hw, hsame, hf⟩ := finished (assume_owned ho hr) ha
  have ht := told hr
  rw [hreq] at hf
  cases a with
  | ok ans =>
    obtain ⟨hc, hp⟩ := hf
    obtain ⟨cookies, x, claims, now, rfl, hl, hm, hh⟩ := hp.mono hw
    obtain ⟨s₁, s₂, ch, hcm, hper⟩ := persisted hr (hsame.committed.mpr hc)
    have hal := hcm.allowed
    rw [hreq] at hal
    have minted : ¬NoneOf s₁.world i .mint := fun hn => hn _ _ rfl (hcm.last _ _ hm)
    cases hal with
    | @refreshed raw csrf ctx u y at_ now' v presented lock owner lockS read auth can mint =>
      obtain ⟨-, he⟩ := ht.lockSession hl (lockS.did.mono hcm.history)
      obtain ⟨claims', token, hd⟩ := mint
      have hmint := ht.once (k := .mint) rfl rfl hm (hd.mono hcm.history)
      cases he
      cases hmint
      exact .rotation ⟨⟨at_, presented⟩, readAfter_own hcm.own read⟩ auth hper ⟨claims, hm⟩ hh
    | reuse presented lockS read auth noneOf => exact absurd noneOf minted
    | ownerRevoked presented lockO cannot lockS read auth noneOf => exact absurd noneOf minted
  | error e =>
    cases raw with
    | none => exact .noToken (hsame.committed.not.mpr hf)
    | some raw =>
      obtain ⟨hmint, hc | ⟨hn, ⟨w₀, x, ⟨-, hown⟩, hx, hu⟩ | hun⟩⟩ := hf
      · obtain ⟨s₁, s₂, ch, hcm, hper⟩ := persisted hr (hsame.committed.mpr hc)
        have hal := hcm.allowed
        rw [hreq] at hal
        cases hal with
        | refreshed presented lock owner lockS read auth can mint =>
          obtain ⟨claims, token, hd⟩ := mint
          exact absurd (hd.mono hcm.history) (hsame.noneOf hmint _ _ rfl)
        | @reuse raw csrf ctx x at_ now v presented lockS read auth noneOf =>
          exact .reuse ⟨⟨at_, presented⟩, readAfter_own hcm.own read⟩ auth hper
        | @ownerRevoked raw csrf ctx owner x at_ now v presented lockO cannot lockS read auth noneOf =>
          exact .ownerRevoked ⟨⟨at_, presented⟩, readAfter_own hcm.own read⟩ auth (lockO.did.mono hcm.history) cannot
            hper
      · obtain ⟨u, hu'⟩ := hown _ x hx
        rw [hu] at hu'
        cases hu'
      · exact .nothing (hsame.committed.not.mpr hn) (hsame.unrotated hun)

/-! ## Second factors -/

theorem verify_leaves (hr : Reach A (system env db mem req) s) {challengeId : String}
    {code recovery ua : Option String} {ctx : AuditContext} (hreq : req i = .verifyMfa challengeId code recovery ua ctx)
    {a : Except IdentityError Answer} (ha : ⟨i, .done a⟩ ∈ s.world.tr) :
    VerifyLeaves A (system env db mem req) s i ctx code recovery a := by
  obtain ⟨w, hw, hsame, hf⟩ := finished hr ha
  have ht := told hr
  rw [hreq] at hf
  cases a with
  | ok ans =>
    obtain ⟨hc, hp⟩ := hf
    obtain ⟨cookies, rfl, y, hins, hh⟩ := hp.mono hw
    obtain ⟨s₁, s₂, ch, hcm, hper⟩ := persisted hr (hsame.committed.mpr hc)
    have hal := hcm.allowed
    rw [hreq] at hal
    have session : ∀ {u x}, Opened s₁.world i u x → NewSession env u x cookies.refreshToken := fun {u x} hop => by
      obtain ⟨rfl, -⟩ := ht.insertSession hins (hop.did.mono hcm.history)
      exact ⟨hop.new, hh⟩
    cases hal with
    | replayed lock enabled read spent noneOf =>
      obtain ⟨u, hu, -⟩ := ht.chk hins
      exact absurd (hcm.last _ _ hu) (noneOf _ _ rfl)
    | verifiedTotp lock enabled decrypted read matched isNew open_ =>
      exact .totp enabled decrypted (readAt_own hcm.own read) matched isNew (session open_) hper
    | verifiedRecovery lock enabled redeemed owner hash unused open_ =>
      exact .recovery enabled owner hash unused (session open_) hper
  | error e =>
    rcases hf with ⟨hc, hnone⟩ | ⟨hn, hun⟩
    · obtain ⟨s₁, s₂, ch, hcm, hper⟩ := persisted hr (hsame.committed.mpr hc)
      have hal := hcm.allowed
      rw [hreq] at hal
      have opened : ∀ {u x}, ¬Opened s₁.world i u x := fun hop =>
        hsame.noneOf hnone _ _ rfl (hop.lock.did.mono hcm.history)
      cases hal with
      | replayed lock enabled read spent noneOf => exact .replay enabled (readAt_own hcm.own read) spent hper
      | verifiedTotp lock enabled decrypted read matched isNew open_ => exact absurd open_ opened
      | verifiedRecovery lock enabled redeemed owner hash unused open_ => exact absurd open_ opened
    · exact .nothing (hsame.committed.not.mpr hn) (hsame.unreplayed hun)

/-- **Failures persist exactly their evidence**: whatever else runs, a refresh or a second-factor check that has
answered has committed what `RefreshLeaves` or `VerifyLeaves` says. -/
theorem persisted_evidence (ho : Owned db) (hr : Reach A (system env db mem req) s) {a : Except IdentityError Answer}
    (ha : ⟨i, .done a⟩ ∈ s.world.tr) :
    (∀ raw csrf ctx, req i = .refresh raw csrf ctx → RefreshLeaves A (system env db mem req) s i ctx raw a) ∧
    ∀ challengeId code recovery ua ctx, req i = .verifyMfa challengeId code recovery ua ctx →
      VerifyLeaves A (system env db mem req) s i ctx code recovery a :=
  ⟨fun _ _ _ hreq => refresh_leaves ho hr hreq ha, fun _ _ _ _ _ hreq => verify_leaves hr hreq ha⟩

/-- A session of the account, in its first version. -/
def sampleSession : Session where
  id := 3
  userId := 1
  refreshTokenHash := "|||.|"
  tokenVersion := 1
  expiresAt := 100
  lastUsedAt := none
  rotatedAt := none
  revokedAt := none
  reuseDetectedAt := none
  ipHash := none
  userAgent := none

def refreshDb : Db := { sampleDb with sessions := Table.empty.insert sampleSession }

theorem refreshDb_sessions {k : Uuid} {x : Session} (h : refreshDb.sessions.row k = some x) : x = sampleSession := by
  by_cases hk : k = sampleSession.id
  · subst hk
    exact (Option.some.inj h).symm
  · have h0 : refreshDb.sessions.row k = none := Table.row_insert_ne hk
    rw [h0] at h
    cases h

theorem owned_refreshDb : Owned refreshDb := fun k x hx => by
  rw [refreshDb_sessions hx]
  exact ⟨sampleUser, by decide⟩

def refreshTwice : Fin 2 → Request := fun _ => .refresh (some "|||.|") (some "csrf") {}

/-- An answer, or a refusal. -/
def answered (ok : Bool) : Act (store env) → Bool
  | .done (.ok _) => ok
  | .done (.error _) => !ok
  | _ => false

omit [DecidableEq ι] in
theorem of_answered {a : Act (store env)} {ok : Bool} (h : answered ok a = true) :
    ∃ x : Except IdentityError Answer, a = .done x ∧ x.isOk = ok := by
  unfold answered at h
  split at h
  · exact ⟨_, rfl, h.symm⟩
  · have h0 : ok = false := by simpa using h
    exact ⟨_, rfl, h0.symm⟩
  · cases h

/-- Two refreshes with one token, one after the other: the first rotates the session, the second ends it. -/
theorem evidence_of_replay : ∃ s, Reach Any (system sampleEnv refreshDb sampleMem refreshTwice) s ∧
    (∃ a, RefreshLeaves Any (system sampleEnv refreshDb sampleMem refreshTwice) s 0 {} (some "|||.|") (.ok a)) ∧
    Committed s.world 1 ∧
      ∃ e, RefreshLeaves Any (system sampleEnv refreshDb sampleMem refreshTwice) s 1 {} (some "|||.|") (.error e) := by
  obtain ⟨s, hr, hs⟩ := play_any (player sampleEnv) (fun _ _ => true) (A := Any) (fun _ => trivial)
    (system sampleEnv refreshDb sampleMem refreshTwice)
    (List.replicate 12 (.go 0 { n := 5 }) ++ List.replicate 12 (.go 1 { n := 6 }))
    (fun s => s.world.sees 0 (answered true) && s.world.sees 1 (answered false) && s.world.sees 1 Act.isCommit)
    (by decide +kernel)
  rw [Bool.and_eq_true, Bool.and_eq_true] at hs
  obtain ⟨⟨h0, h1⟩, hc⟩ := hs
  obtain ⟨a, ha, h0⟩ := World.of_sees h0
  obtain ⟨b, hb, h1⟩ := World.of_sees h1
  obtain ⟨c, hc, h2⟩ := World.of_sees hc
  obtain ⟨x, rfl, hx⟩ := of_answered h0
  obtain ⟨y, rfl, hy⟩ := of_answered h1
  rw [Act.eq_commit h2] at hc
  have l0 := (persisted_evidence owned_refreshDb hr ha).1 _ _ _ rfl
  have l1 := (persisted_evidence owned_refreshDb hr hb).1 _ _ _ rfl
  cases x with
  | error e => cases hx
  | ok a =>
    cases y with
    | ok b => cases hy
    | error e => exact ⟨s, hr, ⟨a, l0⟩, hc, e, l1⟩

end Bekaa3D.Identity
