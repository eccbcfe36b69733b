import Bekaa3D.Identity.Evidence

/-!
# Identity.Rotation — refresh tokens rotate, and a replayed one ends its session

Refreshes, logins, logouts, resets and everything else, in any interleaving.

* `Rotates`: a refresh that hands out new tokens for the session that it read.
* `Versions`: the invariant.  The version of a session counts its rotations, and it holds the hash of the refresh
  token issued for its version.
* `refresh_rotation`: what holds in every reachable state, and from it on.
-/

namespace Bekaa3D.Identity

open Txn

variable {env : Env} {ι : Type}

/-- Transaction `i` read the session `x` and mints tokens for it. -/
structure Rotates (req : ι → Request) (w : World (store env) ι) (i : ι) (x : Session) : Prop where
  request : ∃ raw csrf ctx, req i = .refresh (some raw) csrf ctx
  read : Did w i (.selectSessionForUpdate x.id) (some x)
  minted : ∃ claims now token, Did w i (.issueAccessToken claims now) token

/-- Transaction `i` rotates the session `k`. -/
def RotatesId (req : ι → Request) (w : World (store env) ι) (k : Uuid) (i : ι) : Prop :=
  ∃ x : Session, x.id = k ∧ Rotates req w i x

/-- The session holds the hash of a refresh token that was issued for its version and ends with it. -/
def Current (env : Env) (x : Session) : Prop :=
  ∃ t, x.refreshTokenHash = env.hashToken (issueRefreshToken env x.id x.tokenVersion x.expiresAt t)

variable [DecidableEq ι] {A : World (store env) ι → Event (store env) ι → Prop} {req : ι → Request} {db db' : Db}
  {mem : Mem} {i j : ι} {k : Uuid} {w w' : World (store env) ι} {ch : Change} {x x' : Session} {s s' : Sys (store env) ι}

/-! ## What one commit does to a session -/

/-- A commit that does not rotate the session keeps these columns. -/
structure SameTokens (x x' : Session) : Prop where
  id : x'.id = x.id
  version : x'.tokenVersion = x.tokenVersion
  hash : x'.refreshTokenHash = x.refreshTokenHash
  expires : x'.expiresAt = x.expiresAt
  revoked : ∀ t, x.revokedAt = some t → x'.revokedAt = some t
  reuse : x.reuseDetectedAt.isSome → x'.reuseDetectedAt.isSome

theorem SameTokens.refl (x : Session) : SameTokens x x := ⟨rfl, rfl, rfl, rfl, fun _ h => h, fun h => h⟩

theorem sameTokens_revoke (x : Session) (at_ : Instant) : SameTokens x (x.revoke at_) := by
  unfold Session.revoke
  split
  · exact .refl x
  · rename_i h
    refine ⟨rfl, rfl, rfl, rfl, fun t ht => ?_, fun h => h⟩
    simp [Session.isRevoked, ht] at h

theorem sameTokens_markReuseDetected (x : Session) (at_ : Instant) : SameTokens x (x.markReuseDetected at_) := by
  have h := sameTokens_revoke ({ x with reuseDetectedAt := some at_ } : Session) at_
  exact ⟨h.id, h.version, h.hash, h.expires, h.revoked, fun _ => h.reuse rfl⟩

theorem sameTokens_revokeLive (u : Uuid) (at_ : Instant) (x : Session) : SameTokens x (revokeLive u at_ x) := by
  unfold revokeLive
  split
  · rename_i h
    refine ⟨rfl, rfl, rfl, rfl, fun t ht => ?_, fun h => h⟩
    simp [Session.liveOf, Session.isRevoked, ht] at h
  · exact .refl x

/-- What the commit of `i` does to the session `k`, whose row it leaves as `x'`. -/
inductive Evolves (req : ι → Request) (w : World (store env) ι) (i : ι) (k : Uuid) (x' : Session) : Prop where
  | same {x : Session} (row : w.db.sessions.row k = some x) (same : SameTokens x x') (not : ¬RotatesId req w k i)
  | rotated {x : Session} {now : Instant} (row : w.db.sessions.row k = some x) (eq : x' = rotatedSession env x now)
      (rotates : Rotates req w i x) (live : x.isRevoked = false)
  | opened (row : w.db.sessions.row k = none) (version : x'.tokenVersion = 1) (current : Current env x')
      (not : ¬RotatesId req w k i)

theorem Allowed.evolves (ha : Allowed A w i (req i) ch) (ht : Told req w) (hrel : ch.Rel w.db db')
    (hk : db'.sessions.row k = some x') : Evolves req w i k x' := by
  have minted : NoneOf w i .mint → ¬RotatesId req w k i := by
    rintro hn ⟨y, -, hy⟩
    obtain ⟨claims, now, token, hd⟩ := hy.minted
    exact hn _ _ rfl hd
  have other : (∀ raw csrf ctx, req i ≠ .refresh (some raw) csrf ctx) → ¬RotatesId req w k i := by
    rintro hn ⟨y, -, hy⟩
    obtain ⟨raw, csrf, ctx, hreq⟩ := hy.request
    exact hn raw csrf ctx hreq
  have keep : ch.sessions = .keep → ¬RotatesId req w k i → Evolves req w i k x' := fun h hn => by
    have hr := hrel.sessions
    rw [h] at hr
    exact .same (by rw [← hr k, hk]) (.refl x') hn
  have set : ∀ {y y' : Session}, ch.sessions = .set y y' → SameTokens y y' → ¬RotatesId req w k i →
      Evolves req w i k x' := fun {y y'} h hs hn => by
    have hr := hrel.sessions
    rw [h] at hr
    by_cases hky : k = y.id
    · subst hky
      rw [hr.2.1] at hk
      cases hk
      exact .same hr.1 hs hn
    · rw [hr.2.2 k hky] at hk
      exact .same hk (.refl x') hn
  have map : ∀ {u : Uuid} {at_ : Instant}, ch.sessions = .map (revokeLive u at_) → ¬RotatesId req w k i →
      Evolves req w i k x' := fun {u at_} h hn => by
    have hr := hrel.sessions
    rw [h] at hr
    rw [hr k] at hk
    obtain ⟨y, hy, rfl⟩ := Option.map_eq_some_iff.mp hk
    exact .same hy (sameTokens_revokeLive u at_ y) hn
  have new : ∀ {u : User} {y : Session}, ch.sessions = .new y → Opened w i u y → ¬RotatesId req w k i →
      Evolves req w i k x' := fun {u y} h ho hn => by
    have hr := hrel.sessions
    rw [h] at hr
    by_cases hky : k = y.id
    · subst hky
      rw [hr.2.1] at hk
      cases hk
      obtain ⟨now, ip, ua, he⟩ := ho.new
      refine .opened hr.1 (by rw [he]; rfl) ⟨now, ?_⟩ hn
      rw [he]
      rfl
    · rw [hr.2.2 k hky] at hk
      exact .same hk (.refl x') hn
  generalize hreq : req i = r at ha
  have shape : (∀ raw csrf ctx, r ≠ .refresh (some raw) csrf ctx) → ¬RotatesId req w k i := by
    rw [← hreq]
    exact other
  cases ha with
  | @refreshed raw csrf ctx u y at_ now v presented lock owner lockS read auth can mint =>
    have hr := hrel.sessions
    by_cases hky : k = y.id
    · subst hky
      rw [hr.2.1] at hk
      cases hk
      obtain ⟨claims, token, hd⟩ := mint
      refine .rotated hr.1 rfl ⟨⟨raw, csrf, ctx, hreq⟩, lockS.did, claims, now, token, hd⟩ ?_
      by_contra hrev
      rw [Bool.not_eq_false] at hrev
      simp only [Session.authorizeRotation, hrev, if_true] at auth
      cases auth
    · rw [hr.2.2 k hky] at hk
      refine .same hk (.refl x') ?_
      rintro ⟨z, rfl, hz⟩
      exact hky (ht.lockSession hz.read lockS.did).1
  | reuse presented lockS read auth noneOf => exact set rfl (sameTokens_markReuseDetected _ _) (minted noneOf)
  | ownerRevoked presented lockO cannot lockS read auth noneOf => exact set rfl (sameTokens_revoke _ _) (minted noneOf)
  | loggedOut lock live => exact set rfl (sameTokens_revoke _ _) (shape fun _ _ _ h => by cases h)
  | loggedIn open_ => exact new rfl open_ (shape fun _ _ _ h => by cases h)
  | completed open_ => exact new rfl open_ (shape fun _ _ _ h => by cases h)
  | verifiedTotp lock enabled decrypted read matched isNew open_ =>
    exact new rfl open_ (shape fun _ _ _ h => by cases h)
  | verifiedRecovery lock enabled redeemed owner hash unused open_ =>
    exact new rfl open_ (shape fun _ _ _ h => by cases h)
  | reset lockT unused lock owner can hashed => exact map rfl (shape fun _ _ _ h => by cases h)
  | userDeactivated lock id active scanned count => exact map rfl (shape fun _ _ _ h => by cases h)
  | _ => exact keep rfl (shape fun _ _ _ h => by cases h)

/-! ## The invariant -/

section Mono

omit [DecidableEq ι]

theorem Rotates.commit {f : Db → Db} : Rotates req (w.commit j f) i x ↔ Rotates req w i x := by
  refine ⟨fun h => ?_, fun h => ?_⟩
  · obtain ⟨claims, now, token, hd⟩ := h.minted
    exact ⟨h.request, did_commit.mp h.read, claims, now, token, did_commit.mp hd⟩
  · obtain ⟨claims, now, token, hd⟩ := h.minted
    exact ⟨h.request, did_commit.mpr h.read, claims, now, token, did_commit.mpr hd⟩

theorem Rotates.quiet (hq : Quiet j w w') (hc : Committed w i) : Rotates req w' i x ↔ Rotates req w i x := by
  refine ⟨fun h => ?_, fun h => ?_⟩
  · obtain ⟨claims, now, token, hd⟩ := h.minted
    exact ⟨h.request, (hq.did hc).mp h.read, claims, now, token, (hq.did hc).mp hd⟩
  · obtain ⟨claims, now, token, hd⟩ := h.minted
    exact ⟨h.request, (hq.did hc).mpr h.read, claims, now, token, (hq.did hc).mpr hd⟩

theorem rotatesId_commit {f : Db → Db} : RotatesId req (w.commit j f) k i ↔ RotatesId req w k i :=
  exists_congr fun _ => and_congr_right fun _ => Rotates.commit

theorem rotatesId_quiet (hq : Quiet j w w') (hc : Committed w i) : RotatesId req w' k i ↔ RotatesId req w k i :=
  exists_congr fun _ => and_congr_right fun _ => Rotates.quiet hq hc

end Mono

/-- How often the session `k` has been rotated. -/
noncomputable def rotations (req : ι → Request) (w : World (store env) ι) (k : Uuid) : ℕ :=
  {c | Committed w c ∧ RotatesId req w k c}.ncard

omit [DecidableEq ι] in
theorem rotations_other (hu : ¬Committed w i) (hn : ¬RotatesId req w k i) {f : Db → Db} :
    rotations req (w.commit i f) k = rotations req w k := by
  unfold rotations
  rw [ncard_commit hu (P := fun c => RotatesId req w k c) fun c => rotatesId_commit, if_neg hn, Nat.add_zero]

omit [DecidableEq ι] in
theorem rotations_rotated (hu : ¬Committed w i) (hr : RotatesId req w k i) {f : Db → Db} :
    rotations req (w.commit i f) k = rotations req w k + 1 := by
  unfold rotations
  rw [ncard_commit hu (P := fun c => RotatesId req w k c) fun c => rotatesId_commit, if_pos hr]

/-- The version of a session when it was opened, or at the start. -/
def Db.firstVersion (db : Db) (k : Uuid) : ℕ := ((db.sessions.row k).map Session.tokenVersion).getD 1

structure Versions (env : Env) (db : Db) (req : ι → Request) (w : World (store env) ι) : Prop where
  counted : ∀ k x, w.db.sessions.row k = some x → x.tokenVersion = db.firstVersion k + rotations req w k
  current : ∀ k x, w.db.sessions.row k = some x → Current env x
  older : ∀ i x, Committed w i → Rotates req w i x →
    ∃ y, w.db.sessions.row x.id = some y ∧ x.tokenVersion < y.tokenVersion
  once : ∀ i j x y, Committed w i → Committed w j → Rotates req w i x → Rotates req w j y → x.id = y.id →
    x.tokenVersion = y.tokenVersion → i = j

omit [DecidableEq ι] in
theorem Versions.quiet (h : Versions env db req w) (hq : Quiet i w w') : Versions env db req w' := by
  refine ⟨fun k x hx => ?_, fun k x hx => ?_, fun j x hj hr => ?_, fun i j x y hi hj hx hy => ?_⟩
  · rw [hq.db] at hx
    unfold rotations
    rw [hq.setOf fun c hc => rotatesId_quiet hq hc]
    exact h.counted k x hx
  · rw [hq.db] at hx
    exact h.current k x hx
  · have hj := hq.committed.mp hj
    rw [hq.db]
    exact h.older j x hj ((Rotates.quiet hq hj).mp hr)
  · have hi := hq.committed.mp hi
    have hj := hq.committed.mp hj
    exact h.once i j x y hi hj ((Rotates.quiet hq hi).mp hx) ((Rotates.quiet hq hj).mp hy)

/-- The session after its rotation is one version further, and still current. -/
theorem current_rotated (x : Session) (now : Instant) : Current env (rotatedSession env x now) := ⟨now, rfl⟩

theorem SameTokens.current (h : SameTokens x x') (hc : Current env x) : Current env x' := by
  obtain ⟨t, ht⟩ := hc
  exact ⟨t, by rw [h.hash, h.id, h.version, h.expires, ht]⟩

/-- **A commit** keeps the invariant. -/
theorem Versions.commit (h : Versions env db req w) (hg : Grows db w.db) (ht : Told req w) {f : Db → Db}
    (hu : ¬Committed w i) (ha : Allowed A w i (req i) ch) (hrel : ch.Rel w.db (f w.db))
    (hgr : Grows w.db (f w.db)) : Versions env db req (w.commit i f) := by
  have evolves : ∀ {k x'}, (f w.db).sessions.row k = some x' → Evolves req w i k x' := fun hk => ha.evolves ht hrel hk
  -- what `i` rotates was there, and is one version further now
  have rotated : ∀ {x}, Rotates req w i x →
      w.db.sessions.row x.id = some x ∧ ∃ now, (f w.db).sessions.row x.id = some (rotatedSession env x now) := by
    intro x hx
    have hrow : ∃ y, w.db.sessions.row x.id = some y ∧ ∃ y', (f w.db).sessions.row x.id = some y' := by
      generalize hreq : req i = r at ha
      obtain ⟨raw, csrf, ctx, hr⟩ := hx.request
      obtain ⟨claims, t, token, hm⟩ := hx.minted
      rw [hreq] at hr
      subst hr
      cases ha with
      | @refreshed _ _ _ u y at_ now v presented lock owner lockS read auth can mint =>
        obtain ⟨hid, he⟩ := ht.lockSession hx.read lockS.did
        cases he
        exact ⟨x, hrel.sessions.1, _, hrel.sessions.2.1⟩
      | reuse presented lockS read auth noneOf => exact absurd hm (noneOf _ _ rfl)
      | ownerRevoked presented lockO cannot lockS read auth noneOf => exact absurd hm (noneOf _ _ rfl)
    obtain ⟨y, hy, y', hy'⟩ := hrow
    cases evolves hy' with
    | same row same not => exact absurd ⟨x, rfl, hx⟩ not
    | opened row version current not => exact absurd ⟨x, rfl, hx⟩ not
    | @rotated z now row eq rotates live =>
      obtain ⟨-, he⟩ := ht.lockSession hx.read rotates.read
      cases he
      exact ⟨row, now, by rw [hy', eq]⟩
  refine ⟨fun k x' hx' => ?_, fun k x' hx' => ?_, fun j x hj hr => ?_, fun j j' x y hj hj' hx hy hid hv => ?_⟩
  · cases evolves hx' with
    | @same x row same not => rw [rotations_other hu not, same.version, h.counted k x row]
    | @rotated x now row eq rotates live =>
      have hk : x.id = k := w.db.sessions.row_key k x row
      rw [rotations_rotated hu ⟨x, hk, rotates⟩, eq, ← Nat.add_assoc, ← h.counted k x row]
      rfl
    | opened row version current not =>
      have h0 : rotations req w k = 0 := by
        refine (Set.ncard_eq_zero (finite_committed w)).mpr (Set.eq_empty_of_forall_notMem ?_)
        rintro c ⟨hc, x, rfl, hx⟩
        obtain ⟨y, hy, -⟩ := h.older c x hc hx
        rw [row] at hy
        cases hy
      have hdb : db.sessions.row k = none := by
        by_contra hne
        obtain ⟨x, hx⟩ := Option.ne_none_iff_exists'.mp hne
        obtain ⟨x', hx', -⟩ := hg.sessions k x hx
        rw [row] at hx'
        cases hx'
      rw [rotations_other hu not, h0, version, Db.firstVersion, hdb]
      rfl
  · cases evolves hx' with
    | @same x row same not => exact same.current (h.current k x row)
    | @rotated x now row eq rotates live =>
      rw [eq]
      exact current_rotated x now
    | opened row version current not => exact current
  · rw [Rotates.commit] at hr
    rcases committed_commit.mp hj with hj | hj
    · obtain ⟨y, hy, hlt⟩ := h.older j x hj hr
      obtain ⟨y', hy', -⟩ := hgr.sessions x.id y hy
      refine ⟨y', hy', ?_⟩
      cases evolves hy' with
      | @same z row same not =>
        rw [hy] at row
        cases row
        rw [same.version]
        exact hlt
      | @rotated z now row eq rotates live =>
        rw [hy] at row
        cases row
        rw [eq]
        exact Nat.lt_succ_of_lt hlt
      | opened row version current not =>
        rw [hy] at row
        cases row
    · subst hj
      obtain ⟨-, now, hrow⟩ := rotated hr
      exact ⟨_, hrow, Nat.lt_succ_self _⟩
  · rw [Rotates.commit] at hx hy
    -- a transaction that has rotated the version before read an older row than the one that `i` reads
    have new : ∀ {j x y}, Committed w j → Rotates req w j x → Rotates req w i y → x.id = y.id →
        x.tokenVersion ≠ y.tokenVersion := by
      intro j x y hj hx hy hid
      obtain ⟨z, hz, hlt⟩ := h.older j x hj hx
      rw [hid, (rotated hy).1] at hz
      cases hz
      exact Nat.ne_of_lt hlt
    rcases committed_commit.mp hj with hc | he
    · rcases committed_commit.mp hj' with hc' | he'
      · exact h.once j j' x y hc hc' hx hy hid hv
      · subst he'
        exact absurd hv (new hc hx hy hid)
    · rcases committed_commit.mp hj' with hc' | he'
      · subst he
        exact absurd hv.symm (new hc' hy hx hid.symm)
      · rw [he, he']

/-- **Every run** keeps the invariant. -/
theorem versions (hdb : ∀ k x, db.sessions.row k = some x → Current env x)
    (hr : Reach A (system env db mem req) s) : Versions env db req s.world := by
  refine invariant_commit (fun hq h => h.quiet hq) (fun hs h _ hn ha hrel hgr => ?_) ?_ hr
  · have hu : ¬Committed _ _ := fun hc => hn ⟨_, hc, rfl, trivial⟩
    exact h.commit (grows .refl hs) (told hs) hu ha hrel hgr
  · have none : ∀ i, ¬Committed (⟨db, mem, []⟩ : World (store env) ι) i := fun i h => List.not_mem_nil h
    refine ⟨fun k x hx => ?_, hdb, fun i x hi _ => absurd hi (none i), fun i j x y hi _ _ _ _ _ => absurd hi (none i)⟩
    have h0 : rotations req (⟨db, mem, []⟩ : World (store env) ι) k = 0 := by
      refine (Set.ncard_eq_zero (finite_committed _)).mpr (Set.eq_empty_of_forall_notMem ?_)
      rintro c ⟨hc, -⟩
      exact none c hc
    have hx : db.sessions.row k = some x := hx
    rw [h0, Db.firstVersion, hx]
    rfl

/-! ## Reads that happen once -/

/-- A statement with a kind comes after no other of its kind. -/
theorem kind_first (hr : Reach A (system env db mem req) s) {o o' : Op} {r : Resp o} {r' : Resp o'} {m : Kind}
    (ho : o.kind = some m) (ho' : o'.kind = some m) : ¬Before ⟨i, .stmt o r⟩ ⟨i, .stmt o' r'⟩ s.world.tr := by
  have quiet : ∀ {w : World (store env) ι} {j : ι} {a : Act (store env)}, (∀ o r, a ≠ .stmt o r) →
      ¬Before ⟨i, .stmt o r⟩ ⟨i, .stmt o' r'⟩ w.tr → ¬Before ⟨i, .stmt o r⟩ ⟨i, .stmt o' r'⟩ (w.tr ++ [⟨j, a⟩]) := by
    intro w j a ha h hb
    rcases before_append.mp hb with hb | ⟨he, -⟩
    · exact h hb
    · cases he
      exact ha _ _ rfl
  refine invariant (J := fun w => ¬Before ⟨i, .stmt o r⟩ ⟨i, .stmt o' r'⟩ w.tr) ?_ not_before_nil hr
  exact {
    stmt := fun {s j L f o₁ r₁} _ hJ _ _ hc _ hb => by
      rcases before_append.mp hb with hb | ⟨he, hm⟩
      · exact hJ hb
      · cases he
        exact hc.2.1 m ho' o r ho hm
    commit := fun _ hJ _ _ _ _ => quiet (fun _ _ h => by cases h) hJ
    done := fun _ hJ _ _ => quiet (fun _ _ h => by cases h) hJ
    crash := fun _ hJ _ => quiet (fun _ _ h => by cases h) hJ }

theorem before_of_own {e e' : Event (store env) ι} {pre post : List (Event (store env) ι)}
    (h : w.own i = pre ++ e :: post) (he : e' ∈ pre) : Before e' e w.tr := by
  obtain ⟨l₁, l₂, htr, h₁, h₂⟩ := List.filter_eq_append_iff.mp h
  obtain ⟨m₁, m₂, rfl, -, -, -⟩ := List.filter_eq_cons_iff.mp h₂
  refine ⟨l₁ ++ m₁, m₂, by rw [htr, List.append_assoc], List.mem_append_left _ ?_⟩
  rw [← h₁] at he
  exact List.mem_of_mem_filter he

theorem readAfter_did {o : Op} {r : Resp o} {now : Instant} (h : ReadAfter w i o r now) : Did w i o r := by
  obtain ⟨pre, post, h⟩ := h
  have hm : ⟨i, .stmt o r⟩ ∈ w.own i := by
    rw [h]
    exact List.mem_append_right _ (List.mem_cons_self ..)
  exact (World.mem_own.mp hm).1

/-- What was read right after a statement with a kind was read once. -/
theorem readAfter_unique (hr : Reach A (system env db mem req) s) {o : Op} {r : Resp o} {m : Kind}
    (ho : o.kind = some m) {now now' : Instant} (h : ReadAfter s.world i o r now) (h' : ReadAfter s.world i o r now') :
    now = now' := by
  obtain ⟨pre, post, h⟩ := h
  obtain ⟨pre', post', h'⟩ := h'
  have first : ∀ {pre post}, s.world.own i = pre ++ ⟨i, .stmt o r⟩ :: post → ⟨i, .stmt o r⟩ ∉ pre := fun h hm =>
    kind_first hr ho ho (before_of_own h hm)
  rcases List.append_eq_append_iff.mp (h.symm.trans h') with ⟨c, rfl, hc⟩ | ⟨c, rfl, hc⟩
  · cases c with
    | nil =>
      cases hc
      rfl
    | cons e c =>
      obtain ⟨rfl, -⟩ := List.cons_eq_cons.mp hc
      exact absurd (List.mem_append_right _ (List.mem_cons_self ..)) (first h')
  · cases c with
    | nil =>
      cases hc
      rfl
    | cons e c =>
      obtain ⟨rfl, -⟩ := List.cons_eq_cons.mp hc
      exact absurd (List.mem_append_right _ (List.mem_cons_self ..)) (first h)

theorem authorizeRotation_ok {hash : String} {v : ℤ} {now : Instant} (h : x.authorizeRotation hash v now = .ok ()) :
    x.isRevoked = false ∧ x.isExpired now = false ∧ v = x.tokenVersion ∧ hash = x.refreshTokenHash := by
  unfold Session.authorizeRotation at h
  by_cases h1 : x.isRevoked = true
  · rw [if_pos h1] at h
    cases h
  · by_cases h2 : x.isExpired now = true
    · rw [if_neg h1, if_pos h2] at h
      cases h
    · rw [if_neg h1, if_neg h2] at h
      by_cases h3 : v = x.tokenVersion
      · subst h3
        by_cases h4 : hash = x.refreshTokenHash
        · exact ⟨by simpa using h1, by simpa using h2, rfl, h4⟩
        · simp [h4] at h
      · by_cases h5 : v < x.tokenVersion
        · simp [h5] at h
        · simp [h3, h5] at h

/-! ## From a state on -/

/-- A refresh that commits later does not rotate a session that is revoked by now. -/
theorem rotates_live (hr : Reach A (system env db mem req) s) (hs : Reach A s s')
    (hx : s.world.db.sessions.row k = some x) (hrev : x.isRevoked = true) (hc : Committed s'.world i)
    (hro : RotatesId req s'.world k i) : Committed s.world i := by
  by_contra hu
  obtain ⟨s₁, s₂, ch, h⟩ := exists_commitOf hr hs hc hu
  obtain ⟨y, hid, hy⟩ := hro
  obtain ⟨claims, now, token, hm⟩ := hy.minted
  have hy₁ : RotatesId req s₁.world k i := ⟨y, hid, hy.request, h.last _ _ hy.read, claims, now, token, h.last _ _ hm⟩
  obtain ⟨t, ht⟩ := Option.isSome_iff_exists.mp hrev
  obtain ⟨x₁, hx₁, -, -, hrev₁⟩ := (grows hr h.before).sessions k x hx
  obtain ⟨x₂, hx₂, -⟩ := (grows (hr.trans h.before) (.single h.step)).sessions k x₁ hx₁
  cases h.allowed.evolves (told (hr.trans h.before)) h.rel hx₂ with
  | same row same not => exact not hy₁
  | rotated row eq rotates live =>
    rw [hx₁] at row
    obtain rfl := Option.some.inj row
    simp [Session.isRevoked, hrev₁ t ht] at live
  | opened row version current not => exact not hy₁

/-- A session on which a replay was detected stays so. -/
def Detected (k : Uuid) (db : Db) : Prop :=
  ∃ x, db.sessions.row k = some x ∧ x.isRevoked = true ∧ x.reuseDetectedAt.isSome = true

theorem detected_stays (hr : Reach A (system env db mem req) s) (hs : Reach A s s') (h : Detected k s.world.db) :
    Detected k s'.world.db := by
  refine invariant_from (J := Detected k) hr (fun {s₁ i db' ch} h₁ hJ _ ha hrel => ?_) h hs
  obtain ⟨x, hx, hrev, hre⟩ := hJ
  obtain ⟨x', hx', -⟩ := (hrel.grows ha.grows).sessions k x hx
  cases ha.evolves (told (hr.trans h₁)) hrel hx' with
  | same row same not =>
    rw [hx] at row
    obtain rfl := Option.some.inj row
    obtain ⟨t, ht⟩ := Option.isSome_iff_exists.mp hrev
    exact ⟨x', hx', by simp [Session.isRevoked, same.revoked t ht], same.reuse hre⟩
  | rotated row eq rotates live =>
    rw [hx] at row
    obtain rfl := Option.some.inj row
    rw [hrev] at live
    cases live
  | opened row version current not =>
    rw [hx] at row
    cases row

theorem detected_markReuseDetected {db : Db} {at_ : Instant}
    (h : db.sessions.row k = some (x.markReuseDetected at_)) : Detected k db := by
  refine ⟨_, h, ?_, ?_⟩ <;> unfold Session.markReuseDetected Session.revoke <;> split
  · assumption
  · rfl
  · rfl
  · rfl

/-- A replayed token ends its session: whoever presents a token of an older version, while the session is live, leaves
it revoked and marked. -/
theorem replay_detected (ho : Owned db) (hr : Reach A (system env db mem req) s) {raw : String} {csrf : Option String}
    {ctx : AuditContext} (hreq : req i = .refresh (some raw) csrf ctx) {a : Except IdentityError Answer}
    (ha : ⟨i, .done a⟩ ∈ s.world.tr) {v : ℤ} {now : Instant} (hp : Presents s.world i raw x v now)
    (hlive : x.isRevoked = false) (hexp : x.isExpired now = false) (hlt : v < x.tokenVersion) :
    Detected x.id s.world.db := by
  have ht := told hr
  have hauth : x.authorizeRotation (env.hashToken raw) v now = .error (.refreshTokenReuse x.id) := by
    simp [Session.authorizeRotation, hlive, hexp, hlt]
  have hd : ∀ {y : Session} {v' : ℤ} {now' : Instant}, Presents s.world i raw y v' now' →
      y = x ∧ v' = v ∧ now' = now := by
    intro y v' now' hp'
    obtain ⟨at_, hdec⟩ := hp.presented
    obtain ⟨at', hdec'⟩ := hp'.presented
    obtain ⟨-, he⟩ := ht.lockSession (readAfter_did hp'.read) (readAfter_did hp.read)
    cases he
    have hv := decodeRefreshToken_unique hdec' hdec
    cases hv
    exact ⟨rfl, rfl, readAfter_unique hr (m := .lockSession) rfl hp'.read hp.read⟩
  cases refresh_leaves ho hr hreq ha with
  | rotation presents auth persists minted handed =>
    obtain ⟨rfl, rfl, rfl⟩ := hd presents
    rw [hauth] at auth
    cases auth
  | ownerRevoked presents auth read cannot persists =>
    obtain ⟨rfl, rfl, rfl⟩ := hd presents
    rw [hauth] at auth
    cases auth
  | reuse presents auth persists =>
    obtain ⟨rfl, rfl, rfl⟩ := hd presents
    obtain ⟨db₁, db₂, ⟨s₁, s₂, h₁, hstep, h₂, -, -, rfl⟩, hrel⟩ := persists.stores
    exact detected_stays (h₁.tail hstep) h₂ (detected_markReuseDetected hrel.sessions.2.1)
  | nothing not cause =>
    have hdid := readAfter_did hp.read
    cases cause with
    | unlocked noneOf => exact absurd hdid (noneOf _ _ rfl)
    | missing did =>
      obtain ⟨-, he⟩ := ht.lockSession did hdid
      cases he
    | refused presented read auth ne =>
      obtain ⟨rfl, rfl, rfl⟩ := hd ⟨⟨_, presented⟩, read⟩
      rw [hauth] at auth
      cases auth
      exact absurd rfl ne

/-! ## What holds of every run -/

/-- What an answered refresh says: the token was the current one of the session, the commit rotated it, and the new
token ends with the session. -/
def Succeeds (req : ι → Request) (s : Sys (store env) ι) (i : ι) (raw : String) : Prop :=
  ∃ (x x' : Session) (cookies : SessionCookies) (t : Instant), Rotates req s.world i x ∧ Committed s.world i ∧
    (∃ at_, decodeRefreshToken env raw at_ = .ok ⟨x.id, x.tokenVersion⟩) ∧ env.hashToken raw = x.refreshTokenHash ∧
    ⟨i, .done (.ok (.cookiesSet cookies))⟩ ∈ s.world.tr ∧
    cookies.refreshToken = issueRefreshToken env x.id (x.tokenVersion + 1) x.expiresAt t ∧
    s.world.db.sessions.row x.id = some x' ∧ x'.expiresAt = x.expiresAt

structure RotationSafe (A : World (store env) ι → Event (store env) ι → Prop) (db : Db) (req : ι → Request)
    (s : Sys (store env) ι) : Prop where
  /-- The version of a session counts its rotations … -/
  version : ∀ k x, s.world.db.sessions.row k = some x → x.tokenVersion = db.firstVersion k + rotations req s.world k
  /-- … and its hash is that of the token issued for this version. -/
  current : ∀ k x, s.world.db.sessions.row k = some x → Current env x
  succeeds : ∀ i raw csrf ctx a, req i = .refresh (some raw) csrf ctx → ⟨i, .done (.ok a)⟩ ∈ s.world.tr →
    Succeeds req s i raw
  /-- Each version is rotated once. -/
  once : ∀ i j x y, Committed s.world i → Committed s.world j → Rotates req s.world i x → Rotates req s.world j y →
    x.id = y.id → x.tokenVersion = y.tokenVersion → i = j
  /-- A replayed token ends its session … -/
  replay : ∀ i raw csrf ctx a x v now, req i = .refresh (some raw) csrf ctx → ⟨i, .done a⟩ ∈ s.world.tr →
    Presents s.world i raw x v now → x.isRevoked = false → x.isExpired now = false → v < x.tokenVersion →
    Detected x.id s.world.db
  /-- … and a session that has ended is not rotated again. -/
  ended : ∀ s', Reach A s s' → ∀ k x i, s.world.db.sessions.row k = some x → x.isRevoked = true →
    Committed s'.world i → RotatesId req s'.world k i → Committed s.world i
  fixed : ∀ s', Reach A s s' → ∀ k x, s.world.db.sessions.row k = some x → ∃ x', s'.world.db.sessions.row k = some x' ∧
    x'.expiresAt = x.expiresAt ∧ ∀ t, x.revokedAt = some t → x'.revokedAt = some t

theorem refresh_succeeds (ho : Owned db) (hr : Reach A (system env db mem req) s) {raw : String}
    {csrf : Option String} {ctx : AuditContext} (hreq : req i = .refresh (some raw) csrf ctx) {a : Answer}
    (ha : ⟨i, .done (.ok a)⟩ ∈ s.world.tr) : Succeeds req s i raw := by
  have hl := refresh_leaves ho hr hreq ha
  cases hl with
  | @rotation raw x v now cookies presents auth persists minted handed =>
    obtain ⟨claims, hm⟩ := minted
    obtain ⟨⟨t, ht⟩, -⟩ := handed
    obtain ⟨-, -, hv, hh⟩ := authorizeRotation_ok auth
    obtain ⟨db₁, db₂, hst, hrel⟩ := persists.stores
    have hc := hst.committed
    obtain ⟨s₁, s₂, h₁, hstep, h₂, -, -, rfl⟩ := hst
    obtain ⟨x', hx', -, hexp, -⟩ := (grows (h₁.tail hstep) h₂).sessions x.id _ hrel.sessions.2.1
    have hrot : Rotates req s.world i x := ⟨⟨raw, csrf, ctx, hreq⟩, readAfter_did presents.read, claims, now, _, hm⟩
    refine ⟨x, x', cookies, t, hrot, hc, ?_, hh, ha, ht, hx', hexp⟩
    rw [← hv]
    exact presents.presented

/-- **Refresh tokens rotate**, and a replayed one ends its session: whatever requests run, in whatever order. -/
theorem refresh_rotation (hdb : ∀ k x, db.sessions.row k = some x → Current env x) (ho : Owned db)
    (hr : Reach A (system env db mem req) s) : RotationSafe A db req s := by
  have h := versions hdb hr
  exact {
    version := h.counted
    current := h.current
    succeeds := fun i raw csrf ctx a hreq ha => refresh_succeeds ho hr hreq ha
    once := h.once
    replay := fun i raw csrf ctx a x v now hreq ha hp h1 h2 h3 => replay_detected ho hr hreq ha hp h1 h2 h3
    ended := fun s' hs k x i hx hrev hc hro => rotates_live hr hs hx hrev hc hro
    fixed := fun s' hs k x hx => by
      obtain ⟨x', hx', -, hexp, hrev⟩ := (grows hr hs).sessions k x hx
      exact ⟨x', hx', hexp, hrev⟩ }

/-- A token is replayed after the rotation. -/
theorem rotation_then_replay : ∃ s, Reach Any (system sampleEnv refreshDb sampleMem refreshTwice) s ∧
    RotationSafe Any refreshDb refreshTwice s ∧ Succeeds refreshTwice s 0 "|||.|" ∧
    s.world.sees 1 (answered false) = true := by
  obtain ⟨s, hr, hs⟩ := play_any (player sampleEnv) (fun _ _ => true) (A := Any) (fun _ => trivial)
    (system sampleEnv refreshDb sampleMem refreshTwice)
    (List.replicate 12 (.go 0 { n := 5 }) ++ List.replicate 12 (.go 1 { n := 6 }))
    (fun s => s.world.sees 0 (answered true) && s.world.sees 1 (answered false)) (by decide +kernel)
  obtain ⟨h0, h1⟩ := Bool.and_eq_true_iff.mp hs
  have h := refresh_rotation (fun k x hx => ⟨0, by rw [refreshDb_sessions hx]; decide⟩) owned_refreshDb hr
  obtain ⟨a, ha, h0⟩ := World.of_sees h0
  obtain ⟨y, rfl, hy⟩ := of_answered h0
  cases y with
  | error e => cases hy
  | ok a => exact ⟨s, hr, h, h.succeeds 0 _ _ _ a rfl ha, h1⟩

end Bekaa3D.Identity
