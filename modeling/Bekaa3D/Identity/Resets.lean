import Bekaa3D.Identity.Revocation

/-!
# Identity.Resets — one password reset closes every outstanding route

Requests for a reset take no lock of their own; the foreign key of the token they insert takes one on the
account, which a reset holds in the conflicting mode.  So a token is inserted either before a reset locks the
account, and then is among those that the reset consumes, or after the reset has committed.

* `Tokens`: the invariant.
* `ClosesTokens`: what holds in every reachable state.
-/

namespace Bekaa3D.Identity

open Txn

variable {env : Env} {ι : Type}

/-- Transaction `i` inserts the reset token `t`. -/
def insertOf (i : ι) (userId : Uuid) (hash : String) (expiresAt : Instant) (t : PasswordResetToken) :
    Event (store env) ι :=
  ⟨i, .stmt (.insertResetToken userId hash expiresAt) (some t)⟩

/-- Transaction `c` commits a reset that presented the token `t`. -/
def Redeems (req : ι → Request) (w : World (store env) ι) (c : ι) (t : PasswordResetToken) : Prop :=
  ∃ raw password ctx, req c = .confirmPasswordReset raw password ctx ∧ Committed w c ∧
    Did w c (.selectResetTokenForUpdate (env.hashToken raw)) (some t)

/-- Transaction `i` commits a request for a reset that issued the token `t`. -/
def Issues (req : ι → Request) (w : World (store env) ι) (i : ι) (t : PasswordResetToken) : Prop :=
  ∃ email ctx userId hash expiresAt, req i = .requestPasswordReset email ctx ∧ Committed w i ∧
    Did w i (.insertResetToken userId hash expiresAt) (some t)

/-- The token `t` was there at the start, or its `INSERT` executed before the event `e`. -/
def IssuedBefore (db : Db) (req : ι → Request) (w : World (store env) ι) (t : PasswordResetToken)
    (e : Event (store env) ι) : Prop :=
  db.passwordResetTokens.row t.id = some t ∨
    ∃ i userId hash expiresAt, Issues req w i t ∧ Before (insertOf i userId hash expiresAt t) e w.tr

variable [DecidableEq ι] {A : World (store env) ι → Event (store env) ι → Prop}
  {req : ι → Request} {db : Db} {mem : Mem} {i j c : ι} {u : Uuid} {v : User} {w : World (store env) ι}
  {r : Request} {ch : Change} {t : PasswordResetToken} {s : Sys (store env) ι}

/-! ## What one commit does -/

/-- An unused token was there before the commit, or the commit issues it. -/
theorem Allowed.unused (ha : Allowed A w i r ch) {db db' : Db} (hrel : ch.Rel db db') {k : Uuid}
    (hk : db'.passwordResetTokens.row k = some t) (hu : t.usedAt = none) :
    db.passwordResetTokens.row k = some t ∨
      ∃ email ctx userId hash expiresAt, r = .requestPasswordReset email ctx ∧
        Did w i (.insertResetToken userId hash expiresAt) (some t) := by
  have keep : ch.tokens = .keep → db.passwordResetTokens.row k = some t := fun h => by
    have h' := hrel.tokens
    rw [h] at h'
    rw [← h' k, hk]
  cases ha with
  | @resetRequested email ctx a m u t' hash expiresAt did unused =>
    by_cases hkt : k = t'.id
    · subst hkt
      rw [hrel.tokens.2.1] at hk
      cases hk
      exact Or.inr ⟨email, ctx, u.id, hash, expiresAt, rfl, did⟩
    · rw [hrel.tokens.2.2 k hkt] at hk
      exact Or.inl hk
  | @reset raw password ctx u t' now h n lockT unused lock owner can hashed =>
    have h' := hrel.tokens k
    rw [hk] at h'
    obtain ⟨t₀, ht₀, he⟩ := Option.map_eq_some_iff.mp h'.symm
    unfold consumeUnused at he
    split at he
    · rw [← he] at hu
      cases hu
    · rw [← he]
      exact Or.inl ht₀
  | _ => exact Or.inl (keep rfl)

/-- A reset finds its token unused and leaves no unused token of the account. -/
theorem Allowed.consumes (ha : Allowed A w i (req i) ch) (ht : Told req w) (hc : Resets req w i u) {db' : Db}
    (hrel : ch.Rel w.db db') :
    (∀ k t, db'.passwordResetTokens.row k = some t → t.userId = u → t.usedAt.isSome = true) ∧
      ∀ {hash}, Did w i (.selectResetTokenForUpdate hash) (some t) →
        w.db.passwordResetTokens.row t.id = some t ∧ t.usedAt = none ∧ t.userId = u := by
  obtain ⟨⟨raw, password, ctx, hreq⟩, v, rfl, hd⟩ := hc
  rw [hreq] at ha
  cases ha with
  | @reset _ _ _ u t' now h n lockT unused lock owner can hashed =>
    obtain ⟨hid, hu⟩ := ht.lockUser hd lock.did
    cases hu
    refine ⟨fun k t₁ hk hu => ?_, fun hd' => ?_⟩
    · rw [hrel.tokens k] at hk
      obtain ⟨t₀, ht₀, rfl⟩ := Option.map_eq_some_iff.mp hk
      unfold consumeUnused at hu ⊢
      split
      · rfl
      · rename_i hn
        rw [if_neg hn] at hu
        simpa [PasswordResetToken.unusedOf, PasswordResetToken.isUsed, hu, Option.isSome_iff_ne_none] using hn
    · obtain ⟨-, he⟩ := ht.lockToken hd' lockT.did
      cases he
      exact ⟨lockT.row, unused, owner⟩

/-- A token that is inserted while its account was locked by a reset that has committed is inserted after its
commit: the foreign key waits for the lock. -/
theorem insert_after_reset (hr : Reach A (system env db mem req) s)
    (hc : Committed s.world c) (hl : Did s.world c (.selectUserForUpdate v.id) (some v)) (hne : c ≠ i)
    (hn : ¬s.world.Ended i) {userId : Uuid} {hash : String} {expiresAt : Instant}
    (hi : insertOf i userId hash expiresAt t ∈ s.world.tr) (hu : t.userId = v.id) :
    Before (commitOf c) (insertOf i userId hash expiresAt t) s.world.tr ∧
      ¬Before (insertOf i userId hash expiresAt t) (lockOf c v) s.world.tr := by
  have hshare : (⟨.user t.userId, .keyShare⟩ : RowLock) ∈ (insertOf i userId hash expiresAt t : Event (store env) ι).locks :=
    List.mem_cons_of_mem _ (List.mem_singleton.mpr rfl)
  have hlock : (⟨.user v.id, .update⟩ : RowLock) ∈ (lockOf c v : Event (store env) ι).locks := List.mem_singleton.mpr rfl
  have hnb : ¬Before (insertOf i userId hash expiresAt t) (lockOf c v) s.world.tr := by
    intro hb
    obtain ⟨pre, post, htr, he⟩ := hb
    obtain ⟨pre, mid, rfl⟩ := List.append_of_mem he
    obtain ⟨x, hx, hw, ha⟩ := two_phase hr pre _ mid _ post htr (Ne.symm hne) _ hshare _ hlock
      (by simp [RowLock.conflict, LockMode.conflict, hu])
    exact hn ⟨x, by rw [htr]; simp [hx], hw, ha⟩
  refine ⟨?_, hnb⟩
  have hb := (before_total hi hl (fun h => by cases h)).resolve_left hnb
  exact commit_between hr hb hne hc hlock hshare (by simp [RowLock.conflict, LockMode.conflict, hu])

/-! ## The invariant -/

/-- The token `k` was issued after the commit of `c`. -/
def IssuedAfter (req : ι → Request) (w : World (store env) ι) (c : ι) (k : Uuid) (i : ι) (userId : Uuid)
    (hash : String) (expiresAt : Instant) (t : PasswordResetToken) : Prop :=
  Issues req w i t ∧ t.id = k ∧ Before (commitOf c) (insertOf i userId hash expiresAt t) w.tr

structure Tokens (db : Db) (req : ι → Request) (w : World (store env) ι) : Prop where
  issued : ∀ {i t}, Issues req w i t →
    ∃ t', w.db.passwordResetTokens.row t.id = some t' ∧ t'.userId = t.userId
  redeemed : ∀ {c t}, Redeems req w c t →
    ∃ t' a, w.db.passwordResetTokens.row t.id = some t' ∧ t'.usedAt = some a
  once : ∀ {i j t t'}, Redeems req w i t → Redeems req w j t' → t.id = t'.id → i = j
  /-- A token issued before a reset locked its account is used. -/
  closed : ∀ {c v t}, Committed w c → Resets req w c v.id → IssuedBefore db req w t (lockOf c v) →
    t.userId = v.id → ∃ t' a, w.db.passwordResetTokens.row t.id = some t' ∧ t'.usedAt = some a
  refused : ∀ {c v t j t'}, Committed w c → Resets req w c v.id → IssuedBefore db req w t (lockOf c v) →
    t.userId = v.id → Redeems req w j t' → t'.id = t.id → ¬Before (commitOf c) (commitOf j) w.tr
  /-- An unused token of the account was issued after its last reset. -/
  unused : ∀ {c u k t}, Committed w c → Resets req w c u → w.db.passwordResetTokens.row k = some t →
    t.userId = u → t.usedAt = none → ∃ i userId hash expiresAt t₀, IssuedAfter req w c k i userId hash expiresAt t₀
  between : ∀ {c u j t}, Committed w c → Resets req w c u → Redeems req w j t → t.userId = u →
    Before (commitOf c) (commitOf j) w.tr → ∃ i userId hash expiresAt t₀,
      IssuedAfter req w c t.id i userId hash expiresAt t₀ ∧
        Before (insertOf i userId hash expiresAt t₀) (commitOf j) w.tr

section Quiet

variable {w' : World (store env) ι}

omit [DecidableEq ι]

theorem Redeems.of_quiet (hq : Quiet i w w') (h : Redeems req w' c t) : Redeems req w c t := by
  obtain ⟨raw, password, ctx, hreq, hc, hd⟩ := h
  have hc := hq.committed.mp hc
  exact ⟨raw, password, ctx, hreq, hc, (hq.did hc).mp hd⟩

theorem Issues.of_quiet (hq : Quiet j w w') (h : Issues req w' i t) : Issues req w i t := by
  obtain ⟨email, ctx, userId, hash, expiresAt, hreq, hc, hd⟩ := h
  have hc := hq.committed.mp hc
  exact ⟨email, ctx, userId, hash, expiresAt, hreq, hc, (hq.did hc).mp hd⟩

theorem Issues.mono (h : Issues req w i t) (hw : ∀ e ∈ w.tr, e ∈ w'.tr) : Issues req w' i t := by
  obtain ⟨email, ctx, userId, hash, expiresAt, hreq, hc, hd⟩ := h
  exact ⟨email, ctx, userId, hash, expiresAt, hreq, hw _ hc, hd.mono hw⟩

theorem Resets.of_quiet (hq : Quiet i w w') (hc : Committed w c) (h : Resets req w' c u) : Resets req w c u := by
  obtain ⟨hreq, v, hid, hd⟩ := h
  exact ⟨hreq, v, hid, (hq.did hc).mp hd⟩

theorem IssuedBefore.of_quiet (hq : Quiet i w w') (hc : Committed w c)
    (h : IssuedBefore db req w' t (lockOf c v)) : IssuedBefore db req w t (lockOf c v) := by
  rcases h with h | ⟨j, userId, hash, expiresAt, hi, hb⟩
  · exact Or.inl h
  · exact Or.inr ⟨j, userId, hash, expiresAt, hi.of_quiet hq, (hq.before_stmt hc).mp hb⟩

theorem Tokens.quiet (hq : Quiet i w w') (h : Tokens db req w) : Tokens db req w' := by
  refine ⟨fun hi => ?_, fun hr => ?_, fun hr hr' => h.once (hr.of_quiet hq) (hr'.of_quiet hq),
    fun hc hres hb => ?_, fun hc hres hb hu hr hid hbe => ?_, fun hc hres hk hu hn => ?_,
    fun hc hres hr hu hbe => ?_⟩
  · rw [hq.db]
    exact h.issued (hi.of_quiet hq)
  · rw [hq.db]
    exact h.redeemed (hr.of_quiet hq)
  · have hc := hq.committed.mp hc
    rw [hq.db]
    exact h.closed hc (hres.of_quiet hq hc) (hb.of_quiet hq hc)
  · have hc := hq.committed.mp hc
    exact h.refused hc (hres.of_quiet hq hc) (hb.of_quiet hq hc) hu (hr.of_quiet hq) hid
      (hq.before_commit.mp hbe)
  · have hc := hq.committed.mp hc
    rw [hq.db] at hk
    obtain ⟨i, userId, hash, expiresAt, t₀, hi, hid, hb⟩ := h.unused hc (hres.of_quiet hq hc) hk hu hn
    obtain ⟨a, htr, -⟩ := hq.tr
    exact ⟨i, userId, hash, expiresAt, t₀, hi.mono hq.mono, hid, by rw [htr]; exact hb.mono⟩
  · have hc := hq.committed.mp hc
    obtain ⟨i, userId, hash, expiresAt, t₀, ⟨hi, hid, hb⟩, hb'⟩ := h.between hc (hres.of_quiet hq hc)
      (hr.of_quiet hq) hu (hq.before_commit.mp hbe)
    exact ⟨i, userId, hash, expiresAt, t₀, ⟨hi.mono hq.mono, hid, by
      obtain ⟨a, htr, -⟩ := hq.tr
      rw [htr]
      exact hb.mono⟩, hq.before_commit.mpr hb'⟩

end Quiet

section Commit

variable {f : Db → Db}

omit [DecidableEq ι] in
theorem Redeems.of_commit (h : Redeems req (w.commit i f) c t) : Redeems req w c t ∨ c = i ∧
    ∃ raw password ctx, req i = .confirmPasswordReset raw password ctx ∧
      Did w i (.selectResetTokenForUpdate (env.hashToken raw)) (some t) := by
  obtain ⟨raw, password, ctx, hreq, hc, hd⟩ := h
  rcases committed_commit.mp hc with hc | rfl
  · exact Or.inl ⟨raw, password, ctx, hreq, hc, did_commit.mp hd⟩
  · exact Or.inr ⟨rfl, raw, password, ctx, hreq, did_commit.mp hd⟩

omit [DecidableEq ι] in
theorem Issues.of_commit (h : Issues req (w.commit i f) j t) : Issues req w j t ∨ j = i ∧
    ∃ email ctx userId hash expiresAt, req i = .requestPasswordReset email ctx ∧
      Did w i (.insertResetToken userId hash expiresAt) (some t) := by
  obtain ⟨email, ctx, userId, hash, expiresAt, hreq, hc, hd⟩ := h
  rcases committed_commit.mp hc with hc | rfl
  · exact Or.inl ⟨email, ctx, userId, hash, expiresAt, hreq, hc, did_commit.mp hd⟩
  · exact Or.inr ⟨rfl, email, ctx, userId, hash, expiresAt, hreq, did_commit.mp hd⟩

/-- The commit of a request that inserted a token adds its row. -/
theorem Allowed.issues (ha : Allowed A w i (req i) ch) (ht : Told req w) {email : String} {ctx : AuditContext}
    {userId : Uuid} {hash : String} {expiresAt : Instant} (hreq : req i = .requestPasswordReset email ctx)
    (hd : Did w i (.insertResetToken userId hash expiresAt) (some t)) {db' : Db} (hrel : ch.Rel w.db db') :
    db'.passwordResetTokens.row t.id = some t := by
  rw [hreq] at ha
  cases ha with
  | resetNotRequested noneOf => exact absurd hd (noneOf _ _ rfl)
  | resetRequested did unused =>
    cases ht.insertToken hd did
    exact hrel.tokens.2.1

/-- A transaction that commits a reset has locked the account of the token it presented. -/
theorem Allowed.redeems (ha : Allowed A w i (req i) ch) (ht : Told req w) {raw password : String}
    {ctx : AuditContext} (hreq : req i = .confirmPasswordReset raw password ctx)
    (hd : Did w i (.selectResetTokenForUpdate (env.hashToken raw)) (some t)) {db' : Db} (hrel : ch.Rel w.db db') :
    Resets req w i t.userId ∧ w.db.passwordResetTokens.row t.id = some t ∧ t.usedAt = none := by
  have hres : ∃ u, Resets req w i u := by
    have ha' := ha
    rw [hreq] at ha'
    cases ha' with
    | reset lockT unused lock owner can hashed => exact ⟨_, ⟨raw, password, ctx, hreq⟩, _, rfl, lock.did⟩
  obtain ⟨u, hres⟩ := hres
  obtain ⟨hrow, hun, rfl⟩ := (ha.consumes ht hres hrel (t := t)).2 hd
  exact ⟨hres, hrow, hun⟩

theorem Tokens.commit (hs : Reach A (system env db mem req) s)
    (h : Tokens db req s.world) (hn : ¬s.world.Ended i) (ha : Allowed A s.world i (req i) ch)
    (hrel : ch.Rel s.world.db (f s.world.db)) (hg : Grows s.world.db (f s.world.db)) :
    Tokens db req (s.world.commit i f) := by
  have ht := told hs
  have hu : ¬Committed s.world i := fun hc => hn ⟨_, hc, rfl, trivial⟩
  have hi : ∀ {c}, Committed s.world c → c ≠ i := by
    rintro c hc rfl
    exact hu hc
  -- used tokens stay used
  have used : ∀ {k : Uuid}, (∃ t' a, s.world.db.passwordResetTokens.row k = some t' ∧ t'.usedAt = some a) →
      ∃ t' a, (f s.world.db).passwordResetTokens.row k = some t' ∧ t'.usedAt = some a := by
    rintro k ⟨t', a, hk, ha⟩
    obtain ⟨t'', hk', -, -, h⟩ := hg.tokens _ _ hk
    exact ⟨t'', a, hk', h a ha⟩
  -- a reset uses every token of its account
  have consumed : ∀ {k u : Uuid} {t'}, Resets req s.world i u → s.world.db.passwordResetTokens.row k = some t' →
      t'.userId = u → ∃ t' a, (f s.world.db).passwordResetTokens.row k = some t' ∧ t'.usedAt = some a := by
    intro k u t' hres hk hu'
    obtain ⟨t'', hk', hu'', -⟩ := hg.tokens _ _ hk
    obtain ⟨a, ha'⟩ := Option.isSome_iff_exists.mp ((ha.consumes ht hres hrel (t := t')).1 k t'' hk' (hu''.trans hu'))
    exact ⟨t'', a, hk', ha'⟩
  -- what was issued before an earlier reset locked its account was issued by a committed request
  have before : ∀ {t v c}, Committed s.world c → Resets req s.world c v.id → t.userId = v.id →
      IssuedBefore db req (s.world.commit i f) t (lockOf c v) → IssuedBefore db req s.world t (lockOf c v) := by
    intro t v c hc hres hid hb
    rcases hb with hb | ⟨j, userId, hash, expiresAt, hj, hb⟩
    · exact Or.inl hb
    · replace hb := before_stmt_commit.mp hb
      rcases hj.of_commit with hj | ⟨rfl, -⟩
      · exact Or.inr ⟨j, userId, hash, expiresAt, hj, hb⟩
      · exact absurd hb (insert_after_reset hs hc hb.right (hi hc) hn hb.left hid).2
  refine ⟨fun {j t} hj => ?_, fun {c t} hr => ?_, fun {j j' t t'} hr hr' hid => ?_,
    fun {c v t} hc hres hb hid => ?_, fun {c v t j t'} hc hres hb hid hr hid' hbe => ?_,
    fun {c u k t} hc hres hk hid hnone => ?_, fun {c u j t} hc hres hr hid hbe => ?_⟩
  · rcases hj.of_commit with hj | ⟨rfl, email, ctx, userId, hash, expiresAt, hreq, hd⟩
    · obtain ⟨t', hk, hu'⟩ := h.issued hj
      obtain ⟨t'', hk', hu'', -⟩ := hg.tokens _ _ hk
      exact ⟨t'', hk', hu''.trans hu'⟩
    · exact ⟨t, ha.issues ht hreq hd hrel, rfl⟩
  · rcases hr.of_commit with hr₀ | ⟨rfl, raw, password, ctx, hreq, hd⟩
    · exact used (h.redeemed hr₀)
    · obtain ⟨hres, hk, -⟩ := ha.redeems ht hreq hd hrel
      exact consumed hres hk rfl
  · have clash : ∀ {c t t'}, Redeems req s.world c t → t.id = t'.id →
        s.world.db.passwordResetTokens.row t'.id = some t' → t'.usedAt = none → False := by
      intro c t t' hr hid hk hnone
      obtain ⟨t'', a, hk', ha⟩ := h.redeemed hr
      rw [hid, hk] at hk'
      cases hk'
      rw [hnone] at ha
      cases ha
    rcases hr.of_commit with hr₀ | ⟨rfl, raw, password, ctx, hreq, hd⟩ <;>
      rcases hr'.of_commit with hr₀' | ⟨rfl, raw', password', ctx', hreq', hd'⟩
    · exact h.once hr₀ hr₀' hid
    · obtain ⟨-, hk, hnone⟩ := ha.redeems ht hreq' hd' hrel
      exact (clash hr₀ hid hk hnone).elim
    · obtain ⟨-, hk, hnone⟩ := ha.redeems ht hreq hd hrel
      exact (clash hr₀' hid.symm hk hnone).elim
    · rfl
  · replace hres := hres.of_commit
    rcases committed_commit.mp hc with hc₀ | rfl
    · exact used (h.closed hc₀ hres (before hc₀ hres hid hb) hid)
    · rcases hb with hb | ⟨j, userId, hash, expiresAt, hj, hb⟩
      · obtain ⟨t', hk, hu', -⟩ := (grows .refl hs).tokens _ _ hb
        exact consumed hres hk (hu'.trans hid)
      · rcases hj.of_commit with hj | ⟨rfl, email, ctx, -, -, -, hreq, -⟩
        · obtain ⟨t', hk, hu'⟩ := h.issued hj
          exact consumed hres hk (hu'.trans hid)
        · obtain ⟨⟨raw, password, ctx', hreq'⟩, -⟩ := hres
          rw [hreq] at hreq'
          cases hreq'
  · replace hres := hres.of_commit
    rcases before_commit_commit.mp hbe with hbe₀ | ⟨rfl, hc₀⟩
    · rcases hr.of_commit with hr₀ | ⟨rfl, -⟩
      · exact h.refused hbe₀.left hres (before hbe₀.left hres hid hb) hid hr₀ hid' hbe₀
      · exact hu hbe₀.right
    · rcases hr.of_commit with hr₀ | ⟨-, raw, password, ctx, hreq, hd⟩
      · obtain ⟨-, -, -, -, hcj, -⟩ := hr₀
        exact hu hcj
      · obtain ⟨-, hk, hnone⟩ := ha.redeems ht hreq hd hrel
        obtain ⟨t'', a, hk', ha'⟩ := h.closed hc₀ hres (before hc₀ hres hid hb) hid
        rw [← hid', hk] at hk'
        cases hk'
        rw [hnone] at ha'
        cases ha'
  · replace hres := hres.of_commit
    rcases ha.unused hrel hk hnone with hk' | ⟨email, ctx, userId, hash, expiresAt, hreq, hd⟩
    · rcases committed_commit.mp hc with hc₀ | rfl
      · obtain ⟨j, userId, hash, expiresAt, t₀, hj, hid', hb⟩ := h.unused hc₀ hres hk' hid hnone
        exact ⟨j, userId, hash, expiresAt, t₀, hj.mono fun _ => mem_commit, hid', hb.mono⟩
      · have := (ha.consumes ht hres hrel (t := t)).1 k t hk hid
        rw [hnone] at this
        cases this
    · rcases committed_commit.mp hc with hc₀ | rfl
      · obtain ⟨-, v, rfl, hl⟩ := hres
        refine ⟨i, userId, hash, expiresAt, t, ⟨email, ctx, userId, hash, expiresAt, hreq,
          committed_commit.mpr (Or.inr rfl), did_commit.mpr hd⟩, (f s.world.db).passwordResetTokens.row_key _ _ hk,
          Before.mono (insert_after_reset hs hc₀ hl (hi hc₀) hn hd hid).1⟩
      · obtain ⟨⟨raw, password, ctx', hreq'⟩, -⟩ := hres
        rw [hreq] at hreq'
        cases hreq'
  · replace hres := hres.of_commit
    rcases before_commit_commit.mp hbe with hbe₀ | ⟨rfl, hc₀⟩
    · rcases hr.of_commit with hr₀ | ⟨rfl, -⟩
      · obtain ⟨j', userId, hash, expiresAt, t₀, ⟨hj, hid', hb⟩, hb'⟩ := h.between hbe₀.left hres hr₀ hid hbe₀
        exact ⟨j', userId, hash, expiresAt, t₀, ⟨hj.mono fun _ => mem_commit, hid', hb.mono⟩, hb'.mono⟩
      · exact absurd hbe₀.right hu
    · rcases hr.of_commit with hr₀ | ⟨-, raw, password, ctx, hreq, hd⟩
      · obtain ⟨-, -, -, -, hcj, -⟩ := hr₀
        exact absurd hcj hu
      · obtain ⟨-, hk, hnone⟩ := ha.redeems ht hreq hd hrel
        obtain ⟨j', userId, hash, expiresAt, t₀, hj, hid', hb⟩ := h.unused hc₀ hres hk hid hnone
        exact ⟨j', userId, hash, expiresAt, t₀, ⟨hj.mono fun _ => mem_commit, hid', hb.mono⟩,
          before_commit_commit.mpr (Or.inr ⟨rfl, hb.right⟩)⟩

end Commit

theorem tokens (hr : Reach A (system env db mem req) s) : Tokens db req s.world := by
  refine invariant_commit (fun hq h => h.quiet hq)
    (fun hs hJ _ hn ha hrel hg => hJ.commit hs hn ha hrel hg) ?_ hr
  have none : ∀ {j : ι} {e m}, ¬Committed (⟨e, m, []⟩ : World (store env) ι) j := fun h => List.not_mem_nil h
  refine ⟨fun ⟨_, _, _, _, _, _, hc, _⟩ => absurd hc none, fun ⟨_, _, _, _, hc, _⟩ => absurd hc none,
    fun ⟨_, _, _, _, hc, _⟩ => absurd hc none, fun hc => absurd hc none, fun hc => absurd hc none,
    fun hc => absurd hc none, fun hc => absurd hc none⟩

/-! ## What a reset closes -/

structure ClosesTokens (db : Db) (req : ι → Request) (w : World (store env) ι) : Prop where
  /-- A token authorises one committed password change. -/
  once : ∀ i j t t', Redeems req w i t → Redeems req w j t' → t.id = t'.id → i = j
  /-- Once a reset has committed, every token issued before it locked the account is used … -/
  used : ∀ c v t, Committed w c → Resets req w c v.id → IssuedBefore db req w t (lockOf c v) → t.userId = v.id →
    ∃ t' a, w.db.passwordResetTokens.row t.id = some t' ∧ t'.usedAt = some a
  /-- … and is not redeemed any more. -/
  refused : ∀ c v t j t', Committed w c → Resets req w c v.id → IssuedBefore db req w t (lockOf c v) →
    t.userId = v.id → Redeems req w j t' → t'.id = t.id → ¬Before (commitOf c) (commitOf j) w.tr
  /-- Between two resets of an account, the token of the second one is issued. -/
  between : ∀ c j u t, Committed w c → Resets req w c u → Redeems req w j t → t.userId = u →
    Before (commitOf c) (commitOf j) w.tr → ∃ i userId hash expiresAt t', Issues req w i t' ∧ t'.id = t.id ∧
      Before (commitOf c) (insertOf i userId hash expiresAt t') w.tr ∧
      Before (insertOf i userId hash expiresAt t') (commitOf j) w.tr

/-- **One reset closes every outstanding route**, in every interleaving. -/
theorem reset_closes_tokens (hr : Reach A (system env db mem req) s) : ClosesTokens db req s.world := by
  have h := tokens hr
  refine ⟨fun i j t t' => h.once, fun c v t => h.closed, fun c v t j t' => h.refused,
    fun c j u t hc hres hred hu hb => ?_⟩
  obtain ⟨i, userId, hash, expiresAt, t', ⟨hi, hid, hb⟩, hb'⟩ := h.between hc hres hred hu hb
  exact ⟨i, userId, hash, expiresAt, t', hi, hid, hb, hb'⟩

/-- Two resets of an account, and a request between them. -/
def twoResets : Fin 3 → Request
  | 0 => .confirmPasswordReset "token" "first" {}
  | 1 => .requestPasswordReset "ada" {}
  | 2 => .confirmPasswordReset "again" "second" {}

/-- The second reset redeems a token that was issued after the first. -/
theorem reset_again_after_request : ∃ s, Reach Any (system sampleEnv sampleDb sampleMem twoResets) s ∧
    s.world.sees 0 Act.isCommit = true ∧ s.world.sees 2 Act.isCommit = true ∧
      ClosesTokens sampleDb twoResets s.world := by
  obtain ⟨s, hr, hs⟩ := play_any (player sampleEnv) (fun _ _ => true) (A := Any) (fun _ => trivial)
    (system sampleEnv sampleDb sampleMem twoResets)
    (List.replicate 12 (.go 0 { s := "first" }) ++ List.replicate 9 (.go 1 { n := 200000000, s := "again" }) ++
      List.replicate 12 (.go 2 { n := 200000000, s := "second" }))
    (fun s => s.world.sees 0 Act.isCommit && s.world.sees 2 Act.isCommit) (by decide +kernel)
  obtain ⟨h0, h2⟩ := Bool.and_eq_true_iff.mp hs
  exact ⟨s, hr, h0, h2, reset_closes_tokens hr⟩

end Bekaa3D.Identity
