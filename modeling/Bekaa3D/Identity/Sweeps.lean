import Bekaa3D.Identity.Rules

/-!
# Identity.Sweeps — statements that hit many rows

A sweep lists the rows that meet its condition and then visits them one by one, each under its own lock and
with the condition evaluated again.  Under the lock of the account it is the one `UPDATE` it stands for.

* `wp_sweepRows`: the loop rule.
* `Sweeping`: the loop invariant.  The visited rows `T` are live, and every live row is visited or still listed.
* `wp_revokeAllForUser`, `wp_consumeOutstandingForUser`, `wp_deleteUnused`, `wp_addSet`.
-/

namespace Bekaa3D.Identity

open Txn

variable {env : Env} {ι : Type} [DecidableEq ι] {A : World (store env) ι → Event (store env) ι → Prop} {req : ι → Request}
  {i : ι} {N : List Kind} {L : List RowLock} {f : Db → Db} {w : World (store env) ι} {ch : Change}
  {F : World (store env) ι → Prop}

/-- The loop of a sweep keeps `P`, which knows how many rows it has hit. -/
theorem wp_sweepRows {each : Uuid → Handler Bool}
    {P : ℕ → List Uuid → List RowLock → (Db → Db) → World (store env) ι → Prop}
    {Q : ℕ → List RowLock → (Db → Db) → World (store env) ι → Prop}
    {R : IdentityError → List RowLock → (Db → Db) → World (store env) ι → Prop}
    (step : ∀ n id ids L f w, P n (id :: ids) L f w →
      (contract A req).wp i (each id) L f w (fun hit L f w => P (if hit then n + 1 else n) ids L f w) R)
    (done : ∀ n L f w, P n [] L f w → Q n L f w) {ids : List Uuid} (h : P 0 ids L f w) :
    (contract A req).wp i (sweepRows each ids) L f w Q R := by
  suffices hgen : ∀ m, P m ids L f w →
      (contract A req).wp i (sweepRows each ids) L f w (fun n L f w => P (n + m) [] L f w) R from
    Logic.wp_mono (hgen 0 h) (fun n L f w h => done n L f w h) fun _ _ _ _ h => h
  clear h
  induction ids generalizing L f w with
  | nil =>
    intro m h
    change P (0 + m) [] L f w
    rwa [Nat.zero_add]
  | cons id ids ih =>
    intro m h
    refine Logic.wp_bind.mpr (Logic.wp_mono (step m id ids L f w h) (fun hit L f w h => ?_) fun _ _ _ _ h => h)
    refine Logic.wp_bind.mpr (Logic.wp_mono (ih _ h) (fun n L f w h => ?_) fun _ _ _ _ h => h)
    cases hit with
    | false => exact h
    | true =>
      change P (n + 1 + m) [] L f w
      rwa [show n + 1 + m = n + (m + 1) by omega]

/-! ## The invariant of a marking sweep -/

section Sweeping

variable {V : Type} {key : V → Uuid} {live : V → Bool} {t t' : Table key} {T ids : List Uuid}

structure Sweeping (t : Table key) (live : V → Bool) (T ids : List Uuid) : Prop where
  nodup : T.Nodup
  marked : ∀ k ∈ T, ∃ v, t.row k = some v ∧ live v = true
  rest : ∀ k v, t.row k = some v → live v = true → k ∈ T ∨ k ∈ ids

theorem Sweeping.mono (h : Sweeping t live T ids) (hT : ∀ k ∈ T, t'.row k = t.row k)
    (hnew : NoNew (fun v => live v = true) t t') : Sweeping t' live T ids := by
  refine ⟨h.nodup, fun k hk => ?_, fun k v' hv' hl' => ?_⟩
  · rw [hT k hk]
    exact h.marked k hk
  · obtain ⟨v, hv, hl⟩ := hnew k v' hv' hl'
    exact h.rest k v hv hl

/-- At the end, the marked rows are those that are live. -/
theorem Sweeping.length_eq (h : Sweeping t live T []) : T.length = (t.scan live).length := by
  refine ((List.perm_ext_iff_of_nodup h.nodup Table.nodup_scan).mpr fun k => ?_).length_eq
  rw [Table.mem_scan]
  refine ⟨h.marked k, fun ⟨v, hv, hl⟩ => ?_⟩
  simpa using h.rest k v hv hl

/-- The next listed row is live and gets marked. -/
theorem Sweeping.hit {k : Uuid} (h : Sweeping t live T (k :: ids)) (hk : k ∉ T) {v : V} (hv : t.row k = some v)
    (hl : live v = true) : Sweeping t live (k :: T) ids := by
  refine ⟨List.nodup_cons.mpr ⟨hk, h.nodup⟩, fun k' hk' => ?_, fun k' v' hv' hl' => ?_⟩
  · rcases List.mem_cons.mp hk' with rfl | hk'
    · exact ⟨v, hv, hl⟩
    · exact h.marked k' hk'
  · rcases h.rest k' v' hv' hl' with hk | hk
    · exact Or.inl (List.mem_cons_of_mem _ hk)
    · rcases List.mem_cons.mp hk with rfl | hk
      · exact Or.inl (List.mem_cons_self ..)
      · exact Or.inr hk

/-- The next listed row is marked already, or no longer live. -/
theorem Sweeping.miss {k : Uuid} (h : Sweeping t live T (k :: ids))
    (hk : k ∈ T ∨ ∀ v, t.row k = some v → live v = false) : Sweeping t live T ids := by
  refine ⟨h.nodup, h.marked, fun k' v' hv' hl' => ?_⟩
  rcases h.rest k' v' hv' hl' with hk' | hk'
  · exact Or.inl hk'
  · rcases List.mem_cons.mp hk' with rfl | hk'
    · rcases hk with hk | hk
      · exact Or.inl hk
      · rw [hk v' hv'] at hl'
        cases hl'
    · exact Or.inr hk'

variable {mark : V → V}

/-- The condition of the next row, evaluated on what the sweep sees. -/
theorem Sweeping.visit (h : Sweeping t live T (k :: ids))
    (hrel : (Table.Change.map (Table.Change.markIn key mark T)).Rel t t') (hm : ∀ v, live (mark v) = false) :
    if (t'.row k).any live then k ∉ T ∧ Sweeping t live (k :: T) ids else Sweeping t live T ids := by
  cases hv : t.row k with
  | none =>
    rw [hrel k, hv]
    exact h.miss (Or.inr fun v h => by rw [hv] at h; cases h)
  | some v =>
    rw [hrel k, hv, Option.map_some, Option.any_some, Table.Change.markIn, t.row_key _ _ hv]
    by_cases hk : k ∈ T
    · rw [if_pos hk, hm, if_neg Bool.false_ne_true]
      exact h.miss (Or.inl hk)
    · rw [if_neg hk]
      split
      · rename_i hl
        exact ⟨hk, h.hit hk hv hl⟩
      · rename_i hl
        refine h.miss (Or.inr fun u hu => ?_)
        rw [hv] at hu
        cases hu
        exact Bool.eq_false_iff.mpr hl

end Sweeping

/-! ## A marking sweep, half-way -/

section Marking

variable {V : Type} {key : V → Uuid}

/-- The loop invariant: the rows `T` of the table `tab` are marked in what is pending, and locked. -/
structure Marking (A : World (store env) ι → Event (store env) ι → Prop) (req : ι → Request) (i : ι) (N : List Kind)
    (L₀ : List RowLock) (F : World (store env) ι → Prop) (tab : Db → Table key) (row : Uuid → RowId)
    (put : Table.Change V → Change) (live : V → Bool) (mark : V → V) (T ids : List Uuid) (L : List RowLock)
    (f : Db → Db) (w : World (store env) ι) : Prop where
  sub : ∀ l ∈ L₀, l ∈ L
  locks : ∀ k ∈ T, ∃ m, m ≠ .keyShare ∧ ⟨row k, m⟩ ∈ L
  knows : Knows A req i N L f w (put (.map (Table.Change.markIn key mark T))) F
  live : Sweeping (tab w.db) live T ids

end Marking

/-! ## Sessions -/

theorem Session.liveOf_revokedAtIs (u : Uuid) (a : Instant) (x : Session) : (x.revokedAtIs a).liveOf u = false := by
  simp [liveOf, isRevoked, revokedAtIs]

/-- No session of `u` comes to life while its account is locked. -/
theorem NoNew.liveOf {u : Uuid} {db db' : Db} (hg : Grows db db')
    (h : NoNew (fun x => x.userId = u) db.sessions db'.sessions) :
    NoNew (fun x => x.liveOf u = true) db.sessions db'.sessions := by
  intro k x' hx' hl'
  simp only [Session.liveOf, Session.isRevoked, Bool.and_eq_true, decide_eq_true_eq, Bool.not_eq_true'] at hl' ⊢
  obtain ⟨x, hx, hu⟩ := h k x' hx' hl'.1
  refine ⟨x, hx, hu, ?_⟩
  obtain ⟨x'', hx'', -, -, hr⟩ := hg.sessions k x hx
  rw [hx'] at hx''
  cases hx''
  cases hrev : x.revokedAt with
  | none => rfl
  | some a => rw [hr a hrev] at hl'; cases hl'.2

theorem holds_sweepingSessions {u : Uuid} {T ids : List Uuid} (hu : ⟨.user u, .update⟩ ∈ L)
    (hT : ∀ k ∈ T, ∃ m, m ≠ LockMode.keyShare ∧ ⟨.session k, m⟩ ∈ L) :
    (contract A req).Holds i L fun w => Sweeping w.db.sessions (Session.liveOf u) T ids := by
  refine ⟨fun hw h => h.mono (fun k hk => ?_) ?_, fun _ _ h => h⟩
  · obtain ⟨m, hm, hl⟩ := hT k hk
    exact hw.prot _ hl hm
  · exact NoNew.liveOf hw.gr ((hw.prot _ hu nofun).2 rfl).1

theorem wp_revokeAllForUser {u : Uuid} {at_ : Instant}
    {Q : ℕ → List RowLock → (Db → Db) → World (store env) ι → Prop}
    {R : IdentityError → List RowLock → (Db → Db) → World (store env) ι → Prop}
    (hk : Knows A req i N L f w ch F) (hs : ch.sessions = .keep)
    (hU : ∀ w, F w → ∃ v : User, v.id = u ∧ Did w i (.selectUserForUpdate v.id) (some v)) (hl : ⟨.user u, .update⟩ ∈ L)
    (next : ∀ n ids L' f' w (G : World (store env) ι → Prop), (∀ l ∈ L, l ∈ L') →
      Knows A req i N L' f' w { ch with sessions := .map (revokeLive u at_) }
        (fun w => F w ∧ Did w i (.scanLiveSessions u) ids ∧ n = (w.db.sessions.scan (Session.liveOf u)).length ∧ G w) →
      Q n L' f' w) :
    (contract A req).wp i (SessionRepository.revokeAllForUser u at_) L f w Q R := by
  refine wp_read hk (fun _ => rfl) (fun _ _ => rfl) rfl (fun w hF => ⟨hU w hF, hk.sessions_keep hs w hF⟩)
    fun w free r hF hrel hr hA hk => ?_
  refine wp_sweepRows (P := fun n ids L' f' w => ∃ T, n = T.length ∧ Marking A req i N L
    (fun w => F w ∧ Did w i (.scanLiveSessions u) r) Db.sessions RowId.session
    (fun c => { ch with sessions := c }) (Session.liveOf u) (Session.revokedAtIs at_) T ids L' f' w) ?_ ?_ ?_
  · rintro n id ids L' f' w ⟨T, hn, h⟩
    have hS : (contract A req).Holds i L' fun w => Sweeping w.db.sessions (Session.liveOf u) T (id :: ids) :=
      holds_sweepingSessions (h.sub _ hl) h.locks
    refine wp_step (h.knows.and hS h.live) nofun (fun _ _ => trivial) fun w free hit hF hrel hp hr hA => ?_
    have hvisit := hF.2.visit hrel.sessions (Session.liveOf_revokedAtIs u at_)
    rw [← (hr : hit = _)] at hvisit
    have hF' := h.knows.holds.own (.revokeSession id u at_) hit hF.1
    cases hit with
    | false => exact ⟨T, hn, h.sub, h.locks, ⟨h.knows.holds, hF', h.knows.rel, hp.stmt rfl⟩, hvisit⟩
    | true =>
      refine ⟨id :: T, congrArg Nat.succ hn, fun l hl => List.mem_append_right _ (h.sub l hl), fun k hk => ?_,
        ⟨h.knows.holds.need (.revokeSession id u at_) true, hF', fun w hF => ?_, hp.stmt rfl⟩,
        hvisit.2⟩
      · rcases List.mem_cons.mp hk with rfl | hk
        · exact ⟨.noKeyUpdate, nofun, List.mem_cons_self ..⟩
        · obtain ⟨m, hm, hl⟩ := h.locks k hk
          exact ⟨m, hm, List.mem_append_right _ hl⟩
      · have h := h.knows.rel w hF
        exact ⟨h.users, h.sessions.markCons (fun _ => rfl) hvisit.1, h.tokens, h.credentials, h.codes, h.audits, h.mails, h.verifications⟩
  · rintro n L' f' w ⟨T, hn, h⟩
    have hk : Knows A req i N L' f' w { ch with sessions := .map (revokeLive u at_) } _ :=
      (h.knows.and (holds_sweepingSessions (h.sub _ hl) h.locks) h.live).change fun w hF h =>
        ⟨h.users, h.sessions.markAll hF.2.marked fun k x hx hl => by simpa using hF.2.rest k x hx hl, h.tokens,
          h.credentials, h.codes, h.audits, h.mails, h.verifications⟩
    refine next n r L' f' w _ h.sub ⟨hk.holds.imp (fun w h => ⟨h.1.1, h.1.2, hn.trans h.2.length_eq, h.2⟩)
      fun w h => ⟨⟨h.1, h.2.1⟩, h.2.2.2⟩, ?_, fun w h => hk.rel w ⟨⟨h.1, h.2.1⟩, h.2.2.2⟩, hk.fresh⟩
    exact ⟨hk.now.1.1, hk.now.1.2, hn.trans hk.now.2.length_eq, hk.now.2⟩
  · have hscan : r.Perm ((f w.db).sessions.scan (Session.liveOf u)) := hr
    have h0 := hrel.sessions
    rw [hs] at h0
    refine ⟨[], rfl, fun _ h => h, by simp, hk.change fun w hF h => ?_, List.nodup_nil, by simp,
      fun k x hx hl => Or.inr ?_⟩
    · have h0 := h.sessions
      rw [hs] at h0
      exact ⟨h.users, h0.markNil, h.tokens, h.credentials, h.codes, h.audits, h.mails, h.verifications⟩
    · exact hscan.mem_iff.mpr (Table.mem_scan.mpr ⟨x, by rw [h0]; exact hx, hl⟩)

/-! ## Password-reset tokens -/

theorem PasswordResetToken.unusedOf_usedAtIs (u : Uuid) (a : Instant) (t : PasswordResetToken) :
    (t.usedAtIs (some a)).unusedOf u = false := by
  simp [unusedOf, isUsed, usedAtIs]

theorem NoNew.unusedOf {u : Uuid} {db db' : Db} (hg : Grows db db')
    (h : NoNew (fun t => t.userId = u) db.passwordResetTokens db'.passwordResetTokens) :
    NoNew (fun t => t.unusedOf u = true) db.passwordResetTokens db'.passwordResetTokens := by
  intro k t' ht' hl'
  simp only [PasswordResetToken.unusedOf, PasswordResetToken.isUsed, Bool.and_eq_true, decide_eq_true_eq,
    Bool.not_eq_true'] at hl' ⊢
  obtain ⟨t, ht, hu⟩ := h k t' ht' hl'.1
  refine ⟨t, ht, hu, ?_⟩
  obtain ⟨t'', ht'', -, -, hr⟩ := hg.tokens k t ht
  rw [ht'] at ht''
  cases ht''
  cases hused : t.usedAt with
  | none => rfl
  | some a => rw [hr a hused] at hl'; cases hl'.2

theorem holds_sweepingTokens {u : Uuid} {T ids : List Uuid} (hu : ⟨.user u, .update⟩ ∈ L)
    (hT : ∀ k ∈ T, ∃ m, m ≠ LockMode.keyShare ∧ ⟨.passwordResetToken k, m⟩ ∈ L) :
    (contract A req).Holds i L fun w => Sweeping w.db.passwordResetTokens (PasswordResetToken.unusedOf u) T ids := by
  refine ⟨fun hw h => h.mono (fun k hk => ?_) ?_, fun _ _ h => h⟩
  · obtain ⟨m, hm, hl⟩ := hT k hk
    exact hw.prot _ hl hm
  · exact NoNew.unusedOf hw.gr ((hw.prot _ hu nofun).2 rfl).2.1

/-- The sweep after the redeemed token `t` itself was saved as used. -/
theorem wp_consumeOutstandingForUser {u : Uuid} {at_ : Instant} {hash : String} {t : PasswordResetToken}
    {Q : ℕ → List RowLock → (Db → Db) → World (store env) ι → Prop}
    {R : IdentityError → List RowLock → (Db → Db) → World (store env) ι → Prop}
    (hk : Knows A req i N L f w ch F) (ht : ch.tokens = .set t { t with usedAt := some at_ })
    (hlt : ∀ w, F w → LockedToken w i hash t) (hun : t.unusedOf u = true) (hl : ⟨.user u, .update⟩ ∈ L)
    (hlT : ⟨.passwordResetToken t.id, .update⟩ ∈ L)
    (next : ∀ n L' f' w (G : World (store env) ι → Prop), (∀ l ∈ L, l ∈ L') →
      Knows A req i N L' f' w { ch with tokens := .map (consumeUnused u at_) } (fun w => F w ∧ G w) → Q n L' f' w) :
    (contract A req).wp i (PasswordResetTokenRepository.consumeOutstandingForUser u at_) L f w Q R := by
  refine wp_read hk (fun _ => rfl) (fun _ _ => rfl) rfl (fun _ _ => trivial) fun w free r hF hrel hr hA hk' => ?_
  have hk := hk.forget hk'
  refine wp_sweepRows (P := fun _ ids L' f' w => ∃ T, Marking A req i N L F Db.passwordResetTokens
    RowId.passwordResetToken (fun c => { ch with tokens := c }) (PasswordResetToken.unusedOf u)
    (PasswordResetToken.usedAtIs (some at_)) T ids L' f' w) ?_ ?_ ?_
  · rintro n id ids L' f' w ⟨T, h⟩
    have hS : (contract A req).Holds i L' fun w =>
        Sweeping w.db.passwordResetTokens (PasswordResetToken.unusedOf u) T (id :: ids) :=
      holds_sweepingTokens (h.sub _ hl) h.locks
    refine wp_step (h.knows.and hS h.live) nofun (fun _ _ => trivial) fun w free hit hF hrel hp hr hA => ?_
    have hvisit := hF.2.visit hrel.tokens (PasswordResetToken.unusedOf_usedAtIs u at_)
    rw [← (hr : hit = _)] at hvisit
    have hF' := h.knows.holds.own (.consumeResetToken id u at_) hit hF.1
    cases hit with
    | false => exact ⟨T, h.sub, h.locks, ⟨h.knows.holds, hF', h.knows.rel, hp.stmt rfl⟩, hvisit⟩
    | true =>
      refine ⟨id :: T, fun l hl => List.mem_append_right _ (h.sub l hl), fun k hk => ?_,
        ⟨h.knows.holds.need (.consumeResetToken id u at_) true, hF', fun w hF => ?_,
          hp.stmt rfl⟩, hvisit.2⟩
      · rcases List.mem_cons.mp hk with rfl | hk
        · exact ⟨.noKeyUpdate, nofun, List.mem_cons_self ..⟩
        · obtain ⟨m, hm, hl⟩ := h.locks k hk
          exact ⟨m, hm, List.mem_append_right _ hl⟩
      · have h := h.knows.rel w hF
        exact ⟨h.users, h.sessions, h.tokens.markCons (fun _ => rfl) hvisit.1, h.credentials, h.codes, h.audits, h.mails, h.verifications⟩
  · rintro n L' f' w ⟨T, h⟩
    refine next n L' f' w _ h.sub ((h.knows.and (holds_sweepingTokens (h.sub _ hl) h.locks) h.live).change
      fun w hF h => ?_)
    exact ⟨h.users, h.sessions, h.tokens.markAll hF.2.marked fun k x hx hl => by simpa using hF.2.rest k x hx hl,
      h.credentials, h.codes, h.audits, h.mails, h.verifications⟩
  · have hscan : r.Perm ((f w.db).passwordResetTokens.scan (PasswordResetToken.unusedOf u)) := hr
    have h0 := hrel.tokens
    rw [ht] at h0
    refine ⟨[t.id], fun _ h => h, ?_, hk.change fun w hF h => ?_, List.nodup_singleton _, ?_, fun k x hx hl => ?_⟩
    · intro k hk
      rw [List.mem_singleton.mp hk]
      exact ⟨.update, nofun, hlT⟩
    · have h0 := h.tokens
      rw [ht] at h0
      exact ⟨h.users, h.sessions, Table.Change.Rel.markSet h0, h.credentials, h.codes, h.audits, h.mails, h.verifications⟩
    · intro k hk
      rw [List.mem_singleton.mp hk]
      exact ⟨t, (hlt w hF).row, hun⟩
    · by_cases hkt : k = t.id
      · exact Or.inl (by simp [hkt])
      · exact Or.inr (hscan.mem_iff.mpr (Table.mem_scan.mpr ⟨x, by rw [h0.2.2 k hkt]; exact hx, hl⟩))

/-! ## Recovery codes -/

theorem holds_unusedOf {cid k : Uuid} (h : ⟨.mfaRecoveryCode k, .update⟩ ∈ L) :
    (contract A req).Holds i L fun w => ∀ v, w.db.mfaRecoveryCodes.row k = some v → v.unusedOf cid = true :=
  ⟨fun hw hv => by rw [hw.prot _ h nofun]; exact hv, fun _ _ h => h⟩

theorem wp_deleteUnused {cid : Uuid} {Q : ℕ → List RowLock → (Db → Db) → World (store env) ι → Prop}
    {R : IdentityError → List RowLock → (Db → Db) → World (store env) ι → Prop}
    (hk : Knows A req i N L f w ch F) (hc : ch.codes = .keep)
    (next : ∀ n L' f' w (G : World (store env) ι → Prop), (∀ l ∈ L, l ∈ L') →
      Knows A req i N L' f' w { ch with codes := .within (MfaRecoveryCode.unusedOf cid) } (fun w => F w ∧ G w) →
      Q n L' f' w) :
    (contract A req).wp i (MfaRecoveryCodeRepository.deleteUnused cid) L f w Q R := by
  refine wp_read hk (fun _ => rfl) (fun _ _ => rfl) rfl (fun _ _ => trivial) fun w free r hF hrel hr hA hk' => ?_
  refine wp_sweepRows (P := fun _ _ L' f' w => ∃ G : World (store env) ι → Prop, (∀ l ∈ L, l ∈ L') ∧
    Knows A req i N L' f' w { ch with codes := .within (MfaRecoveryCode.unusedOf cid) } fun w => F w ∧ G w) ?_
    (fun n L' f' w h => ?_) ⟨_, fun _ h => h, hk'.change fun w hF h => ?_⟩
  · rintro n id ids L' f' w ⟨G, hL, h⟩
    refine wp_step h nofun (fun _ _ => trivial) fun w free hit hF hrel hp hr hA => ?_
    have hr' : hit = ((f' w.db).mfaRecoveryCodes.row id).any (MfaRecoveryCode.unusedOf cid) := hr
    have hF' := h.holds.own (.deleteUnusedCode id cid) hit hF
    cases hit with
    | false => exact ⟨G, hL, h.holds, hF', h.rel, hp.stmt rfl⟩
    | true =>
      obtain ⟨k, hk, hun⟩ := (Option.any_eq_true _ _).mp hr'.symm
      let H : World (store env) ι → Prop := fun w => ∀ v, w.db.mfaRecoveryCodes.row id = some v → v.unusedOf cid = true
      refine ⟨fun w => G w ∧ H w, fun l hl => List.mem_append_right _ (hL l hl), ?_⟩
      have hH : (contract A req).Holds i (need (.deleteUnusedCode id cid) true ++ L') H :=
        holds_unusedOf (List.mem_cons_self ..)
      have hnow : H w := hrel.codes.of_within hk hun
      refine ⟨(((h.holds.need (.deleteUnusedCode id cid) true).and hH)).imp (fun w h => ⟨h.1.1, h.1.2, h.2⟩)
        (fun w h => ⟨⟨h.1, h.2.1⟩, h.2.2⟩), ⟨hF'.1, hF'.2, hnow⟩, fun w hF => ?_, hp.stmt rfl⟩
      have h := h.rel w ⟨hF.1, hF.2.1⟩
      exact ⟨h.users, h.sessions, h.tokens, h.credentials, h.codes.within_erase hF.2.2, h.audits, h.mails, h.verifications⟩
  · obtain ⟨G, hL, h⟩ := h
    exact next n L' f' w G hL h
  · have h0 := h.codes
    rw [hc] at h0
    exact ⟨h.users, h.sessions, h.tokens, h.credentials, h0.within_keep, h.audits, h.mails, h.verifications⟩

theorem wp_addSet {cid : Uuid} {hashes : List String}
    {Q : Unit → List RowLock → (Db → Db) → World (store env) ι → Prop}
    {R : IdentityError → List RowLock → (Db → Db) → World (store env) ι → Prop}
    (hk : Knows A req i N L f w ch F) (hc : ch.codes = .within (MfaRecoveryCode.unusedOf cid))
    (refused : ∀ L f w, R .integrity L f w)
    (next : ∀ L' f' w, (∀ l ∈ L, l ∈ L') → Knows A req i N L' f' w ch F → Q () L' f' w) :
    (contract A req).wp i (MfaRecoveryCodeRepository.addSet cid hashes) L f w Q R := by
  induction hashes generalizing L f w with
  | nil => exact next L f w (fun _ h => h) hk
  | cons hash hashes ih =>
    refine wp_step hk nofun (fun _ _ => trivial) fun w free r hF hrel hp hr hA => ?_
    have hF' := hk.holds.own (.insertCode cid hash) r hF
    cases r with
    | none => exact refused _ _ _
    | some k =>
      refine ih ⟨hk.holds.need (.insertCode cid hash) (some k), hF', fun w hF => ?_, hp.stmt rfl⟩
        fun L' f' w hL => next L' f' w fun l hl => hL l (List.mem_append_right _ hl)
      have hr' : k = ⟨k.id, cid, hash, none⟩ := hr.1
      have hun : k.unusedOf cid = true := by rw [hr']; simp [MfaRecoveryCode.unusedOf, MfaRecoveryCode.isUsed]
      have h := hk.rel w hF
      have h0 := h.codes
      rw [hc] at h0
      exact ⟨h.users, h.sessions, h.tokens, h.credentials, by rw [hc]; exact h0.within_insert hun, h.audits, h.mails, h.verifications⟩

end Bekaa3D.Identity
