import Bekaa3D.Identity.MfaRoutes

/-!
# Identity.System — the requests of the identity context, interleaved

`system env db mem req` runs, for each `i`, the request `req i` as a transaction on the store that starts as
`db` and `mem`.

* `runs`: every request keeps the contract.
* `Told`: what the history of a reachable state says about its transactions.  Each statement was issued as the
  contract promises, statements that have a kind ran once, and nothing follows a commit.
* `commit_step`: a commit makes an allowed change.
-/

namespace Bekaa3D.Identity

open Txn

variable {env : Env} {ι : Type} [DecidableEq ι] {A : World (store env) ι → Event (store env) ι → Prop}
  {req : ι → Request} {db : Db} {mem : Mem} {i j : ι} {w w' : World (store env) ι}

/-- The requests `req`, before any has run. -/
def system (env : Env) (db : Db) (mem : Mem) (req : ι → Request) : Sys (store env) ι :=
  Sys.start db mem fun i => handle env (req i)

/-- **Every request keeps the contract**, whatever the others do. -/
theorem runs (hw : w.tr = []) : (contract A req).Run i (handle env (req i)) [] id w := by
  cases h : req i with
  | login email password ip ua ctx => rw [← h]; exact run_login h hw
  | logout claims csrf ctx => rw [← h]; exact run_logout h hw
  | refresh raw csrf ctx => rw [← h]; exact run_refresh h hw
  | requestPasswordReset email ctx => rw [← h]; exact run_requestPasswordReset h hw
  | confirmPasswordReset token password ctx => rw [← h]; exact run_confirmPasswordReset h hw
  | verifyEmail token ctx => rw [← h]; exact run_verifyEmail h hw
  | updateUser claims csrf userId isActive ctx => rw [← h]; exact run_updateUser h hw
  | setupMfa claims csrf password ctx => rw [← h]; exact run_setupMfa h hw
  | confirmMfaSetup claims csrf code ctx => rw [← h]; exact run_confirmMfaSetup h hw
  | verifyMfa challengeId code recovery ua ctx => rw [← h]; exact run_verifyMfa h hw
  | completeMfaLogin userId epoch ua ctx => rw [← h]; exact run_completeMfaLogin h hw
  | regenerateRecoveryCodes claims csrf password ctx => rw [← h]; exact run_regenerateRecoveryCodes h hw
  | expire key => rw [← h]; exact run_expire h hw

/-- A property of the world that every step keeps, given the contract, holds of every reachable state. -/
theorem invariant {J : World (store env) ι → Prop} {s : Sys (store env) ι}
    (hJ : (contract A req).Keeps (Reach A (system env db mem req)) J) (h0 : J ⟨db, mem, []⟩)
    (hr : Reach A (system env db mem req) s) : J s.world :=
  Logic.invariant (Φ := contract A req) (fun _ => runs rfl) hJ h0 hr

/-- From any reachable state on, the database grows. -/
theorem grows {s s' : Sys (store env) ι} (hr : Reach A (system env db mem req) s) (hs : Reach A s s') :
    Grows s.world.db s'.world.db :=
  Logic.gr_reach (Logic.sound (Φ := contract A req) (fun _ => runs rfl) hr) hs

/-! ## What the history says -/

section Mono

omit [DecidableEq ι]

theorem OpensFor.mono {r : Request} {u : User} (h : OpensFor w i u r) (hw : ∀ e ∈ w.tr, e ∈ w'.tr) :
    OpensFor w' i u r := by
  cases r with
  | login email password ip ua ctx =>
    obtain ⟨u₀, hd, h⟩ := h
    exact ⟨u₀, hd.mono hw, h⟩
  | completeMfaLogin userId epoch ua ctx => exact h
  | verifyMfa challengeId code recovery ua ctx => exact Did.mono h hw
  | _ => exact h

theorem MintsFor.mono {r : Request} {c : AccessTokenClaims} {u : User} (h : MintsFor w i c u r)
    (hw : ∀ e ∈ w.tr, e ∈ w'.tr) : MintsFor w' i c u r := by
  cases r with
  | refresh raw csrf ctx =>
    intro hc
    obtain ⟨v, hv⟩ := h hc
    exact ⟨v, hv.mono hw⟩
  | _ =>
    obtain ⟨x, h1, h2, hx⟩ := h
    exact ⟨x, h1, h2, hx.mono hw⟩

theorem CompletesFor.mono {r : Request} {sessionId : Uuid} (h : CompletesFor w i sessionId r)
    (hw : ∀ e ∈ w.tr, e ∈ w'.tr) : CompletesFor w' i sessionId r := by
  cases r with
  | confirmMfaSetup claims csrf code ctx =>
    obtain ⟨h, c, hc⟩ := h
    exact ⟨h, c, hc.mono hw⟩
  | verifyMfa challengeId code recovery ua ctx =>
    obtain ⟨x, c, h, hx, hc, he⟩ := h
    exact ⟨x, c, h, hx.mono hw, hc.mono hw, he⟩
  | _ => exact h

/-- What was known at a statement is still known. -/
theorem Chk.mono {r : Request} {f : Db → Db} {o : Op} (h : Chk w i r f o) (hw : ∀ e ∈ w.tr, e ∈ w'.tr) :
    Chk w' i r id o := by
  unfold Chk at h ⊢
  split
  · exact fun _ => rfl
  · exact fun _ => rfl
  · exact fun _ => rfl
  · obtain ⟨⟨v, hid, hd⟩, -⟩ := h
    exact ⟨⟨v, hid, hd.mono hw⟩, fun _ => rfl⟩
  · obtain ⟨u, v, hd⟩ := h
    exact ⟨u, v, hd.mono hw⟩
  · obtain ⟨u, hu, h1, h2, h3⟩ := h
    exact ⟨u, hu.mono hw, h1, h2, h3.mono hw⟩
  · rcases h with h | ⟨u, hu, h1, h2, h3⟩
    · exact Or.inl h
    · exact Or.inr ⟨u, hu.mono hw, h1, h2, h3.mono hw⟩
  · obtain ⟨u, hu, h1, h2, h3⟩ := h
    exact ⟨u, hu.mono hw, h1, h2, h3.mono hw⟩
  · exact CompletesFor.mono h hw
  · intro challengeId code recovery ua ctx hr
    obtain ⟨⟨v, hv⟩, hd⟩ := h challengeId code recovery ua ctx hr
    exact ⟨⟨v, hv.mono hw⟩, hd.mono hw⟩
  · exact h
  · trivial

structure Told (req : ι → Request) (w : World (store env) ι) : Prop where
  /-- A statement with a kind runs once. -/
  once : ∀ {i k} {o : Op} {r : Resp o} {o' : Op} {r' : Resp o'}, o.kind = some k → o'.kind = some k → Did w i o r →
    Did w i o' r' → (⟨o, r⟩ : (o : Op) × Resp o) = ⟨o', r'⟩
  chk : ∀ {i} {o : Op} {r : Resp o}, Did w i o r → Chk w i (req i) id o
  /-- Nothing follows a commit. -/
  last : ∀ {i} {o : Op} {r : Resp o}, ¬Before ⟨i, .commit⟩ ⟨i, .stmt o r⟩ w.tr
  single : ∀ {i}, ¬Before ⟨i, .commit⟩ ⟨i, .commit⟩ w.tr

section Once

variable (h : Told req w)

include h

/-- A request locks one account. -/
theorem Told.lockUser {a b : Uuid} {r r' : Option User} (hd : Did w i (.selectUserForUpdate a) r)
    (hd' : Did w i (.selectUserForUpdate b) r') : a = b ∧ r = r' := by
  cases h.once rfl rfl hd hd'
  exact ⟨rfl, rfl⟩

theorem Told.readUser {a b : String} {r r' : Option User} (hd : Did w i (.selectUserByEmail a) r)
    (hd' : Did w i (.selectUserByEmail b) r') : a = b ∧ r = r' := by
  cases h.once rfl rfl hd hd'
  exact ⟨rfl, rfl⟩

theorem Told.readVerification {a b : String} {r r' : Option VerificationToken}
    (hd : Did w i (.selectVerificationTokenByHash a) r) (hd' : Did w i (.selectVerificationTokenByHash b) r') :
    a = b ∧ r = r' := by
  cases h.once rfl rfl hd hd'
  exact ⟨rfl, rfl⟩

theorem Told.lockSession {a b : Uuid} {r r' : Option Session} (hd : Did w i (.selectSessionForUpdate a) r)
    (hd' : Did w i (.selectSessionForUpdate b) r') : a = b ∧ r = r' := by
  cases h.once rfl rfl hd hd'
  exact ⟨rfl, rfl⟩

theorem Told.lockToken {a b : String} {r r' : Option PasswordResetToken}
    (hd : Did w i (.selectResetTokenForUpdate a) r) (hd' : Did w i (.selectResetTokenForUpdate b) r') :
    a = b ∧ r = r' := by
  cases h.once rfl rfl hd hd'
  exact ⟨rfl, rfl⟩

theorem Told.insertToken {a b : Uuid} {h₁ h₂ : String} {e₁ e₂ : Instant} {r r' : Option PasswordResetToken}
    (hd : Did w i (.insertResetToken a h₁ e₁) r) (hd' : Did w i (.insertResetToken b h₂ e₂) r') : r = r' := by
  cases h.once rfl rfl hd hd'
  rfl

theorem Told.insertSession {x y : Session} {b b' : Bool} (hd : Did w i (.insertSession x) b)
    (hd' : Did w i (.insertSession y) b') : x = y ∧ b = b' := by
  cases h.once rfl rfl hd hd'
  exact ⟨rfl, rfl⟩

end Once

/-- An event that is neither a statement nor a commit. -/
theorem Told.push (h : Told req w) {a : Act (store env)} (ha : ∀ o r, a ≠ .stmt o r) (hc : a ≠ .commit) :
    Told req (w.push j a) := by
  refine ⟨fun hk hk' hd hd' => h.once hk hk' ((did_push ha).mp hd) ((did_push ha).mp hd'),
    fun hd => (h.chk ((did_push ha).mp hd)).mono fun e he => List.mem_append_left _ he,
    fun {i o r} hb => ?_, fun {i} hb => ?_⟩
  · rcases before_append.mp hb with hb | ⟨he, -⟩
    · exact h.last hb
    · cases he
      exact ha o r rfl
  · rcases before_append.mp hb with hb | ⟨he, -⟩
    · exact h.single hb
    · cases he
      exact hc rfl

theorem Told.stmt (h : Told req w) {o : Op} {r : Resp o} {f : Db → Db} (hu : ¬Committed w i)
    (hk : ∀ k, o.kind = some k → NoneOf w i k) (hc : Chk w i (req i) f o) : Told req (w.stmt i o r) := by
  refine ⟨fun {j k o₁ r₁ o₂ r₂} h₁ h₂ hd₁ hd₂ => ?_, fun {j o' r'} hd => ?_, fun {j o' r'} hb => ?_, fun {j} hb => ?_⟩
  · by_cases hj : j = i
    · subst hj
      rcases did_stmt.mp hd₁ with hd₁ | hd₁ <;> rcases did_stmt.mp hd₂ with hd₂ | hd₂
      · exact h.once h₁ h₂ hd₁ hd₂
      · cases hd₂
        exact absurd hd₁ (hk k h₂ o₁ r₁ h₁)
      · cases hd₁
        exact absurd hd₂ (hk k h₁ o₂ r₂ h₂)
      · exact hd₁.symm.trans hd₂
    · exact h.once h₁ h₂ ((did_stmt_ne hj).mp hd₁) ((did_stmt_ne hj).mp hd₂)
  · by_cases hj : j = i
    · subst hj
      rcases did_stmt.mp hd with hd | hd
      · exact (h.chk hd).mono fun e he => World.mem_stmt he
      · cases hd
        exact hc.mono fun e he => World.mem_stmt he
    · exact (h.chk ((did_stmt_ne hj).mp hd)).mono fun e he => World.mem_stmt he
  · rcases before_append.mp hb with hb | ⟨he, hm⟩
    · exact h.last hb
    · cases he
      exact hu hm
  · rcases before_append.mp hb with hb | ⟨he, -⟩
    · exact h.single hb
    · cases he

theorem Told.commit (h : Told req w) {f : Db → Db} (hu : ¬Committed w i) : Told req (w.commit i f) := by
  refine ⟨fun hk hk' hd hd' => h.once hk hk' (did_commit.mp hd) (did_commit.mp hd'),
    fun hd => (h.chk (did_commit.mp hd)).mono fun e he => List.mem_append_left _ he,
    fun {j o r} hb => ?_, fun {j} hb => ?_⟩
  · rcases before_append.mp hb with hb | ⟨he, -⟩
    · exact h.last hb
    · cases he
  · rcases before_append.mp hb with hb | ⟨he, hm⟩
    · exact h.single hb
    · cases he
      exact hu hm

end Mono

/-- **What the history of a reachable state says.** -/
theorem told {s : Sys (store env) ι} (hr : Reach A (system env db mem req) s) : Told req s.world := by
  refine invariant ?_ ?_ hr
  · exact {
      stmt := fun _ hJ _ _ hc _ => hJ.stmt hc.1 hc.2.1 hc.2.2
      commit := fun _ hJ _ _ hc _ => hJ.commit hc.1
      done := fun _ hJ _ _ => hJ.push (fun _ _ h => by cases h) fun h => by cases h
      crash := fun _ hJ _ => hJ.push (fun _ _ h => by cases h) fun h => by cases h }
  · refine ⟨fun _ _ hd => ?_, fun hd => ?_, not_before_nil, not_before_nil⟩ <;> cases hd

/-- One account is locked by one transaction that has not ended. -/
theorem lockUser_exclusive {s : Sys (store env) ι} (hr : Reach A (system env db mem req) s) {v v' : User}
    (hd : Did s.world i (.selectUserForUpdate v.id) (some v)) (hd' : Did s.world j (.selectUserForUpdate v'.id) (some v'))
    (hid : v.id = v'.id) (hn : ¬s.world.Ended i) (hn' : ¬s.world.Ended j) : i = j :=
  did_exclusive hr hd hd' hn hn' (List.mem_singleton.mpr rfl) (List.mem_singleton.mpr rfl)
    (by simp [RowLock.conflict, LockMode.conflict, hid])

theorem once : (contract A req).Once := ⟨fun h => h.1, fun h => h.1⟩

/-- What the history says at every allowed commit, it says of every committed transaction. -/
theorem committed_of {P : World (store env) ι → ι → Prop}
    (mono : ∀ {w w' : World (store env) ι} {i : ι}, (∀ e ∈ w.tr, e ∈ w'.tr) → P w i → P w' i)
    (h : ∀ {w : World (store env) ι} {i : ι} {ch : Change}, Told req w → Allowed A w i (req i) ch → P w i)
    {s : Sys (store env) ι} (hr : Reach A (system env db mem req) s) (hc : Committed s.world i) : P s.world i := by
  suffices hJ : ∀ i, Committed s.world i → P s.world i from hJ i hc
  refine invariant (J := fun w => ∀ i, Committed w i → P w i) ?_ (fun i hi => (List.not_mem_nil hi).elim) hr
  exact {
    stmt := fun _ hJ _ _ _ _ j hj => mono (fun e he => World.mem_stmt he) (hJ j (committed_stmt_iff.mp hj))
    commit := fun hs hJ _ _ hc _ j hj => by
      obtain ⟨ch, ha, -⟩ := hc.2
      rcases committed_commit.mp hj with hj | rfl
      · exact mono (fun e he => List.mem_append_left _ he) (hJ j hj)
      · exact mono (fun e he => List.mem_append_left _ he) (h (told hs) ha)
    done := fun _ hJ _ _ j hj => mono (fun e he => List.mem_append_left _ he)
      (hJ j ((committed_push fun h => by cases h).mp hj))
    crash := fun _ hJ _ j hj => mono (fun e he => List.mem_append_left _ he)
      (hJ j ((committed_push fun h => by cases h).mp hj)) }

/-! ## Single steps -/

section Steps

variable {s s' : Sys (store env) ι}

/-- A step that is a commit makes an allowed change. -/
theorem commit_step (hr : Reach A (system env db mem req) s) (h : Step A s s')
    (htr : s'.world.tr = s.world.tr ++ [⟨i, .commit⟩]) :
    ¬Committed s.world i ∧ ∃ ch, Allowed A s.world i (req i) ch ∧ ch.Rel s.world.db s'.world.db := by
  obtain ⟨f, -, hc, hw⟩ := Logic.commit_step (Φ := contract A req) (fun _ => runs rfl) once hr h htr
  rw [hw]
  exact hc

/-- A step that is a statement gets one of the replies the statement may get, on what its transaction sees. -/
theorem stmt_step (hr : Reach A (system env db mem req) s) (h : Step A s s') {o : Op} {r : Resp o}
    (htr : s'.world.tr = s.world.tr ++ [⟨i, .stmt o r⟩]) :
    ∃ f free, Chk s.world i (req i) f o ∧ resp env o (f s.world.db) s.world.mem free r := by
  have hs := Logic.sound (Φ := contract A req) (fun _ => runs rfl) hr
  cases h with
  | @stmt j o' k L f r' hi hresp hl hA =>
    obtain ⟨⟨-, -, hc⟩, -⟩ := (hs.run _ _ _ _ hi) s.world (.refl _ _ _)
    cases List.append_cancel_left htr
    exact ⟨f, _, hc, hresp⟩
  | commit | ret | raise | crash => cases List.append_cancel_left htr

/-- A step commits an allowed change, or is quiet. -/
theorem step_cases (hr : Reach A (system env db mem req) s) (h : Step A s s') :
    (∃ i, Quiet i s.world s'.world) ∨ ∃ i f ch, ¬s.world.Ended i ∧ Allowed A s.world i (req i) ch ∧
      ch.Rel s.world.db (f s.world.db) ∧ s'.world = s.world.commit i f := by
  rcases Logic.step_cases (Φ := contract A req) (fun _ => runs rfl) once hr h with hq | ⟨i, f, -, hn, hc, hw⟩
  · exact Or.inl hq
  · obtain ⟨-, ch, ha, hrel⟩ := hc
    exact Or.inr ⟨i, f, ch, hn, ha, hrel, hw⟩

end Steps

/-- A property of the committed transactions that every commit keeps. -/
theorem invariant_commit {J : World (store env) ι → Prop} {s : Sys (store env) ι}
    (quiet : ∀ {i : ι} {w w' : World (store env) ι}, Quiet i w w' → J w → J w')
    (commit : ∀ {s : Sys (store env) ι} {i : ι} {f : Db → Db} {ch : Change},
      Reach A (system env db mem req) s → J s.world → A s.world ⟨i, .commit⟩ → ¬s.world.Ended i →
      Allowed A s.world i (req i) ch → ch.Rel s.world.db (f s.world.db) → Grows s.world.db (f s.world.db) →
      J (s.world.commit i f))
    (h0 : J ⟨db, mem, []⟩) (hr : Reach A (system env db mem req) s) : J s.world := by
  refine Logic.invariant_commit (Φ := contract A req) (fun _ => runs rfl) once quiet (fun hs hJ hA hn hc => ?_) h0 hr
  obtain ⟨-, ch, ha, hrel⟩ := hc
  exact commit hs hJ hA hn ha hrel (hrel.grows ha.grows)

/-- A property of the committed database that every allowed commit keeps, from a reachable state on. -/
theorem invariant_from {J : Db → Prop} {s s' : Sys (store env) ι} (hr : Reach A (system env db mem req) s)
    (commit : ∀ {s₁ : Sys (store env) ι} {i : ι} {db' : Db} {ch : Change}, Reach A s s₁ → J s₁.world.db →
      ¬s₁.world.Ended i → Allowed A s₁.world i (req i) ch → ch.Rel s₁.world.db db' → J db')
    (h0 : J s.world.db) (hs : Reach A s s') : J s'.world.db := by
  refine Logic.invariant_from (Φ := contract A req) (fun _ => runs rfl) once hr (fun h₁ hJ hn hc => ?_) h0 hs
  obtain ⟨-, ch, ha, hrel⟩ := hc
  exact commit h₁ hJ hn ha hrel

end Bekaa3D.Identity
