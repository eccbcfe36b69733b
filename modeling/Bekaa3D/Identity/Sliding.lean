import Bekaa3D.Identity.Lockout
import Bekaa3D.Identity.Blindness
import Mathlib.Data.List.Chain
import Mathlib.Data.List.Induction

/-!
# Identity.Sliding — how long a throttle key stays locked

Login requests of one throttle key, one after the other, against a clock and a Redis whose keys expire.

* `Served`, `serveAll`: a run, with what each request found and whether it was refused.
* `Slides`: who keeps trying stays locked; who stays away for the lockout is not refused.
* `Reaches`: requests that come after nine recorded failures find the key still there.
* `lockout_slides_iff`: a run slides if and only if its requests reach the key.
-/

namespace Bekaa3D.Identity

open Txn Cache

/-- A login request, how long after the answer to the one before it, and its surroundings. -/
structure Visit where
  email : String
  password : String
  ip : Option String
  userAgent : Option String
  ctx : AuditContext
  pause : ℕ
  around : Surroundings

def Visit.request (v : Visit) : Request := .login v.email v.password v.ip v.userAgent v.ctx

/-- What a request found when it arrived, and how it ended. -/
structure Served where
  arrival : Instant
  entry : Option (Entry RedisVal)
  refused : Bool
  finish : Instant
  deriving DecidableEq, Repr

/-- The answer of a locked key. -/
def isLockedOut : Except IdentityError Answer → Bool
  | .error e => e = lockedOutError
  | .ok _ => false

section Run

variable (env : Env) (K : RedisKey)

/-- The scene in which a request arrives. -/
def Visit.arrives (v : Visit) (s : Scene) : Scene := ⟨s.now + v.pause, s.redis⟩

def Visit.serve (v : Visit) (s : Scene) : Except IdentityError Answer × Scene :=
  v.around.serve (handle env v.request) (v.arrives s)

def serveAll : Scene → List Visit → List Served
  | _, [] => []
  | s, v :: vs =>
      ⟨s.now + v.pause, s.redis K, isLockedOut (v.serve env s).1, (v.serve env s).2.now⟩ ::
        serveAll (v.serve env s).2 vs

end Run

def lockout : ℕ := seconds LoginThrottle.lockoutSeconds

/-- A request follows the one before it by less than the lockout. -/
def Follows (a b : Served) : Prop := b.arrival < a.arrival + lockout

/-- The key's entry is live when the request arrives. -/
def Served.Finds (q : Served) : Prop := ∃ e, q.entry = some e ∧ e.live q.arrival = true

structure Slides (run : List Served) : Prop where
  /-- After a refusal, requests that follow each other closely are all refused. -/
  locked : ∀ {pre p mid q post}, run = pre ++ p :: (mid ++ q :: post) → p.refused = true →
    (p :: (mid ++ [q])).IsChain Follows → q.refused = true
  /-- After the lockout without any request, the next one is not refused. -/
  forgives : ∀ {pre p q post}, run = pre ++ p :: q :: post → p.finish + lockout ≤ q.arrival → q.refused = false

/-- The key holds nine recorded failures when the request arrives. -/
def Served.Locked (q : Served) : Prop := admits ((Cache.alive q.entry q.arrival).map Entry.val) = false

/-- After a request that finds nine failures, requests that follow each other closely find the key. -/
def Reaches (run : List Served) : Prop :=
  ∀ {pre p mid q post}, run = pre ++ p :: (mid ++ q :: post) → p.Locked → (p :: (mid ++ [q])).IsChain Follows →
    q.Finds

/-! ## One request -/

section Calm

variable {env : Env} {K : RedisKey} {α β : Type}

/-- The key expires within the lockout. -/
def Expires (K : RedisKey) (s : Scene) : Prop :=
  ∀ e, s.redis K = some e → ∃ t, e.expiresAt = some t ∧ t ≤ s.now + lockout

theorem Expires.later {s s' : Scene} (h : Expires K s) (hr : s'.redis K = s.redis K) (hn : s.now ≤ s'.now) :
    Expires K s' := by
  intro e he
  obtain ⟨t, ht, hle⟩ := h e (by rw [← hr]; exact he)
  exact ⟨t, ht, hle.trans (Nat.add_le_add_right hn _)⟩

/-- A part of a handler after which the key still expires within the lockout, and that raises only `E`. -/
def Calm (K : RedisKey) (E : IdentityError → Prop) (p : Handler α) : Prop :=
  ∀ x s, Expires K s → Surroundings.wp x p s (fun _ s' => s.now ≤ s'.now ∧ Expires K s')
    fun e s' => E e ∧ s.now ≤ s'.now ∧ Expires K s'

/-- Exceptions that `login` does not turn into 429. -/
def Unlocked (e : IdentityError) : Prop := loginError e ≠ lockedOutError

variable {E : IdentityError → Prop}

theorem calm_ret (a : α) : Calm K E (Prog.ret a) := fun _ _ h => ⟨le_refl _, h⟩

theorem calm_raise {e : IdentityError} (he : E e) : Calm K E (raise e : Handler α) :=
  fun _ _ h => ⟨he, le_refl _, h⟩

theorem Calm.bind {p : Handler β} {f : β → Handler α} (hp : Calm K E p) (hf : ∀ b, Calm K E (f b)) :
    Calm K E (p.bind f) := by
  intro x s h
  refine Surroundings.wp_bind.mpr (Surroundings.wp_mono (hp x s h) ?_ fun _ _ h => h)
  rintro b s' ⟨hn, hf'⟩
  refine Surroundings.wp_mono (hf b x s' hf') ?_ ?_
  · exact fun _ s'' h => ⟨hn.trans h.1, h.2⟩
  · exact fun _ s'' h => ⟨h.1, hn.trans h.2.1, h.2.2⟩

/-- Statements that do not set the key. -/
def Op.spares (K : RedisKey) : Op → Bool
  | .redisSet k _ _ => k ≠ K
  | .redisIncr k => k ≠ K
  | .redisExpire k _ => k ≠ K
  | _ => true

theorem answer_spares {o : Op} (ho : o.spares K = true) (x : Surroundings) (s : Scene) :
    (x.answer o s).2 K = s.redis K ∨ (x.answer o s).2 K = none := by
  cases o with
  | redisSet k v n => exact Or.inl (Cache.set_of_ne (Ne.symm (of_decide_eq_true ho)))
  | redisIncr k => exact Or.inl (Cache.put_of_ne (Ne.symm (of_decide_eq_true ho)))
  | redisExpire k n => exact Or.inl (Cache.expire_of_ne (Ne.symm (of_decide_eq_true ho)))
  | redisDelete k =>
    by_cases hk : k = K
    · subst hk
      exact Or.inr Cache.delete_self
    · exact Or.inl (Cache.delete_of_ne (Ne.symm hk))
  | _ => exact Or.inl rfl

theorem calm_stmt {o : Op} (ho : o.spares K = true) : Calm K E (stmt o) := by
  intro x s h
  refine ⟨Nat.le_add_right _ _, ?_⟩
  rcases answer_spares ho x s with hr | hr
  · exact h.later hr (Nat.le_add_right _ _)
  · intro e he
    have : (x.answer o s).2 K = some e := he
    rw [hr] at this
    cases this

theorem calm_auditAdd {row : AuditLog} : Calm K Unlocked (AuditLogRepository.add row) := by
  refine (calm_stmt rfl).bind fun ok => ?_
  cases ok
  · exact calm_raise (by unfold Unlocked; decide)
  · exact calm_ret _

theorem calm_challengeRequired {user : User} : Calm K E (AdminMfaGate.challengeRequired user) := by
  unfold AdminMfaGate.challengeRequired
  split
  · exact calm_ret _
  · exact (calm_stmt rfl).bind fun _ => calm_ret _

theorem calm_openSession {user : User} {mfa : Bool} {ua : Option String} {ctx : AuditContext} :
    Calm K Unlocked (openSession env user mfa ua ctx) := by
  refine (calm_stmt rfl).bind fun now => (calm_stmt rfl).bind fun id => ?_
  refine Calm.bind ((calm_stmt rfl).bind fun ok => ?_) fun row => ?_
  · cases ok
    · exact calm_raise (by unfold Unlocked; decide)
    · exact calm_ret _
  · exact calm_auditAdd.bind fun _ => (calm_stmt rfl).bind fun token => calm_ret _

/-- A recorded failure renews the key, or finds it gone. -/
theorem calm_failed {email : String} {ip : Option String} :
    Calm (LoginThrottle.key env email ip) Unlocked
      (do LoginThrottle.recordFailure env email ip; raise .invalidCredentials : Handler α) := by
  intro x s h
  generalize hK : LoginThrottle.key env email ip = K at h ⊢
  have hwp : Surroundings.wp x (do LoginThrottle.recordFailure env email ip; raise .invalidCredentials : Handler α) s
      (fun _ s' => s.now ≤ s'.now ∧ Expires K s') (fun e s' => Unlocked e ∧ s.now ≤ s'.now ∧
        Expires K s') ↔ Unlocked .invalidCredentials ∧
      s.now ≤ s.now + x.lasts (.redisIncr K) s.now + x.lasts (.redisExpire K LoginThrottle.lockoutSeconds)
        (s.now + x.lasts (.redisIncr K) s.now) ∧ Expires K (x.perform (.redisExpire K LoginThrottle.lockoutSeconds)
          (x.perform (.redisIncr K) s).2).2 := by
    subst hK
    rfl
  rw [hwp]
  refine ⟨(by unfold Unlocked; decide), by rw [Nat.add_assoc]; exact Nat.le_add_right _ _, ?_⟩
  intro e he
  generalize (x.perform (.redisIncr K) s).2 = s₁ at he ⊢
  change Cache.expire s₁.redis K s₁.now (s₁.now + lockout) K = some e at he
  change ∃ t, e.expiresAt = some t ∧ t ≤ s₁.now + _ + lockout
  rcases Cache.expire_self s₁.redis K s₁.now (s₁.now + lockout) with ⟨e', -, hr⟩ | ⟨hg, hr⟩
  · rw [hr] at he
    cases he
    exact ⟨_, rfl, by omega⟩
  · rw [hr] at he
    have hdead : e.live s₁.now ≠ true := fun hl => by
      rw [Cache.get_eq_some.mpr ⟨he, hl⟩] at hg
      cases hg
    unfold Entry.live at hdead
    cases ht : e.expiresAt with
    | none => rw [ht] at hdead; exact absurd rfl hdead
    | some t =>
      rw [ht] at hdead
      have : t ≤ s₁.now := by simpa using hdead
      exact ⟨t, rfl, by omega⟩

theorem delay_admits {raw : Option RedisVal} :
    admits raw = true ↔ ¬LoginThrottle.lockoutAtAttempt ≤ LoginThrottle.failures raw + 1 := by
  simp [admits]

/-- A login that is admitted. -/
theorem calm_login {email password : String} {ip ua : Option String} {ctx : AuditContext} {x : Surroundings}
    {s : Scene} (h : Expires (LoginThrottle.key env email ip) s)
    (ha : admits (s.value (LoginThrottle.key env email ip)) = true) :
    Surroundings.wp x (login env email password ip ua ctx) s
      (fun _ s' => s.now ≤ s'.now ∧ Expires (LoginThrottle.key env email ip) s')
      fun e s' => Unlocked e ∧ s.now ≤ s'.now ∧ Expires (LoginThrottle.key env email ip) s' := by
  have checked : Surroundings.wp x (LoginThrottle.check env email ip) s
      (fun _ s' => s.now ≤ s'.now ∧ Expires (LoginThrottle.key env email ip) s') fun _ _ => False := by
    refine Surroundings.wp_call.mpr ?_
    dsimp only [Prog.bind_eq, Prog.ret_bind]
    rw [if_neg (delay_admits.mp (show admits (x.perform (.redisGet (LoginThrottle.key env email ip)) s).1 = true from ha))]
    have later : s.now ≤ (x.perform (.redisGet (LoginThrottle.key env email ip)) s).2.now := Nat.le_add_right _ _
    have hx : Expires (LoginThrottle.key env email ip)
        (x.perform (.redisGet (LoginThrottle.key env email ip)) s).2 := h.later rfl later
    split
    · exact ⟨later, hx⟩
    · exact ⟨later.trans (Nat.le_add_right _ _), hx.later rfl (Nat.le_add_right _ _)⟩
  refine Surroundings.wp_bind.mpr (Surroundings.wp_mono checked ?_ fun _ _ h => h.elim)
  rintro _ s₁ ⟨hn, hx⟩
  suffices hc : Calm (LoginThrottle.key env email ip) Unlocked _ by
    refine Surroundings.wp_mono (hc x s₁ hx) ?_ ?_
    · exact fun _ s'' h => ⟨hn.trans h.1, h.2⟩
    · exact fun _ s'' h => ⟨h.1, hn.trans h.2.1, h.2.2⟩
  refine (calm_stmt rfl).bind fun user => ?_
  cases user with
  | none => exact calm_failed
  | some user =>
    dsimp only
    split
    · exact calm_failed
    split
    · exact calm_raise (show accountDisabledError ≠ lockedOutError by decide)
    refine (calm_stmt rfl).bind fun _ => (calm_stmt rfl).bind fun locked => ?_
    cases locked with
    | none => exact calm_raise (by unfold Unlocked; decide)
    | some locked =>
      dsimp only
      split
      · exact calm_raise (show accountDisabledError ≠ lockedOutError by decide)
      split
      · exact calm_raise (by unfold Unlocked; decide)
      refine calm_challengeRequired.bind fun required => ?_
      cases required
      · exact calm_openSession.bind fun _ => calm_ret _
      · exact calm_auditAdd.bind fun _ => calm_ret _

/-- An admitted request is not answered 429, and leaves a key that expires within the lockout. -/
theorem serve_admitted {v : Visit} {s : Scene} (hK : LoginThrottle.key env v.email v.ip = K)
    (h : Expires K (v.arrives s)) (ha : admits ((v.arrives s).value K) = true) :
    isLockedOut (v.serve env s).1 = false ∧ s.now + v.pause ≤ (v.serve env s).2.now ∧ Expires K (v.serve env s).2 := by
  subst hK
  have hwp : Surroundings.wp v.around (handle env v.request) (v.arrives s)
      (fun _ s' => (v.arrives s).now ≤ s'.now ∧ Expires (LoginThrottle.key env v.email v.ip) s')
      fun e s' => e ≠ lockedOutError ∧ (v.arrives s).now ≤ s'.now ∧
        Expires (LoginThrottle.key env v.email v.ip) s' := by
    refine Surroundings.wp_bind.mpr (Surroundings.wp_bind.mpr (Surroundings.wp_catchAll.mpr
      (Surroundings.wp_mono (calm_login h ha) ?_ fun _ _ h => h)))
    rintro result s₁ ⟨hn, hx⟩
    rcases result with result | required
    · exact ⟨hn, hx⟩
    · have hc : Calm (LoginThrottle.key env v.email v.ip) (· ≠ lockedOutError)
          (do let challengeId ← MfaSessionStore.createLoginChallenge required.userId required.authEpoch
              return .mfaChallenge challengeId MfaSessionStore.challengeTtlSeconds : Handler Answer) :=
        Calm.bind ((calm_stmt rfl).bind fun id => Calm.bind (calm_stmt (by simp [Op.spares, LoginThrottle.key]))
          fun _ => calm_ret _) fun _ => calm_ret _
      refine Surroundings.wp_mono (hc v.around s₁ hx) ?_ ?_
      · exact fun a s₂ h => ⟨hn.trans h.1, h.2⟩
      · exact fun e s₂ h => ⟨h.1, hn.trans h.2.1, h.2.2⟩
  unfold Surroundings.wp at hwp
  change isLockedOut (v.around.serve (handle env v.request) (v.arrives s)).1 = false ∧ _
  cases hr : v.around.serve (handle env v.request) (v.arrives s) with
  | mk a s' =>
    have hs : v.serve env s = (a, s') := hr
    rw [hr] at hwp
    rw [hs]
    cases a with
    | ok a => exact ⟨rfl, hwp⟩
    | error e => exact ⟨decide_eq_false hwp.1, hwp.2⟩

theorem serve_refused {v : Visit} {s : Scene} (hK : LoginThrottle.key env v.email v.ip = K)
    (ha : admits ((v.arrives s).value K) = false) :
    isLockedOut (v.serve env s).1 = true ∧ s.now + v.pause ≤ (v.serve env s).2.now ∧
      (v.serve env s).2.redis = s.redis := by
  obtain ⟨rest, hg, -⟩ := handle_login env v.email v.password v.ip v.userAgent v.ctx
  have hs : v.serve env s = (.error lockedOutError, (v.around.perform (.redisGet K) (v.arrives s)).2) := by
    unfold Visit.serve Visit.request
    rw [hg, hK]
    have hl : LoginThrottle.lockoutAtAttempt ≤ LoginThrottle.failures (v.around.perform (.redisGet K) (v.arrives s)).1 + 1 := by
      by_contra hl
      have ha' : admits (v.around.perform (.redisGet K) (v.arrives s)).1 = false := ha
      rw [delay_admits.mpr hl] at ha'
      cases ha'
    unfold Surroundings.serve
    dsimp only
    rw [if_pos hl]
    rfl
  rw [hs]
  exact ⟨show decide (lockedOutError = lockedOutError) = true from decide_eq_true rfl, Nat.le_add_right _ _, rfl⟩

end Calm

/-! ## Runs -/

section Runs

variable {env : Env} {K : RedisKey} {run : List Served}

/-- One request after another: a refused one leaves the key as it was. -/
structure Then (p q : Served) : Prop where
  kept : p.refused = true → q.entry = p.entry
  expires : ∀ e, q.entry = some e → ∃ t, e.expiresAt = some t ∧ t ≤ p.finish + lockout

/-- What a request finds decides whether it is refused. -/
def Served.Decided (q : Served) : Prop := q.refused = true ↔ q.Locked

/-- **One request.** -/
theorem serve_spec {v : Visit} {s : Scene} (hK : LoginThrottle.key env v.email v.ip = K) (h : Expires K s) :
    (isLockedOut (v.serve env s).1 = true ↔ admits ((v.arrives s).value K) = false) ∧
      (isLockedOut (v.serve env s).1 = true → (v.serve env s).2.redis K = s.redis K) ∧
      Expires K (v.serve env s).2 := by
  have hx : Expires K (v.arrives s) := h.later rfl (Nat.le_add_right _ _)
  cases ha : admits ((v.arrives s).value K) with
  | true =>
    obtain ⟨h1, -, h3⟩ := serve_admitted hK hx ha
    refine ⟨by rw [h1]; simp, fun hl => ?_, h3⟩
    rw [h1] at hl
    cases hl
  | false =>
    obtain ⟨h1, h2, h3⟩ := serve_refused hK ha
    exact ⟨by rw [h1]; simp, fun _ => by rw [h3], hx.later (by rw [h3]; rfl) h2⟩

theorem serveAll_decided {vs : List Visit} {s : Scene} (hK : ∀ v ∈ vs, LoginThrottle.key env v.email v.ip = K)
    (h : Expires K s) : ∀ q ∈ serveAll env K s vs, q.Decided := by
  induction vs generalizing s with
  | nil => exact fun q hq => by cases hq
  | cons v vs ih =>
    obtain ⟨h1, -, h3⟩ := serve_spec (hK v (List.mem_cons_self ..)) h
    rintro q (- | ⟨-, hq⟩)
    · exact h1
    · exact ih (fun v hv => hK v (List.mem_cons_of_mem _ hv)) h3 q hq

theorem serveAll_chain {vs : List Visit} {s : Scene} (hK : ∀ v ∈ vs, LoginThrottle.key env v.email v.ip = K)
    (h : Expires K s) : (serveAll env K s vs).IsChain Then := by
  induction vs generalizing s with
  | nil => exact .nil
  | cons v vs ih =>
    obtain ⟨-, h2, h3⟩ := serve_spec (hK v (List.mem_cons_self ..)) h
    refine (ih (fun v hv => hK v (List.mem_cons_of_mem _ hv)) h3).cons fun q hq => ?_
    cases vs with
    | nil => cases hq
    | cons v' vs =>
      cases hq
      exact ⟨h2, h3⟩

theorem Served.Locked.finds {q : Served} (h : q.Locked) : q.Finds := by
  unfold Served.Locked at h
  cases ha : Cache.alive q.entry q.arrival with
  | none => rw [ha] at h; cases h
  | some e => exact ⟨e, Option.filter_eq_some_iff.mp ha⟩

/-- A refused request, and one that finds the key after it. -/
theorem Then.refused {p q : Served} (h : Then p q) (hp : p.Decided) (hq : q.Decided) (hr : p.refused = true)
    (hf : q.Finds) : q.refused = true := by
  obtain ⟨e, he, hl⟩ := hf
  obtain ⟨e', he', hl'⟩ := (hp.mp hr).finds
  have hee : e' = e := by
    rw [h.kept hr, he'] at he
    cases he
    rfl
  subst hee
  have ha : Cache.alive q.entry q.arrival = some e' := Option.filter_eq_some_iff.mpr ⟨he, hl⟩
  have ha' : Cache.alive p.entry p.arrival = some e' := Option.filter_eq_some_iff.mpr ⟨he', hl'⟩
  refine hq.mpr ?_
  unfold Served.Locked
  rw [ha, ← ha']
  exact hp.mp hr

/-- **The lockout slides** if and only if requests that follow a refusal closely find the key, which is as long
as the last recorded failure lets it live. -/
theorem lockout_slides_iff {vs : List Visit} {s : Scene}
    (hK : ∀ v ∈ vs, LoginThrottle.key env v.email v.ip = K) (h : Expires K s) :
    Slides (serveAll env K s vs) ↔ Reaches (serveAll env K s vs) := by
  have hd := serveAll_decided hK h
  have hc := List.isChain_iff_forall_rel_of_append_cons_cons.mp (serveAll_chain hK h)
  generalize serveAll env K s vs = run at hd hc
  refine ⟨fun hs pre p mid q post hrun hp hf => ?_, fun hr => ⟨?_, ?_⟩⟩
  · have hp' : p.refused = true := (hd p (by rw [hrun]; simp)).mpr hp
    exact ((hd q (by rw [hrun]; simp)).mp (hs.locked hrun hp' hf)).finds
  · intro pre p mid q post hrun hp hf
    have hlock : p.Locked := (hd p (by rw [hrun]; simp)).mp hp
    have hfind := hr hrun hlock hf
    induction mid using List.reverseRecOn generalizing q post with
    | nil => exact (hc hrun).refused (hd p (by rw [hrun]; simp)) (hd q (by rw [hrun]; simp)) hp hfind
    | append_singleton mid m ih =>
      have hrun' : run = (pre ++ p :: mid) ++ m :: q :: post := by rw [hrun]; simp
      have hm : m.refused = true := by
        have hrun₁ : run = pre ++ p :: (mid ++ m :: (q :: post)) := by rw [hrun]; simp
        have hf₁ : (p :: (mid ++ [m])).IsChain Follows := by
          rw [← List.cons_append] at hf
          exact hf.left_of_append
        exact ih hrun₁ hf₁ (hr hrun₁ hlock hf₁)
      exact (hc hrun').refused (hd m (by rw [hrun']; simp)) (hd q (by rw [hrun']; simp)) hm hfind
  · intro pre p q post hrun hlate
    have hdq := hd q (by rw [hrun]; simp)
    by_contra hq
    obtain ⟨e, he, hl⟩ := (hdq.mp (by simpa using hq)).finds
    obtain ⟨t, ht, hle⟩ := (hc hrun).expires e he
    unfold Entry.live at hl
    rw [ht] at hl
    have hlt : q.arrival < t := by simpa using hl
    exact absurd (hlt.trans_le (hle.trans hlate)) (lt_irrefl _)

end Runs

/-! ## Twenty minutes of guesses -/

/-- Statements that take no time, on the account of the small world. -/
def sampleVisit (pause : ℕ) : Visit where
  email := "ada"
  password := "bad"
  ip := none
  userAgent := none
  ctx := {}
  pause := pause
  around := sampleSurroundings sampleDb

/-- Nine guesses in a row, and two more, each 500 seconds after the one before. -/
def sampleVisits : List Visit := List.replicate 9 (sampleVisit 0) ++ List.replicate 2 (sampleVisit (seconds 500))

def sampleServed : List Served := serveAll sampleEnv sampleKey ⟨0, fun _ => none⟩ sampleVisits

theorem lockout_slides_iff_guesses : Slides sampleServed ↔ Reaches sampleServed :=
  lockout_slides_iff (by decide) fun e h => by cases h

/-- The tenth guess is refused; the eleventh comes 500 seconds later, and is admitted: the key has expired 900
seconds after the ninth. -/
theorem lockout_expires_under_guesses : ¬Slides sampleServed := by
  intro h
  have hrun : sampleServed = sampleServed.take 9 ++
      ⟨seconds 531, some ⟨.counter 9, some (seconds 931)⟩, true, seconds 531⟩ ::
        ([] ++ ⟨seconds 1031, some ⟨.counter 9, some (seconds 931)⟩, false, seconds 1031⟩ :: []) := by
    decide +kernel
  have hf := h.locked hrun rfl (List.isChain_pair.mpr (by unfold Follows; decide))
  cases hf

end Bekaa3D.Identity
