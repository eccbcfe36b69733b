import Bekaa3D.Txn.Monitor
import Bekaa3D.Identity.Play
import Mathlib.Data.Finset.Card

/-!
# Identity.Lockout — how many wrong passwords one throttle key lets through

Logins of one throttle key, interleaved statement by statement with each other and with deletions and expiries
of the key.

* `Ledger`: what a history says about the key: the logins admitted and not yet decided, the wrong passwords
  verified and not yet recorded, and how many wrong passwords were verified since the key was last deleted.
* `Spaced`: `check` admits a login only if the recorded failures and the attempts in flight stay below nine.
* `lockout_bound`: under `Spaced`, at most nine wrong passwords are verified between deletions of the key, and
  a login that comes after them is refused before its password is checked.
-/

namespace Bekaa3D.Identity

open Txn

variable (env : Env) (K : RedisKey)

/-- A login whose throttle key is `K`. -/
def Request.guesses : Request → Bool
  | .login email _ ip _ _ => LoginThrottle.key env email ip = K
  | _ => false

/-- A login request, or Redis dropping a key. -/
def Request.throttled : Request → Bool
  | .login _ _ _ _ _ => true
  | .expire _ => true
  | _ => false

/-- The password of the login is not that of the account that was read. -/
def Request.mismatch : Request → Option User → Bool
  | .login _ password _ _ _, user => !user.any fun u => env.verifyPassword password u.passwordHash
  | _, _ => false

/-- The attempt after `raw` recorded failures is admitted. -/
def admits (raw : Option RedisVal) : Bool := LoginThrottle.failures raw + 1 < LoginThrottle.lockoutAtAttempt

/-! ## The ledger of a key -/

structure Ledger (ι : Type) where
  /-- Checked, and the password not verified yet. -/
  admitted : Finset ι := ∅
  /-- A wrong password verified, and the failure not recorded yet. -/
  wrong : Finset ι := ∅
  /-- Ended between the verification and the record, since the key was last deleted. -/
  lost : ℕ := 0
  /-- Wrong passwords verified since the key was last deleted. -/
  verified : ℕ := 0

namespace Ledger

variable {env} {ι : Type} [DecidableEq ι] (req : ι → Request)

/-- Attempts that may still become recorded failures, or never were recorded. -/
def inFlight (g : Ledger ι) : ℕ := g.admitted.card + g.wrong.card + g.lost

def next (g : Ledger ι) (e : Event (store env) ι) : Ledger ι :=
  match e.act with
  | .stmt (.redisGet k) raw =>
      if (req e.who).guesses env K && k = K && admits raw then { g with admitted := insert e.who g.admitted } else g
  | .stmt (.selectUserByEmail _) user =>
      if (req e.who).guesses env K then
        if (req e.who).mismatch env user then
          { g with admitted := g.admitted.erase e.who, wrong := insert e.who g.wrong, verified := g.verified + 1 }
        else { g with admitted := g.admitted.erase e.who }
      else g
  | .stmt (.redisIncr k) _ => if k = K then { g with wrong := g.wrong.erase e.who } else g
  | .stmt (.redisDelete k) _ => if k = K then { g with lost := 0, verified := 0 } else g
  | .crash =>
      { g with
        admitted := g.admitted.erase e.who
        wrong := g.wrong.erase e.who
        lost := g.lost + if e.who ∈ g.wrong then 1 else 0 }
  | _ => g

def of (tr : List (Event (store env) ι)) : Ledger ι := tr.foldl (next K req) {}

end Ledger

section Condition

variable {env} {ι : Type} [DecidableEq ι] (req : ι → Request)

/-- A login is admitted only while the recorded failures and the attempts in flight are fewer than nine. -/
def Spaced (w : World (store env) ι) (e : Event (store env) ι) : Prop :=
  ∀ raw, e.act = .stmt (.redisGet K) raw → (req e.who).guesses env K = true → admits (w.mem K) = true →
    LoginThrottle.failures (w.mem K) + (Ledger.of K req w.tr).inFlight + 1 < LoginThrottle.lockoutAtAttempt

/-- The lockout of the key `K` in the history `tr`. -/
structure LocksOut (tr : List (Event (store env) ι)) : Prop where
  /-- Since the key was last deleted, at most nine wrong passwords were verified. -/
  bound : (Ledger.of K req tr).verified ≤ LoginThrottle.lockoutAtAttempt - 1
  /-- A login that comes after nine of them is refused, and verifies no password. -/
  refuses : ∀ {pre post i raw}, tr = pre ++ ⟨i, .stmt (.redisGet K) raw⟩ :: post → (req i).guesses env K = true →
    LoginThrottle.lockoutAtAttempt - 1 ≤ (Ledger.of K req pre).verified → ∀ e ∈ post, e.who = i →
      e.act = .done (.error lockedOutError) ∨ e.act = .crash

end Condition

/-! ## The phases of a login -/

inductive Attempt where
  | fresh
  | admitted
  | wrong
  | refused
  | idle
  deriving DecidableEq, Repr

/-- Statements that no failure of the key comes from. -/
def Request.leaves (r : Request) : Op → Bool
  | .redisGet k => !r.guesses env K || k ≠ K
  | .selectUserByEmail _ => !r.guesses env K
  | .redisIncr k => k ≠ K
  | .redisSet k _ _ => k ≠ K
  | _ => true

def Attempt.next (r : Request) : Attempt → (o : Op) → Resp o → Option Attempt
  | .fresh, .redisGet k, raw => if k = K then some (if admits raw then .admitted else .refused) else none
  | .admitted, .sleep _, _ => some .admitted
  | .admitted, .selectUserByEmail _, user => some (if r.mismatch env user then .wrong else .idle)
  | .wrong, .redisIncr k, _ => if k = K then some .idle else none
  | .idle, o, _ => if r.leaves env K o then some .idle else none
  | _, _, _ => none

/-- Commits come with the end of a login. -/
def Request.monitor (r : Request) : Monitor lang Attempt where
  stmt := Attempt.next env K r
  commit φ := if φ = .idle then some .idle else none

def Attempt.answers {α : Type} (φ : Attempt) (_ : α) : Prop := φ = .idle

def Attempt.raises (φ : Attempt) (e : IdentityError) : Prop := φ = .idle ∨ φ = .refused ∧ e = lockedOutError

section Phases

variable {env} {r : Request} {α β : Type} {d a : String}

/-- A part of a handler that leaves the key alone. -/
def Idles (env : Env) (K : RedisKey) (r : Request) (p : Handler α) : Prop :=
  p.Tracks (r.monitor env K) .idle (fun φ _ => φ = .idle) fun φ _ => φ = .idle

variable {K}

theorem idles_ret (x : α) : Idles env K r (Prog.ret x) := rfl

theorem idles_raise (e : IdentityError) : Idles env K r (raise e : Handler α) := rfl

theorem idles_stmt {o : Op} (ho : r.leaves env K o = true) : Idles env K r (stmt o) :=
  fun _ => ⟨.idle, by simp only [Request.monitor, Attempt.next, ho, if_true], rfl⟩

theorem Idles.bind {p : Handler β} {f : β → Handler α} (hp : Idles env K r p)
    (hf : ∀ x, Idles env K r (f x)) : Idles env K r (p.bind f) := by
  refine Prog.tracks_bind.mpr (Prog.Tracks.mono hp ?_ fun _ _ h => h)
  rintro φ x rfl
  exact hf x

theorem Idles.transaction {p : Handler α} (hp : Idles env K r p) :
    Idles env K r p.transaction :=
  hp.bind fun _ => ⟨.idle, rfl, rfl⟩

theorem idles_openSession {user : User} {mfa : Bool} {ua : Option String} {ctx : AuditContext} :
    Idles env (.loginThrottle d a) r (openSession env user mfa ua ctx) := by
  refine (idles_stmt rfl).bind fun now => (idles_stmt rfl).bind fun id => ?_
  refine Idles.bind ((idles_stmt rfl).bind fun ok => ?_) fun row => ?_
  · cases ok
    · exact idles_raise _
    · exact idles_ret _
  refine Idles.bind ((idles_stmt rfl).bind fun ok => ?_) fun _ => (idles_stmt rfl).bind fun token => idles_ret _
  cases ok
  · exact idles_raise _
  · exact idles_ret _

theorem idles_challengeRequired {user : User} : Idles env K r (AdminMfaGate.challengeRequired user) := by
  unfold AdminMfaGate.challengeRequired
  split
  · exact idles_ret _
  · exact (idles_stmt rfl).bind fun _ => idles_ret _

theorem idles_auditAdd {row : AuditLog} : Idles env K r (AuditLogRepository.add row) := by
  refine (idles_stmt rfl).bind fun ok => ?_
  cases ok
  · exact idles_raise _
  · exact idles_ret _

/-- The phases in which a login checks, reads the account and records a failure. -/
structure Stages (env : Env) (K : RedisKey) (r : Request) (email password : String) (ip : Option String)
    (start mid bad : Attempt) : Prop where
  check : ∀ raw, ∃ ψ, Attempt.next env K r start (.redisGet (LoginThrottle.key env email ip)) raw = some ψ ∧
    if admits raw then ψ = mid else ψ = .idle ∨ ψ = .refused
  sleep : ∀ n x, Attempt.next env K r mid (.sleep n) x = some mid
  read : ∀ user, ∃ ψ, Attempt.next env K r mid (.selectUserByEmail email) user = some ψ ∧
    if user.any (fun u => env.verifyPassword password u.passwordHash) then ψ = .idle else ψ = bad
  record : ∀ n, Attempt.next env K r bad (.redisIncr (LoginThrottle.key env email ip)) n = some .idle
  expire : ∀ n x, Attempt.next env K r .idle (.redisExpire (LoginThrottle.key env email ip) n) x = some .idle

theorem tracks_login {email password : String} {ip ua : Option String} {ctx : AuditContext}
    {start mid bad : Attempt} (h : Stages env (.loginThrottle d a) r email password ip start mid bad) :
    (login env email password ip ua ctx).Tracks (r.monitor env (.loginThrottle d a)) start
      (fun φ _ => φ = .idle) fun φ e => φ = .idle ∨ φ = .refused ∧ e = .accountLocked LoginThrottle.lockoutSeconds := by
  have weaken : ∀ {α : Type} {p : Handler α}, Idles env (.loginThrottle d a) r p →
      p.Tracks (r.monitor env (.loginThrottle d a)) .idle (fun φ _ => φ = .idle)
        fun φ e => φ = .idle ∨ φ = .refused ∧ e = .accountLocked LoginThrottle.lockoutSeconds :=
    fun hp => Prog.Tracks.mono hp (fun _ _ h => h) fun _ _ h => Or.inl h
  have failed : (do LoginThrottle.recordFailure env email ip; raise .invalidCredentials :
      Handler (LoginResult ⊕ MfaChallengeRequired)).Tracks (r.monitor env (.loginThrottle d a)) bad
        (fun φ _ => φ = .idle) fun φ e => φ = .idle ∨ φ = .refused ∧ e = .accountLocked LoginThrottle.lockoutSeconds :=
    fun n => ⟨.idle, h.record n, fun x => ⟨.idle, h.expire LoginThrottle.lockoutSeconds x, Or.inl rfl⟩⟩
  have checked : (LoginThrottle.check env email ip).Tracks (r.monitor env (.loginThrottle d a)) start
      (fun φ _ => φ = mid)
      fun φ e => φ = .idle ∨ φ = .refused ∧ e = .accountLocked LoginThrottle.lockoutSeconds := by
    intro raw
    obtain ⟨ψ, hψ, hc⟩ := h.check raw
    refine ⟨ψ, hψ, ?_⟩
    dsimp only [Prog.bind_eq, Prog.ret_bind]
    by_cases hl : LoginThrottle.lockoutAtAttempt ≤ LoginThrottle.failures raw + 1
    · rw [if_pos hl]
      rw [if_neg (by simpa [admits] using hl)] at hc
      exact hc.imp_right fun h => ⟨h, rfl⟩
    · rw [if_neg hl]
      rw [if_pos (by simpa [admits] using hl)] at hc
      subst hc
      split
      · rfl
      · exact fun x => ⟨ψ, h.sleep _ x, rfl⟩
  refine Prog.tracks_bind.mpr (Prog.Tracks.mono checked ?_ fun _ _ h => h)
  rintro φ _ rfl user
  obtain ⟨ψ, hψ, hc⟩ := h.read user
  refine ⟨ψ, hψ, ?_⟩
  cases user with
  | none =>
    obtain rfl : ψ = bad := by simpa using hc
    exact failed
  | some user =>
    dsimp only [Prog.ret_bind]
    rw [Option.any_some] at hc
    cases hv : env.verifyPassword password user.passwordHash with
    | false =>
      obtain rfl : ψ = bad := by simpa [hv] using hc
      exact failed
    | true =>
      obtain rfl : ψ = .idle := by simpa [hv] using hc
      refine weaken ?_
      simp only [Bool.not_true, Bool.false_eq_true, if_false]
      split
      · exact idles_raise _
      refine (idles_stmt rfl).bind fun _ => (idles_stmt rfl).bind fun locked => ?_
      cases locked with
      | none => exact idles_raise _
      | some locked =>
        dsimp only
        split
        · exact idles_raise _
        split
        · exact idles_raise _
        refine idles_challengeRequired.bind fun required => ?_
        cases required
        · exact idles_openSession.bind fun _ => idles_ret _
        · exact idles_auditAdd.bind fun _ => idles_ret _

variable (env) in
/-- Logins of the key start with its check. -/
def Attempt.start (K : RedisKey) (r : Request) : Attempt := if r.guesses env K then .fresh else .idle

theorem stages_guess {email password : String} {ip ua : Option String} {ctx : AuditContext}
    (hK : LoginThrottle.key env email ip = K) :
    Stages env K (.login email password ip ua ctx) email password ip .fresh .admitted .wrong where
  check raw := by
    refine ⟨if admits raw then .admitted else .refused, by simp only [Attempt.next, hK, if_true], ?_⟩
    split
    · rfl
    · exact Or.inr rfl
  sleep _ _ := rfl
  read user := by
    refine ⟨_, rfl, ?_⟩
    cases h : user.any fun u => env.verifyPassword password u.passwordHash <;> simp [Request.mismatch, h]
  record _ := by simp only [Attempt.next, hK, if_true]
  expire _ _ := rfl

theorem stages_other {email password : String} {ip ua : Option String} {ctx : AuditContext}
    (hK : LoginThrottle.key env email ip ≠ K) :
    Stages env K (.login email password ip ua ctx) email password ip .idle .idle .idle where
  check raw := ⟨.idle, by simp [Attempt.next, Request.leaves, hK], by split <;> simp⟩
  sleep _ _ := rfl
  read user := ⟨.idle, by simp [Attempt.next, Request.leaves, Request.guesses, hK], by split <;> rfl⟩
  record _ := by simp [Attempt.next, Request.leaves, hK]
  expire _ _ := rfl

/-- **Every request goes through its phases.** -/
theorem tracks_handle (hr : r.throttled = true) :
    (handle env r).Tracks (r.monitor env (.loginThrottle d a)) (Attempt.start env (.loginThrottle d a) r)
      Attempt.answers Attempt.raises := by
  have idle : ∀ {α : Type} {p : Handler α}, Idles env (.loginThrottle d a) r p →
      p.Tracks (r.monitor env (.loginThrottle d a)) .idle Attempt.answers Attempt.raises :=
    fun hp => Prog.Tracks.mono hp (fun _ _ h => h) fun _ _ h => Or.inl h
  cases r with
  | login email password ip ua ctx =>
    have hl : (login env email password ip ua ctx).Tracks
        (Request.monitor env (.loginThrottle d a) (.login email password ip ua ctx))
        (Attempt.start env (.loginThrottle d a) (.login email password ip ua ctx)) (fun φ _ => φ = .idle)
        fun φ e => φ = .idle ∨ φ = .refused ∧ e = .accountLocked LoginThrottle.lockoutSeconds := by
      unfold Attempt.start
      by_cases hK : LoginThrottle.key env email ip = .loginThrottle d a
      · rw [if_pos (by simpa [Request.guesses] using hK)]
        exact tracks_login (stages_guess hK)
      · rw [if_neg (by simpa [Request.guesses] using hK)]
        exact tracks_login (stages_other hK)
    refine Prog.tracks_bind.mpr (Prog.tracks_bind.mpr (Prog.tracks_catchAll.mpr (Prog.Tracks.mono hl ?_ ?_)))
    · rintro φ result rfl
      refine Prog.tracks_bind.mp (idle (Idles.transaction ?_))
      rcases result with result | required
      · exact idles_ret _
      · refine Idles.bind ?_ fun _ => idles_ret _
        exact (idles_stmt rfl).bind fun id => Idles.bind (idles_stmt (by simp [Request.leaves])) fun _ => idles_ret _
    · rintro φ e (rfl | ⟨rfl, rfl⟩)
      · exact Or.inl rfl
      · exact Or.inr ⟨rfl, rfl⟩
  | expire key =>
    exact idle (Idles.transaction ((idles_stmt rfl).bind fun _ => idles_ret _))
  | _ => cases hr

end Phases

/-! ## What one statement does to the ledger -/

section Moves

variable {env} {ι : Type} [DecidableEq ι] {req : ι → Request} {K} {i : ι}

/-- The statements of each phase. -/
inductive Attempt.Moves (env : Env) (K : RedisKey) (r : Request) : Attempt → (o : Op) → Resp o → Attempt → Prop
  | check (raw : Option RedisVal) :
      Moves env K r .fresh (.redisGet K) raw (if admits raw then .admitted else .refused)
  | sleep (n : ℕ) (x : Unit) : Moves env K r .admitted (.sleep n) x .admitted
  | read (email : String) (user : Option User) :
      Moves env K r .admitted (.selectUserByEmail email) user (if r.mismatch env user then .wrong else .idle)
  | record (n : ℕ) : Moves env K r .wrong (.redisIncr K) n .idle
  | other (o : Op) (x : Resp o) (h : r.leaves env K o = true) : Moves env K r .idle o x .idle

theorem Attempt.moves {r : Request} {φ ψ : Attempt} {o : Op} {x : Resp o}
    (h : Attempt.next env K r φ o x = some ψ) : Attempt.Moves env K r φ o x ψ := by
  cases φ with
  | fresh =>
    cases o with
    | redisGet k =>
      dsimp only [Attempt.next] at h
      split at h
      · rename_i hk
        subst hk
        cases h
        exact .check x
      · cases h
    | _ => cases h
  | admitted =>
    cases o with
    | sleep n => cases h; exact .sleep n x
    | selectUserByEmail email => cases h; exact .read email x
    | _ => cases h
  | wrong =>
    cases o with
    | redisIncr k =>
      dsimp only [Attempt.next] at h
      split at h
      · rename_i hk
        subst hk
        cases h
        exact .record x
      · cases h
    | _ => cases h
  | refused => cases h
  | idle =>
    simp only [Attempt.next] at h
    split at h
    · rename_i ho
      cases h
      exact .other o x ho
    · cases h

/-- A statement that leaves the key alone, or deletes it. -/
theorem ledger_leaves {o : Op} (x : Resp o) (ho : (req i).leaves env K o = true) (g : Ledger ι) (mem : Mem) :
    (g.next K req (⟨i, .stmt o x⟩ : Event (store env) ι) = g ∧ memo o x mem K = mem K) ∨
      (g.next K req (⟨i, .stmt o x⟩ : Event (store env) ι) = { g with lost := 0, verified := 0 } ∧
        memo o x mem K = none) := by
  cases o with
  | redisGet k =>
    refine Or.inl ⟨?_, rfl⟩
    simp only [Request.leaves, Bool.or_eq_true, Bool.not_eq_true', decide_eq_true_eq] at ho
    rcases ho with ho | ho <;> simp [Ledger.next, ho]
  | selectUserByEmail email =>
    refine Or.inl ⟨?_, rfl⟩
    simp only [Request.leaves, Bool.not_eq_true'] at ho
    simp [Ledger.next, ho]
  | redisIncr k =>
    have hk : k ≠ K := of_decide_eq_true ho
    exact Or.inl ⟨by simp [Ledger.next, hk], Function.update_of_ne (Ne.symm hk) _ _⟩
  | redisSet k v n =>
    have hk : k ≠ K := of_decide_eq_true ho
    exact Or.inl ⟨rfl, Function.update_of_ne (Ne.symm hk) _ _⟩
  | redisDelete k =>
    by_cases hk : k = K
    · subst hk
      exact Or.inr ⟨by simp [Ledger.next], Function.update_self ..⟩
    · exact Or.inl ⟨by simp [Ledger.next, hk], Function.update_of_ne (Ne.symm hk) _ _⟩
  | _ => exact Or.inl ⟨rfl, rfl⟩

end Moves

/-! ## The invariant -/

section Invariant

variable {env} {ι : Type} [DecidableEq ι] {req : ι → Request} {K} {i : ι} {ph : ι → Attempt} {g : Ledger ι}
  {mem : Mem}

/-- The ledger follows the phases, and the attempts in flight fit under the lockout. -/
structure Kept (env : Env) (K : RedisKey) (req : ι → Request) (ph : ι → Attempt) (g : Ledger ι) (mem : Mem) :
    Prop where
  mine : ∀ i, ph i ≠ .idle → (req i).guesses env K = true
  admitted : ∀ i, i ∈ g.admitted ↔ ph i = .admitted
  wrong : ∀ i, i ∈ g.wrong ↔ ph i = .wrong
  flight : g.inFlight = 0 ∨
    LoginThrottle.failures (mem K) + g.inFlight < LoginThrottle.lockoutAtAttempt
  owed : g.verified ≤ LoginThrottle.failures (mem K) + g.wrong.card + g.lost
  bound : g.verified < LoginThrottle.lockoutAtAttempt

/-- The phases after transaction `i` has gone to `ψ`. -/
theorem Kept.mine_update (h : Kept env K req ph g mem) {ψ : Attempt} (hi : ph i ≠ .idle ∨ ψ = .idle) :
    ∀ j, Function.update ph i ψ j ≠ .idle → (req j).guesses env K = true := by
  intro j hj
  by_cases hji : j = i
  · subst hji
    rw [Function.update_self] at hj
    exact h.mine j (hi.resolve_right hj)
  · rw [Function.update_of_ne hji] at hj
    exact h.mine j hj

theorem mem_insert_update {s : Finset ι} {φ : Attempt} (h : ∀ j, j ∈ s ↔ ph j = φ) :
    ∀ j, j ∈ insert i s ↔ Function.update ph i φ j = φ := by
  intro j
  by_cases hji : j = i
  · subst hji
    simp
  · simp [hji, h j]

theorem mem_erase_update {s : Finset ι} {φ ψ : Attempt} (h : ∀ j, j ∈ s ↔ ph j = φ) (hψ : ψ ≠ φ) :
    ∀ j, j ∈ s.erase i ↔ Function.update ph i ψ j = φ := by
  intro j
  by_cases hji : j = i
  · subst hji
    simp [hψ]
  · simp [hji, h j]

theorem mem_same_update {s : Finset ι} {φ ψ : Attempt} (h : ∀ j, j ∈ s ↔ ph j = φ) (hi : ph i ≠ φ) (hψ : ψ ≠ φ) :
    ∀ j, j ∈ s ↔ Function.update ph i ψ j = φ := by
  intro j
  by_cases hji : j = i
  · subst hji
    simp [hψ, h j, hi]
  · simp [hji, h j]

/-- **One statement** keeps the ledger. -/
theorem Kept.stmt (h : Kept env K req ph g mem) {o : Op} {x : Resp o} {ψ : Attempt}
    (hm : Attempt.Moves env K (req i) (ph i) o x ψ) {db : Db} {free : RowLock → Prop}
    (hx : resp env o db mem free x)
    (hs : o = .redisGet K → (req i).guesses env K = true → admits (mem K) = true →
      LoginThrottle.failures (mem K) + g.inFlight + 1 < LoginThrottle.lockoutAtAttempt) :
    Kept env K req (Function.update ph i ψ) (g.next K req (⟨i, .stmt o x⟩ : Event (store env) ι)) (memo o x mem) := by
  generalize hφ : ph i = φ at hm
  cases hm with
  | check raw =>
    have hg := h.mine i (by rw [hφ]; decide)
    have hraw : raw = mem K := hx
    have hnot : i ∉ g.admitted := by rw [h.admitted, hφ]; decide
    by_cases ha : admits raw = true
    · have hs := hs rfl hg (hraw ▸ ha)
      have hnext : g.next K req (⟨i, .stmt (.redisGet K) raw⟩ : Event (store env) ι) =
          { g with admitted := insert i g.admitted } := by simp [Ledger.next, hg, ha]
      rw [hnext, if_pos ha]
      have hcard : (insert i g.admitted).card = g.admitted.card + 1 := Finset.card_insert_of_notMem hnot
      refine ⟨h.mine_update (Or.inl (by rw [hφ]; decide)), mem_insert_update h.admitted,
        mem_same_update h.wrong (by rw [hφ]; decide) (by decide), Or.inr ?_, h.owed, h.bound⟩
      change LoginThrottle.failures (mem K) + ((insert i g.admitted).card + g.wrong.card + g.lost) < _
      unfold Ledger.inFlight at hs
      rw [hcard]
      omega
    · have hnext : g.next K req (⟨i, .stmt (.redisGet K) raw⟩ : Event (store env) ι) = g := by
        simp [Ledger.next, ha]
      rw [hnext, if_neg ha]
      exact ⟨h.mine_update (Or.inl (by rw [hφ]; decide)),
        mem_same_update h.admitted (by rw [hφ]; decide) (by decide),
        mem_same_update h.wrong (by rw [hφ]; decide) (by decide), h.flight, h.owed, h.bound⟩
  | sleep n x =>
    have hph : Function.update ph i .admitted = ph := Function.update_eq_self_iff.mpr hφ.symm
    rw [hph]
    exact h
  | read email user =>
    have hg := h.mine i (by rw [hφ]; decide)
    have hin : i ∈ g.admitted := (h.admitted i).mpr hφ
    have hcard : (g.admitted.erase i).card + 1 = g.admitted.card := Finset.card_erase_add_one hin
    have hf := h.flight
    have ho := h.owed
    unfold Ledger.inFlight at hf
    by_cases hw : (req i).mismatch env user = true
    · have hnext : g.next K req (⟨i, .stmt (.selectUserByEmail email) user⟩ : Event (store env) ι) =
          { g with admitted := g.admitted.erase i, wrong := insert i g.wrong, verified := g.verified + 1 } := by
        simp [Ledger.next, hg, hw]
      have hnot : i ∉ g.wrong := by rw [h.wrong, hφ]; decide
      have hcard' : (insert i g.wrong).card = g.wrong.card + 1 := Finset.card_insert_of_notMem hnot
      rw [hnext, if_pos hw]
      refine ⟨h.mine_update (Or.inl (by rw [hφ]; decide)), mem_erase_update h.admitted (by decide),
        mem_insert_update h.wrong, Or.inr ?_, ?_, ?_⟩
      · change LoginThrottle.failures (mem K) + ((g.admitted.erase i).card + (insert i g.wrong).card + g.lost) < _
        omega
      · change g.verified + 1 ≤ LoginThrottle.failures (mem K) + (insert i g.wrong).card + g.lost
        omega
      · change g.verified + 1 < _
        omega
    · have hnext : g.next K req (⟨i, .stmt (.selectUserByEmail email) user⟩ : Event (store env) ι) =
          { g with admitted := g.admitted.erase i } := by simp [Ledger.next, hg, hw]
      rw [hnext, if_neg hw]
      refine ⟨h.mine_update (Or.inl (by rw [hφ]; decide)), mem_erase_update h.admitted (by decide),
        mem_same_update h.wrong (by rw [hφ]; decide) (by decide), Or.inr ?_, h.owed, h.bound⟩
      change LoginThrottle.failures (mem K) + ((g.admitted.erase i).card + g.wrong.card + g.lost) < _
      omega
  | record n =>
    have hin : i ∈ g.wrong := (h.wrong i).mpr hφ
    have hcard : (g.wrong.erase i).card + 1 = g.wrong.card := Finset.card_erase_add_one hin
    have hnext : g.next K req (⟨i, .stmt (.redisIncr K) n⟩ : Event (store env) ι) =
        { g with wrong := g.wrong.erase i } := by simp [Ledger.next]
    have hf := h.flight
    have ho := h.owed
    unfold Ledger.inFlight at hf
    have hmem : LoginThrottle.failures (memo (.redisIncr K) n mem K) = LoginThrottle.failures (mem K) + 1 := by
      rw [← (show n = LoginThrottle.failures (mem K) + 1 from hx)]
      simp [memo, LoginThrottle.failures]
    rw [hnext]
    refine ⟨h.mine_update (Or.inr rfl), mem_same_update h.admitted (by rw [hφ]; decide) (by decide),
      mem_erase_update h.wrong (by decide), Or.inr ?_, ?_, h.bound⟩
    · change LoginThrottle.failures (memo (.redisIncr K) n mem K) +
        (g.admitted.card + (g.wrong.erase i).card + g.lost) < _
      omega
    · change g.verified ≤ LoginThrottle.failures (memo (.redisIncr K) n mem K) + (g.wrong.erase i).card + g.lost
      omega
  | other o x ho =>
    have hph : Function.update ph i .idle = ph := Function.update_eq_self_iff.mpr hφ.symm
    rw [hph]
    rcases ledger_leaves x ho g mem with ⟨hg, hmem⟩ | ⟨hg, hmem⟩
    · rw [hg]
      refine ⟨h.mine, h.admitted, h.wrong, ?_, ?_, h.bound⟩
      · rw [hmem]
        exact h.flight
      · rw [hmem]
        exact h.owed
    · rw [hg]
      refine ⟨h.mine, h.admitted, h.wrong, ?_, Nat.zero_le _,
        (by decide : 0 < LoginThrottle.lockoutAtAttempt)⟩
      rw [hmem]
      have hf := h.flight
      change g.admitted.card + g.wrong.card + 0 = 0 ∨ 0 + (g.admitted.card + g.wrong.card + 0) < _
      unfold Ledger.inFlight at hf
      omega

/-- **A crash** keeps the ledger. -/
theorem Kept.crash (h : Kept env K req ph g mem) :
    Kept env K req (Function.update ph i .idle) (g.next K req (⟨i, .crash⟩ : Event (store env) ι)) mem := by
  refine ⟨h.mine_update (Or.inr rfl), mem_erase_update h.admitted (by decide),
    mem_erase_update h.wrong (by decide), ?_, ?_, h.bound⟩
  · have hf := h.flight
    have ha := Finset.card_erase_le (a := i) (s := g.admitted)
    change (g.admitted.erase i).card + (g.wrong.erase i).card + (g.lost + if i ∈ g.wrong then 1 else 0) = 0 ∨ _ +
      ((g.admitted.erase i).card + (g.wrong.erase i).card + (g.lost + if i ∈ g.wrong then 1 else 0)) < _
    unfold Ledger.inFlight at hf
    split
    · rename_i hin
      have := Finset.card_erase_add_one hin
      omega
    · rename_i hout
      rw [Finset.erase_eq_of_notMem hout]
      omega
  · have ho := h.owed
    change g.verified ≤ _ + (g.wrong.erase i).card + (g.lost + if i ∈ g.wrong then 1 else 0)
    split
    · rename_i hin
      have := Finset.card_erase_add_one hin
      omega
    · rename_i hout
      rw [Finset.erase_eq_of_notMem hout]
      omega

end Invariant

/-! ## Every run -/

section Runs

variable {env} {ι : Type} [DecidableEq ι] {req : ι → Request} {K} {d a : String} {ph : ι → Attempt}
  {s s' : Sys (store env) ι}

theorem Ledger.of_snoc (tr : List (Event (store env) ι)) (e : Event (store env) ι) :
    Ledger.of K req (tr ++ [e]) = (Ledger.of K req tr).next K req e := by
  unfold Ledger.of
  rw [List.foldl_append]
  rfl

/-- Logins that came after nine wrong passwords do nothing more than answer. -/
def Refusals (K : RedisKey) (req : ι → Request) (ph : ι → Attempt) (s : Sys (store env) ι) : Prop :=
  ∀ pre post i raw, s.world.tr = pre ++ ⟨i, .stmt (.redisGet K) raw⟩ :: post →
    (req i).guesses env K = true → LoginThrottle.lockoutAtAttempt - 1 ≤ (Ledger.of K req pre).verified →
    (s.txs i = .over ∨ ph i = .refused) ∧
      ∀ e ∈ post, e.who = i → e.act = .done (.error lockedOutError) ∨ e.act = .crash

structure Inv (K : RedisKey) (req : ι → Request) (ph : ι → Attempt) (s : Sys (store env) ι) : Prop where
  tracked : s.Tracked (fun i => (req i).monitor env K) Attempt.answers Attempt.raises ph
  kept : Kept env K req ph (Ledger.of K req s.world.tr) s.world.mem
  refusals : Refusals K req ph s

/-- One more event. -/
theorem Refusals.snoc (h : Refusals K req ph s) {i : ι} {act : Act (store env)} {t : Tx (store env)} {ψ : Attempt}
    {w : World (store env) ι} (hw : w.tr = s.world.tr ++ [⟨i, act⟩]) {p : Prog lang Answer} {L : List RowLock}
    {f : Db → Db} (hi : s.txs i = .run p L f)
    (hold : ph i = .refused → t = .over ∧ (act = .done (.error lockedOutError) ∨ act = .crash))
    (hnew : ∀ {raw}, act = .stmt (.redisGet K) raw → (req i).guesses env K = true →
      LoginThrottle.lockoutAtAttempt - 1 ≤ (Ledger.of K req s.world.tr).verified → ψ = .refused) :
    Refusals K req (Function.update ph i ψ) ⟨w, Function.update s.txs i t⟩ := by
  intro pre post j raw hsplit hg hv
  dsimp only at hsplit ⊢
  rw [hw] at hsplit
  rcases List.eq_nil_or_concat post with rfl | ⟨post, e, rfl⟩
  · obtain ⟨rfl, he⟩ := List.append_inj' hsplit rfl
    cases he
    refine ⟨Or.inr ?_, by simp⟩
    rw [Function.update_self]
    exact hnew rfl hg hv
  · rw [List.concat_eq_append, ← List.cons_append, ← List.append_assoc] at hsplit
    obtain ⟨htr, he⟩ := List.append_inj' hsplit rfl
    cases he
    obtain ⟨hend, hpost⟩ := h _ _ _ _ htr hg hv
    by_cases hj : j = i
    · subst hj
      have hr : ph j = .refused := hend.resolve_left (by rw [hi]; exact fun h => by cases h)
      obtain ⟨ht, ha⟩ := hold hr
      refine ⟨Or.inl (by rw [Function.update_self]; exact ht), fun e he hw => ?_⟩
      rw [List.concat_eq_append, List.mem_append, List.mem_singleton] at he
      rcases he with he | rfl
      · exact hpost e he hw
      · exact ha
    · refine ⟨?_, fun e he hw => ?_⟩
      · rw [Function.update_of_ne hj, Function.update_of_ne hj]
        exact hend
      · rw [List.concat_eq_append, List.mem_append, List.mem_singleton] at he
        rcases he with he | rfl
        · exact hpost e he hw
        · exact absurd hw.symm hj

/-- **One step** keeps the invariant. -/
theorem Inv.step (h : Inv K req ph s) (hs : Step (Spaced K req) s s') : ∃ ph', Inv K req ph' s' := by
  cases hs with
  | @stmt i o k L f x hi hx hl hA =>
    obtain ⟨ψ, hψ, hk⟩ := h.tracked.run hi x
    have hm := Attempt.moves hψ
    refine ⟨Function.update ph i ψ, h.tracked.update fun ht => (by cases ht; exact hk), ?_,
      Refusals.snoc h.refusals rfl hi ?_ ?_⟩
    · rw [World.stmt_tr, Ledger.of_snoc]
      refine h.kept.stmt hm hx ?_
      rintro rfl hg ha
      exact hA x rfl hg ha
    · intro hr
      rw [hr] at hm
      cases hm
    · intro raw he hg hv
      cases he
      generalize hφ : ph i = φ at hm
      cases hm with
      | check raw =>
        refine if_neg fun ha => ?_
        obtain rfl : raw = s.world.mem K := hx
        have hsp := hA _ rfl hg ha
        have ho := h.kept.owed
        unfold Ledger.inFlight at hsp
        omega
      | other _ _ ho =>
        simp [Request.leaves, hg] at ho
  | @commit i k L f hi hA =>
    obtain ⟨ψ, hψ, hk⟩ := h.tracked.run hi
    have hφ : ph i = .idle ∧ ψ = .idle := by
      simp only [Request.monitor] at hψ
      split at hψ
      · rename_i hφ
        cases hψ
        exact ⟨hφ, rfl⟩
      · cases hψ
    refine ⟨Function.update ph i ψ, h.tracked.update fun ht => (by cases ht; exact hk), ?_,
      Refusals.snoc h.refusals rfl hi ?_ fun he => (by cases he)⟩
    · rw [hφ.2, ← hφ.1, Function.update_eq_self, World.commit_tr, Ledger.of_snoc]
      exact h.kept
    · intro hr
      rw [hφ.1] at hr
      cases hr
  | @ret i ans L f hi hA =>
    have hφ : ph i = .idle := h.tracked.run hi
    refine ⟨Function.update ph i (ph i), h.tracked.update fun ht => (by cases ht), ?_,
      Refusals.snoc h.refusals rfl hi ?_ fun he => (by cases he)⟩
    · rw [Function.update_eq_self, World.push_tr, Ledger.of_snoc]
      exact h.kept
    · intro hr
      rw [hφ] at hr
      cases hr
  | @raise i e L f hi hA =>
    have hφ : Attempt.raises (ph i) e := h.tracked.run hi
    refine ⟨Function.update ph i (ph i), h.tracked.update fun ht => (by cases ht), ?_,
      Refusals.snoc h.refusals rfl hi ?_ fun he => (by cases he)⟩
    · rw [Function.update_eq_self, World.push_tr, Ledger.of_snoc]
      exact h.kept
    · intro hr
      rcases hφ with hφ | ⟨-, rfl⟩
      · rw [hφ] at hr
        cases hr
      · exact ⟨rfl, Or.inl rfl⟩
  | @crash i p L f hi hA =>
    refine ⟨Function.update ph i .idle, h.tracked.update fun ht => (by cases ht), ?_,
      Refusals.snoc h.refusals rfl hi (fun _ => ⟨rfl, Or.inr rfl⟩) fun he => (by cases he)⟩
    rw [World.push_tr, Ledger.of_snoc]
    exact h.kept.crash

theorem Inv.start {db : Db} {mem : Mem} (hreq : ∀ i, (req i).throttled = true) :
    Inv (.loginThrottle d a) req (fun i => Attempt.start env (.loginThrottle d a) (req i))
      (system env db mem req) := by
  refine ⟨.start fun i => tracks_handle (hreq i), ⟨fun i hi => ?_, fun i => ?_, fun i => ?_, Or.inl rfl,
    Nat.zero_le _, (by decide : 0 < LoginThrottle.lockoutAtAttempt)⟩, fun pre post i raw h => ?_⟩
  · by_contra hg
    exact hi (if_neg hg)
  · refine ⟨fun h => (Finset.notMem_empty i h).elim, fun h => ?_⟩
    unfold Attempt.start at h
    split at h <;> cases h
  · refine ⟨fun h => (Finset.notMem_empty i h).elim, fun h => ?_⟩
    unfold Attempt.start at h
    split at h <;> cases h
  · exact absurd h (by simp [system, Sys.start])

/-- **The lockout**: in every run of logins and deletions in which a login is admitted only while the recorded
failures and the attempts in flight are fewer than nine. -/
theorem lockout_bound {db : Db} {mem : Mem} {email : String} {ip : Option String}
    (hreq : ∀ i, (req i).throttled = true)
    (hr : Reach (Spaced (LoginThrottle.key env email ip) req) (system env db mem req) s) :
    LocksOut (LoginThrottle.key env email ip) req s.world.tr := by
  obtain ⟨ph, h⟩ : ∃ ph, Inv (LoginThrottle.key env email ip) req ph s := by
    induction hr with
    | refl => exact ⟨_, Inv.start hreq⟩
    | tail _ hstep ih =>
      obtain ⟨ph, h⟩ := ih
      exact h.step hstep
  refine ⟨Nat.le_sub_one_of_lt h.kept.bound, fun htr hg hv e he hw => ?_⟩
  exact (h.refusals _ _ _ _ htr hg hv).2 e he hw

/-! ## Runs of wrong guesses -/

/-- A wrong password for the account of the small world. -/
def sampleGuess : Request := .login "ada" "bad" none none {}

def sampleKey : RedisKey := LoginThrottle.key sampleEnv "ada" none

/-- `Spaced`, decided at every check. -/
def sampleSpaced (w : World (store sampleEnv) (Fin 2)) (e : Event (store sampleEnv) (Fin 2)) : Bool :=
  match e.act with
  | .stmt (.redisGet _) _ =>
      decide (LoginThrottle.failures (w.mem sampleKey) +
        (Ledger.of sampleKey (fun _ => sampleGuess) w.tr).inFlight + 1 < LoginThrottle.lockoutAtAttempt)
  | _ => true

/-- Two guesses, the second between the verification of the first and its record. -/
theorem lockout_bound_overlap : ∃ s : Sys (store sampleEnv) (Fin 2),
    (Ledger.of sampleKey (fun _ => sampleGuess) s.world.tr).verified = 2 ∧
      LocksOut sampleKey (fun _ => sampleGuess) s.world.tr := by
  obtain ⟨s, hr, hs⟩ := play_any (player sampleEnv) sampleSpaced (A := Spaced sampleKey fun _ => sampleGuess)
    (fun {w e} h raw he _ _ => by
      unfold sampleSpaced at h
      rw [he] at h
      exact of_decide_eq_true h)
    (system sampleEnv sampleDb sampleMem fun _ => sampleGuess)
    [.go 0 {}, .go 0 {}, .go 1 {}, .go 0 {}, .go 0 {}, .go 1 {}, .go 1 {}]
    (fun s => decide ((Ledger.of sampleKey (fun _ => sampleGuess) s.world.tr).verified = 2)) (by decide +kernel)
  exact ⟨s, of_decide_eq_true hs, lockout_bound (fun _ => rfl) hr⟩

/-- Ten guesses that are all checked before the first of them is recorded: ten wrong passwords are verified. -/
theorem lockout_overrun : ∃ s : Sys (store sampleEnv) (Fin 10),
    Reach Any (system sampleEnv sampleDb sampleMem fun _ => sampleGuess) s ∧
      (Ledger.of sampleKey (fun _ => sampleGuess) s.world.tr).verified = LoginThrottle.lockoutAtAttempt := by
  obtain ⟨s, hr, hs⟩ := play_any (player sampleEnv) (fun _ _ => true) (A := Any) (fun _ => trivial)
    (system sampleEnv sampleDb sampleMem fun _ : Fin 10 => sampleGuess)
    ((List.finRange 10).map (.go · {}) ++ (List.finRange 10).map (.go · {}))
    (fun s => decide ((Ledger.of sampleKey (fun _ => sampleGuess) s.world.tr).verified =
      LoginThrottle.lockoutAtAttempt)) (by decide +kernel)
  exact ⟨s, hr, of_decide_eq_true hs⟩

end Runs

end Bekaa3D.Identity
