import Bekaa3D.Cache.Expiring
import Bekaa3D.Identity.Api

/-!
# Identity.Timed — login requests against a clock

Handlers run against a clock and a Redis whose keys expire.  What a handler reads elsewhere is given by its
surroundings.

* `Surroundings`: the replies of the database and the random sources, and how long each statement takes.
* `perform`: one statement.  Redis answers at the time at which the statement is issued; sleeping takes its
  seconds.
* `serve`: a handler on its own.
* `wp`: what a handler ends in; its rules.
* `handle_login`: a login statement by statement.
-/

namespace Bekaa3D.Identity

open Txn Cache

/-- The clock, and Redis. -/
structure Scene where
  now : Instant
  redis : Cache.Store RedisKey RedisVal

structure Surroundings where
  /-- The reply of the database or a random source, at a time. -/
  reply : (o : Op) → Instant → Resp o
  /-- The microseconds that a statement takes. -/
  takes : Op → Instant → ℕ

/-- The value of a live key. -/
def Scene.value (s : Scene) (key : RedisKey) : Option RedisVal := (Cache.get s.redis key s.now).map Entry.val

namespace Surroundings

variable (x : Surroundings)

/-- The reply to a statement, and Redis after it. -/
def answer : (o : Op) → Scene → Resp o × Cache.Store RedisKey RedisVal
  | .now, s => (s.now, s.redis)
  | .redisGet key, s => (s.value key, s.redis)
  | .redisSet key val ex, s => ((), Cache.set s.redis key val (some (s.now + seconds ex)))
  | .redisIncr key, s =>
      let n := LoginThrottle.failures (s.value key) + 1
      (n, Cache.put s.redis key (.counter n) s.now)
  | .redisExpire key n, s => ((), Cache.expire s.redis key s.now (s.now + seconds n))
  | .redisDelete key, s => ((), Cache.delete s.redis key)
  | o, s => (x.reply o s.now, s.redis)

/-- How long a statement keeps its request. -/
def lasts : Op → Instant → ℕ
  | .sleep n, t => seconds n + x.takes (.sleep n) t
  | o, t => x.takes o t

def perform (o : Op) (s : Scene) : Resp o × Scene :=
  ((x.answer o s).1, ⟨s.now + x.lasts o s.now, (x.answer o s).2⟩)

/-- The delay that a statement imposes. -/
def delay : Op → List ℕ
  | .sleep n => [n]
  | _ => []

/-- A handler on its own: its end, and the scene after it. -/
def serve {α : Type} : Handler α → Scene → Except IdentityError α × Scene
  | .ret a, s => (.ok a, s)
  | .raise e, s => (.error e, s)
  | .commit k, s => serve k s
  | .call o k, s => serve (k (x.perform o s).1) (x.perform o s).2

/-- The handler answers in `Q` or raises in `R`. -/
def wp {α : Type} (p : Handler α) (s : Scene) (Q : α → Scene → Prop) (R : IdentityError → Scene → Prop) : Prop :=
  match (x.serve p s).1 with
  | .ok a => Q a (x.serve p s).2
  | .error e => R e (x.serve p s).2

section Rules

variable {x} {α β : Type} {s : Scene} {Q : α → Scene → Prop} {R : IdentityError → Scene → Prop}

@[simp] theorem wp_ret {a : α} : x.wp (Prog.ret a) s Q R ↔ Q a s := Iff.rfl

@[simp] theorem wp_raise {e : IdentityError} : x.wp (Prog.raise e) s Q R ↔ R e s := Iff.rfl

theorem wp_call {o : Op} {k : Resp o → Handler α} :
    x.wp (Prog.call o k) s Q R ↔ x.wp (k (x.perform o s).1) (x.perform o s).2 Q R := Iff.rfl

theorem wp_bind {p : Handler β} {f : β → Handler α} :
    x.wp (p.bind f) s Q R ↔ x.wp p s (fun b s => x.wp (f b) s Q R) R := by
  induction p generalizing s with
  | ret b => rfl
  | raise e => rfl
  | call o k ih => exact ih _
  | commit k ih => exact ih

theorem wp_catchAll {p : Handler α} {h : IdentityError → Handler α} :
    x.wp (p.catchAll h) s Q R ↔ x.wp p s Q fun e s => x.wp (h e) s Q R := by
  induction p generalizing s with
  | ret a => rfl
  | raise e => rfl
  | call o k ih => exact ih _
  | commit k ih => exact ih

theorem wp_mono {p : Handler α} {Q' : α → Scene → Prop} {R' : IdentityError → Scene → Prop} (h : x.wp p s Q R)
    (hQ : ∀ a s, Q a s → Q' a s) (hR : ∀ e s, R e s → R' e s) : x.wp p s Q' R' := by
  unfold wp at h ⊢
  split at h
  · exact hQ _ _ h
  · exact hR _ _ h

end Rules

end Surroundings

/-! ## The shape of a login -/

section Login

variable {env : Env}

/-- The password is not the account's. -/
def Fails (env : Env) (password : String) (user : Option User) : Prop :=
  ∀ u, user = some u → env.verifyPassword password u.passwordHash = false

variable (env) in
/-- `login` checks, reads the account, and if the password fails it records that and raises. -/
theorem login_fails (email password : String) (ip ua : Option String) (ctx : AuditContext) :
    ∃ rest : Option User → Handler (LoginResult ⊕ MfaChallengeRequired),
      login env email password ip ua ctx =
        (LoginThrottle.check env email ip).bind (fun _ => Prog.call (S := lang) (.selectUserByEmail email) rest) ∧
      ∀ user, Fails env password user →
        rest user = (LoginThrottle.recordFailure env email ip).bind fun _ => raise .invalidCredentials := by
  refine ⟨_, rfl, fun user h => ?_⟩
  cases user with
  | none => rfl
  | some user =>
    dsimp only [Prog.ret_bind]
    rw [h user rfl]
    rfl

variable (env) in
/-- A login statement by statement, up to the account that it reads; if the password fails, to its end. -/
theorem handle_login (email password : String) (ip ua : Option String) (ctx : AuditContext) :
    ∃ rest : Option User → Handler Answer,
      handle env (.login email password ip ua ctx) =
        Prog.call (S := lang) (.redisGet (LoginThrottle.key env email ip)) (fun raw =>
          if LoginThrottle.lockoutAtAttempt ≤ LoginThrottle.failures raw + 1 then
            Prog.raise lockedOutError
          else if LoginThrottle.delayFor (LoginThrottle.failures raw + 1) = 0 then
            Prog.call (.selectUserByEmail email) rest
          else Prog.call (.sleep (LoginThrottle.delayFor (LoginThrottle.failures raw + 1))) fun _ =>
            Prog.call (.selectUserByEmail email) rest) ∧
      ∀ user, Fails env password user →
        rest user = Prog.call (S := lang) (.redisIncr (LoginThrottle.key env email ip)) fun _ =>
          Prog.call (.redisExpire (LoginThrottle.key env email ip) LoginThrottle.lockoutSeconds) fun _ =>
            Prog.raise (loginError .invalidCredentials) := by
  obtain ⟨read, hlogin, hread⟩ := login_fails env email password ip ua ctx
  obtain ⟨answer, hroute⟩ : ∃ answer : LoginResult ⊕ MfaChallengeRequired → Handler Answer,
      handle env (.login email password ip ua ctx) = Prog.transaction (Prog.bind
        ((login env email password ip ua ctx).catchAll fun e => raise (loginError e)) answer) := ⟨_, rfl⟩
  refine ⟨fun user => Prog.transaction (Prog.bind ((read user).catchAll fun e => raise (loginError e)) answer), ?_,
    fun user h => ?_⟩
  · rw [hroute, hlogin]
    refine congrArg (Prog.call (S := lang) _) (funext fun raw => ?_)
    dsimp only [Prog.bind_eq, Prog.ret_bind]
    by_cases hl : LoginThrottle.lockoutAtAttempt ≤ LoginThrottle.failures raw + 1
    · rw [if_pos hl, if_pos hl]
      rfl
    · rw [if_neg hl, if_neg hl]
      by_cases hd : LoginThrottle.delayFor (LoginThrottle.failures raw + 1) = 0
      · rw [if_pos hd, if_pos hd]
        rfl
      · rw [if_neg hd, if_neg hd]
        rfl
  · dsimp only
    rw [hread user h]
    rfl

end Login

end Bekaa3D.Identity
