import Bekaa3D.Identity.Timed
import Bekaa3D.Identity.Play

/-!
# Identity.Blindness — failed logins do not depend on the accounts

Login requests that arrive at given times and run against one clock, in any overlap, on two databases.

* `Stage`, `step`, `run`: the requests under a schedule, and the log of their delays and outcomes.
* `Blind`: a handler whose rest does not depend on the account that it reads, as long as its password is wrong.
* `failed_logins_blind`: if no request carries the password of an account of either database, the two runs are
  the same.
-/

namespace Bekaa3D.Identity

open Txn Cache

/-- A login request, and when it arrives. -/
structure Guess where
  email : String
  password : String
  ip : Option String
  userAgent : Option String
  ctx : AuditContext
  arrival : Instant

def Guess.request (g : Guess) : Request := .login g.email g.password g.ip g.userAgent g.ctx

/-- What a client notices. -/
inductive Note where
  | delayed (seconds : ℕ)
  | ended (a : Except IdentityError Answer)

/-- Requests in progress: what is left of each, when each goes on, and what happened when. -/
structure Stage (ι : Type) where
  scene : Scene
  prog : ι → Option (Handler Answer)
  wake : ι → Instant
  log : List (ι × Instant × Note)

section Run

variable {ι : Type} [DecidableEq ι] (env : Env) (x : Surroundings)

/-- Request `i` goes on, at the earliest when it wakes. -/
def Stage.step (st : Stage ι) (i : ι) : Stage ι :=
  match st.prog i with
  | none => st
  | some (.commit k) => { st with prog := Function.update st.prog i (some k) }
  | some (.ret a) =>
      { st with prog := Function.update st.prog i none, log := st.log ++ [(i, st.scene.now, .ended (.ok a))] }
  | some (.raise e) =>
      { st with prog := Function.update st.prog i none, log := st.log ++ [(i, st.scene.now, .ended (.error e))] }
  | some (.call o k) =>
      let t := max st.scene.now (st.wake i)
      let r := x.answer o ⟨t, st.scene.redis⟩
      { scene := ⟨t, r.2⟩
        prog := Function.update st.prog i (some (k r.1))
        wake := Function.update st.wake i (t + x.lasts o t)
        log := st.log ++ (Surroundings.delay o).map fun n => (i, t, .delayed n) }

/-- The requests, before any has run. -/
def Stage.start (s : Scene) (guess : ι → Guess) : Stage ι where
  scene := s
  prog i := some (handle env (guess i).request)
  wake i := (guess i).arrival
  log := []

def Stage.run (st : Stage ι) (schedule : List ι) : Stage ι := schedule.foldl (Stage.step x) st

/-- The database answers the query for an account from its `users` table. -/
def Reads (db : Db) : Prop :=
  ∀ email t, db.users.Picks (User.emailIs env email) (x.reply (.selectUserByEmail email) t)

/-- No account of the address has the password of the request. -/
def Guess.Misses (g : Guess) (db : Db) : Prop :=
  ∀ id u, db.users.row id = some u → User.emailIs env g.email u = true →
    env.verifyPassword g.password u.passwordHash = false

end Run

/-! ## Handlers that do not depend on the account -/

section Blind

variable {env : Env} {ι : Type}

/-- Two replies to one statement in two runs. -/
def Both (env : Env) (password : String) : (o : Op) → Resp o → Resp o → Prop
  | .selectUserByEmail _, u, u' => Fails env password u ∧ Fails env password u'
  | _, r, r' => r = r'

/-- The statements of a failing login. -/
def Op.throttles (email : String) : Op → Bool
  | .selectUserByEmail e => e = email
  | .redisGet _ | .redisIncr _ | .redisExpire _ _ | .sleep _ => true
  | _ => false

/-- The rest of a failing login: it ends in 401 or 429, and two runs stay together. -/
def Blind (env : Env) (email password : String) : Handler Answer → Prop
  | .ret _ => False
  | .commit _ => False
  | .raise e => e = loginError .invalidCredentials ∨ e = lockedOutError
  | .call o k => o.throttles email = true ∧ (∀ r r', Both env password o r r' → k r = k r') ∧
      ∀ r, Both env password o r r → Blind env email password (k r)

/-- **A failing login is blind.** -/
theorem blind_login (g : Guess) : Blind env g.email g.password (handle env g.request) := by
  obtain ⟨rest, hg, hrest⟩ := handle_login env g.email g.password g.ip g.userAgent g.ctx
  have read : Blind env g.email g.password (Prog.call (S := lang) (.selectUserByEmail g.email) rest) := by
    refine ⟨decide_eq_true rfl, fun u u' h => by rw [hrest u h.1, hrest u' h.2], fun user h => ?_⟩
    rw [hrest user h.1]
    exact ⟨rfl, fun _ _ h => by cases h; rfl, fun _ _ => ⟨rfl, fun _ _ h => by cases h; rfl, fun _ _ => Or.inl rfl⟩⟩
  unfold Guess.request
  rw [hg]
  refine ⟨rfl, fun _ _ h => by cases h; rfl, fun raw _ => ?_⟩
  dsimp only
  split
  · exact Or.inr rfl
  split
  · exact read
  · exact ⟨rfl, fun _ _ h => by cases h; rfl, fun _ _ => read⟩

end Blind

/-! ## Two runs -/

section TwoRuns

variable {env : Env} {ι : Type} {x x₁ x₂ : Surroundings} {db db₁ db₂ : Db}

theorem Guess.Misses.fails {g : Guess} (h : g.Misses env db) (hr : Reads env x db) (t : Instant) :
    Fails env g.password (x.reply (.selectUserByEmail g.email) t) := by
  intro u hu
  have hp := hr g.email t
  rw [hu] at hp
  exact h _ u hp.row hp.cond

theorem Guess.misses_of_rows {g : Guess} (h : ∀ u ∈ db.users.rows, env.verifyPassword g.password u.passwordHash = false) :
    g.Misses env db := by
  intro id u hu _
  refine h u (Table.mem_rows.mpr ?_)
  rw [db.users.row_key id u hu]
  exact hu

/-- The replies in two runs to a statement of a failing login, and what the statement leaves behind. -/
theorem answer_both {g : Guess} {o : Op} (ho : o.throttles g.email = true) (s : Scene)
    (h₁ : ∀ t, Fails env g.password (x₁.reply (.selectUserByEmail g.email) t))
    (h₂ : ∀ t, Fails env g.password (x₂.reply (.selectUserByEmail g.email) t)) :
    Both env g.password o (x₁.answer o s).1 (x₂.answer o s).1 ∧ (x₁.answer o s).2 = (x₂.answer o s).2 := by
  cases o with
  | selectUserByEmail email =>
    obtain rfl : email = g.email := of_decide_eq_true ho
    exact ⟨⟨h₁ _, h₂ _⟩, rfl⟩
  | redisGet key => exact ⟨rfl, rfl⟩
  | redisIncr key => exact ⟨rfl, rfl⟩
  | redisExpire key n => exact ⟨rfl, rfl⟩
  | sleep n => exact ⟨rfl, rfl⟩
  | _ => cases ho

theorem lasts_eq (ht : x₁.takes = x₂.takes) (o : Op) (t : Instant) : x₁.lasts o t = x₂.lasts o t := by
  cases o <;> simp only [Surroundings.lasts, ht]

/-- The two answers to a failed login. -/
def Refusal (a : Except IdentityError Answer) : Prop :=
  a = .error (loginError .invalidCredentials) ∨
    a = .error lockedOutError

/-- Every request in progress is blind, and those that ended failed. -/
structure Failing (env : Env) (guess : ι → Guess) (st : Stage ι) : Prop where
  blind : ∀ i p, st.prog i = some p → Blind env (guess i).email (guess i).password p
  ended : ∀ i t a, (i, t, .ended a) ∈ st.log → Refusal a

variable {guess : ι → Guess} {st : Stage ι}

theorem Failing.start (s : Scene) : Failing env guess (Stage.start env s guess) := by
  refine ⟨fun i p h => ?_, fun i t a h => by cases h⟩
  cases h
  exact blind_login _

variable [DecidableEq ι]

/-- What is left of request `i` changes. -/
theorem Failing.update (h : Failing env guess st) {i : ι} {st' : Stage ι} {p : Option (Handler Answer)}
    (hp : st'.prog = Function.update st.prog i p)
    (hb : ∀ q, p = some q → Blind env (guess i).email (guess i).password q)
    (hl : ∀ e ∈ st'.log, e ∈ st.log ∨ ∀ a, e.2.2 = .ended a → Refusal a) : Failing env guess st' := by
  refine ⟨fun j q hj => ?_, fun j t a hj => ?_⟩
  · rw [hp] at hj
    by_cases hji : j = i
    · subst hji
      rw [Function.update_self] at hj
      exact hb q hj
    · rw [Function.update_of_ne hji] at hj
      exact h.blind j q hj
  · exact (hl _ hj).elim (h.ended j t a) fun hr => hr a rfl

/-- **One step** is the same in both runs. -/
theorem Failing.step (h : Failing env guess st) (ht : x₁.takes = x₂.takes)
    (h₁ : ∀ i t, Fails env (guess i).password (x₁.reply (.selectUserByEmail (guess i).email) t))
    (h₂ : ∀ i t, Fails env (guess i).password (x₂.reply (.selectUserByEmail (guess i).email) t)) (i : ι) :
    st.step x₁ i = st.step x₂ i ∧ Failing env guess (st.step x₁ i) := by
  unfold Stage.step
  cases hp : st.prog i with
  | none => exact ⟨rfl, h⟩
  | some p =>
    have hb := h.blind i p hp
    cases p with
    | ret a => exact hb.elim
    | commit k => exact hb.elim
    | raise e =>
      refine ⟨rfl, h.update rfl (fun q hq => by cases hq) fun e' he => ?_⟩
      rw [List.mem_append, List.mem_singleton] at he
      refine he.imp_right ?_
      rintro rfl a ha
      cases ha
      exact hb.imp (congrArg _) (congrArg _)
    | call o k =>
      obtain ⟨ho, hk, hnext⟩ := hb
      dsimp only
      obtain ⟨hr, hs⟩ := answer_both ho ⟨max st.scene.now (st.wake i), st.scene.redis⟩ (h₁ i) (h₂ i)
      refine ⟨by rw [hk _ _ hr, hs, lasts_eq ht], h.update rfl (fun q hq => ?_) fun e he => ?_⟩
      · cases hq
        exact hnext _ (answer_both ho _ (h₁ i) (h₁ i)).1
      · rw [List.mem_append, List.mem_map] at he
        refine he.imp_right ?_
        rintro ⟨n, -, rfl⟩ a ha
        cases ha

/-- **Failed logins reveal nothing**: with wrong passwords only, the run of a schedule of login requests is the
same on both databases, and each request is answered 401 or 429. -/
theorem failed_logins_blind (ht : x₁.takes = x₂.takes) (hr₁ : Reads env x₁ db₁) (hr₂ : Reads env x₂ db₂)
    (hm₁ : ∀ i, (guess i).Misses env db₁) (hm₂ : ∀ i, (guess i).Misses env db₂) (s : Scene) (schedule : List ι) :
    Stage.run x₁ (Stage.start env s guess) schedule = Stage.run x₂ (Stage.start env s guess) schedule ∧
      ∀ i t a, (i, t, .ended a) ∈ (Stage.run x₁ (Stage.start env s guess) schedule).log → Refusal a := by
  suffices h : ∀ st : Stage ι, Failing env guess st →
      Stage.run x₁ st schedule = Stage.run x₂ st schedule ∧ Failing env guess (Stage.run x₁ st schedule) by
    obtain ⟨he, hf⟩ := h _ (Failing.start s)
    exact ⟨he, hf.ended⟩
  induction schedule with
  | nil => exact fun st h => ⟨rfl, h⟩
  | cons i schedule ih =>
    intro st h
    obtain ⟨he, hf⟩ := h.step ht (fun i t => (hm₁ i).fails hr₁ t) (fun i t => (hm₂ i).fails hr₂ t) i
    obtain ⟨he', hf'⟩ := ih _ hf
    refine ⟨?_, hf'⟩
    change Stage.run x₁ (st.step x₁ i) schedule = Stage.run x₂ (st.step x₂ i) schedule
    rw [he', he]

end TwoRuns

/-! ## A run on two databases -/

instance : ∀ o : Op, Inhabited (Resp o) := fun o => ⟨by cases o <;> exact default⟩

/-- Queries answered from the rows of `db`, at once. -/
def sampleSurroundings (db : Db) : Surroundings where
  reply o _ := (answer sampleEnv o db sampleMem {}).getD default
  takes _ _ := 0

theorem reads_sample (db : Db) : Reads sampleEnv (sampleSurroundings db) db := fun _ _ => Table.find_picks

/-- A wrong password for Ada, and one for nobody. -/
def sampleGuesses (i : Fin 2) : Guess :=
  ⟨if i = 0 then "ada" else "bob", "bad", none, none, {}, 5⟩

/-- Nobody has an account. -/
def deserted : Db := { sampleDb with users := .empty }

/-- Both requests end, whether or not Ada has an account. -/
theorem failed_logins_blind_sample :
    Stage.run (sampleSurroundings sampleDb) (Stage.start sampleEnv ⟨0, fun _ => none⟩ sampleGuesses)
        [0, 1, 0, 1, 0, 1, 0, 1, 0, 1] =
      Stage.run (sampleSurroundings deserted) (Stage.start sampleEnv ⟨0, fun _ => none⟩ sampleGuesses)
        [0, 1, 0, 1, 0, 1, 0, 1, 0, 1] ∧
    (Stage.run (sampleSurroundings sampleDb) (Stage.start sampleEnv ⟨0, fun _ => none⟩ sampleGuesses)
        [0, 1, 0, 1, 0, 1, 0, 1, 0, 1]).log.length = 2 :=
  ⟨(failed_logins_blind (show (sampleSurroundings sampleDb).takes = (sampleSurroundings deserted).takes from rfl)
    (reads_sample sampleDb) (reads_sample deserted) (fun _ => Guess.misses_of_rows (by decide +revert))
    (fun _ => Guess.misses_of_rows (by decide +revert)) _ _).1,
    by decide +kernel⟩

end Bekaa3D.Identity
