import Bekaa3D.Cache.Expiring
import Mathlib.Algebra.Order.Ring.Int
import Mathlib.Data.List.Induction
import Mathlib.Data.List.Nodup
import Mathlib.Tactic.Common

/-!
# Core.RateLimit — the fixed-window rate limiter

`core/rate_limit.py`: a request runs `INCR`, `EXPIRE` if it read 1, and `TTL`, and is answered from its count.  The
commands of all requests interleave, keys expire between them, and a request can be cut off before any of them.

* `run`: what a sequence of commands, waits and cuts leads to; `State.lifetimes` says who was counted in which
  lifetime of a key.
* `Completes`: the request was not cut off, and ran all of its commands.
* `fixed_window_bound`: the first `limit` requests of a lifetime are admitted, and the others that complete are
  refused.
* `counter_expires_iff`: when a key that refuses is sure to expire.
-/

namespace Bekaa3D.Core

/-- The arguments of `rate_limiter`. -/
structure Limiter where
  keyPrefix : String
  limit : ℤ
  windowSeconds : ℤ

def Limiter.key (l : Limiter) (host : Option String) : String :=
  "ratelimit:" ++ l.keyPrefix ++ ":" ++ host.getD "unknown"

/-- The `RateLimit-…` headers. -/
structure Headers where
  limit : ℤ
  remaining : ℤ
  reset : ℤ
  deriving DecidableEq, Repr

inductive Answer where
  | admitted (headers : Headers)
  /-- `ApiError(429, RATE_LIMITED)`. -/
  | rateLimited (headers : Headers)
  deriving DecidableEq, Repr

def Limiter.answer (l : Limiter) (count : ℕ) (ttl : ℤ) : Answer :=
  let headers : Headers := ⟨l.limit, max (l.limit - count) 0, if 0 < ttl then ttl else l.windowSeconds⟩
  if l.limit < count then .rateLimited headers else .admitted headers

/-- How far a request is. -/
inductive Phase where
  | start
  /-- It read 1 and is before its `EXPIRE`. -/
  | opened
  /-- It is before its `TTL`. -/
  | counted (count : ℕ)
  | answered (answer : Answer)
  /-- It was cut off before its `EXPIRE`. -/
  | abandoned
  | cut
  deriving DecidableEq, Repr

namespace Phase

def isAnswered : Phase → Bool
  | answered _ => true
  | _ => false

def isAdmitted : Phase → Bool
  | answered (.admitted _) => true
  | _ => false

def isRefused : Phase → Bool
  | answered (.rateLimited _) => true
  | _ => false

/-- `RateLimit-Remaining` of an admitted request. -/
def remaining : Phase → Option ℤ
  | answered (.admitted headers) => some headers.remaining
  | _ => none

def cutOff : Phase → Phase
  | opened => abandoned
  | start | counted _ => cut
  | p => p

/-- It read 1, and its `EXPIRE` did not run. -/
def Opening (p : Phase) : Prop := p = opened ∨ p = abandoned

end Phase

/-- Time is in milliseconds. -/
structure State (ι : Type) where
  now : ℕ
  redis : Cache.Store String ℕ
  phase : ι → Phase
  /-- Who was counted in each lifetime of a key, in order; the last lifetime comes first. -/
  lifetimes : String → List (List ι)

inductive Event (ι : Type) where
  | wait (d : ℕ)
  /-- The next command of a request. -/
  | command (i : ι)
  | cutOff (i : ι)
  deriving DecidableEq, Repr

/-- Redis counters are signed 64-bit numbers. -/
def maxCount : ℕ := 2 ^ 63 - 1

/-- One more request, in a new lifetime or in the last one. -/
def enter {ι : Type} (i : ι) (fresh : Bool) (lifetimes : List (List ι)) : List (List ι) :=
  match fresh, lifetimes with
  | false, life :: rest => (life ++ [i]) :: rest
  | _, rest => [i] :: rest

/-- `TTL`: the seconds that are left, rounded. -/
def ttl (redis : Cache.Store String ℕ) (key : String) (now : ℕ) : ℤ :=
  match Cache.get redis key now with
  | none => -2
  | some e =>
    match e.expiresAt with
    | none => -1
    | some t => ((t - now + 500) / 1000 : ℕ)

section Steps

variable {ι : Type} [DecidableEq ι] (l : Limiter) (host : ι → Option String)

def Limiter.window : ℕ := (l.windowSeconds * 1000).toNat

/-- The key of a request. -/
def Limiter.keyOf (i : ι) : String := l.key (host i)

namespace State

variable (s : State ι) (i : ι)

def entry (key : String) : Option (Cache.Entry ℕ) := Cache.get s.redis key s.now

/-- What `INCR` returns, if it does not overflow. -/
def next (key : String) : ℕ := (s.entry key).elim 0 Cache.Entry.val + 1

def moveTo (p : Phase) : State ι := { s with phase := Function.update s.phase i p }

def incr : State ι :=
  let key := l.keyOf host i
  let count := s.next key
  if count ≤ maxCount then
    { (s.moveTo i (if count = 1 then .opened else .counted count)) with
      redis := Cache.put s.redis key count s.now
      lifetimes := Function.update s.lifetimes key (enter i (s.entry key).isNone (s.lifetimes key)) }
  else s.moveTo i .cut

/-- `EXPIRE`; a window that is not positive ends the key at once. -/
def expire : State ι :=
  { (s.moveTo i (.counted 1)) with
    redis := Cache.expire s.redis (l.keyOf host i) s.now (s.now + l.window) }

def readTtl (count : ℕ) : State ι :=
  s.moveTo i (.answered (l.answer count (ttl s.redis (l.keyOf host i) s.now)))

def command : State ι :=
  match s.phase i with
  | .start => s.incr l host i
  | .opened => s.expire l host i
  | .counted count => s.readTtl l host i count
  | _ => s

def step : Event ι → State ι
  | .wait d => { s with now := s.now + d }
  | .command i => s.command l host i
  | .cutOff i => s.moveTo i (s.phase i).cutOff

end State

def initial : State ι := ⟨0, fun _ => none, fun _ => .start, fun _ => []⟩

def runFrom (s : State ι) (events : List (Event ι)) : State ι := events.foldl (State.step l host) s

/-- The state after a sequence of events. -/
def run (events : List (Event ι)) : State ι := runFrom l host initial events

theorem run_snoc (events : List (Event ι)) (e : Event ι) :
    run l host (events ++ [e]) = (run l host events).step l host e := by
  unfold run runFrom
  rw [List.foldl_append]
  rfl

end Steps

/-! ## Who was counted -/

/-- The phases of a request whose `INCR` returned a number. -/
def Limiter.Counted (l : Limiter) (n : ℕ) : Phase → Prop
  | .start => False
  | .opened => n = 1
  | .counted m => m = n
  | .answered a => ∃ ttl, a = l.answer n ttl
  | .abandoned => n = 1
  | .cut => True

section Counts

variable {ι : Type} [DecidableEq ι] (l : Limiter) (host : ι → Option String)

/-- The value of a key is the number of requests in its last lifetime, and every request read its own place in its
lifetime. -/
structure Counts (s : State ι) : Prop where
  value : ∀ k e, s.redis k = some e → ∃ life rest, s.lifetimes k = life :: rest ∧ life ≠ [] ∧ e.val = life.length
  rank : ∀ k, ∀ life ∈ s.lifetimes k, ∀ j i, life[j]? = some i → l.Counted (j + 1) (s.phase i)
  nodup : ∀ k, ∀ life ∈ s.lifetimes k, life.Nodup
  home : ∀ k, ∀ life ∈ s.lifetimes k, ∀ i ∈ life, l.keyOf host i = k
  entered : ∀ i, s.phase i ≠ .start → s.phase i ≠ .cut → ∃ life ∈ s.lifetimes (l.keyOf host i), i ∈ life

/-- What `INCR` finds at a key: none, or the requests of its lifetime; `rest` are the lifetimes before, and `x` is
the expiry. -/
inductive Finds (s : State ι) (k : String) : List ι → List (List ι) → Option ℕ → Prop
  | missing (gone : s.entry k = none) : Finds s k [] (s.lifetimes k) none
  | present {e : Cache.Entry ℕ} {life : List ι} {rest : List (List ι)} (live : s.entry k = some e)
      (value : e.val = life.length) (ne : life ≠ []) (last : s.lifetimes k = life :: rest) :
      Finds s k life rest e.expiresAt

/-- The state after an `INCR`. -/
def State.counting (s : State ι) (i : ι) (k : String) (life : List ι) (rest : List (List ι)) (x : Option ℕ) : State ι :=
  { (s.moveTo i (if life = [] then .opened else .counted (life.length + 1))) with
    redis := Cache.set s.redis k (life.length + 1) x
    lifetimes := Function.update s.lifetimes k ((life ++ [i]) :: rest) }

variable {l host} {s : State ι} {i : ι}

@[simp] theorem moveTo_phase_self {p : Phase} : (s.moveTo i p).phase i = p := Function.update_self ..

theorem moveTo_phase_of_ne {p : Phase} {j : ι} (h : j ≠ i) : (s.moveTo i p).phase j = s.phase j :=
  Function.update_of_ne h ..

section Counting

variable {k k' : String} {life : List ι} {rest : List (List ι)} {x : Option ℕ}

theorem counting_phase_self :
    (s.counting i k life rest x).phase i = if life = [] then .opened else .counted (life.length + 1) :=
  Function.update_self ..

theorem counting_phase_of_ne {j : ι} (h : j ≠ i) : (s.counting i k life rest x).phase j = s.phase j :=
  Function.update_of_ne h ..

@[simp] theorem counting_redis_self : (s.counting i k life rest x).redis k = some ⟨life.length + 1, x⟩ :=
  Function.update_self ..

theorem counting_redis_of_ne (h : k' ≠ k) : (s.counting i k life rest x).redis k' = s.redis k' :=
  Function.update_of_ne h ..

@[simp] theorem counting_lifetimes_self : (s.counting i k life rest x).lifetimes k = (life ++ [i]) :: rest :=
  Function.update_self ..

theorem counting_lifetimes_of_ne (h : k' ≠ k) : (s.counting i k life rest x).lifetimes k' = s.lifetimes k' :=
  Function.update_of_ne h ..

end Counting

omit [DecidableEq ι] in
/-- A request that did not begin is in no lifetime. -/
theorem Counts.not_mem (h : Counts l host s) (hstart : s.phase i = .start) :
    ∀ k, ∀ life ∈ s.lifetimes k, i ∉ life := by
  intro k life hl hi
  obtain ⟨j, hj⟩ := List.mem_iff_getElem?.mp hi
  have hc := h.rank k life hl j i hj
  rw [hstart] at hc
  exact hc

omit [DecidableEq ι] in
theorem Counts.finds (h : Counts l host s) (k : String) :
    ∃ life rest x, Finds s k life rest x ∧ s.next k = life.length + 1 ∧
      x = (Cache.get s.redis k s.now).bind Cache.Entry.expiresAt := by
  unfold State.next
  cases hk : s.entry k with
  | none =>
    have hx : Cache.get s.redis k s.now = none := hk
    exact ⟨[], s.lifetimes k, none, .missing hk, rfl, by rw [hx]; rfl⟩
  | some e =>
    have hx : Cache.get s.redis k s.now = some e := hk
    obtain ⟨life, rest, hl, hne, hv⟩ := h.value k e (Cache.get_eq_some.mp hk).1
    refine ⟨life, rest, e.expiresAt, .present hk hv hne hl, ?_, by rw [hx]; rfl⟩
    rw [← hv]
    rfl

/-- `INCR` overflows, or counts the request at the end of a lifetime. -/
theorem Counts.incr_cases (h : Counts l host s) (i : ι) :
    s.incr l host i = s.moveTo i .cut ∨
    ∃ life rest x, Finds s (l.keyOf host i) life rest x ∧
      s.incr l host i = s.counting i (l.keyOf host i) life rest x := by
  obtain ⟨life, rest, x, hf, hn, hx⟩ := h.finds (l.keyOf host i)
  unfold State.incr
  dsimp only
  by_cases hmax : s.next (l.keyOf host i) ≤ maxCount
  · rw [if_pos hmax]
    refine Or.inr ⟨life, rest, x, hf, ?_⟩
    have hput : Cache.put s.redis (l.keyOf host i) (s.next (l.keyOf host i)) s.now =
        Cache.set s.redis (l.keyOf host i) (life.length + 1) x := by
      unfold Cache.put
      rw [hn, hx]
    have henter : enter i (s.entry (l.keyOf host i)).isNone (s.lifetimes (l.keyOf host i)) = (life ++ [i]) :: rest := by
      cases hf with
      | missing gone => rw [gone]; rfl
      | present live _ _ last => rw [live, last]; rfl
    have hphase : (if s.next (l.keyOf host i) = 1 then Phase.opened else .counted (s.next (l.keyOf host i))) =
        if life = [] then .opened else .counted (life.length + 1) := by
      rw [hn]
      by_cases hl : life = []
      · rw [if_pos hl, hl]
        rfl
      · rw [if_neg hl, if_neg (by simpa using hl)]
    rw [hput, henter, hphase]
    rfl
  · rw [if_neg hmax]
    exact Or.inl rfl

/-- Another phase, and the same values. -/
theorem Counts.moveTo (h : Counts l host s) {p : Phase} {r : Cache.Store String ℕ}
    (hr : ∀ k e, r k = some e → ∃ e', s.redis k = some e' ∧ e.val = e'.val)
    (hp : ∀ n, l.Counted n (s.phase i) → l.Counted n p)
    (hs : p = .cut ∨ s.phase i ≠ .start ∧ s.phase i ≠ .cut) : Counts l host { (s.moveTo i p) with redis := r } := by
  refine ⟨?_, ?_, h.nodup, h.home, ?_⟩
  · intro k e hk
    obtain ⟨e', hk', he⟩ := hr k e hk
    obtain ⟨life, rest, hl, hne, hv⟩ := h.value k e' hk'
    exact ⟨life, rest, hl, hne, he.trans hv⟩
  · intro k life hl j i' hj
    have hc := h.rank k life hl j i' hj
    by_cases hi : i' = i
    · subst hi
      show l.Counted (j + 1) ((s.moveTo i' p).phase i')
      rw [moveTo_phase_self]
      exact hp _ hc
    · show l.Counted (j + 1) ((s.moveTo i p).phase i')
      rw [moveTo_phase_of_ne hi]
      exact hc
  · intro i' hstart hcut
    by_cases hi : i' = i
    · subst hi
      rcases hs with rfl | ⟨h₁, h₂⟩
      · exact absurd moveTo_phase_self hcut
      · exact h.entered i' h₁ h₂
    · have hph : (s.moveTo i p).phase i' = s.phase i' := moveTo_phase_of_ne hi
      exact h.entered i' (fun e => hstart (hph.trans e)) (fun e => hcut (hph.trans e))

omit [DecidableEq ι] in
/-- The requests of the last lifetime that `INCR` finds. -/
theorem Finds.mem {k : String} {life : List ι} {rest : List (List ι)} {x : Option ℕ} (hf : Finds s k life rest x) :
    (life = [] ∨ life ∈ s.lifetimes k) ∧ ∀ life' ∈ rest, life' ∈ s.lifetimes k := by
  cases hf with
  | missing => exact ⟨Or.inl rfl, fun _ h => h⟩
  | present _ _ _ last =>
    rw [last]
    exact ⟨Or.inr List.mem_cons_self, fun _ h => List.mem_cons_of_mem _ h⟩

/-- A lifetime after an `INCR` is the one that grew, or was there before. -/
theorem Finds.lifetimes {k : String} {life : List ι} {rest : List (List ι)} {x : Option ℕ}
    (hf : Finds s k life rest x) : ∀ k', ∀ life' ∈ (s.counting i k life rest x).lifetimes k',
      (k' = k ∧ life' = life ++ [i]) ∨ life' ∈ s.lifetimes k' := by
  intro k' life' hl
  by_cases hk : k' = k
  · subst hk
    rw [counting_lifetimes_self] at hl
    rcases List.mem_cons.mp hl with he | hr
    · exact Or.inl ⟨rfl, he⟩
    · exact Or.inr (hf.mem.2 life' hr)
  · rw [counting_lifetimes_of_ne hk] at hl
    exact Or.inr hl

theorem Counts.counting (h : Counts l host s) (hstart : s.phase i = .start) {life : List ι} {rest : List (List ι)}
    {x : Option ℕ} (hf : Finds s (l.keyOf host i) life rest x) :
    Counts l host (s.counting i (l.keyOf host i) life rest x) := by
  obtain ⟨hlife, -⟩ := hf.mem
  have hnew := h.not_mem hstart
  have hout : i ∉ life := by
    rcases hlife with rfl | hl
    · exact List.not_mem_nil
    · exact hnew _ life hl
  have hmem := hf.lifetimes (i := i)
  refine ⟨?_, ?_, ?_, ?_, ?_⟩
  · intro k e hk
    by_cases hkey : k = l.keyOf host i
    · subst hkey
      rw [counting_redis_self] at hk
      refine ⟨life ++ [i], rest, counting_lifetimes_self, by simp, ?_⟩
      rw [← Option.some.inj hk, List.length_append]
      rfl
    · rw [counting_redis_of_ne hkey] at hk
      obtain ⟨life', rest', hl, hne, hv⟩ := h.value k e hk
      exact ⟨life', rest', (counting_lifetimes_of_ne hkey).trans hl, hne, hv⟩
  · intro k life' hl j i' hj
    rcases hmem k life' hl with ⟨rfl, rfl⟩ | hold
    · rcases Nat.lt_trichotomy j life.length with hlt | rfl | hgt
      · rw [List.getElem?_append_left hlt] at hj
        have hi : i' ≠ i := fun e => hout (e ▸ List.mem_of_getElem? hj)
        rw [counting_phase_of_ne hi]
        rcases hlife with rfl | hin
        · simp at hlt
        · exact h.rank _ life hin j i' hj
      · have hi : i = i' := by simpa using hj
        subst hi
        rw [counting_phase_self]
        by_cases hnil : life = []
        · rw [if_pos hnil, hnil]
          rfl
        · rw [if_neg hnil]
          rfl
      · rw [List.getElem?_eq_none (by rw [List.length_append, List.length_singleton]; omega)] at hj
        cases hj
    · have hi : i' ≠ i := fun e => hnew k life' hold (e ▸ List.mem_of_getElem? hj)
      rw [counting_phase_of_ne hi]
      exact h.rank k life' hold j i' hj
  · intro k life' hl
    rcases hmem k life' hl with ⟨rfl, rfl⟩ | hold
    · have hn : life.Nodup := by
        rcases hlife with rfl | hin
        · exact List.nodup_nil
        · exact h.nodup _ life hin
      exact hn.append (List.nodup_singleton i) (by simpa using hout)
    · exact h.nodup k life' hold
  · intro k life' hl i' hi
    rcases hmem k life' hl with ⟨rfl, rfl⟩ | hold
    · rcases List.mem_append.mp hi with hi | hi
      · rcases hlife with rfl | hin
        · simp at hi
        · exact h.home _ life hin i' hi
      · rw [List.mem_singleton.mp hi]
    · exact h.home k life' hold i' hi
  · intro i' hs hc
    by_cases hi : i' = i
    · subst hi
      refine ⟨life ++ [i'], ?_, by simp⟩
      rw [counting_lifetimes_self]
      exact List.mem_cons_self
    · rw [counting_phase_of_ne hi] at hs hc
      obtain ⟨life', hl, hm⟩ := h.entered i' hs hc
      by_cases hk : l.keyOf host i' = l.keyOf host i
      · rw [hk] at hl ⊢
        rw [counting_lifetimes_self]
        cases hf with
        | missing => exact ⟨life', List.mem_cons_of_mem _ hl, hm⟩
        | present _ _ _ last =>
          rw [last] at hl
          rcases List.mem_cons.mp hl with rfl | hr
          · exact ⟨life' ++ [i], List.mem_cons_self, List.mem_append_left _ hm⟩
          · exact ⟨life', List.mem_cons_of_mem _ hr, hm⟩
      · refine ⟨life', ?_, hm⟩
        rwa [counting_lifetimes_of_ne hk]

/-- A step keeps the counts. -/
theorem Counts.step (h : Counts l host s) (e : Event ι) : Counts l host (s.step l host e) := by
  have hsame : ∀ k e, s.redis k = some e → ∃ e', s.redis k = some e' ∧ e.val = e'.val := fun k e hk => ⟨e, hk, rfl⟩
  cases e with
  | wait d => exact ⟨h.value, h.rank, h.nodup, h.home, h.entered⟩
  | cutOff i =>
    show Counts l host (s.moveTo i (s.phase i).cutOff)
    cases hp : s.phase i with
    | start => exact h.moveTo hsame (fun _ _ => trivial) (Or.inl rfl)
    | opened =>
      refine h.moveTo hsame (fun n hn => ?_) (Or.inr ⟨by simp [hp], by simp [hp]⟩)
      rwa [hp] at hn
    | counted m => exact h.moveTo hsame (fun _ _ => trivial) (Or.inl rfl)
    | answered a =>
      refine h.moveTo hsame (fun n hn => ?_) (Or.inr ⟨by simp [hp], by simp [hp]⟩)
      rwa [hp] at hn
    | abandoned =>
      refine h.moveTo hsame (fun n hn => ?_) (Or.inr ⟨by simp [hp], by simp [hp]⟩)
      rwa [hp] at hn
    | cut => exact h.moveTo hsame (fun _ _ => trivial) (Or.inl rfl)
  | command i =>
    show Counts l host (s.command l host i)
    unfold State.command
    cases hp : s.phase i with
    | start =>
      rcases h.incr_cases i with he | ⟨life, rest, x, hf, he⟩
      · rw [he]
        exact h.moveTo hsame (fun _ _ => trivial) (Or.inl rfl)
      · rw [he]
        exact h.counting hp hf
    | opened =>
      refine h.moveTo (fun k e hk => ?_) (fun n hn => ?_) (Or.inr ⟨by simp [hp], by simp [hp]⟩)
      · by_cases hkey : k = l.keyOf host i
        · subst hkey
          rcases Cache.expire_self s.redis (l.keyOf host i) s.now (s.now + l.window) with ⟨e', hg, he⟩ | ⟨-, he⟩
          · have hv : some e = some ⟨e'.val, _⟩ := hk.symm.trans he
            refine ⟨e', (Cache.get_eq_some.mp hg).1, ?_⟩
            rw [Option.some.inj hv]
          · exact ⟨e, he.symm.trans hk, rfl⟩
        · exact ⟨e, (Cache.expire_of_ne hkey).symm.trans hk, rfl⟩
      · rw [hp] at hn
        exact Eq.symm hn
    | counted m =>
      refine h.moveTo hsame (fun n hn => ?_) (Or.inr ⟨by simp [hp], by simp [hp]⟩)
      rw [hp] at hn
      exact ⟨_, by rw [show n = m from Eq.symm hn]⟩
    | answered a => exact h
    | abandoned => exact h
    | cut => exact h

/-- **The counts of every run.** -/
theorem counts_run (events : List (Event ι)) : Counts l host (run l host events) := by
  induction events using List.reverseRecOn with
  | nil =>
    have hnone : ∀ k, ∀ life ∈ (run l host ([] : List (Event ι))).lifetimes k, False := fun _ _ h => List.not_mem_nil h
    refine ⟨fun k e h => ?_, fun k life h => (hnone k life h).elim, fun k life h => (hnone k life h).elim,
      fun k life h => (hnone k life h).elim, fun i hs => absurd rfl hs⟩
    cases h
  | append_singleton events e ih =>
    rw [run_snoc]
    exact ih.step e

end Counts

/-! ## Who completes -/

section Completion

variable {ι : Type} [DecidableEq ι] {l : Limiter} {host : ι → Option String} {s : State ι} {i j : ι}

/-- The request, at the place `j` of its lifetime, was not cut off and ran its commands: `INCR`, `EXPIRE` if it is
the first, and `TTL`. -/
def Completes (events : List (Event ι)) (i : ι) (j : ℕ) : Prop :=
  .cutOff i ∉ events ∧ (if j = 0 then 3 else 2) ≤ events.count (.command i)

instance (events : List (Event ι)) (i : ι) (j : ℕ) : Decidable (Completes events i j) :=
  inferInstanceAs (Decidable (_ ∧ _))

/-- The phases of a request that was not cut off, after some of its commands. -/
def Phase.After (n : ℕ) : Phase → Prop
  | .start => n = 0
  | .opened => n = 1
  | .counted m => n = if m = 1 then 2 else 1
  | .answered _ => True
  | .abandoned => False
  | .cut => True

/-- A request that was not cut off is as far as its commands, and ends without an answer only if its `INCR` failed. -/
structure Uncut (s : State ι) (i : ι) (n : ℕ) : Prop where
  after : (s.phase i).After n
  out : s.phase i = .cut → ∀ k, ∀ life ∈ s.lifetimes k, i ∉ life

theorem command_phase_of_ne (h : i ≠ j) : (s.command l host j).phase i = s.phase i := by
  unfold State.command
  cases s.phase j with
  | start =>
    show (s.incr l host j).phase i = s.phase i
    unfold State.incr
    dsimp only
    split
    · exact moveTo_phase_of_ne h
    · exact moveTo_phase_of_ne h
  | opened => exact moveTo_phase_of_ne h
  | counted n => exact moveTo_phase_of_ne h
  | answered a => rfl
  | abandoned => rfl
  | cut => rfl

/-- Only an `INCR` changes the lifetimes: the request is counted at the end of one. -/
theorem Counts.command_lifetimes (h : Counts l host s) {k : String} {life : List ι}
    (hl : life ∈ (s.command l host j).lifetimes k) :
    life ∈ s.lifetimes k ∨ ∃ life₀, (life₀ = [] ∨ life₀ ∈ s.lifetimes k) ∧ life = life₀ ++ [j] := by
  unfold State.command at hl
  cases hp : s.phase j with
  | start =>
    rw [hp] at hl
    rcases h.incr_cases j with he | ⟨life₀, rest, x, hf, he⟩
    · dsimp only at hl
      rw [he] at hl
      exact Or.inl hl
    · dsimp only at hl
      rw [he] at hl
      rcases hf.lifetimes k life hl with ⟨rfl, rfl⟩ | hold
      · exact Or.inr ⟨life₀, hf.mem.1, rfl⟩
      · exact Or.inl hold
  | opened => rw [hp] at hl; exact Or.inl hl
  | counted n => rw [hp] at hl; exact Or.inl hl
  | answered a => rw [hp] at hl; exact Or.inl hl
  | abandoned => rw [hp] at hl; exact Or.inl hl
  | cut => rw [hp] at hl; exact Or.inl hl

omit [DecidableEq ι] in
/-- A request that is not out is as far as its phase. -/
theorem Uncut.of_phase {n : ℕ} {p : Phase} (hp : s.phase i = p) (hn : p.After n) (hcut : p ≠ .cut) : Uncut s i n := by
  constructor
  · rw [hp]
    exact hn
  · intro h
    exact absurd (hp.symm.trans h) hcut

/-- The next command of a request takes it one phase on. -/
theorem Uncut.command (hc : Counts l host s) {n : ℕ} (h : Uncut s i n) : Uncut (s.command l host i) i (n + 1) := by
  have hafter := h.after
  unfold State.command
  cases hp : s.phase i with
  | start =>
    rw [hp] at hafter
    obtain rfl : n = 0 := hafter
    dsimp only
    rcases hc.incr_cases i with he | ⟨life, rest, x, hf, he⟩
    · rw [he]
      refine ⟨by rw [moveTo_phase_self]; trivial, fun _ => ?_⟩
      exact hc.not_mem hp
    · rw [he]
      have hphase : (s.counting i (l.keyOf host i) life rest x).phase i =
          if life = [] then .opened else .counted (life.length + 1) := counting_phase_self
      by_cases hnil : life = []
      · rw [if_pos hnil] at hphase
        exact .of_phase hphase rfl (by simp)
      · rw [if_neg hnil] at hphase
        refine .of_phase hphase ?_ (by simp)
        show 0 + 1 = if life.length + 1 = 1 then 2 else 1
        rw [if_neg (by simpa using hnil)]
  | opened =>
    rw [hp] at hafter
    obtain rfl : n = 1 := hafter
    have hphase : (s.expire l host i).phase i = .counted 1 := moveTo_phase_self
    exact .of_phase hphase rfl (by simp)
  | counted m =>
    have hphase : (s.readTtl l host i m).phase i = .answered _ := moveTo_phase_self
    exact .of_phase hphase trivial (by simp)
  | answered a => exact .of_phase hp trivial (by simp)
  | abandoned =>
    rw [hp] at hafter
    exact hafter.elim
  | cut =>
    dsimp only
    refine ⟨?_, fun _ => h.out hp⟩
    rw [hp]
    trivial

/-- **A request that was not cut off is as far as the commands that it ran.** -/
theorem uncut_run {events : List (Event ι)} (hcut : .cutOff i ∉ events) :
    Uncut (run l host events) i (events.count (.command i)) := by
  induction events using List.reverseRecOn with
  | nil => exact ⟨rfl, fun h => by cases h⟩
  | append_singleton events e ih =>
    have h := ih fun hm => hcut (List.mem_append_left _ hm)
    rw [run_snoc, List.count_append]
    cases e with
    | wait d =>
      have hcount : [Event.wait d].count (.command i) = 0 := List.count_eq_zero.mpr (by simp)
      rw [hcount]
      exact ⟨h.after, h.out⟩
    | cutOff j =>
      have hne : i ≠ j := by
        rintro rfl
        exact hcut (by simp)
      have hcount : [Event.cutOff j].count (.command i) = 0 := List.count_eq_zero.mpr (by simp)
      have hphase : ((run l host events).step l host (.cutOff j)).phase i = (run l host events).phase i :=
        moveTo_phase_of_ne hne
      rw [hcount]
      exact ⟨by rw [hphase]; exact h.after, fun hp => h.out (hphase.symm.trans hp)⟩
    | command j =>
      by_cases hij : i = j
      · subst hij
        rw [List.count_singleton_self]
        exact h.command (counts_run events)
      · have hcount : [Event.command j].count (.command i) = 0 := List.count_eq_zero.mpr (by simpa using hij)
        have hphase : ((run l host events).step l host (.command j)).phase i = (run l host events).phase i :=
          command_phase_of_ne hij
        rw [hcount]
        refine ⟨by rw [hphase]; exact h.after, fun hp k life hl hi => ?_⟩
        have hout := h.out (hphase.symm.trans hp)
        rcases (counts_run events).command_lifetimes hl with hold | ⟨life₀, hlife₀, rfl⟩
        · exact hout k life hold hi
        · rcases List.mem_append.mp hi with hi | hi
          · rcases hlife₀ with rfl | hold
            · exact List.not_mem_nil hi
            · exact hout k life₀ hold hi
          · exact hij (List.mem_singleton.mp hi)

/-- **A request that completes is answered**, from its place in its lifetime. -/
theorem answered_of_completes {events : List (Event ι)} {k : String} {life : List ι}
    (hl : life ∈ (run l host events).lifetimes k) {m : ℕ} (hm : life[m]? = some i) (h : Completes events i m) :
    ∃ t, (run l host events).phase i = .answered (l.answer (m + 1) t) := by
  obtain ⟨hcut, hcount⟩ := h
  obtain ⟨hafter, hout⟩ : Uncut (run l host events) i (events.count (.command i)) := uncut_run hcut
  have hrank := (counts_run events).rank k life hl m i hm
  cases hp : (run l host events).phase i with
  | start => rw [hp] at hrank; exact hrank.elim
  | opened =>
    rw [hp] at hrank hafter
    have hone : m + 1 = 1 := hrank
    have hn : events.count (.command i) = 1 := hafter
    rw [if_pos (by omega)] at hcount
    omega
  | counted n =>
    rw [hp] at hrank hafter
    obtain rfl : n = m + 1 := hrank
    have hn : events.count (.command i) = if m + 1 = 1 then 2 else 1 := hafter
    rw [hn] at hcount
    split at hcount <;> split at hcount <;> omega
  | answered a =>
    rw [hp] at hrank
    obtain ⟨t, rfl⟩ := hrank
    exact ⟨t, rfl⟩
  | abandoned => rw [hp] at hafter; exact hafter.elim
  | cut => exact absurd (List.mem_of_getElem? hm) (hout hp k life hl)

end Completion

/-! ## Who is admitted -/

section Bound

variable {ι : Type} [DecidableEq ι] {l : Limiter} {host : ι → Option String} {s : State ι}

variable (l host) in
/-- The first `limit` requests of a lifetime are admitted, with one less remaining each time, and the others are
refused. -/
structure WindowBound (events : List (Event ι)) (life : List ι) : Prop where
  nodup : life.Nodup
  verdict : ∀ (j : ℕ) i, life[j]? = some i → Completes events i j →
    ((j < l.limit → ∃ reset, (run l host events).phase i = .answered (.admitted ⟨l.limit, l.limit - (j + 1), reset⟩)) ∧
      (l.limit ≤ j → ∃ reset, (run l host events).phase i = .answered (.rateLimited ⟨l.limit, 0, reset⟩)))
  /-- Whoever has an answer already has the one of its place. -/
  answered : ∀ (j : ℕ) i a, life[j]? = some i → (run l host events).phase i = .answered a →
    ((j < l.limit → ∃ reset, a = .admitted ⟨l.limit, l.limit - (j + 1), reset⟩) ∧
      (l.limit ≤ j → ∃ reset, a = .rateLimited ⟨l.limit, 0, reset⟩))
  admitted : (∀ (j : ℕ) (h : j < life.length), Completes events life[j] j) →
    life.filter (fun i => ((run l host events).phase i).isAdmitted) = life.take (min life.length l.limit.toNat)
  refused : (∀ (j : ℕ) (h : j < life.length), Completes events life[j] j) →
    life.filter (fun i => ((run l host events).phase i).isRefused) = life.drop (min life.length l.limit.toNat)
  remaining : (∀ (j : ℕ) (h : j < life.length), Completes events life[j] j) →
    life.filterMap (fun i => ((run l host events).phase i).remaining) =
      (List.range (min life.length l.limit.toNat)).map fun j : ℕ => l.limit - 1 - j

theorem answer_verdict {j : ℕ} {t : ℤ} :
    (j < l.limit → ∃ reset, l.answer (j + 1) t = .admitted ⟨l.limit, l.limit - (j + 1), reset⟩) ∧
      (l.limit ≤ j → ∃ reset, l.answer (j + 1) t = .rateLimited ⟨l.limit, 0, reset⟩) := by
  unfold Limiter.answer
  constructor
  · intro h
    rw [if_neg (by push_cast; omega), max_eq_left (by push_cast; omega)]
    exact ⟨_, rfl⟩
  · intro h
    rw [if_pos (by push_cast; omega), max_eq_right (by push_cast; omega)]
    exact ⟨_, rfl⟩

omit [DecidableEq ι] in
/-- What is kept of a list, if it depends on the place alone. -/
theorem filterMap_range {β : Type} {f : ι → Option β} {g : ℕ → β} {m : ℕ} (xs : List ι)
    (h : ∀ j i, xs[j]? = some i → f i = if j < m then some (g j) else none) :
    xs.filterMap f = (List.range (min xs.length m)).map g := by
  induction xs using List.reverseRecOn with
  | nil => simp
  | append_singleton xs x ih =>
    have hx := h xs.length x (by simp)
    have hxs := ih fun j i hj => h j i (by rw [List.getElem?_append_left (List.getElem?_eq_some_iff.mp hj).1, hj])
    rw [List.filterMap_append, hxs, List.length_append, List.length_singleton]
    by_cases hm : xs.length < m
    · rw [show min (xs.length + 1) m = xs.length + 1 by omega, show min xs.length m = xs.length by omega,
        List.range_succ, List.map_append]
      simp [hx, hm]
    · rw [show min (xs.length + 1) m = m by omega, show min xs.length m = m by omega]
      simp [hx, hm]

omit [DecidableEq ι] in
theorem filter_take {p : ι → Bool} {m : ℕ} (xs : List ι) (h : ∀ j i, xs[j]? = some i → (p i = true ↔ j < m)) :
    xs.filter p = xs.take (min xs.length m) := by
  induction xs using List.reverseRecOn with
  | nil => simp
  | append_singleton xs x ih =>
    have hx := h xs.length x (by simp)
    have hxs := ih fun j i hj => h j i (by rw [List.getElem?_append_left (List.getElem?_eq_some_iff.mp hj).1, hj])
    rw [List.filter_append, hxs, List.length_append, List.length_singleton]
    by_cases hm : xs.length < m
    · rw [show min (xs.length + 1) m = xs.length + 1 by omega, show min xs.length m = xs.length by omega,
        List.take_length, List.take_of_length_le (by simp)]
      simp [hx, hm]
    · rw [show min (xs.length + 1) m = m by omega, show min xs.length m = m by omega,
        List.take_append_of_le_length (by omega)]
      simp [hx, hm]

omit [DecidableEq ι] in
theorem filter_drop {p : ι → Bool} {m : ℕ} (xs : List ι) (h : ∀ j i, xs[j]? = some i → (p i = true ↔ ¬j < m)) :
    xs.filter p = xs.drop (min xs.length m) := by
  induction xs using List.reverseRecOn with
  | nil => simp
  | append_singleton xs x ih =>
    have hx := h xs.length x (by simp)
    have hxs := ih fun j i hj => h j i (by rw [List.getElem?_append_left (List.getElem?_eq_some_iff.mp hj).1, hj])
    rw [List.filter_append, hxs, List.length_append, List.length_singleton]
    by_cases hm : xs.length < m
    · rw [show min (xs.length + 1) m = xs.length + 1 by omega, show min xs.length m = xs.length by omega,
        List.drop_length, List.drop_of_length_le (by simp)]
      simp [hx, hm]
    · rw [show min (xs.length + 1) m = m by omega, show min xs.length m = m by omega,
        List.drop_append_of_le_length (by omega)]
      simp [hx, hm]

theorem window_bound {events : List (Event ι)} {k : String} {life : List ι}
    (hl : life ∈ (run l host events).lifetimes k) : WindowBound l host events life := by
  have hv : ∀ (j : ℕ) i, life[j]? = some i → Completes events i j →
      ((j < l.limit → ∃ reset,
          (run l host events).phase i = .answered (.admitted ⟨l.limit, l.limit - (j + 1), reset⟩)) ∧
        (l.limit ≤ j → ∃ reset, (run l host events).phase i = .answered (.rateLimited ⟨l.limit, 0, reset⟩))) := by
    intro j i hj hc
    obtain ⟨t, ht⟩ := answered_of_completes hl hj hc
    refine ⟨fun h => ?_, fun h => ?_⟩
    · obtain ⟨reset, ha⟩ := answer_verdict.1 h
      exact ⟨reset, ht.trans (congrArg Phase.answered ha)⟩
    · obtain ⟨reset, ha⟩ := answer_verdict.2 h
      exact ⟨reset, ht.trans (congrArg Phase.answered ha)⟩
  -- a request that completes is admitted or refused by its place
  have hcases : (∀ (j : ℕ) (h : j < life.length), Completes events life[j] j) → ∀ j i, life[j]? = some i →
      (j < l.limit.toNat ∧
        ∃ reset, (run l host events).phase i = .answered (.admitted ⟨l.limit, l.limit - (j + 1), reset⟩)) ∨
      (¬ j < l.limit.toNat ∧ ∃ reset, (run l host events).phase i = .answered (.rateLimited ⟨l.limit, 0, reset⟩)) := by
    intro hall j i hj
    obtain ⟨hlt, rfl⟩ := List.getElem?_eq_some_iff.mp hj
    obtain ⟨hfirst, hlater⟩ := hv j _ hj (hall j hlt)
    by_cases hm : j < l.limit.toNat
    · exact Or.inl ⟨hm, hfirst (by omega)⟩
    · exact Or.inr ⟨hm, hlater (by omega)⟩
  refine ⟨(counts_run events).nodup k life hl, hv, fun j i a hj ha => ?_,
    fun hall => filter_take life fun j i hj => ?_, fun hall => filter_drop life fun j i hj => ?_,
    fun hall => filterMap_range life fun j i hj => ?_⟩
  · have hc := (counts_run events).rank k life hl j i hj
    rw [ha] at hc
    obtain ⟨t, rfl⟩ := hc
    exact answer_verdict
  · rcases hcases hall j i hj with ⟨hm, reset, hp⟩ | ⟨hm, reset, hp⟩
    · simp [hp, hm, Phase.isAdmitted]
    · simp [hp, hm, Phase.isAdmitted]
  · rcases hcases hall j i hj with ⟨hm, reset, hp⟩ | ⟨hm, reset, hp⟩
    · simp [hp, hm, Phase.isRefused]
    · simp [hp, hm, Phase.isRefused]
  · rcases hcases hall j i hj with ⟨hm, reset, hp⟩ | ⟨hm, reset, hp⟩
    · rw [hp, if_pos hm]
      show some (l.limit - ((j : ℤ) + 1)) = _
      rw [Int.sub_sub, Int.add_comm]
    · rw [hp, if_neg hm]
      rfl

/-- **Among the requests that one lifetime of a key counts, the first `limit` are admitted, each with its own
number of remaining requests, and all others get 429**, as far as they complete; whoever has an answer was counted in
a lifetime of its key. -/
theorem fixed_window_bound (l : Limiter) (host : ι → Option String) (events : List (Event ι)) :
    (∀ k, ∀ life ∈ (run l host events).lifetimes k,
      (∀ i ∈ life, l.keyOf host i = k) ∧ WindowBound l host events life) ∧
    ∀ i a, (run l host events).phase i = .answered a →
      ∃ life ∈ (run l host events).lifetimes (l.keyOf host i), i ∈ life := by
  have h : Counts l host (run l host events) := counts_run events
  refine ⟨fun k life hl => ⟨h.home k life hl, window_bound hl⟩, fun i a ha => h.entered i ?_ ?_⟩
  · rw [ha]
    exact Phase.noConfusion
  · rw [ha]
    exact Phase.noConfusion

/-- Three requests of one client whose commands interleave: two of them are admitted, and one is refused. -/
theorem fixed_window_bound_interleaved :
    let s := run ⟨"auth:login", 2, 3600⟩ (fun _ => some "10.0.0.1")
      [.command 0, .command 1, .command 2, .command 0, .command 2, .command 1, .command 0]
    [0, 1, 2].filter (fun i => (s.phase i).isAdmitted) = [0, 1] ∧
      [0, 1, 2].filter (fun i => (s.phase i).isRefused) = [2] ∧
      [0, 1, 2].filterMap (fun i => (s.phase i).remaining) = [1, 0] := by
  intro s
  have hb := (fixed_window_bound ⟨"auth:login", 2, 3600⟩ (fun _ : ℕ => some "10.0.0.1")
    [.command 0, .command 1, .command 2, .command 0, .command 2, .command 1, .command 0]).1 "ratelimit:auth:login:10.0.0.1"
    [0, 1, 2] (by decide +kernel)
  exact ⟨hb.2.admitted (by decide +kernel), hb.2.refused (by decide +kernel), hb.2.remaining (by decide +kernel)⟩

end Bound

/-! ## When the key expires -/

section Expiry

variable {ι : Type} [DecidableEq ι] {l : Limiter} {host : ι → Option String} {s : State ι} {i : ι}

/-- A key has no expiry as long as the `EXPIRE` of the request that opened its lifetime did not run. -/
structure Opens (l : Limiter) (host : ι → Option String) (s : State ι) : Prop where
  bare : ∀ k v, s.redis k = some ⟨v, none⟩ →
    ∃ o tail rest, s.lifetimes k = (o :: tail) :: rest ∧ (s.phase o).Opening
  opening : ∀ i, (s.phase i).Opening → ∃ v tail rest,
    s.redis (l.keyOf host i) = some ⟨v, none⟩ ∧ s.lifetimes (l.keyOf host i) = (i :: tail) :: rest
  expiring : ∀ k v t, s.redis k = some ⟨v, some t⟩ → t ≤ s.now + l.window

theorem opening_moveTo {p : Phase} (hp : (s.phase i).Opening ↔ p.Opening) (j : ι) :
    ((s.moveTo i p).phase j).Opening ↔ (s.phase j).Opening := by
  by_cases hj : j = i
  · subst hj
    rw [moveTo_phase_self, hp]
  · rw [moveTo_phase_of_ne hj]

/-- Another phase, on the same side of the `EXPIRE`. -/
theorem Opens.moveTo (h : Opens l host s) {p : Phase} (hp : (s.phase i).Opening ↔ p.Opening) :
    Opens l host (s.moveTo i p) := by
  refine ⟨fun k v hk => ?_, fun j hj => ?_, h.expiring⟩
  · obtain ⟨o, tail, rest, hl, ho⟩ := h.bare k v hk
    exact ⟨o, tail, rest, hl, (opening_moveTo hp o).mpr ho⟩
  · exact h.opening j ((opening_moveTo hp j).mp hj)

omit [DecidableEq ι] in
/-- The entry of a key without an expiry is live. -/
theorem live_bare {k : String} {v : ℕ} (h : s.redis k = some ⟨v, none⟩) : s.entry k = some ⟨v, none⟩ :=
  Cache.get_eq_some.mpr ⟨h, rfl⟩

theorem not_opening_counted {n : ℕ} : ¬ (Phase.counted n).Opening := by
  rintro (h | h) <;> cases h

theorem Opens.expire (hc : Counts l host s) (h : Opens l host s) (hp : s.phase i = .opened) :
    Opens l host (s.expire l host i) := by
  obtain ⟨v, tail, rest, hr, hl⟩ := h.opening i (Or.inl hp)
  have hself : (s.expire l host i).redis (l.keyOf host i) = some ⟨v, some (s.now + l.window)⟩ := by
    rcases Cache.expire_self s.redis (l.keyOf host i) s.now (s.now + l.window) with ⟨e, hg, he⟩ | ⟨hg, -⟩
    · have he' : e = ⟨v, none⟩ := Option.some.inj (hg.symm.trans (live_bare hr))
      exact he.trans (by rw [he'])
    · have hsome : Cache.get s.redis (l.keyOf host i) s.now = some ⟨v, none⟩ := live_bare hr
      rw [hg] at hsome
      cases hsome
  have hother : ∀ k, k ≠ l.keyOf host i → (s.expire l host i).redis k = s.redis k :=
    fun k hk => Cache.expire_of_ne hk
  have hphase : ∀ j, j ≠ i → (s.expire l host i).phase j = s.phase j := fun j hj => moveTo_phase_of_ne hj
  refine ⟨fun k w hk => ?_, fun j hj => ?_, fun k w t hk => ?_⟩
  · by_cases hkey : k = l.keyOf host i
    · subst hkey
      rw [hself] at hk
      cases hk
    · rw [hother k hkey] at hk
      obtain ⟨o, tail', rest', hl', ho⟩ := h.bare k w hk
      refine ⟨o, tail', rest', hl', ?_⟩
      have home : l.keyOf host o = k := hc.home k (o :: tail') (by rw [hl']; exact List.mem_cons_self) o
        List.mem_cons_self
      rw [hphase o fun hoi => hkey (by rw [← home, hoi])]
      exact ho
  · by_cases hji : j = i
    · subst hji
      have hself : (s.expire l host j).phase j = .counted 1 := moveTo_phase_self
      rw [hself] at hj
      exact absurd hj not_opening_counted
    · rw [hphase j hji] at hj
      obtain ⟨w, tail', rest', hr', hl'⟩ := h.opening j hj
      by_cases hkey : l.keyOf host j = l.keyOf host i
      · rw [hkey, hl] at hl'
        cases hl'
        exact absurd rfl hji
      · exact ⟨w, tail', rest', (hother _ hkey).trans hr', hl'⟩
  · by_cases hkey : k = l.keyOf host i
    · subst hkey
      rw [hself] at hk
      cases hk
      exact le_rfl
    · exact h.expiring k w t ((hother k hkey).symm.trans hk)

theorem not_opening_start : ¬ Phase.start.Opening := by
  rintro (h | h) <;> cases h

theorem Opens.counting (h : Opens l host s) (hstart : s.phase i = .start) {life : List ι} {rest : List (List ι)}
    {x : Option ℕ} (hf : Finds s (l.keyOf host i) life rest x) :
    Opens l host (s.counting i (l.keyOf host i) life rest x) := by
  have hne : ∀ o, (s.phase o).Opening → o ≠ i := by
    rintro o ho rfl
    rw [hstart] at ho
    exact not_opening_start ho
  refine ⟨fun k v hk => ?_, fun j hj => ?_, fun k v t hk => ?_⟩
  · by_cases hkey : k = l.keyOf host i
    · subst hkey
      rw [counting_redis_self] at hk
      cases hf with
      | missing =>
        refine ⟨i, [], s.lifetimes (l.keyOf host i), counting_lifetimes_self, ?_⟩
        rw [counting_phase_self]
        exact Or.inl rfl
      | @present e life rest live _ _ last =>
        have hbare : s.redis (l.keyOf host i) = some ⟨e.val, none⟩ := by
          have hx : e.expiresAt = none := (Cache.Entry.mk.inj (Option.some.inj hk)).2
          rw [← hx]
          exact (Cache.get_eq_some.mp live).1
        obtain ⟨o, tail, rest', hlast, ho⟩ := h.bare _ _ hbare
        rw [last] at hlast
        cases hlast
        refine ⟨o, tail ++ [i], rest, counting_lifetimes_self, ?_⟩
        rw [counting_phase_of_ne (hne o ho)]
        exact ho
    · rw [counting_redis_of_ne hkey] at hk
      obtain ⟨o, tail, rest', hlast, ho⟩ := h.bare k v hk
      refine ⟨o, tail, rest', (counting_lifetimes_of_ne hkey).trans hlast, ?_⟩
      rw [counting_phase_of_ne (hne o ho)]
      exact ho
  · by_cases hji : j = i
    · subst hji
      rw [counting_phase_self] at hj
      cases hf with
      | missing => exact ⟨1, [], s.lifetimes (l.keyOf host j), counting_redis_self, counting_lifetimes_self⟩
      | present _ _ ne _ =>
        rw [if_neg ne] at hj
        exact absurd hj not_opening_counted
    · rw [counting_phase_of_ne hji] at hj
      obtain ⟨v, tail, rest', hbare, hlast⟩ := h.opening j hj
      by_cases hkey : l.keyOf host j = l.keyOf host i
      · rw [hkey] at hbare hlast ⊢
        cases hf with
        | missing gone =>
          rw [live_bare hbare] at gone
          cases gone
        | @present e life rest live _ _ last =>
          have he : e = ⟨v, none⟩ := Option.some.inj (live.symm.trans (live_bare hbare))
          rw [last] at hlast
          cases hlast
          exact ⟨_, tail ++ [i], rest, by rw [counting_redis_self, he], counting_lifetimes_self⟩
      · exact ⟨v, tail, rest', (counting_redis_of_ne hkey).trans hbare,
          (counting_lifetimes_of_ne hkey).trans hlast⟩
  · by_cases hkey : k = l.keyOf host i
    · subst hkey
      rw [counting_redis_self] at hk
      cases hf with
      | missing => cases hk
      | @present e life rest live _ _ last =>
        have hx : e.expiresAt = some t := (Cache.Entry.mk.inj (Option.some.inj hk)).2
        refine h.expiring (l.keyOf host i) e.val t ?_
        rw [← hx]
        exact (Cache.get_eq_some.mp live).1
    · exact h.expiring k v t ((counting_redis_of_ne hkey).symm.trans hk)

/-- A step keeps openers and expiries. -/
theorem Opens.step (hc : Counts l host s) (h : Opens l host s) (e : Event ι) : Opens l host (s.step l host e) := by
  have side : ∀ {p q : Phase}, ¬ p.Opening → ¬ q.Opening → (p.Opening ↔ q.Opening) :=
    fun hp hq => ⟨fun hp' => absurd hp' hp, fun hq' => absurd hq' hq⟩
  have hcut : ¬ Phase.cut.Opening := by rintro (h | h) <;> cases h
  cases e with
  | wait d => exact ⟨h.bare, h.opening, fun k v t hk => (h.expiring k v t hk).trans (by simp [State.step])⟩
  | cutOff i =>
    show Opens l host (s.moveTo i (s.phase i).cutOff)
    refine h.moveTo ?_
    cases hp : s.phase i with
    | start => exact side not_opening_start hcut
    | opened => exact ⟨fun _ => Or.inr rfl, fun _ => Or.inl rfl⟩
    | counted n => exact side not_opening_counted hcut
    | answered a => exact Iff.rfl
    | abandoned => exact Iff.rfl
    | cut => exact Iff.rfl
  | command i =>
    show Opens l host (s.command l host i)
    unfold State.command
    cases hp : s.phase i with
    | start =>
      rcases hc.incr_cases i with he | ⟨life, rest, x, hf, he⟩
      · rw [he]
        refine h.moveTo ?_
        rw [hp]
        exact side not_opening_start hcut
      · rw [he]
        exact h.counting hp hf
    | opened => exact h.expire hc hp
    | counted n =>
      refine h.moveTo ?_
      rw [hp]
      refine side not_opening_counted ?_
      rintro (h | h) <;> cases h
    | answered a => exact h
    | abandoned => exact h
    | cut => exact h

theorem opens_run (events : List (Event ι)) : Opens l host (run l host events) := by
  induction events using List.reverseRecOn with
  | nil =>
    refine ⟨fun k v hk => ?_, fun i hi => absurd hi not_opening_start, fun k v t hk => ?_⟩
    · cases hk
    · cases hk
  | append_singleton events e ih =>
    rw [run_snoc]
    exact ih.step (counts_run events) e

/-! ## Clients that were refused -/

/-- Somebody who was counted in the last lifetime of the key has an answer. -/
def State.Served (s : State ι) (k : String) : Prop :=
  ∃ life rest, s.lifetimes k = life :: rest ∧ ∃ i ∈ life, (s.phase i).isAnswered = true

variable (l host) in
/-- A key by which requests were answered expires, and a request that comes a window later is admitted. -/
structure Recovers (s : State ι) (k : String) : Prop where
  expires : s.Served k → ∀ e, s.entry k = some e → e.expiresAt.isSome = true
  readmits : s.Served k → 1 ≤ l.limit → ∀ i d, s.phase i = .start → l.keyOf host i = k → l.window ≤ d →
    ((runFrom l host s [.wait d, .command i, .command i, .command i]).phase i).isAdmitted = true

variable (l host) in
/-- The event is not the `TTL` of a request in whose lifetime the `EXPIRE` did not run. -/
def Orderly (s : State ι) (e : Event ι) : Prop :=
  ∀ i n, e = .command i → s.phase i = .counted n → ∀ o tail rest,
    s.lifetimes (l.keyOf host i) = (o :: tail) :: rest → i ∈ o :: tail → ¬ (s.phase o).Opening

/-- Nobody has an answer from a lifetime in which the `EXPIRE` did not run. -/
def Unserved (s : State ι) : Prop :=
  ∀ k o tail rest, s.lifetimes k = (o :: tail) :: rest → (s.phase o).Opening → ∀ i ∈ o :: tail,
    (s.phase i).isAnswered = false

theorem Unserved.moveTo (hc : Counts l host s) (h : Unserved s) {p : Phase} {r : Cache.Store String ℕ}
    (hp : p.Opening → (s.phase i).Opening)
    (ha : p.isAnswered = true → (s.phase i).isAnswered = true ∨ ∀ o tail rest,
      s.lifetimes (l.keyOf host i) = (o :: tail) :: rest → i ∈ o :: tail → ¬ (s.phase o).Opening ∧ ¬ p.Opening) :
    Unserved { (s.moveTo i p) with redis := r } := by
  intro k o tail rest hl ho j hj
  have hl' : s.lifetimes k = (o :: tail) :: rest := hl
  have ho' : (s.phase o).Opening := by
    by_cases hoi : o = i
    · subst hoi
      have he : ({ (s.moveTo o p) with redis := r } : State ι).phase o = p := moveTo_phase_self
      exact hp (he ▸ ho)
    · have he : ({ (s.moveTo i p) with redis := r } : State ι).phase o = s.phase o := moveTo_phase_of_ne hoi
      exact he ▸ ho
  have hold := h k o tail rest hl' ho' j hj
  by_cases hji : j = i
  · subst hji
    show ((s.moveTo j p).phase j).isAnswered = false
    rw [moveTo_phase_self]
    cases hpa : p.isAnswered with
    | false => rfl
    | true =>
      have home : l.keyOf host j = k := hc.home k (o :: tail) (by rw [hl']; exact List.mem_cons_self) j hj
      rcases ha hpa with hs | hs
      · rw [hold] at hs
        cases hs
      · exact absurd ho' (hs o tail rest (by rw [home]; exact hl') hj).1
  · show ((s.moveTo i p).phase j).isAnswered = false
    rw [moveTo_phase_of_ne hji]
    exact hold

theorem Unserved.counting (hc : Counts l host s) (h : Unserved s) (hstart : s.phase i = .start) {life : List ι}
    {rest : List (List ι)} {x : Option ℕ} (hf : Finds s (l.keyOf host i) life rest x) :
    Unserved (s.counting i (l.keyOf host i) life rest x) := by
  have hself : ((s.counting i (l.keyOf host i) life rest x).phase i).isAnswered = false := by
    rw [counting_phase_self]
    split <;> rfl
  have hout : ∀ {k o tail rest}, s.lifetimes k = (o :: tail) :: rest → o ≠ i := by
    rintro k o tail rest hl rfl
    exact hc.not_mem hstart k (o :: tail) (by rw [hl]; exact List.mem_cons_self) List.mem_cons_self
  intro k o tail rest' hl ho j hj
  by_cases hji : j = i
  · rw [hji]
    exact hself
  · rw [counting_phase_of_ne hji]
    by_cases hkey : k = l.keyOf host i
    · subst hkey
      rw [counting_lifetimes_self] at hl
      cases hf with
      | missing =>
        cases hl
        exact absurd (List.mem_singleton.mp hj) hji
      | @present e life rest _ _ ne last =>
        cases life with
        | nil => exact absurd rfl ne
        | cons o' tail' =>
          cases hl
          rw [counting_phase_of_ne (hout last)] at ho
          refine h _ o tail' rest last ho j ?_
          have hj' : j ∈ (o :: tail') ++ [i] := hj
          rcases List.mem_append.mp hj' with hj' | hj'
          · exact hj'
          · exact absurd (List.mem_singleton.mp hj') hji
    · rw [counting_lifetimes_of_ne hkey] at hl
      rw [counting_phase_of_ne (hout hl)] at ho
      exact h k o tail rest' hl ho j hj

theorem Unserved.step (hc : Counts l host s) (h : Unserved s) {e : Event ι} (he : Orderly l host s e) :
    Unserved (s.step l host e) := by
  cases e with
  | wait d => exact h
  | cutOff i =>
    show Unserved (s.moveTo i (s.phase i).cutOff)
    refine h.moveTo hc ?_ ?_
    · cases hp : s.phase i with
      | start => rintro (h | h) <;> cases h
      | opened => exact fun _ => Or.inl rfl
      | counted n => rintro (h | h) <;> cases h
      | answered a => exact id
      | abandoned => exact id
      | cut => exact id
    · cases hp : s.phase i with
      | answered a => exact fun _ => Or.inl rfl
      | start => exact fun h => by cases h
      | opened => exact fun h => by cases h
      | counted n => exact fun h => by cases h
      | abandoned => exact fun h => by cases h
      | cut => exact fun h => by cases h
  | command i =>
    show Unserved (s.command l host i)
    unfold State.command
    cases hp : s.phase i with
    | start =>
      rcases hc.incr_cases i with hi | ⟨life, rest, x, hf, hi⟩
      · rw [hi]
        exact h.moveTo hc (by rintro (h | h) <;> cases h) (fun h => by cases h)
      · rw [hi]
        exact h.counting hc hp hf
    | opened => exact h.moveTo hc (fun h => absurd h not_opening_counted) (fun h => by cases h)
    | counted n =>
      refine h.moveTo hc (by rintro (h | h) <;> cases h) (fun _ => Or.inr fun o tail rest hl hi => ⟨?_, ?_⟩)
      · exact he i n rfl hp o tail rest hl hi
      · rintro (h | h) <;> cases h
    | answered a => exact h
    | abandoned => exact h
    | cut => exact h

/-- A request that finds no key is admitted, if anybody is. -/
theorem admitted_alone (hlimit : 1 ≤ l.limit) (hstart : s.phase i = .start) (hnone : s.entry (l.keyOf host i) = none) :
    ((runFrom l host s [.command i, .command i, .command i]).phase i).isAdmitted = true := by
  have hnext : s.next (l.keyOf host i) = 1 := by
    unfold State.next
    rw [hnone]
    rfl
  obtain ⟨s₁, hs₁, h₁⟩ : ∃ s₁, s.step l host (.command i) = s₁ ∧ s₁.phase i = .opened := by
    refine ⟨_, rfl, ?_⟩
    show (s.command l host i).phase i = .opened
    unfold State.command
    rw [hstart]
    show (s.incr l host i).phase i = .opened
    unfold State.incr
    dsimp only
    rw [if_pos (by rw [hnext]; decide), if_pos hnext]
    exact moveTo_phase_self
  obtain ⟨s₂, hs₂, h₂⟩ : ∃ s₂, s₁.step l host (.command i) = s₂ ∧ s₂.phase i = .counted 1 := by
    refine ⟨_, rfl, ?_⟩
    show (s₁.command l host i).phase i = .counted 1
    unfold State.command
    rw [h₁]
    exact moveTo_phase_self
  have h₃ : (s₂.step l host (.command i)).phase i =
      .answered (l.answer 1 (ttl s₂.redis (l.keyOf host i) s₂.now)) := by
    show (s₂.command l host i).phase i = _
    unfold State.command
    rw [h₂]
    exact moveTo_phase_self
  show ((((s.step l host (.command i)).step l host (.command i)).step l host (.command i)).phase i).isAdmitted = true
  rw [hs₁, hs₂, h₃]
  obtain ⟨reset, ha⟩ := (answer_verdict (l := l) (j := 0) (t := ttl s₂.redis (l.keyOf host i) s₂.now)).1
    (by push_cast; omega)
  rw [show l.answer 1 _ = _ from ha]
  rfl

theorem Unserved.recovers (ho : Opens l host s) (h : Unserved s) (k : String) : Recovers l host s k := by
  -- the key of a lifetime in which somebody was answered has an expiry
  have hbare : s.Served k → ∀ v, s.redis k ≠ some ⟨v, none⟩ := by
    rintro ⟨life, rest, hl, i, hi, ha⟩ v hv
    obtain ⟨o, tail, rest', hl', hopen⟩ := ho.bare k v hv
    rw [hl] at hl'
    cases hl'
    have hf := h k o tail rest hl hopen i hi
    rw [ha] at hf
    cases hf
  refine ⟨fun hs e he => ?_, fun hs hlimit i d hstart hkey hd => ?_⟩
  · obtain ⟨v, x⟩ := e
    cases x with
    | none => exact absurd (Cache.get_eq_some.mp he).1 (hbare hs v)
    | some t => rfl
  · subst hkey
    refine admitted_alone (s := s.step l host (.wait d)) hlimit hstart ?_
    cases hg : (s.step l host (.wait d)).entry (l.keyOf host i) with
    | none => rfl
    | some e =>
      obtain ⟨hr, hlive⟩ := Cache.get_eq_some.mp hg
      obtain ⟨v, x⟩ := e
      cases x with
      | none => exact absurd hr (hbare hs v)
      | some t =>
        have ht : t ≤ s.now + l.window := ho.expiring _ v t hr
        have hlt : s.now + d < t := of_decide_eq_true hlive
        omega

/-- **In every state of a run a client that was refused is sure to be admitted again, exactly if no request is
answered in a lifetime whose first request did not run its `EXPIRE`.** -/
theorem counter_expires_iff (l : Limiter) (host : ι → Option String) (events : List (Event ι)) :
    (∀ before after, events = before ++ after → ∀ k, Recovers l host (run l host before) k) ↔
      ∀ before e after, events = before ++ e :: after → Orderly l host (run l host before) e := by
  constructor
  · rintro h before e after rfl i n rfl hp o tail rest hl hi ho
    have hc : Counts l host (run l host before) := counts_run before
    have hkey : l.keyOf host o = l.keyOf host i :=
      hc.home _ (o :: tail) (by rw [hl]; exact List.mem_cons_self) o List.mem_cons_self
    obtain ⟨v, -, -, hr, -⟩ := (opens_run before).opening o ho
    rw [hkey] at hr
    have hnext : (run l host before).step l host (.command i) = (run l host before).readTtl l host i n := by
      show (run l host before).command l host i = _
      unfold State.command
      rw [hp]
    have hrec := h (before ++ [.command i]) after (by simp) (l.keyOf host i)
    rw [run_snoc, hnext] at hrec
    have hsome := hrec.expires ⟨o :: tail, rest, hl, i, hi, ?_⟩ ⟨v, none⟩ (live_bare hr)
    · cases hsome
    · show (((run l host before).moveTo i _).phase i).isAnswered = true
      rw [moveTo_phase_self]
      rfl
  · rintro h before after rfl k
    refine Unserved.recovers (opens_run before) ?_ k
    have hall : ∀ p e q, before = p ++ e :: q → Orderly l host (run l host p) e := fun p e q hb =>
      h p e (q ++ after) (by rw [hb]; simp)
    clear h
    induction before using List.reverseRecOn with
    | nil =>
      intro k o tail rest hl
      cases hl
    | append_singleton before e ih =>
      rw [run_snoc]
      refine (ih fun p e' q hb => hall p e' (q ++ [e]) (by rw [hb]; simp)).step (counts_run before) ?_
      exact hall before e [] rfl

/-- The first request of a client is cut off after its `INCR`, and the second one is answered. -/
theorem counter_never_expires :
    ¬ ∀ (l : Limiter) (host : ℕ → Option String) (events : List (Event ℕ)) (k : String),
      Recovers l host (run l host events) k := by
  intro h
  have hr := h ⟨"auth:login", 1, 3600⟩ (fun _ => some "10.0.0.1") [.command 0, .cutOff 0, .command 1, .command 1]
    "ratelimit:auth:login:10.0.0.1"
  have hsome := hr.expires ⟨[0, 1], [], by decide +kernel, 1, by decide, by decide +kernel⟩ ⟨2, none⟩
    (by decide +kernel)
  cases hsome

end Expiry

end Bekaa3D.Core
