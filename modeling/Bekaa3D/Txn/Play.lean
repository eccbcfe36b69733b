import Bekaa3D.Txn.Engine
import Mathlib.Data.Fintype.Basic
import Mathlib.Data.Fintype.EquivFin

/-!
# Txn.Play — running a schedule

A system of finitely many transactions, run by a schedule that says which transaction takes the next step and
how the environment answers its statement.

* `Player`: answers to statements that the engine allows.
* `play`: the state after a schedule, if every step of it can be taken.
* `play_reach`: that state is reachable, in a run whose events pass the check `ok`.
-/

namespace Txn

/-- Answers to statements, chosen by a `C`. -/
structure Player (E : Engine) (C : Type) where
  answer : (o : E.Op) → E.Db → E.Mem → C → Option (E.Resp o)
  sound : ∀ {o db mem c r} (free : E.Lock → Prop), answer o db mem c = some r → E.resp o db mem free r

/-- The next step of a schedule: transaction `i` goes on, with the environment's choice, or crashes. -/
inductive Move (ι C : Type) where
  | go (i : ι) (c : C)
  | crash (i : ι)

section Play

variable {E : Engine} {ι C : Type} [Fintype ι] [DecidableEq ι]

/-- No transaction but `i` holds a lock that conflicts with one of `ls`. -/
def Sys.free (s : Sys E ι) (i : ι) (ls : List E.Lock) : Bool :=
  decide (∀ j : ι, j = i ∨ (s.txs j).held.all fun m => ls.all fun l => !E.conflict l m)

theorem Sys.free_iff {s : Sys E ι} {i : ι} {ls : List E.Lock} (h : s.free i ls = true) : ∀ l ∈ ls, s.Free i l := by
  intro l hl j hj m hm
  rcases of_decide_eq_true h j with h | h
  · exact absurd h hj
  · simpa using List.all_eq_true.mp (List.all_eq_true.mp h m hm) l hl

variable (P : Player E C) (ok : World E ι → Event E ι → Bool)

def move (s : Sys E ι) : Move ι C → Option (Sys E ι)
  | .go i c =>
    match s.txs i with
    | .run (.call o k) L f =>
      match P.answer o (f s.world.db) s.world.mem c with
      | some r =>
        if s.free i (E.need o r) && ok s.world ⟨i, .stmt o r⟩ then
          some ⟨s.world.stmt i o r, Function.update s.txs i (.run (k r) (E.need o r ++ L) (E.write o r ∘ f))⟩
        else none
      | none => none
    | .run (.commit k) _ f =>
      if ok s.world ⟨i, .commit⟩ then some ⟨s.world.commit i f, Function.update s.txs i (.run k [] id)⟩ else none
    | .run (.ret a) _ _ =>
      if ok s.world ⟨i, .done (.ok a)⟩ then some ⟨s.world.push i (.done (.ok a)), Function.update s.txs i .over⟩
      else none
    | .run (.raise e) _ _ =>
      if ok s.world ⟨i, .done (.error e)⟩ then
        some ⟨s.world.push i (.done (.error e)), Function.update s.txs i .over⟩
      else none
    | .over => none
  | .crash i =>
    match s.txs i with
    | .run _ _ _ =>
      if ok s.world ⟨i, .crash⟩ then some ⟨s.world.push i .crash, Function.update s.txs i .over⟩ else none
    | .over => none

def play (s : Sys E ι) : List (Move ι C) → Option (Sys E ι)
  | [] => some s
  | m :: ms => (move P ok s m).bind fun s' => play s' ms

variable {P ok} {A : World E ι → Event E ι → Prop} (hok : ∀ {w e}, ok w e = true → A w e)

include hok

theorem move_step {s s' : Sys E ι} {m : Move ι C} (h : move P ok s m = some s') : Step A s s' := by
  cases m with
  | go i c =>
    dsimp only [move] at h
    split at h
    · rename_i o k L f hi
      split at h
      · rename_i r hr
        split at h
        · rename_i hf
          cases h
          rw [Bool.and_eq_true] at hf
          exact .stmt hi (P.sound _ hr) (Sys.free_iff hf.1) (hok hf.2)
        · cases h
      · cases h
    · rename_i k L f hi
      split at h
      · rename_i ha
        cases h
        exact .commit hi (hok ha)
      · cases h
    · rename_i a L f hi
      split at h
      · rename_i ha
        cases h
        exact .ret hi (hok ha)
      · cases h
    · rename_i e L f hi
      split at h
      · rename_i ha
        cases h
        exact .raise hi (hok ha)
      · cases h
    · cases h
  | crash i =>
    dsimp only [move] at h
    split at h
    · rename_i p L f hi
      split at h
      · rename_i ha
        cases h
        exact .crash hi (hok ha)
      · cases h
    · cases h

/-- The state after a schedule is reachable. -/
theorem play_reach {s s' : Sys E ι} {ms : List (Move ι C)} (h : play P ok s ms = some s') : Reach A s s' := by
  induction ms generalizing s with
  | nil => cases h; exact .refl
  | cons m ms ih =>
    obtain ⟨s₁, h₁, h⟩ := Option.bind_eq_some_iff.mp h
    exact .head (move_step hok h₁) (ih h)

omit hok in
variable (P ok) in
/-- What a check finds in the state after a schedule is true of a reachable state. -/
theorem play_any (hok : ∀ {w e}, ok w e = true → A w e) (s : Sys E ι) (ms : List (Move ι C))
    (check : Sys E ι → Bool) (h : (play P ok s ms).any check = true) : ∃ s', Reach A s s' ∧ check s' = true := by
  rw [Option.any_eq_true] at h
  obtain ⟨s', hs, hc⟩ := h
  exact ⟨s', play_reach hok hs, hc⟩

end Play

/-- Whether an act of transaction `i` passes the check `g`. -/
def World.sees {E : Engine} {ι : Type} [DecidableEq ι] (w : World E ι) (i : ι) (g : Act E → Bool) : Bool :=
  w.tr.any fun e => decide (e.who = i) && g e.act

theorem World.of_sees {E : Engine} {ι : Type} [DecidableEq ι] {w : World E ι} {i : ι} {g : Act E → Bool}
    (h : w.sees i g = true) : ∃ a, ⟨i, a⟩ ∈ w.tr ∧ g a = true := by
  obtain ⟨⟨j, a⟩, he, hg⟩ := List.any_eq_true.mp h
  obtain ⟨hj, ha⟩ := Bool.and_eq_true_iff.mp hg
  obtain rfl : j = i := of_decide_eq_true hj
  exact ⟨a, he, ha⟩

def Act.isCommit {E : Engine} : Act E → Bool
  | .commit => true
  | _ => false

theorem Act.eq_commit {E : Engine} {a : Act E} (h : a.isCommit = true) : a = .commit := by
  cases a with
  | commit => rfl
  | _ => cases h

end Txn
