import Mathlib.Data.Nat.Notation
import Mathlib.Data.Option.Basic
import Mathlib.Logic.Function.Basic

/-!
# Cache.Expiring — a key-value store whose entries expire

Entries carry the time at which they expire, or none.  Time is a number; an entry is live before its expiry, and no
more in the millisecond itself, in which Redis still answers with it.

* `get`: the live entry of a key.
* `set`, `put`, `expire`, `delete`: a new entry, a new value under the old expiry, a new expiry of a live entry,
  no entry.
-/

namespace Cache

/-- A value, until a time. -/
structure Entry (V : Type) where
  val : V
  expiresAt : Option ℕ
  deriving DecidableEq, Repr

abbrev Store (K V : Type) := K → Option (Entry V)

variable {K V : Type}

def Entry.live (e : Entry V) (now : ℕ) : Bool := e.expiresAt.all fun x => now < x

/-- What is left of an entry at a time. -/
def alive (e : Option (Entry V)) (now : ℕ) : Option (Entry V) := e.filter fun e => e.live now

def get (c : Store K V) (k : K) (now : ℕ) : Option (Entry V) := alive (c k) now

variable [DecidableEq K]

def set (c : Store K V) (k : K) (v : V) (expiresAt : Option ℕ) : Store K V :=
  Function.update c k (some ⟨v, expiresAt⟩)

/-- The value changes, and the expiry of a live entry stays. -/
def put (c : Store K V) (k : K) (v : V) (now : ℕ) : Store K V := set c k v ((get c k now).bind Entry.expiresAt)

/-- A new expiry, if the entry is still live. -/
def expire (c : Store K V) (k : K) (now expiresAt : ℕ) : Store K V :=
  match get c k now with
  | some e => set c k e.val (some expiresAt)
  | none => c

def delete (c : Store K V) (k : K) : Store K V := Function.update c k none

section Lemmas

variable {c : Store K V} {k k' : K} {v : V} {now t : ℕ}

omit [DecidableEq K] in
theorem get_eq_some {e : Entry V} : get c k now = some e ↔ c k = some e ∧ e.live now = true := by
  unfold get alive
  rw [Option.filter_eq_some_iff]

@[simp] theorem set_self {x : Option ℕ} : set c k v x k = some ⟨v, x⟩ := Function.update_self ..

theorem set_of_ne {x : Option ℕ} (h : k' ≠ k) : set c k v x k' = c k' := Function.update_of_ne h ..

@[simp] theorem delete_self : delete c k k = none := Function.update_self ..

theorem delete_of_ne (h : k' ≠ k) : delete c k k' = c k' := Function.update_of_ne h ..

theorem put_of_ne (h : k' ≠ k) : put c k v now k' = c k' := set_of_ne h

theorem expire_of_ne (h : k' ≠ k) : expire c k now t k' = c k' := by
  unfold expire
  cases get c k now with
  | none => rfl
  | some e => exact set_of_ne h

/-- A new expiry, or the entry was dead and is as it was. -/
theorem expire_self (c : Store K V) (k : K) (now t : ℕ) :
    (∃ e, get c k now = some e ∧ expire c k now t k = some ⟨e.val, some t⟩) ∨
      get c k now = none ∧ expire c k now t k = c k := by
  unfold expire
  cases h : get c k now with
  | none => exact Or.inr ⟨rfl, rfl⟩
  | some e => exact Or.inl ⟨e, rfl, set_self⟩

end Lemmas

end Cache
