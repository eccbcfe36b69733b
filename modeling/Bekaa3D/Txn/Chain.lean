import Mathlib.Tactic.Common

/-!
# Txn.Chain — logs of changes

A log of the changes of a value, each entry with the value before it and after it.

* `Chain before after s l t`: the entries `l` lead from `s` to `t`, each from where the one before it ended.
-/

namespace Txn

variable {α σ : Type}

def Chain (before after : α → σ) : σ → List α → σ → Prop
  | s, [], t => t = s
  | s, e :: l, t => before e = s ∧ Chain before after (after e) l t

namespace Chain

variable {before after : α → σ} {s t : σ} {l l' : List α} {e e' : α}

@[simp] theorem nil : Chain before after s [] t ↔ t = s := Iff.rfl

@[simp] theorem cons : Chain before after s (e :: l) t ↔ before e = s ∧ Chain before after (after e) l t := Iff.rfl

theorem append : Chain before after s (l ++ l') t ↔ ∃ m, Chain before after s l m ∧ Chain before after m l' t := by
  induction l generalizing s with
  | nil => simp
  | cons e l ih =>
    rw [List.cons_append, cons, ih]
    constructor
    · rintro ⟨h, m, h1, h2⟩
      exact ⟨m, ⟨h, h1⟩, h2⟩
    · rintro ⟨m, ⟨h, h1⟩, h2⟩
      exact ⟨h, m, h1, h2⟩

/-- One more entry, which starts where the log ended. -/
theorem snoc (h : Chain before after s l t) (hb : before e = t) : Chain before after s (l ++ [e]) (after e) :=
  append.mpr ⟨t, h, hb, rfl⟩

theorem snoc_iff : Chain before after s (l ++ [e]) t ↔ Chain before after s l (before e) ∧ after e = t := by
  rw [append]
  constructor
  · rintro ⟨m, h, rfl, rfl⟩
    exact ⟨h, rfl⟩
  · rintro ⟨h, rfl⟩
    exact ⟨_, h, rfl, rfl⟩

/-- Each entry starts where the one before it ended. -/
theorem next (h : Chain before after s (l ++ e :: e' :: l') t) : before e' = after e := by
  obtain ⟨m, -, -, h, -⟩ := append.mp h
  exact h

end Chain

end Txn
