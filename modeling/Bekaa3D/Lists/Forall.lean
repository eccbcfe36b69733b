import Mathlib.Data.List.Forall2

/-!
# Lists.Forall — lists that correspond, entry by entry

* `mapM_iff`: a computation over a list succeeds with the list of its results.
* `exists_left`, `exists_right`: every entry has its counterpart in the other list.
* `exists_forall₂`: entries that each have a counterpart have a list of them.
-/

namespace Lists

variable {α β : Type} {R : α → β → Prop} {xs : List α} {ys : List β}

theorem mapM_iff {ε : Type} {f : α → Except ε β} :
    xs.mapM f = .ok ys ↔ List.Forall₂ (fun x y => f x = .ok y) xs ys := by
  constructor
  · intro h
    induction xs generalizing ys with
    | nil => cases h; exact .nil
    | cons x xs ih =>
      rw [List.mapM_cons] at h
      cases hx : f x with
      | error e => rw [hx] at h; cases h
      | ok y =>
        rw [hx] at h
        cases hxs : xs.mapM f with
        | error e => rw [hxs] at h; cases h
        | ok ys' =>
          rw [hxs] at h
          cases h
          exact .cons hx (ih hxs)
  · intro h
    induction h with
    | nil => rfl
    | cons hx _ ih => rw [List.mapM_cons, hx, ih]; rfl

theorem exists_left (h : List.Forall₂ R xs ys) : ∀ y ∈ ys, ∃ x ∈ xs, R x y := by
  induction h with
  | nil => exact fun y hy => absurd hy (by simp)
  | @cons x y xs ys hxy _ ih =>
    refine List.forall_mem_cons.mpr ⟨⟨x, List.mem_cons_self, hxy⟩, fun y' hy => ?_⟩
    obtain ⟨x', hx, hp⟩ := ih y' hy
    exact ⟨x', List.mem_cons_of_mem x hx, hp⟩

theorem exists_right (h : List.Forall₂ R xs ys) : ∀ x ∈ xs, ∃ y ∈ ys, R x y :=
  fun x hx => exists_left (R := fun y x => R x y) h.flip x hx

theorem exists_forall₂ (h : ∀ x ∈ xs, ∃ y, R x y) : ∃ ys, List.Forall₂ R xs ys := by
  induction xs with
  | nil => exact ⟨[], .nil⟩
  | cons x xs ih =>
    obtain ⟨y, hy⟩ := h x List.mem_cons_self
    obtain ⟨ys, hys⟩ := ih fun x' hx => h x' (List.mem_cons_of_mem x hx)
    exact ⟨y :: ys, .cons hy hys⟩

end Lists
