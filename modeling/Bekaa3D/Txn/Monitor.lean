import Bekaa3D.Txn.Engine

/-!
# Txn.Monitor — what a transaction does, phase by phase

A transaction goes through phases: each statement it issues, with its reply, and each commit leads from one
phase to the next, and is refused where the phase does not allow it.

* `Prog.Tracks M φ p Q R`: from the phase `φ` on, `p` does only what the monitor `M` allows, and ends with an
  answer in a phase that satisfies `Q` or raises in one that satisfies `R`.
* `Sys.Tracked`: a phase for every transaction of a system; `update`: one of them takes a step.
-/

namespace Txn

/-- The phases of a transaction. -/
structure Monitor (S : Lang) (Ph : Type) where
  stmt : Ph → (o : S.Op) → S.Resp o → Option Ph
  commit : Ph → Option Ph

namespace Prog

variable {S : Lang} {Ph α β : Type}

/-- The program does what the monitor allows. -/
def Tracks (M : Monitor S Ph) : Ph → Prog S α → (Ph → α → Prop) → (Ph → S.Err → Prop) → Prop
  | φ, ret a, Q, _ => Q φ a
  | φ, raise e, _, R => R φ e
  | φ, call o k, Q, R => ∀ r, ∃ ψ, M.stmt φ o r = some ψ ∧ (k r).Tracks M ψ Q R
  | φ, commit k, Q, R => ∃ ψ, M.commit φ = some ψ ∧ k.Tracks M ψ Q R

variable {M : Monitor S Ph} {φ : Ph} {R : Ph → S.Err → Prop}

theorem tracks_bind {p : Prog S β} {f : β → Prog S α} {Q : Ph → α → Prop} :
    (p.bind f).Tracks M φ Q R ↔ p.Tracks M φ (fun ψ b => (f b).Tracks M ψ Q R) R := by
  induction p generalizing φ with
  | ret b => rfl
  | raise e => rfl
  | call o k ih => simp only [call_bind, Tracks, ih]
  | commit k ih => simp only [commit_bind, Tracks, ih]

theorem tracks_catchAll {p : Prog S α} {h : S.Err → Prog S α} {Q : Ph → α → Prop} :
    (p.catchAll h).Tracks M φ Q R ↔ p.Tracks M φ Q fun ψ e => (h e).Tracks M ψ Q R := by
  induction p generalizing φ with
  | ret a => rfl
  | raise e => rfl
  | call o k ih => simp only [call_catchAll, Tracks, ih]
  | commit k ih => simp only [commit_catchAll, Tracks, ih]

theorem Tracks.mono {p : Prog S α} {Q Q' : Ph → α → Prop} {R' : Ph → S.Err → Prop} (h : p.Tracks M φ Q R)
    (hQ : ∀ ψ a, Q ψ a → Q' ψ a) (hR : ∀ ψ e, R ψ e → R' ψ e) : p.Tracks M φ Q' R' := by
  induction p generalizing φ with
  | ret a => exact hQ _ _ h
  | raise e => exact hR _ _ h
  | call o k ih =>
    intro r
    obtain ⟨ψ, hψ, hk⟩ := h r
    exact ⟨ψ, hψ, ih r hk⟩
  | commit k ih =>
    obtain ⟨ψ, hψ, hk⟩ := h
    exact ⟨ψ, hψ, ih hk⟩

end Prog

/-! ## Systems -/

variable {E : Engine} {ι Ph : Type}

/-- The phases `ph` of a system of transactions. -/
structure Sys.Tracked (M : ι → Monitor E.toLang Ph) (Q : Ph → E.Ans → Prop) (R : Ph → E.Err → Prop)
    (ph : ι → Ph) (s : Sys E ι) : Prop where
  run : ∀ {i p L f}, s.txs i = .run p L f → p.Tracks (M i) (ph i) Q R

namespace Sys.Tracked

variable {M : ι → Monitor E.toLang Ph} {Q : Ph → E.Ans → Prop} {R : Ph → E.Err → Prop} {ph : ι → Ph}
  {s : Sys E ι} {i : ι}

theorem start {db : E.Db} {mem : E.Mem} {prog : ι → Prog E.toLang E.Ans}
    (h : ∀ i, (prog i).Tracks (M i) (ph i) Q R) : (Sys.start db mem prog).Tracked M Q R ph :=
  ⟨fun hi => by cases hi; exact h _⟩

variable [DecidableEq ι]

/-- Transaction `i` takes a step and is in the phase `ψ`. -/
theorem update (h : s.Tracked M Q R ph) {w : World E ι} {t : Tx E} {ψ : Ph}
    (ht : ∀ {p L f}, t = .run p L f → p.Tracks (M i) ψ Q R) :
    Sys.Tracked M Q R (Function.update ph i ψ) ⟨w, Function.update s.txs i t⟩ := by
  refine ⟨fun {j p L f} hj => ?_⟩
  dsimp only at hj
  by_cases hji : j = i
  · subst hji
    rw [Function.update_self] at hj ⊢
    exact ht hj
  · rw [Function.update_of_ne hji] at hj ⊢
    exact h.run hj

end Sys.Tracked

end Txn
