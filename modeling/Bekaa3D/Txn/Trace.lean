import Bekaa3D.Txn.Engine

/-!
# Txn.Trace — the history of a system of transactions

* `Before e e' tr`: in the history `tr` the event `e` precedes an occurrence of `e'`.
* `two_phase`: locks are held to the end of their transaction.  Between two events of different transactions
  that take conflicting locks, the first of the two transactions ends.
* `exclusive`: of two transactions that took conflicting locks, one has ended.
* `over_of_final`, `final_last`: nothing follows an answer or a crash.
-/

namespace Txn

variable {E : Engine} {ι : Type}

/-! ## Order of events -/

def Before (e e' : Event E ι) (tr : List (Event E ι)) : Prop :=
  ∃ pre post, tr = pre ++ e' :: post ∧ e ∈ pre

theorem Before.left {e e' : Event E ι} {tr : List (Event E ι)} (h : Before e e' tr) : e ∈ tr := by
  obtain ⟨pre, post, rfl, he⟩ := h
  exact List.mem_append_left _ he

theorem Before.right {e e' : Event E ι} {tr : List (Event E ι)} (h : Before e e' tr) : e' ∈ tr := by
  obtain ⟨pre, post, rfl, -⟩ := h
  simp

theorem Before.mono {e e' x : Event E ι} {tr : List (Event E ι)} (h : Before e e' tr) :
    Before e e' (tr ++ [x]) := by
  obtain ⟨pre, post, rfl, he⟩ := h
  exact ⟨pre, post ++ [x], by simp, he⟩

theorem before_append {e e' x : Event E ι} {tr : List (Event E ι)} :
    Before e e' (tr ++ [x]) ↔ Before e e' tr ∨ e' = x ∧ e ∈ tr := by
  constructor
  · rintro ⟨pre, post, htr, he⟩
    rcases List.eq_nil_or_concat post with rfl | ⟨post, y, rfl⟩
    · obtain ⟨rfl, h⟩ := List.append_inj' htr rfl
      exact Or.inr ⟨(List.singleton_inj.mp h).symm, he⟩
    · rw [List.concat_eq_append, ← List.cons_append, ← List.append_assoc] at htr
      obtain ⟨rfl, -⟩ := List.append_inj' htr rfl
      exact Or.inl ⟨pre, post, rfl, he⟩
  · rintro (h | ⟨rfl, he⟩)
    · exact h.mono
    · exact ⟨tr, [], rfl, he⟩

/-- Of two events of the history, one comes before the other. -/
theorem before_total {e e' : Event E ι} {tr : List (Event E ι)} (he : e ∈ tr) (he' : e' ∈ tr) (hne : e ≠ e') :
    Before e e' tr ∨ Before e' e tr := by
  obtain ⟨pre, post, rfl⟩ := List.append_of_mem he'
  rcases List.mem_append.mp he with h | h
  · exact Or.inl ⟨pre, post, rfl, h⟩
  · obtain ⟨mid, rest, rfl⟩ := List.append_of_mem ((List.mem_cons.mp h).resolve_left hne)
    exact Or.inr ⟨pre ++ e' :: mid, rest, by simp, by simp⟩

@[simp] theorem not_before_nil {e e' : Event E ι} : ¬Before e e' [] := by
  rintro ⟨pre, post, h, -⟩
  simp at h

/-! ## One transaction's events -/

/-- The events of transaction `i`, in order. -/
def World.own [DecidableEq ι] (w : World E ι) (i : ι) : List (Event E ι) := w.tr.filter fun e => e.who = i

theorem World.mem_own [DecidableEq ι] {w : World E ι} {i : ι} {e : Event E ι} :
    e ∈ w.own i ↔ e ∈ w.tr ∧ e.who = i := by
  simp [World.own]

@[simp] theorem World.own_stmt [DecidableEq ι] {w : World E ι} {i : ι} {o : E.Op} (r : E.Resp o) :
    (w.stmt i o r).own i = w.own i ++ [⟨i, .stmt o r⟩] := by
  simp [World.own]

theorem World.mem_stmt {w : World E ι} {i : ι} {o : E.Op} {r : E.Resp o} {e : Event E ι} (h : e ∈ w.tr) :
    e ∈ (w.stmt i o r).tr :=
  List.mem_append_left _ h

/-- The history grows. -/
theorem Step.mem_tr [DecidableEq ι] {A : World E ι → Event E ι → Prop} {s s' : Sys E ι} (h : Step A s s')
    {e : Event E ι} (he : e ∈ s.world.tr) : e ∈ s'.world.tr := by
  cases h <;> exact List.mem_append_left _ he

theorem Reach.mem_tr [DecidableEq ι] {A : World E ι → Event E ι → Prop} {s s' : Sys E ι} (h : Reach A s s')
    {e : Event E ι} (he : e ∈ s.world.tr) : e ∈ s'.world.tr := by
  induction h with
  | refl => exact he
  | tail _ hstep ih => exact hstep.mem_tr ih

/-! ## Two-phase locking -/

/-- A commit, an answer or a crash: the transaction's locks are free again. -/
def Act.ends : Act E → Prop
  | .stmt _ _ => False
  | _ => True

/-- An answer or a crash: the transaction does nothing more. -/
def Act.final : Act E → Prop
  | .done _ => True
  | .crash => True
  | _ => False

def World.Ended (w : World E ι) (i : ι) : Prop := ∃ e ∈ w.tr, e.who = i ∧ e.act.ends

/-- The locks that a transaction has taken and not released are held. -/
def Sys.Bound (s : Sys E ι) : Prop :=
  ∀ pre e post, s.world.tr = pre ++ e :: post → (∀ x ∈ post, x.who = e.who → ¬x.act.ends) →
    ∀ l ∈ e.locks, l ∈ (s.txs e.who).held

/-- Locks are held to the end of their transaction. -/
def TwoPhase (tr : List (Event E ι)) : Prop :=
  ∀ pre e mid e' post, tr = pre ++ e :: mid ++ e' :: post → e.who ≠ e'.who →
    ∀ l ∈ e.locks, ∀ m ∈ e'.locks, E.conflict m l = true → ∃ x ∈ mid, x.who = e.who ∧ x.act.ends

theorem TwoPhase.snoc {tr : List (Event E ι)} {x : Event E ι} (h : TwoPhase tr)
    (hx : ∀ pre e mid, tr = pre ++ e :: mid → e.who ≠ x.who → ∀ l ∈ e.locks, ∀ m ∈ x.locks,
      E.conflict m l = true → ∃ y ∈ mid, y.who = e.who ∧ y.act.ends) : TwoPhase (tr ++ [x]) := by
  intro pre e mid e' post htr hne l hl m hm hc
  rcases List.eq_nil_or_concat post with rfl | ⟨post, y, rfl⟩
  · obtain ⟨h1, h2⟩ := List.append_inj' htr rfl
    cases h2
    exact hx pre e mid h1 hne l hl m hm hc
  · rw [List.concat_eq_append, ← List.cons_append, ← List.append_assoc] at htr
    obtain ⟨h1, -⟩ := List.append_inj' htr rfl
    exact h pre e mid e' post h1 hne l hl m hm hc

section Step

variable [DecidableEq ι] {A : World E ι → Event E ι → Prop}

theorem bound_snoc {s : Sys E ι} {w' : World E ι} {i : ι} {a : Act E} {t : Tx E} (hs : s.Bound)
    (htr : w'.tr = s.world.tr ++ [⟨i, a⟩]) (hnew : ∀ l ∈ Event.locks (⟨i, a⟩ : Event E ι), l ∈ t.held)
    (hold : ¬a.ends → ∀ l ∈ (s.txs i).held, l ∈ t.held) :
    Sys.Bound ⟨w', Function.update s.txs i t⟩ := by
  intro pre e post hsplit hpost l hl
  dsimp only at hsplit ⊢
  rw [htr] at hsplit
  rcases List.eq_nil_or_concat post with rfl | ⟨post, y, rfl⟩
  · obtain ⟨-, h2⟩ := List.append_inj' hsplit rfl
    cases h2
    rw [Function.update_self]
    exact hnew l hl
  · rw [List.concat_eq_append, ← List.cons_append, ← List.append_assoc] at hsplit
    obtain ⟨h1, h2⟩ := List.append_inj' hsplit rfl
    cases h2
    have hheld := hs pre e post h1 (fun x hx => hpost x (by simp [hx])) l hl
    by_cases hi : e.who = i
    · rw [hi] at hheld
      rw [hi, Function.update_self]
      exact hold (hpost ⟨i, a⟩ (by simp) hi.symm) l hheld
    · rwa [Function.update_of_ne hi]

/-- **One step** keeps the bookkeeping of locks and the two-phase order. -/
theorem two_phase_step {s s' : Sys E ι} (hb : s.Bound) (ht : TwoPhase s.world.tr) (h : Step A s s') :
    s'.Bound ∧ TwoPhase s'.world.tr := by
  have quiet : ∀ {i : ι} {a : Act E}, Event.locks (⟨i, a⟩ : Event E ι) = [] →
      TwoPhase (s.world.tr ++ [⟨i, a⟩]) := fun h0 =>
    ht.snoc fun pre e mid _ _ l _ m hm _ => by rw [h0] at hm; cases hm
  cases h with
  | @stmt i o k L f r hi hr hl hA =>
    refine ⟨bound_snoc hb rfl (fun l hl => List.mem_append_left _ hl) (fun _ l hl => ?_), ?_⟩
    · rw [hi] at hl
      exact List.mem_append_right _ hl
    · refine ht.snoc fun pre e mid hsplit hne l hle m hm hc => ?_
      by_contra hno
      push Not at hno
      have hheld := hb pre e mid hsplit hno l hle
      have hfree := hl m hm e.who hne l hheld
      rw [hc] at hfree
      cases hfree
  | @commit i k L f hi hA =>
    exact ⟨bound_snoc hb rfl (by simp [Event.locks]) (fun h => absurd trivial h), quiet rfl⟩
  | @ret i a L f hi hA =>
    exact ⟨bound_snoc hb rfl (by simp [Event.locks]) (fun h => absurd trivial h), quiet rfl⟩
  | @raise i e L f hi hA =>
    exact ⟨bound_snoc hb rfl (by simp [Event.locks]) (fun h => absurd trivial h), quiet rfl⟩
  | @crash i p L f hi hA =>
    exact ⟨bound_snoc hb rfl (by simp [Event.locks]) (fun h => absurd trivial h), quiet rfl⟩

/-- **Two-phase locking**: between two events of different transactions that take conflicting locks, the
first transaction ends. -/
theorem two_phase {db : E.Db} {mem : E.Mem} {prog : ι → Prog E.toLang E.Ans} {s : Sys E ι}
    (hr : Reach A (Sys.start db mem prog) s) : TwoPhase s.world.tr := by
  suffices h : s.Bound ∧ TwoPhase s.world.tr from h.2
  induction hr with
  | refl =>
    refine ⟨fun pre e post h => ?_, fun pre e mid e' post h => ?_⟩
    · simp [Sys.start] at h
    · simp [Sys.start] at h
  | tail _ hstep ih => exact two_phase_step ih.1 ih.2 hstep

/-- Two transactions that have not ended hold no conflicting locks. -/
theorem exclusive {db : E.Db} {mem : E.Mem} {prog : ι → Prog E.toLang E.Ans} {s : Sys E ι}
    (hr : Reach A (Sys.start db mem prog) s) {e e' : Event E ι} (he : e ∈ s.world.tr) (he' : e' ∈ s.world.tr)
    (hne : e.who ≠ e'.who) (hn : ¬s.world.Ended e.who) (hn' : ¬s.world.Ended e'.who) {l m : E.Lock}
    (hl : l ∈ e.locks) (hm : m ∈ e'.locks) : E.conflict l m = false := by
  have order : ∀ {e e' : Event E ι} {l m : E.Lock}, Before e e' s.world.tr → e.who ≠ e'.who →
      ¬s.world.Ended e.who → l ∈ e.locks → m ∈ e'.locks → E.conflict m l = false := by
    intro e e' l m hb hne hn hl hm
    obtain ⟨pre, post, htr, he⟩ := hb
    obtain ⟨pre, mid, rfl⟩ := List.append_of_mem he
    by_contra hc
    obtain ⟨x, hx, hx'⟩ := two_phase hr pre e mid e' post htr hne l hl m hm (by simpa using hc)
    exact hn ⟨x, by rw [htr]; simp [hx], hx'⟩
  rcases before_total he he' (fun h => hne (by rw [h])) with hb | hb
  · rw [E.conflict_comm]
    exact order hb hne hn hl hm
  · exact order hb (Ne.symm hne) hn' hm hl

/-- **Nothing follows an answer or a crash.** -/
theorem over_of_final {db : E.Db} {mem : E.Mem} {prog : ι → Prog E.toLang E.Ans} {s : Sys E ι}
    (hr : Reach A (Sys.start db mem prog) s) {e : Event E ι} (he : e ∈ s.world.tr) (hf : e.act.final) :
    s.txs e.who = .over := by
  induction hr with
  | refl => simp [Sys.start] at he
  | @tail s s' _ hstep ih =>
    have old : ∀ {i : ι} {t : Tx E} {p : Prog E.toLang E.Ans} {L : List E.Lock} {f : E.Db → E.Db},
        s.txs i = .run p L f → e ∈ s.world.tr → Function.update s.txs i t e.who = .over := fun hi he => by
      rw [Function.update_of_ne, ih he]
      rintro rfl
      rw [ih he] at hi
      cases hi
    cases hstep with
    | stmt hi =>
      rcases List.mem_append.mp he with he | he
      · exact old hi he
      · rw [List.mem_singleton] at he
        subst he
        exact hf.elim
    | commit hi =>
      rcases List.mem_append.mp he with he | he
      · exact old hi he
      · rw [List.mem_singleton] at he
        subst he
        exact hf.elim
    | ret hi | raise hi | crash hi =>
      rcases List.mem_append.mp he with he | he
      · exact old hi he
      · rw [List.mem_singleton] at he
        subst he
        exact Function.update_self ..

/-- After an answer or a crash the history has no event of the transaction. -/
theorem final_last {db : E.Db} {mem : E.Mem} {prog : ι → Prog E.toLang E.Ans} {s : Sys E ι}
    (hr : Reach A (Sys.start db mem prog) s) {e e' : Event E ι} (hf : e.act.final) (hw : e'.who = e.who) :
    ¬Before e e' s.world.tr := by
  induction hr with
  | refl => exact not_before_nil
  | @tail s s' hpre hstep ih =>
    have old : ∀ {a : Act E} {p : Prog E.toLang E.Ans} {L : List E.Lock} {f : E.Db → E.Db} {i : ι},
        s.txs i = .run p L f → ¬Before e e' (s.world.tr ++ [⟨i, a⟩]) := by
      intro a p L f i hi hb
      rcases before_append.mp hb with hb | ⟨rfl, he⟩
      · exact ih hb
      · have := over_of_final hpre he hf
        rw [← hw, hi] at this
        cases this
    cases hstep with
    | stmt hi | commit hi | ret hi | raise hi | crash hi => exact old hi

/-- A transaction that committed, and took a lock that another one took after it, committed in between. -/
theorem commit_between {db : E.Db} {mem : E.Mem} {prog : ι → Prog E.toLang E.Ans} {s : Sys E ι}
    (hr : Reach A (Sys.start db mem prog) s) {e e' : Event E ι} (hb : Before e e' s.world.tr)
    (hne : e.who ≠ e'.who) (hc : ⟨e.who, .commit⟩ ∈ s.world.tr) {l m : E.Lock} (hl : l ∈ e.locks)
    (hm : m ∈ e'.locks) (hlm : E.conflict m l = true) : Before ⟨e.who, .commit⟩ e' s.world.tr := by
  obtain ⟨pre, post, htr, he⟩ := hb
  obtain ⟨pre, mid, rfl⟩ := List.append_of_mem he
  obtain ⟨⟨j, a⟩, hx, rfl, ha⟩ := two_phase hr pre e mid e' post htr hne l hl m hm hlm
  have before : ∀ {y}, y ∈ pre ++ e :: mid → Before y e' s.world.tr := fun hy => ⟨_, post, htr, hy⟩
  rw [htr] at hc
  rcases List.mem_append.mp hc with hc | hc
  · exact before hc
  · -- the commit comes after `x`, which ends the transaction: `x` is a commit
    have hlate : Before ⟨e.who, a⟩ ⟨e.who, .commit⟩ s.world.tr := by
      rcases List.mem_cons.mp hc with rfl | hc
      · exact absurd rfl hne
      · obtain ⟨p, q, rfl⟩ := List.append_of_mem hc
        exact ⟨(pre ++ e :: mid) ++ e' :: p, q, by rw [htr]; simp, by simp [hx]⟩
    cases a with
    | stmt o r => exact ha.elim
    | commit => exact before (by simp [hx])
    | done a => exact absurd hlate (final_last hr trivial rfl)
    | crash => exact absurd hlate (final_last hr trivial rfl)

end Step

end Txn
