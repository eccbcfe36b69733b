import Bekaa3D.Txn.Runs

/-!
# Txn.Moments — the step that an event came from

* `event_step`: every event of the history was added by one step of the run.
* `Stores`: the database before and after the commit of a transaction.
* `own_final`: an answer or a crash is the last event of its transaction.
* `Reach.assume`: what holds of every reachable world may be assumed of the worlds that a run goes through.
* `Logic.answered`: what a transaction guarantees at its end held when it answered.
-/

namespace Txn

variable {E : Engine} {ι : Type} [DecidableEq ι] {A : World E ι → Event E ι → Prop} {s₀ s s' : Sys E ι} {i : ι}

/-- A step adds one event. -/
theorem Step.event (h : Step A s s') : ∃ e, s'.world.tr = s.world.tr ++ [e] := by
  cases h <;> exact ⟨_, rfl⟩

/-- The history of a later state goes on from that of an earlier one. -/
theorem Reach.history (h : Reach A s s') : ∃ ext, s'.world.tr = s.world.tr ++ ext := by
  induction h with
  | refl => exact ⟨[], by simp⟩
  | tail _ hstep ih =>
    obtain ⟨ext, hext⟩ := ih
    obtain ⟨e, he⟩ := hstep.event
    exact ⟨ext ++ [e], by rw [he, hext, List.append_assoc]⟩

/-- … and so do the events of each transaction. -/
theorem Reach.own (h : Reach A s s') (i : ι) : ∃ ext, s'.world.own i = s.world.own i ++ ext := by
  obtain ⟨ext, hext⟩ := h.history
  refine ⟨ext.filter fun e => e.who = i, ?_⟩
  unfold World.own
  rw [hext, List.filter_append]

/-- **Every event of the history was added by one step** of the run. -/
theorem event_step (hr : Reach A s₀ s) {e : Event E ι} (he : e ∈ s.world.tr) (h0 : e ∉ s₀.world.tr) :
    ∃ s₁ s₂, Reach A s₀ s₁ ∧ Step A s₁ s₂ ∧ Reach A s₂ s ∧ s₂.world.tr = s₁.world.tr ++ [e] := by
  induction hr with
  | refl => exact absurd he h0
  | @tail s₁ s₂ hpre hstep ih =>
    obtain ⟨x, hx⟩ := hstep.event
    rw [hx, List.mem_append, List.mem_singleton] at he
    rcases he with he | rfl
    · obtain ⟨a, b, ha, hab, hb, htr⟩ := ih he
      exact ⟨a, b, ha, hab, hb.tail hstep, htr⟩
    · exact ⟨s₁, s₂, hpre, hstep, .refl, hx⟩

/-- A commit of transaction `i`, on the way from `s₀` to `s`, took the database from `db` to `db'`. -/
def Stores (A : World E ι → Event E ι → Prop) (s₀ s : Sys E ι) (i : ι) (db db' : E.Db) : Prop :=
  ∃ s₁ s₂, Reach A s₀ s₁ ∧ Step A s₁ s₂ ∧ Reach A s₂ s ∧ s₂.world.tr = s₁.world.tr ++ [⟨i, .commit⟩] ∧
    s₁.world.db = db ∧ s₂.world.db = db'

theorem Stores.committed {db db' : E.Db} (h : Stores A s₀ s i db db') : Committed s.world i := by
  obtain ⟨s₁, s₂, -, -, h₂, htr, -⟩ := h
  refine h₂.mem_tr ?_
  rw [htr]
  exact List.mem_append_right _ (List.mem_singleton.mpr rfl)

theorem Stores.tail {db db' : E.Db} (h : Stores A s₀ s i db db') (hstep : Step A s s') : Stores A s₀ s' i db db' := by
  obtain ⟨s₁, s₂, h₁, h, h₂, hdb⟩ := h
  exact ⟨s₁, s₂, h₁, h, h₂.tail hstep, hdb⟩

omit [DecidableEq ι] in
/-- What came before an event that happened once had happened when it did. -/
theorem mem_of_before {e e' : Event E ι} {tr ext : List (Event E ι)} (h : Before e e' (tr ++ e' :: ext))
    (h1 : ¬Before e' e' (tr ++ e' :: ext)) : e ∈ tr := by
  obtain ⟨pre, post, htr, he⟩ := h
  have first : ∀ {l m : List (Event E ι)}, tr ++ e' :: ext = l ++ e' :: m → e' ∉ l := fun h hm => h1 ⟨_, _, h, hm⟩
  rcases List.append_eq_append_iff.mp htr with ⟨c, rfl, hc⟩ | ⟨c, rfl, hc⟩
  · cases c with
    | nil => simpa using he
    | cons x c =>
      obtain ⟨rfl, -⟩ := List.cons_eq_cons.mp hc
      exact absurd (List.mem_append_right _ (List.mem_cons_self ..)) (first htr)
  · exact List.mem_append_left _ he

section Final

variable {db : E.Db} {mem : E.Mem} {prog : ι → Prog E.toLang E.Ans}

/-- Only transaction `i`'s own steps add events of `i`. -/
theorem own_over (hi : s.txs i = .over) (h : Reach A s s') : s'.world.own i = s.world.own i ∧ s'.txs i = .over := by
  induction h with
  | refl => exact ⟨rfl, hi⟩
  | @tail s₁ s₂ _ hstep ih =>
    obtain ⟨hown, hover⟩ := ih
    have other : ∀ {j p L f}, s₁.txs j = .run p L f → j ≠ i := by
      rintro j p L f hj rfl
      rw [hover] at hj
      cases hj
    have add : ∀ {j : ι} {a : Act E}, j ≠ i →
        (s₁.world.tr ++ [(⟨j, a⟩ : Event E ι)]).filter (fun e => e.who = i) = s₁.world.own i := by
      intro j a hj
      simp [World.own, hj]
    cases hstep with
    | stmt hj | commit hj | ret hj | raise hj | crash hj =>
      refine ⟨(add (other hj)).trans hown, ?_⟩
      dsimp only
      rw [Function.update_of_ne (Ne.symm (other hj))]
      exact hover

/-- **An answer or a crash is the last event** of its transaction. -/
theorem own_final (hr : Reach A (Sys.start db mem prog) s) {e : Event E ι} (he : e ∈ s.world.tr)
    (hf : e.act.final) (h : Reach A s s') : s'.world.own e.who = s.world.own e.who :=
  (own_over (over_of_final hr he hf) h).1

end Final

/-- What holds of every world that a run goes through may be assumed of its events. -/
theorem Reach.assume {J : World E ι → Prop} (hJ : ∀ s', Reach A s s' → J s'.world) (h : Reach A s s') :
    Reach (fun w e => A w e ∧ J w) s s' := by
  induction h with
  | refl => exact .refl
  | @tail s₁ s₂ hpre hstep ih =>
    refine ih.tail ?_
    have hj := hJ s₁ hpre
    cases hstep with
    | stmt hi hr hl hA => exact .stmt hi hr hl ⟨hA, hj⟩
    | commit hi hA => exact .commit hi ⟨hA, hj⟩
    | ret hi hA => exact .ret hi ⟨hA, hj⟩
    | raise hi hA => exact .raise hi ⟨hA, hj⟩
    | crash hi hA => exact .crash hi ⟨hA, hj⟩

namespace Logic

variable {Φ : Logic E ι} {db : E.Db} {mem : E.Mem} {prog : ι → Prog E.toLang E.Ans}

/-- **What a transaction guarantees at its end** held when it answered, and it has done nothing since. -/
theorem answered (hp : ∀ i, Φ.Run i (prog i) [] id ⟨db, mem, []⟩) (hr : Reach Φ.A (Sys.start db mem prog) s)
    {a : Except E.Err E.Ans} (ha : ⟨i, .done a⟩ ∈ s.world.tr) :
    ∃ s₁, Reach Φ.A (Sys.start db mem prog) s₁ ∧ Reach Φ.A s₁ s ∧ Φ.Fin s₁.world i a ∧
      s.world.own i = s₁.world.own i ++ [⟨i, .done a⟩] := by
  obtain ⟨s₁, s₂, h₁, hstep, h₂, htr⟩ := event_step hr ha (by simp [Sys.start])
  have hs := sound hp h₁
  have hown : s.world.own i = s₁.world.own i ++ [⟨i, .done a⟩] := by
    have hlast : s.world.own i = s₂.world.own i :=
      own_final (e := ⟨i, .done a⟩) (h₁.tail hstep) (by rw [htr]; simp) trivial h₂
    rw [hlast]
    unfold World.own
    rw [htr, List.filter_append]
    simp
  refine ⟨s₁, h₁, (Relation.ReflTransGen.single hstep).trans h₂, ?_, hown⟩
  cases hstep with
  | stmt hi | commit hi | crash hi => cases List.append_cancel_left htr
  | ret hi hA =>
    cases List.append_cancel_left htr
    exact (hs.run _ _ _ _ hi) _ (.refl _ _ _)
  | raise hi hA =>
    cases List.append_cancel_left htr
    exact (hs.run _ _ _ _ hi) _ (.refl _ _ _)

end Logic

end Txn
