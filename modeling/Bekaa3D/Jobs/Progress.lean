import Bekaa3D.Txn.Monitor
import Bekaa3D.Jobs.Duplicates

/-!
# Jobs.Progress — workers do not wait

* `claims_exist`: there is always something to answer to a worker that looks for messages.
* `budget`: a monitor that counts the steps of a worker, whatever it is answered.
* `worker_progress`: a worker that has not ended can go on, whatever the others hold, and ends after `8 * batchSize`
  steps at most.
-/

namespace Bekaa3D.Jobs

open Txn
open Identity (Uuid Instant)
open Text.Json (Str)

/-- There is always an answer to a worker that looks for messages. -/
theorem claims_exist (limit : ℕ) (now : Instant) (db : Db) (free : Uuid → Prop) :
    ∃ ms, Claims limit now db free ms ∧ ∀ m ∈ ms, free m.id := by
  classical
  have hfree : ∀ m : EmailOutboxMessage, free m.id → (fun m : EmailOutboxMessage => decide (free m.id)) m = true :=
    fun m h => decide_eq_true h
  refine ⟨_, claims_dueFirst hfree limit, fun m hm => ?_⟩
  obtain ⟨-, -, hf⟩ := mem_dueFirst.mp (List.take_subset _ _ hm)
  exact of_decide_eq_true hf

/-! ## Steps of a worker -/

/-- The statements of a worker. -/
def Op.ofWorker : Op → Bool
  | .insert _ _ _ _ => false
  | .deleteUser _ => false
  | _ => true

/-- So many steps are left. -/
def budget : Monitor lang ℕ where
  stmt n o _ :=
    match n with
    | 0 => none
    | n + 1 => if o.ofWorker then some n else none
  commit n :=
    match n with
    | 0 => none
    | n + 1 => some n

/-- The program goes on for `n` steps at most, which are those of a worker. -/
abbrev Within {α : Type} (n : ℕ) (p : Handler α) (Q : ℕ → Prop) : Prop :=
  p.Tracks budget n (fun n _ => Q n) fun _ _ => True

theorem within_attempt (n : ℕ) (message : EmailOutboxMessage) : Within (n + 3) (attempt message) fun k => n ≤ k := by
  intro r
  refine ⟨n + 2, rfl, ?_⟩
  cases r with
  | error exc => exact fun failedAt => ⟨n + 1, rfl, fun at_ => ⟨n, rfl, Nat.le_refl n⟩⟩
  | ok u => exact fun at_ => ⟨n + 1, rfl, Nat.le_succ n⟩

theorem within_save (n : ℕ) (message : EmailOutboxMessage) :
    Within (n + 2) (EmailOutboxRepository.save message) fun k => n ≤ k := by
  intro r
  refine ⟨n + 1, rfl, ?_⟩
  cases r with
  | none => exact trivial
  | some m => exact fun now => ⟨n, rfl, Nat.le_refl n⟩

theorem Within.more {α : Type} {n n' : ℕ} {p : Handler α} {k : ℕ} (h : Within n p fun m => k ≤ m) (hn : n ≤ n') :
    Within n' p fun m => k ≤ m := by
  induction p generalizing n n' with
  | ret a => exact Nat.le_trans h hn
  | raise e => exact trivial
  | call o p ih =>
    intro r
    obtain ⟨m, hm, hp⟩ := h r
    cases n with
    | zero => cases hm
    | succ n =>
      cases n' with
      | zero => omega
      | succ n' =>
        simp only [budget] at hm
        split at hm
        · rename_i ho
          cases hm
          exact ⟨n', if_pos ho, ih r hp (by omega)⟩
        · cases hm
  | commit p ih =>
    obtain ⟨m, hm, hp⟩ := h
    cases n with
    | zero => cases hm
    | succ n =>
      cases n' with
      | zero => omega
      | succ n' =>
        cases hm
        exact ⟨n', rfl, ih hp (by omega)⟩

theorem within_dispatchOne (n : ℕ) : Within (n + 8) dispatchOne.transaction fun k => n ≤ k := by
  refine Prog.tracks_bind.mpr ?_
  unfold dispatchOne
  refine fun now => ⟨n + 7, rfl, fun claimed => ⟨n + 6, rfl, ?_⟩⟩
  cases claimed with
  | nil => exact ⟨n + 5, rfl, show n ≤ n + 5 by omega⟩
  | cons message ms =>
    change ((attempt message).bind fun m' => (EmailOutboxRepository.save m').bind fun _ =>
      (Prog.ret true : Handler Bool)).Tracks budget (n + 6) _ _
    refine Prog.tracks_bind.mpr ((within_attempt (n + 3) message).mono (fun k m' hk => ?_) fun _ _ h => h)
    refine Prog.tracks_bind.mpr (((within_save (n + 1) m').more hk).mono (fun k _ hk => ?_) fun _ _ h => h)
    obtain ⟨k, rfl⟩ : ∃ k', k = k' + 1 := ⟨k - 1, by omega⟩
    exact ⟨k, rfl, show n ≤ k by omega⟩

theorem within_dispatchLoop (n k processed : ℕ) : Within (n + 8 * k) (dispatchLoop k processed) fun m => n ≤ m := by
  induction k generalizing processed with
  | zero => exact Nat.le_refl n
  | succ k ih =>
    refine Prog.tracks_bind.mpr ((within_dispatchOne (n + 8 * k)).mono (fun m b hm => ?_) fun _ _ h => h)
    cases b with
    | true => exact (ih (processed + 1)).more hm
    | false => exact Nat.le_trans (Nat.le_add_right _ _) hm

theorem within_dispatchOutbox : Within (8 * batchSize) dispatchOutbox fun _ => True := by
  refine Prog.tracks_bind.mpr ?_
  have h := within_dispatchLoop 0 batchSize 0
  rw [Nat.zero_add] at h
  exact h.mono (fun _ _ _ => trivial) fun _ _ h => h

/-! ## Every run -/

variable {ι : Type} [DecidableEq ι] {A : World store ι → Event store ι → Prop} {job : ι → Job} {s s' : Sys store ι} {i : ι}

/-- A worker has taken so many steps that what is left is within its budget. -/
structure Paced (s : Sys store ι) (i : ι) : Prop where
  run : ∀ p L f, s.txs i = .run p L f → ∃ n, Within n p (fun _ => True) ∧ (s.world.own i).length + n ≤ 8 * batchSize
  taken : (s.world.own i).length ≤ 8 * batchSize + 1

theorem own_snoc {w w' : World store ι} {e : Event store ι} (htr : w'.tr = w.tr ++ [e]) :
    (w'.own i).length = (w.own i).length + if e.who = i then 1 else 0 := by
  unfold World.own
  rw [htr, List.filter_append, List.length_append]
  by_cases h : e.who = i <;> simp [h]

/-- A step of another transaction. -/
theorem Paced.other (h : Paced s i) {w : World store ι} {j : ι} {a : Act store} {t : Tx store} (hij : j ≠ i)
    (htr : w.tr = s.world.tr ++ [⟨j, a⟩]) : Paced ⟨w, Function.update s.txs j t⟩ i := by
  have hown : (w.own i).length = (s.world.own i).length := by rw [own_snoc htr, if_neg hij]; rfl
  refine ⟨fun p L f hp => ?_, by rw [hown]; exact h.taken⟩
  dsimp only at hp
  rw [Function.update_of_ne (Ne.symm hij)] at hp
  obtain ⟨n, hn, hle⟩ := h.run p L f hp
  exact ⟨n, hn, by rw [hown]; exact hle⟩

/-- The end of a worker. -/
theorem Paced.ends (h : Paced s i) {w : World store ι} {a : Act store} {p : Handler Answer} {L : List Uuid} {f : Db → Db}
    (hi : s.txs i = .run p L f) (htr : w.tr = s.world.tr ++ [⟨i, a⟩]) :
    Paced ⟨w, Function.update s.txs i .over⟩ i := by
  obtain ⟨n, -, hle⟩ := h.run p L f hi
  refine ⟨fun p L f hp => ?_, ?_⟩
  · dsimp only at hp
    rw [Function.update_self] at hp
    cases hp
  · change (w.own i).length ≤ _
    rw [own_snoc htr, if_pos rfl]
    omega

/-- A step of a worker that is not its last. -/
theorem Paced.goes (h : Paced s i) {w : World store ι} {a : Act store} {p q : Handler Answer} {L L' : List Uuid}
    {f f' : Db → Db} (hi : s.txs i = .run p L f) (htr : w.tr = s.world.tr ++ [⟨i, a⟩])
    (hq : ∀ n, Within n p (fun _ => True) → ∃ m, m + 1 = n ∧ Within m q fun _ => True) :
    Paced ⟨w, Function.update s.txs i (.run q L' f')⟩ i := by
  obtain ⟨n, hn, hle⟩ := h.run p L f hi
  obtain ⟨m, rfl, hm⟩ := hq n hn
  have hown : (w.own i).length = (s.world.own i).length + 1 := by rw [own_snoc htr, if_pos rfl]
  refine ⟨fun p L f hp => ?_, ?_⟩
  · dsimp only at hp
    rw [Function.update_self] at hp
    cases hp
    refine ⟨m, hm, ?_⟩
    change (w.own i).length + m ≤ _
    omega
  · change (w.own i).length ≤ _
    omega

/-- A statement that the budget allows is one of a worker, and leaves one step less. -/
theorem within_call {n : ℕ} {o : Op} {k : Resp o → Handler Answer} (h : Within n (.call o k) fun _ => True) :
    o.ofWorker = true ∧ ∀ r, ∃ m, m + 1 = n ∧ Within m (k r) fun _ => True := by
  have split : ∀ r : Resp o, o.ofWorker = true ∧ ∃ m, m + 1 = n ∧ Within m (k r) fun _ => True := by
    intro r
    obtain ⟨m, hm, hp⟩ := h r
    cases n with
    | zero => cases hm
    | succ n =>
      simp only [budget] at hm
      split at hm
      · rename_i ho
        cases hm
        exact ⟨ho, m, rfl, hp⟩
      · cases hm
  refine ⟨?_, fun r => (split r).2⟩
  cases o with
  | now => exact (split 0).1
  | claimDue limit now => exact (split []).1
  | send message => exact (split (.ok ())).1
  | get id => exact (split none).1
  | update message => exact (split 0).1
  | insert userId recipientEmail template payload =>
    exact (split (.new 0 userId recipientEmail template payload 0)).1
  | deleteUser userId => exact (split []).1

theorem Paced.step (h : Paced s i) (hstep : Step A s s') : Paced s' i := by
  cases hstep with
  | @stmt j o k L f r hj hresp hl hA =>
    by_cases hij : j = i
    · subst hij
      exact h.goes hj rfl fun n hn => (within_call hn).2 r
    · exact h.other hij rfl
  | @commit j k L f hj hA =>
    by_cases hij : j = i
    · subst hij
      refine h.goes hj rfl fun n hn => ?_
      obtain ⟨m, hm, hp⟩ := hn
      cases n with
      | zero => cases hm
      | succ n =>
        cases hm
        exact ⟨m, rfl, hp⟩
    · exact h.other hij rfl
  | @ret j a L f hj hA =>
    by_cases hij : j = i
    · subst hij
      exact h.ends hj rfl
    · exact h.other hij rfl
  | @raise j e L f hj hA =>
    by_cases hij : j = i
    · subst hij
      exact h.ends hj rfl
    · exact h.other hij rfl
  | @crash j p L f hj hA =>
    by_cases hij : j = i
    · subst hij
      exact h.ends hj rfl
    · exact h.other hij rfl

theorem paced (hr : Reach A (system job) s) (hj : job i = .dispatchOutbox) : Paced s i := by
  induction hr with
  | refl =>
    refine ⟨fun p L f hp => ?_, Nat.zero_le _⟩
    have hp' : (Tx.run (perform (job i)) [] id : Tx store) = .run p L f := hp
    rw [hj] at hp'
    cases hp'
    exact ⟨_, within_dispatchOutbox, Nat.le_of_eq (Nat.zero_add _)⟩
  | tail _ hstep ih => exact ih.step hstep

/-- A statement of a worker can be answered, and what it locks is free. -/
theorem can_answer (hr : Reach A (system job) s) {o : Op} {k : Resp o → Handler Answer} {L : List Uuid} {f : Db → Db}
    (hi : s.txs i = .run (.call o k) L f) (ho : o.ofWorker = true) :
    ∃ r, reply o (f s.world.db) (s.Free i) r ∧ ∀ l ∈ need o r, s.Free i l := by
  have hs := good hr
  have none : ∀ {P : Uuid → Prop}, ∀ l ∈ ([] : List Uuid), P l := fun l hl => by cases hl
  cases o with
  | now => exact ⟨0, trivial, none⟩
  | claimDue limit now =>
    obtain ⟨ms, hms, hfree⟩ := claims_exist limit now (f s.world.db) (s.Free i)
    refine ⟨ms, hms, fun l hl => ?_⟩
    obtain ⟨m, hm, rfl⟩ := List.mem_map.mp hl
    exact hfree m hm
  | send message => exact ⟨.ok (), trivial, none⟩
  | get id => exact ⟨_, rfl, none⟩
  | update message =>
    refine ⟨0, trivial, fun l hl => ?_⟩
    obtain rfl := List.mem_singleton.mp hl
    obtain ⟨hc, -⟩ := (hs.run _ _ _ _ hi) s.world (.refl _ _ _)
    have hheld : message.id ∈ (s.txs i).held := by
      rw [hi]
      exact hc
    exact fun j hj m hm => hs.excl i j (Ne.symm hj) _ hheld m hm
  | insert userId recipientEmail template payload => cases ho
  | deleteUser userId => cases ho

/-- **Progress**: a worker takes `8 * batchSize` steps and its last at most, and as long as it has not ended it can
take the next one, whatever the others do and hold. -/
theorem worker_progress (hr : Reach Any (system job) s) (hj : job i = .dispatchOutbox) :
    (s.world.own i).length ≤ 8 * batchSize + 1 ∧
      (s.txs i ≠ .over → ∃ s' a, Step Any s s' ∧ s'.world.tr = s.world.tr ++ [⟨i, a⟩] ∧ a ≠ .crash) := by
  have hp := paced hr hj
  refine ⟨hp.taken, fun hlive => ?_⟩
  cases hi : s.txs i with
  | run p L f =>
    cases p with
    | ret a => exact ⟨_, .done (.ok a), .ret hi trivial, rfl, fun h => by cases h⟩
    | raise e => exact ⟨_, .done (.error e), .raise hi trivial, rfl, fun h => by cases h⟩
    | commit k => exact ⟨_, .commit, .commit hi trivial, rfl, fun h => by cases h⟩
    | call o k =>
      obtain ⟨n, hn, -⟩ := hp.run _ _ _ hi
      obtain ⟨r, hr, hl⟩ := can_answer hr hi (within_call hn).1
      exact ⟨_, .stmt o r, .stmt hi hr hl trivial, rfl, fun h => by cases h⟩
  | _ => exact absurd hi hlive

/-- The third worker goes on, although the second one holds the message. -/
theorem worker_progress_sample : ∃ s, Reach Any (system sampleJob) s ∧ (s.txs .second).held = [7] ∧
    (s.world.own .third).length ≤ 8 * batchSize + 1 ∧ (s.txs .third ≠ .over → ∃ s' a, Step Any s s' ∧
      s'.world.tr = s.world.tr ++ [⟨.third, a⟩] ∧ a ≠ .crash) := by
  obtain ⟨s, hr, hs⟩ := play_any player (fun _ _ => true) (A := Any) (fun _ => trivial) (system sampleJob)
    (sampleSchedule.take 14) (fun s => decide ((s.txs .second).held = [7])) (by decide +kernel)
  exact ⟨s, hr, of_decide_eq_true hs, worker_progress hr rfl⟩

end Bekaa3D.Jobs
