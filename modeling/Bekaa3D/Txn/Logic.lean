import Bekaa3D.Txn.Trace

/-!
# Txn.Logic — what one transaction does, whatever the others do

A `Logic` says what a transaction guarantees: `Chk` at each statement it issues, `Cmt` at each commit, `Fin`
at its end, and that its commits move the database along `Gr`, in runs whose events satisfy `A`.
`Logic.wp i p L f w Q R` says that transaction `i`, with the program `p` to run, the locks `L` and the pending
writes `f`, gives these guarantees from the world `w` on, whatever the others do between its statements, and
ends in `Q` or raises in `R`.

* `Rely i L w w'`: the world went from `w` to `w'` without `i`, which holds the locks `L`.  The history
  grew by events of others, none of which took a lock that conflicts with `L`; what the locks protect is
  unchanged; the database moved along `Gr`.
* `Logic.sound`: transactions that satisfy their `wp` at the start satisfy it in every reachable state.
* `Logic.invariant`: a property of the world that every step under these guarantees keeps holds of every
  reachable state.
-/

namespace Txn

structure Logic (E : Engine) (ι : Type) where
  A : World E ι → Event E ι → Prop
  Gr : E.Db → E.Db → Prop
  gr_refl : ∀ db, Gr db db
  gr_trans : ∀ {a b c}, Gr a b → Gr b c → Gr a c
  Chk : World E ι → ι → List E.Lock → (E.Db → E.Db) → E.Op → Prop
  Cmt : World E ι → ι → (E.Db → E.Db) → Prop
  Fin : World E ι → ι → Except E.Err E.Ans → Prop

namespace Logic

variable {E : Engine} {ι : Type} (Φ : Logic E ι)

/-- Steps of the other transactions while `i` holds the locks `L`. -/
structure Rely (i : ι) (L : List E.Lock) (w w' : World E ι) : Prop where
  tr : ∃ ext, w'.tr = w.tr ++ ext ∧
    ∀ e ∈ ext, e.who ≠ i ∧ ∀ l ∈ L, ∀ m ∈ e.locks, E.conflict m l = false
  prot : ∀ l ∈ L, E.Prot l w.db w'.db
  gr : Φ.Gr w.db w'.db

variable {Φ}

theorem Rely.refl (i : ι) (L : List E.Lock) (w : World E ι) : Φ.Rely i L w w :=
  ⟨⟨[], by simp, by simp⟩, fun l _ => E.prot_refl l _, Φ.gr_refl _⟩

theorem Rely.trans {i : ι} {L : List E.Lock} {w w' w'' : World E ι} (h : Φ.Rely i L w w')
    (h' : Φ.Rely i L w' w'') : Φ.Rely i L w w'' := by
  obtain ⟨x, hx, hxe⟩ := h.tr
  obtain ⟨y, hy, hye⟩ := h'.tr
  refine ⟨⟨x ++ y, by rw [hy, hx, List.append_assoc], fun e he => ?_⟩,
    fun l hl => E.prot_trans (h.prot l hl) (h'.prot l hl), Φ.gr_trans h.gr h'.gr⟩
  rcases List.mem_append.mp he with he | he
  · exact hxe e he
  · exact hye e he

/-- Events of the past stay in the history. -/
theorem Rely.mem_tr {i : ι} {L : List E.Lock} {w w' : World E ι} (h : Φ.Rely i L w w') {e : Event E ι}
    (he : e ∈ w.tr) : e ∈ w'.tr := by
  obtain ⟨x, hx, -⟩ := h.tr
  rw [hx]
  exact List.mem_append_left _ he

/-- The others add no event of `i`. -/
theorem Rely.own [DecidableEq ι] {i : ι} {L : List E.Lock} {w w' : World E ι} (h : Φ.Rely i L w w') :
    w'.own i = w.own i := by
  obtain ⟨x, hx, hxe⟩ := h.tr
  have h0 : x.filter (fun e => e.who = i) = [] := by
    rw [List.filter_eq_nil_iff]
    intro e he
    simpa using (hxe e he).1
  unfold World.own
  rw [hx, List.filter_append, h0, List.append_nil]

variable (Φ)

/-- The steps of transaction `i` from the world `w` on give the guarantees of `Φ`, and end in `Q` or raise
in `R`. -/
def wp {α : Type} (i : ι) : Prog E.toLang α → List E.Lock → (E.Db → E.Db) → World E ι →
    (α → List E.Lock → (E.Db → E.Db) → World E ι → Prop) →
    (E.Err → List E.Lock → (E.Db → E.Db) → World E ι → Prop) → Prop
  | .ret a, L, f, w, Q, _ => Q a L f w
  | .raise e, L, f, w, _, R => R e L f w
  | .call o k, L, f, w, Q, R => ∀ w', Φ.Rely i L w w' → Φ.Chk w' i L f o ∧
      ∀ free r, E.resp o (f w'.db) w'.mem free r → Φ.A w' ⟨i, .stmt o r⟩ →
        wp i (k r) (E.need o r ++ L) (E.write o r ∘ f) (w'.stmt i o r) Q R
  | .commit k, L, f, w, Q, R => ∀ w', Φ.Rely i L w w' → Φ.Cmt w' i f ∧ Φ.Gr w'.db (f w'.db) ∧
      wp i k [] id (w'.commit i f) Q R

/-- What transaction `i` guarantees at its end. -/
def Ends (i : ι) (a : Except E.Err E.Ans) (L : List E.Lock) (w : World E ι) : Prop :=
  ∀ w', Φ.Rely i L w w' → Φ.Fin w' i a

/-- `wp` to the end of a transaction. -/
def Run (i : ι) (p : Prog E.toLang E.Ans) (L : List E.Lock) (f : E.Db → E.Db) (w : World E ι) : Prop :=
  Φ.wp i p L f w (fun a L _ w => Φ.Ends i (.ok a) L w) (fun e L _ w => Φ.Ends i (.error e) L w)

section Rules

variable {Φ} {α β : Type} {i : ι} {L : List E.Lock} {f : E.Db → E.Db} {w : World E ι}
  {Q : α → List E.Lock → (E.Db → E.Db) → World E ι → Prop}
  {R : E.Err → List E.Lock → (E.Db → E.Db) → World E ι → Prop}

@[simp] theorem wp_ret {a : α} : Φ.wp i (.ret a) L f w Q R ↔ Q a L f w := Iff.rfl

@[simp] theorem wp_raise {e : E.Err} : Φ.wp i (.raise e : Prog E.toLang α) L f w Q R ↔ R e L f w := Iff.rfl

theorem wp_bind {p : Prog E.toLang β} {g : β → Prog E.toLang α} :
    Φ.wp i (p.bind g) L f w Q R ↔ Φ.wp i p L f w (fun b L f w => Φ.wp i (g b) L f w Q R) R := by
  induction p generalizing L f w with
  | ret b => rfl
  | raise e => rfl
  | call o k ih => simp only [Prog.call_bind, wp, ih]
  | commit k ih => simp only [Prog.commit_bind, wp, ih]

theorem wp_catchAll {p : Prog E.toLang α} {h : E.Err → Prog E.toLang α} :
    Φ.wp i (p.catchAll h) L f w Q R ↔ Φ.wp i p L f w Q (fun e L f w => Φ.wp i (h e) L f w Q R) := by
  induction p generalizing L f w with
  | ret a => rfl
  | raise e => rfl
  | call o k ih => simp only [Prog.call_catchAll, wp, ih]
  | commit k ih => simp only [Prog.commit_catchAll, wp, ih]

theorem wp_mono {p : Prog E.toLang α} {Q' : α → List E.Lock → (E.Db → E.Db) → World E ι → Prop}
    {R' : E.Err → List E.Lock → (E.Db → E.Db) → World E ι → Prop} (h : Φ.wp i p L f w Q R)
    (hQ : ∀ a L f w, Q a L f w → Q' a L f w) (hR : ∀ e L f w, R e L f w → R' e L f w) :
    Φ.wp i p L f w Q' R' := by
  induction p generalizing L f w with
  | ret a => exact hQ _ _ _ _ h
  | raise e => exact hR _ _ _ _ h
  | call o k ih =>
    intro w' hw
    obtain ⟨hc, h1⟩ := h w' hw
    exact ⟨hc, fun free r hr hA => ih r (h1 free r hr hA)⟩
  | commit k ih =>
    intro w' hw
    obtain ⟨hc, hg, h1⟩ := h w' hw
    exact ⟨hc, hg, ih h1⟩

theorem Run.rely {p : Prog E.toLang E.Ans} {w' : World E ι} (h : Φ.Run i p L f w) (hw : Φ.Rely i L w w') :
    Φ.Run i p L f w' := by
  cases p with
  | ret a => exact fun w'' hw' => h w'' (hw.trans hw')
  | raise e => exact fun w'' hw' => h w'' (hw.trans hw')
  | call o k => exact fun w'' hw' => h w'' (hw.trans hw')
  | commit k => exact fun w'' hw' => h w'' (hw.trans hw')

end Rules

/-! ## Facts that a transaction keeps -/

/-- A fact about the world that the steps of others keep while `i` holds `L`, and `i`'s own statements. -/
structure Holds (Φ : Logic E ι) (i : ι) (L : List E.Lock) (F : World E ι → Prop) : Prop where
  rely : ∀ {w w'}, Φ.Rely i L w w' → F w → F w'
  own : ∀ {w : World E ι} (o : E.Op) (r : E.Resp o), F w → F (w.stmt i o r)

namespace Holds

variable {Φ} {i : ι} {L L' : List E.Lock} {F G : World E ι → Prop}

theorem of_true : Φ.Holds i L fun _ => True := ⟨fun _ _ => trivial, fun _ _ _ => trivial⟩

theorem and (hF : Φ.Holds i L F) (hG : Φ.Holds i L G) : Φ.Holds i L fun w => F w ∧ G w :=
  ⟨fun hw h => ⟨hF.rely hw h.1, hG.rely hw h.2⟩, fun o r h => ⟨hF.own o r h.1, hG.own o r h.2⟩⟩

theorem imp (hF : Φ.Holds i L F) (h : ∀ w, F w → G w) (h' : ∀ w, G w → F w) : Φ.Holds i L G :=
  ⟨fun hw hG => h _ (hF.rely hw (h' _ hG)), fun o r hG => h _ (hF.own o r (h' _ hG))⟩

/-- More locks keep at least as much. -/
theorem weaken (hF : Φ.Holds i L F) (hL : ∀ l ∈ L, l ∈ L') : Φ.Holds i L' F := by
  refine ⟨fun {w w'} hw h => hF.rely ⟨?_, fun l hl => hw.prot l (hL l hl), hw.gr⟩ h, hF.own⟩
  obtain ⟨x, hx, hxe⟩ := hw.tr
  exact ⟨x, hx, fun e he => ⟨(hxe e he).1, fun l hl => (hxe e he).2 l (hL l hl)⟩⟩

theorem need (hF : Φ.Holds i L F) (o : E.Op) (r : E.Resp o) : Φ.Holds i (E.need o r ++ L) F :=
  hF.weaken fun _ hl => List.mem_append_right _ hl

/-- An event of the past. -/
theorem mem (e : Event E ι) : Φ.Holds i L fun w => e ∈ w.tr :=
  ⟨fun hw h => hw.mem_tr h, fun _ _ h => World.mem_stmt h⟩

/-- What a lock protects. -/
theorem prot {D : E.Db → Prop} {l : E.Lock} (hl : l ∈ L) (hD : ∀ {db db'}, E.Prot l db db' → D db → D db') :
    Φ.Holds i L fun w => D w.db :=
  ⟨fun hw h => hD (hw.prot l hl) h, fun _ _ h => h⟩

end Holds

section Statements

variable {Φ} {α : Type} {i : ι} {L : List E.Lock} {f : E.Db → E.Db} {w : World E ι} {F : World E ι → Prop}
  {Q : α → List E.Lock → (E.Db → E.Db) → World E ι → Prop}
  {R : E.Err → List E.Lock → (E.Db → E.Db) → World E ι → Prop}

/-- One statement: what was known still holds when it runs and after it, and its reply adds to it. -/
theorem wp_stmt {o : E.Op} {k : E.Resp o → Prog E.toLang α} (hF : Φ.Holds i L F) (h : F w)
    (hc : ∀ w, F w → Φ.Chk w i L f o)
    (hk : ∀ w free r, F w → E.resp o (f w.db) w.mem free r → Φ.A w ⟨i, .stmt o r⟩ → F (w.stmt i o r) →
      Φ.wp i (k r) (E.need o r ++ L) (E.write o r ∘ f) (w.stmt i o r) Q R) :
    Φ.wp i (.call o k) L f w Q R :=
  fun w' hw => ⟨hc w' (hF.rely hw h), fun free r hr hA =>
    hk w' free r (hF.rely hw h) hr hA (hF.own o r (hF.rely hw h))⟩

/-- One statement: what was known holds when it runs, and its reply tells what is known after it. -/
theorem wp_call {o : E.Op} {k : E.Resp o → Prog E.toLang α} (hF : ∀ {w w'}, Φ.Rely i L w w' → F w → F w') (h : F w)
    (hc : ∀ w, F w → Φ.Chk w i L f o)
    (hk : ∀ w free r, F w → E.resp o (f w.db) w.mem free r →
      Φ.wp i (k r) (E.need o r ++ L) (E.write o r ∘ f) (w.stmt i o r) Q R) :
    Φ.wp i (.call o k) L f w Q R :=
  fun w' hw => ⟨hc w' (hF hw h), fun free r hr _ => hk w' free r (hF hw h) hr⟩

theorem wp_commit {k : Prog E.toLang α} (hF : Φ.Holds i L F) (h : F w) (hc : ∀ w, F w → Φ.Cmt w i f)
    (hg : ∀ w, F w → Φ.Gr w.db (f w.db)) (hk : ∀ w, F w → Φ.wp i k [] id (w.commit i f) Q R) :
    Φ.wp i (.commit k) L f w Q R :=
  fun w' hw => ⟨hc w' (hF.rely hw h), hg w' (hF.rely hw h), hk w' (hF.rely hw h)⟩

end Statements

/-! ## Every interleaving -/

/-- What holds of every reachable state. -/
structure Good (s : Sys E ι) : Prop where
  run : ∀ i p L f, s.txs i = .run p L f → Φ.Run i p L f s.world
  cover : ∀ i p L f, s.txs i = .run p L f → ∀ l, (∀ m ∈ L, E.conflict m l = false) →
    ∀ db, E.Prot l db (f db)
  excl : ∀ i j, i ≠ j → ∀ l ∈ (s.txs i).held, ∀ m ∈ (s.txs j).held, E.conflict l m = false

variable {Φ}

theorem Good.start {db : E.Db} {mem : E.Mem} {prog : ι → Prog E.toLang E.Ans}
    (hp : ∀ i, Φ.Run i (prog i) [] id ⟨db, mem, []⟩) : Φ.Good (Sys.start db mem prog) := by
  refine ⟨fun i p L f h => ?_, fun i p L f h l _ db => ?_, fun i j _ l hl => ?_⟩
  · cases h; exact hp i
  · cases h; exact E.prot_refl l db
  · simp [Sys.start, Tx.held] at hl

variable [DecidableEq ι]

/-- A step of `i` that moves the database where no other lock forbids it, and takes only free locks, keeps
every other transaction's `Run`. -/
theorem Good.update {s : Sys E ι} (hs : Φ.Good s) {i : ι} {w' : World E ι} {t : Tx E}
    {a : Act E} (htr : w'.tr = s.world.tr ++ [⟨i, a⟩] ∧
      ∀ m ∈ Event.locks (⟨i, a⟩ : Event E ι), s.Free i m)
    (hprot : ∀ l, (∀ m ∈ (s.txs i).held, E.conflict m l = false) → E.Prot l s.world.db w'.db)
    (hgr : Φ.Gr s.world.db w'.db) (hheld : ∀ l ∈ t.held, l ∈ (s.txs i).held ∨ s.Free i l)
    (hrun : ∀ p L f, t = .run p L f → Φ.Run i p L f w' ∧
      ∀ l, (∀ m ∈ L, E.conflict m l = false) → ∀ db, E.Prot l db (f db)) :
    Φ.Good ⟨w', Function.update s.txs i t⟩ := by
  have free : ∀ l ∈ t.held, s.Free i l := by
    intro l hl j hj m hm
    rcases hheld l hl with h | h
    · exact hs.excl i j (Ne.symm hj) l h m hm
    · exact h j hj m hm
  refine ⟨fun j p L f h => ?_, fun j p L f h => ?_, fun j j' hne l hl m hm => ?_⟩
  · dsimp only at h
    by_cases hj : j = i
    · subst hj
      rw [Function.update_self] at h
      exact (hrun p L f h).1
    · rw [Function.update_of_ne hj] at h
      refine (hs.run j p L f h).rely ⟨?_, fun l hl => ?_, hgr⟩
      · obtain ⟨htr, hfree⟩ := htr
        refine ⟨_, htr, fun e he => ?_⟩
        rw [List.mem_singleton] at he
        subst he
        exact ⟨fun h => hj h.symm, fun l hl m hm => hfree m hm j hj l (by rw [h]; exact hl)⟩
      · refine hprot l fun m hm => ?_
        exact hs.excl i j (Ne.symm hj) m hm l (by rw [h]; exact hl)
  · dsimp only at h
    by_cases hj : j = i
    · subst hj
      rw [Function.update_self] at h
      exact (hrun p L f h).2
    · rw [Function.update_of_ne hj] at h
      exact hs.cover j p L f h
  · dsimp only at hl hm
    by_cases hj : j = i
    · subst hj
      rw [Function.update_self] at hl
      rw [Function.update_of_ne (Ne.symm hne)] at hm
      exact free l hl j' (Ne.symm hne) m hm
    · rw [Function.update_of_ne hj] at hl
      by_cases hj' : j' = i
      · subst hj'
        rw [Function.update_self] at hm
        rw [E.conflict_comm]
        exact free m hm j hj l hl
      · rw [Function.update_of_ne hj'] at hm
        exact hs.excl j j' hne l hl m hm

/-- **One step** keeps `Good`, and its commit satisfies `Gr`. -/
theorem Good.step {s s' : Sys E ι} (hs : Φ.Good s) (h : Step Φ.A s s') :
    Φ.Good s' ∧ Φ.Gr s.world.db s'.world.db := by
  cases h with
  | @stmt i o k L f r hi hr hl hA =>
    have hrun := ((hs.run i _ _ _ hi) s.world (.refl i L _)).2 _ r hr hA
    refine ⟨hs.update ⟨rfl, hl⟩ (fun l _ => E.prot_refl l _) (Φ.gr_refl _) (fun l hlt => ?_)
      (fun p L' f' ht => ?_), Φ.gr_refl _⟩
    · rcases List.mem_append.mp hlt with h | h
      · exact Or.inr (hl l h)
      · exact Or.inl (by rw [hi]; exact h)
    · cases ht
      refine ⟨hrun, fun l hl' db => ?_⟩
      have h1 := hs.cover i _ _ _ hi l (fun m hm => hl' m (List.mem_append_right _ hm)) db
      have h2 := E.covered o r l (fun m hm => hl' m (List.mem_append_left _ hm)) (f db)
      exact E.prot_trans h1 h2
  | @commit i k L f hi hA =>
    obtain ⟨-, hg, hrun⟩ := (hs.run i _ _ _ hi) s.world (.refl i L _)
    refine ⟨hs.update ⟨rfl, by simp [Event.locks]⟩ (fun l hl => ?_) hg (by simp [Tx.held])
      (fun p L' f' ht => ?_), hg⟩
    · refine hs.cover i _ _ _ hi l (fun m hm => hl m (by rw [hi]; exact hm)) _
    · cases ht
      exact ⟨hrun, fun l _ db => E.prot_refl l db⟩
  | @ret i a L f hi hA =>
    exact ⟨hs.update ⟨rfl, by simp [Event.locks]⟩ (fun l _ => E.prot_refl l _) (Φ.gr_refl _)
      (by simp [Tx.held]) (fun p L' f' ht => by cases ht), Φ.gr_refl _⟩
  | @raise i e L f hi hA =>
    exact ⟨hs.update ⟨rfl, by simp [Event.locks]⟩ (fun l _ => E.prot_refl l _) (Φ.gr_refl _)
      (by simp [Tx.held]) (fun p L' f' ht => by cases ht), Φ.gr_refl _⟩
  | @crash i p L f hi hA =>
    exact ⟨hs.update ⟨rfl, by simp [Event.locks]⟩
      (fun l _ => E.prot_refl l _) (Φ.gr_refl _) (by simp [Tx.held]) (fun p L' f' ht => by cases ht),
      Φ.gr_refl _⟩

/-- **Soundness**: transactions that satisfy their `Run` at the start satisfy it in every interleaving. -/
theorem sound {db : E.Db} {mem : E.Mem} {prog : ι → Prog E.toLang E.Ans} {s : Sys E ι}
    (hp : ∀ i, Φ.Run i (prog i) [] id ⟨db, mem, []⟩) (hr : Reach Φ.A (Sys.start db mem prog) s) : Φ.Good s := by
  induction hr with
  | refl => exact Good.start hp
  | tail _ hstep ih => exact (ih.step hstep).1

/-- From any reachable state on, the database moves along `Gr`. -/
theorem gr_reach {s s' : Sys E ι} (hs : Φ.Good s) (hr : Reach Φ.A s s') : Φ.Gr s.world.db s'.world.db := by
  suffices h : Φ.Good s' ∧ Φ.Gr s.world.db s'.world.db from h.2
  induction hr with
  | refl => exact ⟨hs, Φ.gr_refl _⟩
  | tail _ hstep ih =>
    obtain ⟨hg, hd⟩ := ih.1.step hstep
    exact ⟨hg, Φ.gr_trans ih.2 hd⟩

/-- Every step from a state that satisfies `S` keeps `J`, given what the transaction guarantees. -/
structure Keeps (Φ : Logic E ι) (S : Sys E ι → Prop) (J : World E ι → Prop) : Prop where
  stmt : ∀ {s : Sys E ι} {i : ι} {L : List E.Lock} {f : E.Db → E.Db} {o : E.Op} {r : E.Resp o}, S s → J s.world →
    s.txs i ≠ .over → Φ.A s.world ⟨i, .stmt o r⟩ → Φ.Chk s.world i L f o →
    E.resp o (f s.world.db) s.world.mem (s.Free i) r → J (s.world.stmt i o r)
  commit : ∀ {s : Sys E ι} {i : ι} {f : E.Db → E.Db}, S s → J s.world → s.txs i ≠ .over →
    Φ.A s.world ⟨i, .commit⟩ → Φ.Cmt s.world i f → Φ.Gr s.world.db (f s.world.db) → J (s.world.commit i f)
  done : ∀ {s : Sys E ι} {i : ι} {a : Except E.Err E.Ans}, S s → J s.world → s.txs i ≠ .over →
    Φ.Fin s.world i a → J (s.world.push i (.done a))
  crash : ∀ {s : Sys E ι} {i : ι}, S s → J s.world → Φ.A s.world ⟨i, .crash⟩ → J (s.world.push i .crash)

/-- **Invariants**: a property that holds at the start and that every step keeps, given what transactions
guarantee, holds of every reachable state. -/
theorem invariant {db : E.Db} {mem : E.Mem} {prog : ι → Prog E.toLang E.Ans} {J : World E ι → Prop}
    (hp : ∀ i, Φ.Run i (prog i) [] id ⟨db, mem, []⟩)
    (hJ : Φ.Keeps (Reach Φ.A (Sys.start db mem prog)) J) (h0 : J ⟨db, mem, []⟩) {s : Sys E ι}
    (hr : Reach Φ.A (Sys.start db mem prog) s) : J s.world := by
  induction hr with
  | refl => exact h0
  | @tail s s' hpre hstep ih =>
    have hs := sound hp hpre
    have live : ∀ {i p L f}, s.txs i = .run p L f → s.txs i ≠ .over := fun hi h => by rw [hi] at h; cases h
    cases hstep with
    | @stmt i o k L f r hi hresp hl hA =>
      exact hJ.stmt hpre ih (live hi) hA ((hs.run i _ _ _ hi) s.world (.refl i L _)).1 hresp
    | @commit i k L f hi hA =>
      obtain ⟨hc, hg, -⟩ := (hs.run i _ _ _ hi) s.world (.refl i L _)
      exact hJ.commit hpre ih (live hi) hA hc hg
    | @ret i a L f hi hA => exact hJ.done hpre ih (live hi) ((hs.run i _ _ _ hi) s.world (.refl i L _))
    | @raise i e L f hi hA => exact hJ.done hpre ih (live hi) ((hs.run i _ _ _ hi) s.world (.refl i L _))
    | crash hi hA => exact hJ.crash hpre ih hA

end Logic

end Txn
