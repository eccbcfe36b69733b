import Bekaa3D.Txn.Prog
import Mathlib.Logic.Relation
import Mathlib.Tactic.Common

/-!
# Txn.Engine — READ COMMITTED transactions under row locks

The database that handlers run against, for any statement language.

* A transaction's writes are pending until it commits: a function `Db → Db` that is applied to the
  committed database, both to answer the transaction's own statements and at the commit.
* A statement sees the database committed when it runs, under its own transaction's pending writes.
* The locks a statement takes are held until the transaction ends; a statement whose lock conflicts
  with one held by another transaction does not run yet.
* `Mem` is a store outside the transaction (a cache): its changes are immediate and never rolled back.
* Any transaction may crash at any point: a lost connection, a failed commit, a deadlock victim.

`Engine.Prot l db db'` says that `db'` differs from `db` only where a holder of the lock `l` allows
others to write; `Engine.covered` says that the locks a statement takes cover what it writes.
-/

namespace Txn

/-- A statement language with its meaning. -/
structure Engine extends Lang where
  Db : Type
  Mem : Type
  Lock : Type
  conflict : Lock → Lock → Bool
  conflict_comm : ∀ l m, conflict l m = conflict m l
  /-- The replies a statement may get, from the database it sees and the locks others leave free. -/
  resp : (o : Op) → Db → Mem → (Lock → Prop) → Resp o → Prop
  need : (o : Op) → Resp o → List Lock
  write : (o : Op) → Resp o → Db → Db
  memo : (o : Op) → Resp o → Mem → Mem
  Prot : Lock → Db → Db → Prop
  prot_refl : ∀ l db, Prot l db db
  prot_trans : ∀ {l a b c}, Prot l a b → Prot l b c → Prot l a c
  covered : ∀ o r l, (∀ m ∈ need o r, conflict m l = false) → ∀ db, Prot l db (write o r db)

/-- What a transaction does in one step. -/
inductive Act (E : Engine) where
  | stmt (o : E.Op) (r : E.Resp o)
  | commit
  | done (a : Except E.Err E.Ans)
  | crash

structure Event (E : Engine) (ι : Type) where
  who : ι
  act : Act E

/-- The locks taken in an event. -/
def Event.locks {E : Engine} {ι : Type} (e : Event E ι) : List E.Lock :=
  match e.act with
  | .stmt o r => E.need o r
  | _ => []

/-- What every transaction shares: the committed database, the store outside it, and the history. -/
structure World (E : Engine) (ι : Type) where
  db : E.Db
  mem : E.Mem
  tr : List (Event E ι)

namespace World

variable {E : Engine} {ι : Type}

def push (w : World E ι) (i : ι) (a : Act E) : World E ι := { w with tr := w.tr ++ [⟨i, a⟩] }

/-- Transaction `i` runs the statement `o` with reply `r`. -/
def stmt (w : World E ι) (i : ι) (o : E.Op) (r : E.Resp o) : World E ι :=
  { w with mem := E.memo o r w.mem, tr := w.tr ++ [⟨i, .stmt o r⟩] }

/-- Transaction `i` commits its pending writes `f`. -/
def commit (w : World E ι) (i : ι) (f : E.Db → E.Db) : World E ι :=
  { w with db := f w.db, tr := w.tr ++ [⟨i, .commit⟩] }

@[simp] theorem push_db (w : World E ι) (i : ι) (a : Act E) : (w.push i a).db = w.db := rfl
@[simp] theorem push_mem (w : World E ι) (i : ι) (a : Act E) : (w.push i a).mem = w.mem := rfl
@[simp] theorem push_tr (w : World E ι) (i : ι) (a : Act E) : (w.push i a).tr = w.tr ++ [⟨i, a⟩] := rfl
@[simp] theorem commit_db (w : World E ι) (i : ι) (f : E.Db → E.Db) : (w.commit i f).db = f w.db := rfl
@[simp] theorem commit_mem (w : World E ι) (i : ι) (f : E.Db → E.Db) : (w.commit i f).mem = w.mem := rfl
@[simp] theorem commit_tr (w : World E ι) (i : ι) (f : E.Db → E.Db) :
    (w.commit i f).tr = w.tr ++ [⟨i, .commit⟩] := rfl

@[simp] theorem stmt_db (w : World E ι) (i : ι) (o : E.Op) (r : E.Resp o) : (w.stmt i o r).db = w.db := rfl
@[simp] theorem stmt_mem (w : World E ι) (i : ι) (o : E.Op) (r : E.Resp o) :
    (w.stmt i o r).mem = E.memo o r w.mem := rfl
@[simp] theorem stmt_tr (w : World E ι) (i : ι) (o : E.Op) (r : E.Resp o) :
    (w.stmt i o r).tr = w.tr ++ [⟨i, .stmt o r⟩] := rfl

end World

/-- A transaction: the rest of its program, the locks it holds and its pending writes; or ended. -/
inductive Tx (E : Engine) where
  | run (p : Prog E.toLang E.Ans) (held : List E.Lock) (pend : E.Db → E.Db)
  | over

def Tx.held {E : Engine} : Tx E → List E.Lock
  | .run _ L _ => L
  | .over => []

/-- The state of a system of transactions. -/
structure Sys (E : Engine) (ι : Type) where
  world : World E ι
  txs : ι → Tx E

section Run

variable {E : Engine} {ι : Type}

/-- No transaction but `i` holds a lock that conflicts with `l`. -/
def Sys.Free (s : Sys E ι) (i : ι) (l : E.Lock) : Prop :=
  ∀ j, j ≠ i → ∀ m ∈ (s.txs j).held, E.conflict l m = false

/-- The state before any transaction has run. -/
def Sys.start (db : E.Db) (mem : E.Mem) (prog : ι → Prog E.toLang E.Ans) : Sys E ι :=
  ⟨⟨db, mem, []⟩, fun i => .run (prog i) [] id⟩

variable [DecidableEq ι] (A : World E ι → Event E ι → Prop)

/-- One step of the system, its event satisfying `A`. -/
inductive Step : Sys E ι → Sys E ι → Prop where
  | stmt {s : Sys E ι} {i : ι} {o : E.Op} {k : E.Resp o → Prog E.toLang E.Ans} {L : List E.Lock}
      {f : E.Db → E.Db} {r : E.Resp o} (hi : s.txs i = .run (.call o k) L f)
      (hr : E.resp o (f s.world.db) s.world.mem (s.Free i) r) (hl : ∀ l ∈ E.need o r, s.Free i l)
      (hA : A s.world ⟨i, .stmt o r⟩) :
      Step s ⟨s.world.stmt i o r, Function.update s.txs i (.run (k r) (E.need o r ++ L) (E.write o r ∘ f))⟩
  | commit {s : Sys E ι} {i : ι} {k : Prog E.toLang E.Ans} {L : List E.Lock} {f : E.Db → E.Db}
      (hi : s.txs i = .run (.commit k) L f) (hA : A s.world ⟨i, .commit⟩) :
      Step s ⟨s.world.commit i f, Function.update s.txs i (.run k [] id)⟩
  | ret {s : Sys E ι} {i : ι} {a : E.Ans} {L : List E.Lock} {f : E.Db → E.Db}
      (hi : s.txs i = .run (.ret a) L f) (hA : A s.world ⟨i, .done (.ok a)⟩) :
      Step s ⟨s.world.push i (.done (.ok a)), Function.update s.txs i .over⟩
  | raise {s : Sys E ι} {i : ι} {e : E.Err} {L : List E.Lock} {f : E.Db → E.Db}
      (hi : s.txs i = .run (.raise e) L f) (hA : A s.world ⟨i, .done (.error e)⟩) :
      Step s ⟨s.world.push i (.done (.error e)), Function.update s.txs i .over⟩
  | crash {s : Sys E ι} {i : ι} {p : Prog E.toLang E.Ans} {L : List E.Lock} {f : E.Db → E.Db}
      (hi : s.txs i = .run p L f) (hA : A s.world ⟨i, .crash⟩) :
      Step s ⟨s.world.push i .crash, Function.update s.txs i .over⟩

/-- Runs whose every event satisfies `A`. -/
def Reach : Sys E ι → Sys E ι → Prop := Relation.ReflTransGen (Step A)

/-- No condition on the events of a run. -/
def Any : World E ι → Event E ι → Prop := fun _ _ => True

end Run

end Txn
