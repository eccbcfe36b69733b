import Mathlib.Logic.Function.Basic

/-!
# Txn.Prog — request handlers as programs of statements

A request handler talks to its stores in statements and computes between them.  `Prog S α` is such a
handler over the statement language `S`: it ends with an answer, ends with an exception, issues a
statement and continues with its reply, or commits its transaction and continues in a new one.

* `Prog` is a monad (`bind`), so handlers are written in `do` notation.
* `Prog.RaisesOnly` bounds the exceptions of all its runs.
* `Prog.catchAll` is `try … except …`; `Prog.transaction` is the session scope that commits when its
  body returns and rolls back when it raises.
-/

namespace Txn

/-- A statement language: its statements, the type of the reply to each, the exceptions its handlers
raise and the answers they give. -/
structure Lang where
  Op : Type
  Resp : Op → Type
  Err : Type
  Ans : Type

/-- A handler over the statement language `S`. -/
inductive Prog (S : Lang) (α : Type) where
  | ret (a : α)
  | raise (e : S.Err)
  | call (o : S.Op) (k : S.Resp o → Prog S α)
  | commit (k : Prog S α)

namespace Prog

variable {S : Lang} {α β γ : Type}

def bind : Prog S α → (α → Prog S β) → Prog S β
  | ret a, f => f a
  | raise e, _ => raise e
  | call o k, f => call o fun r => (k r).bind f
  | commit k, f => commit (k.bind f)

instance : Monad (Prog S) where
  pure := ret
  bind := bind

/-- One statement. -/
def sql (o : S.Op) : Prog S (S.Resp o) := call o ret

/-- The result of a computation that may raise. -/
def ofExcept : Except S.Err α → Prog S α
  | .ok a => ret a
  | .error e => raise e

/-- `try p except e: h e`. -/
def catchAll : Prog S α → (S.Err → Prog S α) → Prog S α
  | ret a, _ => ret a
  | raise e, h => h e
  | call o k, h => call o fun r => (k r).catchAll h
  | commit k, h => commit (k.catchAll h)

/-- The session scope of a request: the body's statements are one transaction, committed when the
body returns and rolled back when it raises. -/
def transaction (p : Prog S α) : Prog S α := p.bind fun a => commit (ret a)

@[simp] theorem pure_eq (a : α) : (pure a : Prog S α) = ret a := rfl
@[simp] theorem bind_eq (p : Prog S α) (f : α → Prog S β) : p >>= f = p.bind f := rfl
@[simp] theorem ret_bind (a : α) (f : α → Prog S β) : (ret a).bind f = f a := rfl
@[simp] theorem raise_bind (e : S.Err) (f : α → Prog S β) : (raise e : Prog S α).bind f = raise e := rfl
@[simp] theorem call_bind (o : S.Op) (k : S.Resp o → Prog S α) (f : α → Prog S β) :
    (call o k).bind f = call o fun r => (k r).bind f := rfl
@[simp] theorem commit_bind (k : Prog S α) (f : α → Prog S β) : (commit k).bind f = commit (k.bind f) := rfl
@[simp] theorem ret_catchAll (a : α) (h : S.Err → Prog S α) : (ret a).catchAll h = ret a := rfl
@[simp] theorem raise_catchAll (e : S.Err) (h : S.Err → Prog S α) : (raise e).catchAll h = h e := rfl
@[simp] theorem call_catchAll (o : S.Op) (k : S.Resp o → Prog S α) (h : S.Err → Prog S α) :
    (call o k).catchAll h = call o fun r => (k r).catchAll h := rfl
@[simp] theorem commit_catchAll (k : Prog S α) (h : S.Err → Prog S α) :
    (commit k).catchAll h = commit (k.catchAll h) := rfl

theorem bind_ret (p : Prog S α) : p.bind ret = p := by
  induction p with
  | ret a => rfl
  | raise e => rfl
  | call o k ih => simp only [call_bind, ih]
  | commit k ih => rw [commit_bind, ih]

theorem bind_assoc (p : Prog S α) (f : α → Prog S β) (g : β → Prog S γ) :
    (p.bind f).bind g = p.bind fun a => (f a).bind g := by
  induction p with
  | ret a => rfl
  | raise e => rfl
  | call o k ih => simp only [call_bind, ih]
  | commit k ih => simp only [commit_bind, ih]

/-- Whatever the replies, the program raises no other exceptions than these. -/
def RaisesOnly (E : S.Err → Prop) : Prog S α → Prop
  | ret _ => True
  | raise e => E e
  | call _ k => ∀ r, (k r).RaisesOnly E
  | commit k => k.RaisesOnly E

theorem raisesOnly_bind_ret {E : S.Err → Prop} {p : Prog S α} {f : α → β} :
    (p.bind fun a => ret (f a)).RaisesOnly E ↔ p.RaisesOnly E := by
  induction p with
  | ret a => rfl
  | raise e => rfl
  | call o k ih => exact forall_congr' ih
  | commit k ih => exact ih

instance : LawfulMonad (Prog S) := LawfulMonad.mk' _ bind_ret (fun _ _ => rfl) bind_assoc

end Prog

end Txn
