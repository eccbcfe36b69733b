import Bekaa3D.Txn.Engine
import Bekaa3D.Txn.Table
import Bekaa3D.Identity.Tokens
import Bekaa3D.Platform.Redaction

/-!
# Jobs.Outbox — the mail that waits to be sent

A message of the outbox (`platform/domain/entities.py`), its repository, the job that sends what is due
(`jobs/outbox.py`), and the statements they issue as an instance of `Txn.Engine`.

* `claim_due` locks the rows that it returns and passes over those that others have locked.
* The provider is outside the database: it answers with nothing or raises, and what it was given is in the history.
* Others add messages to the outbox, and delete users, whose messages stay without them.
-/

namespace Bekaa3D.Jobs

open Txn
open Identity (Uuid Instant seconds)
open Platform (OutboxStatus redactPayload)
open Text.Json (Str Doc Numeral)

/-! ## Messages -/

/-- The entries of the stored object, in the order of the database. -/
abbrev Payload := List (Str × Doc Numeral)

def maxOutboxAttempts : ℕ := 5

structure EmailOutboxMessage where
  id : Uuid
  userId : Option Uuid
  recipientEmail : String
  template : String
  payload : Payload
  status : OutboxStatus
  sendAfter : Instant
  attemptCount : ℕ
  lastError : Option Str
  sentAt : Option Instant
  createdAt : Instant
  updatedAt : Instant

namespace EmailOutboxMessage

def markSent (m : EmailOutboxMessage) (at_ : Instant) : EmailOutboxMessage :=
  { m with status := .sent, sentAt := some at_, updatedAt := at_, payload := redactPayload m.payload }

def markFailed (m : EmailOutboxMessage) (error : Str) (nextAttemptAt at_ : Instant) : EmailOutboxMessage :=
  let m := { m with attemptCount := m.attemptCount + 1, lastError := some (error.take 1000), updatedAt := at_ }
  if maxOutboxAttempts ≤ m.attemptCount then { m with status := .failed, payload := redactPayload m.payload }
  else { m with status := .pending, sendAfter := nextAttemptAt }

/-- A new row, with the defaults of its columns. -/
def new (id : Uuid) (userId : Option Uuid) (recipientEmail template : String) (payload : Payload) (now : Instant) :
    EmailOutboxMessage where
  id := id
  userId := userId
  recipientEmail := recipientEmail
  template := template
  payload := payload
  status := .pending
  sendAfter := now
  attemptCount := 0
  lastError := none
  sentAt := none
  createdAt := now
  updatedAt := now

/-- What `save` writes of the message `m'` to its row, at `now()`. -/
def assign (m' : EmailOutboxMessage) (now : Instant) (m : EmailOutboxMessage) : EmailOutboxMessage :=
  { m with
    status := m'.status
    payload := m'.payload
    sendAfter := m'.sendAfter
    attemptCount := m'.attemptCount
    lastError := m'.lastError
    sentAt := m'.sentAt
    updatedAt := now }

/-- `ON DELETE SET NULL`. -/
def forget (m : EmailOutboxMessage) : EmailOutboxMessage := { m with userId := none }

theorem assign_id (m' : EmailOutboxMessage) (now : Instant) (m : EmailOutboxMessage) : (m'.assign now m).id = m.id :=
  rfl

theorem forget_id (m : EmailOutboxMessage) : m.forget.id = m.id := rfl

/-- The message is to be sent at `now`. -/
def Due (m : EmailOutboxMessage) (now : Instant) : Prop := m.status = .pending ∧ m.sendAfter ≤ now

end EmailOutboxMessage

/-! ## Tables and statements -/

abbrev Db := @Table Uuid EmailOutboxMessage EmailOutboxMessage.id

/-- What `claim_due` may return: the first rows that are due and that no other has locked, up to the limit.  What is
locked is taken at one moment; `SKIP LOCKED` looks at each row when it comes to it. -/
structure Claims (limit : ℕ) (now : Instant) (db : Db) (free : Uuid → Prop) (ms : List EmailOutboxMessage) :
    Prop where
  due : ∀ m ∈ ms, db.row m.id = some m ∧ m.Due now
  nodup : (ms.map EmailOutboxMessage.id).Nodup
  sorted : ms.Pairwise fun m m' => m.sendAfter ≤ m'.sendAfter
  length : ms.length ≤ limit
  rest : ∀ m, db.row m.id = some m → m.Due now → free m.id → m ∉ ms →
    ms.length = limit ∧ ∀ m' ∈ ms, m'.sendAfter ≤ m.sendAfter

inductive Op where
  /-- `datetime.now`. -/
  | now
  | claimDue (limit : ℕ) (now : Instant)
  /-- The provider is given the recipient, the template and the payload. -/
  | send (message : EmailOutboxMessage)
  | get (id : Uuid)
  | update (message : EmailOutboxMessage)
  | insert (userId : Option Uuid) (recipientEmail template : String) (payload : Payload)
  | deleteUser (userId : Uuid)

@[reducible] def Resp : Op → Type
  | .now => Instant
  | .claimDue _ _ => List EmailOutboxMessage
  | .send _ => Except Str Unit
  | .get _ => Option EmailOutboxMessage
  | .update _ => Instant
  | .insert _ _ _ _ => EmailOutboxMessage
  | .deleteUser _ => List Uuid

inductive OutboxError where
  | notFound (id : Uuid)
  deriving DecidableEq, Repr

inductive Answer where
  | processed (n : ℕ)
  | done
  deriving DecidableEq, Repr

@[reducible] def lang : Lang where
  Op := Op
  Resp := Resp
  Err := OutboxError
  Ans := Answer

abbrev Handler := Prog lang

/-- The replies that a statement may get. -/
def reply : (o : Op) → Db → (Uuid → Prop) → Resp o → Prop
  | .claimDue limit now, db, free, ms => Claims limit now db free ms
  | .get id, db, _, m => m = db.row id
  | .insert userId recipientEmail template payload, db, _, m =>
    ∃ id now, m = .new id userId recipientEmail template payload now ∧ db.row id = none
  | .deleteUser userId, db, _, ids => ids = db.scan fun m => m.userId = some userId
  | _, _, _, _ => True

/-- The rows of these messages lose their user. -/
def forgetAll (db : Db) : List Uuid → Db
  | [] => db
  | id :: ids => (forgetAll db ids).modify id EmailOutboxMessage.forget EmailOutboxMessage.forget_id

def write : (o : Op) → Resp o → Db → Db
  | .update message, now, db => db.modify message.id (message.assign now) (message.assign_id now)
  | .insert _ _ _ _, m, db => db.insert m
  | .deleteUser _, ids, db => forgetAll db ids
  | _, _, db => db

def need : (o : Op) → Resp o → List Uuid
  | .claimDue _ _, ms => ms.map EmailOutboxMessage.id
  | .update message, _ => [message.id]
  | .insert _ _ _ _, m => [m.id]
  | .deleteUser _, ids => ids
  | _, _ => []

def Prot (id : Uuid) (db db' : Db) : Prop := db'.row id = db.row id

theorem row_forgetAll {db : Db} {ids : List Uuid} {id : Uuid} :
    (forgetAll db ids).row id = db.row id ∨ (forgetAll db ids).row id = (db.row id).map EmailOutboxMessage.forget := by
  induction ids with
  | nil => exact Or.inl rfl
  | cons id' ids ih =>
    unfold forgetAll
    rw [Table.row_modify]
    split
    · rcases ih with ih | ih
      · exact Or.inr (by rw [ih])
      · refine Or.inr ?_
        rw [ih, Option.map_map]
        rfl
    · exact ih

theorem row_forgetAll_ne {db : Db} {ids : List Uuid} {id : Uuid} (h : id ∉ ids) :
    (forgetAll db ids).row id = db.row id := by
  induction ids with
  | nil => rfl
  | cons id' ids ih =>
    rw [List.mem_cons, not_or] at h
    exact (Table.row_modify_ne h.1 _ EmailOutboxMessage.forget_id).trans (ih h.2)

theorem covered (o : Op) (r : Resp o) (l : Uuid) (h : ∀ m ∈ need o r, decide (m = l) = false) (db : Db) :
    Prot l db (write o r db) := by
  have hne : l ∉ need o r := fun hl => by simpa using h l hl
  cases o with
  | update message =>
    have hl : l ≠ message.id := fun hl => hne (List.mem_singleton.mpr hl)
    exact Table.row_modify_ne hl _ (message.assign_id r)
  | insert userId recipientEmail template payload =>
    have hl : l ≠ EmailOutboxMessage.id r := fun hl => hne (List.mem_singleton.mpr hl)
    exact Table.row_insert_ne hl
  | deleteUser userId => exact row_forgetAll_ne hne
  | _ => rfl

theorem sameRow_comm (l m : Uuid) : decide (l = m) = decide (m = l) := decide_eq_decide.mpr eq_comm

@[reducible] def store : Engine where
  toLang := lang
  Db := Db
  Mem := Unit
  Lock := Uuid
  conflict l m := decide (l = m)
  conflict_comm := sameRow_comm
  resp o db _ free r := reply o db free r
  need := need
  write := write
  memo _ _ mem := mem
  Prot := Prot
  prot_refl _ _ := rfl
  prot_trans h h' := Eq.trans h' h
  covered := covered

/-! ## The repository -/

def stmt (o : Op) : Handler (Resp o) := Prog.sql (S := lang) o

def raise {α : Type} (e : OutboxError) : Handler α := Prog.raise e

/-- A message as a request handler puts it into the outbox. -/
structure Mail where
  userId : Option Uuid
  recipientEmail : String
  template : String
  payload : Payload

namespace EmailOutboxRepository

def add (mail : Mail) : Handler EmailOutboxMessage :=
  stmt (.insert mail.userId mail.recipientEmail mail.template mail.payload)

def claimDue (limit : ℕ) (now : Instant) : Handler (List EmailOutboxMessage) := stmt (.claimDue limit now)

def save (message : EmailOutboxMessage) : Handler Unit := do
  match ← stmt (.get message.id) with
  | none => raise (.notFound message.id)
  | some _ =>
    let _ ← stmt (.update message)
    return ()

end EmailOutboxRepository

/-! ## The job -/

def batchSize : ℕ := 20

def retryBaseSeconds : ℕ := 60

/-- How long a message that has failed `attemptCount` times before waits after one more failure. -/
def backoff (attemptCount : ℕ) : ℕ := seconds (retryBaseSeconds * 2 ^ attemptCount)

/-- The message after the provider has been called. -/
def attempt (message : EmailOutboxMessage) : Handler EmailOutboxMessage := do
  match ← stmt (.send message) with
  | .error exc =>
    let failedAt ← stmt .now
    let at_ ← stmt .now
    return message.markFailed exc (failedAt + backoff message.attemptCount) at_
  | .ok () =>
    let at_ ← stmt .now
    return message.markSent at_

/-- The transaction of one message; whether there was one. -/
def dispatchOne : Handler Bool := do
  let now ← stmt .now
  let claimed ← EmailOutboxRepository.claimDue 1 now
  match claimed with
  | [] => return false
  | message :: _ =>
    EmailOutboxRepository.save (← attempt message)
    return true

def dispatchLoop : ℕ → ℕ → Handler ℕ
  | 0, processed => return processed
  | n + 1, processed => do
    if ← dispatchOne.transaction then dispatchLoop n (processed + 1) else return processed

def dispatchOutbox : Handler Answer := do
  return .processed (← dispatchLoop batchSize 0)

/-! ## Everyone who uses the outbox -/

def addAll : List Mail → Handler Unit
  | [] => return ()
  | mail :: mails => do
    let _ ← EmailOutboxRepository.add mail
    addAll mails

inductive Job where
  | dispatchOutbox
  /-- The outbox part of a request that sends mail. -/
  | add (mails : List Mail)
  | deleteUser (userId : Uuid)

def perform : Job → Handler Answer
  | .dispatchOutbox => dispatchOutbox
  | .add mails => Prog.transaction do
    addAll mails
    return .done
  | .deleteUser userId => Prog.transaction do
    let _ ← stmt (.deleteUser userId)
    return .done

/-- Nothing has been put into the outbox yet. -/
def system {ι : Type} (job : ι → Job) : Sys store ι := .start (Table.empty : Db) () fun i => perform (job i)

end Bekaa3D.Jobs
