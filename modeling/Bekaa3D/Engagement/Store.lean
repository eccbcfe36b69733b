import Bekaa3D.Txn.Engine
import Bekaa3D.Txn.Table
import Bekaa3D.Identity.Api
import Bekaa3D.Engagement.Notifications

/-!
# Engagement.Store — the notification centre of a user

The statements of the notification centre as an instance of `Txn.Engine`, who may call it
(`identity/api/dependencies.py`), and its two routes (`api/notifications.py`).

* `reply`: what a statement returns, at the time at which its transaction started.
* An `UPDATE` of the read state locks its row, and reads it when it has the lock.
-/

namespace Bekaa3D.Engagement

open Txn
open Identity (Uuid Instant User AccessTokenClaims IdentityError)
open Paging (Page)
open Api (Conversions FieldError NewestFirst)
open Api.Codecs (Raised)

/-! ## Tables and statements -/

structure Db where
  users : @Table Uuid User User.id
  notifications : @Table Uuid Notification Notification.id

inductive Op where
  | getAuthEpoch (userId : Uuid)
  | getById (userId : Uuid)
  | listPage (userId : Uuid) (limit : ℕ) (after : Option NewestFirst) (read : Option Bool)
  | setReadState (notificationId userId : Uuid) (read : Bool)

@[reducible] def Resp : Op → Type
  | .getAuthEpoch _ => Option ℕ
  | .getById _ => Option User
  | .listPage _ _ _ _ => List Notification
  | .setReadState _ _ _ => Option Notification

inductive RequestError where
  | identity (e : IdentityError)
  | validation (errors : List FieldError)
  deriving DecidableEq, Repr

/-- `except ValueError`. -/
def RequestError.refused : Raised → RequestError
  | .value => .validation Api.invalidCursorError
  | .recursion => .identity .uncaught

inductive Answer where
  | page (page : Page NotificationRead String)
  | notification (n : NotificationRead)

@[reducible] def lang : Lang where
  Op := Op
  Resp := Resp
  Err := RequestError
  Ans := Answer

abbrev Handler := Prog lang

def Notification.withReadAt (readAt : Option Instant) (n : Notification) : Notification := { n with readAt := readAt }

theorem Notification.withReadAt_id (readAt : Option Instant) (n : Notification) : (n.withReadAt readAt).id = n.id := rfl

/-- `read_at = COALESCE(read_at, now())`, or `NULL`. -/
def Notification.assign (n : Notification) (read : Bool) (now : Instant) : Notification :=
  n.withReadAt (if read then some (n.readAt.getD now) else none)

/-- What a statement returns; `now` is `now()`. -/
def reply (now : Instant) : (o : Op) → Db → Resp o
  | .getAuthEpoch userId, db => (db.users.row userId).map User.authEpoch
  | .getById userId, db => db.users.row userId
  | .listPage userId limit after read, db =>
    NotificationRepository.listPage userId limit after read db.notifications.rows
  | .setReadState notificationId userId read, db =>
    ((db.notifications.row notificationId).filter fun n => n.userId = userId).map fun n => n.assign read now

def write : (o : Op) → Resp o → Db → Db
  | .setReadState notificationId _ _, some n', db =>
    { db with notifications :=
        db.notifications.modify notificationId (Notification.withReadAt n'.readAt) (Notification.withReadAt_id _) }
  | _, _, db => db

/-- The row of a notification. -/
def need : (o : Op) → Resp o → List Uuid
  | .setReadState notificationId _ _, some _ => [notificationId]
  | _, _ => []

def Prot (id : Uuid) (db db' : Db) : Prop := db'.notifications.row id = db.notifications.row id

theorem covered (o : Op) (r : Resp o) (l : Uuid) (h : ∀ m ∈ need o r, decide (m = l) = false) (db : Db) :
    Prot l db (write o r db) := by
  cases o with
  | setReadState notificationId userId read =>
    cases r with
    | none => rfl
    | some n' =>
      have hne : notificationId ≠ l := by simpa using h notificationId (by simp [need])
      exact Table.row_modify_ne (Ne.symm hne) _ (Notification.withReadAt_id n'.readAt)
  | _ => rfl

@[reducible] def store : Engine where
  toLang := lang
  Db := Db
  Mem := Unit
  Lock := Uuid
  conflict l m := decide (l = m)
  conflict_comm l m := by simp [eq_comm]
  resp o db _ _ r := ∃ now, r = reply now o db
  need := need
  write := write
  memo _ _ mem := mem
  Prot := Prot
  prot_refl _ _ := rfl
  prot_trans h h' := Eq.trans h' h
  covered := covered

/-! ## Who may call -/

def stmt (o : Op) : Handler (Resp o) := Prog.sql (S := lang) o

def raise {α : Type} (e : RequestError) : Handler α := Prog.raise e

/-- `current_claims`, of the access cookie: the claims of a token that decodes. -/
def currentClaims (cookie : Option AccessTokenClaims) : Handler AccessTokenClaims :=
  match cookie with
  | none => raise (.identity Identity.unauthenticatedError)
  | some claims => do
    match ← stmt (.getAuthEpoch claims.userId) with
    | none => raise (.identity Identity.unauthenticatedError)
    | some currentEpoch =>
      if claims.authEpoch ≠ currentEpoch then raise (.identity Identity.unauthenticatedError) else return claims

def currentUser (claims : AccessTokenClaims) : Handler User := do
  match ← stmt (.getById claims.userId) with
  | none => raise (.identity Identity.unauthenticatedError)
  | some user => if user.canAuthenticate then return user else raise (.identity Identity.unauthenticatedError)

def emailVerificationRequiredError : IdentityError := .api {
  statusCode := 403
  code := "EMAIL_VERIFICATION_REQUIRED"
  title := "Email verification required"
  detail := "Verify your email address before making this change." }

def currentVerifiedUser (claims : AccessTokenClaims) : Handler User := do
  let user ← currentUser claims
  if user.isVerified then return user else raise (.identity emailVerificationRequiredError)

variable {T : Type} (c : Conversions T) (env : Identity.Env)

def requireCsrf (claims : AccessTokenClaims) (csrf : Option String) : Handler Unit :=
  match Identity.verifyCsrfToken env claims.sessionId csrf with
  | .ok true => return ()
  | .ok false => raise (.identity Identity.csrfInvalidError)
  | .error _ => raise (.identity .uncaught)

/-! ## Routes -/

/-- `GET /me/notifications`. -/
def listNotificationsRoute (cookie : Option AccessTokenClaims) (cursor : Option String) (limit : ℕ)
    (read : Option Bool) : Handler Answer := do
  let claims ← currentClaims cookie
  let user ← currentUser claims
  let after ← Prog.ofExcept ((notifications c).decodeCursor .refused cursor)
  -- what the driver cannot bind fails the statement
  let after ← Prog.ofExcept ((notifications c).bind (.identity .uncaught) after)
  let rows ← stmt (.listPage user.id (limit + 1) after read)
  return .page ((notifications c).page limit rows)

/-- `PATCH /me/notifications/{notification_id}`. -/
def setNotificationReadStateRoute (cookie : Option AccessTokenClaims) (csrf : Option String) (notificationId : Uuid)
    (read : Bool) : Handler Answer := do
  let claims ← currentClaims cookie
  requireCsrf env claims csrf
  let user ← currentVerifiedUser claims
  match ← stmt (.setReadState notificationId user.id read) with
  | none => raise (.identity Identity.notFoundError)
  | some notification => return .notification (.fromNotification notification)

inductive Request where
  | listNotifications (cookie : Option AccessTokenClaims) (cursor : Option String) (limit : ℕ) (read : Option Bool)
  | setNotificationReadState (cookie : Option AccessTokenClaims) (csrf : Option String) (notificationId : Uuid)
      (read : Bool)

def Request.cookie : Request → Option AccessTokenClaims
  | .listNotifications cookie _ _ _ => cookie
  | .setNotificationReadState cookie _ _ _ => cookie

/-- The user a request is made by, if it is authenticated. -/
def Request.userId (q : Request) : Option Uuid := q.cookie.map AccessTokenClaims.userId

def route : Request → Handler Answer
  | .listNotifications cookie cursor limit read => listNotificationsRoute c cookie cursor limit read
  | .setNotificationReadState cookie csrf notificationId read =>
    setNotificationReadStateRoute env cookie csrf notificationId read

/-- A request as one transaction. -/
def handle (q : Request) : Handler Answer := (route c env q).transaction

end Bekaa3D.Engagement
