import Bekaa3D.Api.Positions
import Bekaa3D.Platform.Json

/-!
# Engagement.Notifications — notifications and their list

The entity (`domain/entities.py`), how it is shown (`api/schemas.py`), and the list of a user's own notifications,
newest first (`infrastructure/repositories.py`, `api/notifications.py`).
-/

namespace Bekaa3D.Engagement

open Identity (Uuid Instant)
open Platform (Json)
open Paging (Listing Page)
open Api (Conversions ListError NewestFirst newestFirst)
open Api.Codecs (Uuid128 Raised)

inductive NotificationType where
  | account
  | order
  | payment
  | refund
  | offer
  | download
  deriving DecidableEq, Repr

structure Notification where
  id : Uuid
  userId : Uuid
  type : NotificationType
  payload : Json
  readAt : Option Instant
  createdAt : Instant

/-- The `read` flag, derived from the column. -/
def Notification.read (n : Notification) : Bool := n.readAt.isSome

structure NotificationRead where
  id : Uuid
  type : NotificationType
  payload : Json
  read : Bool
  createdAt : Instant

def NotificationRead.fromNotification (n : Notification) : NotificationRead :=
  ⟨n.id, n.type, n.payload, n.read, n.createdAt⟩

/-- Where a notification is in the list. -/
def Notification.position (n : Notification) : NewestFirst := newestFirst (n.createdAt, n.id)

/-- `WHERE user_id = …`, and the filter by read state. -/
def owned (userId : Uuid) (read : Option Bool) (n : Notification) : Bool :=
  n.userId = userId && match read with
    | some true => n.readAt.isSome
    | some false => n.readAt.isNone
    | none => true

/-- `NotificationRepository.list_page`. -/
def NotificationRepository.listPage (userId : Uuid) (limit : ℕ) (after : Option NewestFirst) (read : Option Bool)
    (rows : List Notification) : List Notification :=
  Paging.select Notification.position (owned userId read) after limit rows

variable {T : Type} (c : Conversions T)

def notifications : Listing Notification NotificationRead (T × Uuid128) NewestFirst Raised where
  key := Notification.position
  cursor n := Api.Stamp.rowCursor c n.createdAt n.id
  parseCursor := Api.Codecs.Stamp.parseCursor c.toLibrary
  bound := Api.Stamp.bound c
  render := .fromNotification

/-- The answer of `list_notifications` to the user, from the rows of the table. -/
def listNotifications (userId : Uuid) (cursor : Option String) (limit : ℕ) (read : Option Bool)
    (rows : List Notification) : Except ListError (Page NotificationRead String) :=
  (notifications c).list .refused .uncaught (owned userId read) limit cursor rows

end Bekaa3D.Engagement
