import Mathlib.Data.Prod.Lex
import Bekaa3D.Api.CursorNoise
import Bekaa3D.Catalog.Timestamps
import Bekaa3D.Paging.Keyset

/-!
# Api.Positions — positions of rows

What the cursor of a row carries, and what the query of a list binds of it.

* `Conversions`: the library, and the datetimes that the driver makes of a column.
* `Stamp.bound`, `Name.bound`: the parameters of the query; the driver refuses some positions.
* `Stamp.round`, `Name.round`: the cursor of a row that the columns hold leads back to the row.
* `calendar`: conversions with the datetimes in UTC from 1970 on.
-/

namespace Bekaa3D.Api

open Text Text.Json
open Identity (Uuid Instant)
open Codecs (Library Uuid128 Raised Representable Bindable lastInstant)

structure Conversions (T : Type) extends Library T where
  /-- What the driver reads from a `timestamptz`. -/
  utc : Instant → T

/-- The library reads what it has written, and the datetimes of a column are what the column holds. -/
structure Conversions.Lawful {T : Type} (c : Conversions T) : Prop where
  library : c.toLibrary.Lawful
  instant_utc : ∀ t : Instant, Representable t → c.instant (c.utc t) = t

/-- An identifier, as a column holds it. -/
def uuid128 (id : Uuid) : Uuid128 := ⟨id % 2 ^ 128, Nat.mod_lt id (Nat.two_pow_pos 128)⟩

theorem uuid128_val {id : Uuid} (h : id < 2 ^ 128) : (uuid128 id).val = id := Nat.mod_eq_of_lt h

/-! ## Errors -/

/-- How a list fails: with a `RequestValidationError`, or with an exception that it does not catch. -/
inductive ListError where
  | validation (errors : List FieldError)
  | uncaught
  deriving DecidableEq, Repr

/-- `except ValueError`. -/
def ListError.refused : Raised → ListError
  | .value => .validation invalidCursorError
  | .recursion => .uncaught

variable {T : Type} (c : Conversions T)

/-! ## By time -/

/-- `ORDER BY created_at DESC, id DESC`. -/
@[reducible] def NewestFirst : Type := (ℤ ×ₗ Uuid)ᵒᵈ

def newestFirst (position : ℤ × Uuid) : NewestFirst := OrderDual.toDual (toLex position)

theorem newestFirst_injective {position position' : ℤ × Uuid} (h : newestFirst position = newestFirst position') :
    position = position' := toLex.injective (OrderDual.toDual.injective h)

namespace Stamp

/-- The columns `created_at` and `id` hold these. -/
structure Held (createdAt : Instant) (id : Uuid) : Prop where
  createdAt : Representable createdAt
  id : id < 2 ^ 128

/-- `_encode_cursor`, of the columns of a row. -/
def rowCursor (createdAt : Instant) (id : Uuid) : String :=
  Codecs.Stamp.encodeCursor c.toLibrary (c.utc createdAt) (uuid128 id)

/-- What the query binds; the driver converts the timestamp to UTC. -/
def bound (after : T × Uuid128) : Option NewestFirst :=
  if Representable (c.instant after.1) then some (newestFirst (c.instant after.1, after.2.val)) else none

variable {c}

theorem bound_eq_none {after : T × Uuid128} : bound c after = none ↔ ¬Representable (c.instant after.1) := by
  simp [bound]

theorem round (hc : c.Lawful) {createdAt : Instant} {id : Uuid} (h : Held createdAt id) :
    ∃ after, Codecs.Stamp.parseCursor c.toLibrary (rowCursor c createdAt id) = .ok after ∧
      bound c after = some (newestFirst (createdAt, id)) := by
  refine ⟨(c.utc createdAt, uuid128 id), ?_, ?_⟩
  · exact (Codecs.Stamp.carries hc.library (c.utc createdAt) (uuid128 id) Codecs.Ascii).exact
  · have ht := hc.instant_utc createdAt h.createdAt
    unfold bound
    dsimp only
    rw [ht, if_pos h.createdAt, uuid128_val h.id]

end Stamp

/-! ## By name -/

/-- `ORDER BY name ASC, id ASC`; `C` is ordered as the collation of the column orders names. -/
@[reducible] def ByName (C : Type) : Type := C ×ₗ Uuid

def byName {C : Type} (collate : String → C) (position : String × Uuid) : ByName C :=
  toLex (collate position.1, position.2)

/-- The code point is a character, and not U+0000. -/
def isBindable (p : Point) : Bool :=
  match p with
  | .char c => c ≠ Char.ofNat 0
  | .surrogate _ => false

/-- The text that the driver sends. -/
def boundText (s : Str) : Option String := if s.all isBindable then some (String.ofList (Codecs.Name.characters s)) else none

theorem bindable_iff {s : Str} : s.all isBindable = true ↔ Bindable s := by
  rw [List.all_eq_true]
  constructor
  · intro h
    refine ⟨fun hmem => ?_, fun n hmem => ?_⟩
    · have := h _ hmem
      simp [isBindable] at this
    · have := h _ hmem
      simp [isBindable] at this
  · intro h p hp
    cases p with
    | char c =>
      have hne : c ≠ Char.ofNat 0 := by
        rintro rfl
        exact h.1 hp
      simpa [isBindable] using hne
    | surrogate n => exact absurd hp (h.2 n)

theorem boundText_eq_none {s : Str} : boundText s = none ↔ ¬Bindable s := by
  rw [← bindable_iff]
  simp [boundText]

theorem boundText_ofString {s : String} (h : Char.ofNat 0 ∉ s.toList) : boundText (ofString s) = some s := by
  have hb : Bindable (ofString s) := Codecs.bindable_ofString.mpr h
  have hchars : Codecs.Name.characters (ofString s) = s.toList := Codecs.Name.characters_ofChars s.toList
  unfold boundText
  rw [if_pos (bindable_iff.mpr hb), hchars, String.ofList_toList]

namespace Name

/-- The columns `name` and `id` hold these. -/
structure Held (name : String) (id : Uuid) : Prop where
  name : Char.ofNat 0 ∉ name.toList
  id : id < 2 ^ 128

/-- `_encode_cursor`, of the columns of a row. -/
def rowCursor (name : String) (id : Uuid) : String := Codecs.Name.encodeCursor (ofString name) (uuid128 id)

/-- What the query binds; the driver encodes the name. -/
def bound {C : Type} (collate : String → C) (after : Str × Uuid128) : Option (ByName C) :=
  (boundText after.1).map fun name => byName collate (name, after.2.val)

variable {c}

theorem round (hc : c.Lawful) {C : Type} (collate : String → C) {name : String} {id : Uuid} (h : Held name id) :
    ∃ after, Codecs.Name.parseCursor c.toLibrary (rowCursor name id) = .ok after ∧
      bound collate after = some (byName collate (name, id)) := by
  refine ⟨(ofString name, uuid128 id), ?_, ?_⟩
  · exact (Codecs.Name.carries hc.library name.toList (uuid128 id) Codecs.Ascii).exact
  · unfold bound
    dsimp only
    rw [boundText_ofString h.name, Option.map_some, uuid128_val h.id]

end Name

/-! ## The calendar -/

/-- A datetime in UTC, from 1970 on. -/
abbrev Moment : Type := { t : Instant // (t : ℤ) ≤ lastInstant }

/-- The conversions, for the datetimes in UTC from 1970 on. -/
def calendar : Conversions Moment where
  isoformat t := Catalog.isoformat t.val
  fromisoformat s := (Catalog.fromIso s).bind fun t =>
    if h : (t : ℤ) ≤ lastInstant ∧ Catalog.isoformat t = s then some (some ⟨t, h.1⟩) else none
  instant t := t.val
  int16 := Codecs.readHex
  depth := 1000
  utc t := if h : (t : ℤ) ≤ lastInstant then ⟨t, h⟩ else ⟨0, by decide⟩

theorem calendar_fromisoformat (t : Moment) : calendar.fromisoformat (calendar.isoformat t) = some (some t) := by
  have hread := Catalog.fromIso_isoformat t.val
  unfold calendar
  dsimp only
  rw [hread, Option.bind_some]
  exact dif_pos ⟨t.property, rfl⟩

theorem calendar_instant {t : Instant} (h : Representable t) : calendar.instant (calendar.utc t) = t := by
  have hutc : calendar.utc t = ⟨t, h.2⟩ := dif_pos h.2
  rw [hutc]
  rfl

theorem calendar_lawful : calendar.Lawful where
  library := {
    isoformat_chars := fun t _ h => Catalog.mem_isoformat h
    fromisoformat_isoformat := calendar_fromisoformat
    int16_hexDigits := fun n hn => by
      unfold calendar
      dsimp only
      exact Codecs.readHex_hexDigits hn
    depth_pos := by decide }
  instant_utc _ ht := calendar_instant ht

end Bekaa3D.Api
