import Bekaa3D.Text.Base64

/-!
# Api.Cursors — opaque cursors

What the cursors of the lists have in common: the unpadded URL-safe base64 of a text, and the error that a bad one is
reported as.

* `decodeText_encodeText`: a text is read back.
* `partition_append`: so are its parts around a separator.
-/

namespace Bekaa3D.Api

open Text

/-! ## Errors -/

/-- An entry of a `RequestValidationError`. -/
structure FieldError where
  loc : List String
  msg : String
  type : String
  deriving DecidableEq, Repr

/-- The `RequestValidationError` of a bad cursor. -/
def invalidCursorError : List FieldError :=
  [⟨["query", "cursor"], "cursor is not a valid pagination cursor", "value_error"⟩]

/-! ## Text -/

/-- `urlsafe_b64encode` of UTF-8, without padding. -/
def encodeText (raw : String) : String := String.ofList (Base64.rstrip (Base64.encode raw.toUTF8.data.toList))

/-- `urlsafe_b64decode` of the padded text, as UTF-8. -/
def decodeText (raw : String) : Option String :=
  (Base64.decode (raw.toList ++ Base64.padding raw.length)).bind fun bytes => String.fromUTF8? ⟨bytes.toArray⟩

theorem decodeText_encodeText (s : String) : decodeText (encodeText s) = some s := by
  unfold decodeText encodeText
  rw [String.toList_ofList, String.length_ofList, Base64.decode_stripped, Option.bind_some, Array.toArray_toList]
  exact dif_pos s.isValidUTF8

/-- `str.partition`: what comes before and after the separator. -/
def partition (separator : Char) (s : String) : Option (String × String) :=
  if separator ∈ s.toList then
    some (String.ofList (s.toList.takeWhile (· ≠ separator)),
      String.ofList ((s.toList.dropWhile (· ≠ separator)).drop 1))
  else none

theorem partition_append {separator : Char} {s : String} (h : separator ∉ s.toList) (t : String) :
    partition separator (s ++ String.singleton separator ++ t) = some (s, t) := by
  have hlist : (s ++ String.singleton separator ++ t).toList = s.toList ++ separator :: t.toList := by simp
  have hall : ∀ c ∈ s.toList, decide (c ≠ separator) = true := fun c hc => by
    have : c ≠ separator := fun he => h (he ▸ hc)
    simpa using this
  unfold partition
  rw [hlist, if_pos (by simp), List.takeWhile_append_of_pos hall, List.dropWhile_append_of_pos hall,
    List.takeWhile_cons_of_neg (by simp), List.dropWhile_cons_of_neg (by simp)]
  simp

/-- What is between the timestamp and the identifier of a cursor by time. -/
def Stamp.separator : Char := '|'

end Bekaa3D.Api
