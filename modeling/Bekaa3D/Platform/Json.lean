import Mathlib.Data.Rat.Lemmas
import Mathlib.Tactic.Common

/-!
# Platform.Json — JSON values as Python has them

* `Json.eq`: Python's `==`.  Booleans, integers and decimals are compared by value, dictionaries without their
  order.
* `Json.same`: the same document, where `True`, `1` and `1.0` are three.
* `Json.spelled`: a number as the integer it equals, if it does.  Numbers that are `==` are spelled alike.
* `strip`: `str.strip`.
-/

namespace Bekaa3D.Platform

/-- A decoded JSON document.  A dictionary is the list of its entries, each key once. -/
inductive Json where
  | null
  | bool (b : Bool)
  | int (n : ℤ)
  /-- A decimal, by its value. -/
  | float (x : ℚ)
  | str (s : String)
  | list (xs : List Json)
  | dict (entries : List (String × Json))

namespace Json

/-- `type(value).__name__`. -/
def typeName : Json → String
  | null => "NoneType"
  | bool _ => "bool"
  | int _ => "int"
  | float _ => "float"
  | str _ => "str"
  | list _ => "list"
  | dict _ => "dict"

/-- The value of a number, `True` and `False` included. -/
def number : Json → Option ℚ
  | bool b => some (if b then 1 else 0)
  | int n => some n
  | float x => some x
  | _ => none

mutual

/-- `a == b`. -/
def eq : Json → Json → Bool
  | null, null => true
  | str s, str t => s = t
  | list xs, list ys => eqList xs ys
  | dict a, dict b => a.length = b.length && subDict a b
  | bool b, y => y.number = some (if b then 1 else 0)
  | int n, y => y.number = some (n : ℚ)
  | float x, y => y.number = some x
  | _, _ => false
termination_by structural x => x

def eqList : List Json → List Json → Bool
  | [], [] => true
  | x :: xs, y :: ys => x.eq y && eqList xs ys
  | _, _ => false
termination_by structural x => x

/-- Every entry of the first dictionary is one of the second. -/
def subDict : List (String × Json) → List (String × Json) → Bool
  | [], _ => true
  | e :: a, b => entryIn e b && subDict a b
termination_by structural x => x

def entryIn : String × Json → List (String × Json) → Bool
  | (k, v), b => match b.lookup k with
    | some v' => v.eq v'
    | none => false
termination_by structural x => x

end

mutual

/-- The same document, type for type at every depth; the order of a dictionary's entries is none of it. -/
def same : Json → Json → Bool
  | null, null => true
  | bool b, bool b' => b = b'
  | int n, int n' => n = n'
  | float x, float x' => x = x'
  | str s, str t => s = t
  | list xs, list ys => sameList xs ys
  | dict a, dict b => a.length = b.length && sameDict a b
  | _, _ => false
termination_by structural x => x

def sameList : List Json → List Json → Bool
  | [], [] => true
  | x :: xs, y :: ys => x.same y && sameList xs ys
  | _, _ => false
termination_by structural x => x

/-- Every entry of the first dictionary is the same as one of the second. -/
def sameDict : List (String × Json) → List (String × Json) → Bool
  | [], _ => true
  | e :: a, b => sameEntry e b && sameDict a b
termination_by structural x => x

def sameEntry : String × Json → List (String × Json) → Bool
  | (k, v), b => b.any fun e => e.1 = k && v.same e.2
termination_by structural x => x

end

mutual

theorem same_refl : ∀ x : Json, x.same x = true
  | null => rfl
  | bool _ | int _ | float _ | str _ => by simp [same]
  | list xs => by rw [same]; exact sameList_refl xs
  | dict a => by rw [same, sameDict_of_mem a a fun _ h => h]; simp

theorem sameList_refl : ∀ xs : List Json, sameList xs xs = true
  | [] => rfl
  | x :: xs => by rw [sameList, same_refl x, sameList_refl xs]; rfl

theorem sameDict_of_mem : ∀ a b : List (String × Json), (∀ e ∈ a, e ∈ b) → sameDict a b = true
  | [], _, _ => rfl
  | e :: a, b, h => by
    rw [sameDict, sameEntry_of_mem e b (h e (by simp)), sameDict_of_mem a b fun e' he' => h e' (by simp [he'])]
    rfl

theorem sameEntry_of_mem : ∀ (e : String × Json) (b : List (String × Json)), e ∈ b → sameEntry e b = true
  | (k, v), b, h => by
    rw [sameEntry, List.any_eq_true]
    exact ⟨(k, v), h, by simp [same_refl v]⟩

end

theorem sameDict_iff {a b : List (String × Json)} :
    sameDict a b = true ↔ ∀ e ∈ a, ∃ e' ∈ b, e'.1 = e.1 ∧ e.2.same e'.2 = true := by
  induction a with
  | nil => simp [sameDict]
  | cons e a ih =>
    have hentry : sameEntry e b = true ↔ ∃ e' ∈ b, e'.1 = e.1 ∧ e.2.same e'.2 = true := by
      rw [sameEntry, List.any_eq_true]
      simp
    rw [sameDict, Bool.and_eq_true, hentry, ih, List.forall_mem_cons]

theorem subDict_iff {a b : List (String × Json)} :
    subDict a b = true ↔ ∀ e ∈ a, ∃ v, b.lookup e.1 = some v ∧ e.2.eq v = true := by
  induction a with
  | nil => simp [subDict]
  | cons e a ih =>
    have hentry : entryIn e b = true ↔ ∃ v, b.lookup e.1 = some v ∧ e.2.eq v = true := by
      rw [entryIn]
      cases b.lookup e.1 <;> simp
    rw [subDict, Bool.and_eq_true, hentry, ih, List.forall_mem_cons]

/-- Each key of a dictionary is in it once. -/
def Keyed : Json → Prop
  | dict entries => (entries.map Prod.fst).Nodup
  | _ => True

theorem lookup_of_mem {entries : List (String × Json)} (hk : (entries.map Prod.fst).Nodup) {k : String} {v : Json}
    (h : (k, v) ∈ entries) : entries.lookup k = some v := by
  induction entries with
  | nil => cases h
  | cons e entries ih =>
    rw [List.map_cons, List.nodup_cons] at hk
    rcases List.mem_cons.mp h with rfl | h
    · exact List.lookup_cons_self
    · have hne : k ≠ e.1 := fun hne => hk.1 (hne ▸ List.mem_map_of_mem h)
      rw [List.lookup_cons, beq_false_of_ne hne]
      exact ih hk.2 h

theorem mem_of_lookup {entries : List (String × Json)} {k : String} {v : Json} (h : entries.lookup k = some v) :
    (k, v) ∈ entries := by
  obtain ⟨l, l', rfl, -⟩ := List.lookup_eq_some_iff.mp h
  simp

/-- A number as the integer it equals, if it equals one. -/
def spelled : Json → Json
  | bool b => int (if b then 1 else 0)
  | float x => if x.den = 1 then int x.num else float x
  | x => x

theorem spelled_number {x y : Json} {q : ℚ} (hx : x.number = some q) (hy : y.number = some q) :
    x.spelled = y.spelled := by
  -- every number is spelled as its value is
  have value : ∀ {x : Json}, x.number = some q → x.spelled = if q.den = 1 then int q.num else float q := by
    intro x hx
    cases x with
    | bool b => cases b <;> (cases hx; rfl)
    | int n => cases hx; simp [spelled]
    | float x => cases hx; rfl
    | null | str _ | list _ | dict _ => cases hx
  rw [value hx, value hy]

/-- Values of different types that are `==` are numbers. -/
theorem number_of_eq {x y : Json} (h : x.eq y = true) (ht : x.typeName ≠ y.typeName) :
    ∃ q, x.number = some q ∧ y.number = some q := by
  cases x with
  | bool b => exact ⟨_, rfl, by simpa [eq] using h⟩
  | int n => exact ⟨_, rfl, by simpa [eq] using h⟩
  | float q => exact ⟨_, rfl, by simpa [eq] using h⟩
  | null | str _ | list _ | dict _ =>
    cases y <;> first | exact absurd rfl ht | simp [eq] at h

end Json

/-! ## Strings -/

/-- The characters that `str.strip` takes off. -/
def isSpace (c : Char) : Bool :=
  let n := c.toNat
  (9 ≤ n && n ≤ 13) || (28 ≤ n && n ≤ 32) || n = 0x85 || n = 0xa0 || n = 0x1680 || (0x2000 ≤ n && n ≤ 0x200a) ||
    n = 0x2028 || n = 0x2029 || n = 0x202f || n = 0x205f || n = 0x3000

/-- `s.strip()`. -/
def strip (s : String) : String :=
  String.ofList ((s.toList.dropWhile isSpace).reverse.dropWhile isSpace).reverse

end Bekaa3D.Platform
