import Bekaa3D.Text.JsonRoundTrip
import Mathlib.Data.Rat.Lemmas
import Mathlib.Data.List.Lex
import Mathlib.Data.List.Sort

/-!
# Text.PyValue — Python values and their JSON text

* `Value F`: what is built of dictionaries, lists and scalars, with floats of the type `F`; equality is Python's.
* `document`: the document of a value with its keys in order, as `json.dumps` writes it with `sort_keys`.
* `compact`: its text without blanks and with all characters as they are.
* `loads`: the value of a text.
-/

namespace Text.Python

open Text.Json

/-! ## Numbers -/

/-- The value of a number: a rational, an infinity, or none. -/
inductive Magnitude where
  | finite (q : ℚ)
  | infinite (positive : Bool)
  | nan
  deriving DecidableEq

namespace Magnitude

/-- `a == b`. -/
def eq : Magnitude → Magnitude → Bool
  | finite p, finite q => p = q
  | infinite a, infinite b => a = b
  | _, _ => false

/-- `a < b`. -/
def lt : Magnitude → Magnitude → Bool
  | finite p, finite q => p < q
  | finite _, infinite b => b
  | infinite a, finite _ => !a
  | infinite a, infinite b => !a && b
  | _, _ => false

end Magnitude

/-- The floats of the runtime: their text, their value, and how a text is read. -/
structure Floats (F : Type) where
  repr : F → List Char
  magnitude : F → Magnitude
  parse : List Char → F

namespace Floats

variable {F : Type}

def isFinite (R : Floats F) (x : F) : Bool :=
  match R.magnitude x with
  | .finite _ => true
  | _ => false

/-- A finite float is written as a number that is no integer, and read as itself. -/
structure Lawful (R : Floats F) : Prop where
  lexeme : ∀ x, R.isFinite x = true → Lexeme (R.repr x)
  marked : ∀ x, R.isFinite x = true → ∃ c ∈ R.repr x, c = '.' ∨ c = 'e' ∨ c = 'E'
  parse_repr : ∀ x, R.isFinite x = true → R.parse (R.repr x) = x

end Floats

/-- A number of a document. -/
inductive Num (F : Type) where
  | int (n : ℤ)
  | float (x : F)

/-- The most digits of an integer that is written or read. -/
def maxDigits : ℕ := 4300

/-- The digits of a number, with a sign when it is negative. -/
def integerText (n : ℤ) : List Char :=
  if n < 0 then '-' :: Nat.toDigits 10 n.natAbs else Nat.toDigits 10 n.natAbs

def readInteger : List Char → Option ℤ
  | '-' :: ds => if ds.length ≤ maxDigits then some (-(Nat.ofDigitChars 10 ds 0 : ℤ)) else none
  | ds => if ds.length ≤ maxDigits then some (Nat.ofDigitChars 10 ds 0 : ℤ) else none

variable {F : Type} (R : Floats F)

def Num.text : Num F → List Char
  | .int n => integerText n
  | .float x => R.repr x

/-- A number with a point or an exponent is a float, and so are the constants. -/
def numbers : Numbers (Num F) where
  read text :=
    if text = "NaN".toList ∨ text = "Infinity".toList ∨ text = "-Infinity".toList then some (.float (R.parse text))
    else if text.any fun c => c = '.' || c = 'e' || c = 'E' then some (.float (R.parse text))
    else (readInteger text).map Num.int

/-! ## Values -/

inductive Scalar (F : Type) where
  | none
  | bool (b : Bool)
  | int (n : ℤ)
  | float (x : F)
  | str (s : Str)

inductive Value (F : Type) where
  | scalar (a : Scalar F)
  | list (xs : List (Value F))
  /-- A dictionary, in the order of its keys. -/
  | dict (entries : List (Scalar F × Value F))

namespace Scalar

/-- `type(a).__name__`. -/
def typeName : Scalar F → String
  | none => "NoneType"
  | bool _ => "bool"
  | int _ => "int"
  | float _ => "float"
  | str _ => "str"

def magnitude : Scalar F → Option Magnitude
  | bool b => some (.finite (if b then 1 else 0))
  | int n => some (.finite n)
  | float x => some (R.magnitude x)
  | _ => Option.none

/-- `a == b`. -/
def eq : Scalar F → Scalar F → Bool
  | none, none => true
  | str s, str t => s = t
  | a, b =>
    match a.magnitude R, b.magnitude R with
    | some p, some q => p.eq q
    | _, _ => false

/-- `a < b`, of two strings or two numbers. -/
def lt : Scalar F → Scalar F → Bool
  | str s, str t => s.map Point.code < t.map Point.code
  | a, b =>
    match a.magnitude R, b.magnitude R with
    | some p, some q => p.lt q
    | _, _ => false

def isStr : Scalar F → Bool
  | str _ => true
  | _ => false

end Scalar

namespace Value

def typeName : Value F → String
  | scalar a => a.typeName
  | list _ => "list"
  | dict _ => "dict"

mutual

/-- `v == w`. -/
def eq : Value F → Value F → Bool
  | scalar a, scalar b => a.eq R b
  | list xs, list ys => eqItems xs ys
  | dict es, dict fs => es.length = fs.length && eqEntries es fs
  | _, _ => false
termination_by structural v => v

def eqItems : List (Value F) → List (Value F) → Bool
  | [], [] => true
  | x :: xs, y :: ys => eq x y && eqItems xs ys
  | _, _ => false
termination_by structural xs => xs

/-- Every entry has one with its key and its value on the other side. -/
def eqEntries : List (Scalar F × Value F) → List (Scalar F × Value F) → Bool
  | [], _ => true
  | e :: es, fs => eqEntry e fs && eqEntries es fs
termination_by structural es => es

def eqEntry : Scalar F × Value F → List (Scalar F × Value F) → Bool
  | (k, v), fs =>
    match fs.find? fun f => k.eq R f.1 with
    | some f => eq v f.2
    | none => false
termination_by structural e => e

end

/-- The keys of every dictionary are different. -/
inductive Proper : Value F → Prop
  | scalar {a : Scalar F} : Proper (.scalar a)
  | list {xs : List (Value F)} (h : ∀ x ∈ xs, Proper x) : Proper (.list xs)
  | dict {es : List (Scalar F × Value F)} (hkeys : es.Pairwise fun e f => e.1.eq R f.1 = false)
    (h : ∀ e ∈ es, Proper e.2) : Proper (.dict es)

/-- Every key has the property `K`, and every other scalar the property `A`, at any depth. -/
inductive Everywhere (K A : Scalar F → Prop) : Value F → Prop
  | scalar {a : Scalar F} (h : A a) : Everywhere K A (.scalar a)
  | list {xs : List (Value F)} (h : ∀ x ∈ xs, Everywhere K A x) : Everywhere K A (.list xs)
  | dict {es : List (Scalar F × Value F)} (hkeys : ∀ e ∈ es, K e.1) (h : ∀ e ∈ es, Everywhere K A e.2) :
    Everywhere K A (.dict es)

/-- Every key is a string. -/
def StringKeys (v : Value F) : Prop := Everywhere (fun k => k.isStr = true) (fun _ => True) v

/-- The same value, but for the order of the keys of its dictionaries. -/
inductive Reordered : Value F → Value F → Prop
  | scalar {a : Scalar F} : Reordered (.scalar a) (.scalar a)
  | list {xs ys : List (Value F)} (hlength : xs.length = ys.length)
    (h : ∀ i (hx : i < xs.length) (hy : i < ys.length), Reordered (xs.get ⟨i, hx⟩) (ys.get ⟨i, hy⟩)) :
    Reordered (.list xs) (.list ys)
  | dict {es fs : List (Scalar F × Value F)} (partner : Scalar F × Value F → Value F)
    (hlength : es.length = fs.length) (hmem : ∀ e ∈ es, (e.1, partner e) ∈ fs)
    (h : ∀ e ∈ es, Reordered e.2 (partner e)) : Reordered (.dict es) (.dict fs)

end Value

/-! ## Encoding -/

/-- Why a value has no text.  All but the first are a `TypeError` or a `ValueError`. -/
inductive EncodeError (F : Type) where
  | recursion
  | unorderable (keys : List (Scalar F))
  | outOfRange (x : F)
  | tooManyDigits
  /-- A text with a surrogate has no UTF-8. -/
  | surrogates (text : Str)

def integer (n : ℤ) : Except (EncodeError F) ℤ :=
  if (Nat.toDigits 10 n.natAbs).length ≤ maxDigits then .ok n else .error .tooManyDigits

def float (x : F) : Except (EncodeError F) F := if R.isFinite x then .ok x else .error (.outOfRange x)

/-- A key is coerced to a string. -/
def keyText : Scalar F → Except (EncodeError F) Str
  | .none => .ok (ofString "null")
  | .bool b => .ok (ofString (if b then "true" else "false"))
  | .int n => do return ofChars (integerText (← integer n))
  | .float x => do return ofChars (R.repr (← float R x))
  | .str s => .ok s

def scalarDocument : Scalar F → Except (EncodeError F) (Doc (Num F))
  | .none => .ok .null
  | .bool b => .ok (.bool b)
  | .int n => do return .num (.int (← integer n))
  | .float x => do return .num (.float (← float R x))
  | .str s => .ok (.str s)

/-- Keys can be put in order when they are all strings or all numbers. -/
def orderable (keys : List (Scalar F)) : Bool :=
  keys.length ≤ 1 || keys.all Scalar.isStr || keys.all fun k => (k.magnitude R).isSome

/-- The entries in the order of their keys. -/
def sortItems {α : Type} (items : List (Scalar F × α)) : Except (EncodeError F) (List (Scalar F × α)) :=
  if orderable R (items.map Prod.fst) then .ok (items.insertionSort fun a b => b.1.lt R a.1 = false)
  else .error (.unorderable (items.map Prod.fst))

mutual

/-- The document of a value of at most this nesting. -/
def document : ℕ → Value F → Except (EncodeError F) (Doc (Num F))
  | _, .scalar a => scalarDocument R a
  | 0, .list _ => .error .recursion
  | depth + 1, .list xs => do return .arr (← documents depth xs)
  | 0, .dict _ => .error .recursion
  | depth + 1, .dict es => do
    let items ← sortItems R (entryDocuments depth es)
    return .obj (← items.mapM fun e => do return (← keyText R e.1, ← e.2))
termination_by structural _ v => v

def documents : ℕ → List (Value F) → Except (EncodeError F) (List (Doc (Num F)))
  | _, [] => .ok []
  | depth, x :: xs => do return (← document depth x) :: (← documents depth xs)
termination_by structural _ xs => xs

/-- The document of each value, which is looked at in the order of the keys. -/
def entryDocuments : ℕ → List (Scalar F × Value F) → List (Scalar F × Except (EncodeError F) (Doc (Num F)))
  | _, [] => []
  | depth, e :: es => entryDocument depth e :: entryDocuments depth es
termination_by structural _ es => es

def entryDocument : ℕ → Scalar F × Value F → Scalar F × Except (EncodeError F) (Doc (Num F))
  | depth, (k, v) => (k, document depth v)
termination_by structural _ e => e

end

/-- The text of a value, without blanks. -/
def compact (depth : ℕ) (v : Value F) : Except (EncodeError F) Str := do
  return Format.print ⟨false, false⟩ (Num.text R) (← document R depth v)

/-- `text.encode("utf-8")`. -/
def encodeUtf8 (text : Str) : Except (EncodeError F) (List UInt8) :=
  match text.mapM fun p => match p with | .char c => some (String.utf8EncodeChar c) | .surrogate _ => none with
  | some bytes => .ok bytes.flatten
  | none => .error (.surrogates text)

/-! ## Decoding -/

mutual

def ofDoc : Doc (Num F) → Value F
  | .null => .scalar .none
  | .bool b => .scalar (.bool b)
  | .num (.int n) => .scalar (.int n)
  | .num (.float x) => .scalar (.float x)
  | .str s => .scalar (.str s)
  | .arr xs => .list (ofDocs xs)
  | .obj es => .dict (ofEntries es)
termination_by structural x => x

def ofDocs : List (Doc (Num F)) → List (Value F)
  | [] => []
  | x :: xs => ofDoc x :: ofDocs xs
termination_by structural xs => xs

def ofEntries : List (Str × Doc (Num F)) → List (Scalar F × Value F)
  | [] => []
  | e :: es => ofEntry e :: ofEntries es
termination_by structural es => es

def ofEntry : Str × Doc (Num F) → Scalar F × Value F
  | (k, x) => (.str k, ofDoc x)
termination_by structural e => e

end

def loads (depth : ℕ) (text : Str) : Except Failure (Value F) := (parse (numbers R) depth text).map ofDoc

end Text.Python
