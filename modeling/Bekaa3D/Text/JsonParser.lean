import Bekaa3D.Text.Json

/-!
# Text.JsonParser — reading JSON text

A recursive-descent parser that accepts the numbers `NaN` and `Infinity`, keeps unpaired surrogates, takes the last
value of a key that is repeated, and gives up on documents that are nested too deep.

* `Numbers ν`: how the text of a number is read.
* `value`, `elements`, `members`: what is read at the beginning of a text.
* `parse`: the document of a text.
-/

namespace Text.Json

/-- A malformed text, or one that is nested too deep. -/
inductive Failure where
  | value
  | recursion
  deriving DecidableEq, Repr

/-- How the text of a number is read; some are refused, such as integers of too many digits. -/
structure Numbers (ν : Type) where
  read : List Char → Option ν

def isBlank (p : Point) : Bool := p = .char ' ' || p = .char '\t' || p = .char '\n' || p = .char '\r'

def skip (s : Str) : Str := s.dropWhile isBlank

/-! ## Strings -/

def hexValue : Point → Option ℕ
  | .char c =>
    if '0' ≤ c ∧ c ≤ '9' then some (c.toNat - 48)
    else if 'a' ≤ c ∧ c ≤ 'f' then some (c.toNat - 87)
    else if 'A' ≤ c ∧ c ≤ 'F' then some (c.toNat - 55)
    else none
  | .surrogate _ => none

def hexValue₄ (a b c d : Point) : Option ℕ := do
  return (((← hexValue a) * 16 + (← hexValue b)) * 16 + (← hexValue c)) * 16 + (← hexValue d)

/-- The character of an escape of one letter. -/
def unescape (p : Point) : Option Char :=
  if p = .char '"' then some '"'
  else if p = .char '\\' then some '\\'
  else if p = .char '/' then some '/'
  else if p = .char 'b' then some (Char.ofNat 8)
  else if p = .char 'f' then some (Char.ofNat 12)
  else if p = .char 'n' then some '\n'
  else if p = .char 'r' then some '\r'
  else if p = .char 't' then some '\t'
  else none

/-- A code point of a string as it is written, or a `\u` escape. -/
inductive Piece where
  | plain (p : Point)
  | escaped (n : ℕ)
  deriving DecidableEq, Repr

/-- The pieces of a string, and what comes after its closing quote. -/
def pieces : Str → Option (List Piece × Str)
  | [] => none
  | p :: rest =>
    if p = .char '"' then some ([], rest)
    else if p = .char '\\' then
      match rest with
      | [] => none
      | q :: rest =>
        if q = .char 'u' then
          match rest with
          | a :: b :: c :: d :: rest => do
            let n ← hexValue₄ a b c d
            let (ps, rest) ← pieces rest
            return (.escaped n :: ps, rest)
          | _ => none
        else do
          let c ← unescape q
          let (ps, rest) ← pieces rest
          return (.plain (.char c) :: ps, rest)
    else if p.code < 0x20 then none
    else do
      let (ps, rest) ← pieces rest
      return (.plain p :: ps, rest)

/-- The code points of pieces; two escapes of partner surrogates are one character. -/
def points : List Piece → Str
  | [] => []
  | .plain p :: ps => p :: points ps
  | [.escaped n] => [.ofCode n]
  | .escaped n :: .escaped m :: ps =>
    if (0xd800 ≤ n ∧ n < 0xdc00) ∧ 0xdc00 ≤ m ∧ m < 0xe000 then
      .char (Char.ofNat (0x10000 + (n - 0xd800) * 1024 + (m - 0xdc00))) :: points ps
    else .ofCode n :: points (.escaped m :: ps)
  | .escaped n :: .plain p :: ps => .ofCode n :: points (.plain p :: ps)

/-- A string after its opening quote. -/
def stringBody (s : Str) : Except Failure (Str × Str) :=
  match pieces s with
  | some (ps, rest) => .ok (points ps, rest)
  | none => .error .value

/-! ## Numbers -/

/-- The decimal digits at the beginning. -/
def digits : Str → List Char × Str
  | .char c :: rest => if c.isDigit then (c :: (digits rest).1, (digits rest).2) else ([], .char c :: rest)
  | s => ([], s)

/-- A point with digits after it, if they are there. -/
def fraction (s : Str) : List Char × Str :=
  match s with
  | p :: rest => if p = .char '.' ∧ (digits rest).1 ≠ [] then ('.' :: (digits rest).1, (digits rest).2) else ([], s)
  | [] => ([], [])

/-- `-` at the beginning, or `+` too. -/
def sign (plus : Bool) (s : Str) : List Char × Str :=
  match s with
  | p :: rest =>
    if p = .char '-' then (['-'], rest) else if plus ∧ p = .char '+' then (['+'], rest) else ([], s)
  | [] => ([], [])

/-- An exponent, if it has digits. -/
def exponent (s : Str) : List Char × Str :=
  match s with
  | p :: rest =>
    let signed := sign true rest
    let ds := digits signed.2
    if p = .char 'e' ∧ ds.1 ≠ [] then ('e' :: signed.1 ++ ds.1, ds.2)
    else if p = .char 'E' ∧ ds.1 ≠ [] then ('E' :: signed.1 ++ ds.1, ds.2)
    else ([], s)
  | [] => ([], [])

/-- An integer part: one zero, or digits that do not begin with one. -/
def integer (s : Str) : Option (List Char × Str) :=
  match s with
  | p :: rest =>
    if p = .char '0' then some (['0'], rest) else if (digits s).1 = [] then none else some (digits s)
  | [] => none

/-- The text of a number at the beginning. -/
def lexeme (s : Str) : Option (List Char × Str) := do
  let (σ, s) := sign false s
  let (int, s) ← integer s
  let (frac, s) := fraction s
  let (exp, s) := exponent s
  return (σ ++ int ++ frac ++ exp, s)

variable {ν : Type} (N : Numbers ν)

def number (text : List Char) : Except Failure (Doc ν) :=
  match N.read text with
  | some x => .ok (.num x)
  | none => .error .value

def literals : List String := ["null", "true", "false", "NaN", "Infinity", "-Infinity"]

def literalValue (w : String) : Except Failure (Doc ν) :=
  if w = "null" then .ok .null
  else if w = "true" then .ok (.bool true)
  else if w = "false" then .ok (.bool false)
  else number N w.toList

/-- A literal or a number. -/
def scalar (s : Str) : Except Failure (Doc ν × Str) :=
  match literals.find? fun w => (ofString w).isPrefixOf s with
  | some w => do return (← literalValue N w, s.drop w.length)
  | none =>
    match lexeme s with
    | some (text, rest) => do return (← number N text, rest)
    | none => .error .value

/-! ## Documents -/

def expect (c : Char) : Str → Except Failure Str
  | p :: rest => if p = .char c then .ok rest else .error .value
  | [] => .error .value

/-- One more entry: in the place of the one with its key, or at the end. -/
def insertEntry (dict : List (Str × Doc ν)) (e : Str × Doc ν) : List (Str × Doc ν) :=
  if dict.any fun e' => e'.1 = e.1 then dict.map fun e' => if e'.1 = e.1 then e else e' else dict ++ [e]

/-- The dictionary of these entries: the last value of a key, in the place of its first one. -/
def dictOf (entries : List (Str × Doc ν)) : List (Str × Doc ν) := entries.foldl insertEntry []

mutual

/-- The value at the beginning, of at most this nesting. -/
def value : ℕ → ℕ → Str → Except Failure (Doc ν × Str)
  | _, 0, _ => .error .value
  | _, _ + 1, [] => .error .value
  | depth, fuel + 1, p :: rest =>
    if p = .char '"' then do
      let (s, rest) ← stringBody rest
      return (.str s, rest)
    else if p = .char '[' then
      match depth with
      | 0 => .error .recursion
      | depth + 1 =>
        match expect ']' (skip rest) with
        | .ok rest => .ok (.arr [], rest)
        | .error _ => do
          let (xs, rest) ← elements depth fuel (skip rest)
          return (.arr xs, rest)
    else if p = .char '\x7b' then
      match depth with
      | 0 => .error .recursion
      | depth + 1 =>
        match expect '\x7d' (skip rest) with
        | .ok rest => .ok (.obj [], rest)
        | .error _ => do
          let (entries, rest) ← members depth fuel (skip rest)
          return (.obj (dictOf entries), rest)
    else scalar N (p :: rest)
termination_by structural _ fuel => fuel

/-- The elements of an array, up to its end. -/
def elements : ℕ → ℕ → Str → Except Failure (List (Doc ν) × Str)
  | _, 0, _ => .error .value
  | depth, fuel + 1, s => do
    let (x, s) ← value depth fuel s
    match expect ',' (skip s) with
    | .ok s => do
      let (xs, s) ← elements depth fuel (skip s)
      return (x :: xs, s)
    | .error _ => do
      let s ← expect ']' (skip s)
      return ([x], s)
termination_by structural _ fuel => fuel

/-- The entries of an object, up to its end. -/
def members : ℕ → ℕ → Str → Except Failure (List (Str × Doc ν) × Str)
  | _, 0, _ => .error .value
  | depth, fuel + 1, s => do
    let s ← expect '"' s
    let (k, s) ← stringBody s
    let s ← expect ':' (skip s)
    let (v, s) ← value depth fuel (skip s)
    match expect ',' (skip s) with
    | .ok s => do
      let (es, s) ← members depth fuel (skip s)
      return ((k, v) :: es, s)
    | .error _ => do
      let s ← expect '\x7d' (skip s)
      return ([(k, v)], s)
termination_by structural _ fuel => fuel

end

/-- The document of a text.  The fuel is more than any text of this length uses. -/
def parse (depth : ℕ) (s : Str) : Except Failure (Doc ν) :=
  if s.head? = some (.char (Char.ofNat 0xfeff)) then .error .value
  else
    match value N depth (2 * s.length + 1) (skip s) with
    | .ok (x, rest) => if skip rest = [] then .ok x else .error .value
    | .error e => .error e

end Text.Json
