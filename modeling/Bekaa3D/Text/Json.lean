import Mathlib.Data.Nat.Notation
import Mathlib.Data.List.Basic
import Mathlib.Tactic.Common

/-!
# Text.Json — JSON documents and their text

* `Point`: a code point of a string, which may be a surrogate without its partner.
* `Doc ν`: a document whose numbers are of the type `ν`.
* `Format.print`: the text of a document, with or without blanks, in ASCII or not.
-/

namespace Text.Json

/-! ## Strings -/

/-- A code point: a character, or the surrogate `0xd800 + n`. -/
inductive Point where
  | char (c : Char)
  | surrogate (n : Fin 2048)
  deriving DecidableEq, Repr

abbrev Str := List Point

/-- The string of these characters. -/
def ofChars (cs : List Char) : Str := cs.map Point.char

def ofString (s : String) : Str := ofChars s.toList

namespace Point

def code : Point → ℕ
  | char c => c.toNat
  | surrogate n => 0xd800 + n

/-- The code point of a number below `0x10000`. -/
def ofCode (n : ℕ) : Point :=
  if h : 0xd800 ≤ n ∧ n < 0xe000 then surrogate ⟨n - 0xd800, by omega⟩ else char (Char.ofNat n)

theorem ofCode_char {c : Char} : ofCode c.toNat = char c := by
  have hc : ¬(0xd800 ≤ c.toNat ∧ c.toNat < 0xe000) := by
    rcases c.valid with h | h
    · have : c.toNat < 0xd800 := h
      omega
    · have : 0xdfff < c.toNat := h.1
      omega
  unfold ofCode
  rw [dif_neg hc, Char.ofNat_toNat]

theorem code_injective : Function.Injective code := by
  have hchar : ∀ (c : Char) (n : Fin 2048), (char c).code ≠ (surrogate n).code := by
    intro c n h
    have hn := n.isLt
    rcases c.valid with hc | hc
    · have : c.toNat < 0xd800 := hc
      simp only [code] at h
      omega
    · have : 0xdfff < c.toNat := hc.1
      simp only [code] at h
      omega
  intro p q h
  cases p with
  | char c =>
    cases q with
    | char d => rw [Char.toNat_inj.mp h]
    | surrogate n => exact absurd h (hchar c n)
  | surrogate n =>
    cases q with
    | char d => exact absurd h.symm (hchar d n)
    | surrogate m =>
      have hnm : (n : ℕ) = m := by simpa [code] using h
      rw [Fin.ext hnm]

end Point

/-- Only characters. -/
def IsText (s : Str) : Prop := ∃ cs, s = ofChars cs

/-! ## Documents -/

inductive Doc (ν : Type) where
  | null
  | bool (b : Bool)
  | num (x : ν)
  | str (s : Str)
  | arr (xs : List (Doc ν))
  | obj (entries : List (Str × Doc ν))

/-! ## Text -/

/-- How a document is written: `ascii` without other characters, `blank` with a blank after `,` and `:`. -/
structure Format where
  ascii : Bool
  blank : Bool

def hexDigit (n : ℕ) : Char := "0123456789abcdef".toList.getD n '0'

/-- Four hexadecimal digits after `\u`. -/
def unicodeEscape (n : ℕ) : Str :=
  ofChars ['\\', 'u', hexDigit (n / 4096 % 16), hexDigit (n / 256 % 16), hexDigit (n / 16 % 16), hexDigit (n % 16)]

/-- The two surrogates of a character from `0x10000` on. -/
def highSurrogate (n : ℕ) : ℕ := 0xd800 + (n - 0x10000) / 1024
def lowSurrogate (n : ℕ) : ℕ := 0xdc00 + (n - 0x10000) % 1024

def escape (ascii : Bool) : Point → Str
  | .surrogate n => if ascii then unicodeEscape (0xd800 + n) else [.surrogate n]
  | .char c =>
    if c = '"' then ofChars ['\\', '"']
    else if c = '\\' then ofChars ['\\', '\\']
    else if c = '\n' then ofChars ['\\', 'n']
    else if c = '\r' then ofChars ['\\', 'r']
    else if c = '\t' then ofChars ['\\', 't']
    else if c.toNat = 12 then ofChars ['\\', 'f']
    else if c.toNat = 8 then ofChars ['\\', 'b']
    else if c.toNat < 0x20 then unicodeEscape c.toNat
    else if ascii ∧ 0x7e < c.toNat then
      if c.toNat < 0x10000 then unicodeEscape c.toNat
      else unicodeEscape (highSurrogate c.toNat) ++ unicodeEscape (lowSurrogate c.toNat)
    else [.char c]

def printString (ascii : Bool) (s : Str) : Str := .char '"' :: s.flatMap (escape ascii) ++ [.char '"']

namespace Format

/-- What stands between two items, and between a key and its value. -/
def separator (fmt : Format) (c : Char) : Str := if fmt.blank then ofChars [c, ' '] else ofChars [c]

variable {ν : Type} (fmt : Format) (text : ν → List Char)

mutual

def print : Doc ν → Str
  | .null => ofString "null"
  | .bool true => ofString "true"
  | .bool false => ofString "false"
  | .num x => ofChars (text x)
  | .str s => printString fmt.ascii s
  | .arr [] => ofChars ['[', ']']
  | .arr (x :: xs) => .char '[' :: print x ++ printItems xs ++ [.char ']']
  | .obj [] => ofChars ['\x7b', '\x7d']
  | .obj (e :: es) => .char '\x7b' :: printEntry e ++ printEntries es ++ [.char '\x7d']
termination_by structural x => x

/-- The further items of an array. -/
def printItems : List (Doc ν) → Str
  | [] => []
  | x :: xs => fmt.separator ',' ++ print x ++ printItems xs
termination_by structural x => x

def printEntry : Str × Doc ν → Str
  | (k, v) => printString fmt.ascii k ++ fmt.separator ':' ++ print v
termination_by structural x => x

/-- The further entries of an object. -/
def printEntries : List (Str × Doc ν) → Str
  | [] => []
  | e :: es => fmt.separator ',' ++ printEntry e ++ printEntries es
termination_by structural x => x

end

end Format

end Text.Json
