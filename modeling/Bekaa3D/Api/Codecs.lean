import Mathlib.Algebra.Group.Nat.Defs
import Bekaa3D.Api.Cursors
import Bekaa3D.Text.JsonRoundTrip

/-!
# Api.Codecs — the cursor decoders, with all that can come of a string

The cursors of `identity/api/admin_users.py` and `engagement/api/notifications.py`, which have one format, of
`catalog/api/reference_data.py` and of `platform/api/settings.py`.

* `Library`: the functions of the standard library that the decoders call.
* `Stamp.parseCursor`, `Name.parseCursor`, `Key.validateCursor`: the decoders, for any string.
* `decoders_safe_iff`: when every decoder either raises a `ValueError` or returns a key that the query can bind.
-/

namespace Bekaa3D.Api.Codecs

open Text Text.Json

/-- A `UUID`. -/
abbrev Uuid128 := Fin (2 ^ 128)

/-- A `ValueError`, which the endpoint answers with 422, or a `RecursionError`, which nothing catches. -/
inductive Raised where
  | value
  | recursion
  deriving DecidableEq, Repr

/-- The datetimes with a time zone are of the type `T`. -/
structure Library (T : Type) where
  isoformat : T → String
  /-- `datetime.fromisoformat`; a datetime without a time zone is `some none`. -/
  fromisoformat : String → Option (Option T)
  /-- The microseconds since 1970-01-01 in UTC. -/
  instant : T → ℤ
  /-- `int(text, 16)`. -/
  int16 : Str → Option ℕ
  /-- The nesting at which `json.loads` gives up. -/
  depth : ℕ

/-! ## Identifiers -/

/-- So many hexadecimal digits of a number. -/
def hexDigits : ℕ → ℕ → List Char
  | 0, _ => []
  | k + 1, n => hexDigits k (n / 16) ++ [hexDigit (n % 16)]

/-- `str` of a `UUID`. -/
def uuidText (id : Uuid128) : List Char :=
  let hex := hexDigits 32 id
  hex.take 8 ++ '-' :: ((hex.drop 8).take 4 ++ '-' :: ((hex.drop 12).take 4 ++ '-' :: ((hex.drop 16).take 4 ++
    '-' :: hex.drop 20)))

/-- What is left of a text after its first points, without the occurrences of a word. -/
def removeFrom (word : Str) : ℕ → Str → Str
  | _, [] => []
  | k + 1, _ :: s => removeFrom word k s
  | 0, p :: s => if word.isPrefixOf (p :: s) then removeFrom word (word.length - 1) s else p :: removeFrom word 0 s

/-- `text.replace(word, "")`. -/
def remove (word : String) (s : Str) : Str := removeFrom (ofString word) 0 s

def isBrace (p : Point) : Bool := p = .char '\x7b' || p = .char '\x7d'

/-- `text.strip` of braces. -/
def stripBraces (s : Str) : Str := ((s.dropWhile isBrace).reverse.dropWhile isBrace).reverse

section Decoders

variable {T : Type} (L : Library T)

/-- `UUID(text)`. -/
def parseUuid (text : Str) : Option Uuid128 :=
  let hex := (stripBraces (remove "uuid:" (remove "urn:" text))).filter fun p => p ≠ .char '-'
  if hex.length ≠ 32 then none
  else (L.int16 hex).bind fun n => if h : n < 2 ^ 128 then some ⟨n, h⟩ else none

/-! ### Reading an identifier back -/

theorem hexDigits_length : ∀ k n, (hexDigits k n).length = k
  | 0, _ => rfl
  | k + 1, n => by rw [hexDigits, List.length_append, hexDigits_length k, List.length_singleton]

/-- A lower case hexadecimal digit. -/
def IsHex (c : Char) : Prop := c ∈ "0123456789abcdef".toList

theorem IsHex.not_hyphen {c : Char} (h : IsHex c) : (!decide (c = '-')) = true := by
  have hall : "0123456789abcdef".toList.all (fun c => !decide (c = '-')) = true := by decide
  exact List.all_eq_true.mp hall c h

theorem isHex_hexDigits {k n : ℕ} {c : Char} (h : c ∈ hexDigits k n) : IsHex c := by
  induction k generalizing n with
  | zero => cases h
  | succ k ih =>
    rw [hexDigits, List.mem_append, List.mem_singleton] at h
    rcases h with h | rfl
    · exact ih h
    · have hall : ∀ m < 16, hexDigit m ∈ "0123456789abcdef".toList := by decide
      exact hall _ (Nat.mod_lt _ (by decide))

/-- The groups of an identifier are all of its digits. -/
theorem groups_eq {α : Type} (xs : List α) : xs.take 8 ++ ((xs.drop 8).take 4 ++ ((xs.drop 12).take 4 ++
    ((xs.drop 16).take 4 ++ xs.drop 20))) = xs := by
  have h12 : xs.drop 12 = (xs.drop 8).drop 4 := by rw [List.drop_drop]
  have h16 : xs.drop 16 = (xs.drop 12).drop 4 := by rw [List.drop_drop]
  have h20 : xs.drop 20 = (xs.drop 16).drop 4 := by rw [List.drop_drop]
  rw [h20, List.take_append_drop, h16, List.take_append_drop, h12, List.take_append_drop, List.take_append_drop]

/-- The digits of an identifier, without the hyphens between them. -/
theorem filter_uuidText (id : Uuid128) : (uuidText id).filter (fun c => !(c = '-')) = hexDigits 32 id := by
  have hkeep : ∀ cs : List Char, (∀ c ∈ cs, c ∈ hexDigits 32 id) → cs.filter (fun c => !(c = '-')) = cs := by
    intro cs hcs
    refine List.filter_eq_self.mpr fun c hc => ?_
    exact (isHex_hexDigits (hcs c hc)).not_hyphen
  have hgroup : ∀ i k, ((hexDigits 32 id).drop i |>.take k).filter (fun c => !(c = '-')) =
      ((hexDigits 32 id).drop i).take k :=
    fun i k => hkeep _ fun c hc => List.mem_of_mem_drop (List.mem_of_mem_take hc)
  have hfirst : ((hexDigits 32 id).take 8).filter (fun c => !(c = '-')) = (hexDigits 32 id).take 8 :=
    hkeep _ fun c hc => List.mem_of_mem_take hc
  have hlast : ((hexDigits 32 id).drop 20).filter (fun c => !(c = '-')) = (hexDigits 32 id).drop 20 :=
    hkeep _ fun c hc => List.mem_of_mem_drop hc
  have hhyphen : ∀ cs : List Char, ('-' :: cs).filter (fun c => !(c = '-')) = cs.filter fun c => !(c = '-') :=
    fun cs => List.filter_cons_of_neg (by simp)
  unfold uuidText
  dsimp only
  rw [List.filter_append, hhyphen, List.filter_append, hhyphen, List.filter_append, hhyphen, List.filter_append,
    hhyphen, hfirst, hgroup, hgroup, hgroup, hlast, groups_eq]

theorem mem_uuidText {id : Uuid128} {c : Char} (h : c ∈ uuidText id) : IsHex c ∨ c = '-' := by
  by_cases hc : c = '-'
  · exact Or.inr hc
  · refine Or.inl (isHex_hexDigits (k := 32) (n := id) ?_)
    rw [← filter_uuidText id, List.mem_filter]
    exact ⟨h, by simpa using hc⟩

/-- The text of an identifier ends with a digit. -/
theorem getLast_uuidText (id : Uuid128) {h : uuidText id ≠ []} : (uuidText id).getLast h ∈ hexDigits 32 id := by
  have hdrop : (hexDigits 32 id).drop 20 ≠ [] := by
    rw [← List.length_pos_iff_ne_nil, List.length_drop, hexDigits_length]
    decide
  have hends : (hexDigits 32 id).drop 20 <:+ uuidText id := by
    unfold uuidText
    exact ((((List.suffix_cons _ _).trans (List.suffix_append _ _)).trans (List.suffix_cons _ _)).trans
      (List.suffix_append _ _)).trans ((((List.suffix_cons _ _).trans (List.suffix_append _ _)).trans
        (List.suffix_cons _ _)).trans (List.suffix_append _ _))
  have hlast : (uuidText id).getLast h = ((hexDigits 32 id).drop 20).getLast hdrop :=
    (hends.getLast hdrop).symm
  rw [hlast]
  exact List.mem_of_mem_drop (List.getLast_mem hdrop)

theorem removeFrom_none {word : Str} {p : Point} {ps : Str} (hword : word = p :: ps) {s : Str} (h : p ∉ s) :
    removeFrom word 0 s = s := by
  induction s with
  | nil => rfl
  | cons q s ih =>
    rw [List.mem_cons, not_or] at h
    have hpre : word.isPrefixOf (q :: s) = false := by
      rw [hword, List.isPrefixOf]
      have hpq : (p == q) = false := by simpa using h.1
      rw [hpq, Bool.false_and]
    rw [removeFrom, hpre, ih h.2]
    rfl

theorem word_urn : ofString "urn:" = .char 'u' :: ofString "rn:" := by decide

theorem word_uuid : ofString "uuid:" = .char 'u' :: ofString "uid:" := by decide

theorem stripBraces_none {s : Str} (h : ∀ p ∈ s, isBrace p = false) : stripBraces s = s := by
  have hkeep : ∀ s : Str, (∀ p ∈ s, isBrace p = false) → s.dropWhile isBrace = s := by
    intro s hs
    cases s with
    | nil => rfl
    | cons p s => rw [List.dropWhile_cons_of_neg (by rw [hs p List.mem_cons_self]; simp)]
  unfold stripBraces
  rw [hkeep s h, hkeep _ fun p hp => h p (List.mem_reverse.mp hp), List.reverse_reverse]

/-- Digits and hyphens are read without anything being removed but the hyphens. -/
theorem parseUuid_eq {T : Type} (L : Library T) {cs : List Char} (h : ∀ c ∈ cs, IsHex c ∨ c = '-') :
    parseUuid L (ofChars cs) =
      if (cs.filter fun c => !(c = '-')).length ≠ 32 then none
      else (L.int16 (ofChars (cs.filter fun c => !(c = '-')))).bind fun n =>
        if h : n < 2 ^ 128 then some ⟨n, h⟩ else none := by
  have hmem : ∀ p ∈ ofChars cs, ∃ c, p = .char c ∧ (c ∈ "0123456789abcdef".toList ∨ c = '-') := by
    intro p hp
    obtain ⟨c, hc, rfl⟩ := List.mem_map.mp hp
    exact ⟨c, rfl, h c hc⟩
  have hu : Point.char 'u' ∉ ofChars cs := by
    intro hu
    obtain ⟨c, hc, hhex⟩ := hmem _ hu
    cases hc
    revert hhex
    decide
  have hbrace : ∀ p ∈ ofChars cs, isBrace p = false := by
    intro p hp
    obtain ⟨c, rfl, hhex⟩ := hmem p hp
    have hall : "0123456789abcdef-".toList.all (fun c => !isBrace (.char c)) = true := by decide
    refine Bool.not_eq_true' _ |>.mp (List.all_eq_true.mp hall c ?_)
    rcases hhex with hhex | rfl
    · exact List.mem_append_left ['-'] hhex
    · decide
  have hfilter : (ofChars cs).filter (fun p => p ≠ .char '-') = ofChars (cs.filter fun c => !(c = '-')) := by
    unfold ofChars
    rw [List.filter_map]
    congr 2
    funext c
    simp
  have hurn : remove "urn:" (ofChars cs) = ofChars cs := removeFrom_none (word_urn) hu
  have huuid : remove "uuid:" (ofChars cs) = ofChars cs := removeFrom_none (word_uuid) hu
  unfold parseUuid
  rw [hurn, huuid, stripBraces_none hbrace]
  dsimp only
  rw [hfilter]
  simp only [ofChars, List.length_map]

/-- An identifier is read back, when its digits are. -/
theorem parseUuid_uuidText {T : Type} {L : Library T} {id : Uuid128}
    (h : L.int16 (ofChars (hexDigits 32 id)) = some id.val) : parseUuid L (ofChars (uuidText id)) = some id := by
  rw [parseUuid_eq L fun c hc => mem_uuidText hc, filter_uuidText, hexDigits_length, if_neg (by simp), h]
  exact dif_pos id.isLt

/-- A proper beginning of an identifier is none: it has too few digits. -/
theorem parseUuid_prefix {T : Type} (L : Library T) {id : Uuid128} {cs : List Char} (hp : cs <+: uuidText id)
    (hne : cs ≠ uuidText id) : parseUuid L (ofChars cs) = none := by
  obtain ⟨rest, hrest⟩ := hp
  have hrest' : rest ≠ [] := by
    rintro rfl
    exact hne (by rw [← hrest, List.append_nil])
  have hmem : ∀ c ∈ cs, IsHex c ∨ c = '-' := fun c hc =>
    @mem_uuidText id c (by rw [← hrest]; exact List.mem_append_left _ hc)
  have hcount : (cs.filter fun c => !(c = '-')).length + (rest.filter fun c => !(c = '-')).length = 32 := by
    rw [← List.length_append, ← List.filter_append, hrest, filter_uuidText, hexDigits_length]
  have hlast : 0 < (rest.filter fun c => !(c = '-')).length := by
    have hdigit : IsHex (rest.getLast hrest') := by
      have heq : rest.getLast hrest' = (uuidText id).getLast (by rw [← hrest]; simp [hrest']) := by
        simp only [← hrest, List.getLast_append_of_ne_nil _ hrest']
      rw [heq]
      exact isHex_hexDigits (getLast_uuidText id)
    refine List.length_pos_of_mem (a := rest.getLast hrest') (List.mem_filter.mpr ⟨List.getLast_mem hrest', ?_⟩)
    exact hdigit.not_hyphen
  rw [parseUuid_eq L hmem, if_pos (by omega)]

/-! ## Cursors by time -/

namespace Stamp

/-- `_encode_cursor`. -/
def encodeCursor (createdAt : T) (id : Uuid128) : String :=
  encodeText (L.isoformat createdAt ++ String.singleton Api.Stamp.separator ++ String.ofList (uuidText id))

/-- `_parse_cursor`. -/
def parseCursor (raw : String) : Except Raised (T × Uuid128) :=
  match decodeText raw with
  | none => .error .value
  | some decoded =>
    match partition Api.Stamp.separator decoded with
    | none => .error .value
    | some (createdRaw, idRaw) =>
      match L.fromisoformat createdRaw, parseUuid L (ofString idRaw) with
      | some (some createdAt), some id => .ok (createdAt, id)
      | _, _ => .error .value

end Stamp

/-! ## Cursors by name -/

/-- The numbers of a document, as they are written; an integer of too many digits is refused. -/
def jsonNumbers : Numbers (List Char) where
  read text :=
    if (text.all fun c => c.isDigit || c = '-') && 4300 < (text.filter Char.isDigit).length then none else some text

namespace Name

/-- `json.dumps({"n": name, "i": str(value_id)}, separators=(",", ":"))`, which is ASCII. -/
def dumps (name : Str) (valueId : Uuid128) : Str :=
  Format.print ⟨true, false⟩ (fun text : List Char => text)
    (.obj [(ofString "n", .str name), (ofString "i", .str (ofChars (uuidText valueId)))])

/-- The characters of a string. -/
def characters (s : Str) : List Char :=
  s.filterMap fun p => match p with | .char c => some c | .surrogate _ => none

/-- `_encode_cursor`. -/
def encodeCursor (name : Str) (valueId : Uuid128) : String :=
  encodeText (String.ofList (characters (dumps name valueId)))

/-- `_parse_cursor`. -/
def parseCursor (raw : String) : Except Raised (Str × Uuid128) :=
  match decodeText raw with
  | none => .error .value
  | some decoded =>
    match parse jsonNumbers L.depth (ofString decoded) with
    | .error .value => .error .value
    | .error .recursion => .error .recursion
    | .ok (.obj payload) =>
      match payload.lookup (ofString "n"), payload.lookup (ofString "i") with
      | some (.str name), some (.str identifier) =>
        match parseUuid L identifier with
        | some id => .ok (name, id)
        | none => .error .value
      | _, _ => .error .value
    | .ok _ => .error .value

end Name

/-! ## Cursors by key -/

namespace Key

def isKeyChar (c : Char) : Bool := ('a' ≤ c && c ≤ 'z') || ('0' ≤ c && c ≤ '9') || c = '_'

/-- `^[a-z][a-z0-9_]*$`, where `$` stands before a newline at the end too. -/
def matchesKeyShape (s : String) : Bool :=
  match s.toList with
  | [] => false
  | c :: cs => ('a' ≤ c && c ≤ 'z') && (cs.dropWhile isKeyChar = [] || cs.dropWhile isKeyChar = ['\n'])

/-- `_encode_cursor`. -/
def encodeCursor (key : String) : String := encodeText key

/-- `_validate_cursor`. -/
def validateCursor (raw : String) : Except Raised String :=
  match decodeText raw with
  | none => .error .value
  | some decoded => if matchesKeyShape decoded then .ok decoded else .error .value

end Key

end Decoders

/-! ## Hostile strings -/

/-- The first and the last microsecond of the years 1 to 9999 in UTC. -/
def firstInstant : ℤ := -62135596800000000
def lastInstant : ℤ := 253402300799999999

/-- A timestamp that the driver converts. -/
def Representable (t : ℤ) : Prop := firstInstant ≤ t ∧ t ≤ lastInstant

instance (t : ℤ) : Decidable (Representable t) := inferInstanceAs (Decidable (firstInstant ≤ t ∧ t ≤ lastInstant))

/-- A text that the driver encodes and the database accepts. -/
def Bindable (s : Str) : Prop := Point.char (Char.ofNat 0) ∉ s ∧ ∀ n, Point.surrogate n ∉ s

/-- A `ValueError`, or a key that the query can bind. -/
def Safe {α : Type} (bindable : α → Prop) : Except Raised α → Prop
  | .ok a => bindable a
  | .error .value => True
  | .error .recursion => False

section Safety

variable {T : Type} (L : Library T) (raw : String)

/-- No decoder lets the string crash its list. -/
structure Safely : Prop where
  stamp : Safe (fun k => Representable (L.instant k.1)) (Stamp.parseCursor L raw)
  name : Safe (fun k => Bindable k.1) (Name.parseCursor L raw)
  key : Safe (fun k => Key.matchesKeyShape k = true ∧ Bindable (ofString k)) (Key.validateCursor raw)

/-- The string is not the cursor of a timestamp that leaves the years 1 to 9999 in UTC, not a text whose brackets are
nested too deep, and not the cursor of a name with a U+0000 or a surrogate. -/
structure Harmless : Prop where
  stamp : ∀ created id t, decodeText raw = some (created ++ String.singleton Api.Stamp.separator ++ id) →
    Api.Stamp.separator ∉ created.toList → L.fromisoformat created = some (some t) →
    parseUuid L (ofString id) ≠ none → Representable (L.instant t)
  nesting : ∀ text, decodeText raw = some text → parse jsonNumbers L.depth (ofString text) ≠ .error .recursion
  name : ∀ text payload name identifier, decodeText raw = some text →
    parse jsonNumbers L.depth (ofString text) = .ok (.obj payload) → payload.lookup (ofString "n") = some (.str name) →
    payload.lookup (ofString "i") = some (.str identifier) → parseUuid L identifier ≠ none → Bindable name

variable {L raw}

/-- The two parts of a text around the separator. -/
theorem partition_some {separator : Char} {s a b : String} (h : partition separator s = some (a, b)) :
    s = a ++ String.singleton separator ++ b ∧ separator ∉ a.toList := by
  unfold partition at h
  split at h
  · rename_i hmem
    obtain ⟨rfl, rfl⟩ := Prod.mk.inj (Option.some.inj h)
    have hsplit := List.takeWhile_append_dropWhile (p := (· ≠ separator)) (l := s.toList)
    cases hdrop : s.toList.dropWhile (· ≠ separator) with
    | nil =>
      rw [List.dropWhile_eq_nil_iff] at hdrop
      have := hdrop separator hmem
      simp at this
    | cons c cs =>
      have hc : c = separator := by
        have := List.head?_dropWhile_not (· ≠ separator) s.toList
        rw [hdrop] at this
        simpa using this
      refine ⟨String.toList_inj.mp ?_, ?_⟩
      · rw [hdrop] at hsplit
        subst hc
        simpa using hsplit.symm
      · rw [String.toList_ofList]
        intro h
        simpa using List.mem_takeWhile_imp h
  · cases h

/-- A timestamp and an identifier that are read make a cursor that is. -/
theorem Stamp.parse_parts {created id : String} {t : T} {i : Uuid128} (hsep : Api.Stamp.separator ∉ created.toList)
    (ht : L.fromisoformat created = some (some t)) (hid : parseUuid L (ofString id) = some i) :
    Stamp.parseCursor L (encodeText (created ++ String.singleton Api.Stamp.separator ++ id)) = .ok (t, i) := by
  unfold Stamp.parseCursor
  rw [decodeText_encodeText]
  dsimp only
  rw [partition_append hsep]
  dsimp only
  rw [ht, hid]

theorem Stamp.safe_iff : Safe (fun k => Representable (L.instant k.1)) (Stamp.parseCursor L raw) ↔
    ∀ created id t, decodeText raw = some (created ++ String.singleton Api.Stamp.separator ++ id) →
      Api.Stamp.separator ∉ created.toList → L.fromisoformat created = some (some t) →
      parseUuid L (ofString id) ≠ none → Representable (L.instant t) := by
  unfold Stamp.parseCursor
  constructor
  · intro h created id t hdecoded hsep ht hid
    obtain ⟨id', hid'⟩ := Option.ne_none_iff_exists'.mp hid
    rw [hdecoded] at h
    dsimp only at h
    rw [partition_append hsep] at h
    dsimp only at h
    rw [ht, hid'] at h
    exact h
  · intro h
    cases hdecoded : decodeText raw with
    | none => trivial
    | some decoded =>
      dsimp only
      cases hpart : partition Api.Stamp.separator decoded with
      | none => trivial
      | some parts =>
        obtain ⟨created, id⟩ := parts
        obtain ⟨rfl, hsep⟩ := partition_some hpart
        dsimp only
        cases ht : L.fromisoformat created with
        | none => trivial
        | some t =>
          cases t with
          | none => trivial
          | some t =>
            cases hid : parseUuid L (ofString id) with
            | none => trivial
            | some id' => exact h created id t hdecoded hsep ht (by rw [hid]; simp)

theorem Name.safe_iff : Safe (fun k => Bindable k.1) (Name.parseCursor L raw) ↔
    (∀ text, decodeText raw = some text → parse jsonNumbers L.depth (ofString text) ≠ .error .recursion) ∧
      ∀ text payload name identifier, decodeText raw = some text →
        parse jsonNumbers L.depth (ofString text) = .ok (.obj payload) →
        payload.lookup (ofString "n") = some (.str name) → payload.lookup (ofString "i") = some (.str identifier) →
        parseUuid L identifier ≠ none → Bindable name := by
  unfold Name.parseCursor
  constructor
  · intro h
    refine ⟨fun text htext hrec => ?_, fun text payload name identifier htext hparse hn hi hid => ?_⟩
    · rw [htext] at h
      dsimp only at h
      rw [hrec] at h
      exact h
    · obtain ⟨id, hid⟩ := Option.ne_none_iff_exists'.mp hid
      rw [htext] at h
      dsimp only at h
      rw [hparse] at h
      dsimp only at h
      rw [hn, hi] at h
      dsimp only at h
      rw [hid] at h
      exact h
  · rintro ⟨hnest, hname⟩
    cases htext : decodeText raw with
    | none => trivial
    | some text =>
      dsimp only
      cases hparse : parse jsonNumbers L.depth (ofString text) with
      | error e =>
        cases e with
        | value => trivial
        | recursion => exact absurd hparse (hnest text htext)
      | ok doc =>
        cases doc with
        | obj payload =>
          dsimp only
          cases hn : payload.lookup (ofString "n") with
          | none => trivial
          | some n =>
            cases hi : payload.lookup (ofString "i") with
            | none => cases n <;> trivial
            | some i =>
              cases n with
              | str name =>
                cases i with
                | str identifier =>
                  dsimp only
                  cases hid : parseUuid L identifier with
                  | none => trivial
                  | some id => exact hname text payload name identifier htext hparse hn hi (by rw [hid]; simp)
                | null => trivial
                | bool b => trivial
                | num x => trivial
                | arr xs => trivial
                | obj es => trivial
              | null => trivial
              | bool b => trivial
              | num x => trivial
              | arr xs => trivial
              | obj es => trivial
        | null => trivial
        | bool b => trivial
        | num x => trivial
        | str t => trivial
        | arr xs => trivial

/-- Text of the language has no surrogates. -/
theorem bindable_ofString {s : String} : Bindable (ofString s) ↔ Char.ofNat 0 ∉ s.toList := by
  constructor
  · intro h hzero
    exact h.1 (List.mem_map_of_mem hzero)
  · intro h
    refine ⟨fun hmem => ?_, fun n hmem => ?_⟩
    · obtain ⟨c, hc, hzero⟩ := List.mem_map.mp hmem
      cases hzero
      exact h hc
    · obtain ⟨c, -, hc⟩ := List.mem_map.mp hmem
      cases hc

theorem Key.bindable {key : String} (h : matchesKeyShape key = true) : Bindable (ofString key) := by
  refine bindable_ofString.mpr fun hc => ?_
  unfold matchesKeyShape at h
  cases hkey : key.toList with
  | nil => rw [hkey] at hc; cases hc
  | cons d ds =>
    rw [hkey] at h hc
    simp only [Bool.and_eq_true, Bool.or_eq_true, decide_eq_true_eq] at h
    rcases List.mem_cons.mp hc with hd | hc
    · rw [← hd] at h
      exact absurd h.1.1 (by decide)
    · rw [← List.takeWhile_append_dropWhile (p := isKeyChar) (l := ds)] at hc
      rcases List.mem_append.mp hc with hc | hc
      · have := List.mem_takeWhile_imp hc
        exact absurd this (by decide)
      · rcases h.2 with h | h
        · rw [h] at hc
          cases hc
        · rw [h, List.mem_singleton] at hc
          exact absurd hc (by decide)

theorem Key.safe : Safe (fun k => Key.matchesKeyShape k = true ∧ Bindable (ofString k)) (Key.validateCursor raw) := by
  unfold Key.validateCursor
  cases decodeText raw with
  | none => trivial
  | some decoded =>
    dsimp only
    split
    · rename_i h
      exact ⟨h, Key.bindable h⟩
    · trivial

/-- A string crashes no list exactly when it is harmless. -/
theorem decoders_safe_iff (L : Library T) (raw : String) : Safely L raw ↔ Harmless L raw :=
  ⟨fun h => ⟨Stamp.safe_iff.mp h.stamp, (Name.safe_iff.mp h.name).1, (Name.safe_iff.mp h.name).2⟩,
    fun h => ⟨Stamp.safe_iff.mpr h.stamp, Name.safe_iff.mpr ⟨h.nesting, h.name⟩, Key.safe⟩⟩

theorem Stamp.not_safely {t : T} {id : Uuid128} (h : Stamp.parseCursor L raw = .ok (t, id))
    (ht : ¬Representable (L.instant t)) : ¬Safely L raw := by
  intro hsafe
  have hstamp := hsafe.stamp
  rw [h] at hstamp
  exact ht hstamp

end Safety

/-! ### A hostile cursor -/

/-- Midnight of the first day of the year 1, a minute less than a day ahead of UTC. -/
def hostileStamp : String := "0001-01-01T00:00:00+23:59"

/-- A library with one datetime. -/
def hostileLibrary : Library ℤ where
  isoformat _ := hostileStamp
  fromisoformat s := if s = hostileStamp then some (some (firstInstant - (23 * 3600 + 59 * 60) * 1000000)) else none
  instant t := t
  int16 s := if s.all fun p => p = .char '0' then some 0 else none
  depth := 1000

/-- Its cursor, with an identifier of zeros. -/
def hostileCursor : String :=
  encodeText (hostileStamp ++ String.singleton Api.Stamp.separator ++ String.ofList (uuidText 0))

/-- The cursor is accepted. -/
theorem hostile_parse : Stamp.parseCursor hostileLibrary hostileCursor =
    .ok (firstInstant - (23 * 3600 + 59 * 60) * 1000000, 0) := by
  have hsep : Api.Stamp.separator ∉ hostileStamp.toList := by decide
  have hiso : hostileLibrary.fromisoformat hostileStamp =
      some (some (firstInstant - (23 * 3600 + 59 * 60) * 1000000)) := by simp only [hostileLibrary, if_true]
  have hint : hostileLibrary.int16 (ofChars (hexDigits 32 (0 : Uuid128).val)) = some (0 : Uuid128).val := by
    simp [hostileLibrary, hexDigits, ofChars, hexDigit]
  have huuid : parseUuid hostileLibrary (ofString (String.ofList (uuidText 0))) = some 0 := by
    rw [ofString, String.toList_ofList]
    exact parseUuid_uuidText hint
  exact Stamp.parse_parts hsep hiso huuid

/-- And the driver cannot convert its timestamp. -/
theorem hostile_cursor_accepted : ¬Safely hostileLibrary hostileCursor := by
  have hunrepresentable : ¬Representable (hostileLibrary.instant (firstInstant - (23 * 3600 + 59 * 60) * 1000000)) :=
    fun h => absurd h.1 (by decide)
  exact Stamp.not_safely hostile_parse hunrepresentable

end Bekaa3D.Api.Codecs
