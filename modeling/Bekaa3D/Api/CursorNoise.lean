import Bekaa3D.Api.Codecs
import Bekaa3D.Text.Base64Noise

/-!
# Api.CursorNoise — cursors with other characters in between

* `Library.Lawful`: what is documented of the library: texts are read back.
* `decodeText_noisy`, `decodeText_noisy_full`: what a noisy text decodes to.
* `carries`: a cursor is read as its key, and with noise as its key or not at all.
-/

namespace Bekaa3D.Api.Codecs

open Text Text.Json Text.Base64

/-- The library reads what it has written. -/
structure Library.Lawful {T : Type} (L : Library T) : Prop where
  isoformat_chars : ∀ t, ∀ c ∈ (L.isoformat t).toList, c.isDigit ∨ c ∈ "-T:.+".toList
  fromisoformat_isoformat : ∀ t, L.fromisoformat (L.isoformat t) = some (some t)
  int16_hexDigits : ∀ n < 2 ^ 128, L.int16 (ofChars (hexDigits 32 n)) = some n
  depth_pos : 1 ≤ L.depth

/-- Any ASCII character. -/
def Ascii (c : Char) : Prop := c.toNat < 128

/-- Any ASCII character but `=`. -/
def AsciiNoPad (c : Char) : Prop := c.toNat < 128 ∧ c ≠ '='

/-- The cursor is read as its key, and with characters inserted as the same key or not at all. -/
structure Carries {α : Type} (parse : String → Except Raised α) (cursor : String) (key : α) (noise : Char → Prop) :
    Prop where
  exact : parse cursor = .ok key
  noisy : ∀ raw : String, Noisy noise cursor.toList raw.toList → parse raw = .error .value ∨ parse raw = .ok key

/-! ## Text -/

theorem toList_encodeText (s : String) : (encodeText s).toList = encodeStripped s.toUTF8.data.toList := by
  rw [encodeText, String.toList_ofList, rstrip_encode]

/-- With noise, a text decodes to a beginning of itself, if to anything. -/
theorem decodeText_noisy {P : Char → Prop} {s t raw : String} (h : Noisy P (encodeText s).toList raw.toList)
    (hd : decodeText raw = some t) : t.toList <+: s.toList := by
  rw [toList_encodeText] at h
  have hpadded := (h.mono (Q := fun _ => True) fun _ _ => trivial).pad trivial ((4 - raw.length % 4) % 4)
  obtain ⟨bs, hbs, ht⟩ := Option.bind_eq_some_iff.mp hd
  exact prefix_of_bytes (decode_noisy hpadded hbs) ht

/-- Without `=` among the noise, it decodes to itself, if to anything. -/
theorem decodeText_noisy_full {s t raw : String} (h : Noisy AsciiNoPad (encodeText s).toList raw.toList)
    (hd : decodeText raw = some t) : t = s := by
  rw [toList_encodeText] at h
  obtain ⟨bs, hbs, ht⟩ := Option.bind_eq_some_iff.mp hd
  have hbytes := decode_noisy_full (h.mono fun _ hc => hc.2) hbs
  have hself : String.fromUTF8? ⟨s.toUTF8.data.toList.toArray⟩ = some s := dif_pos s.isValidUTF8
  rw [hbytes, hself] at ht
  exact (Option.some.inj ht).symm

/-- A codec of texts carries a key, when it reads the whole text as the key and no proper beginning of it as any. -/
theorem carries_of_prefix {α : Type} {parse : String → Except Raised α} (read : String → Except Raised α)
    (hparse : ∀ raw, parse raw = match decodeText raw with | none => .error .value | some text => read text)
    {text : String} {key : α} (hread : read text = .ok key)
    (hproper : ∀ t : String, t.toList <+: text.toList → t ≠ text → read t = .error .value) {noise : Char → Prop} :
    Carries parse (encodeText text) key noise := by
  refine ⟨by rw [hparse, decodeText_encodeText]; exact hread, fun raw hraw => ?_⟩
  rw [hparse]
  cases hd : decodeText raw with
  | none => exact Or.inl rfl
  | some t =>
    by_cases ht : t = text
    · exact Or.inr (ht ▸ hread)
    · exact Or.inl (hproper t (decodeText_noisy hraw hd) ht)

variable {T : Type} {L : Library T}

/-! ## Cursors by time -/

namespace Stamp

/-- What `_parse_cursor` does with the decoded text. -/
def readText (L : Library T) (decoded : String) : Except Raised (T × Uuid128) :=
  match partition Api.Stamp.separator decoded with
  | none => .error .value
  | some (createdRaw, idRaw) =>
    match L.fromisoformat createdRaw, parseUuid L (ofString idRaw) with
    | some (some createdAt), some id => .ok (createdAt, id)
    | _, _ => .error .value

theorem separator_isoformat (hL : L.Lawful) (t : T) : Api.Stamp.separator ∉ (L.isoformat t).toList := by
  intro hmem
  rcases hL.isoformat_chars t _ hmem with h | h
  · exact absurd h (by decide)
  · exact absurd h (by decide)

/-- A text with the separator, before a text with the separator, has the same part before it. -/
theorem prefix_parts {a b x y : String} (ha : Api.Stamp.separator ∉ a.toList) (hx : Api.Stamp.separator ∉ x.toList)
    (h : (a ++ String.singleton Api.Stamp.separator ++ b).toList <+:
      (x ++ String.singleton Api.Stamp.separator ++ y).toList) : a = x ∧ b.toList <+: y.toList := by
  obtain ⟨rest, hrest⟩ := h
  have heq : a ++ String.singleton Api.Stamp.separator ++ (b ++ String.ofList rest) =
      x ++ String.singleton Api.Stamp.separator ++ y := by
    refine String.toList_inj.mp ?_
    rw [← hrest]
    simp
  have hparts := partition_append hx y
  rw [← heq, partition_append ha] at hparts
  obtain ⟨rfl, rfl⟩ := Prod.mk.inj (Option.some.inj hparts)
  exact ⟨rfl, by simp⟩

theorem carries (hL : L.Lawful) (createdAt : T) (id : Uuid128) (noise : Char → Prop) :
    Carries (parseCursor L) (encodeCursor L createdAt id) (createdAt, id) noise := by
  have hsep := separator_isoformat hL createdAt
  have hid : parseUuid L (ofString (String.ofList (uuidText id))) = some id := by
    rw [ofString, String.toList_ofList]
    exact parseUuid_uuidText (hL.int16_hexDigits id id.isLt)
  refine carries_of_prefix (readText L) (fun raw => rfl) ?_ fun t ht hne => ?_
  · unfold readText
    rw [partition_append hsep]
    dsimp only
    rw [hL.fromisoformat_isoformat, hid]
  · unfold readText
    cases hpart : partition Api.Stamp.separator t with
    | none => rfl
    | some parts =>
      obtain ⟨created, idRaw⟩ := parts
      obtain ⟨rfl, hsep'⟩ := partition_some hpart
      obtain ⟨rfl, hbegins⟩ := prefix_parts hsep' hsep ht
      have hproper : idRaw.toList ≠ uuidText id := by
        intro he
        refine hne ?_
        rw [← he, String.ofList_toList]
      rw [String.toList_ofList] at hbegins
      have hnone : parseUuid L (ofString idRaw) = none := parseUuid_prefix L hbegins hproper
      dsimp only
      rw [hnone]
      split
      · rename_i h1 h2
        cases h2
      · rfl

end Stamp

/-! ## Cursors by name -/

theorem isText_append {s t : Str} (hs : IsText s) (ht : IsText t) : IsText (s ++ t) := by
  obtain ⟨cs, rfl⟩ := hs
  obtain ⟨ds, rfl⟩ := ht
  exact ⟨cs ++ ds, by rw [ofChars, ofChars, ofChars, List.map_append]⟩

theorem isText_ofChars (cs : List Char) : IsText (ofChars cs) := ⟨cs, rfl⟩

theorem isText_cons (c : Char) {s : Str} (hs : IsText s) : IsText (.char c :: s) :=
  isText_append (isText_ofChars [c]) hs

theorem isText_unicodeEscape (n : ℕ) : IsText (unicodeEscape n) := isText_ofChars _

theorem isText_ite {c : Prop} [Decidable c] {s t : Str} (hs : IsText s) (ht : IsText t) :
    IsText (if c then s else t) := by
  by_cases hc : c
  · rw [if_pos hc]
    exact hs
  · rw [if_neg hc]
    exact ht

/-- Escapes are characters, of a surrogate too. -/
theorem isText_escape (p : Point) : IsText (escape true p) := by
  cases p with
  | surrogate n => exact isText_unicodeEscape _
  | char c =>
    unfold escape
    dsimp only
    refine isText_ite (isText_ofChars _) (isText_ite (isText_ofChars _) (isText_ite (isText_ofChars _) ?_))
    refine isText_ite (isText_ofChars _) (isText_ite (isText_ofChars _) (isText_ite (isText_ofChars _) ?_))
    refine isText_ite (isText_ofChars _) (isText_ite (isText_unicodeEscape _) (isText_ite ?_ (isText_ofChars [c])))
    exact isText_ite (isText_unicodeEscape _) (isText_append (isText_unicodeEscape _) (isText_unicodeEscape _))

theorem isText_printString (s : Str) : IsText (printString true s) := by
  have hbody : IsText (s.flatMap (escape true)) := by
    induction s with
    | nil => exact isText_ofChars []
    | cons p s ih => exact isText_append (isText_escape p) ih
  exact isText_cons '"' (isText_append hbody (isText_ofChars ['"']))

namespace Name

theorem isText_dumps (name : Str) (id : Uuid128) : IsText (dumps name id) := by
  have hentry : ∀ k v : Str, IsText (Format.printEntry ⟨true, false⟩ (fun text : List Char => text) (k, .str v)) := by
    intro k v
    rw [Format.printEntry, Format.print]
    exact isText_append (isText_append (isText_printString k) (isText_ofChars [':'])) (isText_printString v)
  unfold dumps
  rw [Format.print, Format.printEntries, Format.printEntries]
  refine isText_append (isText_append (isText_cons _ (hentry _ _)) ?_) (isText_ofChars ['\x7d'])
  exact isText_append (isText_append (isText_ofChars [',']) (hentry _ _)) (isText_ofChars [])

theorem characters_ofChars (cs : List Char) : characters (ofChars cs) = cs := by
  unfold ofChars characters
  rw [List.filterMap_map]
  exact List.filterMap_some

/-- The document is all in characters. -/
theorem ofChars_characters {s : Str} (h : IsText s) : ofChars (characters s) = s := by
  obtain ⟨cs, rfl⟩ := h
  rw [characters_ofChars]

/-- What `_parse_cursor` does with the decoded text. -/
def readText (L : Library T) (decoded : String) : Except Raised (Str × Uuid128) :=
  match parse jsonNumbers L.depth (ofString decoded) with
  | .error .value => .error .value
  | .error .recursion => .error .recursion
  | .ok (.obj payload) =>
    match payload.lookup (ofString "n"), payload.lookup (ofString "i") with
    | some (.str name), some (.str identifier) =>
      match parseUuid L identifier with
      | some id => .ok (name, id)
      | none => .error .value
    | _, _ => .error .value
  | .ok _ => .error .value

/-- A proper beginning of the document is none. -/
theorem parse_beginning {name : Str} {id : Uuid128} {depth : ℕ} {s rest : Str}
    (hread : ∃ x, parse jsonNumbers depth (dumps name id) = .ok x) (hs : s ++ rest = dumps name id)
    (hrest : rest ≠ []) : parse jsonNumbers depth s = .error .value := by
  obtain ⟨x, hread⟩ := hread
  cases hparse : parse jsonNumbers depth s with
  | error e =>
    cases e with
    | value => rfl
    | recursion =>
      have hrec := parse_recursion hparse rest
      rw [hs, hread] at hrec
      cases hrec
  | ok y =>
    have hopen : ∃ r, dumps name id = .char '\x7b' :: r := ⟨_, rfl⟩
    obtain ⟨r, hr⟩ := hopen
    have hclosed : Closed (skip s) := by
      cases s with
      | nil =>
        unfold parse at hparse
        rw [List.head?_nil, if_neg (by simp), skip, List.dropWhile_nil, value_nil] at hparse
        cases hparse
      | cons p s =>
        rw [hr, List.cons_append] at hs
        obtain ⟨rfl, -⟩ := List.cons.inj hs
        rw [skip_cons (by decide)]
        exact ⟨_, _, rfl, Or.inr (Or.inr rfl)⟩
    have hmore := parse_append hparse hclosed rest
    rw [hs, hread] at hmore
    have hblank : skip rest = [] := by
      by_contra hne
      rw [if_neg hne] at hmore
      cases hmore
    -- the document ends with a brace, which is no blank
    have hlast : rest.getLast hrest = .char '\x7d' := by
      have hend : rest <:+ dumps name id := ⟨s, hs⟩
      rw [hend.getLast hrest]
      exact List.getLast_concat
    have := List.dropWhile_eq_nil_iff.mp hblank _ (List.getLast_mem hrest)
    rw [hlast] at this
    exact absurd this (by decide)

theorem parse_dumps (hL : L.Lawful) (cs : List Char) (id : Uuid128) :
    parse jsonNumbers L.depth (dumps (ofChars cs) id) =
      .ok (.obj [(ofString "n", .str (ofChars cs)), (ofString "i", .str (ofChars (uuidText id)))]) := by
  obtain ⟨depth, hdepth⟩ : ∃ d, L.depth = d + 1 := ⟨L.depth - 1, by have := hL.depth_pos; omega⟩
  rw [hdepth]
  have hkeys : ∀ e ∈ [(ofString "n", Doc.str (ofChars cs)), (ofString "i", .str (ofChars (uuidText id)))],
      Writable true e.1 ∧ Readable jsonNumbers (fun text : List Char => text) true depth e.2 := by
    intro e he
    simp only [List.mem_cons, List.not_mem_nil, or_false] at he
    rcases he with rfl | rfl
    · exact ⟨Or.inr (isText_ofChars _), .str (Or.inr (isText_ofChars _))⟩
    · exact ⟨Or.inr (isText_ofChars _), .str (Or.inr (isText_ofChars _))⟩
  have hnodup : [ofString "n", ofString "i"].Nodup := by decide
  have hreadable : Readable jsonNumbers (fun text : List Char => text) (Format.mk true false).ascii (depth + 1)
      (.obj [(ofString "n", .str (ofChars cs)), (ofString "i", .str (ofChars (uuidText id)))]) :=
    .obj hnodup (fun e he => (hkeys e he).1) fun e he => (hkeys e he).2
  exact parse_print hreadable

theorem carries (hL : L.Lawful) (cs : List Char) (id : Uuid128) (noise : Char → Prop) :
    Carries (parseCursor L) (encodeCursor (ofChars cs) id) (ofChars cs, id) noise := by
  have hid : parseUuid L (ofChars (uuidText id)) = some id := parseUuid_uuidText (hL.int16_hexDigits id id.isLt)
  have hall := ofChars_characters (isText_dumps (ofChars cs) id)
  have hdumps := parse_dumps hL cs id
  have hn : ([(ofString "n", Doc.str (ofChars cs)), (ofString "i", .str (ofChars (uuidText id)))] :
      List (Str × Doc (List Char))).lookup (ofString "n") = some (.str (ofChars cs)) := rfl
  have hi : ([(ofString "n", Doc.str (ofChars cs)), (ofString "i", .str (ofChars (uuidText id)))] :
      List (Str × Doc (List Char))).lookup (ofString "i") = some (.str (ofChars (uuidText id))) := rfl
  refine carries_of_prefix (readText L) (fun raw => rfl) ?_ fun t ht hne => ?_
  · unfold readText
    rw [ofString, String.toList_ofList, hall, hdumps]
    dsimp only
    rw [hn, hi]
    dsimp only
    rw [hid]
  · obtain ⟨rest, hrest⟩ := ht
    rw [String.toList_ofList] at hrest
    have hs : ofString t ++ ofChars rest = dumps (ofChars cs) id := by
      rw [← hall, ← hrest, ofString, ofChars, ofChars, ofChars, List.map_append]
    have hrest' : ofChars rest ≠ [] := by
      intro hnil
      have hnil' : rest = [] := List.map_eq_nil_iff.mp hnil
      refine hne ?_
      rw [← hrest, hnil', List.append_nil, String.ofList_toList]
    unfold readText
    rw [parse_beginning ⟨_, hdumps⟩ hs hrest']

end Name

/-! ## Cursors by key -/

theorem Key.carries {key : String} (h : Key.matchesKeyShape key = true) :
    Carries Key.validateCursor (Key.encodeCursor key) key AsciiNoPad := by
  unfold Key.encodeCursor
  refine ⟨?_, fun raw hraw => ?_⟩
  · unfold Key.validateCursor
    rw [decodeText_encodeText]
    exact if_pos h
  · unfold Key.validateCursor
    cases hd : decodeText raw with
    | none => exact Or.inl rfl
    | some t =>
      obtain rfl := decodeText_noisy_full hraw hd
      exact Or.inr (if_pos h)

/-! ## All of them -/

/-- Every cursor of every list carries its key. -/
structure CarriesAll (L : Library T) : Prop where
  stamp : ∀ createdAt id, Carries (Stamp.parseCursor L) (Stamp.encodeCursor L createdAt id) (createdAt, id) Ascii
  name : ∀ cs id, Carries (Name.parseCursor L) (Name.encodeCursor (ofChars cs) id) (ofChars cs, id) Ascii
  key : ∀ key, Key.matchesKeyShape key = true → Carries Key.validateCursor (Key.encodeCursor key) key AsciiNoPad

theorem cursors_carry (hL : L.Lawful) : CarriesAll L :=
  ⟨fun createdAt id => Stamp.carries hL createdAt id Ascii, fun cs id => Name.carries hL cs id Ascii,
    fun _ hkey => Key.carries hkey⟩

/-! ### A small library -/

/-- `int(text, 16)`, of hexadecimal digits. -/
def readHex (s : Str) : Option ℕ :=
  if s = [] then none else s.foldl (fun n p => n.bind fun n => (hexValue p).map fun d => n * 16 + d) (some 0)

theorem foldl_hexDigits (k n a : ℕ) : (ofChars (hexDigits k n)).foldl
    (fun n p => n.bind fun n => (hexValue p).map fun d => n * 16 + d) (some a) = some (a * 16 ^ k + n % 16 ^ k) := by
  induction k generalizing n with
  | zero => simp [hexDigits, ofChars, Nat.mod_one]
  | succ k ih =>
    have hsplit : ofChars (hexDigits (k + 1) n) = ofChars (hexDigits k (n / 16)) ++ [.char (hexDigit (n % 16))] := by
      rw [hexDigits, ofChars, List.map_append]
      rfl
    have hdigits : n % 16 ^ (k + 1) = n / 16 % 16 ^ k * 16 + n % 16 := by
      rw [Nat.pow_succ', Nat.mod_mul]
      omega
    have hdigit : hexValue (.char (hexDigit (n % 16))) = some (n % 16) := hexValue_hexDigit (Nat.mod_lt n (by decide))
    rw [hsplit, List.foldl_append, ih, List.foldl_cons, List.foldl_nil, Option.bind_some, hdigit, Option.map_some,
      hdigits, Nat.pow_succ]
    congr 1
    rw [Nat.add_mul, Nat.mul_assoc, Nat.add_assoc]

theorem readHex_hexDigits {n : ℕ} (hn : n < 2 ^ 128) : readHex (ofChars (hexDigits 32 n)) = some n := by
  have hne : ofChars (hexDigits 32 n) ≠ [] := by
    intro hnil
    have hlen := hexDigits_length 32 n
    rw [List.map_eq_nil_iff.mp hnil] at hlen
    cases hlen
  have hmod : n % 16 ^ 32 = n := Nat.mod_eq_of_lt (lt_of_lt_of_eq hn (Nat.pow_mul 2 4 32))
  unfold readHex
  rw [if_neg hne, foldl_hexDigits, hmod, Nat.zero_mul, Nat.zero_add]

/-- A library that knows two datetimes and a day. -/
def smallLibrary : Library Bool where
  isoformat t := if t then "2026-01-05T10:00:00+00:00" else "2026-01-05T10:00:00.123456+02:00"
  fromisoformat s :=
    if s = "2026-01-05T10:00:00+00:00" then some (some true)
    else if s = "2026-01-05T10:00:00.123456+02:00" then some (some false)
    else if s = "2026-01-05" then some none
    else none
  instant t := if t then 1767607200000000 else 1767600000123456
  int16 := readHex
  depth := 1000

theorem smallLibrary_lawful : smallLibrary.Lawful where
  isoformat_chars t c hc := by
    have hall : ∀ t, (smallLibrary.isoformat t).toList.all (fun c => c.isDigit ∨ c ∈ "-T:.+".toList) = true := by decide
    exact of_decide_eq_true (List.all_eq_true.mp (hall t) c hc)
  fromisoformat_isoformat t := by cases t <;> decide
  int16_hexDigits n hn := by
    unfold smallLibrary
    dsimp only
    exact readHex_hexDigits hn
  depth_pos := by decide

theorem cursors_carry_small :
    Carries (Stamp.parseCursor smallLibrary) (Stamp.encodeCursor smallLibrary false 5) (false, 5) Ascii ∧
      Carries (Name.parseCursor smallLibrary) (Name.encodeCursor (ofString "Lamp | \"small\"") 7)
        (ofString "Lamp | \"small\"", 7) Ascii ∧
      Carries Key.validateCursor (Key.encodeCursor "rfq_expiry_days") "rfq_expiry_days" AsciiNoPad :=
  ⟨(cursors_carry smallLibrary_lawful).stamp false 5,
    (cursors_carry smallLibrary_lawful).name "Lamp | \"small\"".toList 7,
    (cursors_carry smallLibrary_lawful).key "rfq_expiry_days" (by decide)⟩

end Bekaa3D.Api.Codecs
