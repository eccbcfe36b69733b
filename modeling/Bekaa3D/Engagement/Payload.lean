import Bekaa3D.Text.PyDumps
import Bekaa3D.Platform.Json

/-!
# Engagement.Payload — what a notification payload is allowed to be

* `validatePayload`: the payload, or every reason why it is none.
* `payload_size`: size and verdict do not depend on the order of keys, at any depth.
* `accepted_stored_iff`: an accepted payload is stored as it was written exactly when all its keys are strings, at any
  depth, and nothing in it holds a U+0000.
-/

namespace Bekaa3D.Engagement

open Text.Json Text.Python

variable {F : Type}

/-- The JSON module of the runtime: its floats, the nesting at which it gives up, and the texts of its errors. -/
structure Runtime (F : Type) where
  floats : Floats F
  depth : ℕ
  describe : EncodeError F → String

inductive PayloadError where
  /-- `InvalidNotificationPayloadError`. -/
  | invalid (reasons : List String)
  /-- A `RecursionError`, which nothing catches. -/
  | recursion
  deriving DecidableEq

def maxPayloadBytes : ℕ := 16 * 1024

def eventKey : Str := ofString "event"

/-- `str.isspace` of a code point. -/
def isSpacePoint : Point → Bool
  | .char c => Platform.isSpace c
  | .surrogate _ => false

/-- `s.strip()`. -/
def strip (s : Str) : Str := ((s.dropWhile isSpacePoint).reverse.dropWhile isSpacePoint).reverse

variable (R : Runtime F)

/-- A Python value that there can be: the keys of each of its dictionaries are different. -/
abbrev Payload := {v : Value F // v.Proper R.floats}

def compactJson (v : Value F) : Except (EncodeError F) Str := compact R.floats R.depth v

def encoded (v : Value F) : Except (EncodeError F) (List UInt8) := do encodeUtf8 (← compactJson R v)

/-- `payload.get(EVENT_KEY)`. -/
def getEvent (entries : List (Scalar F × Value F)) : Option (Value F) :=
  (entries.find? fun e => (Scalar.str eventKey).eq R.floats e.1).map Prod.snd

def eventReasons (entries : List (Scalar F × Value F)) : List String :=
  match getEvent R entries with
  | none => ["payload must contain 'event'"]
  | some (.scalar .none) => ["payload must contain 'event'"]
  | some (.scalar (.str s)) => if strip s = [] then ["payload 'event' must not be empty"] else []
  | some v =>
    let kind := v.typeName
    [s!"payload 'event' must be a string, got {kind}"]

def sizeReasons (v : Value F) : Except PayloadError (List String) :=
  match encoded R v with
  | .ok bytes =>
    let size := bytes.length
    .ok (if maxPayloadBytes < size then [s!"payload is {size} bytes, above the {maxPayloadBytes}-byte limit"] else [])
  | .error .recursion => .error .recursion
  | .error e =>
    let exc := R.describe e
    .ok [s!"payload must be JSON-serialisable: {exc}"]

def validatePayload : Value F → Except PayloadError (Value F)
  | .dict entries =>
    match entries.find? fun e => !e.1.isStr with
    | some e =>
      let kind := e.1.typeName
      .error (.invalid [s!"payload keys must be strings, got {kind}"])
    | none => do
      let reasons := eventReasons R entries ++ (← sizeReasons R (.dict entries))
      if reasons = [] then return .dict entries else .error (.invalid reasons)
  | v =>
    let kind := v.typeName
    .error (.invalid [s!"payload must be a JSON object, got {kind}"])

/-! ## Sample payloads -/

/-- A runtime with two floats: a half, and no number. -/
def sampleRuntime : Runtime Bool where
  floats :=
    { repr := fun x => if x then "nan".toList else "0.5".toList
      magnitude := fun x => if x then .nan else .finite (1 / 2)
      parse := fun text => text ≠ "0.5".toList }
  depth := 100
  describe _ := "value cannot be encoded"

theorem sampleRuntime_lawful : sampleRuntime.floats.Lawful where
  lexeme x h := by
    cases x with
    | false => exact (by decide : Lexeme "0.5".toList)
    | true => cases h
  marked x h := by
    cases x with
    | false => exact ⟨'.', by decide, Or.inl rfl⟩
    | true => cases h
  parse_repr x h := by
    cases x with
    | false => decide
    | true => cases h

def sampleStr (s : String) : Scalar Bool := .str (ofString s)

/-- The dictionary of these entries, with different string keys. -/
def sampleDict (es : List (String × Value Bool)) : Value Bool := .dict (es.map fun e => (sampleStr e.1, e.2))

theorem sampleDict_proper {es : List (String × Value Bool)} (hkeys : (es.map Prod.fst).Nodup)
    (h : ∀ e ∈ es, e.2.Proper sampleRuntime.floats) : (sampleDict es).Proper sampleRuntime.floats := by
  refine .dict ?_ fun e he => ?_
  · rw [List.pairwise_map]
    rw [List.Nodup, List.pairwise_map] at hkeys
    refine hkeys.imp fun {e f} hne => ?_
    have hstr : ofString e.1 ≠ ofString f.1 := fun heq =>
      hne (String.ext (List.map_injective_iff.mpr (fun _ _ hc => Point.char.inj hc) heq))
    simpa [sampleStr, Scalar.eq] using hstr
  · obtain ⟨d, hd, rfl⟩ := List.mem_map.mp he
    exact h d hd

/-- `{"event": "a", "d": {"b": 1, "a": 0.5}}`. -/
def samplePayload : Payload sampleRuntime :=
  ⟨sampleDict [("event", .scalar (sampleStr "a")),
      ("d", sampleDict [("b", .scalar (.int 1)), ("a", .scalar (.float false))])],
    sampleDict_proper (by decide) (List.forall_mem_cons.mpr ⟨.scalar, List.forall_mem_cons.mpr
      ⟨sampleDict_proper (by decide) (List.forall_mem_cons.mpr ⟨.scalar, List.forall_mem_cons.mpr ⟨.scalar, by simp⟩⟩),
        by simp⟩⟩)⟩

/-- The same with its keys in the other order, in both dictionaries. -/
def samplePayload' : Payload sampleRuntime :=
  ⟨sampleDict [("d", sampleDict [("a", .scalar (.float false)), ("b", .scalar (.int 1))]),
      ("event", .scalar (sampleStr "a"))],
    sampleDict_proper (by decide) (List.forall_mem_cons.mpr
      ⟨sampleDict_proper (by decide) (List.forall_mem_cons.mpr ⟨.scalar, List.forall_mem_cons.mpr ⟨.scalar, by simp⟩⟩),
        List.forall_mem_cons.mpr ⟨.scalar, by simp⟩⟩)⟩

theorem validatePayload_sample : validatePayload sampleRuntime samplePayload.1 = .ok samplePayload.1 := rfl

variable {R}

/-! ## Size -/

/-- What is accepted is returned as it is, and is small enough. -/
theorem validatePayload_ok {v u : Value F} (h : validatePayload R v = .ok u) :
    u = v ∧ ∃ bytes, encoded R v = .ok bytes ∧ bytes.length ≤ maxPayloadBytes := by
  unfold validatePayload at h
  split at h
  · rename_i entries
    split at h
    · cases h
    · obtain ⟨sizes, hsizes, h⟩ := bind_ok.mp h
      dsimp only at h
      split at h
      · rename_i hreasons
        cases h
        obtain ⟨-, rfl⟩ := List.append_eq_nil_iff.mp hreasons
        refine ⟨rfl, ?_⟩
        unfold sizeReasons at hsizes
        split at hsizes
        · rename_i bytes hbytes
          refine ⟨bytes, hbytes, Nat.le_of_not_lt fun hlarge => ?_⟩
          dsimp only at hsizes
          rw [if_pos hlarge] at hsizes
          cases hsizes
        · cases hsizes
        · cases hsizes
      · cases h
  · cases h

theorem eq_str {a : Scalar F} {s : Str} : a.eq R.floats (.str s) = true ↔ a = .str s := by
  cases a with
  | str t => simp [Scalar.eq]
  | none => simp [Scalar.eq, Scalar.magnitude]
  | bool b => simp [Scalar.eq, Scalar.magnitude]
  | int n => simp [Scalar.eq, Scalar.magnitude]
  | float x => simp [Scalar.eq, Scalar.magnitude]

theorem str_eq {a : Scalar F} {s : Str} : (Scalar.str s).eq R.floats a = true ↔ a = .str s := by
  cases a with
  | str t => simp [Scalar.eq, eq_comm]
  | none => simp [Scalar.eq, Scalar.magnitude]
  | bool b => simp [Scalar.eq, Scalar.magnitude]
  | int n => simp [Scalar.eq, Scalar.magnitude]
  | float x => simp [Scalar.eq, Scalar.magnitude]

/-- Only one entry has the key. -/
theorem getEvent_iff {entries : List (Scalar F × Value F)} (hkeys : (entries.map Prod.fst).Nodup) {v : Value F} :
    getEvent R entries = some v ↔ (.str eventKey, v) ∈ entries := by
  unfold getEvent
  constructor
  · intro h
    obtain ⟨e, he, rfl⟩ := Option.map_eq_some_iff.mp h
    have hk := str_eq.mp (List.find?_some (p := fun e : Scalar F × Value F => (Scalar.str eventKey).eq R.floats e.1) he)
    rw [← hk]
    exact List.mem_of_find?_eq_some he
  · intro h
    cases hfind : entries.find? fun e => (Scalar.str eventKey).eq R.floats e.1 with
    | none => exact absurd (str_eq.mpr rfl) (List.find?_eq_none.mp hfind _ h)
    | some e =>
      have hk := str_eq.mp (List.find?_some (p := fun e : Scalar F × Value F => (Scalar.str eventKey).eq R.floats e.1) hfind)
      have hsame : e = (.str eventKey, v) := List.inj_on_of_nodup_map hkeys (List.mem_of_find?_eq_some hfind) h hk
      rw [hsame, Option.map_some]

/-- The event is found, or not, in either order of the keys. -/
theorem eventReasons_reordered {es fs : List (Scalar F × Value F)} {partner : Scalar F × Value F → Value F}
    (hkeys : (es.map Prod.fst).Nodup) (hlength : es.length = fs.length) (hmem : ∀ e ∈ es, (e.1, partner e) ∈ fs)
    (h : ∀ e ∈ es, e.2.Reordered (partner e)) : eventReasons R es = eventReasons R fs := by
  have hperm := partners_perm hkeys hlength hmem
  have hkeys' : (fs.map Prod.fst).Nodup := by
    refine (hperm.map Prod.fst).nodup_iff.mp ?_
    rw [List.map_map]
    exact hkeys
  unfold eventReasons
  cases hes : getEvent R es with
  | none =>
    have hfs : getEvent R fs = none := by
      refine Option.eq_none_iff_forall_ne_some.mpr fun w hw => ?_
      have hw' := (getEvent_iff hkeys').mp hw
      obtain ⟨e, he, heq⟩ := List.mem_map.mp (hperm.mem_iff.mpr hw')
      have hk : e.1 = .str eventKey := (Prod.ext_iff.mp heq).1
      have hmem' : (.str eventKey, e.2) ∈ es := by
        rw [← hk]
        exact he
      rw [(getEvent_iff hkeys).mpr hmem'] at hes
      cases hes
    rw [hfs]
  | some v =>
    have hv := (getEvent_iff hkeys).mp hes
    have hfs : getEvent R fs = some (partner (.str eventKey, v)) := (getEvent_iff hkeys').mpr (hmem _ hv)
    have hvw := h _ hv
    rw [hfs]
    dsimp only at hvw
    generalize partner (.str eventKey, v) = w at hvw ⊢
    cases hvw with
    | scalar => rfl
    | list hlength h => rfl
    | dict partner hlength hmem h => rfl

/-- Two payloads that are measured and judged alike. -/
structure SameSize (R : Runtime F) (v w : Value F) : Prop where
  text : compactJson R v = compactJson R w
  size : (encoded R v).map List.length = (encoded R w).map List.length
  verdict : (validatePayload R v).map (fun _ => ()) = (validatePayload R w).map fun _ => ()

/-- Size and verdict depend on the content only, and what is accepted is small enough. -/
theorem payload_size (R : Runtime F) :
    (∀ v w : Payload R, v.1.StringKeys → v.1.Reordered w.1 → SameSize R v.1 w.1) ∧
      ∀ (v : Payload R) (u : Value F), validatePayload R v.1 = .ok u →
        ∃ bytes, encoded R v.1 = .ok bytes ∧ bytes.length ≤ maxPayloadBytes := by
  refine ⟨fun ⟨v, hv⟩ ⟨w, hw⟩ hs h => ?_, fun v u h => (validatePayload_ok h).2⟩
  have htext : compactJson R v = compactJson R w := by
    unfold compactJson compact
    rw [document_reordered hv hs h]
  have hencoded : encoded R v = encoded R w := by
    unfold encoded
    rw [htext]
  refine ⟨htext, by rw [hencoded], ?_⟩
  cases h with
  | scalar => rfl
  | list hlength h => rfl
  | @dict es fs partner hlength hmem h =>
    cases hv with
    | dict hkeys _ =>
      cases hs with
      | dict hsk _ =>
        have hnodup := keys_nodup hkeys hsk
        have hes : (es.find? fun e => !e.1.isStr) = none :=
          List.find?_eq_none.mpr fun e he => by rw [hsk e he]; decide
        have hfs : (fs.find? fun e => !e.1.isStr) = none := by
          refine List.find?_eq_none.mpr fun f hf => ?_
          obtain ⟨e, he, rfl⟩ := List.mem_map.mp ((partners_perm hnodup hlength hmem).mem_iff.mpr hf)
          rw [hsk e he]
          decide
        have hsize : sizeReasons R (.dict es) = sizeReasons R (.dict fs) := by
          unfold sizeReasons
          rw [hencoded]
        unfold validatePayload
        dsimp only
        rw [hes, hfs, eventReasons_reordered hnodup hlength hmem h, hsize]
        dsimp only
        cases sizeReasons R (.dict fs) with
        | error e => rfl
        | ok sizes =>
          dsimp only [bind, Except.bind]
          split <;> rfl

theorem sampleDict_swap {a b : String} {v w v' w' : Value Bool}
    (hab : (sampleStr b).eq sampleRuntime.floats (sampleStr a) = false) (hv : v.Reordered v') (hw : w.Reordered w') :
    (sampleDict [(a, v), (b, w)]).Reordered (sampleDict [(b, w'), (a, v')]) := by
  have haa : (sampleStr a).eq sampleRuntime.floats (sampleStr a) = true := eq_str.mpr rfl
  refine .dict (fun e => if e.1.eq sampleRuntime.floats (sampleStr a) then v' else w') rfl ?_ ?_
  · simp [haa, hab]
  · simp [haa, hab, hv, hw]

theorem sampleDict_stringKeys {es : List (String × Value Bool)} (h : ∀ e ∈ es, e.2.StringKeys) :
    (sampleDict es).StringKeys := by
  refine .dict (fun e he => ?_) fun e he => ?_
  · obtain ⟨d, -, rfl⟩ := List.mem_map.mp he
    rfl
  · obtain ⟨d, hd, rfl⟩ := List.mem_map.mp he
    exact h d hd

/-- The sample and its reordering, two keys apart at two depths. -/
theorem payload_size_sample : SameSize sampleRuntime samplePayload.1 samplePayload'.1 ∧
    ∃ bytes, encoded sampleRuntime samplePayload.1 = .ok bytes ∧ bytes.length ≤ maxPayloadBytes := by
  refine ⟨(payload_size sampleRuntime).1 samplePayload samplePayload' ?_
      (sampleDict_swap (by decide) .scalar (sampleDict_swap (by decide) .scalar .scalar)),
    (payload_size sampleRuntime).2 samplePayload samplePayload.1 validatePayload_sample⟩
  have hinner : (sampleDict [("b", .scalar (.int 1)), ("a", .scalar (.float false))]).StringKeys :=
    sampleDict_stringKeys (List.forall_mem_cons.mpr ⟨.scalar trivial, List.forall_mem_cons.mpr ⟨.scalar trivial, by simp⟩⟩)
  exact sampleDict_stringKeys (List.forall_mem_cons.mpr ⟨.scalar trivial, List.forall_mem_cons.mpr ⟨hinner, by simp⟩⟩)

/-! ## Storage -/

/-- What the database can store of a scalar: no U+0000, no surrogate, no infinity. -/
def StorableScalar (R : Runtime F) : Scalar F → Prop
  | .str s => Point.char (Char.ofNat 0) ∉ s ∧ ∀ n, Point.surrogate n ∉ s
  | .float x => R.floats.isFinite x = true
  | _ => True

/-- No U+0000. -/
def NoNull : Scalar F → Prop
  | .str s => Point.char (Char.ofNat 0) ∉ s
  | _ => True

/-- A value that is stored as it was written: its text is read as an equal value, which the database can store. -/
def StoredAsWritten (R : Runtime F) (v : Value F) : Prop :=
  ∃ text u, compactJson R v = .ok text ∧ loads R.floats R.depth text = .ok u ∧ v.eq R.floats u = true ∧
    u.Everywhere (StorableScalar R) (StorableScalar R)

/-- All keys are strings, and no key or other string holds a U+0000. -/
def Plain (v : Value F) : Prop := v.Everywhere (fun k => k.isStr = true ∧ NoNull k) NoNull

theorem Plain.stringKeys {v : Value F} (h : Plain v) : v.StringKeys :=
  h.mono (fun _ hk => hk.1) fun _ _ => trivial

/-- An accepted payload is stored as it was written when it is plain, and otherwise not. -/
theorem accepted_stored_iff (hR : R.floats.Lawful) (v : Payload R) {u : Value F} (h : validatePayload R v.1 = .ok u) :
    StoredAsWritten R v.1 ↔ Plain v.1 := by
  obtain ⟨v, hv⟩ := v
  constructor
  · rintro ⟨text, w, -, hloads, heq, hw⟩
    obtain ⟨doc, rfl⟩ := loads_ok hloads
    refine Value.everywhere_of_eq (fun a b hab hb => ?_) (fun a b hab hb => ?_) heq
      ((stringKeys_ofDoc doc).and hw)
    · obtain ⟨hstr, hb⟩ := hb
      cases b with
      | str s =>
        rw [eq_str.mp hab]
        exact ⟨rfl, hb.1⟩
      | none => cases hstr
      | bool c => cases hstr
      | int n => cases hstr
      | float x => cases hstr
    · cases a with
      | str s =>
        rw [str_eq.mp hab] at hb
        exact hb.2.1
      | none => trivial
      | bool c => trivial
      | int n => trivial
      | float x => trivial
  · intro hplain
    have hs := hplain.stringKeys
    obtain ⟨-, bytes, hbytes, -⟩ := validatePayload_ok h
    obtain ⟨text, htext, hbytes⟩ := bind_ok.mp hbytes
    obtain ⟨doc, hdoc, he⟩ := bind_ok.mp htext
    cases he
    have hencodable := encodable_of_text hs hdoc fun n => surrogates_of_encodeUtf8 hbytes n
    have hfinite := finite_of_document hdoc
    refine ⟨_, ofDoc doc, htext, loads_compact hR hv hs hdoc, eq_ofDoc hv hs hdoc,
      everywhere_ofDoc hs (((hplain.and hencodable).and hfinite).mono ?_ ?_) hdoc⟩
    · rintro a ⟨⟨⟨hstr, hnull⟩, henc⟩, -⟩
      cases a with
      | str s => exact ⟨hnull, henc⟩
      | none => cases hstr
      | bool c => cases hstr
      | int n => cases hstr
      | float x => cases hstr
    · rintro a ⟨⟨hnull, henc⟩, hfin⟩
      cases a with
      | str s => exact ⟨hnull, henc⟩
      | float x => exact hfin
      | none => trivial
      | bool c => trivial
      | int n => trivial

/-- The sample is plain, and stored as it was written. -/
theorem accepted_stored_sample : StoredAsWritten sampleRuntime samplePayload.1 ↔ Plain samplePayload.1 :=
  accepted_stored_iff sampleRuntime_lawful samplePayload validatePayload_sample

/-- `{"event": "a", "d": {1: "x"}}`. -/
def coercedPayload : Payload sampleRuntime :=
  ⟨sampleDict [("event", .scalar (sampleStr "a")), ("d", .dict [(.int 1, .scalar (sampleStr "x"))])],
    sampleDict_proper (by decide) (List.forall_mem_cons.mpr ⟨.scalar, List.forall_mem_cons.mpr
      ⟨.dict (List.pairwise_singleton _ _) (List.forall_mem_cons.mpr ⟨.scalar, by simp⟩), by simp⟩⟩)⟩

/-- The nested key `1` is accepted, and stored as `"1"`. -/
theorem nested_key_coerced : validatePayload sampleRuntime coercedPayload.1 = .ok coercedPayload.1 ∧
    ¬StoredAsWritten sampleRuntime coercedPayload.1 := by
  refine ⟨rfl, ?_⟩
  rintro ⟨text, u, htext, hu, heq, -⟩
  have hread : ((compactJson sampleRuntime coercedPayload.1).toOption.bind fun text =>
      (loads sampleRuntime.floats sampleRuntime.depth text).toOption).map
        (coercedPayload.1.eq sampleRuntime.floats) = some false := by decide +kernel
  rw [htext] at hread
  dsimp only [Except.toOption, Option.bind] at hread
  rw [hu] at hread
  dsimp only [Except.toOption, Option.map] at hread
  rw [heq] at hread
  cases hread

end Bekaa3D.Engagement
