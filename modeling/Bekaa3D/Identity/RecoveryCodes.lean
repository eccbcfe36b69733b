import Bekaa3D.Identity.Store
import Mathlib.Data.List.OfFn

/-!
# Identity.RecoveryCodes — recovery codes as they are shown, typed and looked up

`domain/recovery_codes.py`: the codes of a set, and the canonical form that is hashed.

* `Respelled`: a code as somebody types it, in any case, with anything between its symbols.
* `normalizeCode_respelled`: every spelling has the symbols of the code as its canonical form.
* `recovery_code_lookup`: the hash of a spelling finds the code that was issued, and no other one.
-/

namespace Bekaa3D.Identity

open Txn

/-- No `O` or `0`, `I`, `1` or `L`. -/
def recoveryAlphabet : List Char := "ABCDEFGHJKMNPQRSTVWXYZ23456789".toList

def recoveryCodeLength : ℕ := 12

def recoveryGroupSize : ℕ := 4

/-- `str.upper` replaces every character by a string of its own. -/
structure Uppercase where
  upper : Char → List Char
  ascii : ∀ c : Char, c.toNat < 128 → upper c = [c.toUpper]

def Uppercase.apply (U : Uppercase) (s : String) : String := String.ofList (s.toList.flatMap U.upper)

/-- What `secrets.choice(_ALPHABET)` returned, twelve times. -/
abbrev Choices : Type := Fin recoveryCodeLength → Fin recoveryAlphabet.length

namespace Choices

/-- `raw`. -/
def symbols (choices : Choices) : List Char := List.ofFn fun i => recoveryAlphabet.get (choices i)

def groups (choices : Choices) : List (List Char) :=
  (List.range' 0 (recoveryCodeLength / recoveryGroupSize) recoveryGroupSize).map fun i =>
    (choices.symbols.drop i).take recoveryGroupSize

end Choices

def generateCode (choices : Choices) : String := String.ofList (['-'].intercalate choices.groups)

def normalizeCode (U : Uppercase) (code : String) : String :=
  String.ofList ((U.apply code).toList.filter (· ∈ recoveryAlphabet))

example : generateCode (Fin.castLE (by decide)) = "ABCD-EFGH-JKMN" := by decide +kernel

/-! ## Other spellings -/

section Spelling

variable (U : Uppercase)

/-- A character of which nothing is left in the canonical form. -/
def Uppercase.Silent (c : Char) : Prop := ∀ u ∈ U.upper c, u ∉ recoveryAlphabet

/-- The second string is the first with the case of letters changed, and with silent characters put in or
left out. -/
inductive Respelled : List Char → List Char → Prop
  | nil : Respelled [] []
  | letter {c c' : Char} {s t : List Char} (same : U.upper c' = U.upper c) (rest : Respelled s t) :
      Respelled (c :: s) (c' :: t)
  | insert {c : Char} {s t : List Char} (silent : U.Silent c) (rest : Respelled s t) : Respelled s (c :: t)
  | remove {c : Char} {s t : List Char} (silent : U.Silent c) (rest : Respelled s t) : Respelled (c :: s) t

variable {U}

theorem Respelled.refl : ∀ s : List Char, Respelled U s s
  | [] => .nil
  | _ :: s => .letter rfl (Respelled.refl s)

/-- A letter of the alphabet and its small form are the same letter. -/
theorem upper_toLower {c : Char} (hc : c ∈ recoveryAlphabet) : U.upper c.toLower = U.upper c := by
  have h : recoveryAlphabet.all (fun c => c.toLower.toNat < 128 ∧ c.toNat < 128 ∧ c.toLower.toUpper = c.toUpper) =
      true := by decide
  obtain ⟨hl, hu, he⟩ := of_decide_eq_true (List.all_eq_true.mp h c hc)
  rw [U.ascii _ hl, U.ascii _ hu, he]

/-- A symbol is its own upper case. -/
theorem upper_symbol {c : Char} (hc : c ∈ recoveryAlphabet) : U.upper c = [c] := by
  have h : recoveryAlphabet.all (fun c => c.toNat < 128 ∧ c.toUpper = c) = true := by decide
  obtain ⟨hl, he⟩ := of_decide_eq_true (List.all_eq_true.mp h c hc)
  rw [U.ascii _ hl, he]

theorem silent_dash : U.Silent '-' := by
  intro u hu
  rw [U.ascii _ (by decide)] at hu
  rw [List.mem_singleton.mp hu]
  decide

/-! ## The canonical form -/

/-- The canonical form, character by character. -/
def canonical (U : Uppercase) (s : List Char) : List Char :=
  s.flatMap fun c => (U.upper c).filter (· ∈ recoveryAlphabet)

theorem normalizeCode_eq (s : String) : normalizeCode U s = String.ofList (canonical U s.toList) := by
  unfold normalizeCode Uppercase.apply canonical
  rw [String.toList_ofList, List.filter_flatMap]

@[simp] theorem canonical_cons (c : Char) (s : List Char) :
    canonical U (c :: s) = (U.upper c).filter (· ∈ recoveryAlphabet) ++ canonical U s := rfl

theorem canonical_append (s t : List Char) : canonical U (s ++ t) = canonical U s ++ canonical U t :=
  List.flatMap_append

theorem filter_silent {c : Char} (h : U.Silent c) : (U.upper c).filter (· ∈ recoveryAlphabet) = [] :=
  List.filter_eq_nil_iff.mpr fun u hu => by simpa using h u hu

/-- **All spellings have one canonical form.** -/
theorem canonical_respelled {s t : List Char} (h : Respelled U s t) : canonical U t = canonical U s := by
  induction h with
  | nil => rfl
  | letter same _ ih => rw [canonical_cons, canonical_cons, same, ih]
  | insert silent _ ih => rw [canonical_cons, filter_silent silent, List.nil_append, ih]
  | remove silent _ ih => rw [canonical_cons, filter_silent silent, List.nil_append, ih]

/-- Text of symbols alone is in canonical form. -/
theorem canonical_symbols {s : List Char} (h : ∀ c ∈ s, c ∈ recoveryAlphabet) : canonical U s = s := by
  induction s with
  | nil => rfl
  | cons c s ih =>
    have hc : c ∈ recoveryAlphabet := h c (by simp)
    have hs : canonical U s = s := ih fun c hc => h c (by simp [hc])
    rw [canonical_cons, upper_symbol hc, hs]
    simp [hc]

theorem mem_canonical {s : List Char} {c : Char} (h : c ∈ canonical U s) : c ∈ recoveryAlphabet := by
  obtain ⟨_, -, hc⟩ := List.mem_flatMap.mp h
  simpa using (List.mem_filter.mp hc).2

theorem normalizeCode_idempotent (s : String) : normalizeCode U (normalizeCode U s) = normalizeCode U s := by
  rw [normalizeCode_eq (normalizeCode U s), normalizeCode_eq, String.toList_ofList]
  exact congrArg String.ofList (canonical_symbols fun c hc => mem_canonical hc)

end Spelling

/-! ## Generated codes -/

section Generated

variable {U : Uppercase} {choices : Choices}

theorem Choices.symbols_alphabet : ∀ c ∈ choices.symbols, c ∈ recoveryAlphabet := by
  intro c hc
  obtain ⟨i, rfl⟩ := List.mem_ofFn.mp hc
  exact List.get_mem _ _

theorem Choices.symbols_injective : Function.Injective Choices.symbols := by
  intro a b h
  have hn : recoveryAlphabet.Nodup := by decide
  funext i
  exact List.nodup_iff_injective_get.mp hn (congrFun (List.ofFn_injective h) i)

/-- The groups, one after another, are the symbols. -/
theorem Choices.flatten_groups : choices.groups.flatten = choices.symbols := by
  have hlen : choices.symbols.length = 12 := List.length_ofFn
  obtain ⟨h₀, h₁, h₂⟩ : choices.symbols.drop 0 = choices.symbols ∧
      (choices.symbols.drop 4).drop 4 = choices.symbols.drop 8 ∧ (choices.symbols.drop 8).take 4 =
        choices.symbols.drop 8 := by
    refine ⟨rfl, List.drop_drop, List.take_of_length_le ?_⟩
    rw [List.length_drop]
    omega
  show ((choices.symbols.drop 0).take 4 ++ ((choices.symbols.drop 4).take 4 ++
    ((choices.symbols.drop 8).take 4 ++ []))) = choices.symbols
  rw [h₂, List.append_nil, ← h₁, List.take_append_drop, h₀, List.take_append_drop]

theorem canonical_intercalate (gs : List (List Char)) :
    canonical U (['-'].intercalate gs) = canonical U gs.flatten := by
  have hdash : canonical U ['-'] = [] := by rw [canonical_cons, filter_silent silent_dash]; rfl
  induction gs with
  | nil => rfl
  | cons g gs ih =>
    cases gs with
    | nil => simp [List.intercalate]
    | cons g' gs =>
      rw [List.intercalate_cons_cons, List.flatten_cons, canonical_append, canonical_append, canonical_append, ih,
        hdash, List.append_nil]

theorem canonical_generateCode : canonical U (generateCode choices).toList = choices.symbols := by
  unfold generateCode
  rw [String.toList_ofList, canonical_intercalate, Choices.flatten_groups]
  exact canonical_symbols Choices.symbols_alphabet

/-- **However a code is typed, its canonical form is the symbols of the code, in order.** -/
theorem normalizeCode_respelled {s : String} (h : Respelled U (generateCode choices).toList s.toList) :
    normalizeCode U s = String.ofList choices.symbols := by
  rw [normalizeCode_eq, canonical_respelled h, canonical_generateCode]

theorem normalizeCode_generateCode : normalizeCode U (generateCode choices) = String.ofList choices.symbols :=
  normalizeCode_respelled (Respelled.refl _)

theorem generateCode_of_normal {a b : Choices}
    (h : normalizeCode U (generateCode a) = normalizeCode U (generateCode b)) : generateCode a = generateCode b := by
  rw [normalizeCode_generateCode, normalizeCode_generateCode] at h
  exact congrArg generateCode (Choices.symbols_injective (String.ofList_injective h))

end Generated

/-! ## Lookup by hash -/

section Lookup

variable (U : Uppercase) (hashToken : String → String)

/-- The hash under which a generated code is stored. -/
def codeHashOf (choices : Choices) : String := hashToken (normalizeCode U (generateCode choices))

/-- No two canonical forms of generated codes have the same hash. -/
def CollisionFree : Prop :=
  ∀ a b : Choices, codeHashOf U hashToken a = codeHashOf U hashToken b →
    normalizeCode U (generateCode a) = normalizeCode U (generateCode b)

/-- What the lookup of a typed code returned: the unused code of the credential that was issued, if it is there. -/
structure FindsIssued (codes : Table MfaRecoveryCode.id) (cid : Uuid) (choices : Choices)
    (r : Option MfaRecoveryCode) : Prop where
  found : ∀ k, r = some k → codes.row k.id = some k ∧ k.unusedOf cid = true ∧
    ∀ issued, k.codeHash = codeHashOf U hashToken issued → generateCode issued = generateCode choices
  missing : r = none → ∀ k, codes.row k.id = some k → k.unusedOf cid = true →
    k.codeHash ≠ codeHashOf U hashToken choices

variable {U hashToken}

theorem finds_issued {codes : Table MfaRecoveryCode.id} {cid : Uuid} {choices : Choices}
    {r : Option MfaRecoveryCode} {s : String} (free : CollisionFree U hashToken)
    (spelt : Respelled U (generateCode choices).toList s.toList)
    (h : codes.Picks (fun k => k.unusedOf cid && k.codeHash = hashToken (normalizeCode U s)) r) :
    FindsIssued U hashToken codes cid choices r := by
  have hs : hashToken (normalizeCode U s) = codeHashOf U hashToken choices := by
    unfold codeHashOf
    rw [normalizeCode_respelled spelt, normalizeCode_generateCode]
  rw [hs] at h
  refine ⟨?_, ?_⟩
  · rintro k rfl
    have hc : k.unusedOf cid = true ∧ k.codeHash = codeHashOf U hashToken choices := by simpa using h.cond
    refine ⟨h.row, hc.1, fun issued hi => generateCode_of_normal (free issued choices ?_)⟩
    rw [← hi, hc.2]
  · rintro rfl k hk hu he
    have hn := h k.id k hk
    simp [hu, he] at hn

end Lookup

/-- **A code in any spelling has the twelve symbols that were drawn as its canonical form**, the canonical form of
any text is its own, and the hash of a spelling finds the code that was issued. -/
theorem recovery_code_lookup (U : Uppercase) :
    (∀ (choices : Choices) (s : String), Respelled U (generateCode choices).toList s.toList →
      normalizeCode U s = String.ofList choices.symbols) ∧
    (∀ s : String, normalizeCode U (normalizeCode U s) = normalizeCode U s) ∧
    (∀ a b : Choices, normalizeCode U (generateCode a) = normalizeCode U (generateCode b) →
      generateCode a = generateCode b) ∧
    ∀ (hashToken : String → String), CollisionFree U hashToken →
      ∀ (codes : Table MfaRecoveryCode.id) (cid : Uuid) (choices : Choices) (s : String),
        Respelled U (generateCode choices).toList s.toList → ∀ r,
        codes.Picks (fun k => k.unusedOf cid && k.codeHash = hashToken (normalizeCode U s)) r →
        FindsIssued U hashToken codes cid choices r := by
  refine ⟨?_, normalizeCode_idempotent, ?_, ?_⟩
  · intro choices s h
    exact normalizeCode_respelled h
  · intro a b h
    exact generateCode_of_normal h
  · intro hashToken free codes cid choices s spelt r h
    exact finds_issued free spelt h

/-- Upper case of text that is ASCII alone. -/
def asciiUppercase : Uppercase := ⟨fun c => [c.toUpper], fun _ _ => rfl⟩

theorem silent_blank : asciiUppercase.Silent ' ' := by
  intro u hu
  rw [List.mem_singleton.mp hu]
  decide

/-- A code that was typed in small letters, with blanks between the groups. -/
theorem recovery_code_lookup_typed :
    normalizeCode asciiUppercase "abcd efgh jkmn" = "ABCDEFGHJKMN" ∧
    FindsIssued asciiUppercase id (Table.empty.insert ⟨1, 2, "ABCDEFGHJKMN", none⟩) 2 (Fin.castLE (by decide))
      (some ⟨1, 2, "ABCDEFGHJKMN", none⟩) := by
  have group : ∀ {a b c d : Char} {s t : List Char}, Respelled asciiUppercase s t →
      a ∈ recoveryAlphabet → b ∈ recoveryAlphabet → c ∈ recoveryAlphabet → d ∈ recoveryAlphabet →
      Respelled asciiUppercase (a :: b :: c :: d :: s) (a.toLower :: b.toLower :: c.toLower :: d.toLower :: t) :=
    fun h ha hb hc hd => .letter (upper_toLower ha) (.letter (upper_toLower hb) (.letter (upper_toLower hc)
      (.letter (upper_toLower hd) h)))
  have blank : ∀ {s t : List Char}, Respelled asciiUppercase s t → Respelled asciiUppercase ('-' :: s) (' ' :: t) :=
    fun h => .remove silent_dash (.insert silent_blank h)
  have spelt : Respelled asciiUppercase (generateCode (Fin.castLE (by decide))).toList "abcd efgh jkmn".toList := by
    rw [show generateCode (Fin.castLE (by decide)) = "ABCD-EFGH-JKMN" by decide +kernel]
    have last := group (a := 'J') (b := 'K') (c := 'M') (d := 'N') .nil (by decide) (by decide) (by decide) (by decide)
    have middle := group (a := 'E') (b := 'F') (c := 'G') (d := 'H') (blank last) (by decide) (by decide) (by decide)
      (by decide)
    exact group (a := 'A') (b := 'B') (c := 'C') (d := 'D') (blank middle) (by decide) (by decide) (by decide)
      (by decide)
  obtain ⟨normal, -, -, found⟩ := recovery_code_lookup asciiUppercase
  refine ⟨?_, found id ?_ _ _ _ _ spelt _ ?_⟩
  · rw [normal _ _ spelt]
    decide +kernel
  · intro a b h
    exact h
  · refine ⟨Table.row_insert_new rfl, ?_⟩
    rw [normal _ _ spelt]
    decide +kernel

end Bekaa3D.Identity
