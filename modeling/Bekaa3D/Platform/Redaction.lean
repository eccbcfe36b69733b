import Bekaa3D.Lists.Forall
import Bekaa3D.Text.JsonRoundTrip

/-!
# Platform.Redaction — the payloads of mail that is not sent again

* `redactPayload`: what the application keeps of a payload.
* `upgrade`: the two statements that redact the rows of before, with the three truth values and the errors of SQL.
* `backfill_agrees`: the statements do what the application does, raise nothing, and do nothing twice.
-/

namespace Bekaa3D.Platform

open Text.Json

inductive OutboxStatus where
  | pending
  | sending
  | sent
  | failed
  deriving DecidableEq, Repr

/-- A document that the database has stored: no object has a key twice. -/
abbrev Jsonb := {d : Doc Numeral // d.Distinct}

def Jsonb.empty : Jsonb := ⟨.obj [], .empty⟩

/-- A row of the table `email_outbox`; `ρ` are the columns that neither side touches. -/
structure OutboxRow (ρ : Type) where
  status : OutboxStatus
  payload : Jsonb
  columns : ρ

def redacted : Str := ofString "[redacted]"

/-! ## The application -/

/-- `dict.fromkeys`. -/
def fromKeys (payload : List (Str × Doc Numeral)) (v : Doc Numeral) : List (Str × Doc Numeral) :=
  payload.map fun e => (e.1, v)

/-- The keys of a payload, without what it says. -/
def redactPayload (payload : List (Str × Doc Numeral)) : List (Str × Doc Numeral) := fromKeys payload (.str redacted)

/-! ## The database -/

inductive SqlError where
  /-- A function of objects was called with something else. -/
  | invalidParameter
  | notNull
  deriving DecidableEq, Repr

/-- A truth value, where nothing is `NULL`. -/
abbrev Truth := Option Bool

/-- `a AND b`, where `b` is not looked at when `a` is false.  PostgreSQL does not promise this order: that it evaluates
the conjunctions of the two statements from left to right is an assumption. -/
def sqlAnd (a : Truth) (b : Except SqlError Truth) : Except SqlError Truth :=
  match a with
  | some false => .ok (some false)
  | some true => b
  | none => do
    match ← b with
    | some false => return some false
    | _ => return none

/-- `a IS DISTINCT FROM b`. -/
def isDistinctFrom {α : Type} [DecidableEq α] (a b : Option α) : Bool := a ≠ b

def jsonbTypeof : Doc Numeral → String
  | .null => "null"
  | .bool _ => "boolean"
  | .num _ => "number"
  | .str _ => "string"
  | .arr _ => "array"
  | .obj _ => "object"

/-- The text of a document, as the database writes it. -/
def jsonbText : Doc Numeral → Str := Format.print ⟨false, true⟩ Numeral.text

/-- The value of an entry as text: a string as it is, and `NULL` for a null. -/
def entryText : Doc Numeral → Option Str
  | .str s => some s
  | .null => none
  | d => some (jsonbText d)

def jsonbEachText : Doc Numeral → Except SqlError (List (Str × Option Str))
  | .obj es => .ok (es.map fun e => (e.1, entryText e.2))
  | _ => .error .invalidParameter

def jsonbObjectKeys : Doc Numeral → Except SqlError (List Str)
  | .obj es => .ok (es.map Prod.fst)
  | _ => .error .invalidParameter

/-- `NULL` when there are no rows. -/
def jsonbObjectAgg (rows : List (Str × Jsonb)) : Option Jsonb :=
  if rows = [] then none
  else some ⟨.obj (dictOf (rows.map fun r => (r.1, r.2.1))), dictOf_distinct fun e he => by
    obtain ⟨r, -, rfl⟩ := List.mem_map.mp he
    exact r.2.2⟩

def isEmptyObject : Doc Numeral → Bool
  | .obj [] => true
  | _ => false

section Statements

variable {ρ : Type}

/-- An update of a row where the condition is true; the payload may not become `NULL`. -/
def updateRow (cond : OutboxRow ρ → Except SqlError Truth) (set : OutboxRow ρ → Except SqlError (Option Jsonb))
    (r : OutboxRow ρ) : Except SqlError (OutboxRow ρ) := do
  match ← cond r with
  | some true =>
    match ← set r with
    | some payload => return { r with payload }
    | none => .error .notNull
  | _ => return r

/-- An update fails when it fails at a row. -/
def update (cond : OutboxRow ρ → Except SqlError Truth) (set : OutboxRow ρ → Except SqlError (Option Jsonb)) :
    List (OutboxRow ρ) → Except SqlError (List (OutboxRow ρ)) :=
  List.mapM (updateRow cond set)

/-- `status IN ('sent', 'failed')`. -/
def inTerminalStates (r : OutboxRow ρ) : Truth := some (r.status = .sent || r.status = .failed)

def sanitiseCond (r : OutboxRow ρ) : Except SqlError Truth :=
  sqlAnd (inTerminalStates r) (.ok (some (isDistinctFrom (some (jsonbTypeof r.payload.1)) (some "object"))))

def sanitiseNonObjectPayloads : List (OutboxRow ρ) → Except SqlError (List (OutboxRow ρ)) :=
  update sanitiseCond fun _ => .ok (some Jsonb.empty)

/-- `EXISTS (SELECT 1 FROM jsonb_each_text(payload) AS kv WHERE kv.value IS DISTINCT FROM '[redacted]')`. -/
def existsUnredacted (payload : Doc Numeral) : Except SqlError Truth := do
  let kvs ← jsonbEachText payload
  return some (kvs.any fun kv => isDistinctFrom kv.2 (some redacted))

def redactCond (r : OutboxRow ρ) : Except SqlError Truth :=
  sqlAnd (inTerminalStates r)
    (sqlAnd (some (jsonbTypeof r.payload.1 = "object"))
      (sqlAnd (some (!isEmptyObject r.payload.1)) (existsUnredacted r.payload.1)))

/-- `SELECT jsonb_object_agg(key, '"[redacted]"'::jsonb) FROM jsonb_object_keys(payload) AS key`. -/
def redactSet (r : OutboxRow ρ) : Except SqlError (Option Jsonb) := do
  let keys ← jsonbObjectKeys r.payload.1
  return jsonbObjectAgg (keys.map fun key => (key, ⟨.str redacted, .str⟩))

def redactObjectPayloads : List (OutboxRow ρ) → Except SqlError (List (OutboxRow ρ)) := update redactCond redactSet

/-- The two statements of the migration, the second on what the first has left. -/
def upgrade (table : List (OutboxRow ρ)) : Except SqlError (List (OutboxRow ρ)) := do
  redactObjectPayloads (← sanitiseNonObjectPayloads table)

end Statements

/-! ## Values as text -/

/-- No document begins as the marker goes on after its bracket. -/
theorem print_not_r (fmt : Format) (d : Doc Numeral) : ∃ p s, fmt.print Numeral.text d = p :: s ∧ p ≠ .char 'r' := by
  cases d with
  | null => exact ⟨_, _, rfl, by decide⟩
  | bool b => cases b <;> exact ⟨_, _, rfl, by decide⟩
  | num x =>
    obtain ⟨p, r, hp, hd⟩ := lexeme_first x.lexeme
    exact ⟨p, r, hp, numeral_ne hd (by decide) (by decide)⟩
  | str s => exact ⟨_, _, rfl, by decide⟩
  | arr xs => cases xs <;> exact ⟨_, _, rfl, by decide⟩
  | obj es => cases es <;> exact ⟨_, _, rfl, by decide⟩

/-- Only the marker itself has the marker as its text. -/
theorem entryText_redacted {d : Doc Numeral} : entryText d = some redacted ↔ d = .str redacted := by
  refine ⟨fun h => ?_, fun h => by rw [h]; rfl⟩
  have hmarker : redacted = .char '[' :: .char 'r' :: ofString "edacted]" := by decide
  cases d with
  | null => cases h
  | str s => rw [entryText, Option.some.injEq] at h; rw [h]
  | bool b =>
    have htext : jsonbText (.bool b) = redacted := Option.some.inj h
    exact absurd htext (by cases b <;> decide)
  | num x =>
    have htext : ofChars x.text = redacted := Option.some.inj h
    obtain ⟨p, r, hp, hd⟩ := lexeme_first x.lexeme
    rw [hp, hmarker] at htext
    exact absurd (List.cons.inj htext).1 (numeral_ne hd (by decide) (by decide))
  | arr xs =>
    have htext : jsonbText (.arr xs) = redacted := Option.some.inj h
    cases xs with
    | nil => exact absurd htext (by decide)
    | cons x xs =>
      obtain ⟨p, r, hp, hr⟩ := print_not_r ⟨false, true⟩ x
      rw [jsonbText, Format.print, hp, hmarker] at htext
      simp only [List.cons_append, List.cons.injEq] at htext
      exact absurd htext.2.1 hr
  | obj es =>
    have htext : jsonbText (.obj es) = redacted := Option.some.inj h
    cases es with
    | nil => exact absurd htext (by decide)
    | cons e es =>
      rw [jsonbText, Format.print, hmarker] at htext
      simp only [List.cons_append, List.cons.injEq] at htext
      exact absurd htext.1 (by decide)

/-- Every value is the marker. -/
def AllRedacted (es : List (Str × Doc Numeral)) : Prop := ∀ e ∈ es, e.2 = .str redacted

theorem redactPayload_of_allRedacted {es : List (Str × Doc Numeral)} (h : AllRedacted es) : redactPayload es = es := by
  unfold redactPayload fromKeys
  refine (List.map_congr_left fun e he => ?_).trans (List.map_id es)
  rw [← h e he]
  rfl

theorem allRedacted_redactPayload (es : List (Str × Doc Numeral)) : AllRedacted (redactPayload es) := by
  intro e he
  obtain ⟨e', -, rfl⟩ := List.mem_map.mp he
  rfl

theorem existsUnredacted_obj (es : List (Str × Doc Numeral)) [Decidable (AllRedacted es)] :
    existsUnredacted (.obj es) = .ok (some (decide ¬AllRedacted es)) := by
  have hany : ((es.map fun e => (e.1, entryText e.2)).any fun kv => isDistinctFrom kv.2 (some redacted)) =
      decide ¬AllRedacted es := by
    rw [Bool.eq_iff_iff, decide_eq_true_eq]
    have hdistinct : ∀ e : Str × Doc Numeral,
        isDistinctFrom (entryText e.2) (some redacted) = true ↔ e.2 ≠ .str redacted := by
      intro e
      rw [isDistinctFrom, decide_eq_true_eq, ne_eq, entryText_redacted]
    unfold AllRedacted
    simp only [List.any_map, List.any_eq_true, Function.comp, hdistinct]
    exact ⟨fun ⟨e, he, hne⟩ h => hne (h e he), fun h => by simpa only [not_forall, exists_prop] using h⟩
  unfold existsUnredacted jsonbEachText
  dsimp only [bind, Except.bind, pure, Except.pure]
  rw [hany]

/-! ## One row -/

section Rows

variable {ρ : Type} {r : OutboxRow ρ}

/-- The statuses of mail that is not sent again. -/
def Terminal (r : OutboxRow ρ) : Prop := r.status = .sent ∨ r.status = .failed

theorem inTerminalStates_true (h : Terminal r) : inTerminalStates r = some true := by
  unfold inTerminalStates
  rcases h with h | h <;> rw [h] <;> rfl

theorem inTerminalStates_false (h : ¬Terminal r) : inTerminalStates r = some false := by
  unfold inTerminalStates
  rw [decide_eq_false fun hs => h (Or.inl hs), decide_eq_false fun hs => h (Or.inr hs)]
  rfl

/-- A row that is no terminal one is passed over, whatever it holds. -/
theorem sanitise_pending (h : ¬Terminal r) :
    updateRow sanitiseCond (fun _ => .ok (some Jsonb.empty)) r = .ok r := by
  unfold updateRow sanitiseCond
  rw [inTerminalStates_false h]
  rfl

theorem redact_pending (h : ¬Terminal r) : updateRow redactCond redactSet r = .ok r := by
  unfold updateRow redactCond
  rw [inTerminalStates_false h]
  rfl

theorem sanitise_object {es : List (Str × Doc Numeral)} (h : Terminal r) (hp : r.payload.1 = .obj es) :
    updateRow sanitiseCond (fun _ => .ok (some Jsonb.empty)) r = .ok r := by
  unfold updateRow sanitiseCond
  rw [inTerminalStates_true h, hp]
  rfl

theorem sanitise_other (h : Terminal r) (hp : ∀ es, r.payload.1 ≠ .obj es) :
    updateRow sanitiseCond (fun _ => .ok (some Jsonb.empty)) r = .ok { r with payload := Jsonb.empty } := by
  have htype : isDistinctFrom (some (jsonbTypeof r.payload.1)) (some "object") = true := by
    cases hd : r.payload.1 with
    | obj es => exact absurd hd (hp es)
    | null => exact (by decide : isDistinctFrom (some "null") (some "object") = true)
    | bool b => exact (by decide : isDistinctFrom (some "boolean") (some "object") = true)
    | num x => exact (by decide : isDistinctFrom (some "number") (some "object") = true)
    | str s => exact (by decide : isDistinctFrom (some "string") (some "object") = true)
    | arr xs => exact (by decide : isDistinctFrom (some "array") (some "object") = true)
  unfold updateRow sanitiseCond
  rw [inTerminalStates_true h, htype]
  rfl

/-- An object that says something is replaced by what the application would keep of it. -/
theorem redact_object {es : List (Str × Doc Numeral)} (h : Terminal r) (hp : r.payload.1 = .obj es) :
    ∃ payload : Jsonb, updateRow redactCond redactSet r = .ok { r with payload } ∧
      payload.1 = .obj (redactPayload es) := by
  classical
  have hkeys : (es.map Prod.fst).Nodup := Doc.Distinct.keys (hp ▸ r.payload.2)
  by_cases hall : AllRedacted es
  · refine ⟨r.payload, ?_, by rw [redactPayload_of_allRedacted hall, hp]⟩
    have hcond : redactCond r = .ok (some false) := by
      unfold redactCond
      rw [inTerminalStates_true h, hp, existsUnredacted_obj, decide_eq_false (not_not_intro hall)]
      cases es <;> rfl
    unfold updateRow
    rw [hcond]
    rfl
  · obtain ⟨e, es', rfl⟩ : ∃ e es', es = e :: es' := by
      cases es with
      | nil => exact absurd (fun e he => absurd he (by simp)) hall
      | cons e es' => exact ⟨e, es', rfl⟩
    have hcond : redactCond r = .ok (some true) := by
      unfold redactCond
      rw [inTerminalStates_true h, hp, existsUnredacted_obj, decide_eq_true hall]
      rfl
    have hset : ∃ payload : Jsonb, redactSet r = .ok (some payload) ∧
        payload.1 = .obj (redactPayload (e :: es')) := by
      unfold redactSet
      rw [hp]
      refine ⟨_, rfl, ?_⟩
      dsimp only
      rw [List.map_map, dictOf_nodup]
      · simp [redactPayload, fromKeys]
      · simpa [List.map_map, Function.comp_def] using hkeys
    obtain ⟨payload, hset, hpayload⟩ := hset
    refine ⟨payload, ?_, hpayload⟩
    unfold updateRow
    rw [hcond]
    dsimp only [bind, Except.bind]
    rw [hset]
    rfl

/-- What the two statements make of a row. -/
structure Backfilled (r r' : OutboxRow ρ) : Prop where
  object : Terminal r → ∀ es, r.payload.1 = .obj es → r'.payload.1 = .obj (redactPayload es)
  other : Terminal r → (∀ es, r.payload.1 ≠ .obj es) → r'.payload.1 = .obj []
  untouched : ¬Terminal r → r' = r
  rest : r'.status = r.status ∧ r'.columns = r.columns

/-- Nothing is left to redact. -/
def Clean (r : OutboxRow ρ) : Prop := Terminal r → ∃ es, r.payload.1 = .obj es ∧ AllRedacted es

theorem Backfilled.clean {r' : OutboxRow ρ} (h : Backfilled r r') : Clean r' := by
  intro ht
  have ht' : Terminal r := by
    unfold Terminal at ht ⊢
    rwa [h.rest.1] at ht
  by_cases hp : ∃ es, r.payload.1 = .obj es
  · obtain ⟨es, hp⟩ := hp
    exact ⟨_, h.object ht' es hp, allRedacted_redactPayload es⟩
  · exact ⟨[], h.other ht' fun es he => hp ⟨es, he⟩, fun e he => absurd he (by simp)⟩

theorem upgradeRow (r : OutboxRow ρ) : ∃ r₁ r₂, updateRow sanitiseCond (fun _ => .ok (some Jsonb.empty)) r = .ok r₁ ∧
    updateRow redactCond redactSet r₁ = .ok r₂ ∧ Backfilled r r₂ := by
  by_cases ht : Terminal r
  · by_cases hp : ∃ es, r.payload.1 = .obj es
    · obtain ⟨es, hp⟩ := hp
      obtain ⟨payload, hredact, hpayload⟩ := redact_object ht hp
      refine ⟨r, _, sanitise_object ht hp, hredact, ⟨fun _ es' he => ?_, fun _ hne => absurd hp (hne es),
        fun h => absurd ht h, rfl, rfl⟩⟩
      obtain rfl : es = es' := Doc.obj.inj (hp.symm.trans he)
      exact hpayload
    · have hne : ∀ es, r.payload.1 ≠ .obj es := fun es he => hp ⟨es, he⟩
      obtain ⟨payload, hredact, hpayload⟩ := redact_object (r := { r with payload := Jsonb.empty }) ht rfl
      exact ⟨_, _, sanitise_other ht hne, hredact, ⟨fun _ es he => absurd he (hne es), fun _ _ => hpayload,
        fun h => absurd ht h, rfl, rfl⟩⟩
  · exact ⟨r, r, sanitise_pending ht, redact_pending ht, ⟨fun h => absurd h ht, fun h => absurd h ht,
      fun _ => rfl, rfl, rfl⟩⟩

theorem upgradeRow_clean (h : Clean r) : updateRow sanitiseCond (fun _ => .ok (some Jsonb.empty)) r = .ok r ∧
    updateRow redactCond redactSet r = .ok r := by
  by_cases ht : Terminal r
  · obtain ⟨es, hp, hall⟩ := h ht
    obtain ⟨payload, hredact, hpayload⟩ := redact_object ht hp
    have hsame : payload = r.payload := Subtype.ext (by rw [hpayload, hp, redactPayload_of_allRedacted hall])
    exact ⟨sanitise_object ht hp, by rw [hredact, hsame]⟩
  · exact ⟨sanitise_pending ht, redact_pending ht⟩

end Rows

/-! ## The table -/

/-- The backfill does to every table what the application would have done, and nothing when it runs again. -/
theorem backfill_agrees {ρ : Type} (table : List (OutboxRow ρ)) :
    ∃ table', upgrade table = .ok table' ∧ List.Forall₂ Backfilled table table' ∧ upgrade table' = .ok table' := by
  have hrows : ∃ t₁ t₂, List.Forall₂ (fun r r₁ => updateRow sanitiseCond (fun _ => .ok (some Jsonb.empty)) r = .ok r₁)
      table t₁ ∧ List.Forall₂ (fun r₁ r₂ => updateRow redactCond redactSet r₁ = .ok r₂) t₁ t₂ ∧
      List.Forall₂ Backfilled table t₂ ∧ ∀ r ∈ t₂, Clean r := by
    induction table with
    | nil => exact ⟨[], [], .nil, .nil, .nil, by simp⟩
    | cons r table ih =>
      obtain ⟨t₁, t₂, hsanitise, hredact, hback, hclean⟩ := ih
      obtain ⟨r₁, r₂, hs, hr, hb⟩ := upgradeRow r
      exact ⟨r₁ :: t₁, r₂ :: t₂, .cons hs hsanitise, .cons hr hredact, .cons hb hback,
        List.forall_mem_cons.mpr ⟨hb.clean, hclean⟩⟩
  obtain ⟨t₁, t₂, hsanitise, hredact, hback, hclean⟩ := hrows
  have hrun : ∀ {t t' t'' : List (OutboxRow ρ)},
      List.Forall₂ (fun r r₁ => updateRow sanitiseCond (fun _ => .ok (some Jsonb.empty)) r = .ok r₁) t t' →
      List.Forall₂ (fun r₁ r₂ => updateRow redactCond redactSet r₁ = .ok r₂) t' t'' → upgrade t = .ok t'' := by
    intro t t' t'' hs hr
    unfold upgrade sanitiseNonObjectPayloads redactObjectPayloads update
    rw [Lists.mapM_iff.mpr hs]
    exact Lists.mapM_iff.mpr hr
  exact ⟨t₂, hrun hsanitise hredact, hback, hrun (List.forall₂_same.mpr fun r hr => (upgradeRow_clean (hclean r hr)).1)
    (List.forall₂_same.mpr fun r hr => (upgradeRow_clean (hclean r hr)).2)⟩

end Bekaa3D.Platform
