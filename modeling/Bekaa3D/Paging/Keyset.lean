import Mathlib.Data.List.Sort
import Mathlib.Tactic.Common

/-!
# Paging.Keyset — one page of a list ordered by a key

A `Listing` is a list endpoint: a query for the rows after a position in the order of their keys, and an opaque
cursor that carries the position of the last row served.

* `select`: `SELECT … WHERE p AND key > after ORDER BY key LIMIT n`.
* `Listing.page`: the page made of one row too many; `Listing.list`: the answer to a request.
* `Rest`: the rows that a request may still serve, in order.  A page is the head of them, its cursor leads to
  the tail (`rest_next`).
-/

namespace Paging

structure Page (I C : Type) where
  items : List I
  next : Option C
  deriving DecidableEq

/-! ## The query -/

section Query

variable {V K : Type} [LinearOrder K] (key : V → K) (p : V → Bool)

/-- The rows in the order of their keys. -/
def sorted (rows : List V) : List V := rows.insertionSort fun v v' => key v ≤ key v'

/-- Whether a row comes after a position. -/
def follows (after : Option K) (v : V) : Bool := after.all fun k => k < key v

/-- `SELECT … WHERE p AND key > after ORDER BY key LIMIT n`. -/
def select (after : Option K) (n : ℕ) (rows : List V) : List V :=
  (sorted key (rows.filter fun v => p v && follows key after v)).take n

/-- The matching rows after a position, in order. -/
def rest (rows : List V) (after : Option K) : List V := (sorted key (rows.filter p)).filter (follows key after)

variable {key p} {rows : List V} {after : Option K} {v : V}

theorem mem_sorted : v ∈ sorted key rows ↔ v ∈ rows := List.mem_insertionSort _

theorem perm_sorted : (sorted key rows).Perm rows := List.perm_insertionSort _ _

theorem le_sorted : (sorted key rows).Pairwise fun v v' => key v ≤ key v' := by
  have : Std.Total fun v v' : V => key v ≤ key v' := ⟨fun v v' => le_total (key v) (key v')⟩
  have : IsTrans V fun v v' => key v ≤ key v' := ⟨fun _ _ _ => le_trans⟩
  exact List.pairwise_insertionSort _ _

/-- Rows with different keys come in strict order. -/
theorem lt_sorted (h : (rows.map key).Nodup) : (sorted key rows).Pairwise fun v v' => key v < key v' := by
  have hnd : ((sorted key rows).map key).Nodup := (perm_sorted.map key).nodup_iff.mpr h
  rw [List.Nodup, List.pairwise_map] at hnd
  exact le_sorted.imp₂ (fun _ _ hle hne => lt_of_le_of_ne hle hne) hnd

omit [LinearOrder K] in
theorem nodup_filter (h : (rows.map key).Nodup) {q : V → Bool} : ((rows.filter q).map key).Nodup :=
  h.sublist (List.filter_sublist.map key)

theorem lt_rest (h : (rows.map key).Nodup) : (rest key p rows after).Pairwise fun v v' => key v < key v' :=
  (lt_sorted (nodup_filter h)).filter _

theorem mem_rest : v ∈ rest key p rows after ↔ v ∈ rows ∧ p v = true ∧ follows key after v = true := by
  unfold rest
  rw [List.mem_filter, mem_sorted, List.mem_filter, and_assoc]

theorem lt_of_mem_rest (hv : v ∈ rest key p rows after) {k : K} (hk : after = some k) : k < key v := by
  subst hk
  simpa [follows] using (mem_rest.mp hv).2.2

/-- A matching row after the position is left. -/
theorem mem_rest_of (hv : v ∈ rows) (hp : p v = true) (ha : ∀ k, after = some k → k < key v) :
    v ∈ rest key p rows after := by
  refine mem_rest.mpr ⟨hv, hp, ?_⟩
  cases after with
  | none => rfl
  | some k => exact decide_eq_true (ha k rfl)

/-- From the start, every matching row. -/
theorem rest_none : rest key p rows none = sorted key (rows.filter p) :=
  List.filter_eq_self.mpr fun _ _ => rfl

/-- The query reads the rows that are left. -/
theorem select_eq (h : (rows.map key).Nodup) (n : ℕ) : select key p after n rows = (rest key p rows after).take n := by
  unfold select
  congr 1
  refine List.Perm.eq_of_pairwise ?_ (lt_sorted (nodup_filter h)) (lt_rest h) ?_
  · exact fun a b _ _ hab hba => absurd hab (lt_asymm hba)
  · have hand : rows.filter (fun v => p v && follows key after v) = (rows.filter p).filter (follows key after) := by
      rw [List.filter_filter]
      exact List.filter_congr fun v _ => Bool.and_comm _ _
    rw [hand]
    exact perm_sorted.trans (perm_sorted.symm.filter _)

/-- The query does not depend on how the table lists its rows, nor on rows that do not match. -/
theorem select_congr {rows' : List V} (h : (rows.map key).Nodup) (h' : (rows'.map key).Nodup)
    (hm : ∀ v, p v = true → (v ∈ rows ↔ v ∈ rows')) (n : ℕ) :
    select key p after n rows = select key p after n rows' := by
  unfold select
  congr 1
  refine List.Perm.eq_of_pairwise ?_ (lt_sorted (nodup_filter h)) (lt_sorted (nodup_filter h'))
    (perm_sorted.trans (.trans ?_ perm_sorted.symm))
  · exact fun a b _ _ hab hba => absurd hab (lt_asymm hba)
  · rw [List.perm_ext_iff_of_nodup (h.of_map.filter _) (h'.of_map.filter _)]
    intro v
    rw [List.mem_filter, List.mem_filter, Bool.and_eq_true]
    constructor
    · rintro ⟨hv, hp, hf⟩
      exact ⟨(hm v hp).mp hv, hp, hf⟩
    · rintro ⟨hv, hp, hf⟩
      exact ⟨(hm v hp).mpr hv, hp, hf⟩

/-- Past a row that is left, the rows after it are left. -/
theorem rest_past (h : (rows.map key).Nodup) {pre post : List V} (hsplit : rest key p rows after = pre ++ v :: post) :
    rest key p rows (some (key v)) = post := by
  have hv : follows key after v = true := (mem_rest.mp (by rw [hsplit]; simp)).2.2
  have hsub : rest key p rows (some (key v)) = (rest key p rows after).filter (follows key (some (key v))) := by
    unfold rest
    rw [List.filter_filter]
    refine List.filter_congr fun u _ => ?_
    by_cases hu : follows key (some (key v)) u = true
    · have hlt : key v < key u := by simpa [follows] using hu
      have : follows key after u = true := by
        cases after with
        | none => rfl
        | some k => exact decide_eq_true (lt_trans (by simpa [follows] using hv) hlt)
      rw [hu, this]
      rfl
    · simp [hu]
  have hlt : (rest key p rows after).Pairwise fun u u' => key u < key u' := lt_rest h
  rw [hsplit, List.pairwise_append, List.pairwise_cons] at hlt
  obtain ⟨-, ⟨hpost, -⟩, hpre⟩ := hlt
  rw [hsub, hsplit, List.filter_append, List.filter_cons_of_neg (by simp [follows])]
  have h0 : pre.filter (follows key (some (key v))) = [] := by
    refine List.filter_eq_nil_iff.mpr fun u hu => ?_
    simpa [follows] using le_of_lt (hpre u hu v List.mem_cons_self)
  have h1 : post.filter (follows key (some (key v))) = post :=
    List.filter_eq_self.mpr fun u hu => by simpa [follows] using hpost u hu
  rw [h0, h1, List.nil_append]

end Query

/-! ## List endpoints -/

/-- A list endpoint: the order of its rows (`key`), how the position of a row is written as a cursor and parsed, what the
query binds of a position (`bound`, if the driver can), and how a row is shown. -/
structure Listing (V I P K X : Type) where
  key : V → K
  cursor : V → String
  parseCursor : String → Except X P
  bound : P → Option K
  render : V → I

namespace Listing

variable {V I P K X : Type} (l : Listing V I P K X)

/-- The cursor of a row leads back to the row. -/
def Rounds (v : V) : Prop := ∃ c, l.parseCursor (l.cursor v) = .ok c ∧ l.bound c = some (l.key v)

/-- The page of `limit` rows, of a query for one row more. -/
def page (limit : ℕ) (rows : List V) : Page I String :=
  ⟨(rows.take limit).map l.render,
    if limit < rows.length then (rows.take limit).getLast?.map l.cursor else none⟩

section Page

variable {l} {limit : ℕ} {R : List V}

theorem page_items : (l.page limit (R.take (limit + 1))).items = (R.take limit).map l.render := by
  change ((R.take (limit + 1)).take limit).map l.render = _
  rw [List.take_take, Nat.min_eq_left (by omega)]

/-- A page that ends the list has all that is left. -/
theorem page_last (hl : 0 < limit) (h : (l.page limit (R.take (limit + 1))).next = none) :
    R.length ≤ limit := by
  by_contra hlt
  have hlen : limit < (R.take (limit + 1)).length := by rw [List.length_take]; omega
  unfold page at h
  dsimp only at h
  rw [if_pos hlen, Option.map_eq_none_iff, List.getLast?_eq_none_iff, List.take_take, List.take_eq_nil_iff] at h
  rcases h with h | h
  · omega
  · rw [h] at hlt
    simp at hlt

/-- A page that does not end the list: its cursor is that of its last row. -/
theorem page_next {raw : String} (h : (l.page limit (R.take (limit + 1))).next = some raw) :
    ∃ pre v post, R = pre ++ v :: post ∧ pre.length + 1 = limit ∧ raw = l.cursor v ∧ post ≠ [] := by
  unfold page at h
  dsimp only at h
  split at h
  · rename_i hlen
    rw [List.length_take] at hlen
    rw [List.take_take, Nat.min_eq_left (by omega)] at h
    obtain ⟨v, hv, rfl⟩ := Option.map_eq_some_iff.mp h
    obtain ⟨pre, hpre⟩ := List.getLast?_eq_some_iff.mp hv
    have hsplit : R = pre ++ v :: R.drop limit := by
      conv_lhs => rw [← List.take_append_drop limit R, hpre]
      simp
    refine ⟨pre, v, R.drop limit, hsplit, ?_, rfl, ?_⟩
    · have := congrArg List.length hpre
      rw [List.length_take, List.length_append, List.length_singleton] at this
      omega
    · rw [Ne, List.drop_eq_nil_iff]
      omega
  · cases h

end Page

/-- `_decode_cursor`. -/
def decodeCursor {E : Type} (refused : X → E) : Option String → Except E (Option P)
  | none => .ok none
  | some raw =>
    match l.parseCursor raw with
    | .error e => .error (refused e)
    | .ok after => .ok (some after)

/-- What the query binds of a position. -/
def bind {E : Type} (unbound : E) : Option P → Except E (Option K)
  | none => .ok none
  | some after =>
    match l.bound after with
    | none => .error unbound
    | some k => .ok (some k)

variable [LinearOrder K]

/-- The rows of one page, and one more. -/
def listPage (p : V → Bool) (limit : ℕ) (after : Option K) (rows : List V) : List V := select l.key p after limit rows

/-- The answer to a request. -/
def list {E : Type} (refused : X → E) (unbound : E) (p : V → Bool) (limit : ℕ) (cursor : Option String)
    (rows : List V) : Except E (Page I String) := do
  let after ← l.decodeCursor refused cursor
  let after ← l.bind unbound after
  return l.page limit (l.listPage p (limit + 1) after rows)

section Answer

variable {l} {E : Type} {p : V → Bool} {rows : List V} {limit : ℕ} {refused : X → E} {unbound : E}

/-- The position that a request asks to go on from. -/
inductive Cursor (l : Listing V I P K X) : Option String → Option K → Prop where
  | start : Cursor l none none
  | of {raw : String} {c : P} {k : K} (h : l.parseCursor raw = .ok c) (hb : l.bound c = some k) :
      Cursor l (some raw) (some k)

omit [LinearOrder K] in
theorem Rounds.cursor {v : V} (h : l.Rounds v) : Cursor l (some (l.cursor v)) (some (l.key v)) := by
  obtain ⟨c, hc, hb⟩ := h
  exact .of hc hb

theorem list_eq {cursor : Option String} {after : Option K} (h : (rows.map l.key).Nodup) (hc : Cursor l cursor after) :
    l.list refused unbound p limit cursor rows =
      .ok (l.page limit ((rest l.key p rows after).take (limit + 1))) := by
  have hd : ∃ c, l.decodeCursor refused cursor = .ok c ∧ l.bind unbound c = .ok after := by
    cases hc with
    | start => exact ⟨none, rfl, rfl⟩
    | @of raw c k hp hb =>
      refine ⟨some c, ?_, ?_⟩
      · unfold decodeCursor
        dsimp only
        rw [hp]
      · unfold Listing.bind
        dsimp only
        rw [hb]
  obtain ⟨c, hd, hb⟩ := hd
  unfold list
  rw [hd]
  change (do let after ← l.bind unbound c; return l.page limit (l.listPage p (limit + 1) after rows)) = _
  rw [hb]
  change Except.ok (l.page limit (select l.key p after (limit + 1) rows)) = _
  rw [select_eq h]

end Answer

end Listing

end Paging
