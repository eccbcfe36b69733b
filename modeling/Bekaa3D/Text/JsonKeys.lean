import Bekaa3D.Text.JsonParser

/-!
# Text.JsonKeys — documents whose objects have distinct keys

* `Doc.Distinct`: no object, at any depth, has a key twice.
* `dictOf_distinct`: a dictionary of entries has distinct keys.
-/

namespace Text.Json

variable {ν : Type}

/-- No object has a key twice, at any depth. -/
inductive Doc.Distinct : Doc ν → Prop
  | null : Doc.Distinct .null
  | bool {b : Bool} : Doc.Distinct (.bool b)
  | num {x : ν} : Doc.Distinct (.num x)
  | str {s : Str} : Doc.Distinct (.str s)
  | arr {xs : List (Doc ν)} (h : ∀ x ∈ xs, x.Distinct) : Doc.Distinct (.arr xs)
  | obj {es : List (Str × Doc ν)} (hkeys : (es.map Prod.fst).Nodup) (h : ∀ e ∈ es, e.2.Distinct) :
    Doc.Distinct (.obj es)

namespace Doc.Distinct

variable {es : List (Str × Doc ν)}

theorem keys (h : (Doc.obj es).Distinct) : (es.map Prod.fst).Nodup := by
  cases h with
  | obj hkeys _ => exact hkeys

theorem values (h : (Doc.obj es).Distinct) : ∀ e ∈ es, e.2.Distinct := by
  cases h with
  | obj _ h => exact h

theorem empty : (Doc.obj [] : Doc ν).Distinct := .obj List.nodup_nil (by simp)

end Doc.Distinct

theorem insertEntry_keys {dict : List (Str × Doc ν)} (h : (dict.map Prod.fst).Nodup) (e : Str × Doc ν) :
    ((insertEntry dict e).map Prod.fst).Nodup := by
  unfold insertEntry
  by_cases hany : (dict.any fun e' => e'.1 = e.1) = true
  · rw [if_pos hany, List.map_map]
    have hkeys : (Prod.fst ∘ fun e' => if e'.1 = e.1 then e else e') = (Prod.fst : Str × Doc ν → Str) := by
      funext e'
      dsimp only [Function.comp]
      split
      · rename_i he
        exact he.symm
      · rfl
    rw [hkeys]
    exact h
  · rw [if_neg hany, List.map_append, List.nodup_append]
    refine ⟨h, by simp, fun k hk k' hk' hkk => hany ?_⟩
    obtain ⟨e', he', rfl⟩ := List.mem_map.mp hk
    rw [List.map_singleton, List.mem_singleton] at hk'
    exact List.any_eq_true.mpr ⟨e', he', by simpa using hkk.trans hk'⟩

theorem mem_insertEntry {dict : List (Str × Doc ν)} {e d : Str × Doc ν} (h : d ∈ insertEntry dict e) :
    d ∈ dict ∨ d = e := by
  unfold insertEntry at h
  split at h
  · obtain ⟨e', he', rfl⟩ := List.mem_map.mp h
    split
    · exact Or.inr rfl
    · exact Or.inl he'
  · rcases List.mem_append.mp h with h | h
    · exact Or.inl h
    · exact Or.inr (List.mem_singleton.mp h)

/-- A dictionary has distinct keys, and values of its entries. -/
theorem dictOf_spec (es : List (Str × Doc ν)) : ((dictOf es).map Prod.fst).Nodup ∧ ∀ d ∈ dictOf es, d ∈ es := by
  unfold dictOf
  suffices hgen : ∀ dict : List (Str × Doc ν), (dict.map Prod.fst).Nodup →
      ((es.foldl insertEntry dict).map Prod.fst).Nodup ∧ ∀ d ∈ es.foldl insertEntry dict, d ∈ dict ∨ d ∈ es by
    obtain ⟨hkeys, hmem⟩ := hgen [] List.nodup_nil
    exact ⟨hkeys, fun d hd => (hmem d hd).resolve_left (by simp)⟩
  induction es with
  | nil => exact fun dict h => ⟨h, fun d hd => Or.inl hd⟩
  | cons e es ih =>
    intro dict h
    obtain ⟨hkeys, hmem⟩ := ih (insertEntry dict e) (insertEntry_keys h e)
    refine ⟨hkeys, fun d hd => ?_⟩
    rcases hmem d hd with hd | hd
    · rcases mem_insertEntry hd with hd | rfl
      · exact Or.inl hd
      · exact Or.inr List.mem_cons_self
    · exact Or.inr (List.mem_cons_of_mem e hd)

theorem dictOf_distinct {es : List (Str × Doc ν)} (h : ∀ e ∈ es, e.2.Distinct) : (Doc.obj (dictOf es)).Distinct :=
  .obj (dictOf_spec es).1 fun d hd => h d ((dictOf_spec es).2 d hd)

/-- Entries with distinct keys are a dictionary. -/
theorem dictOf_nodup {es : List (Str × Doc ν)} (h : (es.map Prod.fst).Nodup) : dictOf es = es := by
  unfold dictOf
  suffices hgen : ∀ dict : List (Str × Doc ν), ((dict ++ es).map Prod.fst).Nodup →
      es.foldl insertEntry dict = dict ++ es from hgen [] h
  clear h
  induction es with
  | nil => intro dict _; rw [List.foldl_nil, List.append_nil]
  | cons e es ih =>
    intro dict hd
    have hfresh : ¬(dict.any fun e' => e'.1 = e.1) = true := by
      intro hany
      obtain ⟨e', he', hk⟩ := List.any_eq_true.mp hany
      rw [List.map_append, List.nodup_append] at hd
      exact hd.2.2 e'.1 (List.mem_map_of_mem he') e.1 (by simp) (by simpa using hk)
    have hinsert : insertEntry dict e = dict ++ [e] := if_neg hfresh
    rw [List.foldl_cons, hinsert, ih (dict ++ [e]) (by rw [List.append_assoc]; exact hd), List.append_assoc]
    rfl

end Text.Json
