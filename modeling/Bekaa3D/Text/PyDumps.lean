import Bekaa3D.Lists.Forall
import Bekaa3D.Text.PyValue
import Mathlib.Data.List.Nodup
import Mathlib.Data.List.Perm.Subperm

/-!
# Text.PyDumps — what `json.dumps` keeps of a value

* `document_reordered`: the text of a value with string keys does not depend on the order of its keys.
* `eq_ofDoc`: a value with string keys is equal to the one that is read of its text.
* `everywhere_of_eq`: what holds of every key and scalar of a value holds of every value that is equal to it.
-/

namespace Text.Python

open Text.Json
open Lists (mapM_iff exists_left exists_right)

variable {F : Type} {R : Floats F}

/-! ## Values -/

namespace Value

/-- Induction on the nesting of a value. -/
@[elab_as_elim]
theorem induct {P : Value F → Prop} (scalar : ∀ a, P (.scalar a)) (list : ∀ xs, (∀ x ∈ xs, P x) → P (.list xs))
    (dict : ∀ es, (∀ e ∈ es, P e.2) → P (.dict es)) (v : Value F) : P v :=
  @Value.rec F P (fun xs => ∀ x ∈ xs, P x) (fun es => ∀ e ∈ es, P e.2) (fun e => P e.2) scalar list dict (by simp)
    (fun _ _ hx hxs => List.forall_mem_cons.mpr ⟨hx, hxs⟩) (by simp)
    (fun _ _ he hes => List.forall_mem_cons.mpr ⟨he, hes⟩) (fun _ _ h => h) v

theorem Everywhere.mono {K A K' A' : Scalar F → Prop} {v : Value F} (h : v.Everywhere K A) (hK : ∀ a, K a → K' a)
    (hA : ∀ a, A a → A' a) : v.Everywhere K' A' := by
  induction h with
  | scalar h => exact .scalar (hA _ h)
  | list _ ih => exact .list ih
  | dict hkeys _ ih => exact .dict (fun e he => hK _ (hkeys e he)) ih

theorem Everywhere.and {K A K' A' : Scalar F → Prop} {v : Value F} (h : v.Everywhere K A) (h' : v.Everywhere K' A') :
    v.Everywhere (fun k => K k ∧ K' k) fun a => A a ∧ A' a := by
  induction h with
  | scalar h =>
    cases h' with
    | scalar h' => exact .scalar ⟨h, h'⟩
  | list _ ih =>
    cases h' with
    | list h' => exact .list fun x hx => ih x hx (h' x hx)
  | dict hkeys _ ih =>
    cases h' with
    | dict hkeys' h' => exact .dict (fun e he => ⟨hkeys e he, hkeys' e he⟩) fun e he => ih e he (h' e he)

theorem eqItems_iff {xs ys : List (Value F)} :
    eqItems R xs ys = true ↔ List.Forall₂ (fun x y => x.eq R y = true) xs ys := by
  induction xs generalizing ys with
  | nil =>
    cases ys with
    | nil => exact ⟨fun _ => .nil, fun _ => rfl⟩
    | cons y ys => exact ⟨fun h => (by cases h), fun h => (by cases h)⟩
  | cons x xs ih =>
    cases ys with
    | nil => exact ⟨fun h => (by cases h), fun h => (by cases h)⟩
    | cons y ys => rw [eqItems, Bool.and_eq_true, ih, List.forall₂_cons]

theorem eqEntries_iff {es fs : List (Scalar F × Value F)} : eqEntries R es fs = true ↔
    ∀ e ∈ es, ∃ f, fs.find? (fun f => e.1.eq R f.1) = some f ∧ e.2.eq R f.2 = true := by
  induction es with
  | nil => exact ⟨fun _ e he => absurd he (by simp), fun _ => rfl⟩
  | cons e es ih =>
    obtain ⟨k, v⟩ := e
    rw [eqEntries, Bool.and_eq_true, ih, List.forall_mem_cons, eqEntry]
    refine and_congr_left fun _ => ?_
    cases fs.find? fun f => k.eq R f.1 with
    | none => exact ⟨fun h => (by cases h), fun ⟨f, hf, _⟩ => (by cases hf)⟩
    | some f => exact ⟨fun h => ⟨f, rfl, h⟩, fun ⟨f', hf, h⟩ => (by cases hf; exact h)⟩

/-- What holds of the keys and scalars of a value holds, in their way, of those of an equal one. -/
theorem everywhere_of_eq {K A K' A' : Scalar F → Prop} (hK : ∀ a b, a.eq R b = true → K b → K' a)
    (hA : ∀ a b, a.eq R b = true → A b → A' a) {v w : Value F} (h : v.eq R w = true) (hw : Everywhere K A w) :
    Everywhere K' A' v := by
  induction v using induct generalizing w with
  | scalar a =>
    cases hw with
    | scalar hb => exact .scalar (hA _ _ h hb)
    | list _ => cases h
    | dict _ _ => cases h
  | list xs ih =>
    cases hw with
    | scalar _ => cases h
    | dict _ _ => cases h
    | @list ys hys =>
      have hitems : List.Forall₂ (fun x y => x.eq R y = true) xs ys := eqItems_iff.mp h
      refine .list fun x hx => ?_
      obtain ⟨y, hy, hxy⟩ : ∃ y ∈ ys, x.eq R y = true := by
        clear ih h hys
        induction hitems with
        | nil => cases hx
        | cons hxy _ ihs =>
          rcases List.mem_cons.mp hx with rfl | hx
          · exact ⟨_, List.mem_cons_self, hxy⟩
          · obtain ⟨y, hy, hxy⟩ := ihs hx
            exact ⟨y, List.mem_cons_of_mem _ hy, hxy⟩
      exact ih x hx hxy (hys y hy)
  | dict es ih =>
    cases hw with
    | scalar _ => cases h
    | list _ => cases h
    | @dict fs hkeys hfs =>
      have hentries := eqEntries_iff.mp (Bool.and_eq_true_iff.mp h).2
      refine .dict (fun e he => ?_) fun e he => ?_
      · obtain ⟨f, hf, -⟩ := hentries e he
        have hkey : e.1.eq R f.1 = true := List.find?_some (p := fun f : Scalar F × Value F => e.1.eq R f.1) hf
        exact hK _ _ hkey (hkeys f (List.mem_of_find?_eq_some hf))
      · obtain ⟨f, hf, hv⟩ := hentries e he
        exact ih e he hv (hfs f (List.mem_of_find?_eq_some hf))

end Value

/-! ## Documents -/

theorem documents_eq (depth : ℕ) (xs : List (Value F)) : documents R depth xs = xs.mapM (document R depth) := by
  induction xs with
  | nil => rfl
  | cons x xs ih => rw [documents, ih, List.mapM_cons]

theorem entryDocuments_eq (depth : ℕ) (es : List (Scalar F × Value F)) :
    entryDocuments R depth es = es.map fun e => (e.1, document R depth e.2) := by
  induction es with
  | nil => rfl
  | cons e es ih =>
    obtain ⟨k, v⟩ := e
    rw [entryDocuments, ih, List.map_cons, entryDocument]

/-! ### The order of the keys -/

section Order

variable {α β : Type}

/-- Entries whose keys are these strings. -/
def keyed (items : List (Str × α)) : List (Scalar F × α) := items.map fun e => (.str e.1, e.2)

/-- The order of code points. -/
def StrLe (s t : Str) : Prop := s.map Point.code ≤ t.map Point.code

instance : DecidableRel StrLe := fun s t => inferInstanceAs (Decidable (s.map Point.code ≤ t.map Point.code))

theorem StrLe.antisymm {s t : Str} (h : StrLe s t) (h' : StrLe t s) : s = t :=
  List.map_injective_iff.mpr Point.code_injective (le_antisymm h h')

/-- The order of the keys of two entries. -/
def KeyLe (a b : Str × α) : Prop := StrLe a.1 b.1

instance : DecidableRel (@KeyLe α) := fun a b => inferInstanceAs (Decidable (StrLe a.1 b.1))

instance : Std.Total (@KeyLe α) := ⟨fun a b => le_total (a.1.map Point.code) (b.1.map Point.code)⟩

instance : IsTrans (Str × α) KeyLe := ⟨fun _ _ _ h h' => @le_trans (List ℕ) _ _ _ _ h h'⟩

theorem orderable_keyed (items : List (Str × α)) :
    orderable R ((keyed items).map (Prod.fst : Scalar F × α → _)) = true := by
  have hall : ((keyed items).map (Prod.fst : Scalar F × α → _)).all Scalar.isStr = true := by
    rw [List.all_eq_true]
    intro k hk
    obtain ⟨e, he, rfl⟩ := List.mem_map.mp hk
    obtain ⟨d, -, rfl⟩ := List.mem_map.mp he
    rfl
  unfold orderable
  rw [hall, Bool.or_true, Bool.true_or]

/-- String keys are put in the order of their code points. -/
theorem sortItems_keyed (items : List (Str × α)) :
    sortItems R (keyed items) = .ok (keyed (items.insertionSort KeyLe)) := by
  unfold sortItems
  rw [if_pos (orderable_keyed items)]
  congr 1
  unfold keyed
  refine (List.map_insertionSort _ _ _ _ fun a _ b _ => ?_).symm
  simp only [KeyLe, StrLe, Scalar.lt, decide_eq_false_iff_not, not_lt]

theorem sorted_unique {l l' : List (Str × α)} (h : l.Perm l') (hkeys : (l.map Prod.fst).Nodup) :
    l.insertionSort KeyLe = l'.insertionSort KeyLe := by
  have hperm : (l.insertionSort KeyLe).Perm (l'.insertionSort KeyLe) :=
    (List.perm_insertionSort _ l).trans (h.trans (List.perm_insertionSort _ l').symm)
  refine hperm.eq_of_pairwise ?_ (List.pairwise_insertionSort KeyLe l) (List.pairwise_insertionSort KeyLe l')
  intro a b ha hb hab hba
  have ha' : a ∈ l := (List.mem_insertionSort _).mp ha
  have hb' : b ∈ l := h.mem_iff.mpr ((List.mem_insertionSort _).mp hb)
  exact List.inj_on_of_nodup_map hkeys ha' hb' (StrLe.antisymm hab hba)

end Order

/-! ### String keys -/

/-- A string of a key that is one. -/
def Scalar.string : Scalar F → Str
  | .str s => s
  | _ => []

/-- The entries of a dictionary with string keys, by their strings. -/
def strings {α : Type} (items : List (Scalar F × α)) : List (Str × α) := items.map fun e => (e.1.string, e.2)

theorem keyed_strings {α : Type} {items : List (Scalar F × α)} (h : ∀ e ∈ items, e.1.isStr = true) :
    keyed (strings items) = items := by
  unfold keyed strings
  rw [List.map_map]
  refine (List.map_congr_left fun e he => ?_).trans (List.map_id items)
  have hk := h e he
  obtain ⟨k, x⟩ := e
  cases k with
  | str s => rfl
  | none => cases hk
  | bool b => cases hk
  | int n => cases hk
  | float x => cases hk

theorem strings_map {α β : Type} {items : List (Scalar F × α)} (f : α → β) :
    strings (items.map fun e => (e.1, f e.2)) = (strings items).map fun e => (e.1, f e.2) := by
  unfold strings
  rw [List.map_map, List.map_map]
  rfl

theorem strings_keys {α : Type} {items : List (Scalar F × α)} :
    (strings items).map Prod.fst = items.map fun e => e.1.string := by
  unfold strings
  rw [List.map_map]
  rfl

/-- Different string keys are different strings. -/
theorem strings_nodup {es : List (Scalar F × Value F)} (hkeys : es.Pairwise fun e f => e.1.eq R f.1 = false)
    (h : ∀ e ∈ es, e.1.isStr = true) : ((strings es).map Prod.fst).Nodup := by
  rw [strings_keys, List.Nodup, List.pairwise_map]
  refine hkeys.imp_of_mem fun {e f} he hf hne heq => ?_
  have hek := h e he
  have hfk := h f hf
  obtain ⟨k, v⟩ := e
  obtain ⟨l, w⟩ := f
  cases k with
  | str s =>
    cases l with
    | str t =>
      have hst : s = t := heq
      rw [hst] at hne
      simp [Scalar.eq] at hne
    | none => cases hfk
    | bool b => cases hfk
    | int n => cases hfk
    | float x => cases hfk
  | none => cases hek
  | bool b => cases hek
  | int n => cases hek
  | float x => cases hek

theorem keys_nodup {es : List (Scalar F × Value F)} (hkeys : es.Pairwise fun e f => e.1.eq R f.1 = false)
    (h : ∀ e ∈ es, e.1.isStr = true) : (es.map Prod.fst).Nodup := by
  have hstrings := strings_nodup hkeys h
  rw [strings_keys, ← Function.comp_def Scalar.string, ← List.map_map] at hstrings
  exact List.Nodup.of_map _ hstrings

/-- The entries of a dictionary, put in order and encoded. -/
def entriesOf (items : List (Scalar F × Except (EncodeError F) (Doc (Num F)))) :
    Except (EncodeError F) (List (Str × Doc (Num F))) :=
  items.mapM fun e => do return (← keyText R e.1, ← e.2)

theorem document_dict (depth : ℕ) (es : List (Scalar F × Value F)) : document R (depth + 1) (.dict es) =
    (sortItems R (es.map fun e => (e.1, document R depth e.2)) >>= entriesOf (R := R)).map Doc.obj := by
  rw [document, entryDocuments_eq]
  unfold entriesOf
  cases sortItems R (es.map fun e => (e.1, document R depth e.2)) with
  | error e => rfl
  | ok items =>
    dsimp only [bind, Except.bind, Except.map]
    cases (items.mapM fun e => do return (← keyText R e.1, ← e.2) : Except (EncodeError F) _) <;> rfl

/-- String keys are in the same order afterwards, whatever their order was. -/
theorem sortItems_perm {α : Type} {items items' : List (Scalar F × α)} (hp : items.Perm items')
    (hs : ∀ e ∈ items, e.1.isStr = true) (hnodup : ((strings items).map Prod.fst).Nodup) :
    sortItems R items = sortItems R items' := by
  have hs' : ∀ e ∈ items', e.1.isStr = true := fun e he => hs e (hp.mem_iff.mpr he)
  have hstrings : (strings items).Perm (strings items') := hp.map _
  rw [← keyed_strings hs, ← keyed_strings hs', sortItems_keyed, sortItems_keyed, sorted_unique hstrings hnodup]

theorem mapM_congr_map {α β ε : Type} {f : α → Except ε β} {xs ys : List α} (h : xs.map f = ys.map f) :
    xs.mapM f = ys.mapM f := by
  induction xs generalizing ys with
  | nil =>
    cases ys with
    | nil => rfl
    | cons y ys => cases h
  | cons x xs ih =>
    cases ys with
    | nil => cases h
    | cons y ys =>
      rw [List.map_cons, List.map_cons, List.cons.injEq] at h
      rw [List.mapM_cons, List.mapM_cons, h.1, ih h.2]

/-- The partners of the entries are the entries of the other dictionary. -/
theorem partners_perm {es fs : List (Scalar F × Value F)} {partner : Scalar F × Value F → Value F}
    (hnodup : (es.map Prod.fst).Nodup) (hlength : es.length = fs.length) (hmem : ∀ e ∈ es, (e.1, partner e) ∈ fs) :
    (es.map fun e => (e.1, partner e)).Perm fs := by
  have hkeys : ((es.map fun e => (e.1, partner e)).map Prod.fst).Nodup := by
    rw [List.map_map]
    exact hnodup
  have hsub : (es.map fun e => (e.1, partner e)) ⊆ fs := by
    intro d hd
    obtain ⟨e, he, rfl⟩ := List.mem_map.mp hd
    exact hmem e he
  refine ((List.Nodup.of_map _ hkeys).subperm hsub).perm_of_length_le ?_
  rw [List.length_map, hlength]

/-- The document of a value with string keys does not depend on their order. -/
theorem document_reordered {v w : Value F} (hv : v.Proper R) (hs : v.StringKeys) (h : v.Reordered w) (depth : ℕ) :
    document R depth v = document R depth w := by
  induction h generalizing depth with
  | scalar => rfl
  | @list xs ys hlength h ih =>
    cases depth with
    | zero => rfl
    | succ depth =>
      cases hv with
      | list hv =>
        cases hs with
        | list hs =>
          have hmap : xs.map (document R depth) = ys.map (document R depth) := by
            refine List.ext_getElem (by simpa using hlength) fun i hi hi' => ?_
            rw [List.length_map] at hi hi'
            rw [List.getElem_map, List.getElem_map]
            exact ih i hi hi' (hv _ (List.get_mem xs ⟨i, hi⟩)) (hs _ (List.get_mem xs ⟨i, hi⟩)) depth
          rw [document, document, documents_eq, documents_eq, mapM_congr_map hmap]
  | @dict es fs partner hlength hmem h ih =>
    cases depth with
    | zero => rfl
    | succ depth =>
      cases hv with
      | dict hkeys hv =>
        cases hs with
        | dict hsk hs =>
          have hstrings := strings_nodup hkeys hsk
          have hperm := partners_perm (keys_nodup hkeys hsk) hlength hmem
          have hitems : (es.map fun e => (e.1, document R depth e.2)) =
              (es.map fun e => (e.1, partner e)).map fun e => (e.1, document R depth e.2) := by
            rw [List.map_map]
            refine List.map_congr_left fun e he => ?_
            rw [Function.comp_apply, ih e he (hv e he) (hs e he) depth]
          have hsort : sortItems R (es.map fun e => (e.1, document R depth e.2)) =
              sortItems R (fs.map fun e => (e.1, document R depth e.2)) := by
            refine sortItems_perm ?_ ?_ ?_
            · rw [hitems]
              exact hperm.map _
            · intro e he
              obtain ⟨d, hd, rfl⟩ := List.mem_map.mp he
              exact hsk d hd
            · rw [strings_map, List.map_map]
              exact hstrings
          rw [document_dict, document_dict, hsort]

/-! ## Documents of values -/

section Inversion

variable {depth : ℕ} {doc : Doc (Num F)}

theorem document_list_ok {xs : List (Value F)} (h : document R depth (.list xs) = .ok doc) :
    ∃ d ys, depth = d + 1 ∧ doc = .arr ys ∧ List.Forall₂ (fun x y => document R d x = .ok y) xs ys := by
  cases depth with
  | zero => cases h
  | succ d =>
    rw [document, documents_eq] at h
    obtain ⟨ys, hys, h⟩ := bind_ok.mp h
    cases h
    exact ⟨d, ys, rfl, rfl, mapM_iff.mp hys⟩

/-- The entries of the document are those of the dictionary, in the order of the keys. -/
theorem document_dict_ok {es : List (Scalar F × Value F)} (h : document R depth (.dict es) = .ok doc) :
    ∃ d items fs, depth = d + 1 ∧ doc = .obj fs ∧ items.Perm es ∧
      List.Forall₂ (fun e f => keyText R e.1 = .ok f.1 ∧ document R d e.2 = .ok f.2) items fs := by
  cases depth with
  | zero => cases h
  | succ d =>
    rw [document, entryDocuments_eq] at h
    obtain ⟨sorted, hsorted, h⟩ := bind_ok.mp h
    obtain ⟨fs, hfs, h⟩ := bind_ok.mp h
    cases h
    refine ⟨d, es.insertionSort fun a b => b.1.lt R a.1 = false, fs, rfl, rfl, List.perm_insertionSort _ es, ?_⟩
    have hmap : sorted = (es.insertionSort fun a b => b.1.lt R a.1 = false).map fun e => (e.1, document R d e.2) := by
      unfold sortItems at hsorted
      split at hsorted
      · rw [← Except.ok.inj hsorted]
        exact (List.map_insertionSort (fun a b : Scalar F × Value F => b.1.lt R a.1 = false)
          (fun a b : Scalar F × Except (EncodeError F) (Doc (Num F)) => b.1.lt R a.1 = false)
          (fun e => (e.1, document R d e.2)) es fun a _ b _ => Iff.rfl).symm
      · cases hsorted
    rw [hmap] at hfs
    have hall := mapM_iff.mp hfs
    rw [List.forall₂_map_left_iff] at hall
    refine hall.imp fun e f hef => ?_
    obtain ⟨k, hk, hef⟩ := bind_ok.mp hef
    obtain ⟨x, hx, hef⟩ := bind_ok.mp hef
    cases hef
    exact ⟨hk, hx⟩

theorem float_ok {x y : F} (h : float R x = .ok y) : y = x ∧ R.isFinite x = true := by
  unfold float at h
  split at h
  · rename_i hx
    exact ⟨(Except.ok.inj h).symm, hx⟩
  · cases h

theorem integer_ok {n m : ℤ} (h : (integer n : Except (EncodeError F) ℤ) = .ok m) :
    m = n ∧ (Nat.toDigits 10 n.natAbs).length ≤ maxDigits := by
  unfold integer at h
  split at h
  · rename_i hn
    exact ⟨(Except.ok.inj h).symm, hn⟩
  · cases h

/-- A scalar is read as it was written. -/
theorem ofDoc_scalar {a : Scalar F} (h : scalarDocument R a = .ok doc) : ofDoc doc = .scalar a := by
  cases a with
  | none => cases h; rfl
  | bool b => cases h; rfl
  | str s => cases h; rfl
  | int n =>
    obtain ⟨m, hm, h⟩ := bind_ok.mp h
    cases h
    rw [ofDoc, (integer_ok hm).1]
  | float x =>
    obtain ⟨y, hy, h⟩ := bind_ok.mp h
    cases h
    rw [ofDoc, (float_ok hy).1]

theorem ofDocs_eq (xs : List (Doc (Num F))) : ofDocs xs = xs.map ofDoc := by
  induction xs with
  | nil => rfl
  | cons x xs ih => rw [ofDocs, ih, List.map_cons]

theorem ofEntries_eq (es : List (Str × Doc (Num F))) : ofEntries es = es.map fun e => (.str e.1, ofDoc e.2) := by
  induction es with
  | nil => rfl
  | cons e es ih =>
    obtain ⟨k, x⟩ := e
    rw [ofEntries, ih, List.map_cons, ofEntry]

theorem keyText_str {k : Scalar F} {s : Str} (hk : k.isStr = true) (h : keyText R k = .ok s) : k = .str s := by
  cases k with
  | str t => cases h; rfl
  | none => cases hk
  | bool b => cases hk
  | int n => cases hk
  | float x => cases hk

/-! ### What the document keeps -/

/-- Keys and scalars are kept. -/
theorem everywhere_ofDoc {K A : Scalar F → Prop} {v : Value F} (hs : v.StringKeys) (hv : v.Everywhere K A)
    (h : document R depth v = .ok doc) : (ofDoc doc).Everywhere K A := by
  induction v using Value.induct generalizing depth doc with
  | scalar a =>
    rw [document] at h
    rw [ofDoc_scalar h]
    exact hv
  | list xs ih =>
    obtain ⟨d, ys, rfl, rfl, hall⟩ := document_list_ok h
    cases hs with
    | list hs =>
      cases hv with
      | list hv =>
        rw [ofDoc, ofDocs_eq]
        refine .list fun u hu => ?_
        obtain ⟨y, hy, rfl⟩ := List.mem_map.mp hu
        obtain ⟨x, hx, hxy⟩ := exists_left hall y hy
        exact ih x hx (hs x hx) (hv x hx) hxy
  | dict es ih =>
    obtain ⟨d, items, fs, rfl, rfl, hperm, hall⟩ := document_dict_ok h
    cases hs with
    | dict hsk hs =>
      cases hv with
      | dict hkeys hv =>
        rw [ofDoc, ofEntries_eq]
        refine .dict (fun u hu => ?_) fun u hu => ?_
        · obtain ⟨f, hf, rfl⟩ := List.mem_map.mp hu
          obtain ⟨e, he, hkey, -⟩ := exists_left hall f hf
          have he' := hperm.mem_iff.mp he
          rw [← keyText_str (hsk e he') hkey]
          exact hkeys e he'
        · obtain ⟨f, hf, rfl⟩ := List.mem_map.mp hu
          obtain ⟨e, he, -, hvalue⟩ := exists_left hall f hf
          have he' := hperm.mem_iff.mp he
          exact ih e he' (hs e he') (hv e he') hvalue

/-- A float that has a text is finite. -/
def Scalar.Finite (R : Floats F) : Scalar F → Prop
  | .float x => R.isFinite x = true
  | _ => True

theorem finite_of_document {v : Value F} (h : document R depth v = .ok doc) :
    v.Everywhere (fun _ => True) (Scalar.Finite R) := by
  induction v using Value.induct generalizing depth doc with
  | scalar a =>
    refine .scalar ?_
    cases a with
    | float x =>
      obtain ⟨y, hy, -⟩ := bind_ok.mp h
      exact (float_ok hy).2
    | none => trivial
    | bool b => trivial
    | int n => trivial
    | str s => trivial
  | list xs ih =>
    obtain ⟨d, ys, rfl, rfl, hall⟩ := document_list_ok h
    refine .list fun x hx => ?_
    obtain ⟨y, -, hxy⟩ := exists_right hall x hx
    exact ih x hx hxy
  | dict es ih =>
    obtain ⟨d, items, fs, rfl, rfl, hperm, hall⟩ := document_dict_ok h
    refine .dict (fun _ _ => trivial) fun e he => ?_
    obtain ⟨f, -, -, hvalue⟩ := exists_right hall e (hperm.mem_iff.mpr he)
    exact ih e he hvalue

theorem magnitude_eq_self {x : F} (h : R.isFinite x = true) : (R.magnitude x).eq (R.magnitude x) = true := by
  unfold Floats.isFinite at h
  cases hm : R.magnitude x with
  | finite q => simp [Magnitude.eq]
  | infinite b => rw [hm] at h; cases h
  | nan => rw [hm] at h; cases h

theorem scalar_eq_self {a : Scalar F} (h : a.Finite R) : a.eq R a = true := by
  cases a with
  | none => rfl
  | bool b => cases b <;> simp [Scalar.eq, Scalar.magnitude, Magnitude.eq]
  | int n => simp [Scalar.eq, Scalar.magnitude, Magnitude.eq]
  | float x => exact magnitude_eq_self h
  | str s => simp [Scalar.eq]

/-- A value with string keys is equal to the one its document stands for. -/
theorem eq_ofDoc {v : Value F} (hv : v.Proper R) (hs : v.StringKeys) (h : document R depth v = .ok doc) :
    v.eq R (ofDoc doc) = true := by
  have hfinite := finite_of_document h
  induction v using Value.induct generalizing depth doc with
  | scalar a =>
    rw [document] at h
    rw [ofDoc_scalar h]
    cases hfinite with
    | scalar hfinite => exact scalar_eq_self hfinite
  | list xs ih =>
    obtain ⟨d, ys, rfl, rfl, hall⟩ := document_list_ok h
    cases hv with
    | list hv =>
      cases hs with
      | list hs =>
        cases hfinite with
        | list hfinite =>
          rw [ofDoc, ofDocs_eq, Value.eq, Value.eqItems_iff, List.forall₂_map_right_iff]
          clear h
          induction hall with
          | nil => exact .nil
          | @cons x y xs ys hxy _ ihs =>
            simp only [List.forall_mem_cons] at ih hv hs hfinite
            exact .cons (ih.1 hv.1 hs.1 hxy hfinite.1) (ihs ih.2 hv.2 hs.2 hfinite.2)
  | dict es ih =>
    obtain ⟨d, items, fs, rfl, rfl, hperm, hall⟩ := document_dict_ok h
    cases hv with
    | dict hkeys hv =>
      cases hs with
      | dict hsk hs =>
        cases hfinite with
        | dict _ hfinite =>
          have hlength : es.length = fs.length := hperm.length_eq.symm.trans hall.length_eq
          rw [ofDoc, ofEntries_eq, Value.eq, List.length_map, decide_eq_true hlength, Bool.true_and,
            Value.eqEntries_iff]
          intro e he
          obtain ⟨f₀, hf₀, hkey₀, -⟩ := exists_right hall e (hperm.mem_iff.mpr he)
          have hmatch : e.1.eq R (.str f₀.1) = true := by
            rw [keyText_str (hsk e he) hkey₀]
            exact scalar_eq_self trivial
          cases hfind : (fs.map fun f => (Scalar.str f.1, ofDoc f.2)).find? fun f => e.1.eq R f.1 with
          | none => exact absurd hmatch (List.find?_eq_none.mp hfind _ (List.mem_map_of_mem hf₀))
          | some u =>
            obtain ⟨f, hf, rfl⟩ := List.mem_map.mp (List.mem_of_find?_eq_some hfind)
            have heq : e.1.eq R (.str f.1) = true :=
              List.find?_some (p := fun f : Scalar F × Value F => e.1.eq R f.1) hfind
            obtain ⟨e', he', hkey, hvalue⟩ := exists_left hall f hf
            have hmem := hperm.mem_iff.mp he'
            have hkey₁ := keyText_str (hsk e he) hkey₀
            have hsame : e.1 = e'.1 := by
              rw [hkey₁] at heq
              rw [hkey₁, keyText_str (hsk e' hmem) hkey]
              simpa [Scalar.eq] using heq
            obtain rfl : e = e' := List.inj_on_of_nodup_map (keys_nodup hkeys hsk) he hmem hsame
            exact ⟨_, rfl, ih e he (hv e he) (hs e he) hvalue (hfinite e he)⟩

/-! ### Reading a document back -/

theorem mem_print_arr {fmt : Format} {xs : List (Doc (Num F))} {x : Doc (Num F)} (hx : x ∈ xs) {p : Point}
    (hp : p ∈ fmt.print (Num.text R) x) : p ∈ fmt.print (Num.text R) (.arr xs) := by
  cases xs with
  | nil => cases hx
  | cons y ys =>
    have hitems : ∀ ys : List (Doc (Num F)), x ∈ ys → p ∈ fmt.printItems (Num.text R) ys := by
      intro ys
      induction ys with
      | nil => exact fun h => absurd h (by simp)
      | cons z zs ih =>
        intro h
        rw [Format.printItems, List.mem_append, List.mem_append]
        rcases List.mem_cons.mp h with rfl | h
        · exact Or.inl (Or.inr hp)
        · exact Or.inr (ih h)
    rw [Format.print]
    simp only [List.mem_append, List.mem_cons]
    rcases List.mem_cons.mp hx with rfl | hx
    · exact Or.inl (Or.inl (Or.inr hp))
    · exact Or.inl (Or.inr (hitems ys hx))

theorem mem_print_obj {fmt : Format} {fs : List (Str × Doc (Num F))} {f : Str × Doc (Num F)} (hf : f ∈ fs) {p : Point}
    (hp : p ∈ fmt.printEntry (Num.text R) f) : p ∈ fmt.print (Num.text R) (.obj fs) := by
  cases fs with
  | nil => cases hf
  | cons g gs =>
    have hentries : ∀ gs : List (Str × Doc (Num F)), f ∈ gs → p ∈ fmt.printEntries (Num.text R) gs := by
      intro gs
      induction gs with
      | nil => exact fun h => absurd h (by simp)
      | cons z zs ih =>
        intro h
        rw [Format.printEntries, List.mem_append, List.mem_append]
        rcases List.mem_cons.mp h with rfl | h
        · exact Or.inl (Or.inr hp)
        · exact Or.inr (ih h)
    rw [Format.print]
    simp only [List.mem_append, List.mem_cons]
    rcases List.mem_cons.mp hf with rfl | hf
    · exact Or.inl (Or.inl (Or.inr hp))
    · exact Or.inl (Or.inr (hentries gs hf))

/-- A surrogate is written as it is. -/
theorem surrogate_printString {s : Str} {n : Fin 2048} (h : Point.surrogate n ∈ s) :
    Point.surrogate n ∈ printString false s := by
  unfold printString
  refine List.mem_append_left _ (List.mem_cons_of_mem _ (List.mem_flatMap.mpr ⟨_, h, ?_⟩))
  exact List.mem_singleton_self _

/-- No surrogate. -/
def Scalar.Encodable : Scalar F → Prop
  | .str s => ∀ n, Point.surrogate n ∉ s
  | _ => True

/-- What has a text in UTF-8 has no surrogates. -/
theorem encodable_of_text {v : Value F} (hs : v.StringKeys) (h : document R depth v = .ok doc)
    (htext : ∀ n, Point.surrogate n ∉ Format.print ⟨false, false⟩ (Num.text R) doc) :
    v.Everywhere Scalar.Encodable Scalar.Encodable := by
  induction v using Value.induct generalizing depth doc with
  | scalar a =>
    refine .scalar ?_
    cases a with
    | str s =>
      cases h
      exact fun n hn => htext n (surrogate_printString hn)
    | none => trivial
    | bool b => trivial
    | int n => trivial
    | float x => trivial
  | list xs ih =>
    obtain ⟨d, ys, rfl, rfl, hall⟩ := document_list_ok h
    cases hs with
    | list hs =>
      refine .list fun x hx => ?_
      obtain ⟨y, hy, hxy⟩ := exists_right hall x hx
      exact ih x hx (hs x hx) hxy fun n hn => htext n (mem_print_arr hy hn)
  | dict es ih =>
    obtain ⟨d, items, fs, rfl, rfl, hperm, hall⟩ := document_dict_ok h
    cases hs with
    | dict hsk hs =>
      have hentry : ∀ e ∈ es, ∃ f ∈ fs, keyText R e.1 = .ok f.1 ∧ document R d e.2 = .ok f.2 :=
        fun e he => exists_right hall e (hperm.mem_iff.mpr he)
      refine .dict (fun e he => ?_) fun e he => ?_
      · obtain ⟨⟨k, x⟩, hf, hkey, -⟩ := hentry e he
        rw [keyText_str (hsk e he) hkey]
        refine fun n hn => htext n (mem_print_obj hf ?_)
        rw [Format.printEntry, List.mem_append, List.mem_append]
        exact Or.inl (Or.inl (surrogate_printString hn))
      · obtain ⟨⟨k, x⟩, hf, -, hvalue⟩ := hentry e he
        refine ih e he (hs e he) hvalue fun n hn => htext n (mem_print_obj hf ?_)
        rw [Format.printEntry, List.mem_append]
        exact Or.inr hn

/-! ### Integers -/

theorem toDigits_head {n : ℕ} (h : 0 < n) : ∃ c cs, Nat.toDigits 10 n = c :: cs ∧ c ≠ '0' := by
  induction n using Nat.strongRecOn with
  | ind n ih =>
    by_cases hn : n < 10
    · refine ⟨n.digitChar, [], Nat.toDigits_of_lt_base hn, ?_⟩
      have hall : ∀ m < 10, 0 < m → m.digitChar ≠ '0' := by decide
      exact hall n hn h
    · obtain ⟨c, cs, hc, hne⟩ := ih (n / 10) (by omega) (by omega)
      rw [Nat.toDigits_of_base_le (by decide) (by omega), hc]
      exact ⟨c, _, rfl, hne⟩

theorem digits_ofChars {cs : List Char} (h : ∀ c ∈ cs, c.isDigit = true) : digits (ofChars cs) = (cs, []) := by
  induction cs with
  | nil => rfl
  | cons c cs ih =>
    rw [List.forall_mem_cons] at h
    have hrest := ih h.2
    rw [ofChars] at hrest
    rw [ofChars, List.map_cons, digits, if_pos h.1, hrest]

theorem isDigit_toDigits {n : ℕ} : ∀ c ∈ Nat.toDigits 10 n, c.isDigit = true :=
  fun _ hc => Nat.isDigit_of_mem_toDigits (by decide) (by decide) hc

theorem integer_toDigits (n : ℕ) : Json.integer (ofChars (Nat.toDigits 10 n)) = some (Nat.toDigits 10 n, []) := by
  rcases Nat.eq_zero_or_pos n with rfl | hn
  · rw [Nat.toDigits_zero]
    rfl
  · obtain ⟨c, cs, hc, hne⟩ := toDigits_head hn
    have hdigits := digits_ofChars (isDigit_toDigits (n := n))
    rw [hc] at hdigits ⊢
    rw [ofChars, List.map_cons] at hdigits ⊢
    rw [Json.integer, if_neg (by simpa using hne), hdigits]
    exact if_neg (by simp)

theorem lexeme_integerText (n : ℤ) : Lexeme (integerText n) := by
  unfold Lexeme integerText
  rw [lexeme_eq]
  by_cases hn : n < 0
  · rw [if_pos hn]
    have hsign : sign false (ofChars ('-' :: Nat.toDigits 10 n.natAbs)) = (['-'], ofChars (Nat.toDigits 10 n.natAbs)) := rfl
    rw [hsign, integer_toDigits]
    simp [fraction, exponent]
  · rw [if_neg hn]
    have hsign : sign false (ofChars (Nat.toDigits 10 n.natAbs)) = ([], ofChars (Nat.toDigits 10 n.natAbs)) := by
      cases hd : Nat.toDigits 10 n.natAbs with
      | nil => rfl
      | cons c cs =>
        have hdigit : c.isDigit = true := isDigit_toDigits c (by rw [hd]; exact List.mem_cons_self)
        have hminus : c ≠ '-' := by
          rintro rfl
          exact absurd hdigit (by decide)
        rw [ofChars, List.map_cons, sign, if_neg (by simpa using hminus), if_neg (by simp)]
    rw [hsign, integer_toDigits]
    simp [fraction, exponent]

theorem integerText_chars (n : ℤ) : ∀ c ∈ integerText n, c = '-' ∨ c.isDigit = true := by
  intro c hc
  unfold integerText at hc
  split at hc
  · rcases List.mem_cons.mp hc with rfl | hc
    · exact Or.inl rfl
    · exact Or.inr (isDigit_toDigits c hc)
  · exact Or.inr (isDigit_toDigits c hc)

theorem readInteger_integerText {n : ℤ} (h : (Nat.toDigits 10 n.natAbs).length ≤ maxDigits) :
    readInteger (integerText n) = some n := by
  unfold integerText
  by_cases hn : n < 0
  · rw [if_pos hn, readInteger, if_pos h, Nat.ofDigitChars_ten_toDigits]
    congr 1
    omega
  · rw [if_neg hn]
    have hread : readInteger (Nat.toDigits 10 n.natAbs) =
        some (Nat.ofDigitChars 10 (Nat.toDigits 10 n.natAbs) 0 : ℤ) := by
      unfold readInteger
      split
      · rename_i ds hds
        have hdigit : ('-').isDigit = true := isDigit_toDigits '-' (by rw [hds]; exact List.mem_cons_self)
        exact absurd hdigit (by decide)
      · exact if_pos h
    rw [hread, Nat.ofDigitChars_ten_toDigits]
    congr 1
    omega

theorem read_integerText {n : ℤ} (h : (Nat.toDigits 10 n.natAbs).length ≤ maxDigits) :
    (numbers R).read (integerText n) = some (.int n) := by
  have hother : ∀ c, c ≠ '-' → c.isDigit = false → c ∉ integerText n := by
    intro c hm hd hc
    rcases integerText_chars n c hc with rfl | hc
    · exact hm rfl
    · rw [hd] at hc
      cases hc
  have hconstant : ¬(integerText n = "NaN".toList ∨ integerText n = "Infinity".toList ∨
      integerText n = "-Infinity".toList) := by
    rintro (he | he | he)
    · exact hother 'N' (by decide) (by decide) (by rw [he]; decide)
    · exact hother 'I' (by decide) (by decide) (by rw [he]; decide)
    · exact hother 'I' (by decide) (by decide) (by rw [he]; decide)
  have hmark : ¬((integerText n).any fun c => c = '.' || c = 'e' || c = 'E') = true := by
    rw [List.any_eq_true]
    rintro ⟨c, hc, hmark⟩
    simp only [Bool.or_eq_true, decide_eq_true_eq] at hmark
    rcases hmark with (rfl | rfl) | rfl
    · exact hother '.' (by decide) (by decide) hc
    · exact hother 'e' (by decide) (by decide) hc
    · exact hother 'E' (by decide) (by decide) hc
  unfold numbers
  dsimp only
  rw [if_neg hconstant, if_neg hmark, readInteger_integerText h]
  rfl

/-- A finite float is read as itself. -/
theorem read_repr (hR : R.Lawful) {x : F} (h : R.isFinite x = true) : (numbers R).read (R.repr x) = some (.float x) := by
  have hmark : ((R.repr x).any fun c => c = '.' || c = 'e' || c = 'E') = true := by
    obtain ⟨c, hc, hmark⟩ := hR.marked x h
    refine List.any_eq_true.mpr ⟨c, hc, ?_⟩
    simpa [or_assoc] using hmark
  unfold numbers
  dsimp only
  rw [hR.parse_repr x h, if_pos hmark, ite_self]

/-- The document of a value is written so that it can be read again. -/
theorem readable (hR : R.Lawful) {v : Value F} (hv : v.Proper R) (hs : v.StringKeys)
    (h : document R depth v = .ok doc) : Readable (numbers R) (Num.text R) false depth doc := by
  induction v using Value.induct generalizing depth doc with
  | scalar a =>
    cases a with
    | none => cases h; exact .null
    | bool b => cases h; exact .bool
    | str s => cases h; exact .str (Or.inl rfl)
    | int n =>
      obtain ⟨m, hm, h⟩ := bind_ok.mp h
      cases h
      obtain ⟨rfl, hlength⟩ := integer_ok hm
      exact .num (lexeme_integerText m) (read_integerText hlength)
    | float x =>
      obtain ⟨y, hy, h⟩ := bind_ok.mp h
      cases h
      obtain ⟨rfl, hfinite⟩ := float_ok hy
      exact .num (hR.lexeme y hfinite) (read_repr hR hfinite)
  | list xs ih =>
    obtain ⟨d, ys, rfl, rfl, hall⟩ := document_list_ok h
    cases hv with
    | list hv =>
      cases hs with
      | list hs =>
        refine .arr fun y hy => ?_
        obtain ⟨x, hx, hxy⟩ := exists_left hall y hy
        exact ih x hx (hv x hx) (hs x hx) hxy
  | dict es ih =>
    obtain ⟨d, items, fs, rfl, rfl, hperm, hall⟩ := document_dict_ok h
    cases hv with
    | dict hkeys hv =>
      cases hs with
      | dict hsk hs =>
        have hentry : ∀ f ∈ fs, ∃ e ∈ es, e.1 = .str f.1 ∧ document R d e.2 = .ok f.2 := by
          intro f hf
          obtain ⟨e, he, hkey, hvalue⟩ := exists_left hall f hf
          exact ⟨e, hperm.mem_iff.mp he, keyText_str (hsk e (hperm.mem_iff.mp he)) hkey, hvalue⟩
        refine .obj ?_ (fun _ _ => Or.inl rfl) fun f hf => ?_
        · have hitems : ((strings items).map Prod.fst).Nodup :=
            ((hperm.map _).map _).nodup_iff.mpr (strings_nodup hkeys hsk)
          have hsame : fs.map Prod.fst = (strings items).map Prod.fst := by
            have hkeyed : ∀ e ∈ items, e.1.isStr = true := fun e he => hsk e (hperm.mem_iff.mp he)
            clear hentry hperm h ih hkeys hitems
            induction hall with
            | nil => rfl
            | @cons e f items fs hef _ ihs =>
              rw [List.forall_mem_cons] at hkeyed
              rw [List.map_cons, ihs hkeyed.2]
              unfold strings
              rw [List.map_cons, List.map_cons, keyText_str hkeyed.1 hef.1]
              rfl
          rw [hsame]
          exact hitems
        · obtain ⟨e, he, -, hvalue⟩ := hentry f hf
          exact ih e he (hv e he) (hs e he) hvalue

/-- The text of a value with string keys is read as an equal value. -/
theorem loads_compact (hR : R.Lawful) {v : Value F} (hv : v.Proper R) (hs : v.StringKeys)
    (h : document R depth v = .ok doc) :
    loads R depth (Format.print ⟨false, false⟩ (Num.text R) doc) = .ok (ofDoc doc) := by
  have hparse : parse (numbers R) depth (Format.print ⟨false, false⟩ (Num.text R) doc) = .ok doc :=
    parse_print (readable hR hv hs h)
  unfold loads
  rw [hparse]
  rfl

theorem loads_ok {text : Str} {u : Value F} (h : loads R depth text = .ok u) : ∃ doc, u = ofDoc doc := by
  unfold loads at h
  cases hp : parse (numbers R) depth text with
  | error e => rw [hp] at h; cases h
  | ok doc =>
    rw [hp] at h
    exact ⟨doc, (Except.ok.inj h).symm⟩

theorem mapM_some {α β : Type} {f : α → Option β} {xs : List α} {ys : List β} (h : xs.mapM f = some ys) :
    ∀ x ∈ xs, ∃ y, f x = some y := by
  induction xs generalizing ys with
  | nil => exact fun x hx => absurd hx (by simp)
  | cons x xs ih =>
    rw [List.mapM_cons] at h
    obtain ⟨y, hy, h⟩ := Option.bind_eq_some_iff.mp h
    obtain ⟨ys', hys, -⟩ := Option.bind_eq_some_iff.mp h
    exact List.forall_mem_cons.mpr ⟨⟨y, hy⟩, ih hys⟩

/-- What has UTF-8 has no surrogates. -/
theorem surrogates_of_encodeUtf8 {text : Str} {bytes : List UInt8}
    (h : (encodeUtf8 text : Except (EncodeError F) (List UInt8)) = .ok bytes) (n : Fin 2048) :
    Point.surrogate n ∉ text := by
  intro hn
  unfold encodeUtf8 at h
  split at h
  · rename_i bs hbs
    obtain ⟨b, hb⟩ := mapM_some hbs _ hn
    cases hb
  · cases h

/-- The keys of what is read are strings. -/
theorem stringKeys_ofDoc (doc : Doc (Num F)) : (ofDoc doc).StringKeys := by
  refine @Doc.rec (Num F) (fun x => (ofDoc x).StringKeys) (fun xs => ∀ x ∈ xs, (ofDoc x).StringKeys)
    (fun es => ∀ e ∈ es, (ofDoc e.2).StringKeys) (fun e => (ofDoc e.2).StringKeys) ?_ ?_ ?_ ?_ ?_ ?_ (by simp)
    (fun _ _ hx hxs => List.forall_mem_cons.mpr ⟨hx, hxs⟩) (by simp)
    (fun _ _ he hes => List.forall_mem_cons.mpr ⟨he, hes⟩) (fun _ _ h => h) doc
  · exact .scalar trivial
  · exact fun b => .scalar trivial
  · intro x
    cases x <;> exact .scalar trivial
  · exact fun s => .scalar trivial
  · intro xs h
    rw [ofDoc, ofDocs_eq]
    refine .list fun u hu => ?_
    obtain ⟨x, hx, rfl⟩ := List.mem_map.mp hu
    exact h x hx
  · intro es h
    rw [ofDoc, ofEntries_eq]
    refine .dict (fun u hu => ?_) fun u hu => ?_
    · obtain ⟨e, -, rfl⟩ := List.mem_map.mp hu
      rfl
    · obtain ⟨e, he, rfl⟩ := List.mem_map.mp hu
      exact h e he

end Inversion

end Text.Python
