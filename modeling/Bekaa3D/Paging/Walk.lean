import Bekaa3D.Paging.Keyset

/-!
# Paging.Walk — following the cursors of a list

* `Walk`: requests one after another, each with the cursor of the page before it and each on the table of its time.
* `Page.step`: one request of a walk serves the head of what is left, and leads to the tail.
* `Lossless`: what a walk serves, on a table that stays as it is and on one that changes; `Listing.lossless`.
-/

namespace Paging

section Walk

variable {T I E : Type} (request : T → Option String → Except E (Page I String))

/-- Requests from a cursor on, with the tables that they read, their pages, and the cursor of the last page. -/
inductive Walk : Option String → List T → List (Page I String) → Option String → Prop where
  | one {t : T} {cursor : Option String} {page : Page I String} (h : request t cursor = .ok page) :
      Walk cursor [t] [page] page.next
  | more {t : T} {ts : List T} {cursor last : Option String} {page : Page I String} {pages : List (Page I String)}
      {raw : String} (h : request t cursor = .ok page) (hn : page.next = some raw) (hw : Walk (some raw) ts pages last) :
      Walk cursor (t :: ts) (page :: pages) last

/-- The items of the pages, in order. -/
def served (pages : List (Page I String)) : List I := pages.flatMap Page.items

variable {V K : Type} [LinearOrder K]

/-- A list endpoint loses and repeats nothing: `rows` are those of the table, `p` the filter, `key` the order, and
`shown` reads the key of a row off its item. -/
structure Lossless (rows : T → List V) (p : V → Bool) (key : V → K) (render : V → I) (shown : I → K)
    (limit : ℕ) : Prop where
  /-- On one table: the matching rows in order, in that many pages, and no others. -/
  static : ∀ t, ∃ pages, Walk request none (List.replicate pages.length t) pages none ∧
    (served pages).Pairwise (fun item item' => shown item < shown item') ∧
    (∀ item, item ∈ served pages ↔ ∃ v ∈ rows t, p v = true ∧ render v = item) ∧
    pages.length = max 1 ((((rows t).filter p).length + limit - 1) / limit) ∧
    ∀ pages', Walk request none (List.replicate pages'.length t) pages' none → pages' = pages
  /-- On changing tables: what is served matches in its time. -/
  matching : ∀ ts pages last, Walk request none ts pages last →
    List.Forall₂ (fun t (page : Page I String) => ∀ item ∈ page.items, ∃ v ∈ rows t, p v = true ∧ render v = item)
      ts pages
  monotone : ∀ ts pages last, Walk request none ts pages last →
    (served pages).Pairwise fun item item' => shown item < shown item'
  /-- A row that matches throughout, with one key, is served once. -/
  once : ∀ ts pages, Walk request none ts pages none →
    ∀ k, (∀ t ∈ ts, ∃ v ∈ rows t, p v = true ∧ key v = k) → ((served pages).map shown).count k = 1

/-- From one cursor, on one table, there is one walk to the end. -/
theorem Walk.unique {t : T} {cursor : Option String} {ts ts' : List T} {pages pages' : List (Page I String)}
    (h : Walk request cursor ts pages none) (h' : Walk request cursor ts' pages' none) (ht : ∀ x ∈ ts, x = t)
    (ht' : ∀ x ∈ ts', x = t) : pages' = pages := by
  generalize hlast : (none : Option String) = last at h
  induction h generalizing ts' pages' with
  | @one t₁ cursor page hr =>
    obtain rfl := ht t₁ (by simp)
    generalize hlast' : (none : Option String) = last' at h'
    cases h' with
    | @one t₂ _ page' hr' =>
      obtain rfl := ht' t₂ (by simp)
      rw [hr] at hr'
      cases hr'
      rfl
    | @more t₂ ts₂ _ _ page' pages₂ raw hr' hn hw =>
      obtain rfl := ht' t₂ (by simp)
      rw [hr] at hr'
      cases hr'
      rw [← hlast] at hn
      cases hn
  | @more t₁ ts₁ cursor last page pages₁ raw hr hn hw ih =>
    obtain rfl := ht t₁ (by simp)
    generalize hlast' : (none : Option String) = last' at h'
    cases h' with
    | @one t₂ _ page' hr' =>
      obtain rfl := ht' t₂ (by simp)
      rw [hr] at hr'
      cases hr'
      rw [← hlast'] at hn
      cases hn
    | @more t₂ ts₂ _ _ page' pages₂ raw' hr' hn' hw' =>
      obtain rfl := ht' t₂ (by simp)
      rw [hr] at hr'
      cases hr'
      rw [hn] at hn'
      cases hn'
      subst hlast'
      rw [ih hw' (fun x hx => ht x (by simp [hx])) (fun x hx => ht' x (by simp [hx])) hlast]

/-- A walk begins with an answer. -/
theorem Walk.first {cursor last : Option String} {ts : List T} {pages : List (Page I String)}
    (hw : Walk request cursor ts pages last) : ∃ t ∈ ts, ∃ page, request t cursor = .ok page := by
  cases hw with
  | @one t cursor page h => exact ⟨t, by simp, page, h⟩
  | @more t ts cursor last page pages raw h hn hw => exact ⟨t, by simp, page, h⟩

/-- A walk on one endpoint is a walk on another one whose pages lead on by the same cursors. -/
theorem Walk.simulate {I' E' : Type} {request : T → Option String → Except E (Page I String)}
    {request' : T → Option String → Except E' (Page I' String)} {good : Option String → Prop}
    {rel : Page I String → Page I' String → Prop} {t : T}
    (h : ∀ cursor page, good cursor → request t cursor = .ok page → ∃ page', request' t cursor = .ok page' ∧
      page'.next = page.next ∧ rel page page' ∧ ∀ raw, page.next = some raw → good (some raw))
    {cursor last : Option String} {ts : List T} {pages : List (Page I String)} (hw : Walk request cursor ts pages last)
    (ht : ∀ x ∈ ts, x = t) (hgood : good cursor) :
    ∃ pages', Walk request' cursor ts pages' last ∧ List.Forall₂ rel pages pages' := by
  induction hw with
  | @one t₁ cursor page hr =>
    obtain rfl := ht t₁ (by simp)
    obtain ⟨page', hr', hnext, hrel, -⟩ := h cursor page hgood hr
    refine ⟨[page'], ?_, .cons hrel .nil⟩
    rw [← hnext]
    exact .one hr'
  | @more t₁ ts cursor last page pages raw hr hn hw ih =>
    obtain rfl := ht t₁ (by simp)
    obtain ⟨page', hr', hnext, hrel, hlead⟩ := h cursor page hgood hr
    obtain ⟨pages', hw', hrels⟩ := ih (fun x hx => ht x (by simp [hx])) (hlead raw hn)
    exact ⟨page' :: pages', .more hr' (hnext.trans hn) hw', .cons hrel hrels⟩

end Walk

namespace Listing

variable {T V I P K X E : Type} [LinearOrder K] {l : Listing V I P K X} {rows : T → List V} {p : V → Bool}
  {limit : ℕ} {refused : X → E} {unbound : E} {shown : I → K}

variable (l rows p limit) in
/-- A request on a table. -/
def request (refused : X → E) (unbound : E) (t : T) (cursor : Option String) : Except E (Page I String) :=
  l.list refused unbound p limit cursor (rows t)

/-- What the page of a request serves of the rows that are left, and what is left after it. -/
structure Step (l : Listing V I P K X) (limit : ℕ) (left : List V) (page : Page I String) : Prop where
  last : page.next = none → page.items = left.map l.render ∧ left.length ≤ limit
  next : ∀ raw, page.next = some raw → ∃ pre v post, left = pre ++ v :: post ∧
    page.items = (pre ++ [v]).map l.render ∧ pre.length + 1 = limit ∧ post ≠ [] ∧ raw = l.cursor v

omit [LinearOrder K] in
theorem step {left : List V} (hl : 0 < limit) : l.Step limit left (l.page limit (left.take (limit + 1))) := by
  constructor
  · intro h
    have hlen := page_last hl h
    refine ⟨?_, hlen⟩
    rw [page_items, List.take_of_length_le hlen]
  · intro raw h
    obtain ⟨pre, v, post, rfl, hlen, hraw, hpost⟩ := page_next h
    refine ⟨pre, v, post, rfl, ?_, hlen, hpost, hraw⟩
    have hlen' : limit = (pre ++ [v]).length := by simp [hlen]
    rw [page_items, List.append_cons pre v post, hlen', List.take_left]

omit [LinearOrder K] in
/-- A page shows the first rows that are left. -/
theorem Step.head {left : List V} {page : Page I String} (h : l.Step limit left page) :
    ∃ vs : List V, vs.Sublist left ∧ page.items = vs.map l.render := by
  cases hn : page.next with
  | none => exact ⟨left, .refl left, (h.last hn).1⟩
  | some raw =>
    obtain ⟨pre, v, post, hleft, hitems, -⟩ := h.next raw hn
    refine ⟨pre ++ [v], ?_, hitems⟩
    rw [hleft, List.append_cons pre v post]
    exact List.sublist_append_left _ _

omit [LinearOrder K] in
theorem Step.items {left : List V} {page : Page I String} (h : l.Step limit left page) {item : I}
    (hi : item ∈ page.items) : ∃ v ∈ left, l.render v = item := by
  obtain ⟨vs, hvs, hitems⟩ := h.head
  rw [hitems] at hi
  obtain ⟨v, hv, rfl⟩ := List.mem_map.mp hi
  exact ⟨v, hvs.subset hv, rfl⟩

/-- A page shows its rows in order. -/
theorem Step.sorted {left : List V} {page : Page I String} (h : l.Step limit left page)
    (hshown : ∀ v, shown (l.render v) = l.key v) (hlt : left.Pairwise fun v v' => l.key v < l.key v') :
    page.items.Pairwise fun item item' => shown item < shown item' := by
  obtain ⟨vs, hvs, hitems⟩ := h.head
  rw [hitems, List.pairwise_map]
  refine (hlt.sublist hvs).imp fun h => ?_
  rw [hshown, hshown]
  exact h

omit [LinearOrder K] in
theorem mem_shown (hshown : ∀ v, shown (l.render v) = l.key v) {v : V} {vs : List V} (hv : v ∈ vs) :
    l.key v ∈ (vs.map l.render).map shown := by
  rw [List.map_map, List.mem_map]
  exact ⟨v, hv, hshown v⟩

/-- A row that is left is a row of the table. -/
theorem mem_rows_of_rest {t : T} {after : Option K} {v : V} {pre post : List V}
    (h : rest l.key p (rows t) after = pre ++ v :: post) : v ∈ rows t :=
  (mem_rest.mp (h ▸ List.mem_append_right pre List.mem_cons_self)).1

variable (hl : 0 < limit) (hnd : ∀ t, ((rows t).map l.key).Nodup)

include hl hnd

/-- One request of a walk. -/
theorem request_step {t : T} {cursor : Option String} {after : Option K} {page : Page I String}
    (hc : Cursor l cursor after) (h : request l rows p limit refused unbound t cursor = .ok page) :
    l.Step limit (rest l.key p (rows t) after) page := by
  unfold request at h
  rw [list_eq (hnd t) hc] at h
  cases h
  exact step hl

variable (hround : ∀ t, ∀ v ∈ rows t, l.Rounds v) (hshown : ∀ v, shown (l.render v) = l.key v)

include hround hshown

/-- What a walk serves comes after its cursor, in strict order. -/
theorem walk_monotone {cursor last : Option String} {after : Option K} {ts : List T} {pages : List (Page I String)}
    (hw : Walk (request l rows p limit refused unbound) cursor ts pages last) (hc : Cursor l cursor after) :
    (served pages).Pairwise (fun item item' => shown item < shown item') ∧
      ∀ item ∈ served pages, ∀ k, after = some k → k < shown item := by
  have first : ∀ {t : T} {after : Option K} {page : Page I String}, l.Step limit (rest l.key p (rows t) after) page →
      ∀ item ∈ page.items, ∀ k, after = some k → k < shown item := by
    intro t after page hs item hi k hk
    obtain ⟨v, hv, rfl⟩ := hs.items hi
    rw [hshown]
    exact lt_of_mem_rest hv hk
  induction hw generalizing after with
  | @one t cursor page h =>
    have hs := request_step hl hnd hc h
    have hpw := hs.sorted hshown (lt_rest (hnd t))
    simpa [served] using ⟨hpw, first hs⟩
  | @more t ts cursor last page pages raw h hn hw ih =>
    have hs := request_step hl hnd hc h
    have hlt : (rest l.key p (rows t) after).Pairwise fun u u' => l.key u < l.key u' := lt_rest (hnd t)
    obtain ⟨pre, v, post, hleft, hitems, -, -, rfl⟩ := hs.next raw hn
    obtain ⟨ihp, iha⟩ := ih (hround t v (mem_rows_of_rest hleft)).cursor
    have hkv : ∀ k, after = some k → k < l.key v := fun k hk =>
      lt_of_mem_rest (show v ∈ rest l.key p (rows t) after by rw [hleft]; simp) hk
    have hlast : ∀ item ∈ page.items, shown item ≤ l.key v := by
      intro item hi
      rw [hitems] at hi
      obtain ⟨u, hu, rfl⟩ := List.mem_map.mp hi
      rw [hshown]
      rcases List.mem_append.mp hu with hu | hu
      · rw [hleft, List.pairwise_append] at hlt
        exact le_of_lt (hlt.2.2 u hu v List.mem_cons_self)
      · rw [List.mem_singleton.mp hu]
    change (page.items ++ served pages).Pairwise _ ∧ ∀ item ∈ page.items ++ served pages, _
    refine ⟨List.pairwise_append.mpr ⟨hs.sorted hshown hlt, ihp, fun item hi item' hi' => ?_⟩,
      fun item hi k hk => ?_⟩
    · exact lt_of_le_of_lt (hlast item hi) (iha item' hi' _ rfl)
    · rcases List.mem_append.mp hi with hi | hi
      · exact first hs item hi k hk
      · exact lt_trans (hkv k hk) (iha item hi _ rfl)

omit hshown in
/-- What a walk serves matches in its time. -/
theorem walk_matching {cursor last : Option String} {after : Option K} {ts : List T} {pages : List (Page I String)}
    (hw : Walk (request l rows p limit refused unbound) cursor ts pages last) (hc : Cursor l cursor after) :
    List.Forall₂ (fun t (page : Page I String) => ∀ item ∈ page.items, ∃ v ∈ rows t, p v = true ∧ l.render v = item)
      ts pages := by
  have first : ∀ {t : T} {cursor : Option String} {after : Option K} {page : Page I String}, Cursor l cursor after →
      request l rows p limit refused unbound t cursor = .ok page →
      ∀ item ∈ page.items, ∃ v ∈ rows t, p v = true ∧ l.render v = item := by
    intro t cursor after page hc h item hi
    obtain ⟨v, hv, rfl⟩ := (request_step hl hnd hc h).items hi
    obtain ⟨hv, hp, -⟩ := mem_rest.mp hv
    exact ⟨v, hv, hp, rfl⟩
  induction hw generalizing after with
  | one h => exact .cons (first hc h) .nil
  | @more t ts cursor last page pages raw h hn hw ih =>
    obtain ⟨pre, v, post, hleft, -, -, -, rfl⟩ := (request_step hl hnd hc h).next raw hn
    exact .cons (first hc h) (ih (hround t v (mem_rows_of_rest hleft)).cursor)

/-- A walk to the end serves a row that matches throughout. -/
theorem walk_serves {cursor : Option String} {after : Option K} {ts : List T} {pages : List (Page I String)}
    {last : Option String} (hw : Walk (request l rows p limit refused unbound) cursor ts pages last) (hlast : last = none)
    (hc : Cursor l cursor after) {k : K} (hk : ∀ t ∈ ts, ∃ v ∈ rows t, p v = true ∧ l.key v = k)
    (ha : ∀ k', after = some k' → k' < k) : k ∈ (served pages).map shown := by
  induction hw generalizing after with
  | @one t cursor page h =>
    obtain ⟨v, hv, hp, rfl⟩ := hk t (by simp)
    have hitems := ((request_step hl hnd hc h).last hlast).1
    simpa [served, hitems] using mem_shown hshown (mem_rest_of hv hp ha)
  | @more t ts cursor last page pages raw h hn hw ih =>
    obtain ⟨u, hu, hp, rfl⟩ := hk t (by simp)
    have hu := mem_rest_of hu hp ha
    obtain ⟨pre, v, post, hleft, hitems, -, -, rfl⟩ := (request_step hl hnd hc h).next raw hn
    change _ ∈ (page.items ++ served pages).map shown
    rw [List.map_append, List.mem_append, hitems]
    -- the row is on this page, or after its last row
    rw [hleft, List.append_cons, List.mem_append] at hu
    rcases hu with hu | hu
    · exact Or.inl (mem_shown hshown hu)
    · refine Or.inr (ih hlast (hround t v (mem_rows_of_rest hleft)).cursor (fun t' ht' => hk t' (by simp [ht'])) fun k' hk' => ?_)
      have hlt : (rest l.key p (rows t) after).Pairwise fun u u' => l.key u < l.key u' := lt_rest (hnd t)
      rw [hleft, List.pairwise_append, List.pairwise_cons] at hlt
      rw [← Option.some.inj hk']
      exact hlt.2.1.1 u hu

omit hshown in
/-- On one table, from any cursor on. -/
theorem walk_static {t : T} {cursor : Option String} {after : Option K} (hc : Cursor l cursor after) :
    ∃ pages, Walk (request l rows p limit refused unbound) cursor (List.replicate pages.length t) pages none ∧
      served pages = (rest l.key p (rows t) after).map l.render ∧
      pages.length = max 1 (((rest l.key p (rows t) after).length + limit - 1) / limit) := by
  generalize hn : (rest l.key p (rows t) after).length = n
  induction n using Nat.strong_induction_on generalizing cursor after with
  | _ n ih =>
    obtain ⟨page, hpage⟩ : ∃ page, request l rows p limit refused unbound t cursor = .ok page := ⟨_, list_eq (hnd t) hc⟩
    have hstep := request_step hl hnd hc hpage
    cases hnext : page.next with
    | none =>
      obtain ⟨hitems, hlen⟩ := hstep.last hnext
      refine ⟨[page], ?_, by simpa [served] using hitems, ?_⟩
      · rw [← hnext]
        exact .one hpage
      · rw [hn] at hlen
        have : (n + limit - 1) / limit ≤ 1 := by
          rw [Nat.div_le_iff_le_mul_add_pred hl]
          omega
        simp only [List.length_singleton]
        omega
    | some raw =>
      obtain ⟨pre, v, post, hleft, hitems, hpre, hpost, rfl⟩ := hstep.next raw hnext
      have hrest := rest_past (hnd t) hleft
      have hlen : n = limit + post.length := by
        rw [hleft] at hn
        simp at hn
        omega
      have hpos : 0 < post.length := List.length_pos_iff.mpr hpost
      obtain ⟨pages, hw, hs, hcount⟩ := ih post.length (by omega) (hround t v (mem_rows_of_rest hleft)).cursor
        (by rw [hrest])
      refine ⟨page :: pages, .more hpage hnext hw, ?_, ?_⟩
      · change page.items ++ served pages = _
        change served pages = (rest l.key p (rows t) (some (l.key v))).map l.render at hs
        rw [hs, hrest, hitems, hleft, List.append_cons pre v post, @List.map_append _ _ l.render _ post]
      · have hdiv : (n + limit - 1) / limit = (post.length + limit - 1) / limit + 1 := by
          rw [hlen, show limit + post.length + limit - 1 = post.length + limit - 1 + limit by omega,
            Nat.add_div_right _ hl]
        have hone : 1 ≤ (post.length + limit - 1) / limit := by
          rw [Nat.one_le_div_iff hl]
          omega
        simp only [List.length_cons]
        omega

/-- **A list endpoint loses and repeats nothing.** -/
theorem lossless : Lossless (request l rows p limit refused unbound) rows p l.key l.render shown limit := by
  have hs : Cursor l none none := .start
  refine ⟨fun t => ?_, fun ts pages last hw => walk_matching hl hnd hround hw hs,
    fun ts pages last hw => (walk_monotone hl hnd hround hshown hw hs).1, fun ts pages hw k hk => ?_⟩
  · obtain ⟨pages, hw, hserved, hlen⟩ := walk_static hl hnd hround (t := t) hs
    refine ⟨pages, hw, (walk_monotone hl hnd hround hshown hw hs).1, fun item => ?_, ?_, fun pages' hw' => ?_⟩
    · rw [hserved, List.mem_map]
      constructor
      · rintro ⟨v, hv, rfl⟩
        obtain ⟨hv, hp, -⟩ := mem_rest.mp hv
        exact ⟨v, hv, hp, rfl⟩
      · rintro ⟨v, hv, hp, rfl⟩
        exact ⟨v, mem_rest.mpr ⟨hv, hp, rfl⟩, rfl⟩
    · rw [hlen, rest_none, perm_sorted.length_eq]
    · exact Walk.unique _ hw hw' (fun x hx => List.eq_of_mem_replicate hx) fun x hx => List.eq_of_mem_replicate hx
  · have hmem := walk_serves hl hnd hround hshown hw rfl hs hk (fun _ h => by cases h)
    refine List.count_eq_one_of_mem ?_ hmem
    rw [List.Nodup, List.pairwise_map]
    exact (walk_monotone hl hnd hround hshown hw hs).1.imp fun h => ne_of_lt h

end Listing

end Paging
