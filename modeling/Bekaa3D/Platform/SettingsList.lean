import Mathlib.Data.String.Basic
import Bekaa3D.Api.Codecs
import Bekaa3D.Paging.Walk
import Bekaa3D.Platform.Redaction
import Bekaa3D.Platform.Validation
import Bekaa3D.Text.PyDumps

/-!
# Platform.SettingsList — the list of settings

`list_settings` (`platform/api/settings.py`), with the query of `SettingRepository.list_page` and the rendering of
`SettingRead.from_setting`.

* `Driver`: what the database driver and the framework do with the columns that the code only passes on.
* `plain`: the same list of bare rows, which nothing can fail to show.
* `list_survives_iff`: for which tables and filters the list can be walked.
-/

namespace Bekaa3D.Platform

open Text.Json (bind_ok)
open Lists (mapM_iff exists_right exists_forall₂)
open Paging (Listing Page Walk served)
open Identity (Uuid Instant)
open Api (FieldError invalidCursorError decodeText encodeText decodeText_encodeText)
open Api.Codecs (Raised Key.matchesKeyShape Key.encodeCursor Key.validateCursor)

/-! ## Rows -/

/-- A row of the table; `columns` are those that no query looks at, as they are stored. -/
structure SettingRow (ρ : Type) where
  key : String
  type : SettingType
  columns : ρ

/-- The other columns, as the driver reads them. -/
structure SettingColumns where
  id : Uuid
  value : Json
  description : Option String
  updatedBy : Option Uuid
  createdAt : Instant
  updatedAt : Instant

/-- The table; its keys are unique. -/
structure SettingsTable (ρ : Type) where
  rows : List (SettingRow ρ)
  unique : (rows.map SettingRow.key).Nodup

/-- `_setting_to_domain`. -/
def settingToDomain {ρ : Type} (row : SettingRow ρ) (columns : SettingColumns) : Setting :=
  ⟨columns.id, row.key, row.type, columns.value, columns.description, columns.updatedBy, columns.createdAt,
    columns.updatedAt⟩

/-! ## Responses -/

/-- The unit that the registry gives an entry. -/
def SettingDefinition.unit (d : SettingDefinition) : Option String :=
  if d.type = .duration then some "seconds"
  else if d.key = "minimum_offer_percentage" then some "percent"
  else if d.key = "daily_download_cap" then some "downloads per customer per UTC day"
  else if d.key = "free_shipping_threshold" then some "cents"
  else none

structure SettingRead where
  key : String
  type : SettingType
  value : Json
  description : Option String
  unit : Option String
  minimum : Option ℤ
  maximum : Option ℤ
  nullable : Bool
  isPublic : Bool
  updatedAt : Instant
  updatedBy : Option Uuid

/-- `SettingRead.from_setting`. -/
def SettingRead.fromSetting (setting : Setting) : Except PlatformError SettingRead := do
  let spec ← definitionFor setting.key
  return { key := setting.key, type := setting.type, value := setting.value, description := setting.description,
           unit := spec.unit, minimum := spec.minimum, maximum := spec.maximum, nullable := spec.nullable,
           isPublic := publicKeys.contains spec.key, updatedAt := setting.updatedAt, updatedBy := setting.updatedBy }

/-! ## Requests -/

/-- A request for a page: `limit` is from 1 to 100 and the prefix has at most 64 characters. -/
structure SettingsQuery where
  limit : ℕ
  keyPrefix : Option String
  type : Option SettingType
  limit_pos : 1 ≤ limit
  limit_le : limit ≤ 100
  prefix_le : ∀ s, keyPrefix = some s → s.length ≤ 64

/-- The filters.  An empty prefix is none. -/
def SettingsQuery.filters {ρ : Type} (q : SettingsQuery) (row : SettingRow ρ) : Bool :=
  (match q.keyPrefix with
    | none | some "" => true
    | some s => s.toList.isPrefixOf row.key.toList) &&
  q.type.all fun type => row.type = type

/-- The database takes no text with U+0000. -/
def SettingsQuery.bindable (q : SettingsQuery) : Bool :=
  q.keyPrefix.all fun s => !s.toList.contains (Char.ofNat 0)

inductive ListFailure where
  /-- A `RequestValidationError`. -/
  | validation (errors : List FieldError)
  /-- An error of the domain that the endpoint does not catch. -/
  | domain (e : PlatformError)
  | database
  | response
  deriving DecidableEq

/-- What the code relies on: `collate` is the order of the column's collation, `fetch` reads the other columns, if it can,
and `writes` tells whether a response can be written as JSON. -/
structure Driver (ρ K : Type) where
  collate : String ↪ K
  fetch : ρ → Option SettingColumns
  writes : SettingRead → Bool

section List

variable {ρ K : Type} [LinearOrder K] (dr : Driver ρ K) (q : SettingsQuery)

/-- `SettingRepository.list_page`. -/
def SettingRepository.listPage (limit : ℕ) (afterKey : Option String) (t : SettingsTable ρ) :
    Except ListFailure (List Setting) :=
  if q.bindable then
    (Paging.select (fun row => dr.collate row.key) q.filters (afterKey.map dr.collate) limit t.rows).mapM fun row =>
      match dr.fetch row.columns with
      | none => .error .database
      | some columns => .ok (settingToDomain row columns)
  else .error .database

/-- `_decode_cursor`. -/
def decodeSettingsCursor : Option String → Except ListFailure (Option String)
  | none => .ok none
  | some raw =>
    match Key.validateCursor raw with
    | .error _ => .error (.validation invalidCursorError)
    | .ok key => .ok (some key)

/-- An item of the response. -/
def settingItem (setting : Setting) : Except ListFailure SettingRead :=
  match SettingRead.fromSetting setting with
  | .error e => .error (.domain e)
  | .ok item => if dr.writes item then .ok item else .error .response

/-- `list_settings`. -/
def listSettings (t : SettingsTable ρ) (cursor : Option String) : Except ListFailure (Page SettingRead String) := do
  let afterKey ← decodeSettingsCursor cursor
  let rows ← SettingRepository.listPage dr q (q.limit + 1) afterKey t
  let items ← (rows.take q.limit).mapM (settingItem dr)
  return ⟨items,
    if q.limit < rows.length then (rows.take q.limit).getLast?.map fun row => Key.encodeCursor row.key else none⟩

/-! ## What is to be shown -/

/-- The registry has the key. -/
def Registered (key : String) : Prop := ∃ d, definitionFor key = .ok d

/-- The item shows the row. -/
def Shows (row : SettingRow ρ) (item : SettingRead) : Prop :=
  ∃ columns, dr.fetch row.columns = some columns ∧ settingItem dr (settingToDomain row columns) = .ok item

/-- The prefix can be sent to the database, and every row that matches has a registered key, columns that can be read and
a response that can be written. -/
structure Presentable (t : SettingsTable ρ) : Prop where
  bindable : q.bindable = true
  registered : ∀ row ∈ t.rows, q.filters row = true → Registered row.key
  readable : ∀ row ∈ t.rows, q.filters row = true → dr.fetch row.columns ≠ none
  writable : ∀ row ∈ t.rows, q.filters row = true → ∀ columns item, dr.fetch row.columns = some columns →
    SettingRead.fromSetting (settingToDomain row columns) = .ok item → dr.writes item = true

/-- The list can be walked from its beginning to its end, whatever cursor is sent is answered, and the walk serves the
registered keys that match, each of them once and in order, and no other key. -/
structure Survives (t : SettingsTable ρ) : Prop where
  walk : ∃ pages, Walk (listSettings dr q) none (List.replicate pages.length t) pages none ∧
    (served pages).Pairwise (fun item item' => dr.collate item.key < dr.collate item'.key) ∧
    (∀ key, key ∈ (served pages).map SettingRead.key ↔
      Registered key ∧ ∃ row ∈ t.rows, q.filters row = true ∧ row.key = key) ∧
    ∀ pages', Walk (listSettings dr q) none (List.replicate pages'.length t) pages' none → pages' = pages
  answers : ∀ raw key, Key.validateCursor raw = .ok key → ∃ page, listSettings dr q t (some raw) = .ok page

/-! ## Bare rows -/

/-- The list of the rows themselves, whose cursors hold any text. -/
def plain : Listing (SettingRow ρ) (SettingRow ρ) String K Unit where
  key row := dr.collate row.key
  cursor row := Key.encodeCursor row.key
  parseCursor raw :=
    match decodeText raw with
    | none => .error ()
    | some key => .ok key
  bound key := some (dr.collate key)
  render row := row

/-- A request to it. -/
def plainRequest : SettingsTable ρ → Option String → Except Unit (Page (SettingRow ρ) String) :=
  Listing.request (plain dr) SettingsTable.rows q.filters q.limit id ()

variable {dr q} {t : SettingsTable ρ}

omit [LinearOrder K] in
theorem plain_unique (t : SettingsTable ρ) : (t.rows.map (plain dr).key).Nodup := by
  have hkey : t.rows.map (plain dr).key = (t.rows.map SettingRow.key).map dr.collate := by
    rw [List.map_map]
    rfl
  rw [hkey]
  exact t.unique.map dr.collate.injective

omit [LinearOrder K] in
/-- Any text is read back. -/
theorem plain_parse {raw key : String} (h : decodeText raw = some key) : (plain dr).parseCursor raw = .ok key := by
  unfold plain
  dsimp only
  rw [h]

omit [LinearOrder K] in
theorem plain_round (row : SettingRow ρ) : (plain dr).Rounds row :=
  ⟨row.key, plain_parse (decodeText_encodeText row.key), rfl⟩

/-- The cursors that the endpoint takes. -/
def Taken (cursor : Option String) : Prop := ∃ after, decodeSettingsCursor cursor = .ok after

/-- A key that the endpoint takes from a cursor is the text of the cursor. -/
theorem decodeText_of_validate {raw key : String} (h : Key.validateCursor raw = .ok key) :
    decodeText raw = some key ∧ Key.matchesKeyShape key = true := by
  unfold Key.validateCursor at h
  cases hd : decodeText raw with
  | none => rw [hd] at h; cases h
  | some text =>
    rw [hd] at h
    dsimp only at h
    split at h
    · rename_i hshape
      cases h
      exact ⟨rfl, hshape⟩
    · cases h

omit [LinearOrder K] in
/-- The list decodes a cursor as that of bare rows. -/
theorem plain_decode {cursor : Option String} {after : Option String} (h : decodeSettingsCursor cursor = .ok after) :
    (plain dr).decodeCursor id cursor = .ok after := by
  cases cursor with
  | none => cases h; rfl
  | some raw =>
    unfold decodeSettingsCursor at h
    dsimp only at h
    cases hv : Key.validateCursor raw with
    | error e => rw [hv] at h; cases h
    | ok key =>
      rw [hv] at h
      cases h
      have hd : (plain dr).parseCursor raw = .ok key := plain_parse (decodeText_of_validate hv).1
      unfold Listing.decodeCursor
      dsimp only
      rw [hd]

/-- The keys of the registry have the shape of keys. -/
theorem shape_of_registered {key : String} (h : Registered key) : Key.matchesKeyShape key = true := by
  obtain ⟨d, hd⟩ := h
  obtain ⟨hmem, rfl⟩ := mem_of_definitionFor hd
  have hall : ∀ d ∈ definitions, Key.matchesKeyShape d.key = true := by decide
  exact hall d hmem

/-! ## One request -/

/-- The setting is what the driver reads of the row. -/
def Fetched (dr : Driver ρ K) (row : SettingRow ρ) (setting : Setting) : Prop :=
  ∃ columns, dr.fetch row.columns = some columns ∧ setting = settingToDomain row columns

/-- The rows that a request reads. -/
def selected (dr : Driver ρ K) (q : SettingsQuery) (t : SettingsTable ρ) (after : Option String) :
    List (SettingRow ρ) :=
  (plain dr).listPage q.filters (q.limit + 1) (after.map dr.collate) t.rows

theorem listPage_iff {after : Option String} {settings : List Setting} :
    SettingRepository.listPage dr q (q.limit + 1) after t = .ok settings ↔
      q.bindable = true ∧ List.Forall₂ (Fetched dr) (selected dr q t after) settings := by
  have hfetch : ∀ row setting, (match dr.fetch row.columns with
      | none => Except.error ListFailure.database
      | some columns => .ok (settingToDomain row columns)) = .ok setting ↔ Fetched dr row setting := by
    intro row setting
    unfold Fetched
    cases dr.fetch row.columns with
    | none => exact ⟨fun h => (by cases h), fun ⟨_, h, _⟩ => (by cases h)⟩
    | some columns => exact ⟨fun h => ⟨columns, rfl, (Except.ok.inj h).symm⟩, fun ⟨_, h, h'⟩ => (by cases h; rw [h'])⟩
  unfold SettingRepository.listPage
  by_cases hb : q.bindable = true
  · rw [if_pos hb]
    constructor
    · intro h
      exact ⟨hb, (mapM_iff.mp h).imp fun row setting h => (hfetch row setting).mp h⟩
    · rintro ⟨-, h⟩
      exact mapM_iff.mpr (h.imp fun row setting h => (hfetch row setting).mpr h)
  · rw [if_neg hb]
    exact ⟨fun h => (by cases h), fun h => absurd h.1 hb⟩

omit [LinearOrder K] in
/-- Fetched settings have the keys of their rows. -/
theorem keys_of_fetched {rows : List (SettingRow ρ)} {settings : List Setting}
    (h : List.Forall₂ (Fetched dr) rows settings) : settings.map Setting.key = rows.map SettingRow.key := by
  induction h with
  | nil => rfl
  | cons hrow _ ih =>
    obtain ⟨columns, -, rfl⟩ := hrow
    rw [List.map_cons, List.map_cons, ih]
    rfl

omit [LinearOrder K] in
/-- The page of fetched settings goes on where that of their rows does. -/
theorem next_of_fetched {rows : List (SettingRow ρ)} {settings : List Setting}
    (h : List.Forall₂ (Fetched dr) rows settings) :
    (if q.limit < settings.length then (settings.take q.limit).getLast?.map fun row => Key.encodeCursor row.key
      else none) = ((plain dr).page q.limit rows).next := by
  have hkeys := keys_of_fetched h
  have hlast : ((settings.take q.limit).getLast?.map fun row => Key.encodeCursor row.key) =
      (rows.take q.limit).getLast?.map (plain dr).cursor := by
    have hmap : ∀ (settings : List Setting), (settings.take q.limit).getLast?.map (fun row => Key.encodeCursor row.key) =
        ((settings.map Setting.key).take q.limit).getLast?.map Key.encodeCursor := by
      intro settings
      rw [← List.map_take, List.getLast?_map, Option.map_map]
      rfl
    have hmap' : (rows.take q.limit).getLast?.map (plain dr).cursor =
        ((rows.map SettingRow.key).take q.limit).getLast?.map Key.encodeCursor := by
      rw [← List.map_take, List.getLast?_map, Option.map_map]
      rfl
    rw [hmap, hkeys, hmap']
  unfold Listing.page
  dsimp only
  rw [h.length_eq, hlast]

/-- An answer shows the page of the bare rows. -/
theorem listSettings_iff {cursor : Option String} {page : Page SettingRead String} :
    listSettings dr q t cursor = .ok page ↔ ∃ after, decodeSettingsCursor cursor = .ok after ∧ q.bindable = true ∧
      (∀ row ∈ selected dr q t after, dr.fetch row.columns ≠ none) ∧
      List.Forall₂ (Shows dr) ((plain dr).page q.limit (selected dr q t after)).items page.items ∧
      page.next = ((plain dr).page q.limit (selected dr q t after)).next := by
  have hshows : ∀ {rows : List (SettingRow ρ)} {settings : List Setting} {items : List SettingRead},
      List.Forall₂ (Fetched dr) rows settings →
      (List.Forall₂ (fun setting item => settingItem dr setting = .ok item) settings items ↔
        List.Forall₂ (Shows dr) rows items) := by
    intro rows settings items h
    induction h generalizing items with
    | nil => exact ⟨fun h => (by cases h; exact .nil), fun h => (by cases h; exact .nil)⟩
    | @cons row setting rows settings hrow _ ih =>
      obtain ⟨columns, hfetch, rfl⟩ := hrow
      constructor
      · intro h
        obtain ⟨item, items, hitem, hitems, rfl⟩ := List.forall₂_cons_left_iff.mp h
        exact .cons ⟨columns, hfetch, hitem⟩ (ih.mp hitems)
      · intro h
        obtain ⟨item, items, ⟨columns', hfetch', hitem⟩, hitems, rfl⟩ := List.forall₂_cons_left_iff.mp h
        rw [hfetch] at hfetch'
        cases hfetch'
        exact .cons hitem (ih.mpr hitems)
  have hitems : ∀ rows, ((plain dr).page q.limit rows).items = rows.take q.limit := fun rows => List.map_id' _
  unfold listSettings
  constructor
  · intro h
    obtain ⟨after, hafter, h⟩ := bind_ok.mp h
    obtain ⟨settings, hsettings, h⟩ := bind_ok.mp h
    obtain ⟨items, hmap, h⟩ := bind_ok.mp h
    cases h
    obtain ⟨hb, hfetched⟩ := listPage_iff.mp hsettings
    refine ⟨after, hafter, hb, fun row hrow => ?_, ?_, next_of_fetched hfetched⟩
    · obtain ⟨setting, -, columns, hcolumns, -⟩ := exists_right hfetched row hrow
      rw [hcolumns]
      exact Option.some_ne_none columns
    · rw [hitems]
      exact (hshows (List.forall₂_take q.limit hfetched)).mp (mapM_iff.mp hmap)
  · rintro ⟨after, hafter, hb, hfetch, hshown, hnext⟩
    have hfetched : ∃ settings, List.Forall₂ (Fetched dr) (selected dr q t after) settings := by
      refine exists_forall₂ fun row hrow => ?_
      obtain ⟨columns, hcolumns⟩ := Option.ne_none_iff_exists'.mp (hfetch row hrow)
      exact ⟨_, columns, hcolumns, rfl⟩
    obtain ⟨settings, hfetched⟩ := hfetched
    rw [hitems] at hshown
    have hmap := mapM_iff.mpr ((hshows (List.forall₂_take q.limit hfetched)).mpr hshown)
    refine bind_ok.mpr ⟨after, hafter, bind_ok.mpr ⟨settings, listPage_iff.mpr ⟨hb, hfetched⟩, ?_⟩⟩
    refine bind_ok.mpr ⟨page.items, hmap, ?_⟩
    rw [next_of_fetched hfetched, ← hnext]
    rfl

/-! ## Walks -/

/-- The bare rows answer a cursor that the endpoint takes. -/
theorem plainRequest_eq {cursor after : Option String} (h : decodeSettingsCursor cursor = .ok after) :
    plainRequest dr q t cursor = .ok ((plain dr).page q.limit (selected dr q t after)) := by
  have hbind : (plain dr).bind () after = .ok (after.map dr.collate) := by
    cases after with
    | none => rfl
    | some key => rfl
  unfold plainRequest Listing.request Listing.list
  rw [plain_decode h]
  change (do let k ← (plain dr).bind () after; return (plain dr).page q.limit ((plain dr).listPage _ _ k _)) = _
  rw [hbind]
  rfl

/-- A row that a request reads matches. -/
theorem mem_selected {after : Option String} {row : SettingRow ρ} (h : row ∈ selected dr q t after) :
    row ∈ t.rows ∧ q.filters row = true := by
  unfold selected Listing.listPage at h
  rw [Paging.select_eq (plain_unique t)] at h
  obtain ⟨hrow, hfilter, -⟩ := Paging.mem_rest.mp (List.mem_of_mem_take h)
  exact ⟨hrow, hfilter⟩

/-- A request is answered when everything that matches can be presented. -/
theorem listSettings_of (h : Presentable dr q t) {cursor after : Option String}
    (hafter : decodeSettingsCursor cursor = .ok after) : ∃ page, listSettings dr q t cursor = .ok page := by
  have hshows : ∀ row ∈ ((plain dr).page q.limit (selected dr q t after)).items, ∃ item, Shows dr row item := by
    intro row hrow
    have hitems : ((plain dr).page q.limit (selected dr q t after)).items = (selected dr q t after).take q.limit :=
      List.map_id' _
    rw [hitems] at hrow
    obtain ⟨hmem, hfilter⟩ := mem_selected (List.mem_of_mem_take hrow)
    obtain ⟨columns, hcolumns⟩ := Option.ne_none_iff_exists'.mp (h.readable row hmem hfilter)
    obtain ⟨d, hd⟩ := h.registered row hmem hfilter
    obtain ⟨item, hitem⟩ : ∃ item, SettingRead.fromSetting (settingToDomain row columns) = .ok item :=
      ⟨_, bind_ok.mpr ⟨d, hd, rfl⟩⟩
    refine ⟨item, columns, hcolumns, ?_⟩
    unfold settingItem
    rw [hitem]
    exact if_pos (h.writable row hmem hfilter columns item hcolumns hitem)
  obtain ⟨items, hitems⟩ := exists_forall₂ hshows
  exact ⟨⟨items, _⟩, listSettings_iff.mpr ⟨after, hafter, h.bindable,
    fun row hrow => h.readable row (mem_selected hrow).1 (mem_selected hrow).2, hitems, rfl⟩⟩

omit [LinearOrder K] in
/-- A row that is shown has a registered key, which is that of its item. -/
theorem Shows.registered {row : SettingRow ρ} {item : SettingRead} (h : Shows dr row item) :
    Registered row.key ∧ item.key = row.key := by
  obtain ⟨columns, -, hitem⟩ := h
  unfold settingItem at hitem
  cases hread : SettingRead.fromSetting (settingToDomain row columns) with
  | error e => rw [hread] at hitem; cases hitem
  | ok item' =>
    rw [hread] at hitem
    dsimp only at hitem
    split at hitem
    · cases hitem
      obtain ⟨d, hd, hread⟩ := bind_ok.mp hread
      cases hread
      exact ⟨⟨d, hd⟩, rfl⟩
    · cases hitem

/-- A page shows a page of bare rows. -/
def ShowsPage (dr : Driver ρ K) (page : Page (SettingRow ρ) String) (shown : Page SettingRead String) : Prop :=
  List.Forall₂ (Shows dr) page.items shown.items

omit [LinearOrder K] in
theorem shows_served {pages : List (Page (SettingRow ρ) String)} {shown : List (Page SettingRead String)}
    (h : List.Forall₂ (ShowsPage dr) pages shown) : List.Forall₂ (Shows dr) (served pages) (served shown) :=
  List.rel_flatMap h fun _ _ h => h

/-- A walk of the list is one of the bare rows. -/
theorem plain_of_walk {cursor last : Option String} {n : ℕ} {shown : List (Page SettingRead String)}
    (hw : Walk (listSettings dr q) cursor (List.replicate n t) shown last) :
    ∃ pages, Walk (plainRequest dr q) cursor (List.replicate n t) pages last ∧
      List.Forall₂ (ShowsPage dr) pages shown := by
  have hstep : ∀ cursor page, True → listSettings dr q t cursor = .ok page → ∃ page', plainRequest dr q t cursor = .ok page' ∧
      page'.next = page.next ∧ ShowsPage dr page' page ∧ ∀ raw, page.next = some raw → True := by
    intro cursor page _ h
    obtain ⟨after, hafter, -, -, hshown, hnext⟩ := listSettings_iff.mp h
    exact ⟨_, plainRequest_eq hafter, hnext.symm, hshown, fun _ _ => trivial⟩
  obtain ⟨pages, hpages, hrel⟩ := Walk.simulate hstep hw (fun x hx => List.eq_of_mem_replicate hx) trivial
  exact ⟨pages, hpages, hrel.flip⟩

/-- The endpoint takes the cursor of a registered key. -/
theorem taken_of_registered {key : String} (h : Registered key) : Taken (some (Key.encodeCursor key)) := by
  refine ⟨some key, ?_⟩
  have hvalid : Key.validateCursor (Key.encodeCursor key) = .ok key := by
    unfold Key.validateCursor Key.encodeCursor
    rw [decodeText_encodeText]
    exact if_pos (shape_of_registered h)
  unfold decodeSettingsCursor
  dsimp only
  rw [hvalid]

/-- And one of the bare rows is one of the list, when everything that matches can be presented. -/
theorem walk_of_plain (h : Presentable dr q t) {cursor last : Option String} (hc : Taken cursor) {n : ℕ}
    {pages : List (Page (SettingRow ρ) String)}
    (hw : Walk (plainRequest dr q) cursor (List.replicate n t) pages last) :
    ∃ shown, Walk (listSettings dr q) cursor (List.replicate n t) shown last ∧
      List.Forall₂ (ShowsPage dr) pages shown := by
  have hstep : ∀ cursor page, Taken cursor → plainRequest dr q t cursor = .ok page → ∃ shown,
      listSettings dr q t cursor = .ok shown ∧ shown.next = page.next ∧ ShowsPage dr page shown ∧
      ∀ raw, page.next = some raw → Taken (some raw) := by
    intro cursor page hc hpage
    obtain ⟨after, hafter⟩ := hc
    obtain ⟨shown, hlist⟩ := listSettings_of h hafter
    obtain ⟨after', hafter', -, -, hshown, hnext⟩ := listSettings_iff.mp hlist
    rw [hafter] at hafter'
    cases hafter'
    rw [plainRequest_eq hafter] at hpage
    cases hpage
    refine ⟨shown, hlist, hnext, hshown, fun raw hraw => ?_⟩
    -- the cursor is that of a row of the page, whose key is registered
    unfold Listing.page at hraw
    dsimp only at hraw
    split at hraw
    · obtain ⟨row, hrow, rfl⟩ := Option.map_eq_some_iff.mp hraw
      obtain ⟨hmem, hfilter⟩ := mem_selected (List.mem_of_mem_take (List.mem_of_getLast? hrow))
      exact taken_of_registered (h.registered row hmem hfilter)
    · cases hraw
  exact Walk.simulate hstep hw (fun x hx => List.eq_of_mem_replicate hx) hc

/-! ## The whole list -/

/-- The bare rows are all served. -/
theorem plain_lossless : Paging.Lossless (plainRequest dr q) SettingsTable.rows q.filters (plain dr).key (plain dr).render
    (plain dr).key q.limit :=
  Listing.lossless q.limit_pos plain_unique (fun _ row _ => plain_round row) fun _ => rfl

omit [LinearOrder K] in
/-- What is served in place of rows has their keys. -/
theorem keys_of_shows {rows : List (SettingRow ρ)} {items : List SettingRead} (h : List.Forall₂ (Shows dr) rows items) :
    items.map SettingRead.key = rows.map SettingRow.key := by
  induction h with
  | nil => rfl
  | cons hrow _ ih => rw [List.map_cons, List.map_cons, ih, hrow.registered.2]

theorem survives_of (h : Presentable dr q t) : Survives dr q t := by
  refine ⟨?_, fun raw key hkey => ?_⟩
  · obtain ⟨pages, hw, hlt, hmem, hcount, hunique⟩ := (@plain_lossless ρ K _ dr q).static t
    obtain ⟨shown, hwalk, hrel⟩ := walk_of_plain h ⟨none, rfl⟩ hw
    have hkeys := keys_of_shows (shows_served hrel)
    have hlength : shown.length = pages.length := hrel.length_eq.symm
    refine ⟨shown, by rw [hlength]; exact hwalk, ?_, fun key => ?_, fun pages' hpages' => ?_⟩
    · have hplain : ((served pages).map SettingRow.key).Pairwise fun k k' => dr.collate k < dr.collate k' := by
        rw [List.pairwise_map]
        exact hlt
      rw [← hkeys, List.pairwise_map] at hplain
      exact hplain
    · rw [hkeys, List.mem_map]
      constructor
      · rintro ⟨row, hrow, rfl⟩
        obtain ⟨row', hmem', hfilter, rfl⟩ := (hmem row).mp hrow
        exact ⟨h.registered row' hmem' hfilter, row', hmem', hfilter, rfl⟩
      · rintro ⟨-, row, hmem', hfilter, rfl⟩
        exact ⟨row, (hmem row).mpr ⟨row, hmem', hfilter, rfl⟩, rfl⟩
    · exact Walk.unique _ hwalk hpages' (fun x hx => List.eq_of_mem_replicate hx) fun x hx => List.eq_of_mem_replicate hx
  · have hdecode : decodeSettingsCursor (some raw) = .ok (some key) := by
      unfold decodeSettingsCursor
      dsimp only
      rw [hkey]
    exact listSettings_of h hdecode

theorem presentable_of (h : Survives dr q t) : Presentable dr q t := by
  obtain ⟨shown, hw, -⟩ := h.walk
  obtain ⟨pages, hplain, hrel⟩ := plain_of_walk hw
  have hshows := shows_served hrel
  have hserved : ∀ row ∈ t.rows, q.filters row = true → ∃ item, Shows dr row item := by
    intro row hmem hfilter
    obtain ⟨pages', hw', -, hall, -⟩ := (@plain_lossless ρ K _ dr q).static t
    have hsame : pages = pages' := Walk.unique _ hw' hplain (fun x hx => List.eq_of_mem_replicate hx)
      fun x hx => List.eq_of_mem_replicate hx
    obtain ⟨item, -, hitem⟩ := exists_right hshows row (hsame ▸ (hall row).mpr ⟨row, hmem, hfilter, rfl⟩)
    exact ⟨item, hitem⟩
  have hbindable : q.bindable = true := by
    obtain ⟨t', -, page, hpage⟩ := hw.first
    obtain ⟨after, -, hbindable, -⟩ := listSettings_iff.mp hpage
    exact hbindable
  refine ⟨hbindable, fun row hmem hfilter => ?_, fun row hmem hfilter => ?_, fun row hmem hfilter columns item hc hi => ?_⟩
  · obtain ⟨item, hitem⟩ := hserved row hmem hfilter
    exact hitem.registered.1
  · obtain ⟨item, columns, hcolumns, -⟩ := hserved row hmem hfilter
    rw [hcolumns]
    exact Option.some_ne_none columns
  · obtain ⟨item', columns', hcolumns', hitem⟩ := hserved row hmem hfilter
    rw [hc] at hcolumns'
    cases hcolumns'
    unfold settingItem at hitem
    rw [hi] at hitem
    dsimp only at hitem
    by_contra hwrites
    rw [if_neg hwrites] at hitem
    cases hitem

/-- The list survives a table exactly when everything that matches can be presented. -/
theorem list_survives_iff (dr : Driver ρ K) (q : SettingsQuery) (t : SettingsTable ρ) :
    Survives dr q t ↔ Presentable dr q t :=
  ⟨presentable_of, survives_of⟩

end List

/-! ### A retired setting -/

/-- Every column is read and every response is written; the order is that of code points. -/
def plainDriver : Driver SettingColumns String where
  collate := .refl String
  fetch := some
  writes _ := true

/-- The first page of twenty, without filters. -/
def firstPage : SettingsQuery where
  limit := 20
  keyPrefix := none
  type := none
  limit_pos := by decide
  limit_le := by decide
  prefix_le := by simp

/-- The row of a setting that the registry no longer has. -/
def retiredRow : SettingRow SettingColumns := ⟨"vat_percentage", .integer, ⟨1, .int 11, none, none, 0, 0⟩⟩

def retiredTable : SettingsTable SettingColumns where
  rows := [⟨"accepting_orders", .boolean, ⟨0, .bool true, none, none, 0, 0⟩⟩, retiredRow]
  unique := by decide

/-- The table cannot be listed. -/
theorem retired_setting_fails : ¬Survives plainDriver firstPage retiredTable := by
  intro h
  have hmem : retiredRow ∈ retiredTable.rows := List.mem_cons_of_mem _ List.mem_cons_self
  obtain ⟨d, hd⟩ := (presentable_of h).registered retiredRow hmem rfl
  have hunknown : definitionFor "vat_percentage" = .error (.settingNotFound "vat_percentage") := by rfl
  rw [show retiredRow.key = "vat_percentage" from rfl, hunknown] at hd
  cases hd

end Bekaa3D.Platform
