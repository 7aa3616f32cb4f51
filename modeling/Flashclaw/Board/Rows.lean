import Flashclaw.Board.Authority
import Flashclaw.Board.Sqlite

/-!
# Boards: rows and the snapshot they hold

What each statement of the SQLite store does to the rows under a key, and
when the rows of a session hold a given snapshot.
-/

namespace Flashclaw.Board

variable {Props : Type}

open BoardLayout Lists Results

open scoped List

namespace BoardTables

section Select

variable {ν : Type} (table : JsMap (String × String) ν) (sessionKey : String)

theorem mem_rowsOf {key : String} {row : ν} :
    (key, row) ∈ rowsOf table sessionKey ↔ table.get? (sessionKey, key) = some row := by
  rw [JsMap.get?_eq_some]
  unfold rowsOf
  simp only [List.mem_map, List.mem_filter, decide_eq_true_eq, Prod.mk.injEq]
  constructor
  · rintro ⟨⟨⟨s, k⟩, r⟩, ⟨hm, rfl⟩, rfl, rfl⟩
    exact hm
  · intro hm
    exact ⟨((sessionKey, key), row), ⟨hm, rfl⟩, rfl, rfl⟩

theorem nodup_rowsOf : ((rowsOf table sessionKey).map Prod.fst).Nodup := by
  unfold rowsOf
  rw [List.map_map]
  have hn : ((table.entries.filter fun entry => entry.1.1 = sessionKey).map Prod.fst).Nodup :=
    table.nodupKeys.sublist ((List.filter_sublist).map Prod.fst)
  refine List.Nodup.of_map (fun key => (sessionKey, key)) ?_
  rw [List.map_map]
  refine (List.Perm.of_eq (List.map_congr_left fun entry he => ?_)).nodup_iff.mpr hn
  have hs := of_decide_eq_true (List.mem_filter.mp he).2
  exact Prod.ext hs.symm rfl

end Select

variable (tables : BoardTables)

section Tabs

theorem widgets_upsertTabs (next : BoardSnapshot Props) :
    (tables.upsertTabs next).widgets = tables.widgets := by
  unfold upsertTabs
  induction next.tabs generalizing tables with
  | nil => rfl
  | cons tab tabs ih => exact ih _

/-- The row of a tab of a snapshot. -/
def tabRow (revision : ℕ) (tab : BoardTab) : TabRow :=
  ⟨tab.title, tab.position, tab.chatDock, revision⟩

theorem tabs_upsertTabs (next : BoardSnapshot Props) :
    (tables.upsertTabs next).tabs = next.tabs.foldl (fun m tab =>
      m.set (next.sessionKey, tab.tabId) (tabRow next.revision tab)) tables.tabs := by
  unfold upsertTabs
  induction next.tabs generalizing tables with
  | nil => rfl
  | cons tab tabs ih => exact ih _

theorem get?_upsertTabs {next : BoardSnapshot Props} (hn : next.tabIds.Nodup)
    (sessionKey tabId : String) :
    (tables.upsertTabs next).tabs.get? (sessionKey, tabId) =
      if sessionKey = next.sessionKey then
        ((next.tabs.find? (·.tabId = tabId)).map (tabRow next.revision)).or
          (tables.tabs.get? (sessionKey, tabId))
      else tables.tabs.get? (sessionKey, tabId) := by
  have hkeys : (next.tabs.map fun tab => (next.sessionKey, tab.tabId)).Nodup := by
    have := hn.map (f := fun tabId => (next.sessionKey, tabId)) fun _ _ h => (Prod.ext_iff.mp h).2
    rwa [tabIds, List.map_map] at this
  rw [tabs_upsertTabs, JsMap.get?_foldl_set _ _ hkeys]
  split_ifs with hs
  · simp [hs]
  · have hnone : next.tabs.find? (fun tab => (next.sessionKey, tab.tabId) = (sessionKey, tabId)) =
        none := List.find?_eq_none.mpr fun tab _ ht =>
          hs (Prod.mk.inj (of_decide_eq_true ht)).1.symm
    rw [hnone]
    rfl

end Tabs

section Widgets

theorem tabs_updateWidget (sessionKey name : String) (f : WidgetRow → WidgetRow) :
    (tables.updateWidget sessionKey name f).tabs = tables.tabs := by
  unfold updateWidget
  split <;> rfl

theorem get?_updateWidget (sessionKey name : String) (f : WidgetRow → WidgetRow)
    (key : String × String) :
    (tables.updateWidget sessionKey name f).widgets.get? key =
      if key = (sessionKey, name) then (tables.widgets.get? key).map f
      else tables.widgets.get? key := by
  unfold updateWidget
  split
  · rename_i hnone
    split_ifs with hk
    · rw [hk, hnone]
      rfl
    · rfl
  · rename_i row hrow
    simp only
    rw [JsMap.get?_set]
    by_cases hk : key = (sessionKey, name)
    · rw [if_pos hk.symm, if_pos hk, hk, hrow]
      rfl
    · rw [if_neg (Ne.symm hk), if_neg hk]

theorem tabs_updateWidgetLayouts (snapshot : BoardSnapshot Props) :
    (tables.updateWidgetLayouts snapshot).tabs = tables.tabs := by
  unfold updateWidgetLayouts
  induction snapshot.widgets generalizing tables with
  | nil => rfl
  | cons widget widgets ih => exact (ih _).trans (tables.tabs_updateWidget ..)

theorem get?_updateWidgetLayouts {snapshot : BoardSnapshot Props} (hn : snapshot.names.Nodup)
    (sessionKey name : String) :
    (tables.updateWidgetLayouts snapshot).widgets.get? (sessionKey, name) =
      if sessionKey = snapshot.sessionKey then
        match snapshot.widgets.find? (·.name = name) with
        | some widget => (tables.widgets.get? (sessionKey, name)).map (placeRow widget)
        | none => tables.widgets.get? (sessionKey, name)
      else tables.widgets.get? (sessionKey, name) := by
  unfold updateWidgetLayouts
  unfold names at hn
  generalize snapshot.widgets = widgets at hn ⊢
  induction widgets generalizing tables with
  | nil => simp
  | cons widget widgets ih =>
    rw [List.map_cons, List.nodup_cons] at hn
    rw [List.foldl_cons, ih _ hn.2, get?_updateWidget]
    by_cases hs : sessionKey = snapshot.sessionKey
    · by_cases hw : widget.name = name
      · have hnone : widgets.find? (fun w => w.name = name) = none :=
          List.find?_eq_none.mpr fun w hm hwn => hn.1 <| by
            rw [hw, ← of_decide_eq_true hwn]
            exact List.mem_map_of_mem hm
        simp [hs, hw, hnone]
      · simp [hs, hw, Ne.symm hw]
    · simp [hs]

/-- Deleting a key that stays, or is another session's, deletes none of the keys. -/
theorem removed_cons {own : Prop} {key head : String} {keys kept : List String}
    (h : own → key = head → key ∈ kept) :
    (own ∧ key ∈ keys ∧ key ∉ kept) ↔ own ∧ key ∈ head :: keys ∧ key ∉ kept := by
  rw [List.mem_cons]
  constructor
  · rintro ⟨hown, hm, hno⟩
    exact ⟨hown, .inr hm, hno⟩
  · rintro ⟨hown, he | hm, hno⟩
    · exact absurd (h hown he) hno
    · exact ⟨hown, hm, hno⟩

theorem tabs_deleteRemovedWidgets (previous : List (String × WidgetRow))
    (next : BoardSnapshot Props) :
    (tables.deleteRemovedWidgets previous next).tabs = tables.tabs := by
  unfold deleteRemovedWidgets
  induction previous generalizing tables with
  | nil => rfl
  | cons row rows ih =>
    rw [List.foldl_cons, ih]
    split_ifs <;> rfl

theorem get?_deleteRemovedWidgets (previous : List (String × WidgetRow))
    (next : BoardSnapshot Props) (sessionKey name : String) :
    (tables.deleteRemovedWidgets previous next).widgets.get? (sessionKey, name) =
      if sessionKey = next.sessionKey ∧ name ∈ previous.map Prod.fst ∧ name ∉ next.names then none
      else tables.widgets.get? (sessionKey, name) := by
  unfold deleteRemovedWidgets
  induction previous generalizing tables with
  | nil => simp
  | cons row rows ih =>
    rw [List.foldl_cons, ih]
    by_cases hrow : row.1 ∈ next.widgets.map (·.name)
    · rw [if_pos hrow]
      exact if_congr (removed_cons fun _ he => he ▸ hrow) rfl rfl
    · rw [if_neg hrow]
      simp only
      rw [JsMap.get?_delete]
      by_cases hk : (sessionKey, name) = (next.sessionKey, row.1)
      · obtain ⟨rfl, rfl⟩ := Prod.mk.inj hk
        rw [if_pos rfl, ite_self, if_pos ⟨rfl, by simp, hrow⟩]
      · rw [if_neg hk]
        exact if_congr (removed_cons fun hs he => absurd (Prod.ext hs he) hk) rfl rfl

theorem deleteRemovedTabs_eq (previous : List (String × TabRow)) (next : BoardSnapshot Props)
    (sessionKey : String) :
    (∀ tabId, (tables.deleteRemovedTabs previous next).tabs.get? (sessionKey, tabId) =
      if sessionKey = next.sessionKey ∧ tabId ∈ previous.map Prod.fst ∧ tabId ∉ next.tabIds then
        none
      else tables.tabs.get? (sessionKey, tabId)) ∧
    ((sessionKey = next.sessionKey → ∀ name row, tables.widgets.get? (sessionKey, name) = some row →
        row.tabId ∈ next.tabIds) →
      ∀ name, (tables.deleteRemovedTabs previous next).widgets.get? (sessionKey, name) =
        tables.widgets.get? (sessionKey, name)) := by
  unfold deleteRemovedTabs
  induction previous generalizing tables with
  | nil => simp
  | cons row rows ih =>
    rw [List.foldl_cons]
    obtain ⟨ihtabs, ihwidgets⟩ := ih
      (if row.1 ∈ next.tabs.map (·.tabId) then tables else tables.deleteTab next.sessionKey row.1)
    by_cases hrow : row.1 ∈ next.tabs.map (·.tabId)
    · rw [if_pos hrow] at ihtabs ihwidgets ⊢
      refine ⟨fun tabId => ?_, ihwidgets⟩
      rw [ihtabs]
      exact if_congr (removed_cons fun _ he => he ▸ hrow) rfl rfl
    · rw [if_neg hrow] at ihtabs ihwidgets ⊢
      refine ⟨fun tabId => ?_, fun hon name => ?_⟩
      · rw [ihtabs]
        simp only [deleteTab]
        rw [JsMap.get?_delete]
        by_cases hk : (sessionKey, tabId) = (next.sessionKey, row.1)
        · obtain ⟨rfl, rfl⟩ := Prod.mk.inj hk
          rw [if_pos rfl, ite_self, if_pos ⟨rfl, by simp, hrow⟩]
        · rw [if_neg hk]
          exact if_congr (removed_cons fun hs he => absurd (Prod.ext hs he) hk) rfl rfl
      · have hkeep : ∀ name, (tables.deleteTab next.sessionKey row.1).widgets.get?
            (sessionKey, name) = tables.widgets.get? (sessionKey, name) := by
          intro name
          simp only [deleteTab]
          rw [JsMap.get?_filterEntries]
          cases hget : tables.widgets.get? (sessionKey, name) with
          | none => rfl
          | some r =>
            refine Option.filter_eq_some_iff.mpr ⟨rfl, decide_eq_true ?_⟩
            rintro ⟨hs, htab⟩
            exact hrow (htab ▸ hon hs name r hget)
        rw [ihwidgets (fun hs n r hr => hon hs n r (by rwa [hkeep] at hr)), hkeep]

end Widgets

end BoardTables

section Holds

variable {host : SqliteHost Props}

/-- The declaration of a manifest is one that normalizes to itself. -/
def ManifestOk (host : SqliteHost Props) (manifest : Manifest) : Prop :=
  ∃ declared, normalizeBoardWidgetDeclared host.parseUrl declared = .ok declared ∧
    manifest.netOrigins = declared.bind (·.netOrigins) ∧ manifest.tools = declared.bind (·.tools)

theorem parseManifest_eq {manifest : Manifest} {declared : Option BoardWidgetDeclared}
    (hd : normalizeBoardWidgetDeclared host.parseUrl declared = .ok declared)
    (hn : manifest.netOrigins = declared.bind (·.netOrigins))
    (ht : manifest.tools = declared.bind (·.tools)) :
    parseManifest host manifest =
      { declared
        declarationInvalid := false
        grantSemanticsVersion :=
          manifest.grantSemanticsVersion.filter (· = boardGrantSemanticsVersion)
        presentation := manifest.presentation
        heightMode := manifest.heightMode
        mcpAppInteractive := manifest.mcpAppInteractive
        mcpAppInstanceId := manifest.mcpAppInstanceId.filter fun id => isHexId id } := by
  have hlist : ∀ list : Option (List String), list ≠ some [] → declaredList list = list := by
    intro list hne
    unfold declaredList
    split
    · exact absurd rfl hne
    · rfl
  obtain ⟨hno, hnt⟩ := ne_nil_of_normalized hd
  unfold parseManifest
  rw [hn, ht, hlist _ hno, hlist _ hnt, normalizeBoardWidgetDeclared_fields, hd]

/-- What the columns of a row have to do with each other. -/
structure RowOk (host : SqliteHost Props) (row : WidgetRow) : Prop where
  manifest : ManifestOk host row.manifest
  html : row.contentKind = .html → ∃ html, row.html = some html ∧
    row.sha256 = host.sha256 html ∧ row.manifest.mcpAppInteractive = none ∧
    (row.grantState = .granted → row.grantedSha = some row.sha256)
  mcpApp : row.contentKind = .mcpApp → ∃ descriptor interactive id,
    row.descriptorJson = some (.mcpApp descriptor) ∧
    row.manifest.mcpAppInteractive = some interactive ∧
    row.manifest.mcpAppInstanceId = some id ∧ isHexId id = true ∧
    (row.grantState ≠ .none → interactive = true)
  plugin : row.contentKind = .plugin → row.grantState = .none

/-- The rows of a session hold a snapshot. -/
structure Holds (host : SqliteHost Props) (tables : BoardTables) (sessionKey : String)
    (snapshot : BoardSnapshot Props) : Prop where
  key : snapshot.sessionKey = sessionKey
  settled : snapshot.toBoardLayout.Settled
  width : snapshot.widgets.length ≤ boardMaxWidgets
  revision : snapshot.tabs = [] → snapshot.revision = 0
  tabs : ∀ tabId, tables.tabs.get? (sessionKey, tabId) =
    (snapshot.tabs.find? (·.tabId = tabId)).map (BoardTables.tabRow snapshot.revision)
  widgets : ∀ name, (tables.widgets.get? (sessionKey, name)).map (rowToWidget host name) =
    snapshot.widgets.find? (·.name = name)
  rows : ∀ name row, tables.widgets.get? (sessionKey, name) = some row → RowOk host row

namespace Holds

variable {tables tables' : BoardTables} {sessionKey : String} {snapshot : BoardSnapshot Props}

theorem empty (sessionKey : String) :
    Holds host ⟨.empty, .empty⟩ sessionKey (emptyBoardSnapshot sessionKey) where
  key := rfl
  settled := ⟨⟨⟨by simp [tabIds, emptyBoardSnapshot], by simp [names, emptyBoardSnapshot],
    by simp [emptyBoardSnapshot], by simp [emptyBoardSnapshot]⟩, by simp [emptyBoardSnapshot],
    by simp [onTab, emptyBoardSnapshot]⟩, .nil⟩
  width := Nat.zero_le _
  revision _ := rfl
  tabs _ := rfl
  widgets _ := rfl
  rows _ _ h := by cases h

theorem congr (h : Holds host tables sessionKey snapshot)
    (ht : ∀ tabId, tables'.tabs.get? (sessionKey, tabId) = tables.tabs.get? (sessionKey, tabId))
    (hw : ∀ name, tables'.widgets.get? (sessionKey, name) =
      tables.widgets.get? (sessionKey, name)) : Holds host tables' sessionKey snapshot where
  key := h.key
  settled := h.settled
  width := h.width
  revision := h.revision
  tabs tabId := by rw [ht]; exact h.tabs tabId
  widgets name := by rw [hw]; exact h.widgets name
  rows name row := by rw [hw]; exact h.rows name row

theorem parse (h : Holds host tables sessionKey snapshot) {name : String} {row : WidgetRow}
    (hrow : tables.widgets.get? (sessionKey, name) = some row) :
    rowToWidget host name row ∈ snapshot.widgets := by
  have hw := h.widgets name
  rw [hrow] at hw
  exact ((find?_eq_some_iff h.settled.names).mp hw.symm).1

/-- Every widget has its row. -/
theorem exists_row (h : Holds host tables sessionKey snapshot) {widget : BoardWidget Props}
    (hm : widget ∈ snapshot.widgets) :
    ∃ row, tables.widgets.get? (sessionKey, widget.name) = some row ∧
      rowToWidget host widget.name row = widget := by
  have hw := h.widgets widget.name
  rw [find?_eq_some_of_mem h.settled.names hm] at hw
  exact Option.map_eq_some_iff.mp hw

/-- No row is left out for want of an authority snapshot. -/
theorem widgetRows_perm (h : Holds host tables sessionKey snapshot) :
    tables.widgetRows host sessionKey ~ BoardTables.rowsOf tables.widgets sessionKey := by
  refine List.Perm.trans (.of_eq ?_) (List.perm_insertionSort BoardTables.widgetRowLe _)
  refine List.filter_eq_self.mpr fun entry hm => ?_
  obtain ⟨name, row⟩ := entry
  rw [List.mem_insertionSort, BoardTables.mem_rowsOf] at hm
  have hok := h.rows name row hm
  by_cases hk : row.contentKind = .mcpApp
  · obtain ⟨_, interactive, id, -, hinteractive, hid, hhex, -⟩ := hok.mcpApp hk
    obtain ⟨declared, hd, hn, ht⟩ := hok.manifest
    simp [parseManifest_eq hd hn ht, hinteractive, hid, hhex]
  · simp [hk]

theorem find?_widgetRows (h : Holds host tables sessionKey snapshot) (name : String) :
    ((tables.widgetRows host sessionKey).find? fun row => row.1 = name).map (·.2) =
      tables.widgets.get? (sessionKey, name) := by
  have hmem : ∀ row, (name, row) ∈ tables.widgetRows host sessionKey ↔
      tables.widgets.get? (sessionKey, name) = some row := fun row => by
    rw [h.widgetRows_perm.mem_iff, BoardTables.mem_rowsOf]
  cases hf : (tables.widgetRows host sessionKey).find? fun row => row.1 = name with
  | none =>
    cases hget : tables.widgets.get? (sessionKey, name) with
    | none => rfl
    | some row =>
      have := List.find?_eq_none.mp hf _ ((hmem row).mpr hget)
      simp at this
  | some entry =>
    obtain ⟨n, row⟩ := entry
    obtain rfl : n = name := by simpa using List.find?_some hf
    exact ((hmem row).mp (List.mem_of_find?_eq_some hf)).symm

theorem mem_tabRows (h : Holds host tables sessionKey snapshot) {tabId : String} {row : TabRow} :
    (tabId, row) ∈ tables.tabRows sessionKey ↔
      ∃ tab ∈ snapshot.tabs, tab.tabId = tabId ∧ BoardTables.tabRow snapshot.revision tab = row := by
  unfold BoardTables.tabRows
  rw [List.mem_insertionSort, BoardTables.mem_rowsOf, h.tabs, Option.map_eq_some_iff]
  simp only [find?_eq_some_iff (k := BoardTab.tabId) h.settled.tabIds, and_assoc]

theorem map_rowToTab_perm (h : Holds host tables sessionKey snapshot) :
    (tables.tabRows sessionKey).map (fun row => rowToTab row.1 row.2) ~ snapshot.tabs := by
  have hids : ((tables.tabRows sessionKey).map fun row => rowToTab row.1 row.2).map (·.tabId) ~
      (BoardTables.rowsOf tables.tabs sessionKey).map Prod.fst := by
    rw [List.map_map]
    exact (List.perm_insertionSort _ _).map _
  have hn := (hids.nodup_iff.mpr (BoardTables.nodup_rowsOf _ _)).of_map
  refine (List.perm_ext_iff_of_nodup hn h.settled.tabIds.of_map).mpr fun tab => ?_
  rw [List.mem_map]
  constructor
  · rintro ⟨⟨tabId, row⟩, hm, rfl⟩
    obtain ⟨tab, htab, rfl, rfl⟩ := h.mem_tabRows.mp hm
    exact htab
  · intro hm
    exact ⟨_, h.mem_tabRows.mpr ⟨tab, hm, rfl, rfl⟩, rfl⟩

theorem map_rowToWidget_perm (h : Holds host tables sessionKey snapshot) :
    (tables.widgetRows host sessionKey).map (fun row => rowToWidget host row.1 row.2) ~
      snapshot.widgets := by
  refine (h.widgetRows_perm.map _).trans ?_
  have hnames : ((BoardTables.rowsOf tables.widgets sessionKey).map
      fun row => rowToWidget host row.1 row.2).map (·.name) =
        (BoardTables.rowsOf tables.widgets sessionKey).map Prod.fst := by
    rw [List.map_map]
    rfl
  have hn : ((BoardTables.rowsOf tables.widgets sessionKey).map
      fun row => rowToWidget host row.1 row.2).Nodup :=
    List.Nodup.of_map (·.name) (by rw [hnames]; exact BoardTables.nodup_rowsOf _ _)
  refine (List.perm_ext_iff_of_nodup hn h.settled.names.of_map).mpr fun widget => ?_
  rw [List.mem_map]
  constructor
  · rintro ⟨⟨name, row⟩, hm, rfl⟩
    exact h.parse ((BoardTables.mem_rowsOf _ _).mp hm)
  · intro hm
    obtain ⟨row, hrow, hwidget⟩ := h.exists_row hm
    exact ⟨(widget.name, row), (BoardTables.mem_rowsOf _ _).mpr hrow, hwidget⟩

theorem foldl_max_eq {rows : List (String × TabRow)} {revision : ℕ}
    (h : ∀ row ∈ rows, row.2.revision = revision) (start : ℕ) (hs : start ≤ revision) :
    rows.foldl (fun revision row => max revision row.2.revision) start =
      if rows = [] then start else revision := by
  induction rows generalizing start with
  | nil => rfl
  | cons row rows ih =>
    have hrow := h row List.mem_cons_self
    rw [List.foldl_cons, hrow, max_eq_right hs,
      ih (fun r hr => h r (List.mem_cons_of_mem _ hr)) revision le_rfl]
    split_ifs <;> simp_all

/-- Reading the rows yields the snapshot they hold. -/
theorem readStoredBoard (h : Holds host tables sessionKey snapshot) :
    tables.readStoredBoard host sessionKey = snapshot := by
  have hlayout := normalize_eq_of_perm h.settled h.map_rowToTab_perm h.map_rowToWidget_perm
  have hrevision : (tables.tabRows sessionKey).foldl
      (fun revision row => max revision row.2.revision) 0 = snapshot.revision := by
    rw [@foldl_max_eq _ snapshot.revision ?_ 0 (Nat.zero_le _)]
    · split_ifs with hempty
      · have hperm := h.map_rowToTab_perm
        rw [hempty, List.map_nil, List.nil_perm] at hperm
        exact (h.revision hperm).symm
      · rfl
    · rintro ⟨tabId, row⟩ hm
      obtain ⟨tab, -, -, rfl⟩ := h.mem_tabRows.mp hm
      rfl
  unfold BoardTables.readStoredBoard
  rw [hlayout, hrevision, ← h.key]

end Holds

end Holds

end Flashclaw.Board
