import Flashclaw.Board.Rows

/-!
# Boards: operations on the rows
-/

namespace Flashclaw.Board

variable {Props : Type}

open BoardLayout Lists Results

open scoped List

/-- The height mode an operation sets on the widget of that name. -/
def BoardOp.setsHeightMode (op : BoardOp) (name : String) : Option HeightMode :=
  match op with
  | .widgetResize resized _ _ heightMode =>
    if resized = name then some (heightMode.getD .fixed) else none
  | _ => none

/-- The height mode a batch leaves on the widget of that name, if it sets one. -/
def lastHeightMode (ops : List BoardOp) (name : String) : Option HeightMode :=
  ops.foldl (fun mode op => (op.setsHeightMode name).or mode) none

theorem lastHeightMode_concat (ops : List BoardOp) (op : BoardOp) (name : String) :
    lastHeightMode (ops ++ [op]) name = (op.setsHeightMode name).or (lastHeightMode ops name) := by
  simp [lastHeightMode]

theorem touch_heightMode (op : BoardOp) (widget : BoardWidget Props) :
    (op.touch widget).heightMode = (op.setsHeightMode widget.name).or widget.heightMode := by
  cases op with
  | widgetResize resized sizeW sizeH heightMode =>
    by_cases h : widget.name = resized
    · simp [BoardOp.touch, BoardOp.setsHeightMode, h, BoardWidget.resize]
    · simp [BoardOp.touch, BoardOp.setsHeightMode, h, Ne.symm h]
  | _ => rfl

theorem touches_heightMode (ops : List BoardOp) (widget : BoardWidget Props) :
    (touches ops widget).heightMode =
      (lastHeightMode ops widget.name).or widget.heightMode := by
  induction ops using List.reverseRecOn with
  | nil => rfl
  | append_singleton ops op ih =>
    have hconcat : touches (ops ++ [op]) widget = op.touch (touches ops widget) := by
      simp [touches]
    rw [hconcat, touch_heightMode, touches_name, ih, lastHeightMode_concat, Option.or_assoc]

/-- A widget after a batch, told from the one it was. -/
theorem eq_of_touches {ops : List BoardOp} {widget widget' : BoardWidget Props}
    (h : widget'.unplaced = touches ops widget.unplaced) :
    widget' = { widget with
      tabId := widget'.tabId, position := widget'.position, sizeW := widget'.sizeW
      sizeH := widget'.sizeH, heightMode := (lastHeightMode ops widget.name).or widget.heightMode } := by
  let unsized (w : BoardWidget Props) : BoardWidget Props :=
    { w with sizeW := 0, sizeH := 0, heightMode := none }
  have hunsized : unsized widget'.unplaced = unsized widget.unplaced := by
    rw [h]
    exact touches_field (f := unsized) (fun _ _ _ _ => rfl) ops _
  have hmode : widget'.heightMode = (lastHeightMode ops widget.name).or widget.heightMode := by
    have := congrArg BoardWidget.heightMode h
    rwa [touches_heightMode] at this
  have hself : widget' = { unsized widget'.unplaced with
      tabId := widget'.tabId, position := widget'.position, sizeW := widget'.sizeW
      sizeH := widget'.sizeH, heightMode := widget'.heightMode } := rfl
  rw [← hmode]
  exact hself.trans (by rw [hunsized]; rfl)

namespace BoardTables

variable (tables : BoardTables)

theorem updateWidgetHeightModes_concat (sessionKey : String)
    (previous : List (String × WidgetRow)) (ops : List BoardOp) (op : BoardOp) :
    tables.updateWidgetHeightModes sessionKey previous (ops ++ [op]) =
      (tables.updateWidgetHeightModes sessionKey previous ops).updateWidgetHeightMode sessionKey
        previous op := by
  simp [updateWidgetHeightModes]

theorem tabs_updateWidgetHeightModes (sessionKey : String) (previous : List (String × WidgetRow))
    (ops : List BoardOp) :
    (tables.updateWidgetHeightModes sessionKey previous ops).tabs = tables.tabs := by
  induction ops using List.reverseRecOn with
  | nil => rfl
  | append_singleton ops op ih =>
    rw [updateWidgetHeightModes_concat, ← ih]
    unfold updateWidgetHeightMode
    split
    · split
      · rfl
      · exact tabs_updateWidget ..
    · rfl

theorem get?_updateWidgetHeightMode (sessionKey : String) (previous : List (String × WidgetRow))
    (op : BoardOp) (key name : String) :
    (tables.updateWidgetHeightMode sessionKey previous op).widgets.get? (key, name) =
      if key = sessionKey then
        match op.setsHeightMode name, previous.find? fun row => row.1 = name with
        | some heightMode, some row => (tables.widgets.get? (key, name)).map fun current =>
            { current with manifest := updateManifestHeightMode row.2.manifest heightMode }
        | _, _ => tables.widgets.get? (key, name)
      else tables.widgets.get? (key, name) := by
  cases op with
  | widgetResize resized sizeW sizeH heightMode =>
    simp only [updateWidgetHeightMode, BoardOp.setsHeightMode]
    by_cases hname : resized = name
    · subst hname
      rw [if_pos rfl]
      cases previous.find? fun row => row.1 = resized with
      | none => simp
      | some row =>
        simp only
        rw [get?_updateWidget]
        by_cases hk : key = sessionKey <;> simp [hk]
    · rw [if_neg hname]
      split
      · simp
      · rw [get?_updateWidget, if_neg (by simp [Ne.symm hname])]
        simp
  | _ => simp [updateWidgetHeightMode, BoardOp.setsHeightMode]

/-- Only the last resize of a widget counts, whose manifest is the one read before the batch. -/
theorem get?_updateWidgetHeightModes (sessionKey : String) (previous : List (String × WidgetRow))
    (ops : List BoardOp) (key name : String) :
    (tables.updateWidgetHeightModes sessionKey previous ops).widgets.get? (key, name) =
      if key = sessionKey then
        match lastHeightMode ops name, previous.find? fun row => row.1 = name with
        | some heightMode, some row => (tables.widgets.get? (key, name)).map fun current =>
            { current with manifest := updateManifestHeightMode row.2.manifest heightMode }
        | _, _ => tables.widgets.get? (key, name)
      else tables.widgets.get? (key, name) := by
  induction ops using List.reverseRecOn with
  | nil => simp [updateWidgetHeightModes, lastHeightMode]
  | append_singleton ops op ih =>
    rw [updateWidgetHeightModes_concat, get?_updateWidgetHeightMode, ih, lastHeightMode_concat]
    by_cases hk : key = sessionKey
    · simp only [hk, if_true]
      cases op.setsHeightMode name <;> cases lastHeightMode ops name <;>
        cases previous.find? (fun row => row.1 = name) <;>
        simp [Option.map_map, Function.comp_def]
    · simp only [if_neg hk]

end BoardTables

section Rows

variable {host : SqliteHost Props}

/-- A row in another place, with another height mode. -/
theorem rowToWidget_place {row : WidgetRow} (h : ManifestOk host row.manifest) (name : String)
    (widget : BoardWidget Props) (heightMode : Option HeightMode) :
    rowToWidget host name { BoardTables.placeRow widget row with
        manifest := { row.manifest with heightMode } } =
      { rowToWidget host name row with
        tabId := widget.tabId, title := widget.title, sizeW := widget.sizeW, sizeH := widget.sizeH
        position := widget.position, heightMode } := by
  obtain ⟨declared, hd, hn, ht⟩ := h
  have hnew := @parseManifest_eq _ host { row.manifest with heightMode } declared hd hn ht
  unfold rowToWidget
  rw [parseManifest_eq hd hn ht]
  simp only [hnew, BoardTables.placeRow]
  rfl

/-- A row after a batch: the place its widget has then, and the height mode the batch sets. -/
def opsRow (ops : List BoardOp) (name : String) (widget : BoardWidget Props) (row : WidgetRow) :
    WidgetRow :=
  { BoardTables.placeRow widget row with
    manifest := { row.manifest with
      heightMode := (lastHeightMode ops name).or row.manifest.heightMode } }

variable {tables : BoardTables} {sessionKey : String} {snapshot next : BoardSnapshot Props}

theorem find?_eq_none_iff {layout : BoardLayout Props} {name : String} :
    layout.widgets.find? (·.name = name) = none ↔ name ∉ layout.names := by
  simp [names, List.find?_eq_none]

theorem find?_tab_eq_none_iff {layout : BoardLayout Props} {tabId : String} :
    layout.tabs.find? (·.tabId = tabId) = none ↔ tabId ∉ layout.tabIds := by
  simp [tabIds, List.find?_eq_none]

theorem Holds.mem_widgetRows_iff (h : Holds host tables sessionKey snapshot) (name : String) :
    name ∈ (tables.widgetRows host sessionKey).map Prod.fst ↔
      (tables.widgets.get? (sessionKey, name)).isSome := by
  rw [← h.find?_widgetRows, Option.isSome_map, List.find?_isSome, List.mem_map]
  simp

/-- The widget rows that a batch leaves to its session. -/
theorem get?_writeOps (h : Holds host tables sessionKey snapshot)
    (hkey : next.sessionKey = sessionKey) (hn : next.toBoardLayout.Normal) (ops : List BoardOp)
    (name : String) :
    (tables.writeOps host next ops).widgets.get? (sessionKey, name) =
      (next.widgets.find? (·.name = name)).bind fun widget =>
        (tables.widgets.get? (sessionKey, name)).map (opsRow ops name widget) := by
  have hbefore : ∀ name, ((((tables.upsertTabs next).deleteRemovedWidgets
      (tables.widgetRows host sessionKey) next).updateWidgetLayouts next).updateWidgetHeightModes
        sessionKey (tables.widgetRows host sessionKey) ops).widgets.get? (sessionKey, name) =
      (next.widgets.find? (·.name = name)).bind fun widget =>
        (tables.widgets.get? (sessionKey, name)).map (opsRow ops name widget) := by
    intro name
    have hprevious := h.find?_widgetRows name
    have hmem := h.mem_widgetRows_iff name
    rw [BoardTables.get?_updateWidgetHeightModes, BoardTables.get?_updateWidgetLayouts _ hn.names,
      BoardTables.get?_deleteRemovedWidgets, BoardTables.widgets_upsertTabs, if_pos rfl,
      if_pos hkey.symm]
    cases hfind : next.widgets.find? (·.name = name) with
    | none =>
      have hgone := find?_eq_none_iff.mp hfind
      have hnone : (if sessionKey = next.sessionKey ∧
          name ∈ (tables.widgetRows host sessionKey).map Prod.fst ∧ name ∉ next.names then none
            else tables.widgets.get? (sessionKey, name)) = none := by
        split_ifs with hdeleted
        · rfl
        · rw [← Option.not_isSome_iff_eq_none, ← hmem]
          exact fun hm => hdeleted ⟨hkey.symm, hm, hgone⟩
      simp only [hnone, Option.map_none, Option.bind_none]
      split <;> rfl
    | some widget =>
      have hstays : name ∈ next.names := by
        by_contra hno
        rw [find?_eq_none_iff.mpr hno] at hfind
        cases hfind
      rw [if_neg fun hdeleted => hdeleted.2.2 hstays]
      simp only [Option.bind_some]
      cases hrow : tables.widgets.get? (sessionKey, name) with
      | none => split <;> rfl
      | some row =>
        obtain ⟨entry, hentry, hr⟩ := Option.map_eq_some_iff.mp (hprevious.trans hrow)
        rw [hentry]
        cases hmode : lastHeightMode ops name with
        | none => simp [opsRow, hmode, BoardTables.placeRow]
        | some mode => simp [opsRow, hmode, updateManifestHeightMode, hr]
  unfold BoardTables.writeOps
  simp only [hkey]
  rw [((BoardTables.deleteRemovedTabs_eq _ _ next sessionKey).2 fun _ n row hrow => ?_) name,
    hbefore]
  rw [hbefore, Option.bind_eq_some_iff] at hrow
  obtain ⟨widget, hwidget, hrow⟩ := hrow
  obtain ⟨old, -, rfl⟩ := Option.map_eq_some_iff.mp hrow
  exact hn.onTabs widget (List.mem_of_find?_eq_some hwidget)

theorem opsRow_ok {row : WidgetRow} (h : RowOk host row) (ops : List BoardOp) (name : String)
    (widget : BoardWidget Props) : RowOk host (opsRow ops name widget row) where
  manifest := h.manifest
  html := h.html
  mcpApp := h.mcpApp
  plugin := h.plugin

/-- The row of a widget after a batch reads as that widget. -/
theorem rowToWidget_opsRow {row : WidgetRow} (h : RowOk host row) {ops : List BoardOp}
    {widget widget' : BoardWidget Props} (hrow : rowToWidget host widget.name row = widget)
    (hw : widget'.unplaced = touches ops widget.unplaced) :
    rowToWidget host widget.name (opsRow ops widget.name widget' row) = widget' := by
  have hmode : row.manifest.heightMode = widget.heightMode := by
    obtain ⟨declared, hd, hn, ht⟩ := h.manifest
    rw [← hrow]
    unfold rowToWidget
    rw [parseManifest_eq hd hn ht]
  have htitle : widget'.title = widget.title := by
    rw [eq_of_touches hw]
  rw [opsRow, rowToWidget_place h.manifest, hrow, hmode, htitle]
  exact (eq_of_touches hw).symm

theorem get?_tabs_writeOps (h : Holds host tables sessionKey snapshot)
    (hkey : next.sessionKey = sessionKey) (hn : next.tabIds.Nodup) (ops : List BoardOp)
    (tabId : String) :
    (tables.writeOps host next ops).tabs.get? (sessionKey, tabId) =
      (next.tabs.find? (·.tabId = tabId)).map (BoardTables.tabRow next.revision) := by
  unfold BoardTables.writeOps
  simp only [hkey]
  rw [(BoardTables.deleteRemovedTabs_eq _ _ next sessionKey).1,
    BoardTables.tabs_updateWidgetHeightModes, BoardTables.tabs_updateWidgetLayouts,
    BoardTables.tabs_deleteRemovedWidgets, BoardTables.get?_upsertTabs _ hn, if_pos hkey.symm]
  cases hfind : next.tabs.find? (·.tabId = tabId) with
  | some tab =>
    have hstays : tabId ∈ next.tabIds := by
      by_contra hno
      rw [find?_tab_eq_none_iff.mpr hno] at hfind
      cases hfind
    rw [if_neg fun hdeleted => hdeleted.2.2 hstays]
    rfl
  | none =>
    have hgone := find?_tab_eq_none_iff.mp hfind
    split_ifs with hdeleted
    · rfl
    · rw [Option.map_none, Option.none_or, h.tabs, Option.map_eq_none_iff, find?_tab_eq_none_iff]
      intro hm
      obtain ⟨tab, htab, rfl⟩ := List.mem_map.mp hm
      exact hdeleted ⟨hkey.symm, List.mem_map_of_mem (f := Prod.fst)
        (h.mem_tabRows.mpr ⟨tab, htab, rfl, rfl⟩), hgone⟩

/-- What a store keeps of a snapshot: a board without tabs is gone. -/
def kept (snapshot : BoardSnapshot Props) : BoardSnapshot Props :=
  if snapshot.tabs = [] then emptyBoardSnapshot snapshot.sessionKey else snapshot

theorem BoardLayout.Sound.widgets_eq_nil {layout : BoardLayout Props} (h : layout.Sound)
    (ht : layout.tabs = []) : layout.widgets = [] := by
  refine List.eq_nil_iff_forall_not_mem.mpr fun w hm => ?_
  simpa [BoardLayout.tabIds, ht] using h.onTabs w hm

/-- The rows after a batch hold the layout it returns. -/
theorem Holds.writeOps (h : Holds host tables sessionKey snapshot)
    (hkey : next.sessionKey = sessionKey) {ops : List BoardOp}
    (hc : BatchContents snapshot.toBoardLayout ops next.toBoardLayout) :
    Holds host (tables.writeOps host next ops) sessionKey (kept next) := by
  have hget := fun name => get?_writeOps h hkey hc.settled.toNormal ops name
  have htabs := fun tabId => get?_tabs_writeOps h hkey hc.settled.tabIds ops tabId
  have hrows : ∀ name row, (tables.writeOps host next ops).widgets.get? (sessionKey, name) =
      some row → RowOk host row := by
    intro name row hrow
    rw [hget, Option.bind_eq_some_iff] at hrow
    obtain ⟨widget, -, hrow⟩ := hrow
    obtain ⟨old, hold, rfl⟩ := Option.map_eq_some_iff.mp hrow
    exact opsRow_ok (h.rows name old hold) ops name widget
  have hwidgets : ∀ name, ((tables.writeOps host next ops).widgets.get? (sessionKey, name)).map
      (rowToWidget host name) = next.widgets.find? (·.name = name) := by
    intro name
    rw [hget]
    cases hfind : next.widgets.find? (·.name = name) with
    | none => rfl
    | some widget' =>
      obtain ⟨hm, rfl⟩ := (find?_eq_some_iff (k := BoardWidget.name) hc.settled.names).mp hfind
      obtain ⟨widget, hw, hname, -, hunplaced⟩ := hc.origin hm
      obtain ⟨row, hrow, hread⟩ := h.exists_row hw
      rw [hname] at hrow
      rw [Option.bind_some, hrow, Option.map_some, Option.map_some, ← hname,
        rowToWidget_opsRow (h.rows _ row hrow) hread hunplaced]
  unfold kept
  split_ifs with hempty
  · have hnone := hc.settled.widgets_eq_nil hempty
    refine ⟨hkey, (@Holds.empty _ host sessionKey).settled, Nat.zero_le _, fun _ => rfl,
      fun tabId => ?_, fun name => ?_, hrows⟩
    · rw [htabs, hempty]
      rfl
    · rw [hwidgets, hnone]
      rfl
  · refine ⟨hkey, hc.settled, ?_, fun ht => absurd ht hempty, htabs, hwidgets, hrows⟩
    have hlen := hc.unplaced.length_eq
    rw [List.length_map, List.length_map] at hlen
    rw [hlen]
    exact (List.length_filter_le _ _).trans h.width

/-- A batch leaves the rows of other sessions as they are. -/
theorem get?_writeOps_ne (next : BoardSnapshot Props) (ops : List BoardOp) {key : String}
    (hne : key ≠ next.sessionKey) (hn : next.toBoardLayout.Normal) (id : String) :
    (tables.writeOps host next ops).tabs.get? (key, id) = tables.tabs.get? (key, id) ∧
      (tables.writeOps host next ops).widgets.get? (key, id) =
        tables.widgets.get? (key, id) := by
  unfold BoardTables.writeOps
  simp only
  obtain ⟨htabs, hwidgets⟩ := BoardTables.deleteRemovedTabs_eq
    ((((tables.upsertTabs next).deleteRemovedWidgets (tables.widgetRows host next.sessionKey)
      next).updateWidgetLayouts next).updateWidgetHeightModes next.sessionKey
        (tables.widgetRows host next.sessionKey) ops) (tables.tabRows next.sessionKey) next key
  constructor
  · rw [htabs, if_neg fun h => hne h.1, BoardTables.tabs_updateWidgetHeightModes,
      BoardTables.tabs_updateWidgetLayouts, BoardTables.tabs_deleteRemovedWidgets,
      BoardTables.get?_upsertTabs _ hn.tabIds, if_neg hne]
  · rw [hwidgets fun he => absurd he hne, BoardTables.get?_updateWidgetHeightModes, if_neg hne,
      BoardTables.get?_updateWidgetLayouts _ hn.names, if_neg hne,
      BoardTables.get?_deleteRemovedWidgets, if_neg fun h => hne h.1,
      BoardTables.widgets_upsertTabs]

end Rows

end Flashclaw.Board
