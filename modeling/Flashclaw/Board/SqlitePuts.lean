import Flashclaw.Board.SqliteOps

/-!
# Boards: puts and grants on the rows
-/

namespace Flashclaw.Board

variable {Props : Type}

open BoardLayout Lists Results

open scoped List

variable {host : SqliteHost Props}

/-- The widget as its row has it: the fields that depend on its content anew. -/
def rederive (host : SqliteHost Props) (content : BoardWidgetContent Props) (id : String)
    (widget : BoardWidget Props) : BoardWidget Props :=
  match content with
  | .plugin pluginKind props => { widget with
      pluginKind := some pluginKind, props := props.map fun props => host.parse (host.stringify props)
      instanceId := none }
  | _ => { widget with pluginKind := none, props := none, instanceId := some id }

/-- A put sets no grant state that its declaration and content do not carry. -/
def GrantFits (content : BoardWidgetContent Props) (declared : Option BoardWidgetDeclared)
    (grantState : GrantState) : Prop :=
  grantState ≠ .rejected ∧
    match content with
    | .html _ => grantState ≠ .none → declared ≠ none
    | .mcpApp _ interactive => grantState ≠ .none → interactive = true
    | .plugin _ _ => grantState = .none

theorem grantFits_of_put {prior : BoardLayout Props} {params : BoardWidgetPutParams Props}
    {context : PutContext} {tabId : String} {position : ℕ} {kept : Option BoardWidgetDeclared} :
    GrantFits params.content kept
      (putResult host.toHost prior params tabId position kept context).grantState := by
  rw [putResult_grantState]
  unfold GrantFits putGrantState
  cases params.content with
  | plugin pluginKind props => simp
  | html html =>
    simp only
    refine ⟨by split_ifs <;> simp, ?_⟩
    rintro hne rfl
    simp [preservesGrant, createBoardDeclaredSummary, origins, tools] at hne
  | mcpApp descriptor interactive =>
    simp only
    refine ⟨by split_ifs <;> simp, fun hne => ?_⟩
    by_contra hinteractive
    simp [preservesGrant, hinteractive] at hne

section Fields

variable {params : BoardWidgetPutParams Props} {presentation : Option Presentation}
  {heightMode : Option HeightMode} {revision : ℕ} {grantState : GrantState} {id : HexId}

/-- The row of a put. -/
def putRow (host : SqliteHost Props) (params : BoardWidgetPutParams Props) (id : String)
    (widget : BoardWidget Props) : WidgetRow :=
  { toContentFields := createBoardWidgetContentFields host params widget.presentation
      widget.heightMode widget.revision widget.grantState id
    tabId := widget.tabId, title := widget.title, sizeW := widget.sizeW, sizeH := widget.sizeH
    position := widget.position }

theorem putRow_ok (hd : normalizeBoardWidgetDeclared host.parseUrl params.declared =
    .ok params.declared) {widget : BoardWidget Props}
    (hfits : GrantFits params.content params.declared widget.grantState) :
    RowOk host (putRow host params id.value widget) := by
  obtain ⟨-, hfits⟩ := hfits
  unfold putRow createBoardWidgetContentFields
  cases hcontent : params.content with
  | html html =>
    rw [hcontent] at hfits
    refine ⟨⟨_, hd, rfl, rfl⟩, fun _ => ⟨html, rfl, rfl, rfl, fun hg => if_pos hg⟩, ?_, ?_⟩
    · intro hk
      cases hk
    · intro hk
      cases hk
  | plugin pluginKind props =>
    refine ⟨⟨_, hd, rfl, rfl⟩, ?_, ?_, fun _ => rfl⟩
    · intro hk
      cases hk
    · intro hk
      cases hk
  | mcpApp descriptor interactive =>
    rw [hcontent] at hfits
    refine ⟨⟨_, hd, rfl, rfl⟩, ?_, fun _ => ⟨descriptor, interactive, id.value, rfl, rfl, rfl,
      id.isHex, hfits⟩, ?_⟩
    · intro hk
      cases hk
    · intro hk
      cases hk

/-- What was written to a manifest is read back. -/
theorem parseManifest_serialize {declared : Option BoardWidgetDeclared}
    (hd : normalizeBoardWidgetDeclared host.parseUrl declared = .ok declared)
    (grantState : GrantState) (authority : Option (Bool × String))
    (presentation : Option Presentation) (heightMode : Option HeightMode) :
    parseManifest host (serializeManifest declared grantState authority presentation heightMode) =
      { declared
        declarationInvalid := false
        grantSemanticsVersion :=
          if grantState = .granted then some boardGrantSemanticsVersion else none
        presentation
        heightMode
        mcpAppInteractive := authority.map (·.1)
        mcpAppInstanceId := (authority.map (·.2)).filter fun id => isHexId id } := by
  rw [parseManifest_eq hd rfl rfl]
  unfold serializeManifest
  split_ifs <;> simp

/-- A grant state with a declaration or an interactive app behind it is the effective one. -/
theorem effectiveGrantState_eq {grantState : GrantState} {manifest : ParsedBoardManifest}
    (hvalid : manifest.declarationInvalid = false)
    (hversion : grantState = .granted →
      manifest.grantSemanticsVersion = some boardGrantSemanticsVersion)
    (hbehind : grantState ≠ .none → grantState ≠ .rejected →
      manifest.declared ≠ none ∨ manifest.mcpAppInteractive = some true) :
    effectiveGrantState grantState manifest = grantState := by
  unfold effectiveGrantState
  cases grantState with
  | none => simp
  | rejected => simp
  | pending =>
    rcases hbehind (by simp) (by simp) with h | h <;> simp [hvalid, h]
  | granted =>
    rcases hbehind (by simp) (by simp) with h | h <;> simp [hvalid, h, hversion rfl]

/-- The row of a put reads as the widget put, its content fields derived anew. -/
theorem rowToWidget_putRow (hd : normalizeBoardWidgetDeclared host.parseUrl params.declared =
    .ok params.declared) {widget : BoardWidget Props}
    (hfits : GrantFits params.content params.declared widget.grantState)
    (hkind : widget.contentKind = params.content.kind) (hdeclared : widget.declared = params.declared)
    (hsummary : widget.declaredSummary = createBoardDeclaredSummary params.declared) :
    rowToWidget host widget.name (putRow host params id.value widget) =
      rederive host params.content id.value widget := by
  obtain ⟨-, hfits⟩ := hfits
  rw [← hdeclared] at hsummary
  unfold putRow createBoardWidgetContentFields
  cases hcontent : params.content with
  | html html =>
    rw [hcontent] at hfits hkind
    simp only [rowToWidget, parseManifest_serialize hd]
    rw [effectiveGrantState_eq rfl (fun hg => if_pos hg) fun hne _ => .inl (hfits hne)]
    simp [rederive, ← hdeclared, ← hsummary, hkind, BoardWidgetContent.kind]
  | plugin pluginKind props =>
    rw [hcontent] at hfits hkind
    simp only [rowToWidget, parseManifest_serialize hd]
    rw [effectiveGrantState_eq rfl (by simp) (by simp)]
    simp [rederive, ← hdeclared, ← hsummary, hkind, BoardWidgetContent.kind, hfits,
      Option.map_map, Function.comp_def]
  | mcpApp descriptor interactive =>
    rw [hcontent] at hfits hkind
    simp only [rowToWidget, parseManifest_serialize hd]
    rw [effectiveGrantState_eq rfl (fun hg => if_pos hg) fun hne _ => .inr (by simp [hfits hne])]
    simp [rederive, ← hdeclared, ← hsummary, hkind, BoardWidgetContent.kind, id.isHex]

end Fields

section Put

variable {tables : BoardTables} {sessionKey : String} {prior next : BoardSnapshot Props}
  {result : BoardWidget Props}

/-- A name that is there after a put is the one put or was there before. -/
theorem PutSnapshot.mem_names (hput : PutSnapshot prior sessionKey result next) {name : String} :
    name ∈ next.names ↔ name = result.name ∨ name ∈ prior.names := by
  have hnames := hput.unplaced.map (·.name)
  rw [List.map_cons, List.map_map, List.map_map, BoardWidget.unplaced_name] at hnames
  refine hnames.mem_iff.trans ?_
  rw [List.mem_cons]
  refine or_congr_right' fun hne => ?_
  change name ∈ (prior.widgets.filter (·.name ≠ result.name)).map (·.name) ↔ _
  rw [map_name_filter_ne, List.mem_filter]
  exact and_iff_left (by simpa using hne)

/-- The widget rows that a put leaves to its session. -/
theorem get?_writeWidget (h : Holds host tables sessionKey prior)
    (hput : PutSnapshot prior sessionKey result next) {widget : BoardWidget Props}
    (hfind : next.widgets.find? (·.name = widget.name) = some widget) (params : BoardWidgetPutParams Props) (id name : String) :
    (tables.writeWidget next widget (createBoardWidgetContentFields host params
      widget.presentation widget.heightMode widget.revision widget.grantState id)).widgets.get?
        (sessionKey, name) =
      if name = widget.name then some (putRow host params id widget)
      else (next.widgets.find? (·.name = name)).bind fun other =>
        (tables.widgets.get? (sessionKey, name)).map (BoardTables.placeRow other) := by
  unfold BoardTables.writeWidget
  simp only
  rw [BoardTables.get?_updateWidgetLayouts _ hput.settled.names, if_pos hput.sessionKey.symm]
  simp only [JsMap.get?_set, Prod.mk.injEq, hput.sessionKey, true_and,
    BoardTables.widgets_upsertTabs]
  by_cases hw : name = widget.name
  · subst hw
    rw [hfind, if_pos rfl, if_pos rfl]
    rfl
  · rw [if_neg (Ne.symm hw), if_neg hw]
    cases hother : next.widgets.find? (·.name = name) with
    | some other => rfl
    | none =>
      have hgone := find?_eq_none_iff.mp hother
      rw [hput.mem_names, not_or] at hgone
      have hnone := h.widgets name
      rw [find?_eq_none_iff.mpr hgone.2] at hnone
      exact Option.map_eq_none_iff.mp hnone

theorem get?_tabs_writeWidget (h : Holds host tables sessionKey prior)
    (hput : PutSnapshot prior sessionKey result next) (widget : BoardWidget Props)
    (fields : ContentFields) (tabId : String) :
    (tables.writeWidget next widget fields).tabs.get? (sessionKey, tabId) =
      (next.tabs.find? (·.tabId = tabId)).map (BoardTables.tabRow next.revision) := by
  unfold BoardTables.writeWidget
  simp only
  rw [BoardTables.tabs_updateWidgetLayouts]
  simp only
  rw [BoardTables.get?_upsertTabs _ hput.settled.tabIds, if_pos hput.sessionKey.symm]
  cases hfind : next.tabs.find? (·.tabId = tabId) with
  | some tab => rfl
  | none =>
    rw [Option.map_none, Option.none_or, h.tabs, Option.map_eq_none_iff]
    have hgone := find?_tab_eq_none_iff.mp hfind
    refine find?_tab_eq_none_iff.mpr fun hm => hgone ?_
    unfold tabIds at hm ⊢
    rw [hput.tabs]
    unfold withMainTab
    split_ifs with hempty
    · rw [hempty] at hm
      cases hm
    · exact hm

/-- A row that only its place changed in reads as its widget, placed so. -/
theorem rowToWidget_placeRow {row : WidgetRow} (hok : RowOk host row)
    {widget widget' : BoardWidget Props} (hrow : rowToWidget host widget.name row = widget)
    (hw : widget'.unplaced = widget.unplaced) :
    rowToWidget host widget.name (BoardTables.placeRow widget' row) = widget' :=
  @rowToWidget_opsRow _ _ _ hok [] _ _ hrow hw

theorem find?_modifyWidget (layout : BoardLayout Props) (name other : String)
    {f : BoardWidget Props → BoardWidget Props} (hf : ∀ w, (f w).name = w.name) :
    (modifyWidget layout name f).widgets.find? (·.name = other) =
      (layout.widgets.find? (·.name = other)).map fun w => if w.name = name then f w else w := by
  unfold modifyWidget
  simp only
  rw [List.find?_map]
  refine congrArg _ (congrArg (List.find? · _) (funext fun w => ?_))
  simp only [Function.comp]
  split_ifs <;> simp [hf]

/-- The rows after a put hold what it returns, with the fields of its content derived anew. -/
theorem Holds.writeWidget (h : Holds host tables sessionKey prior)
    (hput : PutSnapshot prior sessionKey result next) {params : BoardWidgetPutParams Props}
    {id : HexId} {widget : BoardWidget Props}
    (hfind : next.widgets.find? (·.name = params.name) = some widget)
    (hok : RowOk host (putRow host params id.value widget))
    (hread : rowToWidget host widget.name (putRow host params id.value widget) =
      rederive host params.content id.value widget)
    (hname : result.name = params.name) :
    Holds host (tables.writeWidget next widget (createBoardWidgetContentFields host params
      widget.presentation widget.heightMode widget.revision widget.grantState id.value))
      sessionKey ⟨modifyWidget next.toBoardLayout params.name
        (rederive host params.content id.value), next.sessionKey, next.revision⟩ := by
  obtain ⟨hm, hwidget⟩ := (find?_eq_some_iff hput.settled.names).mp hfind
  have hget := fun name => @get?_writeWidget _ host _ _ _ _ _ h hput widget
    (by rw [hwidget]; exact hfind) params id.value name
  have hplace : ∀ w : BoardWidget Props,
      (rederive host params.content id.value w).place = w.place := by
    intro w
    unfold rederive
    split <;> rfl
  -- a widget with another name has its row, with its new place in it
  have hother {name : String} (hne : name ≠ params.name) {other : BoardWidget Props}
      (hfind : next.widgets.find? (·.name = name) = some other) :
      ∃ row, tables.widgets.get? (sessionKey, name) = some row ∧
        rowToWidget host name (BoardTables.placeRow other row) = other := by
    obtain ⟨hm, rfl⟩ := (find?_eq_some_iff (k := BoardWidget.name) hput.settled.names).mp hfind
    rcases hput.cases hm with he | ⟨w, hw, -, he⟩
    · exact absurd ((name_eq_of_unplaced he).trans hname) hne
    · obtain ⟨row, hrow, hwrow⟩ := h.exists_row hw
      rw [name_eq_of_unplaced he]
      exact ⟨row, hrow, rowToWidget_placeRow (h.rows _ row hrow) hwrow he⟩
  have htabs : next.tabs ≠ [] := by
    rw [hput.tabs]
    exact (withMainTab_settled h.settled).2.2
  refine ⟨hput.sessionKey, modifyWidget_settled hput.settled _ hplace, ?_,
    fun hempty => absurd hempty htabs, fun tabId => get?_tabs_writeWidget h hput _ _ tabId,
    fun name => ?_, fun name row hrow => ?_⟩
  · refine le_of_eq_of_le ?_ hput.width
    exact List.length_map ..
  · rw [find?_modifyWidget _ _ _ fun w => congrArg Prod.fst (hplace w), hget]
    by_cases hn : name = params.name
    · subst hn
      rw [if_pos hwidget.symm, hfind, Option.map_some, Option.map_some, if_pos hwidget, ← hread,
        hwidget]
    · rw [if_neg fun he => hn (he.trans hwidget)]
      cases hfindn : next.widgets.find? (·.name = name) with
      | none => rfl
      | some other =>
        obtain ⟨row, hrow, hr⟩ := hother hn hfindn
        have hne : other.name ≠ params.name := by
          rw [((find?_eq_some_iff (k := BoardWidget.name) hput.settled.names).mp hfindn).2]
          exact hn
        rw [Option.bind_some, hrow, Option.map_some, Option.map_some, Option.map_some, hr,
          if_neg hne]
  · rw [hget] at hrow
    split_ifs at hrow
    · obtain rfl := Option.some.inj hrow
      exact hok
    · obtain ⟨other, -, hrow⟩ := Option.bind_eq_some_iff.mp hrow
      obtain ⟨old, hold, rfl⟩ := Option.map_eq_some_iff.mp hrow
      have := h.rows name old hold
      exact ⟨this.manifest, this.html, this.mcpApp, this.plugin⟩

/-- A put leaves the rows of other sessions as they are. -/
theorem get?_writeWidget_ne (tables : BoardTables) (hn : next.toBoardLayout.Normal)
    (widget : BoardWidget Props) (fields : ContentFields) {key : String}
    (hne : key ≠ next.sessionKey) (id : String) :
    (tables.writeWidget next widget fields).tabs.get? (key, id) = tables.tabs.get? (key, id) ∧
      (tables.writeWidget next widget fields).widgets.get? (key, id) =
        tables.widgets.get? (key, id) := by
  unfold BoardTables.writeWidget
  simp only
  constructor
  · rw [BoardTables.tabs_updateWidgetLayouts]
    simp only
    rw [BoardTables.get?_upsertTabs _ hn.tabIds, if_neg hne]
  · rw [BoardTables.get?_updateWidgetLayouts _ hn.names, if_neg hne]
    simp only
    rw [JsMap.get?_set_ne _ _ (by simp [Ne.symm hne]), BoardTables.widgets_upsertTabs]

end Put

section Grant

variable {tables : BoardTables} {sessionKey name : String} {prior : BoardSnapshot Props}
  {row : WidgetRow}

/-- A widget with a decision to be made has something to grant. -/
theorem behind_of_pending {grantState : GrantState} {manifest : ParsedBoardManifest}
    (h : effectiveGrantState grantState manifest = .pending) :
    grantState ≠ .none ∧ manifest.declarationInvalid = false ∧
      (manifest.declared ≠ none ∨ manifest.mcpAppInteractive = some true) := by
  unfold effectiveGrantState at h
  split_ifs at h with hnothing
  all_goals
    simp only [not_or, not_and, Bool.not_eq_true, not_not] at hnothing
    refine ⟨?_, hnothing.1, ?_⟩
  · rename_i hgranted
    simp [hgranted.1]
  · exact or_iff_not_imp_left.mpr fun hd => hnothing.2 (not_not.mp hd)
  · simp [h]
  · exact or_iff_not_imp_left.mpr fun hd => hnothing.2 (not_not.mp hd)

open SqliteBoardStore (decideRow)

/-- The authority of an MCP App in the manifest of a decided row. -/
theorem decideRow_eq {declared : Option BoardWidgetDeclared}
    (hd : normalizeBoardWidgetDeclared host.parseUrl declared = .ok declared)
    (hn : row.manifest.netOrigins = declared.bind (·.netOrigins))
    (ht : row.manifest.tools = declared.bind (·.tools)) (decision : GrantDecision) :
    decideRow host decision row =
      { row with
        grantState := decision.state
        grantedSha := if decision = .granted then some row.sha256 else none
        manifest := serializeManifest declared decision.state
          (row.manifest.mcpAppInteractive.bind fun interactive =>
            (row.manifest.mcpAppInstanceId.filter fun id => isHexId id).map fun instanceId =>
              (interactive, instanceId))
          row.manifest.presentation row.manifest.heightMode } := by
  unfold decideRow
  rw [parseManifest_eq hd hn ht]

/-- A row decided on reads as its widget, decided on. -/
theorem decideRow_ok (hok : RowOk host row)
    (hpending : (rowToWidget host name row).grantState = .pending) (decision : GrantDecision) :
    RowOk host (decideRow host decision row) ∧
      rowToWidget host name (decideRow host decision row) =
        (rowToWidget host name row).decide decision := by
  obtain ⟨hstate, -, hbehind⟩ := behind_of_pending hpending
  obtain ⟨declared, hd, hn, ht⟩ := hok.manifest
  have hparse := parseManifest_eq hd hn ht
  rw [hparse] at hbehind
  rw [decideRow_eq hd hn ht]
  cases hkind : row.contentKind with
  | plugin => exact absurd (hok.plugin hkind) hstate
  | html =>
    obtain ⟨html, hhtml, hsha, hinteractive, -⟩ := hok.html hkind
    refine ⟨⟨⟨_, hd, rfl, rfl⟩, fun _ => ⟨html, hhtml, hsha, ?_, ?_⟩, ?_, ?_⟩, ?_⟩
    · simp [serializeManifest, hinteractive]
    · cases decision <;> simp [GrantDecision.state]
    · simp
    · simp
    · simp only [rowToWidget, hinteractive, Option.bind_none, hparse, parseManifest_serialize hd,
        BoardWidget.decide, hkind]
      rw [effectiveGrantState_eq rfl (fun hg => if_pos hg) fun _ _ =>
        .inl (by simpa [hinteractive] using hbehind)]
      rfl
  | mcpApp =>
    obtain ⟨descriptor, interactive, id, hdescriptor, hinteractive, hid, hhex, hgranted⟩ :=
      hok.mcpApp hkind
    have htrue := hgranted hstate
    refine ⟨⟨⟨_, hd, rfl, rfl⟩, ?_, fun _ => ⟨descriptor, interactive, id, hdescriptor, ?_, ?_,
      hhex, fun _ => htrue⟩, ?_⟩, ?_⟩
    · simp
    · simp [serializeManifest, hinteractive, hid, hhex]
    · simp [serializeManifest, hinteractive, hid, hhex]
    · simp
    · simp only [rowToWidget, hinteractive, hid, hhex, Option.bind_some, Option.filter_some,
        if_true, Option.map_some, hparse, parseManifest_serialize hd, BoardWidget.decide, hkind]
      rw [effectiveGrantState_eq rfl (fun hg => if_pos hg) fun _ _ => .inr (congrArg some htrue)]

/-- The rows of a session after a decision hold what it returns. -/
theorem Holds.grant (h : Holds host tables sessionKey prior)
    (hrow : tables.widgets.get? (sessionKey, name) = some row)
    (hpending : (rowToWidget host name row).grantState = .pending) (decision : GrantDecision)
    {next : BoardSnapshot Props}
    (hnext : next = ⟨modifyWidget prior.toBoardLayout name (·.decide decision), prior.sessionKey,
      prior.revision + 1⟩) :
    Holds host ((tables.upsertTabs next).updateWidget sessionKey name fun current =>
      { current with
        grantState := (decideRow host decision row).grantState
        grantedSha := (decideRow host decision row).grantedSha
        manifest := (decideRow host decision row).manifest }) sessionKey next := by
  have hok := h.rows name row hrow
  obtain ⟨hdecided, hread⟩ := decideRow_ok hok hpending decision
  -- the widget stands on a tab
  have htabs : prior.tabs ≠ [] := by
    intro hempty
    have hm := h.parse hrow
    rw [h.settled.widgets_eq_nil hempty] at hm
    cases hm
  have hget : ∀ other, (((tables.upsertTabs next).updateWidget sessionKey name fun current =>
      { current with
        grantState := (decideRow host decision row).grantState
        grantedSha := (decideRow host decision row).grantedSha
        manifest := (decideRow host decision row).manifest }).widgets.get? (sessionKey, other)) =
      if other = name then some (decideRow host decision row)
      else tables.widgets.get? (sessionKey, other) := by
    intro other
    rw [BoardTables.get?_updateWidget, BoardTables.widgets_upsertTabs]
    by_cases hother : other = name
    · subst hother
      rw [if_pos rfl, if_pos rfl, hrow]
      rfl
    · rw [if_neg (by simp [hother]), if_neg hother]
  have hsettled := modifyWidget_settled h.settled name (f := BoardWidget.decide decision) fun _ => rfl
  have hids : next.tabIds.Nodup := by
    rw [hnext]
    exact hsettled.tabIds
  have hkey : next.sessionKey = sessionKey := by
    rw [hnext]
    exact h.key
  refine ⟨hkey, by rw [hnext]; exact hsettled, ?_, fun hempty => absurd ?_ htabs,
    fun tabId => ?_, fun other => ?_, fun other r hr => ?_⟩
  · rw [hnext]
    exact le_of_eq_of_le (List.length_map ..) h.width
  · rwa [hnext] at hempty
  · rw [BoardTables.tabs_updateWidget, BoardTables.get?_upsertTabs _ hids, if_pos hkey.symm, h.tabs,
      hnext]
    change Option.or (Option.map _ (prior.tabs.find? _)) _ = Option.map _ (prior.tabs.find? _)
    cases prior.tabs.find? (·.tabId = tabId) <;> rfl
  · have hfind := find?_modifyWidget prior.toBoardLayout name other
      (f := BoardWidget.decide decision) fun _ => rfl
    rw [hget, hnext]
    refine Eq.trans ?_ hfind.symm
    rw [← h.widgets]
    by_cases hother : other = name
    · subst hother
      rw [if_pos rfl, hrow, Option.map_some, Option.map_some, Option.map_some, hread]
      exact congrArg some (if_pos rfl).symm
    · rw [if_neg hother]
      cases tables.widgets.get? (sessionKey, other) with
      | none => rfl
      | some r => exact congrArg some (if_neg hother).symm
  · rw [hget] at hr
    split_ifs at hr
    · obtain rfl := Option.some.inj hr
      exact hdecided
    · exact h.rows other r hr

end Grant

end Flashclaw.Board
