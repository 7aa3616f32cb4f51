import Flashclaw.Board.Store

/-!
# Boards: the SQLite store

`boards/sqlite-board-store.ts` and `boards/sqlite-board-codec.ts`.  A table is
a map from its primary key, session key and tab id or name, to the columns
left; who wrote a row and when is left out.  The JSON of a manifest is the
record of its keys, that of plugin props a text.
-/

namespace Flashclaw.Board

variable {Props : Type}

/-- The JSON functions and the digest that the SQLite store needs besides. -/
structure SqliteHost (Props : Type) extends Host Props where
  /-- `JSON.parse` of the text of plugin props. -/
  parse : String → Props
  /-- The SHA-256 of the JSON of a descriptor. -/
  descriptorSha256 : BoardMcpAppDescriptor → String
  /-- The SHA-256 of the JSON of plugin content. -/
  pluginSha256 : String → Option String → String

/-- The keys of the JSON object in the `manifest` column. -/
structure Manifest where
  netOrigins : Option (List String)
  tools : Option (List String)
  presentation : Option Presentation
  heightMode : Option HeightMode
  grantSemanticsVersion : Option ℕ
  mcpAppInteractive : Option Bool
  mcpAppInstanceId : Option String
deriving DecidableEq

structure ParsedBoardManifest where
  declared : Option BoardWidgetDeclared
  declarationInvalid : Bool
  grantSemanticsVersion : Option ℕ
  presentation : Option Presentation
  heightMode : Option HeightMode
  mcpAppInteractive : Option Bool
  mcpAppInstanceId : Option String
deriving DecidableEq

/-- The JSON in the `descriptor_json` column; plugin props as text. -/
inductive StoredDescriptor where
  | mcpApp (descriptor : BoardMcpAppDescriptor)
  | plugin (pluginKind : String) (props : Option String)
deriving DecidableEq

structure TabRow where
  title : String
  position : ℕ
  chatDock : ChatDock
  revision : ℕ
deriving DecidableEq

/-- The columns `createBoardWidgetContentFields` computes. -/
structure ContentFields where
  contentKind : ContentKind
  html : Option String
  descriptorJson : Option StoredDescriptor
  sha256 : String
  viewGeneration : Option String
  revision : ℕ
  manifest : Manifest
  grantState : GrantState
  grantedSha : Option String
deriving DecidableEq

structure WidgetRow extends ContentFields where
  tabId : String
  title : Option String
  sizeW : ℤ
  sizeH : ℤ
  position : ℕ
deriving DecidableEq

/-- The tables `board_tabs` and `board_widgets`. -/
structure BoardTables where
  tabs : JsMap (String × String) TabRow
  widgets : JsMap (String × String) WidgetRow

section Codec

variable (host : SqliteHost Props)

def boardGrantSemanticsVersion : ℕ := 2

/-- A list key that is absent or empty is not declared. -/
def declaredList : Option (List String) → Option (List String)
  | some [] => none
  | list => list

def parseManifest (manifest : Manifest) : ParsedBoardManifest :=
  match normalizeBoardWidgetDeclared host.parseUrl
      (some ⟨declaredList manifest.netOrigins, declaredList manifest.tools⟩) with
  | .ok declared =>
    { declared
      declarationInvalid := false
      grantSemanticsVersion := manifest.grantSemanticsVersion.filter (· = boardGrantSemanticsVersion)
      presentation := manifest.presentation
      heightMode := manifest.heightMode
      mcpAppInteractive := manifest.mcpAppInteractive
      mcpAppInstanceId := manifest.mcpAppInstanceId.filter fun id => isHexId id }
  | .error _ => ⟨none, true, none, none, none, none, none⟩

def serializeManifest (declared : Option BoardWidgetDeclared) (grantState : GrantState)
    (mcpAppAuthority : Option (Bool × String)) (presentation : Option Presentation)
    (heightMode : Option HeightMode) : Manifest where
  netOrigins := declared.bind (·.netOrigins)
  tools := declared.bind (·.tools)
  presentation := presentation
  heightMode := heightMode
  grantSemanticsVersion := if grantState = .granted then some boardGrantSemanticsVersion else none
  mcpAppInteractive := mcpAppAuthority.map (·.1)
  mcpAppInstanceId := mcpAppAuthority.map (·.2)

def createBoardWidgetContentFields (params : BoardWidgetPutParams Props)
    (presentation : Option Presentation) (heightMode : Option HeightMode) (revision : ℕ)
    (grantState : GrantState) (viewGeneration : String) : ContentFields :=
  match params.content with
  | .html html =>
    { contentKind := .html
      html := some html
      descriptorJson := none
      sha256 := host.sha256 html
      viewGeneration := some viewGeneration
      revision
      manifest := serializeManifest params.declared grantState none presentation heightMode
      grantState
      grantedSha := if grantState = .granted then some (host.sha256 html) else none }
  | .plugin pluginKind props =>
    { contentKind := .plugin
      html := none
      descriptorJson := some (.plugin pluginKind (props.map host.stringify))
      sha256 := host.pluginSha256 pluginKind (props.map host.stringify)
      viewGeneration := none
      revision
      manifest := serializeManifest params.declared grantState none presentation heightMode
      grantState := .none
      grantedSha := none }
  | .mcpApp descriptor interactive =>
    { contentKind := .mcpApp
      html := none
      descriptorJson := some (.mcpApp descriptor)
      sha256 := host.descriptorSha256 descriptor
      viewGeneration := none
      revision
      manifest := serializeManifest params.declared grantState (some (interactive, viewGeneration))
        presentation heightMode
      grantState
      grantedSha := if grantState = .granted then some (host.descriptorSha256 descriptor) else none }

def updateManifestHeightMode (manifest : Manifest) (heightMode : HeightMode) : Manifest :=
  { manifest with heightMode := some heightMode }

def effectiveGrantState (grantState : GrantState) (manifest : ParsedBoardManifest) : GrantState :=
  if manifest.declarationInvalid ∨
      manifest.declared = none ∧ manifest.mcpAppInteractive ≠ some true then
    if grantState = .rejected then .rejected else .none
  else if grantState = .granted ∧
      manifest.grantSemanticsVersion ≠ some boardGrantSemanticsVersion then .pending
  else grantState

def rowToTab (tabId : String) (row : TabRow) : BoardTab :=
  ⟨tabId, row.title, row.position, row.chatDock⟩

def rowToWidget (name : String) (row : WidgetRow) : BoardWidget Props :=
  let manifest := parseManifest host row.manifest
  let pluginContent := match row.contentKind, row.descriptorJson with
    | .plugin, some (.plugin pluginKind props) => some (pluginKind, props.map host.parse)
    | _, _ => none
  { name
    tabId := row.tabId
    title := row.title
    contentKind := row.contentKind
    presentation := manifest.presentation
    heightMode := manifest.heightMode
    pluginKind := pluginContent.map (·.1)
    props := pluginContent.bind (·.2)
    sizeW := row.sizeW
    sizeH := row.sizeH
    position := row.position
    grantState := effectiveGrantState row.grantState manifest
    revision := row.revision
    instanceId :=
      if row.contentKind = .mcpApp then manifest.mcpAppInstanceId else row.viewGeneration
    declaredSummary := createBoardDeclaredSummary manifest.declared
    declared := manifest.declared }

end Codec

namespace BoardTables

/-- The rows of a session, under what is left of the primary key. -/
def rowsOf {ν : Type} (table : JsMap (String × String) ν) (sessionKey : String) :
    List (String × ν) :=
  (table.entries.filter fun entry => entry.1.1 = sessionKey).map fun entry =>
    (entry.1.2, entry.2)

/-- `ORDER BY position, tab_id`. -/
def tabRowLe (a b : String × TabRow) : Prop :=
  a.2.position < b.2.position ∨ a.2.position = b.2.position ∧ a.1 ≤ b.1

/-- `ORDER BY tab_id, position, name`. -/
def widgetRowLe (a b : String × WidgetRow) : Prop :=
  a.2.tabId < b.2.tabId ∨ a.2.tabId = b.2.tabId ∧
    (a.2.position < b.2.position ∨ a.2.position = b.2.position ∧ a.1 ≤ b.1)

instance : DecidableRel tabRowLe := fun _ _ => inferInstanceAs (Decidable (_ ∨ _))

instance : DecidableRel widgetRowLe := fun _ _ => inferInstanceAs (Decidable (_ ∨ _))

variable (host : SqliteHost Props) (tables : BoardTables)

def tabRows (sessionKey : String) : List (String × TabRow) :=
  (rowsOf tables.tabs sessionKey).insertionSort tabRowLe

/-- The rows but those of MCP Apps without an authority snapshot. -/
def widgetRows (sessionKey : String) : List (String × WidgetRow) :=
  ((rowsOf tables.widgets sessionKey).insertionSort widgetRowLe).filter fun row =>
    row.2.contentKind ≠ .mcpApp ∨
      (parseManifest host row.2.manifest).mcpAppInteractive ≠ none ∧
        (parseManifest host row.2.manifest).mcpAppInstanceId ≠ none

/-- The snapshot of `readStoredBoard`. -/
def readStoredBoard (sessionKey : String) : BoardSnapshot Props where
  toBoardLayout := normalizeBoardLayout
    { tabs := (tables.tabRows sessionKey).map fun row => rowToTab row.1 row.2
      widgets := (tables.widgetRows host sessionKey).map fun row => rowToWidget host row.1 row.2 }
  sessionKey := sessionKey
  revision := (tables.tabRows sessionKey).foldl (fun revision row => max revision row.2.revision) 0

/-- `INSERT … ON CONFLICT … DO UPDATE` for each tab. -/
def upsertTabs (next : BoardSnapshot Props) : BoardTables :=
  next.tabs.foldl (fun tables tab =>
    let row : TabRow := ⟨tab.title, tab.position, tab.chatDock, next.revision⟩
    { tables with tabs := tables.tabs.set (next.sessionKey, tab.tabId) row }) tables

/-- `UPDATE board_widgets … WHERE session_key = … AND name = …`. -/
def updateWidget (sessionKey name : String) (f : WidgetRow → WidgetRow) : BoardTables :=
  match tables.widgets.get? (sessionKey, name) with
  | none => tables
  | some row => { tables with widgets := tables.widgets.set (sessionKey, name) (f row) }

/-- The layout columns of a row, from a widget. -/
def placeRow (widget : BoardWidget Props) (row : WidgetRow) : WidgetRow :=
  { row with
    tabId := widget.tabId, title := widget.title, sizeW := widget.sizeW, sizeH := widget.sizeH,
    position := widget.position }

def updateWidgetLayouts (snapshot : BoardSnapshot Props) : BoardTables :=
  snapshot.widgets.foldl (fun tables widget =>
    tables.updateWidget snapshot.sessionKey widget.name (placeRow widget)) tables

/-- The body of the loop of `updateWidgetHeightModes`. -/
def updateWidgetHeightMode (sessionKey : String) (previous : List (String × WidgetRow))
    (op : BoardOp) : BoardTables :=
  match op with
  | .widgetResize name _ _ heightMode =>
    match previous.find? fun row => row.1 = name with
    | none => tables
    | some row => tables.updateWidget sessionKey name fun current =>
        { current with
          manifest := updateManifestHeightMode row.2.manifest (heightMode.getD .fixed) }
  | _ => tables

def updateWidgetHeightModes (sessionKey : String) (previous : List (String × WidgetRow))
    (ops : List BoardOp) : BoardTables :=
  ops.foldl (fun tables op => tables.updateWidgetHeightMode sessionKey previous op) tables

def deleteRemovedWidgets (previous : List (String × WidgetRow)) (next : BoardSnapshot Props) :
    BoardTables :=
  previous.foldl (fun tables row =>
    if row.1 ∈ next.widgets.map (·.name) then tables
    else { tables with widgets := tables.widgets.delete (next.sessionKey, row.1) }) tables

/-- `DELETE FROM board_tabs`, which cascades to the widgets on the tab. -/
def deleteTab (sessionKey tabId : String) : BoardTables where
  tabs := tables.tabs.delete (sessionKey, tabId)
  widgets := tables.widgets.filterEntries fun key row => ¬ (key.1 = sessionKey ∧ row.tabId = tabId)

def deleteRemovedTabs (previous : List (String × TabRow)) (next : BoardSnapshot Props) :
    BoardTables :=
  previous.foldl (fun tables row =>
    if row.1 ∈ next.tabs.map (·.tabId) then tables
    else tables.deleteTab next.sessionKey row.1) tables

/-- What `applyOps` writes, with the rows as they were. -/
def writeOps (next : BoardSnapshot Props) (ops : List BoardOp) : BoardTables :=
  let widgetRows := tables.widgetRows host next.sessionKey
  let written := tables.upsertTabs next
  let written := written.deleteRemovedWidgets widgetRows next
  let written := written.updateWidgetLayouts next
  let written := written.updateWidgetHeightModes next.sessionKey widgetRows ops
  written.deleteRemovedTabs (tables.tabRows next.sessionKey) next

/-- What `putWidget` writes: its row, inserted or updated, then the place of every widget. -/
def writeWidget (next : BoardSnapshot Props) (widget : BoardWidget Props)
    (fields : ContentFields) : BoardTables :=
  let row : WidgetRow :=
    { toContentFields := fields
      tabId := widget.tabId, title := widget.title, sizeW := widget.sizeW, sizeH := widget.sizeH
      position := widget.position }
  let written := tables.upsertTabs next
  let written : BoardTables :=
    { written with widgets := written.widgets.set (next.sessionKey, widget.name) row }
  written.updateWidgetLayouts next

end BoardTables

/-- The database, with the sessions that have an entry in `session_entries`. -/
structure SqliteBoardStore where
  sessions : List String
  tables : BoardTables

namespace SqliteBoardStore

variable (host : SqliteHost Props) (store : SqliteBoardStore)

def getSnapshot (sessionKey : String) : BoardSnapshot Props :=
  if sessionKey ∈ store.sessions then store.tables.readStoredBoard host sessionKey
  else emptyBoardSnapshot sessionKey

def requireSession (sessionKey : String) : Except BoardValidationError Unit :=
  if sessionKey ∈ store.sessions then .ok ()
  else .error ⟨.notFound, "board session not found: " ++ sessionKey⟩

def applyOps (sessionKey : String) (ops : List BoardOp) :
    Except BoardValidationError (BoardSnapshot Props × SqliteBoardStore) :=
  if ops = [] then .ok (store.getSnapshot host sessionKey, store)
  else do
    let _ ← store.requireSession sessionKey
    let previous := store.tables.readStoredBoard host sessionKey
    let layout ← (applyBoardOps previous.toBoardLayout ops).1
    let next : BoardSnapshot Props := ⟨layout, sessionKey, previous.revision + 1⟩
    return (next, { store with tables := store.tables.writeOps host next ops })

def grantScopeMatches (existing : Option WidgetRow) (content : BoardWidgetContent Props) : Bool :=
  match existing with
  | none => true
  | some row =>
    match row.contentKind, row.descriptorJson, content with
    | .html, _, .html _ => true
    | .mcpApp, some (.mcpApp stored), .mcpApp descriptor _ =>
      stored.serverName = descriptor.serverName
    | .plugin, some (.plugin stored _), .plugin pluginKind _ => stored = pluginKind
    | _, _, _ => false

def putWidget (params : BoardWidgetPutParams Props) (viewGeneration : HexId) :
    Except BoardValidationError (BoardSnapshot Props × SqliteBoardStore) := do
  let _ ← store.requireSession params.sessionKey
  let declared ← normalizeBoardWidgetDeclared host.parseUrl params.declared
  let canonicalParams := { params with declared }
  let previous := store.tables.readStoredBoard host params.sessionKey
  let existing := ((store.tables.widgetRows host params.sessionKey).find? fun row =>
    row.1 = params.name).map (·.2)
  let next ← createBoardWidgetPutSnapshot host.toHost previous canonicalParams
    { grantScopeMatches := grantScopeMatches existing params.content
      grantedSha256 := existing.bind (·.grantedSha)
      instanceId := viewGeneration.value }
  match next.widgets.find? (·.name = params.name) with
  | none => return (next, store)
  | some widget =>
    let fields := createBoardWidgetContentFields host canonicalParams widget.presentation
      widget.heightMode widget.revision widget.grantState viewGeneration.value
    return (next, { store with tables := store.tables.writeWidget next widget fields })

/-- The row of a widget that an operator decided on. -/
def decideRow (decision : GrantDecision) (row : WidgetRow) : WidgetRow :=
  let manifest := parseManifest host row.manifest
  { row with
    grantState := decision.state
    grantedSha := if decision = .granted then some row.sha256 else none
    manifest := serializeManifest manifest.declared decision.state
      (manifest.mcpAppInteractive.bind fun interactive =>
        manifest.mcpAppInstanceId.map fun instanceId => (interactive, instanceId))
      manifest.presentation manifest.heightMode }

def grant (sessionKey name : String) (decision : GrantDecision) (revision : ℕ)
    (instanceId : Option String) :
    Except BoardValidationError (BoardSnapshot Props × SqliteBoardStore) := do
  let _ ← store.requireSession sessionKey
  let previous := store.tables.readStoredBoard host sessionKey
  let next ← createBoardGrantSnapshot previous name decision revision instanceId
  let tables := store.tables.upsertTabs next
  return (next,
    match (store.tables.widgetRows host sessionKey).find? fun row => row.1 = name with
    | none => { store with tables }
    | some row => { store with
        tables := tables.updateWidget sessionKey name fun current =>
          { current with
            grantState := (decideRow host decision row.2).grantState
            grantedSha := (decideRow host decision row.2).grantedSha
            manifest := (decideRow host decision row.2).manifest } })

/-- The store after a call, and its answer: a call that throws is rolled back. -/
def call : BoardCall Props → Answer Props × SqliteBoardStore
  | .getSnapshot sessionKey => (.ok (store.getSnapshot host sessionKey), store)
  | .applyOps sessionKey ops => settle (store.applyOps host sessionKey ops)
  | .putWidget params instanceId => settle (store.putWidget host params instanceId)
  | .grant sessionKey name decision revision instanceId =>
    settle (store.grant host sessionKey name decision revision instanceId)
where
  settle : Except BoardValidationError (BoardSnapshot Props × SqliteBoardStore) →
      Answer Props × SqliteBoardStore
    | .error e => (.error e, store)
    | .ok (snapshot, next) => (.ok snapshot, next)

end SqliteBoardStore

end Flashclaw.Board
