import Flashclaw.Board.Declared
import Flashclaw.Lib.JsMap

/-!
# Boards: the in-memory store

`boards/board-store.ts`.  Snapshots are values, so that `cloneBoardSnapshot`
is the identity.  Hashing, URL parsing and the JSON text of plugin props are
parameters, collected in `Host`.
-/

namespace Flashclaw.Board

structure BoardMcpAppDescriptor where
  serverName : String
  toolName : String
  uiResourceUri : String
  toolCallId : String
deriving DecidableEq

/-- `BoardWidgetMaterializedContent`. -/
inductive BoardWidgetContent (Props : Type) where
  | html (html : String)
  | mcpApp (descriptor : BoardMcpAppDescriptor) (interactive : Bool)
  | plugin (pluginKind : String) (props : Option Props)
deriving DecidableEq

variable {Props : Type}

def BoardWidgetContent.kind : BoardWidgetContent Props → ContentKind
  | .html _ => .html
  | .mcpApp _ _ => .mcpApp
  | .plugin _ _ => .plugin

structure Host (Props : Type) where
  parseUrl : String → Option Url
  /-- The hexadecimal SHA-256 of a text. -/
  sha256 : String → String
  /-- `JSON.stringify` of plugin props. -/
  stringify : Props → String

inductive BoardSize where
  | sm
  | md
  | lg
  | xl
  | full
deriving DecidableEq

/-- `BOARD_SIZE_PRESETS`, as `sizeW` and `sizeH`. -/
def boardSizePresets : BoardSize → ℤ × ℤ
  | .sm => (3, 3)
  | .md => (6, 4)
  | .lg => (8, 6)
  | .xl => (12, 8)
  | .full => (12, 8)

/-- The `placement` of a put. -/
structure PutPlacement where
  tabId : Option String
  size : Option BoardSize
  after : Option String
deriving DecidableEq

/-- `BoardWidgetMaterializedPutParams`. -/
structure BoardWidgetPutParams (Props : Type) where
  sessionKey : String
  name : String
  title : Option String
  content : BoardWidgetContent Props
  presentation : Option Presentation
  heightMode : Option HeightMode
  placement : PutPlacement
  declared : Option BoardWidgetDeclared
deriving DecidableEq

structure BoardSnapshot (Props : Type) extends BoardLayout Props where
  sessionKey : String
  revision : ℕ
deriving DecidableEq

structure BoardWidgetHtmlDocument where
  html : String
  revision : ℕ
  sha256 : String
  viewGeneration : String
  grantState : GrantState
  declared : Option BoardWidgetDeclared
deriving DecidableEq

structure BoardWidgetMcpAppDocument where
  descriptor : BoardMcpAppDescriptor
  revision : ℕ
  instanceId : String
  grantState : GrantState
  declaredTools : List String
  interactive : Bool
deriving DecidableEq

inductive BoardWidgetDocument where
  | html (document : BoardWidgetHtmlDocument)
  | mcpApp (document : BoardWidgetMcpAppDocument)
deriving DecidableEq

inductive GrantDecision where
  | granted
  | rejected
deriving DecidableEq

def GrantDecision.state : GrantDecision → GrantState
  | .granted => .granted
  | .rejected => .rejected

def boardMaxWidgets : ℕ := 48

def boardMaxWidgetHtmlBytes : ℕ := 256 * 1024

def boardMaxWidgetPluginPropsBytes : ℕ := 8 * 1024

def emptyBoardSnapshot (sessionKey : String) : BoardSnapshot Props := ⟨⟨[], []⟩, sessionKey, 0⟩

def createBoardWidgetDocument (host : Host Props) (content : BoardWidgetContent Props)
    (revision : ℕ) (grantState : GrantState) (declared : Option BoardWidgetDeclared)
    (instanceId : String) : Option BoardWidgetDocument :=
  match content with
  | .html html => some <| .html ⟨html, revision, host.sha256 html, instanceId, grantState, declared⟩
  | .plugin _ _ => none
  | .mcpApp descriptor interactive =>
    some <| .mcpApp ⟨descriptor, revision, instanceId, grantState, tools declared, interactive⟩

def createBoardDeclaredSummary (declared : Option BoardWidgetDeclared) : Option (List String) :=
  match (origins declared).map ("Network access: " ++ ·) ++
      (tools declared).map ("Tool access: " ++ ·) with
  | [] => none
  | lines => some lines

def grantScopeMatches (previous : Option BoardWidgetDocument)
    (content : BoardWidgetContent Props) : Bool :=
  match previous, content with
  | none, _ => true
  | some (.html _), .html _ => true
  | some (.mcpApp document), .mcpApp descriptor _ =>
    document.descriptor.serverName = descriptor.serverName
  | some _, _ => false

/-- The checks of `validatePluginContent` and the one on the size of HTML. -/
def validateContent (host : Host Props) (params : BoardWidgetPutParams Props) :
    Except BoardValidationError Unit :=
  match params.content with
  | .plugin _ props =>
    if params.declared ≠ none then
      .error ⟨.invalidOperation,
        "trusted plugin widgets do not accept sandbox capability declarations"⟩
    else if ((props.map host.stringify).getD "\x7b\x7d").utf8ByteSize >
        boardMaxWidgetPluginPropsBytes then
      .error ⟨.invalidOperation, "board plugin widget props exceed 8192 UTF-8 bytes"⟩
    else .ok ()
  | .html html =>
    if html.utf8ByteSize > boardMaxWidgetHtmlBytes then
      .error ⟨.invalidOperation, "board widget HTML exceeds 262144 UTF-8 bytes"⟩
    else .ok ()
  | .mcpApp _ _ => .ok ()

/-- What a put knows of the widget it replaces. -/
structure PutContext where
  grantScopeMatches : Bool
  grantedSha256 : Option String
  instanceId : String

def preservesGrant (host : Host Props) (content : BoardWidgetContent Props)
    (declared : Option BoardWidgetDeclared) (existing : Option (BoardWidget Props))
    (context : PutContext) : Bool :=
  declared.isSome && context.grantScopeMatches &&
    (match content with
      | .mcpApp _ interactive => interactive
      | _ => true) &&
    existing.map (·.grantState) = some .granted &&
    (match content with
      | .html html => context.grantedSha256 = some (host.sha256 html)
      | _ => true) &&
    boardDeclarationIsSubset declared (existing.bind (·.declared))

def putGrantState (content : BoardWidgetContent Props) (declared : Option BoardWidgetDeclared)
    (preserves : Bool) : GrantState :=
  match content with
  | .plugin _ _ => .none
  | .html _ =>
    if preserves then .granted
    else if (createBoardDeclaredSummary declared).isSome then .pending
    else .none
  | .mcpApp _ interactive => if preserves then .granted else if interactive then .pending else .none

/-- The widget a put inserts. -/
def putWidgetValue (host : Host Props) (params : BoardWidgetPutParams Props) (tabId : String)
    (existing : Option (BoardWidget Props)) (position : ℕ)
    (declared : Option BoardWidgetDeclared) (context : PutContext) : BoardWidget Props :=
  let size := boardSizePresets (params.placement.size.getD .md)
  { name := params.name
    tabId
    title := params.title.or (existing.bind (·.title))
    contentKind := params.content.kind
    presentation := params.presentation.or (existing.bind (·.presentation))
    heightMode := params.heightMode.or (existing.bind (·.heightMode))
    pluginKind := match params.content with
      | .plugin pluginKind _ => some pluginKind
      | _ => none
    props := match params.content with
      | .plugin _ props => props
      | _ => none
    sizeW := if params.placement.size.isSome then size.1
      else (existing.map (·.sizeW)).getD size.1
    sizeH := if params.placement.size.isSome then size.2
      else (existing.map (·.sizeH)).getD size.2
    position := (existing.map (·.position)).getD position
    grantState := putGrantState params.content declared
      (preservesGrant host params.content declared existing context)
    revision := (existing.map (·.revision)).getD 0 + 1
    instanceId := match params.content with
      | .plugin _ _ => none
      | _ => some context.instanceId
    declaredSummary := createBoardDeclaredSummary declared
    declared }

/-- A layout without tabs gets the tab `main`. -/
def withMainTab (layout : BoardLayout Props) : BoardLayout Props :=
  if layout.tabs = [] then { layout with tabs := [⟨"main", "Main", 0, .right⟩] } else layout

/-- The declaration a put keeps: plugin widgets have none. -/
def putDeclared (host : Host Props) (params : BoardWidgetPutParams Props) :
    Except BoardValidationError (Option BoardWidgetDeclared) :=
  match params.content with
  | .plugin _ _ => .ok none
  | _ => normalizeBoardWidgetDeclared host.parseUrl params.declared

def BoardWidget.clearDeclared (widget : BoardWidget Props) : BoardWidget Props :=
  { widget with declaredSummary := none, declared := none }

/-- A put without a declaration leaves none of the replaced widget's. -/
def dropDeclared (layout : BoardLayout Props) (name : String)
    (declared : Option BoardWidgetDeclared) : BoardLayout Props :=
  if (createBoardDeclaredSummary declared).isSome then layout
  else modifyWidget layout name (·.clearDeclared)

/-- The tab a put asks for, else the widget's, else the first. -/
def putTabId (params : BoardWidgetPutParams Props) (layout : BoardLayout Props)
    (existing : Option (BoardWidget Props)) : String :=
  (params.placement.tabId.or (existing.map (·.tabId))).getD
    ((layout.tabs.head?.map (·.tabId)).getD "")

def createBoardWidgetPutSnapshot (host : Host Props) (prior : BoardSnapshot Props)
    (params : BoardWidgetPutParams Props) (context : PutContext) :
    Except BoardValidationError (BoardSnapshot Props) := do
  let _ ← validateContent host params
  let layout := withMainTab (normalizeBoardLayout prior.toBoardLayout)
  let existing := layout.widgets.find? (·.name = params.name)
  if existing = none ∧ layout.widgets.length ≥ boardMaxWidgets then
    .error ⟨.invalidOperation, "board cannot contain more than 48 widgets"⟩
  else
    let tabId := putTabId params layout existing
    if ¬ layout.tabs.any (·.tabId = tabId) then
      .error ⟨.notFound, "board tab not found: " ++ tabId⟩
    else
      let declared ← putDeclared host params
      let widget :=
        putWidgetValue host params tabId existing layout.widgets.length declared context
      let next ← insertBoardWidget layout widget
        { tabId
          after := params.placement.after.filter (· ≠ "")
          move := params.placement.tabId.isSome || params.placement.after.isSome }
      return ⟨dropDeclared next params.name declared, params.sessionKey, prior.revision + 1⟩

/-- A decision recorded on a widget. -/
def BoardWidget.decide (decision : GrantDecision) (widget : BoardWidget Props) :
    BoardWidget Props :=
  { widget with grantState := decision.state }

def createBoardGrantSnapshot (current : BoardSnapshot Props) (name : String)
    (decision : GrantDecision) (revision : ℕ) (instanceId : Option String) :
    Except BoardValidationError (BoardSnapshot Props) :=
  match current.widgets.find? (·.name = name) with
  | none => .error ⟨.notFound, "board widget not found: " ++ name⟩
  | some widget =>
    if widget.revision ≠ revision then
      .error ⟨.conflict, "board widget revision changed: " ++ name ++ " is revision " ++
        toString widget.revision ++ ", not " ++ toString revision⟩
    else if widget.instanceId ≠ none ∧ widget.instanceId ≠ instanceId then
      .error ⟨.conflict, "board widget instance changed: " ++ name⟩
    else if widget.grantState ≠ .pending then
      .error ⟨.invalidOperation, "board widget grant is not pending: " ++ name⟩
    else
      .ok ⟨modifyWidget current.toBoardLayout name (·.decide decision), current.sessionKey,
        current.revision + 1⟩

/-- The form of `randomBytes(16).toString("hex")`: `/^[a-f0-9]{32}$/u`. -/
def isHexId (value : String) : Bool :=
  value.toList.length = 32 &&
    value.toList.all fun c => ('a' ≤ c && c ≤ 'f') || ('0' ≤ c && c ≤ '9')

/-- A drawn instance id. -/
structure HexId where
  value : String
  isHex : isHexId value = true
deriving DecidableEq

/-- The calls of a `BoardStore` that read or write snapshots; a put draws an instance id. -/
inductive BoardCall (Props : Type) where
  | getSnapshot (sessionKey : String)
  | applyOps (sessionKey : String) (ops : List BoardOp)
  | putWidget (params : BoardWidgetPutParams Props) (instanceId : HexId)
  | grant (sessionKey name : String) (decision : GrantDecision) (revision : ℕ)
      (instanceId : Option String)

def BoardCall.sessionKey : BoardCall Props → String
  | .getSnapshot sessionKey => sessionKey
  | .applyOps sessionKey _ => sessionKey
  | .putWidget params _ => params.sessionKey
  | .grant sessionKey _ _ _ _ => sessionKey

/-- What a call returns or throws. -/
abbrev Answer (Props : Type) := Except BoardValidationError (BoardSnapshot Props)

structure StoredBoard (Props : Type) where
  snapshot : BoardSnapshot Props
  documents : JsMap String BoardWidgetDocument

/-- The `boards` of an `InMemoryBoardStore`. -/
abbrev InMemoryBoardStore (Props : Type) := JsMap String (StoredBoard Props)

def BoardWidgetDocument.withGrantState (document : BoardWidgetDocument) (grantState : GrantState) :
    BoardWidgetDocument :=
  match document with
  | .html document => .html { document with grantState }
  | .mcpApp document => .mcpApp { document with grantState }

namespace InMemoryBoardStore

variable (boards : InMemoryBoardStore Props)

def getSnapshot (sessionKey : String) : BoardSnapshot Props :=
  ((boards.get? sessionKey).map (·.snapshot)).getD (emptyBoardSnapshot sessionKey)

def documents (sessionKey : String) : JsMap String BoardWidgetDocument :=
  ((boards.get? sessionKey).map (·.documents)).getD .empty

def applyOps (sessionKey : String) (ops : List BoardOp) :
    Except BoardValidationError (BoardSnapshot Props × InMemoryBoardStore Props) :=
  let snapshot := boards.getSnapshot sessionKey
  if ops = [] then .ok (snapshot, boards)
  else do
    let layout ← (applyBoardOps snapshot.toBoardLayout ops).1
    let next : BoardSnapshot Props := ⟨layout, sessionKey, snapshot.revision + 1⟩
    let documents := (boards.documents sessionKey).filterKeys
      fun name => name ∈ next.widgets.map (·.name)
    return (next,
      if next.tabs.length = 0 ∧ next.widgets.length = 0 then boards.delete sessionKey
      else boards.set sessionKey ⟨next, documents⟩)

/-- The hash of the HTML an operator granted, if the document is such. -/
def grantedSha256 : Option BoardWidgetDocument → Option String
  | some (.html document) =>
    if document.grantState = .granted then some document.sha256 else none
  | _ => none

def setDocument (documents : JsMap String BoardWidgetDocument) (name : String) :
    Option BoardWidgetDocument → JsMap String BoardWidgetDocument
  | some document => documents.set name document
  | none => documents.delete name

def putWidget (host : Host Props) (params : BoardWidgetPutParams Props) (instanceId : HexId) :
    Except BoardValidationError (BoardSnapshot Props × InMemoryBoardStore Props) := do
  let declared ← normalizeBoardWidgetDeclared host.parseUrl params.declared
  let canonicalParams := { params with declared }
  let prior := boards.getSnapshot params.sessionKey
  let existingDocument := (boards.documents params.sessionKey).get? params.name
  let snapshot ← createBoardWidgetPutSnapshot host prior canonicalParams
    { grantScopeMatches := Board.grantScopeMatches existingDocument params.content
      grantedSha256 := grantedSha256 existingDocument
      instanceId := instanceId.value }
  let widget := snapshot.widgets.find? (·.name = params.name)
  let document := createBoardWidgetDocument host params.content
    ((widget.map (·.revision)).getD 0) ((widget.map (·.grantState)).getD .none) declared
    instanceId.value
  let documents := setDocument (boards.documents params.sessionKey) params.name document
  return (snapshot, boards.set params.sessionKey ⟨snapshot, documents⟩)

def grant (sessionKey name : String) (decision : GrantDecision) (revision : ℕ)
    (instanceId : Option String) :
    Except BoardValidationError (BoardSnapshot Props × InMemoryBoardStore Props) :=
  match boards.get? sessionKey with
  | none => .error ⟨.notFound, "board widget not found: " ++ name⟩
  | some current => do
    let snapshot ← createBoardGrantSnapshot current.snapshot name decision revision instanceId
    let documents := match current.documents.get? name with
      | none => current.documents
      | some document => current.documents.set name (document.withGrantState decision.state)
    return (snapshot, boards.set sessionKey ⟨snapshot, documents⟩)

/-- The store after a call, and its answer: a call that throws leaves the store as it is. -/
def call (host : Host Props) : BoardCall Props → Answer Props × InMemoryBoardStore Props
  | .getSnapshot sessionKey => (.ok (boards.getSnapshot sessionKey), boards)
  | .applyOps sessionKey ops => settle (boards.applyOps sessionKey ops)
  | .putWidget params instanceId => settle (boards.putWidget host params instanceId)
  | .grant sessionKey name decision revision instanceId =>
    settle (boards.grant sessionKey name decision revision instanceId)
where
  settle : Except BoardValidationError (BoardSnapshot Props × InMemoryBoardStore Props) →
      Answer Props × InMemoryBoardStore Props
    | .error e => (.error e, boards)
    | .ok (snapshot, next) => (.ok snapshot, next)

end InMemoryBoardStore

end Flashclaw.Board
