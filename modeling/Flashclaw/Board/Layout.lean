import Flashclaw.Lib.JsMap
import Flashclaw.Lib.Lists
import Mathlib.Data.Rat.Floor
import Mathlib.Algebra.Order.Ring.Rat

/-!
# Boards: the layout

`boards/board-layout.ts` on values.  A tab or widget object is told from the
others by its `tabId` or `name`, which no layout repeats.  The fields of a
widget that only the gateway fills in (frame and sandbox addresses, tickets)
are dropped by every copy and are left out; `props` is a parameter.
-/

namespace Flashclaw.Board

inductive BoardValidationErrorCode where
  | conflict
  | invalidOperation
  | notFound
deriving DecidableEq

structure BoardValidationError where
  code : BoardValidationErrorCode
  message : String
deriving DecidableEq

inductive ChatDock where
  | left
  | right
  | bottom
  | hidden
deriving DecidableEq

inductive ContentKind where
  | html
  | mcpApp
  | plugin
deriving DecidableEq

inductive Presentation where
  | card
  | fullBleed
  | frameless
deriving DecidableEq

inductive HeightMode where
  | auto
  | fixed
deriving DecidableEq

inductive GrantState where
  | none
  | pending
  | granted
  | rejected
deriving DecidableEq

structure BoardTab where
  tabId : String
  title : String
  position : ℕ
  chatDock : ChatDock
deriving DecidableEq

structure BoardWidgetDeclared where
  netOrigins : Option (List String)
  tools : Option (List String)
deriving DecidableEq

structure BoardWidget (Props : Type) where
  name : String
  tabId : String
  title : Option String
  contentKind : ContentKind
  presentation : Option Presentation
  heightMode : Option HeightMode
  pluginKind : Option String
  props : Option Props
  sizeW : ℤ
  sizeH : ℤ
  position : ℕ
  grantState : GrantState
  revision : ℕ
  instanceId : Option String
  declaredSummary : Option (List String)
  declared : Option BoardWidgetDeclared
deriving DecidableEq

structure BoardLayout (Props : Type) where
  tabs : List BoardTab
  widgets : List (BoardWidget Props)
deriving DecidableEq

/-- The operations of `board.update`; their numbers are finite but need not be whole. -/
inductive BoardOp where
  | tabCreate (tabId title : String) (chatDock : Option ChatDock)
  | tabUpdate (tabId : String) (title : Option String) (chatDock : Option ChatDock)
      (position : Option ℚ)
  | tabDelete (tabId : String)
  | tabsReorder (tabIds : List String)
  | widgetMove (name : String) (tabId : Option String) (position : Option ℚ) (after : Option String)
  | widgetResize (name : String) (sizeW sizeH : ℚ) (heightMode : Option HeightMode)
  | widgetRemove (name : String)
deriving DecidableEq

variable {Props : Type}

/-- `Number.MAX_SAFE_INTEGER`. -/
def maxSafeInteger : ℕ := 2 ^ 53 - 1

/-- `Math.trunc`. -/
def trunc (value : ℚ) : ℤ := if 0 ≤ value then ⌊value⌋ else ⌈value⌉

def clampInteger (value : ℚ) (min max : ℤ) : ℤ := Min.min max (Max.max min (trunc value))

/-- `toSorted(comparePosition)` on tabs. -/
def sortTabs (tabs : List BoardTab) : List BoardTab :=
  tabs.insertionSort fun a b => a.position ≤ b.position

/-- `toSorted(comparePosition)` on widgets. -/
def sortWidgets (widgets : List (BoardWidget Props)) : List (BoardWidget Props) :=
  widgets.insertionSort fun a b => a.position ≤ b.position

def numberTabs (tabs : List BoardTab) : List BoardTab :=
  tabs.mapIdx fun position tab => { tab with position }

def numberWidgets (widgets : List (BoardWidget Props)) : List (BoardWidget Props) :=
  widgets.mapIdx fun position widget => { widget with position }

/-- `tabPosition.get(tabId) ?? Number.MAX_SAFE_INTEGER`. -/
def tabPosition (tabs : List BoardTab) (tabId : String) : ℕ :=
  ((tabs.foldl (fun m tab => m.set tab.tabId tab.position) (JsMap.empty : JsMap String ℕ)).get?
    tabId).getD maxSafeInteger

/-- The widgets renumbered from 0 on each tab, `nextPosition` being the tabs begun. -/
def numberByTab (nextPosition : JsMap String ℕ) :
    List (BoardWidget Props) → List (BoardWidget Props)
  | [] => []
  | widget :: widgets =>
    let position := (nextPosition.get? widget.tabId).getD 0
    { widget with position } ::
      numberByTab (nextPosition.set widget.tabId (position + 1)) widgets

/-- The order of `normalizeBoardLayout`: by tab, then by position. -/
def widgetLe (tabs : List BoardTab) (a b : BoardWidget Props) : Prop :=
  tabPosition tabs a.tabId < tabPosition tabs b.tabId ∨
    tabPosition tabs a.tabId = tabPosition tabs b.tabId ∧ a.position ≤ b.position

instance (tabs : List BoardTab) : DecidableRel (@widgetLe Props tabs) :=
  fun _ _ => inferInstanceAs (Decidable (_ ∨ _))

def normalizeBoardLayout (layout : BoardLayout Props) : BoardLayout Props :=
  let tabs := numberTabs (sortTabs layout.tabs)
  { tabs, widgets := numberByTab .empty (layout.widgets.insertionSort (widgetLe tabs)) }

def requireTab (layout : BoardLayout Props) (tabId : String) :
    Except BoardValidationError BoardTab :=
  match layout.tabs.find? (·.tabId = tabId) with
  | none => .error ⟨.notFound, "board tab not found: " ++ tabId⟩
  | some tab => .ok tab

def requireWidget (layout : BoardLayout Props) (name : String) :
    Except BoardValidationError (BoardWidget Props) :=
  match layout.widgets.find? (·.name = name) with
  | none => .error ⟨.notFound, "board widget not found: " ++ name⟩
  | some widget => .ok widget

def moveTab (layout : BoardLayout Props) (tab : BoardTab) (position : ℚ) : BoardLayout Props :=
  let ordered := (sortTabs layout.tabs).filter (·.tabId ≠ tab.tabId)
  { layout with
    tabs := numberTabs (ordered.insertIdx (clampInteger position 0 ordered.length).toNat tab) }

/-- The index on the target tab at which `moveWidget` puts the widget. -/
def targetPosition (targetWidgets : List (BoardWidget Props)) (widget : BoardWidget Props)
    (targetTabId : String) (position : Option ℚ) :
    Option String → Except BoardValidationError ℕ
  | some after =>
    if after = widget.name then .error ⟨.invalidOperation, "widget cannot be placed after itself"⟩
    else
      match targetWidgets.findIdx? (·.name = after) with
      | none => .error ⟨.notFound,
          "board widget anchor not found on tab " ++ targetTabId ++ ": " ++ after⟩
      | some anchorIndex => .ok (anchorIndex + 1)
  | none =>
    match position with
    | some position => .ok (clampInteger position 0 targetWidgets.length).toNat
    | none => .ok targetWidgets.length

def moveWidget (layout : BoardLayout Props) (widget : BoardWidget Props) (targetTabId : String)
    (position : Option ℚ) (after : Option String) :
    Except BoardValidationError (BoardLayout Props) := do
  let _ ← requireTab layout targetTabId
  if position.isSome ∧ after.isSome then
    .error ⟨.invalidOperation, "widget_move accepts either position or after, not both"⟩
  else
    let targetWidgets := sortWidgets
      (layout.widgets.filter fun w => w.tabId = targetTabId ∧ w.name ≠ widget.name)
    let index ← targetPosition targetWidgets widget targetTabId position after
    let placed := numberWidgets (targetWidgets.insertIdx index { widget with tabId := targetTabId })
    let otherWidgets := layout.widgets.filter
      fun w => w.name ≠ widget.name ∧ w.tabId ≠ targetTabId
    return { layout with widgets := otherWidgets ++ placed }

/-- An update in place of the tab with that id. -/
def modifyTab (layout : BoardLayout Props) (tabId : String) (f : BoardTab → BoardTab) :
    BoardLayout Props :=
  { layout with tabs := layout.tabs.map fun tab => if tab.tabId = tabId then f tab else tab }

/-- An update in place of the widget with that name. -/
def modifyWidget (layout : BoardLayout Props) (name : String)
    (f : BoardWidget Props → BoardWidget Props) : BoardLayout Props :=
  { layout with
    widgets := layout.widgets.map fun widget => if widget.name = name then f widget else widget }

/-- The title and dock that `tab_update` gives a tab. -/
def BoardTab.update (tab : BoardTab) (title : Option String) (chatDock : Option ChatDock) :
    BoardTab :=
  { tab with title := title.getD tab.title, chatDock := chatDock.getD tab.chatDock }

/-- A resize pins the height unless the client says otherwise. -/
def BoardWidget.resize (widget : BoardWidget Props) (sizeW sizeH : ℚ)
    (heightMode : Option HeightMode) : BoardWidget Props :=
  { widget with
    sizeW := clampInteger sizeW 1 12
    sizeH := clampInteger sizeH 1 20
    heightMode := some (heightMode.getD .fixed) }

def tabDelete (layout : BoardLayout Props) (tab : BoardTab) :
    Except BoardValidationError (BoardLayout Props) :=
  let remainingTabs := sortTabs (layout.tabs.filter (·.tabId ≠ tab.tabId))
  if layout.widgets.any (·.tabId = tab.tabId) then
    match remainingTabs with
    | [] => .error ⟨.invalidOperation, "cannot delete the last board tab while it contains widgets"⟩
    | fallback :: _ => .ok
      { tabs := remainingTabs
        widgets := layout.widgets.map fun widget =>
          if widget.tabId = tab.tabId then
            { widget with tabId := fallback.tabId, position := maxSafeInteger }
          else widget }
  else .ok { layout with tabs := remainingTabs }

def applyBoardOp (layout : BoardLayout Props) : BoardOp →
    Except BoardValidationError (BoardLayout Props)
  | .tabCreate tabId title chatDock =>
    if layout.tabs.any (·.tabId = tabId) then
      .error ⟨.conflict, "board tab already exists: " ++ tabId⟩
    else
      .ok { layout with
        tabs := layout.tabs ++ [⟨tabId, title, layout.tabs.length, chatDock.getD .right⟩] }
  | .tabUpdate tabId title chatDock position => do
    let tab ← requireTab layout tabId
    if title = none ∧ chatDock = none ∧ position = none then
      .error ⟨.invalidOperation, "tab_update has no changes"⟩
    else
      let updated := modifyTab layout tabId fun tab => tab.update title chatDock
      return match position with
        | none => updated
        | some position => moveTab updated (tab.update title chatDock) position
  | .tabDelete tabId => do
    let tab ← requireTab layout tabId
    tabDelete layout tab
  | .tabsReorder tabIds =>
    if tabIds.length ≠ layout.tabs.length ∨ ¬ tabIds.Nodup ∨
        ∃ tabId ∈ tabIds, tabId ∉ layout.tabs.map (·.tabId) then
      .error ⟨.invalidOperation, "tabs_reorder must contain every tab exactly once"⟩
    else
      .ok { layout with
        tabs := numberTabs (tabIds.filterMap fun tabId => layout.tabs.find? (·.tabId = tabId)) }
  | .widgetMove name tabId position after => do
    let widget ← requireWidget layout name
    moveWidget layout widget (tabId.getD widget.tabId) position after
  | .widgetResize name sizeW sizeH heightMode => do
    let _ ← requireWidget layout name
    return modifyWidget layout name fun widget => widget.resize sizeW sizeH heightMode
  | .widgetRemove name => do
    let _ ← requireWidget layout name
    return { layout with widgets := layout.widgets.filter (·.name ≠ name) }

/-- The caller's layout and the copy `applyBoardOps` works on.  `cloneLayout` copies each tab and
widget; the copy is a value here, so that an operation cannot write to what the caller holds. -/
structure Cells (Props : Type) where
  layout : BoardLayout Props
  next : BoardLayout Props

/-- The loop of `applyBoardOps`: the error an operation throws, if any, and the cells then. -/
def runBoardOps : List BoardOp → Cells Props → Option BoardValidationError × Cells Props
  | [], cells => (none, cells)
  | op :: ops, cells =>
    match applyBoardOp cells.next op with
    | .error e => (some e, cells)
    | .ok next => runBoardOps ops { cells with next := normalizeBoardLayout next }

/-- What `applyBoardOps` returns, and the layout it was given as it leaves it. -/
def applyBoardOps (layout : BoardLayout Props) (ops : List BoardOp) :
    Except BoardValidationError (BoardLayout Props) × BoardLayout Props :=
  match runBoardOps ops ⟨layout, layout⟩ with
  | (some e, cells) => (.error e, cells.layout)
  | (none, cells) => (.ok (normalizeBoardLayout cells.next), cells.layout)

/-- `placement.tabId`, `placement.after` and `placement.move` of `insertBoardWidget`. -/
structure Placement where
  tabId : String
  after : Option String
  move : Bool
deriving DecidableEq

/-- `Object.assign` of a widget to a widget: what the source leaves undefined stays. -/
def BoardWidget.assign (target source : BoardWidget Props) : BoardWidget Props where
  name := source.name
  tabId := source.tabId
  title := source.title.or target.title
  contentKind := source.contentKind
  presentation := source.presentation.or target.presentation
  heightMode := source.heightMode.or target.heightMode
  pluginKind := source.pluginKind.or target.pluginKind
  props := source.props.or target.props
  sizeW := source.sizeW
  sizeH := source.sizeH
  position := source.position
  grantState := source.grantState
  revision := source.revision
  instanceId := source.instanceId.or target.instanceId
  declaredSummary := source.declaredSummary.or target.declaredSummary
  declared := source.declared.or target.declared

def insertBoardWidget (layout : BoardLayout Props) (widget : BoardWidget Props)
    (placement : Placement) : Except BoardValidationError (BoardLayout Props) :=
  match layout.widgets.find? (·.name = widget.name) with
  | some existing => do
    let assigned : BoardWidget Props :=
      { existing.assign widget with tabId := placement.tabId, position := existing.position }
    let next := modifyWidget layout widget.name fun _ => assigned
    let moved ← if placement.move then moveWidget next assigned placement.tabId none placement.after
      else .ok next
    return normalizeBoardLayout moved
  | none => do
    let inserted := { widget with tabId := placement.tabId }
    let next := { layout with widgets := layout.widgets ++ [inserted] }
    let moved ← moveWidget next inserted placement.tabId none placement.after
    return normalizeBoardLayout moved

end Flashclaw.Board
