import Flashclaw.Tasks.Record

/-!
# Tasks: the registry

The updates of `task-registry.ts` by id, by run scope and by agent events, on a
registry that is restored.  Delivery of notifications is left out.
-/

namespace Flashclaw.Tasks

open Utf16

/-- What the store and the flow registry make of an update of one task. -/
inductive Persist where
  | stored
  | rejected
  | throws (message : Utf16)
deriving DecidableEq

/-- `patch` keeps the id. -/
def updateTask (persist : Persist) (tasks : TaskTable) (taskId : Utf16)
    (patch : TaskRecord → TaskRecord) : TaskTable × Except Utf16 (Option TaskRecord) :=
  if (tasks.get taskId).isNone then (tasks, .ok none)
  else
    match persist with
    | .throws message => (tasks, .error message)
    | .rejected => (tasks, .ok none)
    | .stored =>
      let next := tasks.change taskId fun task => (patch task).normalizeTaskTimestamps
      (next, .ok (next.get taskId))

/-- Updates of the records of a list, each by its id; the first one that throws ends it. -/
def updateEach (store : Utf16 → Persist) (patch : TaskRecord → TaskRecord) :
    TaskTable → List TaskRecord → TaskTable × Except Utf16 (List TaskRecord)
  | tasks, [] => (tasks, .ok [])
  | tasks, current :: rest =>
    let (tasks, updated) := updateTask (store current.taskId) tasks current.taskId patch
    match updated with
    | .error message => (tasks, .error message)
    | .ok updated =>
      let (tasks, others) := updateEach store patch tasks rest
      (tasks, others.map (updated.toList ++ ·))

structure RunScope where
  runId : Utf16
  runtime : Option TaskRuntime
  sessionKey : Option Utf16

def getTasksByRunId (tasks : TaskTable) (runId : Utf16) : List TaskRecord :=
  tasks.rows.filter fun task => normalizeOptionalString task.runId = some (trim runId)

def taskRunScopeKey (task : TaskRecord) : Utf16 :=
  join 0 [task.runtime.text, task.scopeKind.text,
    (normalizeOptionalString (some task.ownerKey)).getD [],
    (normalizeOptionalString task.childSessionKey).getD []]

def getTasksByRunScope (tasks : TaskTable) (scope : RunScope) : List TaskRecord :=
  let matched := (getTasksByRunId tasks scope.runId).filter fun task =>
    scope.runtime.all (task.runtime = ·)
  match normalizeOptionalString scope.sessionKey with
  | some sessionKey =>
    let childMatches := matched.filter fun task =>
      normalizeOptionalString task.childSessionKey = some sessionKey
    if childMatches ≠ [] then childMatches
    else matched.filter fun task =>
      task.scopeKind = .session && normalizeOptionalString (some task.ownerKey) = some sessionKey
  | none => if (matched.map taskRunScopeKey).dedup.length ≤ 1 then matched else []

structure StatusUpdate where
  nextStatus : TaskStatus
  nextError : Option Utf16
  nextEndedAt : Option JsNumber

def shouldApplyRunScopedStatusUpdate (current : TaskRecord) (update : StatusUpdate) : Bool :=
  if current.runtime = .subagent && update.nextStatus = .cancelled &&
      update.nextError = some SUBAGENT_KILL_TASK_ERROR && isTerminalTaskStatus current.status &&
      !current.hasKillMarker then false
  else if current.status = update.nextStatus then true
  else if !isTerminalTaskStatus current.status then true
  else if !isTerminalTaskStatus update.nextStatus then false
  else if current.status = .cancelled && (update.nextStatus = .succeeded ||
      update.nextStatus = .failed || update.nextStatus = .timedOut) then
    let canonicalOutcomePredatesCancellation := current.runtime = .subagent &&
      current.endedAt.any fun endedAt => update.nextEndedAt.any (decide <| · < endedAt)
    canonicalOutcomePredatesCancellation || (current.runtime = .subagent &&
      hasText current.childSessionKey && current.error = some SUBAGENT_KILL_TASK_ERROR)
  else current.status = .succeeded && update.nextStatus ≠ .lost

/-- The fields of an update; an inner `none` clears its field. -/
structure RunPatch where
  childSessionKey : Option (Option Utf16)
  status : Option TaskStatus
  startedAt : Option JsNumber
  endedAt : Option JsNumber
  lastEventAt : Option JsNumber
  error : Option Utf16
  clearError : Bool
  progressSummary : Option (Option Utf16)
  terminalSummary : Option (Option Utf16)
  preserveTerminalSummary : Bool
  terminalOutcome : Option (Option TaskTerminalOutcome)
  suppressDelivery : Bool

namespace RunPatch

def empty : RunPatch :=
  ⟨none, none, none, none, none, none, false, none, none, false, none, false⟩

def applies (patch : RunPatch) (current : TaskRecord) : Bool :=
  patch.status.all fun status =>
    shouldApplyRunScopedStatusUpdate current ⟨status, patch.error, patch.endedAt⟩

def resolveTaskTerminalOutcome (status : TaskStatus)
    (terminalOutcome : Option TaskTerminalOutcome) : Option TaskTerminalOutcome :=
  terminalOutcome <|> if status = .succeeded then some .succeeded else none

def apply (patch : RunPatch) (current : TaskRecord) : TaskRecord :=
  let nextStatus := patch.status.getD current.status
  { current with
    status := nextStatus
    startedAt := patch.startedAt <|> current.startedAt
    endedAt := patch.endedAt <|> current.endedAt
    lastEventAt := patch.lastEventAt <|> current.lastEventAt
    childSessionKey := patch.childSessionKey.elim current.childSessionKey normalizeOptionalString
    error :=
      if patch.clearError then none
      else if current.status = .cancelled && nextStatus ≠ .cancelled && patch.error.isNone then none
      else patch.error <|> current.error
    progressSummary := patch.progressSummary.elim current.progressSummary normalizeTaskSummary
    terminalSummary := patch.terminalSummary.elim current.terminalSummary fun summary =>
      if patch.preserveTerminalSummary then summary else normalizeTaskSummary summary
    terminalOutcome := patch.terminalOutcome.elim current.terminalOutcome
      (resolveTaskTerminalOutcome nextStatus)
    deliveryStatus := if patch.suppressDelivery then .notApplicable else current.deliveryStatus }

end RunPatch

def updateTaskStateByRunId (store : Utf16 → Persist) (tasks : TaskTable) (scope : RunScope)
    (patch : RunPatch) : TaskTable × Except Utf16 (List TaskRecord) :=
  updateEach store patch.apply tasks ((getTasksByRunScope tasks scope).filter patch.applies)

/-- The fields of lifecycle data that the listener reads. -/
structure LifecycleData where
  phase : Option Utf16
  startedAt : Option JsNumber
  endedAt : Option JsNumber
  aborted : Bool
  error : Option Utf16
  stopReason : Option Utf16
  livenessState : Option Utf16
  timeoutPhase : Option Utf16
  providerStarted : Option Bool

inductive EventStream where
  | lifecycle (data : LifecycleData)
  | error (error : Option Utf16)
  | tool (phase name : Option Utf16)
  | other

structure AgentEvent where
  runId : Utf16
  sessionKey : Option Utf16
  ts : JsNumber
  stream : EventStream

/-- `evt.ts || Date.now()` -/
def AgentEvent.now (evt : AgentEvent) (dateNow : JsNumber) : JsNumber :=
  if evt.ts = .nan ∨ evt.ts = .ofNat 0 then dateNow else evt.ts

section Events

variable (toLowerCase : Utf16 → Utf16)

def buildTaskLifecycleTerminalOutcome (isError : Bool) (data : LifecycleData)
    (endedAt : Option JsNumber) : AgentRunTerminalOutcome :=
  buildAgentRunTerminalOutcome toLowerCase {
    status := if isError then .error else if data.aborted then .timeout else .ok
    error := data.error
    stopReason := data.stopReason
    livenessState := data.livenessState
    timeoutPhase := data.timeoutPhase
    providerStarted := data.providerStarted
    endedAt := endedAt }

def lifecyclePatch (now : JsNumber) (data : LifecycleData) (current : TaskRecord) : TaskRecord :=
  let startedAt := data.startedAt.filter (·.isFinite) <|> current.startedAt
  let current := { current with lastEventAt := some now, startedAt := startedAt }
  let isEnd := decide (data.phase = some (ofString "end"))
  let isError := decide (data.phase = some (ofString "error"))
  if data.phase = some (ofString "start") then { current with status := .running }
  else if isEnd || isError then
    let terminal := buildTaskLifecycleTerminalOutcome toLowerCase isError data
      (data.endedAt <|> some now)
    let status := mapAgentRunTerminalOutcomeToTaskStatus terminal
    { current with
      status := status
      endedAt := terminal.endedAt <|> some now
      error := resolveTaskLifecycleTerminalError current.runtime status terminal.error <|>
        current.error }
  else current

def eventPatch (now : JsNumber) (stream : EventStream) (current : TaskRecord) : TaskRecord :=
  match stream with
  | .lifecycle data => lifecyclePatch toLowerCase now data current
  | .error error => { current with lastEventAt := some now, error := error <|> current.error }
  | .tool phase name =>
    if phase = some (ofString "start") && hasText name then
      { current with
        lastEventAt := some now
        toolUseCount := some (current.toolUseCount.getD 0 + 1)
        lastToolName := normalizeOptionalString name }
    else { current with lastEventAt := some now }
  | .other => { current with lastEventAt := some now }

/-- The listener of `ensureListener`. -/
def onAgentEvent (store : Utf16 → Persist) (tasks : TaskTable) (evt : AgentEvent)
    (dateNow : JsNumber) : TaskTable :=
  let scopedTasks := getTasksByRunScope tasks ⟨evt.runId, none, evt.sessionKey⟩
  (updateEach store (eventPatch toLowerCase (evt.now dateNow) evt.stream) tasks
    (scopedTasks.filter fun current => !isTerminalTaskStatus current.status)).1

end Events

end Flashclaw.Tasks
