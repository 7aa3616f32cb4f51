import Flashclaw.Lib.Transition
import Flashclaw.Tasks.Updates
import Mathlib.Logic.Function.Basic

/-!
# Tasks: cancellation

`cancelTaskById`, in the parts that run without a break: up to its control call, and
from what this call gives up to the end.  Agent events, updates by run scope and the
parts of other calls come between them.
-/

namespace Flashclaw.Tasks

open Utf16

structure CancelResult where
  found : Bool
  cancelled : Bool
  reason : Option Utf16
  task : Option TaskRecord
deriving DecidableEq

def CancelResult.refused (reason : Utf16) (task : TaskRecord) : CancelResult :=
  ⟨true, false, some reason, some task⟩

/-- The control call that a cancellation waits for. -/
inductive Control where
  | cancelBackgroundExecSession
  | cancelActiveCronTaskRun
  | cancelSession
  | killSubagentRunAdmin
deriving DecidableEq

/-- The state of a terminal run, as `resolveSubagentKillTargetState` builds it. -/
structure DetachedTaskTerminalState where
  status : TaskStatus
  endedAt : JsNumber
  error : Option Utf16
  progressSummary : Option Utf16
  terminalSummary : Option Utf16
  terminalOutcome : Option TaskTerminalOutcome

/-- What `finalizeTaskRunByRunId` makes of it. -/
def DetachedTaskTerminalState.patch (task : DetachedTaskTerminalState) : RunPatch :=
  { RunPatch.empty with
    status := some task.status
    endedAt := some task.endedAt
    lastEventAt := some task.endedAt
    error := task.error
    progressSummary := task.progressSummary.map some
    terminalSummary := some task.terminalSummary
    terminalOutcome := task.terminalOutcome.map some }

/-- `targetState` of a kill. -/
inductive KillTargetState where
  | finalizing
  | terminal (task : DetachedTaskTerminalState)

structure KillResult where
  killed : Bool
  targetState : Option KillTargetState
  runId : Utf16

/-- What a control call gives; the runtimes of the last two are awaited. -/
inductive ControlResult where
  | throws (message : Utf16)
  | handled (handled : Bool)
  | sessionCancelled
  | killed (result : Option KillResult)

/-- A call behind its first part, with the record that it has read. -/
structure Pending where
  task : TaskRecord
  isProvisionalSubagentKill : Bool
  cancellationError : Utf16
  control : Control

inductive Segment where
  | returns (tasks : TaskTable) (result : CancelResult)
  | awaits (pending : Pending)
  | writes (tasks : TaskTable) (task : TaskRecord) (isProvisionalSubagentKill : Bool)
    (cancellationError : Utf16)

def cancellationError (reason : Option Utf16) : Utf16 :=
  match normalizeOptionalString reason with
  | some requestedReason =>
    if requestedReason ≠ SUBAGENT_KILL_TASK_ERROR then requestedReason
    else ofString "Cancelled by operator."
  | none => ofString "Cancelled by operator."

/-- `ready` is the error of `ensureTaskCancellationReady`. -/
def beginCancel (tasks : TaskTable) (taskId : Utf16) (reason ready : Option Utf16) : Segment :=
  match tasks.get (trim taskId) with
  | none => .returns tasks ⟨false, false, some (ofString "Task not found."), none⟩
  | some task =>
    let error := cancellationError reason
    let isProvisionalSubagentKill := task.runtime = .subagent && task.hasKillMarker
    let refused (reason : Utf16) : Segment := .returns tasks (.refused reason task)
    let awaits (control : Control) : Segment :=
      .awaits ⟨task, isProvisionalSubagentKill, error, control⟩
    let writes : Segment := .writes tasks task isProvisionalSubagentKill error
    if !isProvisionalSubagentKill && isTerminalTaskStatus task.status then
      refused (ofString "Task is already terminal.")
    else
      match ready with
      | some message => refused message
      | none =>
        if isBackgroundExecTask task then awaits .cancelBackgroundExecSession
        else
          match task.runtime with
          | .cli => writes
          | .cron => awaits .cancelActiveCronTaskRun
          | .acp =>
            if hasText task.childSessionKey then awaits .cancelSession
            else refused (ofString "Task has no cancellable child session.")
          | .subagent =>
            if hasText task.childSessionKey then awaits .killSubagentRunAdmin
            else if isChildlessNativeSubagentTask task then writes
            else refused (ofString "Task has no cancellable child session.")

def childScope (task : TaskRecord) (runId : Utf16) : RunScope :=
  ⟨runId, some task.runtime, task.childSessionKey.map trim⟩

def becameReason (status : TaskStatus) : Utf16 :=
  ofString "Subagent became " ++ status.text ++ ofString " while cancellation was in progress."

def completedReason : Utf16 := ofString "Subagent completed while cancellation was in progress."

/-- `finalizeTaskRunByRunId` of a terminal target, and whether the call goes on to its write. -/
def reconcile (store : Utf16 → Persist) (tasks : TaskTable) (pending : Pending) (runId : Utf16)
    (target : DetachedTaskTerminalState) : Segment :=
  let task := pending.task
  let taskRunId := (normalizeOptionalString task.runId).getD runId
  let reconciledTasks :=
    updateTaskStateByRunId store tasks (childScope task taskRunId) target.patch
  let tasks := reconciledTasks.1
  match reconciledTasks.2 with
  | .error message => .returns tasks (.refused message task)
  | .ok updated =>
    match updated.find? (·.taskId = task.taskId) with
    | none => .returns tasks (.refused
        (ofString "Subagent became terminal, but task state reconciliation failed to persist.")
        ((tasks.get task.taskId).getD task))
    | some reconciled =>
      if target.status = .cancelled && target.error = some SUBAGENT_KILL_TASK_ERROR then
        .writes tasks task true pending.cancellationError
      else if target.status = .succeeded then .returns tasks (.refused completedReason reconciled)
      else .returns tasks (.refused (becameReason target.status) reconciled)

def resumeKill (store : Utf16 → Persist) (tasks : TaskTable) (pending : Pending)
    (result : Option KillResult) : Segment :=
  let task := pending.task
  let current := tasks.get task.taskId
  let isProvisionalSubagentKill :=
    pending.isProvisionalSubagentKill || current.any (·.hasKillMarker)
  let refused (reason : Utf16) (task : TaskRecord) : Segment :=
    .returns tasks (.refused reason task)
  match current.filter fun current => isTerminalTaskStatus current.status &&
      !(current.status = .cancelled && isProvisionalSubagentKill) with
  | some current =>
    if current.status = .succeeded then refused completedReason current
    else if current.status = .cancelled then
      refused (ofString "Subagent was cancelled while cancellation was in progress.") current
    else refused (becameReason current.status) current
  | none =>
    match result with
    | some ⟨_, some (.terminal target), runId⟩ => reconcile store tasks pending runId target
    | some ⟨_, some .finalizing, _⟩ =>
      refused (ofString "Subagent completion is still being finalized.") (current.getD task)
    | some ⟨killed, none, _⟩ =>
      if !killed && !isProvisionalSubagentKill then
        refused (ofString "Subagent was not running.") (current.getD task)
      else .writes tasks task isProvisionalSubagentKill pending.cancellationError
    | none =>
      if !isProvisionalSubagentKill then
        refused (ofString "Subagent task not found.") (current.getD task)
      else .writes tasks task isProvisionalSubagentKill pending.cancellationError

/-- The part behind the control call; no result fits another control than its own. -/
def resumeCancel (store : Utf16 → Persist) (tasks : TaskTable) (pending : Pending)
    (result : ControlResult) : Option Segment :=
  let task := pending.task
  let refused (reason : Utf16) : Segment := .returns tasks (.refused reason task)
  let writes : Segment :=
    .writes tasks task pending.isProvisionalSubagentKill pending.cancellationError
  match pending.control, result with
  | _, .throws message => some (refused message)
  | .cancelBackgroundExecSession, .handled handled =>
    if hasText task.sourceId && handled then some writes
    else some (refused (ofString "Background command has no active cancellation handle."))
  | .cancelActiveCronTaskRun, .handled handled =>
    if !handled && hasText task.childSessionKey then
      some (refused (ofString "Cron task has no active cancellation handle."))
    else some writes
  | .cancelSession, .sessionCancelled => some writes
  | .killSubagentRunAdmin, .killed result => some (resumeKill store tasks pending result)
  | _, _ => none

/-- Tasks of these runtimes are cancelled by run scope where they have a run. -/
def writesByRunScope (task : TaskRecord) : Bool :=
  (task.runtime = .acp || task.runtime = .subagent) && hasText task.runId

def cancelPatch (error : Utf16) (endedAt eventAt : JsNumber) : RunPatch :=
  { RunPatch.empty with
    status := some .cancelled
    endedAt := some endedAt
    lastEventAt := some eventAt
    error := some error }

/-- The write of the status, and what the call returns. -/
def writeCancelled (store : Utf16 → Persist) (tasks : TaskTable) (task : TaskRecord)
    (isProvisionalSubagentKill : Bool) (error : Utf16) (eventAt : JsNumber) :
    TaskTable × CancelResult :=
  let current := (tasks.get task.taskId).getD task
  let endedAt := if isProvisionalSubagentKill then current.endedAt.getD eventAt else eventAt
  let patch := cancelPatch error endedAt eventAt
  let written :=
    if writesByRunScope task then
      let matched :=
        updateTaskStateByRunId store tasks (childScope task (task.runId.getD [])) patch
      (matched.1, matched.2.map fun updated => updated.find? (·.taskId = task.taskId))
    else updateTask (store task.taskId) tasks task.taskId patch.apply
  (written.1,
    match written.2 with
    | .error message => .refused message task
    | .ok none => .refused (ofString "Task persistence failed.") task
    | .ok (some updated) => ⟨true, true, none, some updated⟩)

inductive Phase where
  | idle
  | awaiting (pending : Pending)
  | settled (result : CancelResult)

structure State where
  tasks : TaskTable
  call : ℕ → Phase

/-- `store` is what each task's update meets, and `eventAt` and `dateNow` the clock. -/
inductive Label where
  | event (evt : AgentEvent) (store : Utf16 → Persist) (dateNow : JsNumber)
  | update (scope : RunScope) (patch : RunPatch) (store : Utf16 → Persist)
  | cancel (call : ℕ) (taskId : Utf16) (reason ready : Option Utf16) (store : Utf16 → Persist)
    (eventAt : JsNumber)
  | resume (call : ℕ) (result : ControlResult) (store : Utf16 → Persist) (eventAt : JsNumber)

/-- The part of a call that a label runs. -/
def segment (s : State) : Label → Option Segment
  | .event _ _ _ | .update _ _ _ => none
  | .cancel i taskId reason ready _ _ =>
    match s.call i with
    | .idle => some (beginCancel s.tasks taskId reason ready)
    | _ => none
  | .resume i result store _ =>
    match s.call i with
    | .awaiting pending => resumeCancel store s.tasks pending result
    | _ => none

/-- The end of a part, at the status write if it comes to this. -/
def finish (s : State) (i : ℕ) (store : Utf16 → Persist) (eventAt : JsNumber) : Segment → State
  | .returns tasks result => ⟨tasks, Function.update s.call i (.settled result)⟩
  | .awaits pending => ⟨s.tasks, Function.update s.call i (.awaiting pending)⟩
  | .writes tasks task isProvisionalSubagentKill error =>
    let written := writeCancelled store tasks task isProvisionalSubagentKill error eventAt
    ⟨written.1, Function.update s.call i (.settled written.2)⟩

def step (toLowerCase : Utf16 → Utf16) (s : State) : Label → Option State
  | .event evt store dateNow =>
    some { s with tasks := onAgentEvent toLowerCase store s.tasks evt dateNow }
  | .update scope patch store =>
    some { s with tasks := (updateTaskStateByRunId store s.tasks scope patch).1 }
  | .cancel i taskId reason ready store eventAt =>
    (segment s (.cancel i taskId reason ready store eventAt)).map (finish s i store eventAt)
  | .resume i result store eventAt =>
    (segment s (.resume i result store eventAt)).map (finish s i store eventAt)

/-- Calls and events on a table of tasks. -/
def machine (toLowerCase : Utf16 → Utf16) (tasks : TaskTable) : TransitionSystem State Label where
  start := ⟨tasks, fun _ => .idle⟩
  step := step toLowerCase

end Flashclaw.Tasks
