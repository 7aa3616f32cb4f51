import Flashclaw.Lib.JsNumber
import Flashclaw.Lib.SqlTable
import Flashclaw.Lib.Utf16Text

/-!
# Tasks: records

`task-registry.types.ts`, `task-registry-records.ts`, `task-executor-policy.ts` and
`native-subagent-task.ts`.  Flows, clean-up times, details and the data of the
requester, which no cancellation reads, are left out.  Behind them stand the
terminal outcomes of agent runs, `agent-run-terminal-outcome.ts`, as far as tasks
use them.  Values of other types than the code asks for are absent here.
-/

namespace Flashclaw.Tasks

open Utf16

inductive TaskRuntime where
  | subagent
  | acp
  | cli
  | cron
deriving DecidableEq

inductive TaskStatus where
  | queued
  | running
  | succeeded
  | failed
  | timedOut
  | cancelled
  | lost
deriving DecidableEq

inductive TaskDeliveryStatus where
  | pending
  | delivered
  | sessionQueued
  | failed
  | parentMissing
  | notApplicable
deriving DecidableEq

inductive TaskTerminalOutcome where
  | succeeded
  | blocked
deriving DecidableEq

inductive TaskScopeKind where
  | session
  | system
deriving DecidableEq

def TaskRuntime.text : TaskRuntime → Utf16
  | subagent => ofString "subagent"
  | acp => ofString "acp"
  | cli => ofString "cli"
  | cron => ofString "cron"

def TaskStatus.text : TaskStatus → Utf16
  | queued => ofString "queued"
  | running => ofString "running"
  | succeeded => ofString "succeeded"
  | failed => ofString "failed"
  | timedOut => ofString "timed_out"
  | cancelled => ofString "cancelled"
  | lost => ofString "lost"

def TaskScopeKind.text : TaskScopeKind → Utf16
  | session => ofString "session"
  | system => ofString "system"

structure TaskRecord where
  taskId : Utf16
  runtime : TaskRuntime
  taskKind : Option Utf16
  sourceId : Option Utf16
  ownerKey : Utf16
  scopeKind : TaskScopeKind
  childSessionKey : Option Utf16
  runId : Option Utf16
  status : TaskStatus
  deliveryStatus : TaskDeliveryStatus
  createdAt : JsNumber
  startedAt : Option JsNumber
  endedAt : Option JsNumber
  lastEventAt : Option JsNumber
  toolUseCount : Option ℕ
  lastToolName : Option Utf16
  error : Option Utf16
  progressSummary : Option Utf16
  terminalSummary : Option Utf16
  terminalOutcome : Option TaskTerminalOutcome
deriving DecidableEq

def isTerminalTaskStatus (status : TaskStatus) : Bool :=
  status = .succeeded || status = .failed || status = .timedOut || status = .cancelled ||
    status = .lost

/-- `value?.trim() || undefined` -/
def normalizeOptionalString (value : Option Utf16) : Option Utf16 :=
  (value.map trim).filter (· ≠ [])

/-- The truth value of `value?.trim()`. -/
def hasText (value : Option Utf16) : Bool := (normalizeOptionalString value).isSome

/-- `value.replace(/\s+/g, " ")` -/
def collapseSpaces : Utf16 → Utf16
  | [] => []
  | [c] => if isWhiteSpace c then [unit ' '] else [c]
  | c :: d :: rest =>
    if isWhiteSpace c && isWhiteSpace d then collapseSpaces (d :: rest)
    else (if isWhiteSpace c then unit ' ' else c) :: collapseSpaces (d :: rest)

def normalizeTaskSummary (value : Option Utf16) : Option Utf16 :=
  normalizeOptionalString (value.map collapseSpaces)

def TaskRecord.normalizeTaskTimestamps (task : TaskRecord) : TaskRecord :=
  let lower (createdAt : JsNumber) (candidate : Option JsNumber) : JsNumber :=
    candidate.elim createdAt fun candidate => if candidate < createdAt then candidate else createdAt
  let createdAt := lower (lower (lower task.createdAt task.startedAt) task.lastEventAt) task.endedAt
  let startedAt := task.startedAt.map (·.max createdAt)
  let floor := startedAt.getD createdAt
  { task with
    createdAt := createdAt
    startedAt := startedAt
    lastEventAt := task.lastEventAt.map (·.max floor)
    endedAt := task.endedAt.map (·.max floor) }

def SUBAGENT_KILL_TASK_ERROR : Utf16 := ofString "Subagent run killed."

/-- Cancelled with the marker of a kill. -/
def TaskRecord.hasKillMarker (task : TaskRecord) : Bool :=
  task.status = .cancelled && task.error = some SUBAGENT_KILL_TASK_ERROR

/-- Terminal other than by the provisional marker of a killed subagent. -/
def TaskRecord.isCanonical (task : TaskRecord) : Bool :=
  isTerminalTaskStatus task.status && !(task.runtime = .subagent && task.hasKillMarker)

def BACKGROUND_EXEC_TASK_KIND : Utf16 := ofString "exec"

def isBackgroundExecTask (task : TaskRecord) : Bool :=
  task.runtime = .cli && task.taskKind = some BACKGROUND_EXEC_TASK_KIND

/-- The kinds of native subagents, and how the ids of their runs start. -/
def CHILDLESS_NATIVE_SUBAGENT_DEFINITIONS : List (Utf16 × Utf16) :=
  [(ofString "codex-native", ofString "codex-thread:"),
    (ofString "copilot-native", ofString "copilot-agent:")]

def isChildlessNativeSubagentTask (task : TaskRecord) : Bool :=
  task.runtime = .subagent && !hasText task.childSessionKey &&
    CHILDLESS_NATIVE_SUBAGENT_DEFINITIONS.any fun definition =>
      task.taskKind = some definition.1 && [task.sourceId, task.runId].any fun candidate =>
        candidate.any fun candidate => definition.2.isPrefixOf (trim candidate)

/-- The map of the registry, whose keys are the ids of its records. -/
abbrev TaskTable := SqlTable TaskRecord.taskId

def TaskTable.get (tasks : TaskTable) (taskId : Utf16) : Option TaskRecord :=
  tasks.rows.find? fun task => task.taskId = taskId

/-- `tasks.set` of what `f` makes of the record of an id. -/
def TaskTable.change (tasks : TaskTable) (taskId : Utf16) (f : TaskRecord → TaskRecord) :
    TaskTable :=
  (tasks.update (·.taskId = taskId) (fun task => { f task with taskId := task.taskId })
    fun _ => rfl).1

variable {tasks : TaskTable} {task : TaskRecord} {taskId : Utf16}

theorem get_eq_some : tasks.get taskId = some task ↔ task ∈ tasks.rows ∧ task.taskId = taskId := by
  unfold TaskTable.get
  constructor
  · intro h
    exact ⟨List.mem_of_find?_eq_some h, by simpa using List.find?_some h⟩
  · rintro ⟨hmem, rfl⟩
    cases hfind : tasks.rows.find? fun other => other.taskId = task.taskId with
    | none =>
      have hne := List.find?_eq_none.mp hfind task hmem
      simp at hne
    | some other =>
      have hkey : other.taskId = task.taskId := by simpa using List.find?_some hfind
      rw [SqlTable.eq_of_key (List.mem_of_find?_eq_some hfind) hmem hkey]

theorem mem_change {f : TaskRecord → TaskRecord} : task ∈ (tasks.change taskId f).rows ↔
    (task ∈ tasks.rows ∧ task.taskId ≠ taskId) ∨
      ∃ old ∈ tasks.rows, old.taskId = taskId ∧ task = { f old with taskId := old.taskId } := by
  unfold TaskTable.change
  rw [SqlTable.mem_update]
  simp only [decide_eq_true_eq, decide_eq_false_iff_not, ne_eq]

inductive AgentRunWaitStatus where
  | ok
  | error
  | timeout
deriving DecidableEq

inductive AgentRunTerminalReason where
  | completed
  | hardTimeout
  | timedOut
  | cancelled
  | aborted
  | blocked
  | abandoned
  | failed
deriving DecidableEq

structure AgentRunTerminalInput where
  status : AgentRunWaitStatus
  error : Option Utf16
  stopReason : Option Utf16
  livenessState : Option Utf16
  timeoutPhase : Option Utf16
  providerStarted : Option Bool
  endedAt : Option JsNumber

structure AgentRunTerminalOutcome where
  reason : AgentRunTerminalReason
  error : Option Utf16
  endedAt : Option JsNumber

def asNonEmptyString (value : Option Utf16) : Option Utf16 := value.filter fun s => trim s ≠ []

def isHardAgentRunTimeoutPhase (value : Option Utf16) : Bool :=
  value.any fun s => trim s ∈ ["preflight", "provider", "post_turn"].map ofString

/-- `message || fallback` -/
def formatLivenessError (fallback : Utf16) (error : Option Utf16) : Utf16 :=
  (normalizeOptionalString error).getD fallback

/-- `toLowerCase` is the one of the language. -/
def buildAgentRunTerminalOutcome (toLowerCase : Utf16 → Utf16) (input : AgentRunTerminalInput) :
    AgentRunTerminalOutcome :=
  let stopReason := asNonEmptyString input.stopReason
  let isState (state : String) : Bool :=
    (asNonEmptyString input.livenessState).any fun s => toLowerCase (trim s) = ofString state
  let rawError := asNonEmptyString input.error
  let restartCancelled := decide (stopReason = some (ofString "restart"))
  let hardTimeout := isHardAgentRunTimeoutPhase input.timeoutPhase ||
    (!restartCancelled && input.status = .timeout && input.providerStarted = some true)
  let aborted := decide (stopReason = some (ofString "aborted"))
  let cancelled := restartCancelled || (input.status ≠ .ok &&
    (stopReason = some (ofString "rpc") || stopReason = some (ofString "stop")))
  let blocked := isState "blocked"
  let abandoned := isState "abandoned"
  let error :=
    if hardTimeout then rawError
    else if blocked then
      some (formatLivenessError (ofString "Agent run blocked before producing a usable result.")
        rawError)
    else if aborted && rawError.isNone then some (ofString "agent run aborted")
    else if aborted || cancelled then rawError
    else if abandoned then
      some (formatLivenessError (ofString "Agent run ended before producing a complete result.")
        rawError)
    else rawError
  let reason :=
    if hardTimeout then .hardTimeout
    else if blocked then .blocked
    else if aborted then .aborted
    else if cancelled then .cancelled
    else if abandoned then .abandoned
    else
      match input.status with
      | .timeout => .timedOut
      | .error => .failed
      | .ok => .completed
  ⟨reason, error, input.endedAt.filter (·.isFinite)⟩

def mapAgentRunTerminalOutcomeToTaskStatus (outcome : AgentRunTerminalOutcome) : TaskStatus :=
  match outcome.reason with
  | .completed => .succeeded
  | .hardTimeout | .timedOut => .timedOut
  | .cancelled | .aborted => .cancelled
  | .blocked | .abandoned | .failed => .failed

/-- The runner's abort of a subagent stays provisional. -/
def resolveTaskLifecycleTerminalError (runtime : TaskRuntime) (status : TaskStatus)
    (error : Option Utf16) : Option Utf16 :=
  if runtime = .subagent ∧ status = .cancelled then some SUBAGENT_KILL_TASK_ERROR else error

end Flashclaw.Tasks
