import Flashclaw.Lib.JsNumber
import Flashclaw.Lib.JsMap
import Flashclaw.Lib.JsString
import Mathlib.Data.Finset.Card

/-!
# Command lanes: the queue state

The records of `process/command-queue.ts` and the functions on a single lane.
An entry stands for its promise: `task`, `resolve` and `reject` are identified
with the entry's sequence number.  The time limits that `runQueueEntryTask`
races against the task are not kept; a task settles in one of three ways.
-/

namespace Flashclaw.CommandQueue

inductive Priority where
  | foreground
  | normal
  | background
deriving DecidableEq

/-- The enqueue options the queue itself reads.  `onWait` is whether a callback was given, and
`taskTimeoutProgressAtMs` whether one was given along with a time limit. -/
structure EnqueueOptions where
  warnAfterMs : Option JsNumber := none
  priority : Option Priority := none
  onWait : Bool := false
  taskTimeoutProgressAtMs : Bool := false
deriving DecidableEq

structure QueueEntry where
  enqueuedAt : ℤ
  sequence : ℕ
  priority : ℤ
  warnAfterMs : JsNumber
  queuedAheadAtEnqueue : ℕ
  activeAheadAtEnqueue : ℕ
  onWait : Bool
  taskTimeoutProgressAtMs : Bool
deriving DecidableEq

structure LaneState where
  lane : String
  queue : List QueueEntry
  activeTaskIds : Finset ℕ
  maxConcurrent : JsNumber
  draining : Bool
  generation : ℕ
deriving DecidableEq

/-- A pending `waitForActiveTasks` promise; `id` is the waiter object's identity. -/
structure ActiveTaskWaiter where
  id : ℕ
  activeTaskIds : Finset ℕ
  timeout : Bool
deriving DecidableEq

structure QueueState where
  lanes : JsMap String LaneState
  activeTaskWaiters : List ActiveTaskWaiter
  nextTaskId : ℕ
  nextQueueSequence : ℕ

/-- What a settled promise was settled with. -/
inductive Settlement where
  | resolved
  | rejected
  | cleared
deriving DecidableEq

/-- How a task ends: its own result, its own error, or the lane's time limit. -/
inductive Outcome where
  | success
  | failure
  | timeout
deriving DecidableEq

def Outcome.settlement : Outcome → Settlement
  | success => .resolved
  | failure => .rejected
  | timeout => .rejected

def isQuietProbeLane (lane : String) : Bool :=
  JsString.startsWith lane "auth-probe:" ||
    JsString.startsWith lane "session:probe-" ||
    JsString.startsWith lane "session:temp:setup-inference:probe-setup-inference-"

def normalizeLane (lane : String) : String :=
  if JsString.trim lane = "" then "main" else JsString.trim lane

def resolveQueuePriority : Option Priority → ℤ
  | some .foreground => 1
  | some .background => -1
  | _ => 0

/-- The state `getLaneState` creates for a lane it has not seen. -/
def LaneState.created (lane : String) : LaneState where
  lane := lane
  queue := []
  activeTaskIds := ∅
  maxConcurrent := .ofNat 1
  draining := false
  generation := 0

/-- The lane's state, the created one where the map has none. -/
def QueueState.getLaneState (q : QueueState) (lane : String) : LaneState :=
  (q.lanes.get? lane).getD (.created lane)

def QueueState.setLaneState (q : QueueState) (lane : String) (state : LaneState) : QueueState :=
  { q with lanes := q.lanes.set lane state }

/-- `queued` has to run after `entry`: the test `enqueueLaneEntry` searches with. -/
def QueueEntry.goesBefore (entry queued : QueueEntry) : Bool :=
  queued.priority < entry.priority ||
    (queued.priority = entry.priority && queued.sequence > entry.sequence)

/-- The entry `enqueueCommandInLane` builds. -/
def QueueEntry.created (sequence : ℕ) (opts : EnqueueOptions) (now : ℤ) : QueueEntry where
  enqueuedAt := now
  sequence := sequence
  priority := resolveQueuePriority opts.priority
  warnAfterMs := opts.warnAfterMs.getD (.ofNat 2000)
  queuedAheadAtEnqueue := 0
  activeAheadAtEnqueue := 0
  onWait := opts.onWait
  taskTimeoutProgressAtMs := opts.taskTimeoutProgressAtMs

/-- Place the entry in front of the first one it precedes, else at the end. -/
def enqueueLaneEntry (state : LaneState) (entry : QueueEntry) : LaneState :=
  let insertAt := state.queue.findIdx? entry.goesBefore
  let entry := { entry with
    queuedAheadAtEnqueue := insertAt.getD state.queue.length
    activeAheadAtEnqueue := state.activeTaskIds.card }
  match insertAt with
  | none => { state with queue := state.queue ++ [entry] }
  | some i => { state with queue := state.queue.insertIdx i entry }

/-- A completion of the lane's present generation frees its slot; a stale one does nothing. -/
def completeTask (state : LaneState) (taskId taskGeneration : ℕ) : LaneState :=
  if taskGeneration ≠ state.generation then state
  else { state with activeTaskIds := state.activeTaskIds.erase taskId }

/-- The part `resetCommandLane` and `resetAllLanes` share. -/
def LaneState.reset (state : LaneState) : LaneState :=
  { state with generation := state.generation + 1, activeTaskIds := ∅, draining := false }

/-- `state.activeTaskIds.size < state.maxConcurrent`. -/
def LaneState.hasFreeSlot (state : LaneState) : Prop :=
  JsNumber.ofNat state.activeTaskIds.card < state.maxConcurrent

instance (state : LaneState) : Decidable state.hasFreeSlot :=
  inferInstanceAs (Decidable (_ < _))

/-- The condition of `pump`'s loop. -/
def LaneState.pumpable (state : LaneState) : Prop := state.hasFreeSlot ∧ state.queue ≠ []

instance (state : LaneState) : Decidable state.pumpable := inferInstanceAs (Decidable (_ ∧ _))

/-- The new limit of `setCommandLaneConcurrency`; probe lanes keep at least one slot. -/
def resolveMaxConcurrent (lane : String) (maxConcurrent : JsNumber) : JsNumber :=
  JsNumber.max (.ofNat (if isQuietProbeLane lane then 1 else 0)) maxConcurrent.floor

/-- The task ids active in some lane. -/
def QueueState.activeIds (q : QueueState) : Finset ℕ :=
  q.lanes.values.foldr (fun state ids => state.activeTaskIds ∪ ids) ∅

/-- `hasPendingActiveTasks`. -/
def QueueState.hasPendingActiveTasks (q : QueueState) (taskIds : Finset ℕ) : Bool :=
  q.lanes.values.any fun state => decide (∃ taskId ∈ state.activeTaskIds, taskId ∈ taskIds)

end Flashclaw.CommandQueue
