import Flashclaw.CommandQueue.State
import Flashclaw.Lib.Transition

/-!
# Command lanes: the machine

JavaScript runs one call at a time, but a call can be suspended in the `onWait`
callback of an entry it is starting, or in the progress callback that
`runQueueEntryTask` reads before its first timer, and such a callback may call
the queue again.  The machine keeps the suspended calls on a stack.  User code
acts when no call is in progress or a callback is on top; otherwise `resume`
runs the topmost call up to its next effect.  `Date.now` is the argument of
`resume`.  A progress callback that an abort signal suppresses is one that
returns at once.

`resetAllLanes` begins with `resetGatewayWorkAdmission`, whose own callback
runs before any lane changes: calls made there are calls made before the reset.
-/

namespace Flashclaw.CommandQueue

/-- A call in progress, as what is left of it. -/
inductive Frame where
  /-- The loop of `pump`.  `waiting` is the entry shifted off whose `onWait` is running, with
  the next sequence number at the time it was shifted. -/
  | pump (lane : String) (waiting : Option (QueueEntry × ℕ))
  /-- `taskTimeoutProgressAtMs` of the task just started. -/
  | progress
  /-- `resetCommandLane` up to its final notification. -/
  | resetCommandLane
  /-- `resetAllLanes` with the lanes it still has to drain. -/
  | resetAllLanes (lanesToDrain : List String)
  /-- A completion handler up to `entry.resolve` or `entry.reject`. -/
  | settleEntry (entry : QueueEntry) (outcome : Outcome)
deriving DecidableEq

/-- A started task whose handler waits for `runQueueEntryTask`. -/
structure RunningTask where
  lane : String
  taskId : ℕ
  taskGeneration : ℕ
  entry : QueueEntry
deriving DecidableEq

/-- The queue state, the calls in progress, the tasks in flight, and the log of what promises
and tasks were told. -/
structure Runtime where
  queue : QueueState
  stack : List Frame
  running : List RunningTask
  nextWaiterId : ℕ
  started : List ℕ
  settled : List (ℕ × Settlement)
  waiters : List (ℕ × Finset ℕ)
  drained : List ℕ
  timedOut : List ℕ

/-- The queue functions user code can call. -/
inductive Call where
  | enqueueCommandInLane (lane : String) (opts : EnqueueOptions) (admissionClosed : Bool) (now : ℤ)
  | setCommandLaneConcurrency (lane : String) (maxConcurrent : JsNumber)
  | clearCommandLane (lane : String)
  | resetCommandLane (lane : String)
  | resetAllLanes
  | waitForActiveTasks (timeoutMs : Option JsNumber)
deriving DecidableEq

inductive Label where
  | call (c : Call)
  | resume (now : ℤ)
  /-- The `onWait` callback on top of the stack returns or throws. -/
  | onWaitReturn
  /-- The progress callback on top of the stack returns or throws. -/
  | progressReturn
  /-- `runQueueEntryTask` settles and its handler runs. -/
  | taskSettled (taskId : ℕ) (outcome : Outcome)
  /-- The timer of a waiter fires. -/
  | waiterTimeout (id : ℕ)
deriving DecidableEq

namespace Runtime

def initial : Runtime where
  queue := { lanes := .empty, activeTaskWaiters := [], nextTaskId := 1, nextQueueSequence := 1 }
  stack := []
  running := []
  nextWaiterId := 0
  started := []
  settled := []
  waiters := []
  drained := []
  timedOut := []

def lane (rt : Runtime) (name : String) : LaneState := rt.queue.getLaneState name

def setLane (rt : Runtime) (name : String) (state : LaneState) : Runtime :=
  { rt with queue := rt.queue.setLaneState name state }

def setStack (rt : Runtime) (stack : List Frame) : Runtime := { rt with stack }

def push (rt : Runtime) (f : Frame) : Runtime := rt.setStack (f :: rt.stack)

/-- `queueState.nextQueueSequence++`. -/
def bumpSequence (rt : Runtime) : Runtime :=
  { rt with queue.nextQueueSequence := rt.queue.nextQueueSequence + 1 }

/-- `notifyActiveTaskWaiters`: resolve every waiter none of whose tasks is active. -/
def notifyActiveTaskWaiters (rt : Runtime) : Runtime :=
  let done : ActiveTaskWaiter → Bool := fun waiter =>
    waiter.activeTaskIds = ∅ || !rt.queue.hasPendingActiveTasks waiter.activeTaskIds
  { rt with
    queue.activeTaskWaiters := rt.queue.activeTaskWaiters.filter fun waiter => !done waiter
    drained := rt.drained ++ (rt.queue.activeTaskWaiters.filter done).map (·.id) }

/-- `drainLane` up to its first look at the queue; a lane already draining is left alone. -/
def drainLane (rt : Runtime) (name : String) : Runtime :=
  if (rt.lane name).draining then rt
  else (rt.setLane name { rt.lane name with draining := true }).push (.pump name none)

/-- The entry becomes an active task of the lane. -/
def activate (rt : Runtime) (name : String) (entry : QueueEntry) : Runtime :=
  let state := rt.lane name
  let taskId := rt.queue.nextTaskId
  let taken : Runtime := { rt with
    queue.nextTaskId := taskId + 1
    running := rt.running ++ [⟨name, taskId, state.generation, entry⟩]
    started := rt.started ++ [entry.sequence] }
  taken.setLane name { state with activeTaskIds := insert taskId state.activeTaskIds }

/-- The part of `pump` after `onWait`: the task is started and its progress callback called. -/
def startEntry (rt : Runtime) (name : String) (entry : QueueEntry) : Runtime :=
  if entry.taskTimeoutProgressAtMs then (rt.activate name entry).push .progress
  else rt.activate name entry

/-- One round of `pump`'s loop, on the stack `rest`. -/
def pumpLoop (rt : Runtime) (name : String) (rest : List Frame) (now : ℤ) : Runtime :=
  let state := rt.lane name
  if state.hasFreeSlot then
    match state.queue with
    | [] => (rt.setLane name { state with draining := false }).setStack rest
    | entry :: queue =>
      let shifted := rt.setLane name { state with queue }
      if entry.warnAfterMs ≤ JsNumber.ofInt (now - entry.enqueuedAt) ∧ entry.onWait then
        shifted.setStack (.pump name (some (entry, rt.queue.nextQueueSequence)) :: rest)
      else (shifted.setStack (.pump name none :: rest)).startEntry name entry
  else (rt.setLane name { state with draining := false }).setStack rest

def enqueueCommandInLane (rt : Runtime) (lane : String) (opts : EnqueueOptions)
    (admissionClosed : Bool) (now : ℤ) : Runtime :=
  if admissionClosed then rt
  else
    let cleaned := normalizeLane lane
    let entry : QueueEntry := .created rt.queue.nextQueueSequence opts now
    (rt.bumpSequence.setLane cleaned
      (enqueueLaneEntry (rt.lane cleaned) entry)).drainLane cleaned

def setCommandLaneConcurrency (rt : Runtime) (lane : String) (maxConcurrent : JsNumber) :
    Runtime :=
  let cleaned := normalizeLane lane
  let limit := resolveMaxConcurrent cleaned maxConcurrent
  let limited := rt.setLane cleaned { rt.lane cleaned with maxConcurrent := limit }
  if JsNumber.ofNat 0 < limit then limited.drainLane cleaned else limited

def clearCommandLane (rt : Runtime) (lane : String) : Runtime :=
  match rt.queue.lanes.get? (normalizeLane lane) with
  | none => rt
  | some state =>
    let rejected : Runtime := { rt with
      settled := rt.settled ++ state.queue.map fun entry => (entry.sequence, .cleared) }
    rejected.setLane (normalizeLane lane) { state with queue := [] }

def resetCommandLane (rt : Runtime) (lane : String) : Runtime :=
  match rt.queue.lanes.get? (normalizeLane lane) with
  | none => rt
  | some state =>
    let idle := (rt.setLane (normalizeLane lane) state.reset).push .resetCommandLane
    if state.queue ≠ [] then idle.drainLane (normalizeLane lane) else idle

def resetAllLanes (rt : Runtime) : Runtime :=
  let lanesToDrain := (rt.queue.lanes.values.filter fun state => state.queue ≠ []).map (·.lane)
  { rt with queue.lanes := rt.queue.lanes.mapValues .reset }.push (.resetAllLanes lanesToDrain)

def waitForActiveTasks (rt : Runtime) (timeoutMs : Option JsNumber) : Runtime :=
  let id := rt.nextWaiterId
  let activeAtStart := rt.queue.activeIds
  let created := { rt with
    nextWaiterId := id + 1
    waiters := rt.waiters ++ [(id, activeAtStart)] }
  if activeAtStart = ∅ then { created with drained := rt.drained ++ [id] }
  else if timeoutMs.any fun ms => decide (ms ≤ JsNumber.ofNat 0) then
    { created with timedOut := rt.timedOut ++ [id] }
  else
    let waiter : ActiveTaskWaiter := ⟨id, activeAtStart, timeoutMs.isSome⟩
    { created with queue.activeTaskWaiters := rt.queue.activeTaskWaiters ++ [waiter] }
      |>.notifyActiveTaskWaiters

def perform (rt : Runtime) : Call → Runtime
  | .enqueueCommandInLane lane opts closed now => rt.enqueueCommandInLane lane opts closed now
  | .setCommandLaneConcurrency lane n => rt.setCommandLaneConcurrency lane n
  | .clearCommandLane lane => rt.clearCommandLane lane
  | .resetCommandLane lane => rt.resetCommandLane lane
  | .resetAllLanes => rt.resetAllLanes
  | .waitForActiveTasks timeoutMs => rt.waitForActiveTasks timeoutMs

/-- User code is running: no call is in progress, or the topmost one is in a callback. -/
def inUserCode (rt : Runtime) : Bool :=
  match rt.stack with
  | [] => true
  | .pump _ (some _) :: _ => true
  | .progress :: _ => true
  | _ => false

def resume (rt : Runtime) (now : ℤ) : Option Runtime :=
  match rt.stack with
  | .pump name none :: rest => some (rt.pumpLoop name rest now)
  | .resetCommandLane :: rest => some (rt.setStack rest).notifyActiveTaskWaiters
  | .resetAllLanes (name :: names) :: rest =>
    some ((rt.setStack (.resetAllLanes names :: rest)).drainLane name)
  | .resetAllLanes [] :: rest => some (rt.setStack rest).notifyActiveTaskWaiters
  | .settleEntry entry outcome :: rest =>
    some ({ rt with settled := rt.settled ++ [(entry.sequence, outcome.settlement)] }.setStack rest)
  | _ => none

def onWaitReturn (rt : Runtime) : Option Runtime :=
  match rt.stack with
  | .pump name (some (entry, _)) :: rest =>
    some ((rt.setStack (.pump name none :: rest)).startEntry name entry)
  | _ => none

def progressReturn (rt : Runtime) : Option Runtime :=
  match rt.stack with
  | .progress :: rest => some (rt.setStack rest)
  | _ => none

/-- The completion handler.  Unlike `drainLane`, it pumps without taking the draining flag. -/
def taskSettled (rt : Runtime) (taskId : ℕ) (outcome : Outcome) : Option Runtime :=
  match rt.stack, rt.running.find? (·.taskId = taskId) with
  | [], some task =>
    let state := rt.lane task.lane
    let settling := { rt with running := rt.running.erase task }.push
      (.settleEntry task.entry outcome)
    if task.taskGeneration = state.generation then
      some (((settling.setLane task.lane (completeTask state taskId task.taskGeneration)
        ).notifyActiveTaskWaiters).push (.pump task.lane none))
    else some settling
  | _, _ => none

def waiterTimeout (rt : Runtime) (id : ℕ) : Option Runtime :=
  match rt.stack with
  | [] =>
    if rt.queue.activeTaskWaiters.any fun waiter => waiter.id = id && waiter.timeout then
      some { rt with
        queue.activeTaskWaiters := rt.queue.activeTaskWaiters.filter fun waiter => waiter.id ≠ id
        timedOut := rt.timedOut ++ [id] }
    else none
  | _ => none

def step (rt : Runtime) : Label → Option Runtime
  | .call c => if rt.inUserCode then some (rt.perform c) else none
  | .resume now => rt.resume now
  | .onWaitReturn => rt.onWaitReturn
  | .progressReturn => rt.progressReturn
  | .taskSettled taskId outcome => rt.taskSettled taskId outcome
  | .waiterTimeout id => rt.waiterTimeout id

end Runtime

/-- The command queue of one process. -/
def machine : TransitionSystem Runtime Label where
  start := Runtime.initial
  step := Runtime.step

end Flashclaw.CommandQueue
