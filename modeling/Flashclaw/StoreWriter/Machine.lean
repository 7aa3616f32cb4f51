import Mathlib.Data.Finset.Basic
import Mathlib.Logic.Function.Basic
import Flashclaw.Lib.Transition

/-!
# The store writer queue: the machine

`shared/store-writer-queue.ts`.  A queued write is a task that the drain loop of
its path starts, and the loop starts tasks in the async context it was itself
started in.  JavaScript runs one function at a time: the functions that were
called and did not yet give back their promise are on a stack, and a writer
ends, a loop goes on and a promise settles only when no function is on it.

Calls are numbered as they are made, and the writer of a queued call has its
number.
-/

namespace Flashclaw.StoreWriter

/-- A map of queues, and a path in it. -/
structure StoreKey where
  queues : ℕ
  storePath : String
deriving DecidableEq

/-- The async context that a function runs in.  A writer's `parent` is the context of the drain
loop that started it; `caller`, that of the call that queued it, is not known to the code. -/
inductive Context where
  | root
  | writer (call : ℕ) (key : StoreKey) (parent caller : Context)
deriving DecidableEq

structure StoreWriterTask where
  call : ℕ
  /-- Where the call was made, and whether it was reentrant. -/
  context : Context
  reentrant : Bool
deriving DecidableEq

structure StoreWriterQueue where
  running : Bool
  pending : List StoreWriterTask
  drainPromise : Bool
deriving DecidableEq

/-- A drain loop that waits for a task, with the task's outcome once it has one. -/
structure Drain (ε τ : Type) where
  queue : ℕ
  key : StoreKey
  context : Context
  task : StoreWriterTask
  ended : Option (Except ε τ)

/-- A task's function that runs and did not give back a promise yet.  The first task of a drain
loop runs before the loop's own promise is there. -/
structure Frame where
  queue : ℕ
  call : ℕ
  first : Bool
deriving DecidableEq

/-- A reentrant call whose function was called at once. -/
structure DirectCall where
  call : ℕ
  key : StoreKey
  context : Context
deriving DecidableEq

inductive Settlement (ε τ : Type) where
  | outcome (o : Except ε τ)
  | invalidStorePath (message : String)

/-- The queues and what runs, and a log of what calls, writers and promises did. -/
structure Runtime (ε τ : Type) where
  queues : StoreKey → Option ℕ
  objects : ℕ → StoreWriterQueue
  nextObject : ℕ
  nextCall : ℕ
  /-- The writers that are active. -/
  active : Finset ℕ
  contexts : List Context
  stack : List Frame
  drains : List (Drain ε τ)
  direct : List DirectCall
  microtasks : List (StoreKey × Context)
  queued : List (ℕ × StoreKey)
  started : List (ℕ × StoreKey)
  ended : List (ℕ × Except ε τ)
  settled : List (ℕ × Settlement ε τ)

/-- A writer of the path is active, in the context or in those it was started in. -/
def isActiveStoreWriter (active : Finset ℕ) (key : StoreKey) : Context → Bool
  | .root => false
  | .writer call key' parent _ =>
    (decide (call ∈ active) && decide (key' = key)) || isActiveStoreWriter active key parent

/-- A writer of the path is active, in the context or in those it was called in. -/
def isInside (active : Finset ℕ) (key : StoreKey) : Context → Bool
  | .root => false
  | .writer call key' _ caller =>
    (decide (call ∈ active) && decide (key' = key)) || isInside active key caller

/-- The writers that a context is called in. -/
def Context.callers : Context → List ℕ
  | .root => []
  | .writer call _ _ caller => call :: caller.callers

section Runtime

variable {ε τ : Type}

namespace Runtime

def initial : Runtime ε τ where
  queues _ := none
  objects _ := ⟨false, [], false⟩
  nextObject := 0
  nextCall := 0
  active := ∅
  contexts := []
  stack := []
  drains := []
  direct := []
  microtasks := []
  queued := []
  started := []
  ended := []
  settled := []

def setQueue (s : Runtime ε τ) (ref : ℕ) (queue : StoreWriterQueue) : Runtime ε τ :=
  { s with objects := Function.update s.objects ref queue }

def settle (s : Runtime ε τ) (call : ℕ) (settlement : Settlement ε τ) : Runtime ε τ :=
  { s with settled := s.settled ++ [(call, settlement)] }

/-- `runActiveStoreWriter` of the task, up to what its function does. -/
def startTask (s : Runtime ε τ) (ref : ℕ) (key : StoreKey) (context : Context)
    (task : StoreWriterTask) (first : Bool) : Runtime ε τ :=
  { s with
    active := insert task.call s.active
    contexts := s.contexts ++ [.writer task.call key context task.context]
    stack := ⟨ref, task.call, first⟩ :: s.stack
    drains := s.drains ++ [⟨ref, key, context, task, none⟩]
    started := s.started ++ [(task.call, key)] }

/-- The end of a drain loop.  A loop that is over before it gave back its promise leaves that
promise behind. -/
def finishDrain (s : Runtime ε τ) (ref : ℕ) (key : StoreKey) (context : Context) (first : Bool) :
    Runtime ε τ :=
  let s := s.setQueue ref { s.objects ref with running := false, drainPromise := first }
  if (s.objects ref).pending = [] then { s with queues := Function.update s.queues key none }
  else { s with microtasks := s.microtasks ++ [(key, context)] }

/-- The drain loop up to the task that it waits for next. -/
def drainLoop (s : Runtime ε τ) (ref : ℕ) (key : StoreKey) (context : Context) (first : Bool) :
    Runtime ε τ :=
  match (s.objects ref).pending with
  | [] => s.finishDrain ref key context first
  | task :: pending =>
    (s.setQueue ref { s.objects ref with pending }).startTask ref key context task first

def drainStoreWriterQueue (s : Runtime ε τ) (key : StoreKey) (context : Context) : Runtime ε τ :=
  match s.queues key with
  | none => s
  | some ref =>
    if (s.objects ref).drainPromise then s
    else (s.setQueue ref { s.objects ref with running := true }).drainLoop ref key context true

def getOrCreateStoreWriterQueue (s : Runtime ε τ) (key : StoreKey) : Runtime ε τ × ℕ :=
  match s.queues key with
  | some ref => (s, ref)
  | none =>
    ({ s with
        queues := Function.update s.queues key (some s.nextObject)
        objects := Function.update s.objects s.nextObject ⟨false, [], false⟩
        nextObject := s.nextObject + 1 },
      s.nextObject)

def pushTask (s : Runtime ε τ) (ref : ℕ) (key : StoreKey) (task : StoreWriterTask) :
    Runtime ε τ :=
  { s.setQueue ref { s.objects ref with pending := (s.objects ref).pending ++ [task] } with
    queued := s.queued ++ [(task.call, key)] }

/-- The call goes to the queue of its path. -/
def enqueue (s : Runtime ε τ) (key : StoreKey) (task : StoreWriterTask) : Runtime ε τ :=
  let created := s.getOrCreateStoreWriterQueue key
  (created.1.pushTask created.2 key task).drainStoreWriterQueue key task.context

def runQueuedStoreWrite (s : Runtime ε τ) (context : Context) (key : StoreKey) (label : String)
    (reentrant : Bool) : Runtime ε τ :=
  let call := s.nextCall
  let s := { s with nextCall := s.nextCall + 1 }
  if key.storePath = "" then
    s.settle call
      (.invalidStorePath (label ++ ": storePath must be a non-empty string, got \"\""))
  else if reentrant && isActiveStoreWriter s.active key context then
    { s with direct := s.direct ++ [⟨call, key, context⟩] }
  else s.enqueue key ⟨call, context, reentrant⟩

/-- The function of the task on top of the stack gives back its promise. -/
def popFrame (s : Runtime ε τ) (frame : Frame) (stack : List Frame) : Runtime ε τ :=
  if frame.first then
    { s.setQueue frame.queue { s.objects frame.queue with drainPromise := true } with stack }
  else { s with stack }

/-- The writer is no longer active. -/
def endWriter (s : Runtime ε τ) (call : ℕ) (outcome : Except ε τ) : Runtime ε τ :=
  { s with
    active := s.active.erase call
    drains := s.drains.map fun d =>
      if d.task.call = call then { d with ended := some outcome } else d
    ended := s.ended ++ [(call, outcome)] }

/-- The drain loop that a task's end wakes settles its promise and goes on. -/
def resumeDrain (s : Runtime ε τ) (d : Drain ε τ) (outcome : Except ε τ) : Runtime ε τ :=
  (({ s with drains := s.drains.eraseP fun d' => d'.task.call = d.task.call }).settle d.task.call
    (.outcome outcome)).drainLoop d.queue d.key d.context false

def settleDirect (s : Runtime ε τ) (call : ℕ) (outcome : Except ε τ) : Runtime ε τ :=
  { s with
    direct := s.direct.eraseP fun e => e.call = call
    ended := s.ended ++ [(call, outcome)]
    settled := s.settled ++ [(call, .outcome outcome)] }

end Runtime

inductive Label (ε τ : Type) where
  /-- User code calls the queue, from a context that there is. -/
  | call (context : Context) (key : StoreKey) (label : String) (reentrant : Bool)
  /-- The function on top of the stack gives back a promise, or throws. -/
  | fnReturns
  | fnThrows (reason : ε)
  /-- The promise of a task's function settled, and `runActiveStoreWriter` ends. -/
  | writerEnds (call : ℕ) (outcome : Except ε τ)
  | drainResumes (call : ℕ)
  /-- The promise of the function of a reentrant call settled. -/
  | directSettles (call : ℕ) (outcome : Except ε τ)
  | microtask

/-- The drain loop that waits for the writer of a call. -/
def findDrain (s : Runtime ε τ) (call : ℕ) : Option (Drain ε τ) :=
  s.drains.find? fun d => d.task.call = call

def step (s : Runtime ε τ) : Label ε τ → Option (Runtime ε τ)
  | .call context key label reentrant =>
    if context = .root ∨ context ∈ s.contexts then
      some (s.runQueuedStoreWrite context key label reentrant)
    else none
  | .fnReturns =>
    match s.stack with
    | [] => none
    | frame :: stack => some (s.popFrame frame stack)
  | .fnThrows reason =>
    match s.stack with
    | [] => none
    | frame :: stack => some ((s.popFrame frame stack).endWriter frame.call (.error reason))
  | .writerEnds call outcome =>
    if s.stack = [] ∧ call ∈ s.active then some (s.endWriter call outcome) else none
  | .drainResumes call =>
    if s.stack = [] then
      (findDrain s call).bind fun d => d.ended.map fun outcome => s.resumeDrain d outcome
    else none
  | .directSettles call outcome =>
    if s.stack = [] ∧ s.direct.any (·.call = call) = true then some (s.settleDirect call outcome)
    else none
  | .microtask =>
    if s.stack = [] then
      match s.microtasks with
      | [] => none
      | (key, context) :: microtasks =>
        some ({ s with microtasks }.drainStoreWriterQueue key context)
    else none

def machine (ε τ : Type) : TransitionSystem (Runtime ε τ) (Label ε τ) := ⟨.initial, step⟩

end Runtime

end Flashclaw.StoreWriter
