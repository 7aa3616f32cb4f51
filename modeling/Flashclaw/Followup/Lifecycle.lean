import Flashclaw.Lib.Transition
import Mathlib.Logic.Function.Basic

/-!
# Turn adoption

`src/auto-reply/reply/queue/types.ts`: the lifecycle that queued runs share. A
run admits it, and the owner adopts the turn; or the run completes, and what was
never adopted is abandoned. The six weak collections of the module are fields
here, of what they hold about one lifecycle.

Microtasks run in any order, but for the reactions of one promise, which run in
the order they were added. While a callback of the owner is on the stack, it may
call what it likes: its end is a step of its own.
-/

namespace Flashclaw.Followup

/-- What is called and what is answered, in order. -/
inductive Event where
  | onDeferred
  | onCancellationRetired
  | completionRequested
  | admissionStarted
  | admissionSettled
  | adoptionStarted
  | adoptionSucceeded
  | adoptionFailed
  | onAbandoned
  | onSettled
  /-- A call of `admitFollowupRunLifecycle` returns, or throws. -/
  | admitEnded (returned : Bool)
  deriving DecidableEq, Repr

/-- How far the promise of an admission has come. -/
inductive Phase where
  /-- The callback of `then` has not run. -/
  | scheduled
  /-- `onAdopted` was called and is pending. -/
  | adopting
  /-- `onAdopted` has succeeded, and the callback has not gone on. -/
  | adopted
  /-- The callback has returned. -/
  | recorded
  /-- The callback has thrown. -/
  | refused
  | settled (fulfilled : Bool)
  deriving DecidableEq, Repr

def Phase.isSettled : Phase → Bool
  | .settled _ => true
  | _ => false

/-- What waits for the promise of an admission. -/
inductive Reaction where
  /-- The call that made it, which removes it from the map. -/
  | owner
  /-- A call that found it in the map. -/
  | joined
  /-- The callbacks of a completion. -/
  | finish
  deriving DecidableEq, Repr

structure Admission where
  phase : Phase
  reactions : List Reaction
  deriving DecidableEq, Repr

structure Lifecycle where
  enqueued : Bool
  admitted : Bool
  /-- The promise in `admittingTurnAdoptionLifecycles`. -/
  admitting : Option ℕ
  cancellationRetired : Bool
  completed : Bool
  completedCallbacks : Bool
  /-- Every promise of an admission there was. -/
  admissions : List Admission
  /-- Calls of `onDeferred` on the stack. -/
  deferring : ℕ
  /-- Completions on the stack that have yet to call `onSettled`. -/
  settling : ℕ
  log : List Event
  deriving DecidableEq, Repr

inductive Action where
  | markFollowupRunEnqueued
  | deferred (accepted : Bool)
  | retireFollowupRunCancellation
  | admitFollowupRunLifecycle
  | completeFollowupRunLifecycle
  | callOnSettled
  | runAdmission (id : ℕ)
  | endAdoption (id : ℕ) (succeeded : Bool)
  | recordAdmission (id : ℕ)
  | settleAdmission (id : ℕ)
  | runReaction (id : ℕ)
  deriving DecidableEq, Repr

namespace Lifecycle

def initial : Lifecycle where
  enqueued := false
  admitted := false
  admitting := none
  cancellationRetired := false
  completed := false
  completedCallbacks := false
  admissions := []
  deferring := 0
  settling := 0
  log := []

def emit (l : Lifecycle) (e : Event) : Lifecycle := { l with log := l.log ++ [e] }

def markFollowupRunEnqueued (l : Lifecycle) : Lifecycle :=
  if l.enqueued then l else { l.emit .onDeferred with deferring := l.deferring + 1 }

/-- `onDeferred` returns. What it rejects is not enqueued. -/
def deferred (accepted : Bool) (l : Lifecycle) : Option Lifecycle :=
  if l.deferring = 0 then none
  else some { l with deferring := l.deferring - 1, enqueued := l.enqueued || accepted }

def retireFollowupRunCancellation (l : Lifecycle) : Lifecycle :=
  if l.cancellationRetired then l
  else { l.emit .onCancellationRetired with cancellationRetired := true }

/-- Another reaction of a promise. -/
def addReaction (l : Lifecycle) (id : ℕ) (reaction : Reaction) : Lifecycle :=
  { l with admissions := l.admissions.modify id fun admission =>
      { admission with reactions := admission.reactions ++ [reaction] } }

def admitFollowupRunLifecycle (l : Lifecycle) : Lifecycle :=
  if l.admitted then l.emit (.admitEnded true)
  else
    match l.admitting with
    | some existing => l.addReaction existing .joined
    | none =>
      if l.completed then l.emit (.admitEnded false)
      else
        { l.emit .admissionStarted with
          admissions := l.admissions ++ [⟨.scheduled, [.owner]⟩]
          admitting := some l.admissions.length }

/-- `finish`, up to its call of `onSettled`. -/
def finish (l : Lifecycle) : Lifecycle :=
  if l.completedCallbacks then l
  else
    { l with
      completedCallbacks := true
      settling := l.settling + 1
      log := if l.admitted then l.log else l.log ++ [.onAbandoned] }

/-- Completion closes future admission at once. -/
def requestCompletion (l : Lifecycle) : Lifecycle :=
  { l.emit .completionRequested with completed := true }

def completeFollowupRunLifecycle (l : Lifecycle) : Lifecycle :=
  match l.admitting with
  | none => l.requestCompletion.finish
  | some admission => l.requestCompletion.addReaction admission .finish

/-- `onAbandoned` has returned or thrown, or was not to be called. -/
def callOnSettled (l : Lifecycle) : Option Lifecycle :=
  if l.settling = 0 then none else some { l.emit .onSettled with settling := l.settling - 1 }

def setPhase (l : Lifecycle) (id : ℕ) (phase : Phase) : Lifecycle :=
  { l with admissions := l.admissions.modify id fun admission => { admission with phase := phase } }

/-- The phase of a promise. -/
def phase? (l : Lifecycle) (id : ℕ) : Option Phase := (l.admissions[id]?).map Admission.phase

/-- The callback of an admission up to its `await`. -/
def runAdmission (id : ℕ) (l : Lifecycle) : Option Lifecycle :=
  if l.phase? id = some .scheduled then
    if l.admitted then some (l.setPhase id .recorded)
    else some ((l.emit .adoptionStarted).setPhase id .adopting)
  else none

/-- The promise of `onAdopted` settles; where it throws at once, it fails at once. -/
def endAdoption (id : ℕ) (succeeded : Bool) (l : Lifecycle) : Option Lifecycle :=
  if l.phase? id = some .adopting then
    if succeeded then some ((l.emit .adoptionSucceeded).setPhase id .adopted)
    else some ((l.emit .adoptionFailed).setPhase id .refused)
  else none

/-- The callback of an admission after its `await`. -/
def recordAdmission (id : ℕ) (l : Lifecycle) : Option Lifecycle :=
  if l.phase? id = some .adopted then
    some { l.setPhase id .recorded with admitted := true }
  else none

def settleAdmission (id : ℕ) (l : Lifecycle) : Option Lifecycle :=
  if l.phase? id = some .recorded then
    some ((l.emit .admissionSettled).setPhase id (.settled true))
  else if l.phase? id = some .refused then
    some ((l.emit .admissionSettled).setPhase id (.settled false))
  else none

/-- What a reaction does once the promise has settled. -/
def react (fulfilled : Bool) (l : Lifecycle) : Reaction → Lifecycle
  | .owner => { l.emit (.admitEnded fulfilled) with admitting := none }
  | .joined => l.emit (.admitEnded fulfilled)
  | .finish => l.finish

def setAdmission (l : Lifecycle) (id : ℕ) (admission : Admission) : Lifecycle :=
  { l with admissions := l.admissions.set id admission }

/-- The next reaction of a settled promise. -/
def runReaction (id : ℕ) (l : Lifecycle) : Option Lifecycle :=
  match l.admissions[id]? with
  | some ⟨.settled fulfilled, reaction :: reactions⟩ =>
    some ((l.setAdmission id ⟨.settled fulfilled, reactions⟩).react fulfilled reaction)
  | _ => none

def step (l : Lifecycle) : Action → Option Lifecycle
  | .markFollowupRunEnqueued => some l.markFollowupRunEnqueued
  | .deferred accepted => l.deferred accepted
  | .retireFollowupRunCancellation => some l.retireFollowupRunCancellation
  | .admitFollowupRunLifecycle => some l.admitFollowupRunLifecycle
  | .completeFollowupRunLifecycle => some l.completeFollowupRunLifecycle
  | .callOnSettled => l.callOnSettled
  | .runAdmission id => l.runAdmission id
  | .endAdoption id succeeded => l.endAdoption id succeeded
  | .recordAdmission id => l.recordAdmission id
  | .settleAdmission id => l.settleAdmission id
  | .runReaction id => l.runReaction id

end Lifecycle

/-- A queued run, or a copy of one, with the lifecycle it may share with others. -/
structure FollowupLifecycleRun (L : Type*) where
  turnAdoptionLifecycle : Option L

/-- All lifecycles. A call for a run without one does nothing. -/
def lifecycles (L : Type*) [DecidableEq L] :
    TransitionSystem (L → Lifecycle) (FollowupLifecycleRun L × Action) where
  start := fun _ => .initial
  step s call :=
    match call.1.turnAdoptionLifecycle with
    | none => some s
    | some l => ((s l).step call.2).map (Function.update s l)

end Flashclaw.Followup
