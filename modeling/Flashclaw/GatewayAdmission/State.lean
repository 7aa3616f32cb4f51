import Flashclaw.Lib.Transition
import Mathlib.Data.Finset.Card
import Mathlib.Logic.Function.Basic

/-!
# Gateway work admission: the machine

`process/gateway-work-admission.ts`.  Admissions, release handles and waiters
are numbered in the order they are made, and a lease is its generation.  The
admission `currentRootWork.getStore()` sees is an argument of every call.  The
only user code run inside a call is the `onInvalidated` callback, so the stack
of calls in progress is a stack of such callbacks; a `run` argument is called
when nothing of its call is left to do but to await it.
-/

namespace Flashclaw.GatewayAdmission

inductive SuspendPhase where
  | accepting
  | preparing
  | prepared
deriving DecidableEq

structure GatewayRootWorkAdmission where
  references : ℤ
  released : Bool
deriving DecidableEq

/-- A closure of `createGatewayRootWorkRelease`. -/
structure ReleaseHandle where
  admission : ℕ
  leaseReleased : Bool
deriving DecidableEq

/-- The loops that wait for admission to open, with the admission they run under. -/
inductive Attempt where
  | rootWorkWhenOpen (current : Option ℕ)
  | independentRootWork
deriving DecidableEq

structure OpenWaiter where
  id : ℕ
  attempt : Attempt
deriving DecidableEq

/-- A call that is running the `onInvalidated` callback. -/
inductive Frame where
  | markGatewayRestartDraining
  | resetGatewayWorkAdmission
deriving DecidableEq

/-- The module's state.  Admissions and handles not yet made are spent ones; `woken` are the
waiters resolved whose loop has not gone on, `drained` the root-drain waiters resolved. -/
structure State where
  restartDraining : Bool
  restartSignalPending : Bool
  restartSignalGeneration : ℕ
  suspendPhase : SuspendPhase
  suspendGeneration : ℕ
  suspendInvalidated : Bool
  activeRootWork : Finset ℕ
  rootDrainWaiters : List ℕ
  suspendOpenWaiters : List OpenWaiter
  admission : ℕ → GatewayRootWorkAdmission
  nextAdmission : ℕ
  handle : ℕ → ReleaseHandle
  nextHandle : ℕ
  nextWaiter : ℕ
  woken : List OpenWaiter
  drained : List ℕ
  stack : List Frame

/-- What a call returns; `waiting` is a promise that is still pending. -/
inductive Reply where
  | undefined
  | null
  | bool (b : Bool)
  | rootLease (handle : ℕ)
  | nestedRootLease
  | release (handle : ℕ)
  | suspendLease (generation : ℕ)
  | restartSignalLease (generation : ℕ)
  | waiting (id : ℕ)
  | drain (drained : Bool) (active : ℕ)
  | error (message : String)
deriving DecidableEq

inductive Call where
  | markGatewayRestartDraining
  | beginGatewayRestartSignalAdmission
  | restartSignalRollback (generation : ℕ)
  | rollbackGatewayRestartSignalFence
  | tryBeginGatewayRootWorkAdmission
  | beginGatewayRootWorkAdmissionWhenOpen
  | runWithGatewayIndependentRootWorkAdmission
  | runWithGatewayIndependentRootWorkContinuation
  | retainGatewayRootWorkAdmissionContinuation
  | release (handle : ℕ)
  | waitForActiveGatewayRootWork (timeoutIsZero : Bool)
  | tryBeginGatewaySuspendAdmission
  | suspendCommit (generation : ℕ)
  | suspendRollback (generation : ℕ)
  | suspendRelease (generation : ℕ)
  | resetGatewayWorkAdmission
deriving DecidableEq

inductive Label where
  | call (current : Option ℕ) (c : Call)
  /-- The loop of a resolved waiter goes on. -/
  | retry (waiter : OpenWaiter)
  /-- The timer of a root-drain waiter fires. -/
  | drainTimeout (id : ℕ)
  /-- The topmost `onInvalidated` callback returns or throws. -/
  | callbackReturn (throws : Bool)
deriving DecidableEq

namespace State

def initial : State where
  restartDraining := false
  restartSignalPending := false
  restartSignalGeneration := 0
  suspendPhase := .accepting
  suspendGeneration := 0
  suspendInvalidated := false
  activeRootWork := ∅
  rootDrainWaiters := []
  suspendOpenWaiters := []
  admission := fun _ => ⟨0, true⟩
  nextAdmission := 0
  handle := fun _ => ⟨0, true⟩
  nextHandle := 0
  nextWaiter := 0
  woken := []
  drained := []
  stack := []

def isGatewayWorkAdmissionClosed (s : State) : Bool :=
  s.restartDraining || s.restartSignalPending || s.suspendPhase ≠ .accepting

/-- The admission a call runs under, if it is not released. -/
def live (s : State) (current : Option ℕ) : Option ℕ :=
  current.filter fun a => !(s.admission a).released

def resolveRootDrainWaiters (s : State) : State :=
  { s with rootDrainWaiters := [], drained := s.drained ++ s.rootDrainWaiters }

def resolveSuspendOpenWaiters (s : State) : State :=
  { s with suspendOpenWaiters := [], woken := s.woken ++ s.suspendOpenWaiters }

/-- `createGatewayRootWorkRelease`, the handle being `s.nextHandle`. -/
def createGatewayRootWorkRelease (s : State) (admission : ℕ) : State :=
  { s with
    handle := Function.update s.handle s.nextHandle ⟨admission, false⟩
    nextHandle := s.nextHandle + 1 }

def createGatewayRootWorkAdmission (s : State) : State :=
  createGatewayRootWorkRelease { s with
    admission := Function.update s.admission s.nextAdmission ⟨1, false⟩
    nextAdmission := s.nextAdmission + 1
    activeRootWork := insert s.nextAdmission s.activeRootWork } s.nextAdmission

/-- A call of a release handle. -/
def release (s : State) (handle : ℕ) : State :=
  let h := s.handle handle
  let admission := s.admission h.admission
  if h.leaseReleased || admission.released then s
  else
    let references := admission.references - 1
    let spent := { s with handle := Function.update s.handle handle { h with leaseReleased := true } }
    if 0 < references then
      { spent with
        admission := Function.update s.admission h.admission { admission with references } }
    else
      let activeRootWork := s.activeRootWork.erase h.admission
      let gone := { spent with
        admission := Function.update s.admission h.admission ⟨references, true⟩
        activeRootWork }
      if activeRootWork = ∅ then gone.resolveRootDrainWaiters else gone

/-- `invalidateSuspendAdmission`; the callback, if any, runs in the given frame. -/
def invalidateSuspendAdmission (s : State) (frame : Frame) : State :=
  let accepting := { s with
    suspendInvalidated := false
    suspendPhase := .accepting
    suspendGeneration := s.suspendGeneration + 1 }.resolveSuspendOpenWaiters
  if s.suspendInvalidated then { accepting with stack := frame :: s.stack } else accepting

def clearRestartSignalFence (s : State) : State × Reply :=
  if s.restartDraining || !s.restartSignalPending then (s, .bool false)
  else
    ({ s with
      restartSignalPending := false
      restartSignalGeneration := s.restartSignalGeneration + 1 }.resolveSuspendOpenWaiters,
      .bool true)

def markGatewayRestartDraining (s : State) : State :=
  if s.restartDraining then s
  else
    let draining := { s with
      restartSignalPending := false
      restartSignalGeneration := s.restartSignalGeneration + 1
      restartDraining := true }.resolveSuspendOpenWaiters
    if s.suspendPhase ≠ .accepting then
      draining.invalidateSuspendAdmission .markGatewayRestartDraining
    else draining

def beginGatewayRestartSignalAdmission (s : State) : State × Reply :=
  if s.restartDraining || s.restartSignalPending then (s, .null)
  else
    let generation := s.restartSignalGeneration + 1
    ({ s with restartSignalPending := true, restartSignalGeneration := generation },
      .restartSignalLease generation)

/-- `rollback` of the restart-signal lease of that generation. -/
def restartSignalRollback (s : State) (generation : ℕ) : State × Reply :=
  if !s.restartSignalPending || s.restartSignalGeneration ≠ generation then (s, .bool false)
  else s.clearRestartSignalFence

def tryBeginGatewayIndependentRootWorkAdmission (s : State) : State × Reply :=
  if s.isGatewayWorkAdmissionClosed then (s, .null)
  else (s.createGatewayRootWorkAdmission, .rootLease s.nextHandle)

def tryBeginGatewayRootWorkAdmission (s : State) (current : Option ℕ) : State × Reply :=
  if (s.live current).isSome then (s, .nestedRootLease)
  else s.tryBeginGatewayIndependentRootWorkAdmission

/-- Wait for admission to open. -/
def await (s : State) (attempt : Attempt) : State × Reply :=
  ({ s with
    nextWaiter := s.nextWaiter + 1
    suspendOpenWaiters := s.suspendOpenWaiters ++ [⟨s.nextWaiter, attempt⟩] },
    .waiting s.nextWaiter)

/-- One round of the loop of `beginGatewayRootWorkAdmissionWhenOpen` or of
`runWithGatewayIndependentRootWorkAdmission`. -/
def attempt (s : State) : Attempt → State × Reply
  | .rootWorkWhenOpen current =>
    if s.restartDraining then (s, .error "Gateway is draining; new tasks are not accepted")
    else
      match s.tryBeginGatewayRootWorkAdmission current with
      | (_, .null) => s.await (.rootWorkWhenOpen current)
      | admitted => admitted
  | .independentRootWork =>
    if s.restartDraining then (s, .error "gateway is draining for restart")
    else
      match s.tryBeginGatewayIndependentRootWorkAdmission with
      | (_, .null) => s.await .independentRootWork
      | admitted => admitted

def runWithGatewayIndependentRootWorkContinuation (s : State) (current : Option ℕ) :
    State × Reply :=
  if (s.live current).isSome then (s.createGatewayRootWorkAdmission, .rootLease s.nextHandle)
  else s.attempt .independentRootWork

def retainGatewayRootWorkAdmissionContinuation (s : State) (current : Option ℕ) : State × Reply :=
  match s.live current with
  | none => (s, .null)
  | some a =>
    let admission := s.admission a
    let retained := { s with
      admission := Function.update s.admission a
        { admission with references := admission.references + 1 } }
    (retained.createGatewayRootWorkRelease a, .release s.nextHandle)

def waitForActiveGatewayRootWork (s : State) (timeoutIsZero : Bool) : State × Reply :=
  if s.activeRootWork = ∅ then (s, .drain true 0)
  else if timeoutIsZero then (s, .drain false s.activeRootWork.card)
  else
    ({ s with
      nextWaiter := s.nextWaiter + 1
      rootDrainWaiters := s.rootDrainWaiters ++ [s.nextWaiter] }, .waiting s.nextWaiter)

def tryBeginGatewaySuspendAdmission (s : State) : State × Reply :=
  if s.isGatewayWorkAdmissionClosed then (s, .null)
  else
    let generation := s.suspendGeneration + 1
    ({ s with
      suspendPhase := .preparing
      suspendGeneration := generation
      suspendInvalidated := true }, .suspendLease generation)

/-- `transition` of the suspend lease of that generation. -/
def transition (s : State) (generation : ℕ) (expected next : SuspendPhase) : State × Reply :=
  if s.suspendGeneration ≠ generation || s.suspendPhase ≠ expected then (s, .bool false)
  else
    let moved := { s with suspendPhase := next }
    if next = .accepting then
      ({ moved with suspendInvalidated := false }.resolveSuspendOpenWaiters, .bool true)
    else (moved, .bool true)

/-- `resetGatewayWorkAdmission` up to the final `resolveSuspendOpenWaiters`, where the callback
leaves that to its return. -/
def resetGatewayWorkAdmission (s : State) : State :=
  let retired := { s with
    admission := fun a => if a ∈ s.activeRootWork then ⟨0, true⟩ else s.admission a
    activeRootWork := ∅ }.resolveRootDrainWaiters
  let reopened := { retired with
    restartDraining := false
    restartSignalPending := false
    restartSignalGeneration := s.restartSignalGeneration + 1 }
  if s.suspendPhase ≠ .accepting then
    let invalidated := reopened.invalidateSuspendAdmission .resetGatewayWorkAdmission
    if s.suspendInvalidated then invalidated else invalidated.resolveSuspendOpenWaiters
  else
    { reopened with
      suspendGeneration := s.suspendGeneration + 1
      suspendInvalidated := false }.resolveSuspendOpenWaiters

/-- A call of the module under the admission `current`. -/
def perform (s : State) (current : Option ℕ) : Call → State × Reply
  | .markGatewayRestartDraining => (s.markGatewayRestartDraining, .undefined)
  | .beginGatewayRestartSignalAdmission => s.beginGatewayRestartSignalAdmission
  | .restartSignalRollback generation => s.restartSignalRollback generation
  | .rollbackGatewayRestartSignalFence => s.clearRestartSignalFence
  | .tryBeginGatewayRootWorkAdmission => s.tryBeginGatewayRootWorkAdmission current
  | .beginGatewayRootWorkAdmissionWhenOpen => s.attempt (.rootWorkWhenOpen current)
  | .runWithGatewayIndependentRootWorkAdmission => s.attempt .independentRootWork
  | .runWithGatewayIndependentRootWorkContinuation =>
    s.runWithGatewayIndependentRootWorkContinuation current
  | .retainGatewayRootWorkAdmissionContinuation =>
    s.retainGatewayRootWorkAdmissionContinuation current
  | .release handle => (s.release handle, .undefined)
  | .waitForActiveGatewayRootWork timeoutIsZero => s.waitForActiveGatewayRootWork timeoutIsZero
  | .tryBeginGatewaySuspendAdmission => s.tryBeginGatewaySuspendAdmission
  | .suspendCommit generation => s.transition generation .preparing .prepared
  | .suspendRollback generation => s.transition generation .preparing .accepting
  | .suspendRelease generation => s.transition generation .prepared .accepting
  | .resetGatewayWorkAdmission => (s.resetGatewayWorkAdmission, .undefined)

def step (s : State) : Label → Option State
  | .call current c => some (s.perform current c).1
  | .retry waiter =>
    if s.stack = [] ∧ waiter ∈ s.woken then
      some ({ s with woken := s.woken.erase waiter }.attempt waiter.attempt).1
    else none
  | .drainTimeout id =>
    if s.stack = [] ∧ id ∈ s.rootDrainWaiters then
      some { s with rootDrainWaiters := s.rootDrainWaiters.erase id }
    else none
  | .callbackReturn throws =>
    match s.stack with
    | [] => none
    | frame :: rest =>
      let returned := { s with stack := rest }
      if frame = .resetGatewayWorkAdmission ∧ throws = false then
        some returned.resolveSuspendOpenWaiters
      else some returned

end State

/-- The admission module of one process. -/
def machine : TransitionSystem State Label where
  start := State.initial
  step := State.step

end Flashclaw.GatewayAdmission
