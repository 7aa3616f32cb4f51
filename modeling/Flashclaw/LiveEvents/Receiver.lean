import Flashclaw.Lib.JsMap
import Flashclaw.Lib.Json
import Flashclaw.Lib.Utf8
import Mathlib.Data.Finset.Basic
import Mathlib.Data.Finset.Dedup
import Mathlib.Logic.Function.Basic

/-!
# Live events: the receiver

`createWorkerLiveEventReceiver` of `live-events.ts`.  Windows are numbered as they are
created, so that one that is no longer in the map can still be spoken of.  What the
registry of run contexts answers, and what the listeners of an event do, is free; the
data of events and their trajectories are left out.
-/

namespace Flashclaw.LiveEvents

open Utf16

structure WorkerLiveEventParams where
  runEpoch : ℕ
  lastAckedSeq : ℕ
  seq : ℕ
  runId : Utf16
  event : JsValue

structure WorkerConnectionIdentity where
  environmentId : Utf16
  credentialHash : Utf16
  ownerEpoch : ℕ
  sessionId : Option Utf16

structure PendingLiveEvent where
  request : WorkerLiveEventParams
  sizeBytes : ℕ

structure OwnedLiveRun where
  claimId : Utf16
  controlUiVisible : Bool
  lifecycleGeneration : Utf16

structure LiveEventTarget where
  agentId : Option Utf16
  sessionId : Utf16
  sessionKey : Utf16
  storePath : Utf16

structure WorkerLiveSessionBinding where
  environmentId : Utf16
  runEpoch : ℕ
  sessionId : Utf16

structure BoundLiveSession extends WorkerLiveSessionBinding where
  target : LiveEventTarget

/-- `origin` is no field of the code: the number that was acknowledged at the creation. -/
structure LiveEventWindow where
  activeRuns : JsMap Utf16 OwnedLiveRun
  ackedSeq : ℕ
  credentialHash : Utf16
  environmentId : Utf16
  pending : JsMap ℕ PendingLiveEvent
  pendingBytes : ℤ
  runEpoch : ℕ
  sessionId : Utf16
  target : LiveEventTarget
  terminalRuns : JsMap Utf16 ℕ
  origin : ℕ

inductive WorkerLiveEventFailure where
  | sessionNotAttached
  | epochMismatch
  | invalidEvent
  | capacityExceeded
  | resyncRequired (ackedSeq : ℕ)
deriving DecidableEq

/-- The acknowledged number, or why there is none. -/
abbrev WorkerLiveEventResult := Except WorkerLiveEventFailure ℕ

structure Options where
  windowSize : ℕ
  maxPendingBytes : ℕ
  maxSessions : ℕ
  maxActiveRuns : ℕ
  windowSize_pos : 0 < windowSize

def MAX_FENCED_ENVIRONMENTS : ℕ := 4096

def field (key : String) : JsValue → Option JsValue
  | .object fields => fields.lookup (ofString key)
  | _ => none

def isText (text : String) : Option JsValue → Bool
  | some (.string s) => s = ofString text
  | _ => false

def isTrue : Option JsValue → Bool
  | some (.boolean b) => b
  | _ => false

def isDefinitiveWorkerTerminalEvent (event : JsValue) : Bool :=
  let payload := (field "payload" event).getD .undefined
  isText "lifecycle" (field "kind" event) && (isText "end" (field "phase" payload) ||
    (isText "error" (field "phase" payload) && (isTrue (field "aborted" payload) ||
      isTrue (field "fallbackExhaustedFailure" payload))))

/-- `Buffer.byteLength(JSON.stringify(event), "utf8")` -/
def sizeBytes (event : JsValue) : ℕ := (Utf8.encode (Json.render event)).length

/-- What happens, in order; a `cleared` for each epoch that an environment loses. -/
inductive Entry where
  | published (window seq : ℕ) (runId environmentId : Utf16) (runEpoch : ℕ) (definitive : Bool)
  | cleared (environmentId : Utf16) (runEpoch : ℕ)

structure Receiver where
  heap : ℕ → LiveEventWindow
  created : ℕ
  windows : JsMap Utf16 ℕ
  boundSessions : JsMap Utf16 BoundLiveSession
  sessionBindings : JsMap Utf16 WorkerLiveSessionBinding
  fencedEnvironmentEpochs : JsMap Utf16 ℕ
  staleSessions : Finset Utf16
  startupOwners : JsMap Utf16 ℕ
  history : List Entry

namespace Receiver

def change (R : Receiver) (id : ℕ) (f : LiveEventWindow → LiveEventWindow) : Receiver :=
  { R with heap := Function.update R.heap id (f (R.heap id)) }

def releaseRun (R : Receiver) (id : ℕ) (runId : Utf16) : Receiver :=
  R.change id fun window => { window with activeRuns := window.activeRuns.delete runId }

def fenceReleasedRun (R : Receiver) (id : ℕ) (runId : Utf16) : Receiver :=
  (R.change id fun window =>
    if (window.terminalRuns.get? runId).isSome then window
    else { window with terminalRuns := window.terminalRuns.set runId window.ackedSeq }).releaseRun
      id runId

def clearWindow (R : Receiver) (id : ℕ) : Receiver :=
  { R with windows := R.windows.delete (R.heap id).sessionId }.change id fun window =>
    { window with
      activeRuns := .empty
      pending := .empty
      pendingBytes := 0
      terminalRuns := .empty }

/-- `resyncWindow` without its result. -/
def dropPending (R : Receiver) (id : ℕ) : Receiver :=
  R.change id fun window => { window with pending := .empty, pendingBytes := 0 }

def isValidLiveSessionBinding (binding : WorkerLiveSessionBinding) : Bool :=
  binding.environmentId ≠ [] && binding.sessionId ≠ []

/-- A window of another owner gives way to the binding. -/
def clearMoved (R : Receiver) (binding : WorkerLiveSessionBinding) : Receiver :=
  match R.windows.get? binding.sessionId with
  | none => R
  | some id =>
    if (R.heap id).environmentId ≠ binding.environmentId ||
        (R.heap id).runEpoch ≠ binding.runEpoch then R.clearWindow id
    else R

/-- The target of the window that the session retains. -/
def retarget (R : Receiver) (sessionId : Utf16) (target : LiveEventTarget) : Receiver :=
  match R.windows.get? sessionId with
  | none => R
  | some id => R.change id fun window => { window with target := target }

def setBinding (R : Receiver) (binding : WorkerLiveSessionBinding) (target : LiveEventTarget) :
    Receiver :=
  { R with
    sessionBindings := R.sessionBindings.set binding.sessionId binding
    boundSessions := R.boundSessions.set binding.sessionId ⟨binding, target⟩
    staleSessions := R.staleSessions.erase binding.sessionId }

/-- `resolve` gives the target of a session, if its config has one. -/
def bindSessionWithConfig (R : Receiver) (binding : WorkerLiveSessionBinding)
    (resolve : Utf16 → Option LiveEventTarget) : Receiver × Bool :=
  let existing := R.sessionBindings.get? binding.sessionId
  if !isValidLiveSessionBinding binding then (R, false)
  else if existing.any fun existing => binding.runEpoch < existing.runEpoch ||
      (binding.runEpoch = existing.runEpoch && binding.environmentId ≠ existing.environmentId) then
    (R, false)
  else
    match resolve binding.sessionId with
    | none =>
      if existing.any fun existing => existing.environmentId = binding.environmentId &&
          existing.runEpoch = binding.runEpoch then
        ({ R with staleSessions := insert binding.sessionId R.staleSessions }, false)
      else (R, false)
    | some target =>
      (((R.clearMoved binding).setBinding binding target).retarget binding.sessionId target, true)

def rebindAll (R : Receiver) (resolve : Utf16 → Option LiveEventTarget) : Receiver :=
  R.sessionBindings.values.foldl (fun R binding => (R.bindSessionWithConfig binding resolve).1) R

def clearSession (R : Receiver) (sessionId : Utf16) : Receiver :=
  match R.windows.get? sessionId with
  | none => R
  | some id => R.clearWindow id

def forgetStartupOwner (R : Receiver) (environmentId : Utf16) : Receiver :=
  { R with startupOwners := R.startupOwners.delete environmentId }

/-- The handler of session identity mutations, for the sessions that match one. -/
def identityMutated (R : Receiver) (isMatch : Utf16 → Bool)
    (resolve : Utf16 → Option LiveEventTarget) : Receiver :=
  R.sessionBindings.values.foldl (fun R binding =>
    if !isMatch binding.sessionId then R
    else
      let bound := R.bindSessionWithConfig binding resolve
      if bound.2 then bound.1
      else (bound.1.forgetStartupOwner binding.environmentId).clearSession binding.sessionId) R

/-- What `start` does behind its subscription. -/
def start (R : Receiver) (resolve : Utf16 → Option LiveEventTarget) : Receiver :=
  R.sessionBindings.values.foldl (fun R binding =>
    let bound := R.bindSessionWithConfig binding resolve
    if bound.2 then bound.1 else bound.1.forgetStartupOwner binding.environmentId) R

structure WorkerLiveCredentialRotation where
  credentialHash : Utf16
  environmentId : Utf16
  previousCredentialHash : Utf16
  runEpoch : ℕ
  sessionId : Utf16

def rotateCredential (R : Receiver) (rotation : WorkerLiveCredentialRotation) : Receiver :=
  if rotation.credentialHash = [] || rotation.environmentId = [] ||
      rotation.previousCredentialHash = [] || rotation.sessionId = [] then R
  else
    match R.windows.get? rotation.sessionId with
    | none => R
    | some id =>
      if (R.heap id).credentialHash = rotation.previousCredentialHash &&
          (R.heap id).environmentId = rotation.environmentId &&
          (R.heap id).runEpoch = rotation.runEpoch then
        R.change id fun window => { window with credentialHash := rotation.credentialHash }
      else R

/-- `onClearRequested` of the claim of a run. -/
def clearRequested (R : Receiver) (id : ℕ) (runId clearedClaimId : Utf16) : Receiver :=
  if ((R.heap id).activeRuns.get? runId).any (·.claimId = clearedClaimId) then
    R.fenceReleasedRun id runId
  else R

/-- The epochs that an environment has in a binding or in a window. -/
def epochsOf (R : Receiver) (environmentId : Utf16) : List ℕ :=
  (R.sessionBindings.values.filter (·.environmentId = environmentId)).map (·.runEpoch) ++
    (R.windows.values.filter fun id => (R.heap id).environmentId = environmentId).map
      fun id => (R.heap id).runEpoch

def unbind (R : Receiver) (environmentId : Utf16) : Receiver :=
  let sessions := (R.sessionBindings.values.filter (·.environmentId = environmentId)).map
    (·.sessionId)
  { R with
    sessionBindings := R.sessionBindings.filterEntries fun _ binding =>
      binding.environmentId ≠ environmentId
    boundSessions := R.boundSessions.filterKeys fun sessionId => sessionId ∉ sessions
    staleSessions := R.staleSessions.filter fun sessionId => sessionId ∉ sessions
    history := R.history ++ (R.epochsOf environmentId).map (.cleared environmentId) }

/-- The newest fence goes last, and the oldest one may go. -/
def fence (fenced : JsMap Utf16 ℕ) (environmentId : Utf16) (epoch : ℕ) : JsMap Utf16 ℕ :=
  let fenced := (fenced.delete environmentId).set environmentId epoch
  if fenced.size ≤ MAX_FENCED_ENVIRONMENTS then fenced
  else fenced.keys.head?.elim fenced fun oldest =>
    if oldest = [] then fenced else fenced.delete oldest

def clearEnvironment (R : Receiver) (environmentId : Utf16) : Receiver :=
  let ids := R.windows.values.filter fun id => (R.heap id).environmentId = environmentId
  let epochs := (R.fencedEnvironmentEpochs.get? environmentId).toList ++ R.epochsOf environmentId
  let cleared := ids.foldl clearWindow ((R.forgetStartupOwner environmentId).unbind environmentId)
  match epochs.max? with
  | none => cleared
  | some epoch => { cleared with
      fencedEnvironmentEpochs := fence R.fencedEnvironmentEpochs environmentId epoch }

/-- Everything but `apply`. -/
inductive Action where
  | bindSession (binding : WorkerLiveSessionBinding) (resolve : Utf16 → Option LiveEventTarget)
  | rebindAll (resolve : Utf16 → Option LiveEventTarget)
  | identityMutated (isMatch : Utf16 → Bool) (resolve : Utf16 → Option LiveEventTarget)
  | start (resolve : Utf16 → Option LiveEventTarget)
  | rotateCredential (rotation : WorkerLiveCredentialRotation)
  | clearRequested (id : ℕ) (runId clearedClaimId : Utf16)
  | clearEnvironment (environmentId : Utf16)

def act (R : Receiver) : Action → Receiver
  | .bindSession binding resolve => (R.bindSessionWithConfig binding resolve).1
  | .rebindAll resolve => R.rebindAll resolve
  | .identityMutated isMatch resolve => R.identityMutated isMatch resolve
  | .start resolve => R.start resolve
  | .rotateCredential rotation => R.rotateCredential rotation
  | .clearRequested id runId clearedClaimId => R.clearRequested id runId clearedClaimId
  | .clearEnvironment environmentId => R.clearEnvironment environmentId

inductive OwnerStatus where
  | active
  | clearRequested
deriving DecidableEq

structure AgentRunContext where
  sessionId : Option Utf16
  sessionKey : Option Utf16
  agentId : Option Utf16
  lifecycleGeneration : Option Utf16
  isControlUiVisible : Option Bool

/-- The registry of run contexts when an event is published, and what its listeners do. -/
structure Turn where
  ownerStatus : Utf16 → Utf16 → Utf16 → Option OwnerStatus
  context : Utf16 → Option AgentRunContext
  lifecycleGeneration : Utf16
  claim : Utf16 → Option Utf16
  listeners : List Action

/-- Whether the cursor of the window is lost. -/
def pruneReleasedRuns (R : Receiver) (id : ℕ) (turn : Turn) : List (Utf16 × OwnedLiveRun) →
    Receiver × Bool
  | [] => (R, false)
  | (runId, owned) :: runs =>
    match turn.ownerStatus runId owned.claimId owned.lifecycleGeneration with
    | none => (R.clearWindow id, true)
    | some .active => R.pruneReleasedRuns id turn runs
    | some .clearRequested => (R.fenceReleasedRun id runId).pruneReleasedRuns id turn runs

/-- `seq` runs over the numbers behind the one that is being admitted. -/
def hasReachableBufferedTerminal (pending : JsMap ℕ PendingLiveEvent) (admittedRunId : Utf16)
    (countedRunIds : List Utf16) : List ℕ → Bool
  | [] => false
  | seq :: seqs =>
    match pending.get? seq with
    | none => false
    | some pendingEvent =>
      let pendingRunId := pendingEvent.request.runId
      if pendingRunId ∈ countedRunIds then
        if isDefinitiveWorkerTerminalEvent pendingEvent.request.event then true
        else hasReachableBufferedTerminal pending admittedRunId countedRunIds seqs
      else if pendingRunId ≠ admittedRunId then false
      else hasReachableBufferedTerminal pending admittedRunId countedRunIds seqs

variable (options : Options)

/-- A claim of a run that the window does not own. -/
def claimNewRun (R : Receiver) (id : ℕ) (runId : Utf16) (allowBufferedTerminalCapacity : Bool)
    (turn : Turn) : Receiver × Except WorkerLiveEventFailure OwnedLiveRun :=
  let (R, lost) := R.pruneReleasedRuns id turn (R.heap id).activeRuns.entries
  if lost then (R, .error (.resyncRequired 0))
  else
    let window := R.heap id
    let countedRunIds := window.activeRuns.keys.filter fun activeRunId =>
      (window.terminalRuns.get? activeRunId).isNone
    let seqs := List.range' (window.ackedSeq + 2) (options.windowSize - 1)
    if options.maxActiveRuns ≤ countedRunIds.length && !(allowBufferedTerminalCapacity &&
        hasReachableBufferedTerminal window.pending runId countedRunIds seqs) then
      (R, .error .capacityExceeded)
    else
      let context := turn.context runId
      let isForeign := context.any fun context => context.sessionId ≠ some window.sessionId ||
        context.sessionKey ≠ some window.target.sessionKey ||
        context.agentId ≠ window.target.agentId ||
        context.lifecycleGeneration ≠ some turn.lifecycleGeneration
      if isForeign then (R, .error .invalidEvent)
      else
        match turn.claim runId with
        | none => (R, .error .invalidEvent)
        | some claimId =>
          let controlUiVisible := (context.bind (·.isControlUiVisible)).getD false
          let claimed := ⟨claimId, controlUiVisible, turn.lifecycleGeneration⟩
          (R.change id fun window =>
            { window with activeRuns := window.activeRuns.set runId claimed }, .ok claimed)

def claimRun (R : Receiver) (id : ℕ) (runId : Utf16) (allowBufferedTerminalCapacity : Bool)
    (turn : Turn) : Receiver × Except WorkerLiveEventFailure OwnedLiveRun :=
  let window := R.heap id
  if (window.terminalRuns.get? runId).isSome then (R, .error .invalidEvent)
  else
    match window.activeRuns.get? runId with
    | none => R.claimNewRun options id runId allowBufferedTerminalCapacity turn
    | some owned =>
      match turn.ownerStatus runId owned.claimId owned.lifecycleGeneration with
      | none => (R.clearWindow id, .error (.resyncRequired 0))
      | some status =>
        let context := turn.context runId
        let isOwn := status = .active && context.any fun context =>
          context.sessionId = some window.sessionId &&
          context.sessionKey = some window.target.sessionKey &&
          context.agentId = window.target.agentId &&
          context.lifecycleGeneration = some owned.lifecycleGeneration &&
          context.isControlUiVisible = some owned.controlUiVisible
        if isOwn then (R, .ok owned) else (R.fenceReleasedRun id runId, .error .invalidEvent)

/-- A definitive event fences its run before it goes out. -/
def fenceEnded (R : Receiver) (id : ℕ) (request : WorkerLiveEventParams) : Receiver :=
  if isDefinitiveWorkerTerminalEvent request.event then
    R.change id fun window =>
      { window with terminalRuns := window.terminalRuns.set request.runId request.seq }
  else R

def record (R : Receiver) (id : ℕ) (request : WorkerLiveEventParams) : Receiver :=
  { R with history := R.history ++ [.published id request.seq request.runId
      (R.heap id).environmentId (R.heap id).runEpoch
      (isDefinitiveWorkerTerminalEvent request.event)] }

/-- The event goes to the listeners, which act on the receiver. -/
def emit (R : Receiver) (id : ℕ) (request : WorkerLiveEventParams) (turn : Turn) : Receiver :=
  turn.listeners.foldl act ((R.fenceEnded id request).record id request)

def publish (R : Receiver) (id : ℕ) (request : WorkerLiveEventParams)
    (allowBufferedTerminalCapacity : Bool) (turn : Turn) :
    Receiver × Option WorkerLiveEventFailure :=
  let claimed := R.claimRun options id request.runId allowBufferedTerminalCapacity turn
  match claimed.2 with
  | .error failure => (claimed.1, some failure)
  | .ok _ => (claimed.1.emit id request turn, none)

/-- `window.pending.delete(seq)` with its bytes. -/
def takePending (R : Receiver) (id seq : ℕ) (buffered : PendingLiveEvent) : Receiver :=
  R.change id fun window =>
    if (window.pending.get? seq).isSome then
      { window with
        pending := window.pending.delete seq
        pendingBytes := window.pendingBytes - buffered.sizeBytes }
    else window

/-- The number is acknowledged, and old ends of runs are forgotten. -/
def advance (R : Receiver) (id seq : ℕ) : Receiver :=
  R.change id fun window =>
    { window with
      ackedSeq := seq
      terminalRuns := window.terminalRuns.filterEntries fun runId terminalSeq =>
        (window.activeRuns.get? runId).isSome || seq < terminalSeq + options.windowSize }

/-- An event that was published leaves the buffer and is acknowledged. -/
def acknowledge (R : Receiver) (id seq : ℕ) (buffered : Option PendingLiveEvent) : Receiver :=
  (buffered.elim R (R.takePending id seq)).advance options id seq

/-- What `drain` does with an event that is not published. -/
def refuse (R : Receiver) (id seq : ℕ) (buffered : Option PendingLiveEvent)
    (publishedPrefix : Bool) (failed : WorkerLiveEventFailure) : Receiver × WorkerLiveEventResult :=
  if failed = .capacityExceeded && buffered.isSome then (R, .ok (R.heap id).ackedSeq)
  else
    let taken := buffered.elim R (R.takePending id seq)
    if failed = .capacityExceeded && !publishedPrefix then (taken.clearWindow id, .error failed)
    else if publishedPrefix then (taken, .ok (taken.heap id).ackedSeq)
    else (taken, .error failed)

/-- `fuel` bounds the buffered events that follow; `turns` numbers the publications. -/
def drain (id : ℕ) (turns : ℕ → Turn) : ℕ → Receiver → WorkerLiveEventParams →
    Option PendingLiveEvent → Bool → Receiver × WorkerLiveEventResult
  | fuel, R, request, buffered, publishedPrefix =>
    let published := R.publish options id request buffered.isSome (turns fuel)
    match published.2 with
    | some failed => published.1.refuse id request.seq buffered publishedPrefix failed
    | none =>
      let acked := published.1.acknowledge options id request.seq buffered
      match fuel, (acked.heap id).pending.get? ((acked.heap id).ackedSeq + 1) with
      | fuel + 1, some next => drain id turns fuel acked next.request (some next) true
      | _, _ => (acked, .ok (acked.heap id).ackedSeq)

/-- The window that a session gets for its binding. -/
def newWindow (sessionId : Utf16) (identity : WorkerConnectionIdentity)
    (request : WorkerLiveEventParams) (target : LiveEventTarget) : LiveEventWindow where
  activeRuns := .empty
  ackedSeq := request.lastAckedSeq
  credentialHash := identity.credentialHash
  environmentId := identity.environmentId
  pending := .empty
  pendingBytes := 0
  runEpoch := request.runEpoch
  sessionId := sessionId
  target := target
  terminalRuns := .empty
  origin := request.lastAckedSeq

def createWindow (R : Receiver) (window : LiveEventWindow) : Receiver :=
  { R with
    heap := Function.update R.heap R.created window
    created := R.created + 1
    windows := R.windows.set window.sessionId R.created
    startupOwners := R.startupOwners.delete window.environmentId }

/-- The window for the request, or the answer of the call. -/
def checkCursor (R : Receiver) (id : ℕ) (request : WorkerLiveEventParams) :
    Receiver × (WorkerLiveEventResult ⊕ ℕ) :=
  let window := R.heap id
  if request.seq ≤ window.ackedSeq then (R, .inl (.ok window.ackedSeq))
  else if window.ackedSeq < request.lastAckedSeq then
    (R.dropPending id, .inl (.error (.resyncRequired window.ackedSeq)))
  else (R, .inr id)

def resolveOrCreateWindow (R : Receiver) (sessionId : Utf16) (identity : WorkerConnectionIdentity)
    (request : WorkerLiveEventParams) : Receiver × (WorkerLiveEventResult ⊕ ℕ) :=
  match R.boundSessions.get? sessionId with
  | none => (R, .inl (.error .sessionNotAttached))
  | some binding =>
    if binding.environmentId ≠ identity.environmentId || binding.runEpoch ≠ request.runEpoch then
      (R, .inl (.error .epochMismatch))
    else if sessionId ∈ R.staleSessions then (R, .inl (.error .sessionNotAttached))
    else
      match R.windows.get? sessionId with
      | some id =>
        let window := R.heap id
        if request.runEpoch ≠ window.runEpoch || identity.credentialHash ≠ window.credentialHash ||
            identity.environmentId ≠ window.environmentId then
          (R, .inl (.error .epochMismatch))
        else R.checkCursor id request
      | none =>
        if R.startupOwners.get? identity.environmentId ≠ some request.runEpoch &&
            request.lastAckedSeq ≠ 0 then (R, .inl (.error (.resyncRequired 0)))
        else if options.maxSessions ≤ R.windows.size then (R, .inl (.error .capacityExceeded))
        else
          (R.createWindow (newWindow sessionId identity request binding.target)).checkCursor
            R.created request

def buffer (R : Receiver) (id : ℕ) (request : WorkerLiveEventParams) : Receiver :=
  R.change id fun window =>
    { window with
      pending := window.pending.set request.seq ⟨request, sizeBytes request.event⟩
      pendingBytes := window.pendingBytes + sizeBytes request.event }

/-- What `apply` does with a request that its window takes. -/
def applyTo (R : Receiver) (id : ℕ) (request : WorkerLiveEventParams) (turns : ℕ → Turn) :
    Receiver × WorkerLiveEventResult :=
  let window := R.heap id
  if window.ackedSeq + options.windowSize < request.seq then
    (R.dropPending id, .error (.resyncRequired window.ackedSeq))
  else if request.seq = window.ackedSeq + 1 then
    let pending := window.pending.get? request.seq
    drain options id turns window.pending.size R ((pending.map (·.request)).getD request) pending
      false
  else if (window.pending.get? request.seq).isSome then (R, .ok window.ackedSeq)
  else if options.maxPendingBytes < window.pendingBytes + sizeBytes request.event then
    (R.dropPending id, .error (.resyncRequired window.ackedSeq))
  else (R.buffer id request, .ok window.ackedSeq)

def apply (R : Receiver) (identity : WorkerConnectionIdentity) (request : WorkerLiveEventParams)
    (turns : ℕ → Turn) : Receiver × WorkerLiveEventResult :=
  match identity.sessionId.filter (· ≠ []) with
  | none => (R, .error .sessionNotAttached)
  | some sessionId =>
    if request.runEpoch ≠ identity.ownerEpoch then (R, .error .epochMismatch)
    else if (R.fencedEnvironmentEpochs.get? identity.environmentId).any (request.runEpoch ≤ ·) then
      (R, .error .invalidEvent)
    else
      let resolved := R.resolveOrCreateWindow options sessionId identity request
      match resolved.2 with
      | .inl result => (resolved.1, result)
      | .inr id => resolved.1.applyTo options id request turns

/-- The binding of each session that the store still has when the process starts. -/
def startupSessions (startupBindings : List WorkerLiveSessionBinding) :
    JsMap Utf16 WorkerLiveSessionBinding :=
  startupBindings.foldl (fun bindings binding =>
    if !isValidLiveSessionBinding binding then bindings
    else if (bindings.get? binding.sessionId).all fun existing =>
        existing.runEpoch < binding.runEpoch || (binding.runEpoch = existing.runEpoch &&
          binding.environmentId = existing.environmentId) then
      bindings.set binding.sessionId binding
    else bindings) .empty

/-- Owners that a persisted binding corroborates. -/
def corroborated (startupBindings : List WorkerLiveSessionBinding)
    (startupOwners : JsMap Utf16 ℕ) : JsMap Utf16 ℕ :=
  let owners := (startupBindings.filter isValidLiveSessionBinding).foldl
    (fun owners binding => owners.set binding.environmentId binding.runEpoch) JsMap.empty
  startupOwners.filterEntries fun environmentId ownerEpoch =>
    environmentId ≠ [] && owners.get? environmentId = some ownerEpoch

/-- `heap` is what the unused numbers have. -/
def create (heap : ℕ → LiveEventWindow) (startupBindings : List WorkerLiveSessionBinding)
    (startupOwners : JsMap Utf16 ℕ) (resolve : Utf16 → Option LiveEventTarget) : Receiver :=
  let bindings := startupSessions startupBindings
  let stale := bindings.keys.filter fun sessionId => (resolve sessionId).isNone
  { heap := heap
    created := 0
    windows := .empty
    boundSessions := bindings.values.foldl (fun bound binding =>
      (resolve binding.sessionId).elim bound fun target =>
        bound.set binding.sessionId ⟨binding, target⟩) .empty
    sessionBindings := bindings
    fencedEnvironmentEpochs := .empty
    staleSessions := stale.toFinset
    startupOwners := corroborated startupBindings startupOwners
    history := [] }

inductive Label where
  | act (action : Action)
  | apply (identity : WorkerConnectionIdentity) (request : WorkerLiveEventParams)
    (turns : ℕ → Turn)

def step (R : Receiver) : Label → Receiver
  | .act action => R.act action
  | .apply identity request turns => (R.apply options identity request turns).1

end Receiver

end Flashclaw.LiveEvents
