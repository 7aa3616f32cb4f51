import Flashclaw.Lib.Transition
import Flashclaw.Lib.Utf16Text
import Flashclaw.StateLease.Table
import Mathlib.Logic.Function.Basic

/-!
# State leases: the machine

Calls of `withOpenClawStateLease`, one for each owner, over one table.  A write
transaction begins where it takes the lock and samples the clock, and commits or
fails later; a check samples the clock and reads the table later.  Between any two
steps of a call come steps of others, and the process of a call may crash.
-/

namespace Flashclaw.StateLease

open Utf16

inductive LeaseErrorCode where
  | invalidInput
  | timeout
  | aborted
  | lost
  | storageFailed
  /-- What the callback throws. -/
  | callback
deriving DecidableEq

structure LeaseOptions where
  scope : Utf16
  key : Utf16
  leaseMs : ℕ
  waitMs : ℕ

def MIN_LEASE_MS : ℕ := 1000

def MAX_TIMER_TIMEOUT_MS : ℕ := 2147000000

def RELEASE_RETRY_TIMEOUT_MS : ℕ := 2000

/-- `validateOptions` of the data in the model. -/
def LeaseOptions.isValid (options : LeaseOptions) : Bool :=
  let nonEmpty (s : Utf16) : Bool := trim s ≠ [] && !s.contains 0
  nonEmpty options.scope && nonEmpty options.key &&
    (MIN_LEASE_MS ≤ options.leaseMs && options.leaseMs ≤ MAX_TIMER_TIMEOUT_MS) &&
    options.waitMs ≤ MAX_TIMER_TIMEOUT_MS

inductive Outcome where
  | value
  | error (code : LeaseErrorCode)
deriving DecidableEq

/-- What a call does after its release; `tooLate` is the release of an acquisition that came
after an abort or the deadline. -/
inductive Ending where
  | outcome (outcome : Outcome)
  | tooLate
deriving DecidableEq

/-- The checks of an ownership: before the callback, by `assertOwned`, and behind the callback. -/
inductive Check where
  | entry
  | operation
  | final
deriving DecidableEq

/-- Where a call is; `deadline` is one of `performance.now`, `now` the clock that is sampled. -/
inductive Phase where
  | idle
  | acquiring (deadline : ℕ)
  | tryAcquire (deadline now : ℕ)
  | missed (deadline : ℕ)
  | acquired (deadline : ℕ)
  | entering
  | checking (check : Check) (now : ℕ)
  | running
  | renew (now : ℕ)
  | finishing
  | releasing (ending : Ending) (deadline : ℕ)
  | release (ending : Ending) (deadline : ℕ)
  | settling (ending : Ending)
  | settled (outcome : Outcome)
  | crashed
deriving DecidableEq

/-- `aborted` is the caller's signal and `leaseLost` the one of the lease. -/
structure Call where
  phase : Phase := .idle
  aborted : Bool := false
  leaseLost : Bool := false
  confirmedExpiresAt : Option ℕ := none
deriving DecidableEq

/-- `writer` has the write lock of the database. -/
structure State (ο : Type) where
  clock : ℕ
  elapsed : ℕ
  table : Table ο
  writer : Option ο
  call : ο → Call

inductive Action where
  | start
  | begin
  | commit
  | fail (lockError : Bool)
  | proceed
  | check
  | read (fault : Bool)
  | callback (returns : Bool)
  | expiryTimer
  | abort
  | settle
  | crash
deriving DecidableEq

inductive Label (ο : Type) where
  | pass (clock elapsed : ℕ)
  | act (owner : ο) (action : Action)

namespace Call

def setPhase (call : Call) (phase : Phase) : Call := { call with phase := phase }

/-- What the signals of a call throw, if anything. -/
def refusal (call : Call) : Option LeaseErrorCode :=
  if call.leaseLost then some .lost else if call.aborted then some .aborted else none

/-- The `catch` around the callback. -/
def caught (call : Call) (error : LeaseErrorCode) : Outcome := .error (call.refusal.getD error)

/-- The first steps of `releaseBestEffort`. -/
def startRelease (call : Call) (elapsed : ℕ) (ending : Ending) : Call :=
  call.setPhase (.releasing ending (elapsed + RELEASE_RETRY_TIMEOUT_MS))

def start (call : Call) (options : LeaseOptions) (elapsed : ℕ) : Call :=
  if !options.isValid then call.setPhase (.settled (.error .invalidInput))
  else if call.aborted then call.setPhase (.settled (.error .aborted))
  else call.setPhase (.acquiring (elapsed + options.waitMs))

def failAcquire (call : Call) (deadline : ℕ) (lockError : Bool) : Call :=
  if lockError then call.setPhase (.missed deadline)
  else call.setPhase (.settled (.error .storageFailed))

def proceedAcquired (call : Call) (options : LeaseOptions) (elapsed deadline : ℕ) : Call :=
  if call.aborted || (0 < options.waitMs && deadline ≤ elapsed) then
    call.startRelease elapsed .tooLate
  else call.setPhase .entering

/-- The sleep between two attempts is part of the next phase. -/
def proceedMissed (call : Call) (elapsed deadline : ℕ) : Call :=
  if deadline ≤ elapsed then call.setPhase (.settled (.error .timeout))
  else call.setPhase (.acquiring deadline)

/-- The start of a check, which ends the call where a signal is aborted. -/
def check (call : Call) (clock elapsed : ℕ) (check : Check) : Call :=
  match call.refusal with
  | some code =>
    if check = .operation then call else call.startRelease elapsed (.outcome (.error code))
  | none => call.setPhase (.checking check clock)

/-- The end of a check that finds the lease owned or not, or fails. -/
def read (call : Call) (elapsed : ℕ) (check : Check) (owned fault : Bool) : Call :=
  let code : LeaseErrorCode := if fault then .storageFailed else .lost
  match check with
  | .entry =>
    if owned && !fault then call.setPhase .running
    else call.startRelease elapsed (.outcome (call.caught code))
  | .operation => call.setPhase .running
  | .final =>
    call.startRelease elapsed (.outcome (if owned && !fault then .value else .error code))

/-- The end of the callback. -/
def callback (call : Call) (elapsed : ℕ) (returns : Bool) : Call :=
  if returns then call.setPhase .finishing
  else call.startRelease elapsed (.outcome (call.caught .callback))

def failRenew (call : Call) (clock : ℕ) : Call :=
  { call with
    phase := .running
    leaseLost := call.leaseLost || call.confirmedExpiresAt.any (· ≤ clock) }

def failRelease (call : Call) (elapsed : ℕ) (ending : Ending) (deadline : ℕ) (lockError : Bool) :
    Call :=
  if lockError && elapsed < deadline then call.setPhase (.releasing ending deadline)
  else call.setPhase (.settling ending)

def settle (call : Call) (ending : Ending) : Call :=
  match ending with
  | .outcome outcome => call.setPhase (.settled outcome)
  | .tooLate => call.setPhase (.settled (.error (if call.aborted then .aborted else .timeout)))

end Call

namespace State

variable {ο : Type} [DecidableEq ο]

def setCall (s : State ο) (owner : ο) (call : Call) : State ο :=
  { s with call := Function.update s.call owner call }

/-- The end of a transaction. -/
def unlock (s : State ο) : State ο := { s with writer := none }

/-- The begin of a transaction, unless another has the lock. -/
def lock (s : State ο) (owner : ο) (phase : Phase) : Option (State ο) :=
  if s.writer = none then
    some { s.setCall owner ((s.call owner).setPhase phase) with writer := some owner }
  else none

def beginAcquire (s : State ο) (owner : ο) (deadline : ℕ) : Option (State ο) :=
  if (s.call owner).aborted then
    some (s.setCall owner ((s.call owner).setPhase (.settled (.error .aborted))))
  else s.lock owner (.tryAcquire deadline s.clock)

variable (options : ο → LeaseOptions)

def identity (owner : ο) : LeaseIdentity ο :=
  ⟨(options owner).scope, (options owner).key, owner⟩

def commitAcquire (s : State ο) (owner : ο) (deadline now : ℕ) : State ο :=
  let acquired := tryAcquire (identity options owner) (options owner).leaseMs now s.table
  { s.unlock with table := acquired.1 }.setCall owner { s.call owner with
    phase := if acquired.2.isSome then .acquired deadline else .missed deadline
    confirmedExpiresAt := acquired.2 }

def commitRenew (s : State ο) (owner : ο) (now : ℕ) : State ο :=
  match renew (identity options owner) (options owner).leaseMs now s.table with
  | some (table, expiresAt) =>
    { s.unlock with table := table }.setCall owner { s.call owner with
      phase := .running
      confirmedExpiresAt := some expiresAt }
  | none => s.unlock.setCall owner { s.call owner with phase := .running, leaseLost := true }

def commitRelease (s : State ο) (owner : ο) (ending : Ending) : State ο :=
  { s.unlock with table := release (identity options owner) s.table }.setCall owner
    ((s.call owner).setPhase (.settling ending))

def crash (s : State ο) (owner : ο) : State ο :=
  { s with writer := if s.writer = some owner then none else s.writer }.setCall owner
    ((s.call owner).setPhase .crashed)

/-- A step of a call.  While the callback runs, it may start the check of `assertOwned`, and the
heartbeat its renewal. -/
def act (s : State ο) (owner : ο) (action : Action) : Option (State ο) :=
  let call := s.call owner
  match action, call.phase with
  | .start, .idle => some (s.setCall owner (call.start (options owner) s.elapsed))
  | .begin, .acquiring deadline => s.beginAcquire owner deadline
  | .begin, .running => s.lock owner (.renew s.clock)
  | .begin, .releasing ending deadline => s.lock owner (.release ending deadline)
  | .commit, .tryAcquire deadline now => some (s.commitAcquire options owner deadline now)
  | .commit, .renew now => some (s.commitRenew options owner now)
  | .commit, .release ending _ => some (s.commitRelease options owner ending)
  | .fail lockError, .acquiring deadline =>
    some (s.setCall owner (call.failAcquire deadline lockError))
  | .fail lockError, .tryAcquire deadline _ =>
    some (s.unlock.setCall owner (call.failAcquire deadline lockError))
  | .fail _, .running => some (s.setCall owner (call.failRenew s.clock))
  | .fail _, .renew _ => some (s.unlock.setCall owner (call.failRenew s.clock))
  | .fail lockError, .releasing ending deadline =>
    some (s.setCall owner (call.failRelease s.elapsed ending deadline lockError))
  | .fail lockError, .release ending deadline =>
    some (s.unlock.setCall owner (call.failRelease s.elapsed ending deadline lockError))
  | .proceed, .missed deadline => some (s.setCall owner (call.proceedMissed s.elapsed deadline))
  | .proceed, .acquired deadline =>
    some (s.setCall owner (call.proceedAcquired (options owner) s.elapsed deadline))
  | .check, .entering => some (s.setCall owner (call.check s.clock s.elapsed .entry))
  | .check, .running => some (s.setCall owner (call.check s.clock s.elapsed .operation))
  | .check, .finishing => some (s.setCall owner (call.check s.clock s.elapsed .final))
  | .read fault, .checking check now =>
    let owned := leaseOwned (identity options owner) now s.table
    some (s.setCall owner (call.read s.elapsed check owned fault))
  | .callback returns, .running => some (s.setCall owner (call.callback s.elapsed returns))
  | .expiryTimer, .running => some (s.setCall owner { call with leaseLost := true })
  | .abort, _ => some (s.setCall owner { call with aborted := true })
  | .settle, .settling ending => some (s.setCall owner (call.settle ending))
  | .crash, _ => some (s.crash owner)
  | _, _ => none

def step (s : State ο) : Label ο → Option (State ο)
  | .pass clock elapsed =>
    if s.clock ≤ clock ∧ s.elapsed ≤ elapsed then
      some { s with clock := clock, elapsed := elapsed }
    else none
  | .act owner action => s.act options owner action

end State

variable {ο : Type} [DecidableEq ο]

/-- Any calls, over any table. -/
def machine (options : ο → LeaseOptions) (table : Table ο) :
    TransitionSystem (State ο) (Label ο) where
  start :=
    { clock := 0
      elapsed := 0
      table := table
      writer := none
      call := fun _ => {} }
  step := State.step options

end Flashclaw.StateLease
