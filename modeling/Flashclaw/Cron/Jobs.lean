import Flashclaw.Lib.JsMap
import Flashclaw.Lib.JsNumber
import Flashclaw.Lib.JsString

/-!
# Cron: jobs and their next runs

`cron/service/jobs.ts`: when a job runs next, and the maintenance pass over the
store.  What evaluates schedules is a parameter, as are the marks of runs that
are queued or active.
-/

namespace Flashclaw.Cron

/-- Milliseconds. -/
abbrev Time := JsNumber

inductive CronSchedule where
  | at (time : String)
  | every (everyMs : JsNumber) (anchorMs : Option Time)
  | cron (expr : String) (tz : Option String) (staggerMs : Option JsNumber)
  | onExit (command : String)
  | stream (command : List String)
deriving DecidableEq

inductive CronRunStatus where
  | ok
  | error
  | skipped
deriving DecidableEq

/-- The fields of a job's state that decide when it runs. -/
structure CronJobState where
  nextRunAtMs : Option Time
  startupCatchupAtMs : Option Time
  pacedNextRunAtMs : Option Time
  forcePreservedNextRunAtMs : Option Time
  queuedAtMs : Option Time
  runningAtMs : Option Time
  lastRunAtMs : Option Time
  lastRunStatus : Option CronRunStatus
  lastStatus : Option CronRunStatus
  lastError : Option String
  lastDurationMs : Option JsNumber
  consecutiveErrors : Option JsNumber
  scheduleErrorCount : Option ℕ
  streamSourceIdentity : Option String
deriving DecidableEq

structure CronJob where
  id : String
  enabled : Option Bool
  schedule : CronSchedule
  /-- `payload.kind === "agentTurn"` -/
  isAgentTurn : Bool
  createdAtMs : Option Time
  state : CronJobState
deriving DecidableEq

/-- The evaluation of schedules: the next run of a schedule after a time and the previous one
before it, where the evaluation does not throw, the stagger of a job, and dates. -/
structure ScheduleOracle where
  computeNextRunAtMs : CronSchedule → Time → Except String (Option Time)
  computePreviousRunAtMs : CronSchedule → Time → Except String (Option Time)
  offsetMs : String → CronSchedule → ℕ
  parseAbsoluteTimeMs : String → Option Time

/-- The next run that is evaluated is after the time it is evaluated at. -/
def ScheduleOracle.NextSlot (oracle : ScheduleOracle) : Prop :=
  ∀ schedule now next, oracle.computeNextRunAtMs schedule now = .ok (some next) → now < next

/-- A number that is finite. -/
def finiteTimestamp (value : Option Time) : Option Time := value.filter JsNumber.isFinite

/-- A next run that is finite and positive. -/
def hasScheduledNextRunAtMs (value : Option Time) : Bool :=
  value.any fun t => t.isFinite && JsNumber.ofNat 0 < t

def isJobEnabled (job : CronJob) : Bool := job.enabled.getD true

def resolveJobLastRunStatus (job : CronJob) : Option CronRunStatus :=
  job.state.lastRunStatus.or job.state.lastStatus

def DEFAULT_ERROR_BACKOFF_SCHEDULE_MS : List ℕ :=
  [30000, 60000, 5 * 60000, 15 * 60000, 60 * 60000]

/-- The whole part of a finite number that is not below a bound, or the bound. -/
def wholeAtLeast (bound : ℤ) : Option JsNumber → ℤ
  | some (.finite q) => max bound q.floor
  | _ => bound

def errorBackoffMs (consecutiveErrors : ℤ) : ℕ :=
  let index := min (consecutiveErrors - 1) (DEFAULT_ERROR_BACKOFF_SCHEDULE_MS.length - 1)
  DEFAULT_ERROR_BACKOFF_SCHEDULE_MS.getD (max 0 index).toNat 30000

def resolveJobErrorBackoffUntilMs (job : CronJob) : Option Time :=
  if resolveJobLastRunStatus job ≠ some .error then none
  else
    (finiteTimestamp job.state.lastRunAtMs).map fun lastRunAtMs =>
      let consecutiveErrors := wholeAtLeast 1 job.state.consecutiveErrors
      let lastDurationMs := wholeAtLeast 0 job.state.lastDurationMs
      lastRunAtMs + .ofInt lastDurationMs + .ofNat (errorBackoffMs consecutiveErrors)

section Oracle

variable (oracle : ScheduleOracle)

/-- The attempts to find a staggered run after now, from a cursor on. -/
def nextStaggered (schedule : CronSchedule) (offset now : Time) :
    ℕ → Time → Except String (Option Time)
  | 0, _ => .ok none
  | attempts + 1, cursor => do
    match ← oracle.computeNextRunAtMs schedule cursor with
    | none => return none
    | some baseNext =>
      if now < baseNext + offset then return some (baseNext + offset)
      else
        nextStaggered schedule offset now attempts
          (JsNumber.max (cursor + .ofNat 1) (baseNext + .ofNat 1000))

def computeStaggeredCronNextRunAtMs (job : CronJob) (now : Time) : Except String (Option Time) :=
  match job.schedule with
  | .cron _ _ _ =>
    let offset := oracle.offsetMs job.id job.schedule
    if offset ≤ 0 then oracle.computeNextRunAtMs job.schedule now
    else
      nextStaggered oracle job.schedule (.ofNat offset) now 4
        (JsNumber.max (.ofNat 0) (now - .ofNat offset))
  | schedule => oracle.computeNextRunAtMs schedule now

/-- The attempts to find a staggered run up to now, from a cursor back. -/
def previousStaggered (schedule : CronSchedule) (offset now : Time) :
    ℕ → Time → Except String (Option Time)
  | 0, _ => .ok none
  | attempts + 1, cursor => do
    match ← oracle.computePreviousRunAtMs schedule cursor with
    | none => return none
    | some basePrevious =>
      if basePrevious + offset ≤ now then return some (basePrevious + offset)
      else
        previousStaggered schedule offset now attempts
          (JsNumber.max (.ofNat 0) (basePrevious - .ofNat 1000))

def computeStaggeredCronPreviousRunAtMs (job : CronJob) (now : Time) :
    Except String (Option Time) :=
  match job.schedule with
  | .cron _ _ _ =>
    let offset := oracle.offsetMs job.id job.schedule
    if offset ≤ 0 then oracle.computePreviousRunAtMs job.schedule now
    else
      previousStaggered oracle job.schedule (.ofNat offset) now 4
        (JsNumber.max (.ofNat 0) (now - .ofNat offset))
  | _ => .ok none

def computeStaggeredCronPreviousRunAtOrBeforeMs (job : CronJob) (now : Time) :
    Except String (Option Time) := do
  let previous ← computeStaggeredCronPreviousRunAtMs oracle job now
  let probe := now + .ofNat 1000
  if !probe.isFinite then return previous
  else
    let boundary ← computeStaggeredCronPreviousRunAtMs oracle job probe
    match finiteTimestamp boundary with
    | none => return previous
    | some b =>
      if b ≤ now ∧ (finiteTimestamp previous).all (· < b) = true then return boundary
      else return previous

def isStaggeredCronRunAtMs (job : CronJob) (runAtMs : Time) : Except String Bool :=
  match job.schedule with
  | .cron _ _ _ =>
    if !runAtMs.isFinite then .ok false
    else do
      let previous ← computeStaggeredCronPreviousRunAtOrBeforeMs oracle job runAtMs
      return previous = some runAtMs
  | _ => .ok false

/-- A retry that the backoff after an error asked for. -/
def isPendingErrorBackoffSlot (job : CronJob) (nextRunAtMs now : Time) : Bool :=
  (resolveJobErrorBackoffUntilMs job).any fun backoffUntilMs =>
    now < backoffUntilMs && nextRunAtMs ≤ backoffUntilMs

def shouldRepairFutureCronNextRunAtMs (job : CronJob) (now : Time) : Bool :=
  match job.schedule, job.state.nextRunAtMs with
  | .cron _ _ _, some nextRun =>
    if !hasScheduledNextRunAtMs (some nextRun) || nextRun ≤ now || job.state.queuedAtMs.isSome ||
        job.state.runningAtMs.isSome || isPendingErrorBackoffSlot job nextRun now then false
    else
      match (computeStaggeredCronNextRunAtMs oracle job now).map finiteTimestamp with
      | .ok (some naturalNext) =>
        match isStaggeredCronRunAtMs oracle job nextRun with
        | .ok false =>
          if nextRun < naturalNext then !job.isAgentTurn
          else if nextRun = naturalNext then false
          else
            match (computeStaggeredCronNextRunAtMs oracle job naturalNext).map finiteTimestamp with
            | .ok (some followingNaturalNext) =>
              let naturalIntervalMs := followingNaturalNext - naturalNext
              JsNumber.ofNat 0 < naturalIntervalMs &&
                followingNaturalNext + naturalIntervalMs ≤ nextRun
            | _ => false
        | _ => false
      | _ => false
  | _, _ => false

/-- A number that is whole and not negative, of a finite one. -/
def anchorOf : JsNumber → Option Time
  | .finite q => some (.ofInt (max 0 q.floor))
  | _ => none

/-- `coerceFiniteScheduleNumber` of a number. -/
def coerceFiniteScheduleNumber : JsNumber → Option JsNumber
  | .finite q => if |q| ≤ 2 ^ 53 - 1 then some (.finite q) else none
  | _ => none

def resolveEveryAnchorMs (anchorMs : Option Time) (fallbackAnchorMs : Time) : Time :=
  ((anchorMs.bind coerceFiniteScheduleNumber).bind anchorOf).getD
    ((anchorOf fallbackAnchorMs).getD (.ofNat 0))

/-- The time that a schedule without an anchor is anchored at. -/
def fallbackAnchorMs (job : CronJob) (now : Time) : Time :=
  (finiteTimestamp job.createdAtMs).getD now

/-- `Math.floor(a) + b` of a finite number. -/
def floorAdd (a b : JsNumber) : JsNumber := a.floor + b

def computeJobNextRunAtMs (job : CronJob) (now : Time) : Except String (Option Time) :=
  if !isJobEnabled job then .ok none
  else
    match job.schedule with
    | .every everyMsRaw anchorMs =>
      match coerceFiniteScheduleNumber everyMsRaw with
      | none => .ok none
      | some everyMsRaw =>
        let everyMs := JsNumber.max (.ofNat 1) everyMsRaw.floor
        let nextFromLastRun :=
          ((finiteTimestamp job.state.lastRunAtMs).map (floorAdd · everyMs)).filter (now < ·)
        match nextFromLastRun with
        | some next => .ok (some next)
        | none => do
          let anchorMs := resolveEveryAnchorMs anchorMs (fallbackAnchorMs job now)
          let next ← oracle.computeNextRunAtMs (.every everyMs (some anchorMs)) now
          return finiteTimestamp next
    | .at time =>
      let atMs := finiteTimestamp (oracle.parseAbsoluteTimeMs time)
      match resolveJobLastRunStatus job, job.state.lastRunAtMs with
      | some .ok, some lastRunAtMs =>
        if lastRunAtMs = .nan ∨ lastRunAtMs = .ofNat 0 then .ok atMs
        else .ok (atMs.filter (lastRunAtMs < ·))
      | _, _ => .ok atMs
    | schedule => do
      let next ← computeStaggeredCronNextRunAtMs oracle job now
      match next, schedule with
      | none, .cron _ _ _ =>
        let nextSecondMs := match now with
          | .finite q => JsNumber.finite ((q / 1000).floor * 1000 + 1000)
          | now => now
        computeStaggeredCronNextRunAtMs oracle job nextSecondMs
      | next, _ => return finiteTimestamp next

def MAX_SCHEDULE_ERRORS : ℕ := 3

/-- Counts an error of the evaluation, and disables the job after too many. -/
def recordScheduleComputeError (job : CronJob) (errText : String) : CronJob :=
  let errorCount := job.state.scheduleErrorCount.getD 0 + 1
  { job with
    enabled := if MAX_SCHEDULE_ERRORS ≤ errorCount then some false else job.enabled
    state := { job.state with
      scheduleErrorCount := some errorCount
      nextRunAtMs := none
      lastError := some ("schedule error: " ++ errText) } }

/-- A next run is not before the end of the backoff after an error. -/
def afterBackoff (job : CronJob) (next : Option Time) : Option Time :=
  match job.schedule, resolveJobErrorBackoffUntilMs job with
  | .at _, _ => next
  | _, none => next
  | _, some backoffFloor => next.map (JsNumber.max · backoffFloor)

/-- A next run that was evaluated, and no more count of errors. -/
def writeNextRun (job : CronJob) (next : Option Time) : CronJob :=
  { job with
    state := { job.state with
      nextRunAtMs := next
      scheduleErrorCount := job.state.scheduleErrorCount.filter (· = 0) } }

def recomputeJobNextRunAtMs (job : CronJob) (now : Time) : CronJob :=
  match computeJobNextRunAtMs oracle job now with
  | .error errText => recordScheduleComputeError job errText
  | .ok newNext => writeNextRun job (afterBackoff job newNext)

end Oracle

structure QueuedRunReservation where
  markerAtMs : Time
  preserveWhenDisabled : Bool

structure CronServiceState where
  store : Option (List CronJob)
  queuedRunReservationsByJobId : JsMap String QueuedRunReservation
  /-- The runs that are marked active. -/
  isCronJobActive : String → Bool

def isQueuedCronRun (state : CronServiceState) (jobId : String) (markerAtMs : Time) : Bool :=
  (state.queuedRunReservationsByJobId.get? jobId).any fun r => r.markerAtMs = markerAtMs

def isQueuedForceCronRun (state : CronServiceState) (jobId : String) (markerAtMs : Time) : Bool :=
  (state.queuedRunReservationsByJobId.get? jobId).any fun r =>
    r.markerAtMs = markerAtMs && r.preserveWhenDisabled

def STUCK_RUN_MS : ℕ := 2 * 60 * 60 * 1000

/-- A marker that is older than a run can be and that no queued run holds. -/
def isStuck (state : CronServiceState) (job : CronJob) (now marker : Time) : Bool :=
  JsNumber.ofNat STUCK_RUN_MS < now - marker && !isQueuedCronRun state job.id marker

/-- A stream job gets an identity. -/
def assignStreamSourceIdentity (randomUUID : String → String) (job : CronJob) : CronJob :=
  match job.schedule with
  | .stream _ =>
    if JsString.trim (job.state.streamSourceIdentity.getD "") = "" then
      { job with state := { job.state with streamSourceIdentity := some (randomUUID job.id) } }
    else job
  | _ => job

/-- The anchor of a repeating job that is not normal yet. -/
def newAnchorMs (job : CronJob) (now : Time) : Option Time :=
  match job.schedule with
  | .every _ anchorMs =>
    let normalizedAnchorMs := resolveEveryAnchorMs anchorMs (fallbackAnchorMs job now)
    if anchorMs ≠ some normalizedAnchorMs then some normalizedAnchorMs else none
  | _ => none

/-- A new anchor releases the slots that were kept under the old one. -/
def normalizeAnchor (job : CronJob) (now : Time) : CronJob :=
  match job.schedule, newAnchorMs job now with
  | .every everyMs _, some normalizedAnchorMs =>
    { job with
      schedule := .every everyMs (some normalizedAnchorMs)
      state := { job.state with pacedNextRunAtMs := none, forcePreservedNextRunAtMs := none } }
  | _, _ => job

/-- A disabled job has no next run and no markers but those of runs that go on. -/
def clearDisabled (state : CronServiceState) (job : CronJob) : CronJob :=
  { job with
    state := { job.state with
      startupCatchupAtMs := none
      pacedNextRunAtMs := none
      forcePreservedNextRunAtMs := none
      nextRunAtMs := none
      queuedAtMs := job.state.queuedAtMs.filter (isQueuedForceCronRun state job.id)
      runningAtMs := job.state.runningAtMs.filter fun marker =>
        isQueuedForceCronRun state job.id marker || state.isCronJobActive job.id } }

/-- What is left of next runs that are none, of slots that are not kept, and of stuck markers of
queued runs. -/
def clearStale (state : CronServiceState) (now : Time) (job : CronJob) : CronJob :=
  let nextRunAtMs := job.state.nextRunAtMs.filter fun next => hasScheduledNextRunAtMs (some next)
  { job with
    state := { job.state with
      nextRunAtMs
      forcePreservedNextRunAtMs := job.state.forcePreservedNextRunAtMs.filter fun slot =>
        slot.isFinite && nextRunAtMs = some slot
      queuedAtMs := job.state.queuedAtMs.filter fun marker => !isStuck state job now marker } }

/-- The job without a marker of a run that is on. -/
def releaseRun (job : CronJob) : CronJob :=
  { job with state := { job.state with runningAtMs := none } }

/-- The slot of the next run was run. -/
def alreadyExecutedSlot (job : CronJob) : Bool :=
  match job.state.nextRunAtMs, finiteTimestamp job.state.lastRunAtMs with
  | some nextRun, some lastRun => hasScheduledNextRunAtMs (some nextRun) && nextRun ≤ lastRun
  | _, _ => false

/-- A stuck marker of a run is cleared, and the job is skipped unless its slot was run. -/
def clearStuckRun (state : CronServiceState) (now : Time) (job : CronJob) : CronJob × Bool :=
  if job.state.runningAtMs.any (isStuck state job now) then
    (releaseRun job, !alreadyExecutedSlot (releaseRun job))
  else (job, false)

/-- The job after the repairs of a tick, and whether the rest of the pass skips it. -/
def normalizeJobTickState (state : CronServiceState) (randomUUID : String → String) (now : Time)
    (job : CronJob) : CronJob × Bool :=
  let job := normalizeAnchor (assignStreamSourceIdentity randomUUID job) now
  if !isJobEnabled job then (clearDisabled state job, true)
  else clearStuckRun state now (clearStale state now job)

structure MaintenanceOptions where
  recomputeExpired : Bool
  repairFutureCronNextRunAtMs : Bool
  preserveExpiredPacedNextRunJobId : Option String

/-- A slot that is kept because a run was forced. -/
def hasForcePreservedNextRun (job : CronJob) : Bool :=
  match job.state.forcePreservedNextRunAtMs, job.state.nextRunAtMs with
  | some slot, some next => slot.isFinite && hasScheduledNextRunAtMs (some next) && slot = next
  | _, _ => false

def hasPendingStartupCatchup (job : CronJob) (now : Time) : Bool :=
  match job.state.startupCatchupAtMs, job.state.nextRunAtMs with
  | some slot, some next =>
    slot.isFinite && hasScheduledNextRunAtMs (some next) && slot = next && now < slot
  | _, _ => false

def hasPendingPacedNextRun (opts : MaintenanceOptions) (job : CronJob) (now : Time) : Bool :=
  match job.state.pacedNextRunAtMs, job.state.nextRunAtMs with
  | some slot, some next =>
    slot.isFinite && hasScheduledNextRunAtMs (some next) && slot = next &&
      (now < slot || opts.preserveExpiredPacedNextRunJobId = some job.id)
  | _, _ => false

/-- A retry from before the backoff that is on. -/
def isStaleBackoffSlot (job : CronJob) (now : Time) : Bool :=
  match job.state.nextRunAtMs, resolveJobErrorBackoffUntilMs job with
  | some next, some backoffUntilMs => now < backoffUntilMs && next < backoffUntilMs
  | _, _ => false

/-- The next run is to be computed again. -/
def isRecomputed (oracle : ScheduleOracle) (opts : MaintenanceOptions) (job : CronJob)
    (now : Time) : Bool :=
  if !hasScheduledNextRunAtMs job.state.nextRunAtMs then true
  else if opts.repairFutureCronNextRunAtMs && !hasPendingStartupCatchup job now &&
      !hasPendingPacedNextRun opts job now && !hasForcePreservedNextRun job &&
      shouldRepairFutureCronNextRunAtMs oracle job now then true
  else
    opts.recomputeExpired && !hasForcePreservedNextRun job &&
      job.state.nextRunAtMs.any (· ≤ now) && job.state.queuedAtMs.isNone &&
      job.state.runningAtMs.isNone && (alreadyExecutedSlot job || isStaleBackoffSlot job now)

/-- The markers that are left of the slots that are pending. -/
def clearMarkers (opts : MaintenanceOptions) (now : Time) (job : CronJob) : CronJob :=
  { job with
    state := { job.state with
      startupCatchupAtMs :=
        if hasPendingStartupCatchup job now then job.state.startupCatchupAtMs else none
      pacedNextRunAtMs :=
        if hasPendingPacedNextRun opts job now then job.state.pacedNextRunAtMs else none } }

/-- What the pass does with a job that it does not skip. -/
def maintainJob (oracle : ScheduleOracle) (opts : MaintenanceOptions) (now : Time)
    (job : CronJob) : CronJob :=
  let cleared := clearMarkers opts now job
  if isRecomputed oracle opts job now then recomputeJobNextRunAtMs oracle cleared now else cleared

/-- `walkSchedulableJobs` -/
def walkJob (oracle : ScheduleOracle) (opts : MaintenanceOptions) (randomUUID : String → String)
    (now : Time) (state : CronServiceState) (job : CronJob) : CronJob :=
  let (job, skip) := normalizeJobTickState state randomUUID now job
  if skip then job else maintainJob oracle opts now job

def recomputeNextRunsForMaintenance (oracle : ScheduleOracle) (opts : MaintenanceOptions)
    (randomUUID : String → String) (now : Time) (state : CronServiceState) : CronServiceState :=
  { state with
    store := state.store.map (List.map (walkJob oracle opts randomUUID now state)) }

end Flashclaw.Cron
