import Mathlib.Tactic.Linarith
import Flashclaw.Lib.Results
import Flashclaw.Cron.Jobs

/-!
# Cron: what maintenance keeps

`recomputeNextRunsForMaintenance` leaves the slots alone that are due and those
that are kept, writes next runs that lie ahead, and is settled after one pass
but for jobs that it skips, that it cannot evaluate, or whose paced slot it
both keeps and advances.
-/

namespace Flashclaw.Cron

/-- The slot of the next run is past due and was not run. -/
def IsDueUnexecuted (job : CronJob) (now : Time) : Prop :=
  ∃ next, job.state.nextRunAtMs = some next ∧ hasScheduledNextRunAtMs (some next) = true ∧
    next ≤ now ∧ ∀ lastRun, job.state.lastRunAtMs = some lastRun → lastRun < next

/-- The job waits after an error. -/
def InErrorBackoff (job : CronJob) (now : Time) : Prop :=
  ∃ backoffUntilMs, resolveJobErrorBackoffUntilMs job = some backoffUntilMs ∧ now < backoffUntilMs

/-- The slot of a marker is the next run, and lies ahead. -/
def IsPendingSlot (marker : Option Time) (job : CronJob) (now : Time) : Prop :=
  ∃ slot, marker = some slot ∧ job.state.nextRunAtMs = some slot ∧
    hasScheduledNextRunAtMs (some slot) = true ∧ now < slot

/-- An expired slot that the pass may replace: it was run, or is from before the backoff that is
on. -/
def IsSpentSlot (opts : MaintenanceOptions) (job : CronJob) (now : Time) : Prop :=
  opts.recomputeExpired = true ∧ (∃ next, job.state.nextRunAtMs = some next ∧ next ≤ now) ∧
    (alreadyExecutedSlot job = true ∨ isStaleBackoffSlot job now = true)

def isRecurring (job : CronJob) : Bool :=
  match job.schedule with
  | .every _ _ => true
  | .cron _ _ _ => true
  | _ => false

/-- What a pass keeps of a job, and what it may write. -/
structure Kept (opts : MaintenanceOptions) (now : Time) (before after : CronJob) : Prop where
  due : isJobEnabled before = true → IsDueUnexecuted before now → ¬ InErrorBackoff before now →
    after.state.nextRunAtMs = before.state.nextRunAtMs
  forcePreserved : isJobEnabled before = true → hasForcePreservedNextRun before = true →
    newAnchorMs before now = none → after.state.nextRunAtMs = before.state.nextRunAtMs
  paced : isJobEnabled before = true → hasPendingPacedNextRun opts before now = true →
    ¬ IsSpentSlot opts before now → after.state.nextRunAtMs = before.state.nextRunAtMs
  startupCatchup : isJobEnabled before = true →
    IsPendingSlot before.state.startupCatchupAtMs before now →
    after.state.nextRunAtMs = before.state.nextRunAtMs
  written : isRecurring before = true → ∀ next, after.state.nextRunAtMs = some next →
    after.state.nextRunAtMs ≠ before.state.nextRunAtMs → now < next ∧
      ∀ backoffUntilMs, resolveJobErrorBackoffUntilMs before = some backoffUntilMs →
        backoffUntilMs ≤ next

section Evaluation

variable {oracle : ScheduleOracle} {job : CronJob} {now next : Time}

theorem nextStaggered_lt {schedule : CronSchedule} {offset : Time} {attempts : ℕ} {cursor : Time}
    (h : nextStaggered oracle schedule offset now attempts cursor = .ok (some next)) :
    now < next := by
  induction attempts generalizing cursor with
  | zero => cases h
  | succ attempts ih =>
    rw [nextStaggered] at h
    cases hnext : oracle.computeNextRunAtMs schedule cursor with
    | error e => rw [hnext] at h; cases h
    | ok found =>
      rw [hnext] at h
      cases found with
      | none => cases h
      | some baseNext =>
        simp only [bind, Except.bind] at h
        split at h
        · rename_i hlt
          obtain rfl := Option.some.inj (Except.ok.inj h)
          exact hlt
        · exact ih h

theorem computeStaggeredCronNextRunAtMs_lt (hslot : oracle.NextSlot)
    (h : computeStaggeredCronNextRunAtMs oracle job now = .ok (some next)) : now < next := by
  unfold computeStaggeredCronNextRunAtMs at h
  split at h
  · dsimp only at h
    split at h
    · exact hslot _ _ _ h
    · exact nextStaggered_lt h
  · exact hslot _ _ _ h

theorem finiteTimestamp_eq_some {value : Option Time} {t : Time}
    (h : finiteTimestamp value = some t) : value = some t ∧ t.isFinite = true := by
  rw [finiteTimestamp, Option.filter_eq_some_iff] at h
  exact h

theorem lt_nextSecond (q : ℚ) :
    JsNumber.finite q < .finite ((q / 1000).floor * 1000 + 1000) := by
  apply decide_eq_true
  have h : q / 1000 < (q / 1000).floor + 1 := Int.lt_floor_add_one (q / 1000)
  linarith

/-- A next run of a repeating job that is evaluated is after now. -/
theorem computeJobNextRunAtMs_lt (hslot : oracle.NextSlot) (hrecurring : isRecurring job = true)
    (h : computeJobNextRunAtMs oracle job now = .ok (some next)) : now < next := by
  unfold computeJobNextRunAtMs at h
  split at h
  · cases h
  · cases hschedule : job.schedule with
    | every everyMsRaw anchorMs =>
      simp only [hschedule] at h
      split at h
      · cases h
      · split at h
        · rename_i hlast
          obtain rfl := Option.some.inj (Except.ok.inj h)
          simpa using (Option.filter_eq_some_iff.mp hlast).2
        · obtain ⟨found, hfound, h⟩ := Results.bind_eq_ok.mp h
          obtain ⟨rfl, -⟩ := finiteTimestamp_eq_some (Except.ok.inj h)
          exact hslot _ _ _ hfound
    | cron expr tz staggerMs =>
      simp only [hschedule] at h
      obtain ⟨found, hfound, h⟩ := Results.bind_eq_ok.mp h
      cases found with
      | some found =>
        obtain ⟨hnext, -⟩ := finiteTimestamp_eq_some (Except.ok.inj h)
        obtain rfl := Option.some.inj hnext
        exact computeStaggeredCronNextRunAtMs_lt hslot hfound
      | none =>
        -- the second try is evaluated at the next whole second
        have hlt := computeStaggeredCronNextRunAtMs_lt hslot h
        cases now with
        | finite q => exact JsNumber.lt_trans (lt_nextSecond q) hlt
        | _ => exact hlt
    | _ => simp [isRecurring, hschedule] at hrecurring

theorem resolveJobErrorBackoffUntilMs_ne_nan {backoffUntilMs : Time}
    (h : resolveJobErrorBackoffUntilMs job = some backoffUntilMs) : backoffUntilMs ≠ .nan := by
  unfold resolveJobErrorBackoffUntilMs at h
  split at h
  · cases h
  · obtain ⟨lastRunAtMs, hlast, rfl⟩ := Option.map_eq_some_iff.mp h
    obtain ⟨-, hfinite⟩ := finiteTimestamp_eq_some hlast
    cases lastRunAtMs with
    | finite q => exact fun h => by cases h
    | _ => cases hfinite

/-- The evaluation does not read what a pass writes. -/
theorem computeJobNextRunAtMs_congr {job' : CronJob} (hid : job'.id = job.id)
    (henabled : job'.enabled = job.enabled) (hschedule : job'.schedule = job.schedule)
    (hcreated : job'.createdAtMs = job.createdAtMs)
    (hlast : job'.state.lastRunAtMs = job.state.lastRunAtMs)
    (hstatus : resolveJobLastRunStatus job' = resolveJobLastRunStatus job) :
    computeJobNextRunAtMs oracle job' now = computeJobNextRunAtMs oracle job now := by
  unfold computeJobNextRunAtMs computeStaggeredCronNextRunAtMs isJobEnabled fallbackAnchorMs
  rw [hid, henabled, hschedule, hcreated, hlast, hstatus]

end Evaluation

/-- What the repairs of a tick leave of a job. -/
structure Ticked (now : Time) (job ticked : CronJob) : Prop where
  id : ticked.id = job.id
  enabled : ticked.enabled = job.enabled
  createdAtMs : ticked.createdAtMs = job.createdAtMs
  next : ticked.state.nextRunAtMs =
    job.state.nextRunAtMs.filter fun next => hasScheduledNextRunAtMs (some next)
  startupCatchup : ticked.state.startupCatchupAtMs = job.state.startupCatchupAtMs
  lastRunAtMs : ticked.state.lastRunAtMs = job.state.lastRunAtMs
  lastRunStatus : resolveJobLastRunStatus ticked = resolveJobLastRunStatus job
  backoff : resolveJobErrorBackoffUntilMs ticked = resolveJobErrorBackoffUntilMs job
  anchor : newAnchorMs ticked now = none
  paced : ∀ slot, ticked.state.pacedNextRunAtMs = some slot →
    job.state.pacedNextRunAtMs = some slot
  kept : newAnchorMs job now = none → ticked.schedule = job.schedule ∧
    ticked.state.pacedNextRunAtMs = job.state.pacedNextRunAtMs ∧
    ticked.state.forcePreservedNextRunAtMs = job.state.forcePreservedNextRunAtMs.filter
      fun slot => slot.isFinite && ticked.state.nextRunAtMs = some slot
  anchored : ∀ anchorMs, newAnchorMs job now = some anchorMs → ∃ everyMs old,
    anchorMs = resolveEveryAnchorMs old (fallbackAnchorMs job now) ∧
    job.schedule = .every everyMs old ∧ ticked.schedule = .every everyMs (some anchorMs)

section Tick

variable {state : CronServiceState} {randomUUID : String → String} {now : Time} {job : CronJob}

theorem anchorOf_ofInt {n : ℤ} (h : 0 ≤ n) : anchorOf (.ofInt n) = some (.ofInt n) := by
  have hfloor : (n : ℚ).floor = n := Rat.floor_intCast n
  simp only [anchorOf, JsNumber.ofInt, hfloor, max_eq_right h]

theorem anchorOf_eq_some {t anchor : JsNumber} (h : anchorOf t = some anchor) :
    ∃ n : ℤ, 0 ≤ n ∧ anchor = .ofInt n := by
  cases t with
  | finite q =>
    obtain rfl := Option.some.inj h
    exact ⟨_, le_max_left _ _, rfl⟩
  | _ => cases h

theorem coerceFiniteScheduleNumber_eq_some {t t' : JsNumber}
    (h : coerceFiniteScheduleNumber t = some t') : t' = t := by
  unfold coerceFiniteScheduleNumber at h
  split at h
  · split at h
    · exact (Option.some.inj h).symm
    · cases h
  · cases h

/-- The anchor of a safe number is safe. -/
theorem coerceFiniteScheduleNumber_anchorOf {t t' anchor : JsNumber}
    (h : coerceFiniteScheduleNumber t = some t') (hanchor : anchorOf t' = some anchor) :
    coerceFiniteScheduleNumber anchor = some anchor := by
  cases t with
  | finite q =>
    unfold coerceFiniteScheduleNumber at h
    dsimp only at h
    split at h
    · rename_i hle
      obtain rfl := Option.some.inj h
      obtain rfl := Option.some.inj hanchor
      have hfloor : (q.floor : ℚ) ≤ q := Int.floor_le q
      have hmax : |((max 0 q.floor : ℤ) : ℚ)| ≤ 2 ^ 53 - 1 := by
        rw [Int.cast_max, Int.cast_zero, abs_of_nonneg (le_max_left _ _)]
        apply max_le
        · norm_num
        · exact hfloor.trans ((le_abs_self q).trans hle)
      simp only [coerceFiniteScheduleNumber, JsNumber.ofInt, if_pos hmax]
    · cases h
  | _ => cases h

theorem resolveEveryAnchorMs_resolveEveryAnchorMs (anchorMs : Option Time)
    (fallbackAnchorMs : Time) :
    resolveEveryAnchorMs (some (resolveEveryAnchorMs anchorMs fallbackAnchorMs)) fallbackAnchorMs =
      resolveEveryAnchorMs anchorMs fallbackAnchorMs := by
  have hwhole : ∃ n : ℤ, 0 ≤ n ∧ resolveEveryAnchorMs anchorMs fallbackAnchorMs = .ofInt n := by
    unfold resolveEveryAnchorMs
    cases hown : (anchorMs.bind coerceFiniteScheduleNumber).bind anchorOf with
    | some anchor =>
      obtain ⟨t, -, ht⟩ := Option.bind_eq_some_iff.mp hown
      exact anchorOf_eq_some ht
    | none =>
      cases hfallback : anchorOf fallbackAnchorMs with
      | some anchor => exact anchorOf_eq_some hfallback
      | none => exact ⟨0, le_rfl, by simp [JsNumber.ofNat, JsNumber.ofInt]⟩
  cases hcoerce : coerceFiniteScheduleNumber (resolveEveryAnchorMs anchorMs fallbackAnchorMs) with
  | some t =>
    obtain rfl := coerceFiniteScheduleNumber_eq_some hcoerce
    obtain ⟨n, hn, heq⟩ := hwhole
    rw [heq] at hcoerce ⊢
    rw [resolveEveryAnchorMs, Option.bind_some, hcoerce, Option.bind_some, anchorOf_ofInt hn,
      Option.getD_some]
  | none =>
    -- an anchor that is no safe number is the fallback
    have hnone : (anchorMs.bind coerceFiniteScheduleNumber).bind anchorOf = none := by
      by_contra hne
      obtain ⟨anchor, hanchor⟩ := Option.ne_none_iff_exists'.mp hne
      obtain ⟨t, ht, hanchor'⟩ := Option.bind_eq_some_iff.mp hanchor
      obtain ⟨t', -, ht'⟩ := Option.bind_eq_some_iff.mp ht
      rw [resolveEveryAnchorMs, hanchor, Option.getD_some,
        coerceFiniteScheduleNumber_anchorOf ht' hanchor'] at hcoerce
      cases hcoerce
    rw [resolveEveryAnchorMs, Option.bind_some, hcoerce, resolveEveryAnchorMs, hnone]
    rfl

theorem exists_assign_eq (randomUUID : String → String) (job : CronJob) :
    ∃ identity, assignStreamSourceIdentity randomUUID job =
      { job with state := { job.state with streamSourceIdentity := identity } } := by
  unfold assignStreamSourceIdentity
  split
  · split
    · exact ⟨_, rfl⟩
    · exact ⟨_, rfl⟩
  · exact ⟨_, rfl⟩

theorem normalizeAnchor_of_none (h : newAnchorMs job now = none) :
    normalizeAnchor job now = job := by
  unfold normalizeAnchor
  rw [h]
  cases job.schedule <;> rfl

theorem normalizeAnchor_of_some {anchorMs : Time} (h : newAnchorMs job now = some anchorMs) :
    ∃ everyMs old, job.schedule = .every everyMs old ∧
      anchorMs = resolveEveryAnchorMs old (fallbackAnchorMs job now) ∧
      normalizeAnchor job now = { job with
        schedule := .every everyMs (some anchorMs)
        state := { job.state with pacedNextRunAtMs := none, forcePreservedNextRunAtMs := none } } := by
  cases hschedule : job.schedule with
  | every everyMs old =>
    refine ⟨everyMs, old, rfl, ?_, ?_⟩
    · rw [newAnchorMs, hschedule] at h
      dsimp only at h
      split at h
      · exact (Option.some.inj h).symm
      · cases h
    · rw [normalizeAnchor, hschedule, h]
  | _ =>
    rw [newAnchorMs, hschedule] at h
    cases h

theorem newAnchorMs_normalizeAnchor (job : CronJob) (now : Time) :
    newAnchorMs (normalizeAnchor job now) now = none := by
  cases h : newAnchorMs job now with
  | none =>
    rw [normalizeAnchor_of_none h]
    exact h
  | some anchorMs =>
    obtain ⟨everyMs, old, hschedule, rfl, hnormal⟩ := normalizeAnchor_of_some h
    rw [hnormal]
    have hidem := resolveEveryAnchorMs_resolveEveryAnchorMs old (fallbackAnchorMs job now)
    simp only [newAnchorMs]
    rw [if_neg]
    intro hne
    exact hne (congrArg some hidem.symm)

/-- The job that the repairs of a tick are over with, if it is enabled. -/
def tickedJob (state : CronServiceState) (randomUUID : String → String) (now : Time)
    (job : CronJob) : CronJob :=
  clearStale state now (normalizeAnchor (assignStreamSourceIdentity randomUUID job) now)

theorem ticked_tickedJob (state : CronServiceState) (randomUUID : String → String) (now : Time)
    (job : CronJob) : Ticked now job (tickedJob state randomUUID now job) := by
  obtain ⟨identity, hassign⟩ := exists_assign_eq randomUUID job
  have hanchor : newAnchorMs (tickedJob state randomUUID now job) now = none :=
    newAnchorMs_normalizeAnchor _ now
  unfold tickedJob at hanchor ⊢
  rw [hassign] at hanchor ⊢
  have hnew : newAnchorMs { job with
      state := { job.state with streamSourceIdentity := identity } } now = newAnchorMs job now := rfl
  cases h : newAnchorMs job now with
  | none =>
    rw [normalizeAnchor_of_none (hnew.trans h)] at hanchor ⊢
    exact ⟨rfl, rfl, rfl, rfl, rfl, rfl, rfl, rfl, hanchor, fun _ => id, fun _ => ⟨rfl, rfl, rfl⟩,
      fun anchorMs hsome => absurd (h.symm.trans hsome) (by simp)⟩
  | some anchorMs =>
    obtain ⟨everyMs, old, hschedule, hold, hnormal⟩ := normalizeAnchor_of_some (hnew.trans h)
    rw [hnormal] at hanchor ⊢
    refine ⟨rfl, rfl, rfl, rfl, rfl, rfl, rfl, rfl, hanchor, fun slot hpaced => (by cases hpaced),
      fun hnone => absurd (h.symm.trans hnone) (by simp), ?_⟩
    intro anchorMs' hsome
    obtain rfl := Option.some.inj (h.symm.trans hsome)
    exact ⟨everyMs, old, hold, hschedule, rfl⟩

theorem Ticked.releaseRun {ticked : CronJob} (h : Ticked now job ticked) :
    Ticked now job (releaseRun ticked) :=
  ⟨h.id, h.enabled, h.createdAtMs, h.next, h.startupCatchup, h.lastRunAtMs, h.lastRunStatus,
    h.backoff, h.anchor, h.paced, h.kept, h.anchored⟩

end Tick

section Walk

variable {oracle : ScheduleOracle} {opts : MaintenanceOptions} {randomUUID : String → String}
  {state : CronServiceState} {now : Time} {job ticked : CronJob}

theorem isJobEnabled_normalizeAnchor (job : CronJob) :
    isJobEnabled (normalizeAnchor (assignStreamSourceIdentity randomUUID job) now) =
      isJobEnabled job := by
  obtain ⟨identity, hassign⟩ := exists_assign_eq randomUUID job
  rw [hassign]
  unfold normalizeAnchor
  split <;> rfl

theorem walkJob_of_disabled (h : isJobEnabled job = false) :
    walkJob oracle opts randomUUID now state job =
      clearDisabled state
        (normalizeAnchor (assignStreamSourceIdentity randomUUID job) now) := by
  have hdisabled := (@isJobEnabled_normalizeAnchor randomUUID now job).trans h
  simp only [walkJob, normalizeJobTickState, hdisabled, Bool.not_false, if_true]

theorem walkJob_of_enabled (h : isJobEnabled job = true) :
    walkJob oracle opts randomUUID now state job =
      let tick := clearStuckRun state now (tickedJob state randomUUID now job)
      if tick.2 then tick.1 else maintainJob oracle opts now tick.1 := by
  have henabled := (@isJobEnabled_normalizeAnchor randomUUID now job).trans h
  simp only [walkJob, normalizeJobTickState, henabled, Bool.not_true, Bool.false_eq_true, if_false,
    tickedJob]
  rfl

theorem ticked_clearStuckRun (h : Ticked now job ticked) :
    Ticked now job (clearStuckRun state now ticked).1 := by
  unfold clearStuckRun
  split
  · exact h.releaseRun
  · exact h

/-- A pass skips an enabled job after the repairs of the tick, or maintains it. -/
theorem walkJob_cases (h : isJobEnabled job = true) :
    ∃ ticked, Ticked now job ticked ∧
      (walkJob oracle opts randomUUID now state job = ticked ∨
        walkJob oracle opts randomUUID now state job = maintainJob oracle opts now ticked) := by
  have hticked := @ticked_clearStuckRun state now job _ (ticked_tickedJob state randomUUID now job)
  rw [walkJob_of_enabled h]
  dsimp only
  split
  · exact ⟨_, hticked, .inl rfl⟩
  · exact ⟨_, hticked, .inr rfl⟩

/-- A tick writes no next run. -/
theorem Ticked.next_ne (h : Ticked now job ticked)
    (hne : ticked.state.nextRunAtMs ≠ job.state.nextRunAtMs) (next : Time) :
    ticked.state.nextRunAtMs ≠ some next := by
  intro hnext
  have hsame := hnext
  rw [h.next, Option.filter_eq_some_iff] at hsame
  exact hne (hnext.trans hsame.1.symm)

theorem Ticked.next_eq {next : Time} (h : Ticked now job ticked)
    (hnext : job.state.nextRunAtMs = some next)
    (hscheduled : hasScheduledNextRunAtMs (some next) = true) :
    ticked.state.nextRunAtMs = some next := by
  rw [h.next, hnext, Option.filter_some, if_pos hscheduled]

/-- A next run that is not computed again stays as it is. -/
theorem next_walkJob_of_not_recomputed (h : isJobEnabled job = true) {next : Time}
    (hnext : job.state.nextRunAtMs = some next)
    (hscheduled : hasScheduledNextRunAtMs (some next) = true)
    (hnot : ∀ ticked, Ticked now job ticked → isRecomputed oracle opts ticked now = false) :
    (walkJob oracle opts randomUUID now state job).state.nextRunAtMs = job.state.nextRunAtMs := by
  obtain ⟨ticked, hticked, hwalk | hwalk⟩ :=
    @walkJob_cases oracle opts randomUUID state now job h
  · rw [hwalk, hticked.next_eq hnext hscheduled, hnext]
  · rw [hwalk, maintainJob, hnot ticked hticked]
    exact (hticked.next_eq hnext hscheduled).trans hnext.symm

theorem shouldRepair_eq_false_of_le {next : Time} (hnext : job.state.nextRunAtMs = some next)
    (hle : next ≤ now) : shouldRepairFutureCronNextRunAtMs oracle job now = false := by
  unfold shouldRepairFutureCronNextRunAtMs
  rw [hnext]
  cases job.schedule with
  | cron expr tz staggerMs => simp [hle]
  | _ => rfl

theorem isRecomputed_eq_false_of_due (hticked : Ticked now job ticked)
    (hdue : IsDueUnexecuted job now) (hbackoff : ¬ InErrorBackoff job now) :
    isRecomputed oracle opts ticked now = false := by
  obtain ⟨next, hnext, hscheduled, hle, hlast⟩ := hdue
  have htnext := hticked.next_eq hnext hscheduled
  have hexecuted : alreadyExecutedSlot ticked = false := by
    unfold alreadyExecutedSlot
    rw [htnext, hticked.lastRunAtMs]
    cases hl : finiteTimestamp job.state.lastRunAtMs with
    | none => rfl
    | some lastRun =>
      have hlt := hlast lastRun (finiteTimestamp_eq_some hl).1
      simp [JsNumber.not_le_of_lt hlt]
  have hstale : isStaleBackoffSlot ticked now = false := by
    unfold isStaleBackoffSlot
    rw [htnext, hticked.backoff]
    cases hb : resolveJobErrorBackoffUntilMs job with
    | none => rfl
    | some backoffUntilMs =>
      have hnot : ¬ now < backoffUntilMs := fun hlt => hbackoff ⟨backoffUntilMs, hb, hlt⟩
      simp [hnot]
  simp [isRecomputed, htnext, hscheduled, shouldRepair_eq_false_of_le htnext hle, hexecuted, hstale]

theorem hasForcePreservedNextRun_eq_true :
    hasForcePreservedNextRun job = true ↔ ∃ slot, job.state.forcePreservedNextRunAtMs = some slot ∧
      job.state.nextRunAtMs = some slot ∧ slot.isFinite = true ∧
      hasScheduledNextRunAtMs (some slot) = true := by
  unfold hasForcePreservedNextRun
  cases job.state.forcePreservedNextRunAtMs with
  | none => simp
  | some slot =>
    cases job.state.nextRunAtMs with
    | none => simp
    | some next =>
      simp only [Bool.and_eq_true, decide_eq_true_eq, Option.some.injEq, exists_eq_left']
      constructor
      · rintro ⟨⟨hfinite, hscheduled⟩, rfl⟩
        exact ⟨rfl, hfinite, hscheduled⟩
      · rintro ⟨rfl, hfinite, hscheduled⟩
        exact ⟨⟨hfinite, hscheduled⟩, rfl⟩

theorem isRecomputed_eq_false_of_forcePreserved (hticked : Ticked now job ticked)
    (hforce : hasForcePreservedNextRun job = true) (hanchor : newAnchorMs job now = none) :
    isRecomputed oracle opts ticked now = false := by
  obtain ⟨slot, hslot, hnext, hfinite, hscheduled⟩ := hasForcePreservedNextRun_eq_true.mp hforce
  have htnext := hticked.next_eq hnext hscheduled
  have htforce : hasForcePreservedNextRun ticked = true := by
    refine hasForcePreservedNextRun_eq_true.mpr ⟨slot, ?_, htnext, hfinite, hscheduled⟩
    rw [(hticked.kept hanchor).2.2, hslot, Option.filter_some, if_pos]
    simp [hfinite, htnext]
  simp [isRecomputed, htnext, hscheduled, htforce]

theorem isFinite_of_hasScheduled {next : Time}
    (h : hasScheduledNextRunAtMs (some next) = true) : next.isFinite = true := by
  simp only [hasScheduledNextRunAtMs, Option.any_some, Bool.and_eq_true] at h
  exact h.1

theorem any_le_eq_false {next : Time} (h : now < next) :
    (some next).any (· ≤ now) = false := by
  simp [JsNumber.not_le_of_lt h]

theorem exists_of_hasPendingPacedNextRun (h : hasPendingPacedNextRun opts job now = true) :
    ∃ slot, job.state.pacedNextRunAtMs = some slot ∧ job.state.nextRunAtMs = some slot ∧
      hasScheduledNextRunAtMs (some slot) = true ∧
      (now < slot ∨ opts.preserveExpiredPacedNextRunJobId = some job.id) := by
  unfold hasPendingPacedNextRun at h
  split at h
  · rename_i slot next hslot hnext
    simp only [Bool.and_eq_true, Bool.or_eq_true, decide_eq_true_eq] at h
    obtain ⟨⟨⟨-, hscheduled⟩, rfl⟩, hpending⟩ := h
    exact ⟨slot, hslot, hnext, hscheduled, hpending⟩
  · cases h

theorem Ticked.alreadyExecutedSlot_eq (h : Ticked now job ticked) {next : Time}
    (hnext : job.state.nextRunAtMs = some next)
    (hscheduled : hasScheduledNextRunAtMs (some next) = true) :
    alreadyExecutedSlot ticked = alreadyExecutedSlot job := by
  rw [alreadyExecutedSlot, alreadyExecutedSlot, h.next_eq hnext hscheduled, hnext, h.lastRunAtMs]

theorem Ticked.isStaleBackoffSlot_eq (h : Ticked now job ticked) {next : Time}
    (hnext : job.state.nextRunAtMs = some next)
    (hscheduled : hasScheduledNextRunAtMs (some next) = true) :
    isStaleBackoffSlot ticked now = isStaleBackoffSlot job now := by
  rw [isStaleBackoffSlot, isStaleBackoffSlot, h.next_eq hnext hscheduled, hnext, h.backoff]

theorem isRecomputed_eq_false_of_paced (hticked : Ticked now job ticked)
    (hpaced : hasPendingPacedNextRun opts job now = true) (hspent : ¬ IsSpentSlot opts job now) :
    isRecomputed oracle opts ticked now = false := by
  obtain ⟨slot, hslot, hnext, hscheduled, hpending⟩ := exists_of_hasPendingPacedNextRun hpaced
  have htnext := hticked.next_eq hnext hscheduled
  have hrepair : (!hasPendingPacedNextRun opts ticked now &&
      shouldRepairFutureCronNextRunAtMs oracle ticked now) = false := by
    cases hanchor : newAnchorMs job now with
    | none =>
      have hkept : hasPendingPacedNextRun opts ticked now = true := by
        unfold hasPendingPacedNextRun
        rw [(hticked.kept hanchor).2.1, hslot, htnext, hticked.id]
        simp [isFinite_of_hasScheduled hscheduled, hscheduled, hpending]
      rw [hkept]
      rfl
    | some anchorMs =>
      -- only the slots of cron jobs are repaired
      obtain ⟨everyMs, old, -, -, hschedule⟩ := hticked.anchored anchorMs hanchor
      rw [shouldRepairFutureCronNextRunAtMs, hschedule, Bool.and_false]
  have hexpired : (opts.recomputeExpired && (some slot).any (· ≤ now) &&
      (alreadyExecutedSlot ticked || isStaleBackoffSlot ticked now)) = false := by
    rw [hticked.alreadyExecutedSlot_eq hnext hscheduled,
      hticked.isStaleBackoffSlot_eq hnext hscheduled]
    by_contra h
    simp only [Bool.not_eq_false, Bool.and_eq_true, Bool.or_eq_true, Option.any_some,
      decide_eq_true_eq] at h
    exact hspent ⟨h.1.1, ⟨slot, hnext, h.1.2⟩, h.2⟩
  simp only [Bool.and_eq_false_iff, Bool.not_eq_false', Bool.or_eq_false_iff] at hrepair hexpired
  simp only [isRecomputed, htnext, hscheduled]
  obtain h | h := hrepair <;> obtain (hopts | hlt) | ⟨hexecuted, hstale⟩ := hexpired <;> simp [*]

theorem isRecomputed_eq_false_of_startupCatchup (hticked : Ticked now job ticked)
    (hstartup : IsPendingSlot job.state.startupCatchupAtMs job now) :
    isRecomputed oracle opts ticked now = false := by
  obtain ⟨slot, hslot, hnext, hscheduled, hlt⟩ := hstartup
  have htnext := hticked.next_eq hnext hscheduled
  have hpending : hasPendingStartupCatchup ticked now = true := by
    unfold hasPendingStartupCatchup
    rw [hticked.startupCatchup, hslot, htnext]
    simp [isFinite_of_hasScheduled hscheduled, hscheduled, hlt]
  simp [isRecomputed, htnext, hscheduled, hpending, any_le_eq_false hlt]

theorem Ticked.isRecurring_eq (h : Ticked now job ticked) :
    isRecurring ticked = isRecurring job := by
  cases hanchor : newAnchorMs job now with
  | none => rw [isRecurring, isRecurring, (h.kept hanchor).1]
  | some anchorMs =>
    obtain ⟨everyMs, old, -, hold, hnew⟩ := h.anchored anchorMs hanchor
    rw [isRecurring, isRecurring, hold, hnew]

/-- A next run that is computed again lies ahead, and not before the backoff is over. -/
theorem recomputeJobNextRunAtMs_spec (hslot : oracle.NextSlot) (hrecurring : isRecurring job = true)
    {next : Time} (h : (recomputeJobNextRunAtMs oracle job now).state.nextRunAtMs = some next) :
    now < next ∧ ∀ backoffUntilMs, resolveJobErrorBackoffUntilMs job = some backoffUntilMs →
      backoffUntilMs ≤ next := by
  unfold recomputeJobNextRunAtMs at h
  cases hcompute : computeJobNextRunAtMs oracle job now with
  | error errText =>
    rw [hcompute] at h
    cases h
  | ok newNext =>
    rw [hcompute] at h
    have hafter : afterBackoff job newNext = some next := h
    unfold afterBackoff at hafter
    split at hafter
    · rename_i hschedule
      rw [isRecurring, hschedule] at hrecurring
      cases hrecurring
    · rename_i hnone _
      rw [hafter] at hcompute
      refine ⟨computeJobNextRunAtMs_lt hslot hrecurring hcompute, ?_⟩
      intro backoffUntilMs hsome
      rw [hnone] at hsome
      cases hsome
    · rename_i backoffFloor hsome _
      obtain ⟨computed, rfl, rfl⟩ := Option.map_eq_some_iff.mp hafter
      have hlt := computeJobNextRunAtMs_lt hslot hrecurring hcompute
      have hfloor := resolveJobErrorBackoffUntilMs_ne_nan hsome
      refine ⟨JsNumber.lt_max_of_lt hlt hfloor, ?_⟩
      intro backoffUntilMs hbackoff
      obtain rfl := Option.some.inj (hsome.symm.trans hbackoff)
      exact JsNumber.le_max_right (JsNumber.ne_nan_of_lt hlt).2 hfloor

/-- What a pass keeps of every job. -/
theorem kept_walkJob (hslot : oracle.NextSlot) (job : CronJob) :
    Kept opts now job (walkJob oracle opts randomUUID now state job) := by
  constructor
  · rintro henabled hdue hbackoff
    obtain ⟨next, hnext, hscheduled, -⟩ := id hdue
    exact next_walkJob_of_not_recomputed henabled hnext hscheduled
      fun ticked hticked => isRecomputed_eq_false_of_due hticked hdue hbackoff
  · intro henabled hforce hanchor
    obtain ⟨slot, -, hnext, -, hscheduled⟩ := hasForcePreservedNextRun_eq_true.mp hforce
    exact next_walkJob_of_not_recomputed henabled hnext hscheduled
      fun ticked hticked => isRecomputed_eq_false_of_forcePreserved hticked hforce hanchor
  · intro henabled hpaced hspent
    obtain ⟨slot, -, hnext, hscheduled, -⟩ := exists_of_hasPendingPacedNextRun hpaced
    exact next_walkJob_of_not_recomputed henabled hnext hscheduled
      fun ticked hticked => isRecomputed_eq_false_of_paced hticked hpaced hspent
  · intro henabled hstartup
    obtain ⟨slot, -, hnext, hscheduled, -⟩ := id hstartup
    exact next_walkJob_of_not_recomputed henabled hnext hscheduled
      fun ticked hticked => isRecomputed_eq_false_of_startupCatchup hticked hstartup
  · intro hrecurring next hnext hne
    cases henabled : isJobEnabled job with
    | false =>
      rw [walkJob_of_disabled henabled] at hnext
      cases hnext
    | true =>
      obtain ⟨ticked, hticked, hwalk | hwalk⟩ :=
        @walkJob_cases oracle opts randomUUID state now job henabled
      · rw [hwalk] at hnext hne
        exact absurd hnext (hticked.next_ne hne next)
      · rw [hwalk] at hnext hne
        unfold maintainJob at hnext hne
        cases hre : isRecomputed oracle opts ticked now with
        | false =>
          rw [hre] at hnext hne
          exact absurd hnext (hticked.next_ne hne next)
        | true =>
          rw [hre] at hnext
          have hrecurring' : isRecurring (clearMarkers opts now ticked) = true :=
            hticked.isRecurring_eq.trans hrecurring
          rw [← hticked.backoff]
          exact recomputeJobNextRunAtMs_spec hslot hrecurring' hnext

end Walk

/-- A pass leaves nothing to a second one: the evaluation does not throw, the job is not skipped
because a run is stuck, and its paced slot is not both kept and expired. -/
structure Settles (oracle : ScheduleOracle) (opts : MaintenanceOptions) (now : Time)
    (state : CronServiceState) (job : CronJob) : Prop where
  evaluates : ∀ errText, computeJobNextRunAtMs oracle job now ≠ .error errText
  not_skipped : isJobEnabled job = true →
    job.state.runningAtMs.any (isStuck state job now) = true → alreadyExecutedSlot job = true
  not_expired : ¬ (opts.recomputeExpired = true ∧
    opts.preserveExpiredPacedNextRunJobId = some job.id ∧
    ∃ slot, job.state.pacedNextRunAtMs = some slot ∧ job.state.nextRunAtMs = some slot ∧
      slot ≤ now)

/-- The repairs of a tick find nothing to repair. -/
structure TickFixed (now : Time) (state : CronServiceState) (job : CronJob) : Prop where
  identity : ∀ command, job.schedule = .stream command →
    JsString.trim (job.state.streamSourceIdentity.getD "") ≠ ""
  anchor : newAnchorMs job now = none
  stale : clearStale state now job = job
  running : job.state.runningAtMs.any (isStuck state job now) = false

section Fixed

variable {oracle : ScheduleOracle} {opts : MaintenanceOptions} {randomUUID : String → String}
  {state : CronServiceState} {now : Time} {job : CronJob}

theorem normalizeAnchor_assign_eq_self
    (hidentity : ∀ command, job.schedule = .stream command →
      JsString.trim (job.state.streamSourceIdentity.getD "") ≠ "")
    (hanchor : newAnchorMs job now = none) :
    normalizeAnchor (assignStreamSourceIdentity randomUUID job) now = job := by
  have hassign : assignStreamSourceIdentity randomUUID job = job := by
    unfold assignStreamSourceIdentity
    split
    · rename_i command hschedule
      rw [if_neg (hidentity command hschedule)]
    · rfl
  rw [hassign, normalizeAnchor_of_none hanchor]

theorem TickFixed.walkJob_eq (h : TickFixed now state job) (henabled : isJobEnabled job = true) :
    walkJob oracle opts randomUUID now state job = maintainJob oracle opts now job := by
  rw [walkJob_of_enabled henabled, tickedJob,
    normalizeAnchor_assign_eq_self h.identity h.anchor, h.stale, clearStuckRun, h.running]
  rfl

theorem clearStale_clearStale (state : CronServiceState) (now : Time) (job : CronJob) :
    clearStale state now (clearStale state now job) = clearStale state now job := by
  simp [clearStale, isStuck]

/-- Only the schedule and the identity matter to the first repairs. -/
theorem identity_tickedJob (huuid : ∀ id, JsString.trim (randomUUID id) ≠ "") (job : CronJob)
    (command : List String)
    (h : (normalizeAnchor (assignStreamSourceIdentity randomUUID job) now).schedule =
      .stream command) :
    JsString.trim ((normalizeAnchor (assignStreamSourceIdentity randomUUID job)
      now).state.streamSourceIdentity.getD "") ≠ "" := by
  cases hanchor : newAnchorMs (assignStreamSourceIdentity randomUUID job) now with
  | some anchorMs =>
    obtain ⟨everyMs, old, -, -, hnormal⟩ := normalizeAnchor_of_some hanchor
    rw [hnormal] at h
    cases h
  | none =>
    rw [normalizeAnchor_of_none hanchor] at h ⊢
    unfold assignStreamSourceIdentity at h ⊢
    split
    · split
      · exact huuid job.id
      · assumption
    · rename_i hnot
      split at h
      · rename_i hstream
        exact absurd hstream (hnot _)
      · exact absurd h (hnot _)

theorem tickFixed_clearStuckRun (huuid : ∀ id, JsString.trim (randomUUID id) ≠ "")
    (job : CronJob) :
    TickFixed now state (clearStuckRun state now (tickedJob state randomUUID now job)).1 := by
  have hidentity := @identity_tickedJob randomUUID now huuid job
  have hanchor := newAnchorMs_normalizeAnchor (assignStreamSourceIdentity randomUUID job) now
  have hstale := clearStale_clearStale state now
    (normalizeAnchor (assignStreamSourceIdentity randomUUID job) now)
  unfold clearStuckRun
  split
  · exact ⟨hidentity, hanchor, congrArg releaseRun hstale, rfl⟩
  · rename_i hrunning
    exact ⟨hidentity, hanchor, hstale, by simpa using hrunning⟩

/-- Markers of slots that are pending stay pending. -/
theorem hasPendingStartupCatchup_clearMarkers (job : CronJob) :
    hasPendingStartupCatchup (clearMarkers opts now job) now = hasPendingStartupCatchup job now := by
  cases h : hasPendingStartupCatchup job now with
  | true =>
    have hmarker : (clearMarkers opts now job).state.startupCatchupAtMs =
        job.state.startupCatchupAtMs := by
      rw [clearMarkers, h]
      rfl
    rw [← h, hasPendingStartupCatchup, hasPendingStartupCatchup, hmarker]
    rfl
  | false =>
    have hmarker : (clearMarkers opts now job).state.startupCatchupAtMs = none := by
      rw [clearMarkers, h]
      rfl
    rw [hasPendingStartupCatchup, hmarker]

theorem hasPendingPacedNextRun_clearMarkers (job : CronJob) :
    hasPendingPacedNextRun opts (clearMarkers opts now job) now =
      hasPendingPacedNextRun opts job now := by
  cases h : hasPendingPacedNextRun opts job now with
  | true =>
    have hmarker : (clearMarkers opts now job).state.pacedNextRunAtMs =
        job.state.pacedNextRunAtMs := by
      rw [clearMarkers, h]
      rfl
    rw [← h, hasPendingPacedNextRun, hasPendingPacedNextRun, hmarker]
    rfl
  | false =>
    have hmarker : (clearMarkers opts now job).state.pacedNextRunAtMs = none := by
      rw [clearMarkers, h]
      rfl
    rw [hasPendingPacedNextRun, hmarker]

theorem isRecomputed_clearMarkers (job : CronJob) :
    isRecomputed oracle opts (clearMarkers opts now job) now = isRecomputed oracle opts job now := by
  rw [isRecomputed, isRecomputed, hasPendingStartupCatchup_clearMarkers,
    hasPendingPacedNextRun_clearMarkers]
  rfl

theorem clearMarkers_clearMarkers (job : CronJob) :
    clearMarkers opts now (clearMarkers opts now job) = clearMarkers opts now job := by
  conv_lhs =>
    rw [clearMarkers, hasPendingStartupCatchup_clearMarkers, hasPendingPacedNextRun_clearMarkers]
  cases hstartup : hasPendingStartupCatchup job now <;>
    cases hpaced : hasPendingPacedNextRun opts job now <;> simp [clearMarkers, hstartup, hpaced]

theorem exists_of_hasPendingStartupCatchup (h : hasPendingStartupCatchup job now = true) :
    ∃ slot, job.state.nextRunAtMs = some slot ∧ hasScheduledNextRunAtMs (some slot) = true ∧
      now < slot := by
  unfold hasPendingStartupCatchup at h
  split at h
  · rename_i slot next _ hnext
    simp only [Bool.and_eq_true, decide_eq_true_eq] at h
    obtain ⟨⟨⟨-, hscheduled⟩, rfl⟩, hlt⟩ := h
    exact ⟨slot, hnext, hscheduled, hlt⟩
  · cases h

/-- A job whose next run is computed again has no pending slot but an expired paced one. -/
theorem not_pending_of_isRecomputed (hre : isRecomputed oracle opts job now = true)
    (hexpired : ¬ (opts.recomputeExpired = true ∧
      opts.preserveExpiredPacedNextRunJobId = some job.id ∧
      ∃ slot, job.state.pacedNextRunAtMs = some slot ∧ job.state.nextRunAtMs = some slot ∧
        slot ≤ now)) :
    hasForcePreservedNextRun job = false ∧ hasPendingStartupCatchup job now = false ∧
      hasPendingPacedNextRun opts job now = false := by
  unfold isRecomputed at hre
  split at hre
  · rename_i hnot
    refine ⟨?_, ?_, ?_⟩ <;> by_contra h <;> rw [Bool.not_eq_false] at h
    · obtain ⟨slot, -, hnext, -, hscheduled⟩ := hasForcePreservedNextRun_eq_true.mp h
      simp [hnext, hscheduled] at hnot
    · obtain ⟨slot, hnext, hscheduled, -⟩ := exists_of_hasPendingStartupCatchup h
      simp [hnext, hscheduled] at hnot
    · obtain ⟨slot, -, hnext, hscheduled, -⟩ := exists_of_hasPendingPacedNextRun h
      simp [hnext, hscheduled] at hnot
  · split at hre
    · rename_i hrepair
      simp only [Bool.and_eq_true, Bool.not_eq_true'] at hrepair
      exact ⟨hrepair.1.2, hrepair.1.1.1.2, hrepair.1.1.2⟩
    · simp only [Bool.and_eq_true, Bool.not_eq_true', Option.any_eq_true, decide_eq_true_eq] at hre
      obtain ⟨⟨⟨⟨⟨hopts, hforce⟩, next, hnext, hle⟩, -⟩, -⟩, -⟩ := hre
      refine ⟨hforce, ?_, ?_⟩ <;> by_contra h <;> rw [Bool.not_eq_false] at h
      · obtain ⟨slot, hslot, -, hlt⟩ := exists_of_hasPendingStartupCatchup h
        obtain rfl := Option.some.inj (hslot.symm.trans hnext)
        exact JsNumber.not_le_of_lt hlt hle
      · obtain ⟨slot, hpaced, hslot, -, hlt | hpreserve⟩ := exists_of_hasPendingPacedNextRun h
        · obtain rfl := Option.some.inj (hslot.symm.trans hnext)
          exact JsNumber.not_le_of_lt hlt hle
        · obtain rfl := Option.some.inj (hslot.symm.trans hnext)
          exact hexpired ⟨hopts, hpreserve, slot, hpaced, hslot, hle⟩

theorem recomputeJobNextRunAtMs_of_ok {newNext : Option Time}
    (h : computeJobNextRunAtMs oracle job now = .ok newNext) :
    recomputeJobNextRunAtMs oracle job now = writeNextRun job (afterBackoff job newNext) := by
  rw [recomputeJobNextRunAtMs, h]

theorem writeNextRun_writeNextRun (job : CronJob) (next next' : Option Time) :
    writeNextRun (writeNextRun job next) next' = writeNextRun job next' := by
  simp [writeNextRun]

/-- What is computed again does not depend on what was computed. -/
theorem recomputeJobNextRunAtMs_writeNextRun {newNext : Option Time}
    (h : computeJobNextRunAtMs oracle job now = .ok newNext) (next : Option Time) :
    recomputeJobNextRunAtMs oracle (writeNextRun job next) now =
      writeNextRun job (afterBackoff job newNext) := by
  have hcongr : computeJobNextRunAtMs oracle (writeNextRun job next) now =
      computeJobNextRunAtMs oracle job now :=
    computeJobNextRunAtMs_congr rfl rfl rfl rfl rfl rfl
  rw [recomputeJobNextRunAtMs_of_ok (hcongr.trans h), writeNextRun_writeNextRun]
  rfl

/-- A kept slot that a tick leaves is the next run. -/
theorem TickFixed.forcePreserved_eq_none (h : TickFixed now state job)
    (hforce : hasForcePreservedNextRun job = false) :
    job.state.forcePreservedNextRunAtMs = none := by
  have hnext := congrArg (fun job => job.state.nextRunAtMs) h.stale
  have hslot := congrArg (fun job => job.state.forcePreservedNextRunAtMs) h.stale
  simp only [clearStale] at hnext hslot
  rw [hnext] at hslot
  by_contra hne
  obtain ⟨slot, hsome⟩ := Option.ne_none_iff_exists'.mp hne
  rw [hsome, Option.filter_eq_some_iff] at hslot
  obtain ⟨-, hkept⟩ := hslot
  simp only [Bool.and_eq_true, decide_eq_true_eq] at hkept
  obtain ⟨hfinite, hsame⟩ := hkept
  rw [hsame, Option.filter_eq_some_iff] at hnext
  have htrue := hasForcePreservedNextRun_eq_true.mpr ⟨slot, hsome, hsame, hfinite, hnext.2⟩
  rw [hforce] at htrue
  cases htrue

theorem TickFixed.clearStale_writeNextRun (h : TickFixed now state job)
    (hforce : job.state.forcePreservedNextRunAtMs = none) (next : Option Time) :
    clearStale state now (writeNextRun job next) =
      writeNextRun job (next.filter fun next => hasScheduledNextRunAtMs (some next)) := by
  have hqueued := congrArg (fun job => job.state.queuedAtMs) h.stale
  simp only [clearStale] at hqueued
  simp only [clearStale, writeNextRun, hforce, Option.filter_none]
  congr 2

/-- A next run that was computed again is computed the same in a second pass. -/
theorem TickFixed.walkJob_recomputed (h : TickFixed now state job)
    (henabled : isJobEnabled job = true) (hforce : hasForcePreservedNextRun job = false)
    (hstartup : job.state.startupCatchupAtMs = none) (hpaced : job.state.pacedNextRunAtMs = none)
    (hevaluates : ∀ errText, computeJobNextRunAtMs oracle job now ≠ .error errText) :
    walkJob oracle opts randomUUID now state (recomputeJobNextRunAtMs oracle job now) =
      recomputeJobNextRunAtMs oracle job now := by
  cases hcompute : computeJobNextRunAtMs oracle job now with
  | error errText => exact absurd hcompute (hevaluates errText)
  | ok newNext =>
    rw [recomputeJobNextRunAtMs_of_ok hcompute]
    generalize hr : afterBackoff job newNext = next
    have hmarkers (x : Option Time) :
        clearMarkers opts now (writeNextRun job x) = writeNextRun job x := by
      simp [clearMarkers, writeNextRun, hstartup, hpaced]
    have henabled' : isJobEnabled (writeNextRun job next) = true := henabled
    rw [walkJob_of_enabled henabled', tickedJob,
      @normalizeAnchor_assign_eq_self randomUUID now (writeNextRun job next) h.identity h.anchor,
      h.clearStale_writeNextRun (h.forcePreserved_eq_none hforce)]
    have hrunning : clearStuckRun state now (writeNextRun job
        (next.filter fun next => hasScheduledNextRunAtMs (some next))) = (writeNextRun job
          (next.filter fun next => hasScheduledNextRunAtMs (some next)), false) := by
      rw [clearStuckRun, if_neg]
      exact Bool.eq_false_iff.mp h.running
    rw [hrunning]
    show maintainJob oracle opts now _ = _
    rw [maintainJob, hmarkers]
    cases hre : isRecomputed oracle opts (writeNextRun job
        (next.filter fun next => hasScheduledNextRunAtMs (some next))) now with
    | true =>
      rw [if_pos rfl, recomputeJobNextRunAtMs_writeNextRun hcompute, hr]
    | false =>
      have hscheduled : hasScheduledNextRunAtMs
          (next.filter fun next => hasScheduledNextRunAtMs (some next)) = true := by
        by_contra hnot
        rw [isRecomputed] at hre
        simp [writeNextRun, hnot] at hre
      cases next with
      | none => cases hscheduled
      | some t =>
        rw [if_neg Bool.false_ne_true, Option.filter_some]
        split
        · rfl
        · rename_i hnot
          rw [Option.filter_some, if_neg hnot] at hscheduled
          cases hscheduled

theorem clearDisabled_clearDisabled (state : CronServiceState) (job : CronJob) :
    clearDisabled state (clearDisabled state job) = clearDisabled state job := by
  simp [clearDisabled]

theorem alreadyExecutedSlot_ticked {ticked : CronJob} (h : Ticked now job ticked) :
    alreadyExecutedSlot ticked = alreadyExecutedSlot job := by
  unfold alreadyExecutedSlot
  rw [h.next, h.lastRunAtMs]
  cases job.state.nextRunAtMs with
  | none => rfl
  | some next =>
    rw [Option.filter_some]
    by_cases hscheduled : hasScheduledNextRunAtMs (some next) = true
    · rw [if_pos hscheduled]
    · rw [if_neg hscheduled]
      cases finiteTimestamp job.state.lastRunAtMs with
      | none => rfl
      | some lastRun => simp [hscheduled]

theorem runningAtMs_tickedJob (job : CronJob) :
    (tickedJob state randomUUID now job).state.runningAtMs = job.state.runningAtMs := by
  obtain ⟨identity, hassign⟩ := exists_assign_eq randomUUID job
  rw [tickedJob, hassign]
  unfold normalizeAnchor
  split <;> rfl

/-- The new anchor of a schedule is the one that it is evaluated with. -/
theorem computeJobNextRunAtMs_ticked {ticked : CronJob} (h : Ticked now job ticked) :
    computeJobNextRunAtMs oracle ticked now = computeJobNextRunAtMs oracle job now := by
  cases hanchor : newAnchorMs job now with
  | none =>
    exact computeJobNextRunAtMs_congr h.id h.enabled (h.kept hanchor).1 h.createdAtMs h.lastRunAtMs
      h.lastRunStatus
  | some anchorMs =>
    obtain ⟨everyMs, old, rfl, hold, hnew⟩ := h.anchored anchorMs hanchor
    have hfallback : fallbackAnchorMs ticked now = fallbackAnchorMs job now := by
      rw [fallbackAnchorMs, fallbackAnchorMs, h.createdAtMs]
    have hidem := resolveEveryAnchorMs_resolveEveryAnchorMs old (fallbackAnchorMs job now)
    unfold computeJobNextRunAtMs isJobEnabled
    rw [h.enabled, hold, hnew, h.lastRunAtMs]
    dsimp only
    rw [hfallback, hidem]

theorem TickFixed.clearMarkers (h : TickFixed now state job) :
    TickFixed now state (clearMarkers opts now job) := by
  refine ⟨h.identity, h.anchor, ?_, h.running⟩
  exact congrArg (fun fixed : CronJob => { fixed with state := { fixed.state with
    startupCatchupAtMs := (Cron.clearMarkers opts now job).state.startupCatchupAtMs
    pacedNextRunAtMs := (Cron.clearMarkers opts now job).state.pacedNextRunAtMs } }) h.stale

/-- A second pass at the same time changes nothing. -/
theorem walkJob_walkJob (huuid : ∀ id, JsString.trim (randomUUID id) ≠ "")
    (randomUUID' : String → String) (h : Settles oracle opts now state job) :
    walkJob oracle opts randomUUID' now state (walkJob oracle opts randomUUID now state job) =
      walkJob oracle opts randomUUID now state job := by
  cases henabled : isJobEnabled job with
  | false =>
    rw [walkJob_of_disabled henabled]
    have hdisabled : isJobEnabled (clearDisabled state
        (normalizeAnchor (assignStreamSourceIdentity randomUUID job) now)) = false :=
      (@isJobEnabled_normalizeAnchor randomUUID now job).trans henabled
    have hself := @normalizeAnchor_assign_eq_self randomUUID' now (clearDisabled state
      (normalizeAnchor (assignStreamSourceIdentity randomUUID job) now))
      (identity_tickedJob huuid job) (newAnchorMs_normalizeAnchor _ now)
    rw [walkJob_of_disabled hdisabled, hself, clearDisabled_clearDisabled]
  | true =>
    have hticked := ticked_tickedJob state randomUUID now job
    have htick := @ticked_clearStuckRun state now job _ hticked
    have hfixed := @tickFixed_clearStuckRun randomUUID state now huuid job
    -- the slot of a stuck run was not executed, or the job would not be settled
    have hskip : (clearStuckRun state now (tickedJob state randomUUID now job)).2 = false := by
      unfold clearStuckRun
      split
      · rename_i hstuck
        rw [runningAtMs_tickedJob] at hstuck
        show (!alreadyExecutedSlot _) = false
        rw [alreadyExecutedSlot_ticked hticked.releaseRun, h.not_skipped henabled]
        · rfl
        · unfold isStuck at hstuck ⊢
          rw [hticked.id] at hstuck
          exact hstuck
      · rfl
    rw [walkJob_of_enabled henabled]
    dsimp only
    rw [hskip, if_neg Bool.false_ne_true]
    generalize (clearStuckRun state now (tickedJob state randomUUID now job)).1 = ticked
      at htick hfixed
    have henabled' : isJobEnabled ticked = true := by
      rw [isJobEnabled, htick.enabled]
      exact henabled
    have hmarkers := @TickFixed.clearMarkers opts state now ticked hfixed
    cases hre : isRecomputed oracle opts ticked now with
    | false =>
      have hmaintain : maintainJob oracle opts now ticked = clearMarkers opts now ticked := by
        rw [maintainJob, hre]
        rfl
      rw [hmaintain, hmarkers.walkJob_eq henabled', maintainJob, isRecomputed_clearMarkers, hre,
        clearMarkers_clearMarkers]
      rfl
    | true =>
      -- no expired slot is preserved
      have hexpired : ¬ (opts.recomputeExpired = true ∧
          opts.preserveExpiredPacedNextRunJobId = some ticked.id ∧
          ∃ slot, ticked.state.pacedNextRunAtMs = some slot ∧
            ticked.state.nextRunAtMs = some slot ∧ slot ≤ now) := by
        rintro ⟨hopts, hpreserve, slot, hpaced, hnext, hle⟩
        rw [htick.id] at hpreserve
        rw [htick.next, Option.filter_eq_some_iff] at hnext
        exact h.not_expired ⟨hopts, hpreserve, slot, htick.paced slot hpaced, hnext.1, hle⟩
      obtain ⟨hforce, hstartup, hpaced⟩ := not_pending_of_isRecomputed hre hexpired
      have hmaintain : maintainJob oracle opts now ticked =
          recomputeJobNextRunAtMs oracle (clearMarkers opts now ticked) now := by
        rw [maintainJob, hre]
        rfl
      have hcompute : computeJobNextRunAtMs oracle (clearMarkers opts now ticked) now =
          computeJobNextRunAtMs oracle job now := by
        rw [← computeJobNextRunAtMs_ticked htick]
        exact computeJobNextRunAtMs_congr rfl rfl rfl rfl rfl rfl
      rw [hmaintain]
      apply hmarkers.walkJob_recomputed henabled' hforce
      · simp [clearMarkers, hstartup]
      · simp [clearMarkers, hpaced]
      · rw [hcompute]
        exact h.evaluates

end Fixed

/-- What a pass over a store keeps of every job, and when a second pass changes nothing. -/
theorem maintenance_keeps {oracle : ScheduleOracle} (hslot : oracle.NextSlot)
    (opts : MaintenanceOptions) {randomUUID : String → String}
    (huuid : ∀ id, JsString.trim (randomUUID id) ≠ "") (randomUUID' : String → String)
    (now : Time) (state : CronServiceState) {jobs : List CronJob}
    (hstore : state.store = some jobs) :
    (∃ kept, (recomputeNextRunsForMaintenance oracle opts randomUUID now state).store = some kept ∧
      List.Forall₂ (Kept opts now) jobs kept) ∧
    ((∀ job ∈ jobs, Settles oracle opts now state job) →
      recomputeNextRunsForMaintenance oracle opts randomUUID' now
        (recomputeNextRunsForMaintenance oracle opts randomUUID now state) =
      recomputeNextRunsForMaintenance oracle opts randomUUID now state) := by
  constructor
  · refine ⟨jobs.map (walkJob oracle opts randomUUID now state), ?_, ?_⟩
    · rw [recomputeNextRunsForMaintenance, hstore]
      rfl
    · rw [List.forall₂_map_right_iff]
      exact List.forall₂_same.mpr fun job _ => kept_walkJob hslot job
  · intro hsettles
    rw [recomputeNextRunsForMaintenance, recomputeNextRunsForMaintenance, hstore]
    simp only [Option.map_some, List.map_map]
    congr 2
    apply List.map_congr_left
    intro job hjob
    -- a pass over a job does not read the other jobs
    show walkJob oracle opts randomUUID' now state _ = _
    exact walkJob_walkJob huuid randomUUID' (hsettles job hjob)

/-- Every whole minute, and an error for what is no such expression. -/
def everyMinute : ScheduleOracle where
  computeNextRunAtMs
    | .cron expr _ _, .finite q =>
      if expr = "* * * * *" then .ok (some (.finite ((q / 60000).floor * 60000 + 60000)))
      else .error "Error: CronPattern: invalid configuration format"
    | _, _ => .ok none
  computePreviousRunAtMs
    | .cron _ _ _, .finite q => .ok (some (.finite ((q / 60000).ceil * 60000 - 60000)))
    | _, _ => .ok none
  offsetMs _ _ := 0
  parseAbsoluteTimeMs _ := none

theorem nextSlot_everyMinute : everyMinute.NextSlot := by
  intro schedule now next h
  simp only [everyMinute] at h
  split at h
  · rename_i expr tz staggerMs q
    split at h
    · obtain rfl := Option.some.inj (Except.ok.inj h)
      apply decide_eq_true
      have hlt : q / 60000 < (q / 60000).floor + 1 := Int.lt_floor_add_one (q / 60000)
      linarith
    · cases h
  · cases h

/-- An enabled job with nothing scheduled. -/
def unscheduledJob (schedule : CronSchedule) : CronJob where
  id := "job"
  enabled := some true
  schedule := schedule
  isAgentTurn := false
  createdAtMs := some (.ofNat 0)
  state := ⟨none, none, none, none, none, none, none, none, none, none, none, none, none, none⟩

/-- The store of one job after so many passes. -/
def passes (opts : MaintenanceOptions) (now : Time) (job : CronJob) (n : ℕ) :
    Option (List CronJob) :=
  ((recomputeNextRunsForMaintenance everyMinute opts (fun _ => "source") now)^[n]
    ⟨some [job], .empty, fun _ => false⟩).store

theorem maintenance_keeps_sample :
    let job := unscheduledJob (.cron "* * * * *" none none)
    let opts : MaintenanceOptions := ⟨true, true, none⟩
    let state : CronServiceState := ⟨some [job], .empty, fun _ => false⟩
    let kept := recomputeNextRunsForMaintenance everyMinute opts (fun _ => "source") (.ofNat 90000)
      state
    (∃ jobs, kept.store = some jobs ∧ List.Forall₂ (Kept opts (.ofNat 90000)) [job] jobs) ∧
      recomputeNextRunsForMaintenance everyMinute opts (fun _ => "other") (.ofNat 90000) kept =
        kept := by
  intro job opts state kept
  have huuid : ∀ id : String, JsString.trim ((fun _ => "source") id) ≠ "" := by
    intro _
    show JsString.trim "source" ≠ ""
    decide +kernel
  obtain ⟨hkept, hsettled⟩ := maintenance_keeps nextSlot_everyMinute opts huuid (fun _ => "other")
    (.ofNat 90000) state rfl
  refine ⟨hkept, hsettled ?_⟩
  intro job' hjob'
  obtain rfl := List.mem_singleton.mp hjob'
  refine ⟨?_, ?_, ?_⟩
  · intro errText herr
    have hok : (computeJobNextRunAtMs everyMinute job (.ofNat 90000)).toOption.isSome = true := by
      decide +kernel
    rw [herr] at hok
    cases hok
  · intro _ hrunning
    cases hrunning
  · rintro ⟨-, hpreserve, -⟩
    cases hpreserve

/-- A forced slot goes with the anchor it was kept under.  A second pass repairs a job that the
first one skipped, counts a second error, and drops a paced slot that the first one kept. -/
theorem maintenance_not_settled :
    everyMinute.NextSlot ∧
    (let job := unscheduledJob (.every (.ofNat 60000) none)
     let forced : CronJob := { job with
      state := { job.state with
        nextRunAtMs := some (.ofNat 50000)
        forcePreservedNextRunAtMs := some (.ofNat 50000)
        lastRunAtMs := some (.ofNat 50000) } }
     hasForcePreservedNextRun forced = true ∧
       (passes ⟨true, true, none⟩ (.ofNat 90000) forced 1).map
         (List.map fun job => job.state.nextRunAtMs) = some [some (.ofNat 110000)]) ∧
    (let job := unscheduledJob (.cron "* * * * *" none none)
     let stuck : CronJob := { job with
      state := { job.state with runningAtMs := some (.ofNat 0) } }
     passes ⟨true, true, none⟩ (.ofNat 7290000) stuck 2 ≠
       passes ⟨true, true, none⟩ (.ofNat 7290000) stuck 1) ∧
    (let invalid := unscheduledJob (.cron "every minute" none none)
     passes ⟨true, true, none⟩ (.ofNat 90000) invalid 2 ≠
       passes ⟨true, true, none⟩ (.ofNat 90000) invalid 1) ∧
    (let job := unscheduledJob (.cron "* * * * *" none none)
     let paced : CronJob := { job with
      state := { job.state with
        nextRunAtMs := some (.ofNat 50000)
        pacedNextRunAtMs := some (.ofNat 50000)
        lastRunAtMs := some (.ofNat 50000) } }
     passes ⟨true, true, some "job"⟩ (.ofNat 90000) paced 2 ≠
       passes ⟨true, true, some "job"⟩ (.ofNat 90000) paced 1) := by
  refine ⟨nextSlot_everyMinute, ?_, ?_, ?_, ?_⟩
  · constructor <;> decide +kernel
  all_goals decide +kernel

end Flashclaw.Cron
