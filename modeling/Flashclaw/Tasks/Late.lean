import Flashclaw.Tasks.Canonical

/-!
# Tasks: late cancellations

When the status write of a cancellation meets a task that has ended in the meantime.
-/

namespace Flashclaw.Tasks

open Utf16

variable {toLowerCase : Utf16 → Utf16} {tasks tasks' : TaskTable} {s s' : State} {l : Label}
  {store : Utf16 → Persist} {task current pre post : TaskRecord} {pending : Pending}
  {isProvisional : Bool} {error : Utf16} {eventAt : JsNumber}

/-- With this result of its control a call goes on to its status write. -/
def goesOn (pending : Pending) : ControlResult → Bool
  | .throws _ => false
  | .handled handled =>
    if pending.control = .cancelBackgroundExecSession then hasText pending.task.sourceId && handled
    else handled || !hasText pending.task.childSessionKey
  | .sessionCancelled => true
  | .killed result => result.all (·.targetState.isNone)

/-- A task that has ended like `current` is not protected from the write. -/
def atRisk (pending : Pending) (current : TaskRecord) : Bool :=
  match pending.control with
  | .cancelBackgroundExecSession | .cancelActiveCronTaskRun => true
  | .cancelSession =>
    !hasText pending.task.runId || current.status = .succeeded || current.status = .cancelled
  | .killSubagentRunAdmin => pending.isProvisionalSubagentKill && current.status = .cancelled

/-- The task of a call has ended during the control call, and the call writes its status. -/
def Overtaken (s : State) : Label → Prop
  | .resume i result _ _ => ∃ pending current, s.call i = .awaiting pending ∧
      s.tasks.get pending.task.taskId = some current ∧ current.isCanonical = true ∧
      goesOn pending result = true ∧ atRisk pending current = true
  | _ => False

/-- What a call keeps of its task holds of the record of the table. -/
structure Pending.Holds (pending : Pending) (tasks : TaskTable) : Prop where
  control : pending.control.runtime = pending.task.runtime
  error : pending.cancellationError ≠ SUBAGENT_KILL_TASK_ERROR
  runtime : ∀ current, tasks.get pending.task.taskId = some current →
    current.runtime = pending.task.runtime

def Holds (s : State) : Prop := ∀ i pending, s.call i = .awaiting pending → pending.Holds s.tasks

theorem cancellationError_ne (reason : Option Utf16) :
    cancellationError reason ≠ SUBAGENT_KILL_TASK_ERROR := by
  unfold cancellationError
  split
  · split_ifs with h
    · exact h
    · decide
  · decide

theorem Pending.Holds.of_changes {runPatch : Option RunPatch} (h : pending.Holds tasks)
    (hchanges : Changes (Evolves runPatch) tasks tasks') : pending.Holds tasks' where
  control := h.control
  error := h.error
  runtime post hpost := by
    obtain ⟨pre, hpre, hevolves⟩ := hchanges.get_of_get hpost
    exact hevolves.runtime.trans (h.runtime pre hpre)

/-- A reconciliation that goes on has left the marker of a kill. -/
theorem reconcile_cases (store : Utf16 → Persist) (tasks : TaskTable) (pending : Pending)
    (runId : Utf16) (target : DetachedTaskTerminalState) :
    (∃ tasks' result, reconcile store tasks pending runId target = .returns tasks' result ∧
      result.cancelled = false) ∨
    ∃ tasks', reconcile store tasks pending runId target =
        .writes tasks' pending.task true pending.cancellationError ∧
      ∀ current, tasks'.get pending.task.taskId = some current → current.hasKillMarker = true := by
  unfold reconcile
  dsimp only
  split
  case h_1 message herror => exact .inl ⟨_, _, rfl, rfl⟩
  case h_2 updated hok =>
    split
    case h_1 hfind => exact .inl ⟨_, _, rfl, rfl⟩
    case h_2 reconciled hfind =>
      split_ifs with hkilled hsucceeded
      · refine .inr ⟨_, rfl, ?_⟩
        intro current hcurrent
        obtain ⟨hleft, pre, -, -, -, rfl⟩ :=
          (updateTaskStateByRunId_spec _ _ _ _).2 updated hok reconciled (List.mem_of_find?_eq_some hfind)
        have hid : (patched target.patch.apply pre).taskId = pending.task.taskId := by
          simpa using List.find?_some hfind
        obtain ⟨hmem, hid'⟩ := get_eq_some.mp hcurrent
        obtain rfl := SqlTable.eq_of_key hmem hleft (hid'.trans hid.symm)
        rw [Bool.and_eq_true, decide_eq_true_eq, decide_eq_true_eq] at hkilled
        unfold TaskRecord.hasKillMarker
        rw [Bool.and_eq_true, decide_eq_true_eq, decide_eq_true_eq]
        refine ⟨hkilled.1, ?_⟩
        show (if _ then none else (target.error <|> pre.error)) = some SUBAGENT_KILL_TASK_ERROR
        rw [if_neg, hkilled.2]
        · rfl
        · simp [DetachedTaskTerminalState.patch, hkilled.1]
      · exact .inl ⟨_, _, rfl, rfl⟩
      · exact .inl ⟨_, _, rfl, rfl⟩

/-- Behind a kill a call goes on where the task is open, or provisionally killed before or now. -/
theorem resumeKill_cases (store : Utf16 → Persist) (tasks : TaskTable) (pending : Pending)
    (result : Option KillResult) :
    (∃ tasks' returned, resumeKill store tasks pending result = .returns tasks' returned ∧
      returned.cancelled = false) ∨
    ∃ tasks' isProvisional, resumeKill store tasks pending result =
        .writes tasks' pending.task isProvisional pending.cancellationError ∧
      ∀ current, tasks'.get pending.task.taskId = some current →
        isTerminalTaskStatus current.status = true → current.hasKillMarker = true ∨
          (tasks' = tasks ∧ goesOn pending (.killed result) = true ∧
            current.status = .cancelled ∧ pending.isProvisionalSubagentKill = true) := by
  unfold resumeKill
  dsimp only
  split
  case h_1 current hcurrent =>
    split_ifs
    · exact .inl ⟨_, _, rfl, rfl⟩
    · exact .inl ⟨_, _, rfl, rfl⟩
    · exact .inl ⟨_, _, rfl, rfl⟩
  case h_2 hcurrent =>
    -- what is known of the task where the call goes on
    have hleft : ∀ current, tasks.get pending.task.taskId = some current →
        isTerminalTaskStatus current.status = true → current.hasKillMarker = true ∨
          (current.status = .cancelled ∧ pending.isProvisionalSubagentKill = true) := by
      intro current hget hterminal
      rw [hget, Option.filter_eq_none_iff] at hcurrent
      have hkept := hcurrent current rfl
      rw [hterminal, Bool.true_and, Bool.not_eq_true', Bool.not_eq_false, Bool.and_eq_true,
        decide_eq_true_eq, Bool.or_eq_true, Option.any_some] at hkept
      exact hkept.2.symm.imp id fun h => ⟨hkept.1, h⟩
    split
    · rcases reconcile_cases store tasks pending _ _ with
          ⟨tasks', returned, heq, hfalse⟩ | ⟨tasks', heq, hkilled⟩
      · exact .inl ⟨_, _, heq, hfalse⟩
      · exact .inr ⟨_, _, heq, fun current hget _ => .inl (hkilled current hget)⟩
    · exact .inl ⟨_, _, rfl, rfl⟩
    · split_ifs
      · exact .inl ⟨_, _, rfl, rfl⟩
      · refine .inr ⟨_, _, rfl, fun current hget hterminal => ?_⟩
        exact (hleft current hget hterminal).imp id fun h => ⟨rfl, rfl, h⟩
    · split_ifs
      · exact .inl ⟨_, _, rfl, rfl⟩
      · refine .inr ⟨_, _, rfl, fun current hget hterminal => ?_⟩
        exact (hleft current hget hterminal).imp id fun h => ⟨rfl, rfl, h⟩

/-- Behind its control call a call returns, or comes to its status write. -/
theorem resumeCancel_cases {result : ControlResult} {seg : Segment}
    (hcontrol : pending.control.runtime = pending.task.runtime)
    (h : resumeCancel store tasks pending result = some seg) :
    (∃ tasks' returned, seg = .returns tasks' returned ∧ returned.cancelled = false) ∨
    ∃ tasks' isProvisional, seg =
        .writes tasks' pending.task isProvisional pending.cancellationError ∧
      ∀ current, tasks'.get pending.task.taskId = some current →
        current.runtime = pending.task.runtime → current.isCanonical = true →
        (tasks' = tasks ∧ goesOn pending result = true ∧ atRisk pending current = true) ∨
        (pending.control = .cancelSession ∧ hasText pending.task.runId = true ∧
          current.status ≠ .succeeded ∧ current.status ≠ .cancelled) := by
  unfold resumeCancel at h
  dsimp only at h
  split at h
  case h_1 => cases h; exact .inl ⟨_, _, rfl, rfl⟩
  case h_2 handled hexec =>
    split_ifs at h with hhandled
    · cases h
      refine .inr ⟨_, _, rfl, fun current _ _ _ => .inl ⟨rfl, ?_, ?_⟩⟩
      · unfold goesOn
        dsimp only
        rwa [if_pos hexec]
      · unfold atRisk
        rw [hexec]
    · cases h
      exact .inl ⟨_, _, rfl, rfl⟩
  case h_3 handled hcron =>
    split_ifs at h with hhandled
    · cases h
      exact .inl ⟨_, _, rfl, rfl⟩
    · cases h
      refine .inr ⟨_, _, rfl, fun current _ _ _ => .inl ⟨rfl, ?_, ?_⟩⟩
      · unfold goesOn
        dsimp only
        rw [hcron, if_neg (by decide)]
        revert hhandled
        cases handled <;> cases hasText pending.task.childSessionKey <;> decide
      · unfold atRisk
        rw [hcron]
  case h_4 hsession =>
    cases h
    refine .inr ⟨_, _, rfl, fun current _ _ _ => ?_⟩
    -- a session's task is written as cancelled whatever it has become meanwhile
    by_cases hrisk : atRisk pending current = true
    · exact .inl ⟨rfl, rfl, hrisk⟩
    · unfold atRisk at hrisk
      rw [hsession] at hrisk
      simp only [Bool.or_eq_true, Bool.not_eq_true', decide_eq_true_eq, not_or,
        Bool.not_eq_false] at hrisk
      exact .inr ⟨hsession, hrisk.1.1, hrisk.1.2, hrisk.2⟩
  case h_5 result hkill =>
    cases h
    -- the kill of a subagent looks at the task again before it is written
    rcases resumeKill_cases store tasks pending result with
      ⟨tasks', returned, heq, hfalse⟩ | ⟨tasks', isProvisional, heq, hleft⟩
    · exact .inl ⟨_, _, heq, hfalse⟩
    · refine .inr ⟨_, _, heq, fun current hget hruntime hcanonical => .inl ?_⟩
      have hcanonical' := hcanonical
      unfold TaskRecord.isCanonical at hcanonical'
      rw [hruntime, ← hcontrol, hkill, Bool.and_eq_true, Bool.not_eq_true'] at hcanonical'
      rcases hleft current hget hcanonical'.1 with hmarker | ⟨hsame, hgoes, hcancelled, hprovisional⟩
      · rw [hmarker] at hcanonical'
        cases hcanonical'.2
      · refine ⟨hsame, hgoes, ?_⟩
        unfold atRisk
        rw [hkill]
        dsimp only
        rw [hprovisional, hcancelled]
        rfl
  case h_6 => cases h

theorem segment_resume {i : ℕ} {result : ControlResult} {seg : Segment}
    (h : segment s (.resume i result store eventAt) = some seg) :
    ∃ pending, s.call i = .awaiting pending ∧ resumeCancel store s.tasks pending result = some seg := by
  unfold segment at h
  dsimp only at h
  split at h
  case h_1 pending hcall => exact ⟨pending, hcall, h⟩
  case h_2 => cases h

theorem segment_cancel {i : ℕ} {taskId : Utf16} {reason ready : Option Utf16} {seg : Segment}
    (h : segment s (.cancel i taskId reason ready store eventAt) = some seg) :
    beginCancel s.tasks taskId reason ready = seg := by
  unfold segment at h
  dsimp only at h
  split at h
  case h_1 => exact Option.some.inj h
  case h_2 => cases h

theorem holds_step (hs : Holds s) (h : step toLowerCase s l = some s') : Holds s' := by
  have hchanges := step_changes h
  -- calls that wait from before
  have hold : ∀ i pending, s.call i = .awaiting pending → pending.Holds s'.tasks :=
    fun i pending hcall => (hs i pending hcall).of_changes hchanges
  have hsettled : ∀ {i result}, s'.call = Function.update s.call i (.settled result) →
      Holds s' := by
    intro i result hcalls j pending hcall
    rw [hcalls] at hcall
    by_cases hj : j = i
    · rw [hj, Function.update_self] at hcall
      cases hcall
    · rw [Function.update_of_ne hj] at hcall
      exact hold j pending hcall
  cases l with
  | event evt store dateNow =>
    cases h
    exact hold
  | update scope patch store =>
    cases h
    exact hold
  | cancel i taskId reason ready store eventAt =>
    obtain ⟨seg, hseg, rfl⟩ := Option.map_eq_some_iff.mp h
    have hbegin := segment_cancel hseg
    rcases beginCancel_cases s.tasks taskId reason ready with
      ⟨result, heq, -⟩ | ⟨task, hget, -, ⟨control, hcontrol, heq⟩ | heq⟩
    · rw [heq] at hbegin
      subst hbegin
      exact hsettled rfl
    · rw [heq] at hbegin
      subst hbegin
      intro j pending hcall
      replace hcall : Function.update s.call i (.awaiting ⟨task, _, _, control⟩) j =
        .awaiting pending := hcall
      by_cases hj : j = i
      · rw [hj, Function.update_self] at hcall
        cases hcall
        refine ⟨hcontrol, cancellationError_ne reason, ?_⟩
        intro current hcurrent
        obtain ⟨hmem, hid⟩ := get_eq_some.mp hget
        have hself : s.tasks.get task.taskId = some task := get_eq_some.mpr ⟨hmem, rfl⟩
        rw [Option.some.inj (hcurrent.symm.trans hself)]
      · rw [Function.update_of_ne hj] at hcall
        exact hold j pending hcall
    · rw [heq] at hbegin
      subst hbegin
      exact hsettled rfl
  | resume i result store eventAt =>
    obtain ⟨seg, hseg, rfl⟩ := Option.map_eq_some_iff.mp h
    obtain ⟨pending, hcall, hresume⟩ := segment_resume hseg
    rcases resumeCancel_cases (hs i pending hcall).control hresume with
      ⟨tasks', returned, rfl, -⟩ | ⟨tasks', isProvisional, rfl, -⟩
    · exact hsettled rfl
    · exact hsettled rfl

/-- A write by run scope leaves tasks that have failed, timed out or been lost. -/
theorem writeCancelled_kept (store : Utf16 → Persist) (isProvisional : Bool) (eventAt : JsNumber)
    (hget : tasks.get task.taskId = some current)
    (hscope : writesByRunScope task = true) (herror : error ≠ SUBAGENT_KILL_TASK_ERROR)
    (hterminal : isTerminalTaskStatus current.status = true) (hsucceeded : current.status ≠ .succeeded)
    (hcancelled : current.status ≠ .cancelled) :
    (writeCancelled store tasks task isProvisional error eventAt).1.get task.taskId = some current ∧
      (writeCancelled store tasks task isProvisional error eventAt).2.cancelled = false := by
  -- A cancel replaces a finished record only where that record is succeeded or cancelled.
  have happlies : ∀ {endedAt : JsNumber},
      (cancelPatch error endedAt eventAt).applies current = false := by
    intro endedAt
    unfold RunPatch.applies cancelPatch shouldApplyRunScopedStatusUpdate
    dsimp only
    rw [Option.all_some, if_neg, if_neg hcancelled, if_neg, if_neg (by decide), if_neg]
    · simpa using hsucceeded
    · simp [hcancelled]
    · simp [hterminal]
    · simp [herror]
  unfold writeCancelled
  dsimp only
  rw [if_pos hscope]
  dsimp only
  generalize hendedAt : (if isProvisional = true then
    ((tasks.get task.taskId).getD task).endedAt.getD eventAt else eventAt) = endedAt
  obtain ⟨hchanges, hupdated⟩ := updateTaskStateByRunId_spec store tasks
    (childScope task (task.runId.getD [])) (cancelPatch error endedAt eventAt)
  constructor
  · obtain ⟨post, hpost, rfl | ⟨happly, -⟩⟩ := hchanges.get hget
    · exact hpost
    · rw [happlies] at happly
      cases happly
  · generalize hresult : (updateTaskStateByRunId store tasks (childScope task (task.runId.getD []))
      (cancelPatch error endedAt eventAt)).2 = result
    cases result with
    | error message => rfl
    | ok updated =>
      cases hfind : updated.find? (·.taskId = task.taskId) with
      | none =>
        simp only [Except.map]
        rw [hfind]
        rfl
      | some post =>
        obtain ⟨-, pre, hpre, happly, -, rfl⟩ :=
          hupdated updated hresult post (List.mem_of_find?_eq_some hfind)
        have hid : (patched (cancelPatch error endedAt eventAt).apply pre).taskId = task.taskId := by
          simpa only [decide_eq_true_eq] using List.find?_some hfind
        obtain ⟨hcurrent, hid'⟩ := get_eq_some.mp hget
        obtain rfl := SqlTable.eq_of_key hpre hcurrent (hid.trans hid'.symm)
        rw [happlies] at happly
        cases happly

/-- The call that a label is of. -/
def Label.call : Label → Option ℕ
  | .event _ _ _ | .update _ _ _ => none
  | .cancel i _ _ _ _ _ | .resume i _ _ _ => some i

/-- What every step does with tasks that have ended. -/
structure Ends (toLowerCase : Utf16 → Utf16) (s : State) (l : Label) : Prop where
  /-- No task that has ended is queued or running again. -/
  terminal : ∀ {pre post s'}, step toLowerCase s l = some s' → pre ∈ s.tasks.rows →
    post ∈ s'.tasks.rows → post.taskId = pre.taskId →
    isTerminalTaskStatus pre.status = true → isTerminalTaskStatus post.status = true
  /-- What replaces an operator's cancellation is the completion of a subagent before it. -/
  cancelled : ∀ {pre post s'}, step toLowerCase s l = some s' → pre ∈ s.tasks.rows →
    post ∈ s'.tasks.rows → post.taskId = pre.taskId → pre.isCanonical = true →
    pre.status = .cancelled → post.status ≠ .cancelled →
    ∃ completion, l.runPatch = some completion ∧ Predates completion pre

/-- What a step does that overtakes no call. -/
structure Faithful (toLowerCase : Utf16 → Utf16) (s : State) (l : Label) : Prop
    extends Ends toLowerCase s l where
  /-- A task that has ended when a call comes to its status write is left, and the call says so. -/
  write : ∀ {tasks task isProvisional error current s'},
    segment s l = some (.writes tasks task isProvisional error) →
    tasks.get task.taskId = some current → current.isCanonical = true →
    step toLowerCase s l = some s' →
    (∃ post, s'.tasks.get task.taskId = some post ∧ post.status = current.status ∧
      post.endedAt = current.endedAt ∧ post.error = current.error) ∧
    ∀ i, l.call = some i → ∃ result, s'.call i = .settled result ∧ result.cancelled = false

theorem ends (s : State) (l : Label) : Ends toLowerCase s l where
  terminal hstep hpre hpost hid := ((step_changes hstep).of_mem hpre hpost hid).terminal
  cancelled hstep hpre hpost hid := ((step_changes hstep).of_mem hpre hpost hid).replaced

theorem faithful_of_not_overtaken (hs : Holds s) (h : ¬ Overtaken s l) :
    Faithful toLowerCase s l := by
  refine ⟨ends s l, ?_⟩
  · intro tasks task isProvisional error current s' hseg hget hcanonical hstep
    cases l with
    | event evt store dateNow => cases hseg
    | update scope patch store => cases hseg
    | cancel i taskId reason ready store eventAt =>
      have hbegin := segment_cancel hseg
      rcases beginCancel_cases s.tasks taskId reason ready with
        ⟨result, heq, -⟩ | ⟨task', hget', hopen, ⟨control, -, heq⟩ | heq⟩
      · rw [heq] at hbegin
        cases hbegin
      · rw [heq] at hbegin
        cases hbegin
      · -- nothing comes between the start of the call and this write
        rw [heq] at hbegin
        cases hbegin
        obtain ⟨hmem, hid⟩ := get_eq_some.mp hget'
        have hself : s.tasks.get task.taskId = some task := get_eq_some.mpr ⟨hmem, rfl⟩
        rw [Option.some.inj (hget.symm.trans hself), hopen] at hcanonical
        cases hcanonical
    | resume i result store eventAt =>
      obtain ⟨pending, hcall, hresume⟩ := segment_resume hseg
      have hpending := hs i pending hcall
      rcases resumeCancel_cases hpending.control hresume with
        ⟨tasks', returned, heq, -⟩ | ⟨tasks', isProvisional', heq, hleft⟩
      · cases heq
      · cases heq
        have hchanges : Changes (Evolves (Label.resume i result store eventAt).runPatch) s.tasks
          tasks := resumeCancel_changes hresume
        have hruntime := (hpending.of_changes hchanges).runtime current hget
        rcases hleft current hget hruntime hcanonical with
          ⟨rfl, hgoes, hrisk⟩ | ⟨hsession, hrun, hsucceeded, hcancelled⟩
        · exact absurd ⟨pending, current, hcall, hget, hcanonical, hgoes, hrisk⟩ h
        · have hscope : writesByRunScope pending.task = true := by
            unfold writesByRunScope
            rw [← hpending.control, hsession, hrun]
            rfl
          obtain ⟨hkept, hfalse⟩ := writeCancelled_kept store isProvisional eventAt hget hscope
            hpending.error (Bool.and_eq_true_iff.mp hcanonical).1 hsucceeded hcancelled
          obtain ⟨seg, hseg', rfl⟩ := Option.map_eq_some_iff.mp hstep
          obtain rfl := Option.some.inj (hseg.symm.trans hseg')
          refine ⟨⟨current, hkept, rfl, rfl, rfl⟩, ?_⟩
          intro j hj
          obtain rfl := Option.some.inj hj
          exact ⟨_, Function.update_self _ _ _, hfalse⟩

/-- In runs in which no call is overtaken, no late cancellation replaces a canonical outcome;
and in all runs tasks that have ended stay so. -/
theorem outcomes_kept (toLowerCase : Utf16 → Utf16) (tasks : TaskTable) (ls : List Label)
    (s : State) :
    ((machine toLowerCase tasks).Run (fun s l => ¬ Overtaken s l) ls s →
      (machine toLowerCase tasks).Run (Faithful toLowerCase) ls s) ∧
    ((machine toLowerCase tasks).Run (fun _ _ => True) ls s →
      (machine toLowerCase tasks).Run (Ends toLowerCase) ls s ∧
      ∀ pre ∈ tasks.rows, ∀ post ∈ s.tasks.rows, post.taskId = pre.taskId →
        isTerminalTaskStatus pre.status = true → isTerminalTaskStatus post.status = true) := by
  constructor
  · intro run
    have hboth : Holds s ∧ (machine toLowerCase tasks).Run (Faithful toLowerCase) ls s := by
      induction run with
      | start => exact ⟨by rintro i pending ⟨⟩, .start⟩
      | step _ hok hstep ih =>
        exact ⟨holds_step ih.1 hstep, ih.2.step (faithful_of_not_overtaken ih.1 hok) hstep⟩
    exact hboth.2
  · intro run
    refine ⟨run.mono fun s l _ => ends s l, ?_⟩
    have hchanges : Changes (fun pre post => isTerminalTaskStatus pre.status = true →
        isTerminalTaskStatus post.status = true) tasks s.tasks := by
      induction run with
      | start => exact .refl (fun _ => id) _
      | step _ _ hstep ih =>
        exact ih.trans (step_changes hstep) fun a b c hab hbc h => hbc.terminal (hab h)
    exact fun pre hpre post hpost hid => hchanges.of_mem hpre hpost hid

/-- A task `t` of a run `r`. -/
def sampleTask (runtime : TaskRuntime) (childSessionKey : Option Utf16) : TaskRecord where
  taskId := ofString "t"
  runtime := runtime
  taskKind := none
  sourceId := none
  ownerKey := ofString "o"
  scopeKind := .session
  childSessionKey := childSessionKey
  runId := some (ofString "r")
  status := .running
  deliveryStatus := .pending
  createdAt := .ofNat 1
  startedAt := none
  endedAt := none
  lastEventAt := none
  toolUseCount := none
  lastToolName := none
  error := none
  progressSummary := none
  terminalSummary := none
  terminalOutcome := none

def sampleTasks (task : TaskRecord) : TaskTable := ⟨[task], List.nodup_singleton _⟩

def sampleCancel : Label :=
  .cancel 0 (ofString "t") none none (fun _ => .stored) (.ofNat 2)

/-- The lifecycle event of the end of the run. -/
def sampleEnd (isError : Bool) : Label :=
  .event {
    runId := ofString "r"
    sessionKey := none
    ts := .ofNat 3
    stream := .lifecycle {
      phase := some (ofString (if isError then "error" else "end"))
      startedAt := none
      endedAt := none
      aborted := false
      error := none
      stopReason := none
      livenessState := none
      timeoutPhase := none
      providerStarted := none } } (fun _ => .stored) (.ofNat 3)

def sampleResume (result : ControlResult) : Label :=
  .resume 0 result (fun _ => .stored) (.ofNat 4)

def Phase.isCancelled : Phase → Bool
  | .settled result => result.cancelled
  | _ => false

def sampleLabels : List Label := [sampleCancel, sampleEnd true, sampleResume .sessionCancelled]

/-- The run of a session fails while the session is cancelled. -/
theorem outcomes_kept_sample : ∃ s,
    (machine id (sampleTasks (sampleTask .acp (some (ofString "c"))))).Run (Faithful id)
      sampleLabels s ∧
    (s.tasks.get (ofString "t")).map (·.status) = some .failed ∧
    (s.call 0).isCancelled = false := by
  let tasks := sampleTasks (sampleTask .acp (some (ofString "c")))
  have run : (machine id tasks).Run (fun s l => ¬ Overtaken s l) [sampleCancel, sampleEnd true] _ :=
    (TransitionSystem.Run.start.step id rfl).step id rfl
  refine ⟨_, (outcomes_kept id tasks sampleLabels _).1 (run.step ?_ rfl), ?_, ?_⟩
  · rintro ⟨pending, current, hcall, hget, -, -, hrisk⟩
    cases hcall
    replace hget := Option.some.inj hget
    rw [← hget] at hrisk
    revert hrisk
    decide
  · decide
  · decide

/-- A job ends while the call loads its control runtime. -/
theorem job_overtaken : ∃ s s',
    (machine id (sampleTasks (sampleTask .cron none))).Run (fun _ _ => True)
      [sampleCancel, sampleEnd false] s ∧
    step id s (sampleResume (.handled false)) = some s' ∧
    (s.tasks.get (ofString "t")).map (·.status) = some .succeeded ∧
    (s'.tasks.get (ofString "t")).map (·.status) = some .cancelled ∧
    (s'.call 0).isCancelled = true := by
  obtain ⟨s, hrun, h⟩ := TransitionSystem.exists_run_of_exec
    (T := machine id (sampleTasks (sampleTask .cron none)))
    (fun s => (s.tasks.get (ofString "t")).map (·.status) = some .succeeded &&
      (step id s (sampleResume (.handled false))).any fun s' =>
        (s'.tasks.get (ofString "t")).map (·.status) = some .cancelled && (s'.call 0).isCancelled)
    [sampleCancel, sampleEnd false] (by decide)
  rw [Bool.and_eq_true, decide_eq_true_eq, Option.any_eq_true] at h
  obtain ⟨hbefore, s', hstep, hafter⟩ := h
  rw [Bool.and_eq_true, decide_eq_true_eq] at hafter
  exact ⟨s, s', hrun, hstep, hbefore, hafter⟩

end Flashclaw.Tasks
