import Flashclaw.Tasks.Cancel

/-!
# Tasks: canonical outcomes

What the steps of the machine make of terminal tasks.
-/

namespace Flashclaw.Tasks

open Utf16

variable {toLowerCase : Utf16 → Utf16} {tasks tasks' : TaskTable} {s s' : State} {l : Label}
  {store : Utf16 → Persist} {task current pre post : TaskRecord} {pending : Pending}
  {isProvisional : Bool} {error : Utf16} {eventAt : JsNumber}

/-- The run-scoped update that a label may hold. -/
def Label.runPatch : Label → Option RunPatch
  | .update _ patch _ => some patch
  | .resume _ (.killed (some ⟨_, some (.terminal target), _⟩)) _ _ => some target.patch
  | _ => none

/-- A completion that has ended before the cancellation of a subagent. -/
def Predates (completion : RunPatch) (cancelled : TaskRecord) : Prop :=
  cancelled.runtime = .subagent ∧
    (∃ status ∈ [.succeeded, .failed, .timedOut], completion.status = some status) ∧
    ∃ endedAt cancelledAt, completion.endedAt = some endedAt ∧ cancelled.endedAt = some cancelledAt ∧
      endedAt < cancelledAt

/-- A record over a step with an update `runPatch`. -/
structure Evolves (runPatch : Option RunPatch) (pre post : TaskRecord) : Prop where
  runtime : post.runtime = pre.runtime
  terminal : isTerminalTaskStatus pre.status = true → isTerminalTaskStatus post.status = true
  replaced : pre.isCanonical = true → pre.status = .cancelled → post.status ≠ .cancelled →
    ∃ completion, runPatch = some completion ∧ Predates completion pre

theorem Evolves.refl (runPatch : Option RunPatch) (task : TaskRecord) :
    Evolves runPatch task task :=
  ⟨rfl, id, fun _ hcancelled hne => absurd hcancelled hne⟩

theorem evolves_of_scoped {runPatch : RunPatch} (h : Scoped store runPatch pre post) :
    Evolves (some runPatch) pre post := by
  rcases h with rfl | ⟨happlies, -, rfl⟩
  · exact .refl _ _
  · exact ⟨rfl, isTerminal_of_applies happlies, fun hcanonical hcancelled hne =>
      ⟨runPatch, rfl, completion_of_applies happlies hcanonical hcancelled hne⟩⟩

/-- What the status write does: records are left, or cancelled. -/
theorem writeCancelled_changes : Changes (fun pre post => post = pre ∨
      (post.status = .cancelled ∧ post.runtime = pre.runtime)) tasks
    (writeCancelled store tasks task isProvisional error eventAt).1 := by
  have hscoped : ∀ {scope : RunScope} {endedAt : JsNumber}, Changes (fun pre post => post = pre ∨
      (post.status = .cancelled ∧ post.runtime = pre.runtime)) tasks
      (updateTaskStateByRunId store tasks scope (cancelPatch error endedAt eventAt)).1 := by
    intro scope endedAt
    apply (updateTaskStateByRunId_spec _ _ _ _).1.mono
    rintro pre post (rfl | ⟨-, -, rfl⟩)
    · exact .inl rfl
    · exact .inr ⟨rfl, rfl⟩
  unfold writeCancelled
  dsimp only
  by_cases hscope : writesByRunScope task = true
  · rw [if_pos hscope]
    exact hscoped
  · rw [if_neg hscope]
    apply (updateTask_spec _ _ _ _).1.mono
    rintro pre post (rfl | ⟨-, -, rfl⟩)
    · exact .inl rfl
    · exact .inr ⟨rfl, rfl⟩

/-- The table at the end of a part, or at its status write. -/
def Segment.table (start : TaskTable) : Segment → TaskTable
  | .returns table _ => table
  | .awaits _ => start
  | .writes table _ _ _ => table

/-- The runtime whose tasks are cancelled by a control. -/
def Control.runtime : Control → TaskRuntime
  | cancelBackgroundExecSession => .cli
  | cancelActiveCronTaskRun => .cron
  | cancelSession => .acp
  | killSubagentRunAdmin => .subagent

/-- A call goes on from a task that is open, or has the marker of a kill. -/
theorem beginCancel_cases (tasks : TaskTable) (taskId : Utf16) (reason ready : Option Utf16) :
    (∃ result, beginCancel tasks taskId reason ready = .returns tasks result ∧
      result.cancelled = false) ∨
    ∃ task, tasks.get (trim taskId) = some task ∧ task.isCanonical = false ∧
      ((∃ control, control.runtime = task.runtime ∧ beginCancel tasks taskId reason ready = .awaits
        ⟨task, task.runtime = .subagent && task.hasKillMarker, cancellationError reason, control⟩) ∨
      beginCancel tasks taskId reason ready = .writes tasks task
        (task.runtime = .subagent && task.hasKillMarker) (cancellationError reason)) := by
  unfold beginCancel
  cases hget : tasks.get (trim taskId) with
  | none => exact .inl ⟨_, rfl, rfl⟩
  | some task =>
    dsimp only
    by_cases hterminal : (!(task.runtime = .subagent && task.hasKillMarker) &&
        isTerminalTaskStatus task.status) = true
    · rw [if_pos hterminal]
      exact .inl ⟨_, rfl, rfl⟩
    rw [if_neg hterminal]
    -- Past the terminal check a record is open or a killed subagent's: neither is canonical.
    have hcanonical : task.isCanonical = false := by
      unfold TaskRecord.isCanonical
      rw [Bool.and_comm]
      exact Bool.eq_false_of_not_eq_true hterminal
    cases ready with
    | some message => exact .inl ⟨_, rfl, rfl⟩
    | none =>
      dsimp only
      by_cases hexec : isBackgroundExecTask task = true
      · rw [if_pos hexec]
        refine .inr ⟨task, rfl, hcanonical, .inl ⟨_, ?_, rfl⟩⟩
        unfold isBackgroundExecTask at hexec
        rw [Bool.and_eq_true, decide_eq_true_eq] at hexec
        exact hexec.1.symm
      rw [if_neg hexec]
      cases hruntime : task.runtime with
      | cli => exact .inr ⟨task, rfl, hcanonical, .inr (by rw [hruntime])⟩
      | cron =>
        exact .inr ⟨task, rfl, hcanonical,
          .inl ⟨.cancelActiveCronTaskRun, hruntime.symm, by rw [hruntime]⟩⟩
      | acp =>
        dsimp only
        split_ifs
        · exact .inr ⟨task, rfl, hcanonical,
            .inl ⟨.cancelSession, hruntime.symm, by rw [hruntime]; rfl⟩⟩
        · exact .inl ⟨_, rfl, rfl⟩
      | subagent =>
        dsimp only
        split_ifs
        · exact .inr ⟨task, rfl, hcanonical,
            .inl ⟨.killSubagentRunAdmin, hruntime.symm, by rw [hruntime]⟩⟩
        · exact .inr ⟨task, rfl, hcanonical, .inr (by rw [hruntime])⟩
        · exact .inl ⟨_, rfl, rfl⟩

theorem reconcile_tasks {runId : Utf16} {target : DetachedTaskTerminalState} :
    (reconcile store tasks pending runId target).table tasks =
      (updateTaskStateByRunId store tasks (childScope pending.task
        ((normalizeOptionalString pending.task.runId).getD runId)) target.patch).1 := by
  unfold reconcile
  dsimp only
  split
  · rfl
  split
  · rfl
  split_ifs <;> rfl

theorem resumeKill_changes {i : ℕ} {result : Option KillResult} :
    Changes (Evolves (Label.resume i (.killed result) store eventAt).runPatch) tasks
      ((resumeKill store tasks pending result).table tasks) := by
  have hrefl : Changes (Evolves (Label.resume i (.killed result) store eventAt).runPatch) tasks
    tasks := .refl (fun _ => .refl _ _) tasks
  unfold resumeKill
  dsimp only
  split
  · split_ifs <;> exact hrefl
  split
  · rw [reconcile_tasks]
    exact (updateTaskStateByRunId_spec _ _ _ _).1.mono fun _ _ => evolves_of_scoped
  · exact hrefl
  · split_ifs <;> exact hrefl
  · split_ifs <;> exact hrefl

theorem resumeCancel_changes {i : ℕ} {result : ControlResult} {seg : Segment}
    (h : resumeCancel store tasks pending result = some seg) :
    Changes (Evolves (Label.resume i result store eventAt).runPatch) tasks (seg.table tasks) := by
  have hrefl : Changes (Evolves (Label.resume i result store eventAt).runPatch) tasks tasks :=
    .refl (fun _ => .refl _ _) tasks
  unfold resumeCancel at h
  dsimp only at h
  split at h
  · cases h
    exact hrefl
  · split_ifs at h <;> cases h <;> exact hrefl
  · split_ifs at h <;> cases h <;> exact hrefl
  · cases h
    exact hrefl
  · cases h
    exact resumeKill_changes
  · cases h

/-- Every step keeps the runtimes, the ends of tasks and the operators' cancellations. -/
theorem step_changes (h : step toLowerCase s l = some s') :
    Changes (Evolves l.runPatch) s.tasks s'.tasks := by
  -- what a part and its status write do together
  have hfinish : ∀ {i : ℕ} {seg : Segment} {store : Utf16 → Persist} {eventAt : JsNumber}, Changes (Evolves l.runPatch) s.tasks
      (seg.table s.tasks) → Changes (Evolves l.runPatch) s.tasks
        (finish s i store eventAt seg).tasks := by
    intro i seg store eventAt hseg
    cases seg with
    | returns tasks result => exact hseg
    | awaits pending => exact hseg
    | writes tasks task isProvisional error =>
      apply hseg.trans writeCancelled_changes
      rintro a b c hab (rfl | ⟨hstatus, hruntime⟩)
      · exact hab
      · refine ⟨hruntime.trans hab.runtime, fun _ => ?_, fun _ _ hne => absurd hstatus hne⟩
        rw [hstatus]
        rfl
  cases l with
  | event evt store dateNow =>
    cases h
    apply onAgentEvent_spec.mono
    rintro pre post (rfl | ⟨hopen, rfl⟩)
    · exact .refl _ _
    · refine ⟨runtime_eventPatch, fun hterminal => ?_, fun _ hcancelled _ => ?_⟩
      · rw [hopen] at hterminal
        cases hterminal
      · rw [hcancelled] at hopen
        cases hopen
  | update scope patch store =>
    cases h
    exact (updateTaskStateByRunId_spec _ _ _ _).1.mono fun _ _ => evolves_of_scoped
  | cancel i taskId reason ready store eventAt =>
    obtain ⟨seg, hseg, rfl⟩ := Option.map_eq_some_iff.mp h
    apply hfinish
    unfold segment at hseg
    dsimp only at hseg
    split at hseg
    · cases hseg
      rcases beginCancel_cases s.tasks taskId reason ready with ⟨result, heq, -⟩ | ⟨task, -, -, ⟨control, -, heq⟩ | heq⟩
      all_goals
        rw [heq]
        exact .refl (fun _ => .refl _ _) _
    · cases hseg
  | resume i result store eventAt =>
    obtain ⟨seg, hseg, rfl⟩ := Option.map_eq_some_iff.mp h
    apply hfinish
    unfold segment at hseg
    dsimp only at hseg
    split at hseg
    · exact resumeCancel_changes hseg
    · cases hseg

end Flashclaw.Tasks
