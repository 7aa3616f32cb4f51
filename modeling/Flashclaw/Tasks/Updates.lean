import Flashclaw.Lib.Results
import Flashclaw.Tasks.Registry

/-!
# Tasks: what updates change

Every update keeps the tasks of the table and relates each record to the one it
leaves for it.
-/

namespace Flashclaw.Tasks

open Utf16

variable {tasks tasks' : TaskTable} {R : TaskRecord → TaskRecord → Prop} {pre post : TaskRecord}
  {taskId : Utf16} {patch : TaskRecord → TaskRecord} {persist : Persist}

/-- The tasks are the same, and their records are related. -/
structure Changes (R : TaskRecord → TaskRecord → Prop) (tasks tasks' : TaskTable) : Prop where
  forth : ∀ pre ∈ tasks.rows, ∃ post ∈ tasks'.rows, post.taskId = pre.taskId ∧ R pre post
  back : ∀ post ∈ tasks'.rows, ∃ pre ∈ tasks.rows, post.taskId = pre.taskId

theorem Changes.of_mem (h : Changes R tasks tasks') (hpre : pre ∈ tasks.rows)
    (hpost : post ∈ tasks'.rows) (hid : post.taskId = pre.taskId) : R pre post := by
  obtain ⟨post', hpost', hid', hR⟩ := h.forth pre hpre
  rwa [SqlTable.eq_of_key hpost hpost' (hid.trans hid'.symm)]

theorem Changes.refl (h : ∀ task, R task task) (tasks : TaskTable) : Changes R tasks tasks where
  forth pre hpre := ⟨pre, hpre, rfl, h pre⟩
  back post hpost := ⟨post, hpost, rfl⟩

theorem Changes.mono {R' : TaskRecord → TaskRecord → Prop} (h : Changes R tasks tasks')
    (hR : ∀ pre post, R pre post → R' pre post) : Changes R' tasks tasks' where
  forth pre hpre := by
    obtain ⟨post, hpost, hid, hrel⟩ := h.forth pre hpre
    exact ⟨post, hpost, hid, hR _ _ hrel⟩
  back := h.back

theorem Changes.trans {R' R'' : TaskRecord → TaskRecord → Prop} {tasks'' : TaskTable}
    (h : Changes R tasks tasks') (h' : Changes R' tasks' tasks'')
    (hR : ∀ a b c, R a b → R' b c → R'' a c) : Changes R'' tasks tasks'' where
  forth pre hpre := by
    obtain ⟨mid, hmid, hid, hrel⟩ := h.forth pre hpre
    obtain ⟨post, hpost, hid', hrel'⟩ := h'.forth mid hmid
    exact ⟨post, hpost, hid'.trans hid, hR _ _ _ hrel hrel'⟩
  back post hpost := by
    obtain ⟨mid, hmid, hid⟩ := h'.back post hpost
    obtain ⟨pre, hpre, hid'⟩ := h.back mid hmid
    exact ⟨pre, hpre, hid.trans hid'⟩

theorem Changes.get (h : Changes R tasks tasks') (hget : tasks.get taskId = some pre) :
    ∃ post, tasks'.get taskId = some post ∧ R pre post := by
  obtain ⟨hpre, rfl⟩ := get_eq_some.mp hget
  obtain ⟨post, hpost, hid, hR⟩ := h.forth pre hpre
  exact ⟨post, get_eq_some.mpr ⟨hpost, hid⟩, hR⟩

theorem Changes.get_of_get (h : Changes R tasks tasks') (hget : tasks'.get taskId = some post) :
    ∃ pre, tasks.get taskId = some pre ∧ R pre post := by
  obtain ⟨hpost, rfl⟩ := get_eq_some.mp hget
  obtain ⟨pre, hpre, hid⟩ := h.back post hpost
  exact ⟨pre, get_eq_some.mpr ⟨hpre, hid.symm⟩, h.of_mem hpre hpost hid⟩

/-- The record that an update by `patch` leaves. -/
def patched (patch : TaskRecord → TaskRecord) (task : TaskRecord) : TaskRecord :=
  { (patch task).normalizeTaskTimestamps with taskId := task.taskId }

theorem updateTask_spec (persist : Persist) (tasks : TaskTable) (taskId : Utf16)
    (patch : TaskRecord → TaskRecord) : Changes (fun pre post => post = pre ∨
      (pre.taskId = taskId ∧ persist = .stored ∧ post = patched patch pre)) tasks
      (updateTask persist tasks taskId patch).1 ∧
    ∀ post, (updateTask persist tasks taskId patch).2 = .ok (some post) →
      post ∈ (updateTask persist tasks taskId patch).1.rows ∧ persist = .stored ∧
        ∃ pre, tasks.get taskId = some pre ∧ post = patched patch pre := by
  have hrefl : Changes (fun pre post => post = pre ∨
      (pre.taskId = taskId ∧ persist = .stored ∧ post = patched patch pre)) tasks tasks :=
    .refl (fun _ => .inl rfl) tasks
  unfold updateTask
  split_ifs with hnone
  · exact ⟨hrefl, by rintro post ⟨⟩⟩
  cases persist with
  | throws message => exact ⟨hrefl, by rintro post ⟨⟩⟩
  | rejected => exact ⟨hrefl, by rintro post ⟨⟩⟩
  | stored =>
    dsimp only
    have hchanges : Changes (fun pre post => post = pre ∨
        (pre.taskId = taskId ∧ Persist.stored = .stored ∧ post = patched patch pre)) tasks
        (tasks.change taskId fun task => (patch task).normalizeTaskTimestamps) := by
      constructor
      · intro pre hpre
        by_cases hid : pre.taskId = taskId
        · exact ⟨patched patch pre, mem_change.mpr (.inr ⟨pre, hpre, hid, rfl⟩), rfl,
            .inr ⟨hid, rfl, rfl⟩⟩
        · exact ⟨pre, mem_change.mpr (.inl ⟨hpre, hid⟩), rfl, .inl rfl⟩
      · intro post hpost
        rcases mem_change.mp hpost with ⟨hold, -⟩ | ⟨old, hold, -, rfl⟩
        · exact ⟨post, hold, rfl⟩
        · exact ⟨old, hold, rfl⟩
    refine ⟨hchanges, ?_⟩
    intro post hpost
    obtain ⟨hmem, hid⟩ := get_eq_some.mp (Except.ok.inj hpost)
    rcases mem_change.mp hmem with ⟨-, hother⟩ | ⟨old, hold, hid', rfl⟩
    · exact absurd hid hother
    · exact ⟨hmem, rfl, old, get_eq_some.mpr ⟨hold, hid'⟩, rfl⟩

section Each

variable {store : Utf16 → Persist} {matched : List TaskRecord}

/-- Every record of the list is updated once, or not at all. -/
theorem updateEach_spec (store : Utf16 → Persist) (patch : TaskRecord → TaskRecord)
    (hnodup : (matched.map (·.taskId)).Nodup)
    (hmem : ∀ task ∈ matched, task ∈ tasks.rows) :
    Changes (fun pre post => post = pre ∨
      (pre ∈ matched ∧ store pre.taskId = .stored ∧ post = patched patch pre)) tasks
      (updateEach store patch tasks matched).1 ∧
    ∀ updated, (updateEach store patch tasks matched).2 = .ok updated → ∀ post ∈ updated,
      post ∈ (updateEach store patch tasks matched).1.rows ∧
        ∃ pre ∈ matched, store pre.taskId = .stored ∧ post = patched patch pre := by
  induction matched generalizing tasks with
  | nil =>
    refine ⟨.refl (fun _ => .inl rfl) tasks, ?_⟩
    intro updated hupdated post hpost
    cases hupdated
    cases hpost
  | cons current rest ih =>
    rw [List.map_cons, List.nodup_cons] at hnodup
    obtain ⟨hchanges, hresult⟩ := updateTask_spec (store current.taskId) tasks current.taskId patch
    have hcurrent : current ∈ tasks.rows := hmem current List.mem_cons_self
    -- the first update changes the record of its own id only
    have hfirst : Changes (fun pre post => post = pre ∨
        (pre = current ∧ store pre.taskId = .stored ∧ post = patched patch pre)) tasks
        (updateTask (store current.taskId) tasks current.taskId patch).1 := by
      constructor
      · intro pre hpre
        obtain ⟨post, hpost, hid, hsame | ⟨hid', hstored, rfl⟩⟩ := hchanges.forth pre hpre
        · exact ⟨post, hpost, hid, .inl hsame⟩
        · obtain rfl := SqlTable.eq_of_key hpre hcurrent hid'
          exact ⟨_, hpost, hid, .inr ⟨rfl, hstored, rfl⟩⟩
      · exact hchanges.back
    have hrest : ∀ task ∈ rest,
        task ∈ (updateTask (store current.taskId) tasks current.taskId patch).1.rows := by
      intro task htask
      obtain ⟨post, hpost, hid, hsame | ⟨rfl, -⟩⟩ :=
        hfirst.forth task (hmem task (List.mem_cons_of_mem _ htask))
      · rwa [hsame] at hpost
      · exact absurd (List.mem_map_of_mem htask) hnodup.1
    have hid : ∀ {pre post : TaskRecord}, pre = current → post = patched patch pre →
        ∀ task ∈ rest, task.taskId ≠ post.taskId := by
      rintro pre post rfl rfl task htask heq
      exact hnodup.1 (List.mem_map.mpr ⟨task, htask, heq⟩)
    obtain ⟨hothers, hupdated⟩ := ih hnodup.2 hrest
    unfold updateEach
    rcases hupdate : updateTask (store current.taskId) tasks current.taskId patch with ⟨mid, result⟩
    rw [hupdate] at hfirst hresult hothers hupdated
    cases result with
    | error message =>
      refine ⟨hfirst.mono ?_, by rintro updated ⟨⟩⟩
      rintro pre post (hsame | ⟨rfl, hrel⟩)
      · exact .inl hsame
      · exact .inr ⟨List.mem_cons_self, hrel⟩
    | ok option =>
      constructor
      · apply hfirst.trans hothers
        rintro a b c (rfl | ⟨rfl, hstored, rfl⟩) (rfl | ⟨hmatched, hrel⟩)
        · exact .inl rfl
        · exact .inr ⟨List.mem_cons_of_mem _ hmatched, hrel⟩
        · exact .inr ⟨List.mem_cons_self, hstored, rfl⟩
        · exact absurd rfl (hid rfl rfl _ hmatched)
      · intro updated hok post hpost
        obtain ⟨others, hothers_ok, rfl⟩ := Results.map_eq_ok.mp hok
        rcases List.mem_append.mp hpost with hpost | hpost
        · obtain ⟨hmid, hstored, pre, hget, rfl⟩ := hresult post
            (congrArg Except.ok (Option.mem_toList.mp hpost))
          obtain ⟨hpre, hkey⟩ := get_eq_some.mp hget
          obtain rfl := SqlTable.eq_of_key hpre hcurrent hkey
          refine ⟨?_, _, List.mem_cons_self, hstored, rfl⟩
          -- the others leave it
          obtain ⟨left, hleft, -, rfl | ⟨hmatched, -⟩⟩ := hothers.forth _ hmid
          · exact hleft
          · exact absurd rfl (hid rfl rfl _ hmatched)
        · obtain ⟨hleft, pre, hpre, hrel⟩ := hupdated others hothers_ok post hpost
          exact ⟨hleft, pre, List.mem_cons_of_mem _ hpre, hrel⟩

end Each

theorem getTasksByRunScope_sublist (scope : RunScope) :
    (getTasksByRunScope tasks scope).Sublist tasks.rows := by
  have hmatched : ((getTasksByRunId tasks scope.runId).filter fun task =>
      scope.runtime.all (task.runtime = ·)).Sublist tasks.rows :=
    List.filter_sublist.trans List.filter_sublist
  unfold getTasksByRunScope
  dsimp only
  split
  · split_ifs
    · exact List.filter_sublist.trans hmatched
    · exact List.filter_sublist.trans hmatched
  · split_ifs
    · exact hmatched
    · exact List.nil_sublist _

section Scoped

variable {store : Utf16 → Persist} {scope : RunScope} {runPatch : RunPatch}

/-- An update by run scope leaves a record, or applies to it. -/
def Scoped (store : Utf16 → Persist) (runPatch : RunPatch) (pre post : TaskRecord) : Prop :=
  post = pre ∨ (runPatch.applies pre = true ∧ store pre.taskId = .stored ∧
    post = patched runPatch.apply pre)

theorem updateTaskStateByRunId_spec (store : Utf16 → Persist) (tasks : TaskTable)
    (scope : RunScope) (runPatch : RunPatch) : Changes (Scoped store runPatch) tasks
      (updateTaskStateByRunId store tasks scope runPatch).1 ∧
    ∀ updated, (updateTaskStateByRunId store tasks scope runPatch).2 = .ok updated →
      ∀ post ∈ updated, post ∈ (updateTaskStateByRunId store tasks scope runPatch).1.rows ∧
        ∃ pre ∈ tasks.rows, runPatch.applies pre = true ∧ store pre.taskId = .stored ∧
          post = patched runPatch.apply pre := by
  have hsublist : ((getTasksByRunScope tasks scope).filter runPatch.applies).Sublist tasks.rows :=
    List.filter_sublist.trans (getTasksByRunScope_sublist scope)
  obtain ⟨hchanges, hupdated⟩ := updateEach_spec store runPatch.apply
    (tasks.keys_nodup.sublist (hsublist.map _)) fun task htask => hsublist.subset htask
  constructor
  · apply hchanges.mono
    rintro pre post (hsame | ⟨hmatched, hrel⟩)
    · exact .inl hsame
    · exact .inr ⟨(List.mem_filter.mp hmatched).2, hrel⟩
  · intro updated hok post hpost
    obtain ⟨hleft, pre, hpre, hrel⟩ := hupdated updated hok post hpost
    exact ⟨hleft, pre, hsublist.subset hpre, (List.mem_filter.mp hpre).2, hrel⟩

theorem status_patched : (patched runPatch.apply pre).status = runPatch.status.getD pre.status :=
  rfl

/-- No update takes a terminal task back. -/
theorem isTerminal_of_applies (h : runPatch.applies pre = true)
    (hterminal : isTerminalTaskStatus pre.status = true) :
    isTerminalTaskStatus (patched runPatch.apply pre).status = true := by
  rw [status_patched]
  unfold RunPatch.applies at h
  cases hstatus : runPatch.status with
  | none => exact hterminal
  | some status =>
    rw [hstatus, Option.all_some] at h
    unfold shouldApplyRunScopedStatusUpdate at h
    dsimp only at h
    rw [Option.getD_some]
    split_ifs at h with _ hsame hopen hnext hcancelled
    · rwa [← hsame]
    · rw [hterminal] at hopen
      cases hopen
    · simpa using hnext
    · simpa using hnext

/-- What replaces an operator's cancellation is a completion of a subagent before it. -/
theorem completion_of_applies (h : runPatch.applies pre = true) (hcanonical : pre.isCanonical = true)
    (hcancelled : pre.status = .cancelled)
    (hreplaced : (patched runPatch.apply pre).status ≠ .cancelled) :
    pre.runtime = .subagent ∧ (∃ status ∈ [.succeeded, .failed, .timedOut],
      runPatch.status = some status) ∧
      ∃ endedAt cancelledAt, runPatch.endedAt = some endedAt ∧ pre.endedAt = some cancelledAt ∧
        endedAt < cancelledAt := by
  rw [status_patched] at hreplaced
  unfold RunPatch.applies at h
  cases hstatus : runPatch.status with
  | none =>
    rw [hstatus] at hreplaced
    exact absurd hcancelled hreplaced
  | some status =>
    rw [hstatus, Option.getD_some] at hreplaced
    rw [hstatus, Option.all_some] at h
    unfold shouldApplyRunScopedStatusUpdate at h
    dsimp only at h
    rw [hcancelled, if_neg (Ne.symm hreplaced)] at h
    split_ifs at h with hmarker hopen hnext hcompletion
    · cases hopen
    · -- the marker of a kill is no operator's cancellation
      have hkilled : (pre.runtime = .subagent && hasText pre.childSessionKey &&
          pre.error = some SUBAGENT_KILL_TASK_ERROR) = false := by
        unfold TaskRecord.isCanonical TaskRecord.hasKillMarker at hcanonical
        rw [hcancelled] at hcanonical
        simp only [Bool.and_eq_true, Bool.not_eq_true', Bool.and_eq_false_iff] at hcanonical ⊢
        tauto
      rw [hkilled, Bool.or_false, Bool.and_eq_true, decide_eq_true_eq, Option.any_eq_true] at h
      obtain ⟨hruntime, cancelledAt, hcancelledAt, hany⟩ := h
      obtain ⟨endedAt, hendedAt, hlt⟩ := (Option.any_eq_true _ _).mp hany
      refine ⟨hruntime, ⟨status, ?_, rfl⟩, endedAt, cancelledAt, hendedAt, hcancelledAt,
        of_decide_eq_true hlt⟩
      simpa [or_assoc] using hcompletion
    · cases h

end Scoped

theorem onAgentEvent_spec {toLowerCase : Utf16 → Utf16} {store : Utf16 → Persist}
    {evt : AgentEvent} {dateNow : JsNumber} :
    Changes (fun pre post => post = pre ∨ (isTerminalTaskStatus pre.status = false ∧
      post = patched (eventPatch toLowerCase (evt.now dateNow) evt.stream) pre)) tasks
      (onAgentEvent toLowerCase store tasks evt dateNow) := by
  have hsublist : ((getTasksByRunScope tasks ⟨evt.runId, none, evt.sessionKey⟩).filter fun current =>
      !isTerminalTaskStatus current.status).Sublist tasks.rows :=
    List.filter_sublist.trans (getTasksByRunScope_sublist _)
  obtain ⟨hchanges, -⟩ := updateEach_spec store
    (eventPatch toLowerCase (evt.now dateNow) evt.stream)
    (tasks.keys_nodup.sublist (hsublist.map _)) fun task htask => hsublist.subset htask
  apply hchanges.mono
  rintro pre post (hsame | ⟨hmatched, -, heq⟩)
  · exact .inl hsame
  · exact .inr ⟨by simpa using (List.mem_filter.mp hmatched).2, heq⟩

theorem runtime_eventPatch {toLowerCase : Utf16 → Utf16} {now : JsNumber} {stream : EventStream} :
    (patched (eventPatch toLowerCase now stream) pre).runtime = pre.runtime := by
  show (eventPatch toLowerCase now stream pre).runtime = pre.runtime
  unfold eventPatch
  split
  · unfold lifecyclePatch
    dsimp only
    split_ifs <;> rfl
  · rfl
  · split_ifs <;> rfl
  · rfl

end Flashclaw.Tasks
