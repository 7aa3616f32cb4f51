import Flashclaw.CommandQueue.Step

/-!
# Command lanes: task ids

Task ids are handed out in order and never again, so an id names one task.
-/

namespace Flashclaw.CommandQueue

/-- The two calls that take active tasks out of their lanes. -/
def Call.resets : Call → Bool
  | .resetCommandLane _ => true
  | .resetAllLanes => true
  | _ => false

namespace Runtime

/-- An update of one lane that frees slots or leaves them alone. -/
theorem setLane_activeTaskIds_subset (rt : Runtime) (m : String) (state : LaneState)
    (h : state.activeTaskIds ⊆ (rt.lane m).activeTaskIds) (n : String) :
    ((rt.setLane m state).lane n).activeTaskIds ⊆ (rt.lane n).activeTaskIds := by
  rw [lane_setLane]
  split_ifs with hn
  · rwa [← hn]
  · exact subset_rfl

theorem setLane_activeTaskIds (rt : Runtime) (m : String) (state : LaneState)
    (h : state.activeTaskIds = (rt.lane m).activeTaskIds) (n : String) :
    ((rt.setLane m state).lane n).activeTaskIds = (rt.lane n).activeTaskIds :=
  lane_setLane_field rt m n (·.activeTaskIds) h

theorem resetCommandLane_activeTaskIds_subset (rt : Runtime) (lane n : String) :
    ((rt.resetCommandLane lane).lane n).activeTaskIds ⊆ (rt.lane n).activeTaskIds := by
  unfold resetCommandLane
  split
  · exact subset_rfl
  · rename_i state hg
    obtain rfl : rt.lane (normalizeLane lane) = state := QueueState.getLaneState_of_get? hg
    have hset := setLane_activeTaskIds_subset rt (normalizeLane lane)
      (rt.lane (normalizeLane lane)).reset (Finset.empty_subset _) n
    split_ifs
    · rwa [drainLane_activeTaskIds]
    · exact hset

theorem resetAllLanes_activeTaskIds_subset (rt : Runtime) (n : String) :
    (rt.resetAllLanes.lane n).activeTaskIds ⊆ (rt.lane n).activeTaskIds := by
  obtain h | ⟨h, -⟩ := resetAllLanes_lane rt n <;> rw [h]
  exact Finset.empty_subset _

theorem perform_activeTaskIds (rt : Runtime) {c : Call} (hc : c.resets = false) (n : String) :
    ((rt.perform c).lane n).activeTaskIds = (rt.lane n).activeTaskIds := by
  cases c with
  | enqueueCommandInLane lane opts closed now =>
    simp only [perform, enqueueCommandInLane]
    split_ifs
    · rfl
    · rw [drainLane_activeTaskIds]
      exact setLane_activeTaskIds rt.bumpSequence _ _ (by simp) n
  | setCommandLaneConcurrency lane k =>
    have hset := setLane_activeTaskIds rt (normalizeLane lane) { rt.lane (normalizeLane lane)
      with maxConcurrent := resolveMaxConcurrent (normalizeLane lane) k } rfl n
    simp only [perform, setCommandLaneConcurrency]
    split_ifs
    · rwa [drainLane_activeTaskIds]
    · exact hset
  | clearCommandLane lane =>
    simp only [perform, clearCommandLane]
    split
    · rfl
    · rename_i state hg
      obtain rfl : rt.lane (normalizeLane lane) = state := QueueState.getLaneState_of_get? hg
      exact setLane_activeTaskIds rt (normalizeLane lane)
        { rt.lane (normalizeLane lane) with queue := [] } rfl n
  | resetCommandLane lane => cases hc
  | resetAllLanes => cases hc
  | waitForActiveTasks timeoutMs => rw [perform, waitForActiveTasks_lane]

theorem perform_activeTaskIds_subset (rt : Runtime) (c : Call) (n : String) :
    ((rt.perform c).lane n).activeTaskIds ⊆ (rt.lane n).activeTaskIds := by
  cases c with
  | resetCommandLane lane => exact rt.resetCommandLane_activeTaskIds_subset lane n
  | resetAllLanes => exact rt.resetAllLanes_activeTaskIds_subset n
  | _ => exact (rt.perform_activeTaskIds rfl n).subset

/-- The records of waiters. -/
def SameWaiters (rt rt' : Runtime) : Prop := rt'.waiters = rt.waiters ∧
  rt'.nextWaiterId = rt.nextWaiterId ∧
  rt'.queue.activeTaskWaiters = rt.queue.activeTaskWaiters ∧ rt'.drained = rt.drained

theorem SameWaiters.refl (rt : Runtime) : SameWaiters rt rt := ⟨rfl, rfl, rfl, rfl⟩

theorem SameWaiters.drainLane {rt rt' : Runtime} (h : SameWaiters rt rt') (n : String) :
    SameWaiters rt (rt'.drainLane n) := by
  obtain ⟨he, -⟩ | ⟨he, -⟩ := drainLane_cases rt' n <;> rw [he] <;> exact h

theorem SameWaiters.startEntry {rt rt' : Runtime} (h : SameWaiters rt rt') (n : String)
    (entry : QueueEntry) : SameWaiters rt (rt'.startEntry n entry) := by
  obtain he | he := startEntry_cases rt' n entry <;> rw [he] <;> exact h

/-- What a step does to the tasks. -/
inductive TaskMove (rt rt' : Runtime) : Prop
  | keep (hr : rt'.running.Sublist rt.running)
      (hn : rt'.queue.nextTaskId = rt.queue.nextTaskId)
      (ha : ∀ n, (rt'.lane n).activeTaskIds ⊆ (rt.lane n).activeTaskIds)
  | start (task : RunningTask) (hid : task.taskId = rt.queue.nextTaskId)
      (hr : rt'.running = rt.running ++ [task])
      (hn : rt'.queue.nextTaskId = rt.queue.nextTaskId + 1) (hw : SameWaiters rt rt')
      (ha : ∀ n, (rt'.lane n).activeTaskIds ⊆
        insert rt.queue.nextTaskId (rt.lane n).activeTaskIds)

theorem taskMove_startEntry (rt rt₀ : Runtime) (hw : SameWaiters rt rt₀)
    (hr : rt₀.running = rt.running) (hn : rt₀.queue.nextTaskId = rt.queue.nextTaskId)
    (ha : ∀ n, (rt₀.lane n).activeTaskIds ⊆ (rt.lane n).activeTaskIds) (name : String)
    (entry : QueueEntry) : TaskMove rt (rt₀.startEntry name entry) := by
  refine .start ⟨name, rt₀.queue.nextTaskId, (rt₀.lane name).generation, entry⟩ hn ?_ ?_
    (hw.startEntry name entry) fun n => ?_
  · rw [startEntry_running, hr]
  · rw [← hn]
    obtain he | he := startEntry_cases rt₀ name entry <;> rw [he] <;> rfl
  · rw [startEntry_lane, ← hn]
    split_ifs with hname
    · rw [hname]
      exact Finset.insert_subset_insert _ (ha n)
    · exact (ha n).trans (Finset.subset_insert _ _)

theorem taskMove_of_move {rt rt' : Runtime} {l : Label} (h : Move rt l rt') : TaskMove rt rt' := by
  have hrefl : ∀ n, (rt.lane n).activeTaskIds ⊆ (rt.lane n).activeTaskIds := fun n => subset_rfl
  have hshifted (name : String) : ∀ n, ((rt.shifted name).lane n).activeTaskIds ⊆
      (rt.lane n).activeTaskIds := setLane_activeTaskIds_subset rt name _ subset_rfl
  cases h with
  | call c =>
    obtain ⟨hr, hn, -⟩ := sameTasks_perform rt c
    exact .keep (by rw [hr]) hn (perform_activeTaskIds_subset rt c)
  | pump_stop name rest now hs hf =>
    exact .keep (.refl _) rfl (setLane_activeTaskIds_subset rt name
      { rt.lane name with draining := false } subset_rfl)
  | pump_wait name rest now entry queue hs hf hq => exact .keep (.refl _) rfl (hshifted name)
  | pump_start name rest now entry queue hs hf hq =>
    exact taskMove_startEntry rt ((rt.shifted name).setStack (.pump name none :: rest)) (.refl rt)
      rfl rfl (hshifted name) name entry
  | resetAllLanes_drain name names rest now hs =>
    obtain ⟨hr, hn, -⟩ := sameTasks_drainLane (rt.setStack (.resetAllLanes names :: rest)) name
    exact .keep (by rw [hr]; exact .refl _) hn fun n => by rw [drainLane_activeTaskIds, setStack_lane]
  | onWaitReturn name entry bound rest hs =>
    exact taskMove_startEntry rt (rt.setStack (.pump name none :: rest)) (.refl rt) rfl rfl hrefl
      name entry
  | taskSettled_current task outcome hs hm hg =>
    exact .keep List.erase_sublist rfl (setLane_activeTaskIds_subset rt task.lane _
      (completeTask_activeTaskIds_subset _ _ _))
  | taskSettled_stale task outcome hs hm hg => exact .keep List.erase_sublist rfl hrefl
  | _ => exact .keep (.refl _) rfl hrefl

end Runtime

/-- Ids in use are below the next one, and tasks in flight have different ids. -/
structure FreshTaskIds (rt : Runtime) : Prop where
  nodup : (rt.running.map (·.taskId)).Nodup
  running_lt : ∀ task ∈ rt.running, task.taskId < rt.queue.nextTaskId
  active_lt : ∀ n, ∀ taskId ∈ (rt.lane n).activeTaskIds, taskId < rt.queue.nextTaskId

theorem freshTaskIds_initial : FreshTaskIds .initial where
  nodup := List.nodup_nil
  running_lt _ h := nomatch h
  active_lt _ _ h := absurd h (Finset.notMem_empty _)

theorem freshTaskIds_step {rt rt' : Runtime} {l : Label} (inv : FreshTaskIds rt)
    (h : machine.step rt l = some rt') : FreshTaskIds rt' := by
  cases Runtime.taskMove_of_move (Runtime.move_of_step h) with
  | keep hr hn ha =>
    refine ⟨inv.nodup.sublist (hr.map _), fun task hm => ?_, fun n taskId hm => ?_⟩ <;> rw [hn]
    · exact inv.running_lt task (hr.subset hm)
    · exact inv.active_lt n taskId (ha n hm)
  | start task hid hr hn hw ha =>
    refine ⟨?_, fun t hm => ?_, fun n taskId hm => ?_⟩
    · rw [hr, List.map_append, List.map_singleton, List.nodup_append_comm]
      refine List.nodup_cons.mpr ⟨fun hm => ?_, inv.nodup⟩
      obtain ⟨t, ht, heq⟩ := List.mem_map.mp hm
      have := inv.running_lt t ht
      omega
    · rw [hr, List.mem_append, List.mem_singleton] at hm
      rcases hm with hm | rfl
      · have := inv.running_lt t hm
        omega
      · omega
    · rcases Finset.mem_insert.mp (ha n hm) with rfl | hm
      · omega
      · have := inv.active_lt n taskId hm
        omega

theorem freshTaskIds_reachable {rt : Runtime} (h : machine.Reachable rt) : FreshTaskIds rt :=
  h.invariant freshTaskIds_initial fun _ _ _ => freshTaskIds_step

end Flashclaw.CommandQueue
