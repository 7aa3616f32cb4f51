import Flashclaw.CommandQueue.Machine

/-!
# Command lanes: what each operation leaves alone

View lemmas for the operations the machine is built from, one per operation and
field, and the forms a step can take.
-/

namespace Flashclaw.CommandQueue

namespace QueueState

theorem getLaneState_setLaneState (q : QueueState) (n m : String) (state : LaneState) :
    (q.setLaneState n state).getLaneState m = if n = m then state else q.getLaneState m := by
  simp only [setLaneState, getLaneState, JsMap.get?_set]
  split_ifs <;> rfl

theorem getLaneState_of_get? {q : QueueState} {n : String} {state : LaneState}
    (h : q.lanes.get? n = some state) : q.getLaneState n = state := by
  simp [getLaneState, h]

theorem getLaneState_of_none {q : QueueState} {n : String} (h : q.lanes.get? n = none) :
    q.getLaneState n = .created n := by
  simp [getLaneState, h]

/-- A property no new lane has, asked of the stored lanes or of all. -/
theorem exists_lane_iff {q : QueueState} {P : LaneState → Prop} (h0 : ∀ n, ¬ P (.created n)) :
    (∃ state ∈ q.lanes.values, P state) ↔ ∃ n, P (q.getLaneState n) := by
  constructor
  · rintro ⟨state, hs, hp⟩
    obtain ⟨n, hn⟩ := JsMap.mem_values.mp hs
    exact ⟨n, by rwa [getLaneState_of_get? hn]⟩
  · rintro ⟨n, hp⟩
    cases hn : q.lanes.get? n with
    | none =>
      rw [getLaneState_of_none hn] at hp
      exact absurd hp (h0 n)
    | some state =>
      rw [getLaneState_of_get? hn] at hp
      exact ⟨state, JsMap.mem_values.mpr ⟨n, hn⟩, hp⟩

theorem mem_activeIds {q : QueueState} {i : ℕ} :
    i ∈ q.activeIds ↔ ∃ n, i ∈ (q.getLaneState n).activeTaskIds := by
  have hfold : ∀ states : List LaneState,
      i ∈ states.foldr (fun state ids => state.activeTaskIds ∪ ids) ∅ ↔
        ∃ state ∈ states, i ∈ state.activeTaskIds := by
    intro states
    induction states with
    | nil => simp
    | cons state states ih => simp [ih]
  rw [activeIds, hfold]
  exact exists_lane_iff fun n => Finset.notMem_empty i

theorem hasPendingActiveTasks_iff {q : QueueState} {ids : Finset ℕ} :
    q.hasPendingActiveTasks ids = true ↔ ¬ Disjoint ids q.activeIds := by
  rw [Finset.not_disjoint_iff]
  simp only [hasPendingActiveTasks, List.any_eq_true, decide_eq_true_eq, mem_activeIds]
  rw [exists_lane_iff (P := fun state => ∃ i ∈ state.activeTaskIds, i ∈ ids)
    fun n => by simp [LaneState.created]]
  constructor
  · rintro ⟨n, i, hi, hids⟩
    exact ⟨i, hids, n, hi⟩
  · rintro ⟨i, hids, n, hi⟩
    exact ⟨n, i, hi, hids⟩

end QueueState

/-- An update of the queue alone leaves the other fields, which `f` reads. -/
theorem enqueueLaneEntry_field {α : Type*} (f : LaneState → α)
    (h : ∀ (state : LaneState) queue, f { state with queue := queue } = f state)
    (state : LaneState) (entry : QueueEntry) : f (enqueueLaneEntry state entry) = f state := by
  unfold enqueueLaneEntry
  simp only
  split <;> exact h _ _

@[simp] theorem enqueueLaneEntry_activeTaskIds (state : LaneState) (entry : QueueEntry) :
    (enqueueLaneEntry state entry).activeTaskIds = state.activeTaskIds :=
  enqueueLaneEntry_field _ (fun _ _ => rfl) state entry

@[simp] theorem enqueueLaneEntry_maxConcurrent (state : LaneState) (entry : QueueEntry) :
    (enqueueLaneEntry state entry).maxConcurrent = state.maxConcurrent :=
  enqueueLaneEntry_field _ (fun _ _ => rfl) state entry

@[simp] theorem enqueueLaneEntry_draining (state : LaneState) (entry : QueueEntry) :
    (enqueueLaneEntry state entry).draining = state.draining :=
  enqueueLaneEntry_field _ (fun _ _ => rfl) state entry

@[simp] theorem enqueueLaneEntry_name (state : LaneState) (entry : QueueEntry) :
    (enqueueLaneEntry state entry).lane = state.lane :=
  enqueueLaneEntry_field _ (fun _ _ => rfl) state entry

theorem completeTask_activeTaskIds_subset (state : LaneState) (taskId taskGeneration : ℕ) :
    (completeTask state taskId taskGeneration).activeTaskIds ⊆ state.activeTaskIds := by
  unfold completeTask
  split_ifs
  · exact subset_rfl
  · exact Finset.erase_subset _ _

@[simp] theorem completeTask_maxConcurrent (state : LaneState) (taskId taskGeneration : ℕ) :
    (completeTask state taskId taskGeneration).maxConcurrent = state.maxConcurrent := by
  unfold completeTask
  split_ifs <;> rfl

@[simp] theorem completeTask_name (state : LaneState) (taskId taskGeneration : ℕ) :
    (completeTask state taskId taskGeneration).lane = state.lane := by
  unfold completeTask
  split_ifs <;> rfl

namespace Runtime

variable (rt : Runtime) (n m : String)

@[simp] theorem lane_initial : Runtime.initial.lane n = .created n := rfl

theorem lane_eq_getD : rt.lane n = (rt.queue.lanes.get? n).getD (.created n) := rfl

theorem lane_setLane (state : LaneState) :
    (rt.setLane n state).lane m = if n = m then state else rt.lane m :=
  rt.queue.getLaneState_setLaneState n m state

@[simp] theorem lane_setLane_self (state : LaneState) : (rt.setLane n state).lane n = state := by
  simp [lane_setLane]

theorem lane_setLane_ne {n m : String} (h : n ≠ m) (state : LaneState) :
    (rt.setLane n state).lane m = rt.lane m := by
  simp [lane_setLane, h]

/-- A field that an update of one lane does not touch. -/
theorem lane_setLane_field {α : Type*} (f : LaneState → α) {state : LaneState}
    (h : f state = f (rt.lane n)) : f ((rt.setLane n state).lane m) = f (rt.lane m) := by
  rw [lane_setLane]
  split_ifs with hnm
  · rw [h, hnm]
  · rfl

@[simp] theorem setStack_stack (fs : List Frame) : (rt.setStack fs).stack = fs := rfl
@[simp] theorem setStack_lane (fs : List Frame) : (rt.setStack fs).lane n = rt.lane n := rfl
@[simp] theorem setStack_queue (fs : List Frame) : (rt.setStack fs).queue = rt.queue := rfl
@[simp] theorem setLane_stack (state : LaneState) : (rt.setLane n state).stack = rt.stack := rfl
@[simp] theorem bumpSequence_lane : rt.bumpSequence.lane n = rt.lane n := rfl
@[simp] theorem bumpSequence_stack : rt.bumpSequence.stack = rt.stack := rfl
@[simp] theorem push_stack (f : Frame) : (rt.push f).stack = f :: rt.stack := rfl
@[simp] theorem push_lane (f : Frame) : (rt.push f).lane n = rt.lane n := rfl
@[simp] theorem push_queue (f : Frame) : (rt.push f).queue = rt.queue := rfl

@[simp] theorem notify_lane : rt.notifyActiveTaskWaiters.lane n = rt.lane n := rfl
@[simp] theorem notify_stack : rt.notifyActiveTaskWaiters.stack = rt.stack := rfl

/-- Draining a lane touches its draining flag and the stack only. -/
theorem drainLane_cases : rt.drainLane n = rt ∧ (rt.lane n).draining = true ∨
    rt.drainLane n = (rt.setLane n { rt.lane n with draining := true }).push (.pump n none) ∧
      (rt.lane n).draining = false := by
  unfold drainLane
  cases h : (rt.lane n).draining <;> simp

theorem drainLane_field {α : Type*} (f : LaneState → α)
    (h : ∀ state b, f { state with draining := b } = f state) :
    f ((rt.drainLane n).lane m) = f (rt.lane m) := by
  obtain ⟨he, -⟩ | ⟨he, -⟩ := drainLane_cases rt n
  · rw [he]
  · rw [he, push_lane]
    exact lane_setLane_field _ _ _ f (h _ _)

@[simp] theorem drainLane_activeTaskIds :
    ((rt.drainLane n).lane m).activeTaskIds = (rt.lane m).activeTaskIds :=
  drainLane_field rt n m (·.activeTaskIds) fun _ _ => rfl

@[simp] theorem drainLane_maxConcurrent :
    ((rt.drainLane n).lane m).maxConcurrent = (rt.lane m).maxConcurrent :=
  drainLane_field rt n m (·.maxConcurrent) fun _ _ => rfl

@[simp] theorem drainLane_queue : ((rt.drainLane n).lane m).queue = (rt.lane m).queue :=
  drainLane_field rt n m (·.queue) fun _ _ => rfl

@[simp] theorem drainLane_name : ((rt.drainLane n).lane m).lane = (rt.lane m).lane :=
  drainLane_field rt n m (·.lane) fun _ _ => rfl

theorem activate_lane (entry : QueueEntry) :
    (rt.activate n entry).lane m = if n = m then
      { rt.lane n with activeTaskIds := insert rt.queue.nextTaskId (rt.lane n).activeTaskIds }
      else rt.lane m :=
  lane_setLane _ n m _

@[simp] theorem activate_stack (entry : QueueEntry) : (rt.activate n entry).stack = rt.stack := rfl

theorem startEntry_cases (entry : QueueEntry) : rt.startEntry n entry = rt.activate n entry ∨
    rt.startEntry n entry = (rt.activate n entry).push .progress := by
  unfold startEntry
  split_ifs
  · exact .inr rfl
  · exact .inl rfl

theorem startEntry_lane (entry : QueueEntry) :
    (rt.startEntry n entry).lane m = if n = m then
      { rt.lane n with activeTaskIds := insert rt.queue.nextTaskId (rt.lane n).activeTaskIds }
      else rt.lane m := by
  rw [← activate_lane]
  obtain he | he := startEntry_cases rt n entry <;> rw [he]
  rfl

/-- `rt` with the head of a lane's queue shifted off. -/
def shifted (rt : Runtime) (name : String) : Runtime :=
  rt.setLane name { rt.lane name with queue := (rt.lane name).queue.tail }

theorem shifted_lane : (rt.shifted n).lane m = if n = m then
    { rt.lane n with queue := (rt.lane n).queue.tail } else rt.lane m :=
  lane_setLane rt n m _

@[simp] theorem shifted_stack : (rt.shifted n).stack = rt.stack := rfl
@[simp] theorem shifted_nextTaskId : (rt.shifted n).queue.nextTaskId = rt.queue.nextTaskId := rfl

/-- What `resetAllLanes` does to a lane, reset or never created. -/
theorem resetAllLanes_lane : rt.resetAllLanes.lane n = (rt.lane n).reset ∨
    rt.resetAllLanes.lane n = rt.lane n ∧ rt.lane n = .created n := by
  have h : rt.resetAllLanes.lane n =
      ((rt.queue.lanes.get? n).map LaneState.reset).getD (.created n) := by
    rw [← JsMap.get?_mapValues]; rfl
  cases hn : rt.queue.lanes.get? n with
  | none => exact .inr ⟨by rw [h, hn, lane_eq_getD, hn]; rfl, by rw [lane_eq_getD, hn]; rfl⟩
  | some state => exact .inl (by rw [h, hn, lane_eq_getD, hn]; rfl)

/-- `waitForActiveTasks` leaves lanes and calls in progress alone. -/
theorem waitForActiveTasks_lane (t : Option JsNumber) :
    (rt.waitForActiveTasks t).lane n = rt.lane n := by
  unfold waitForActiveTasks
  simp only
  split_ifs <;> rfl

@[simp] theorem waitForActiveTasks_stack (t : Option JsNumber) :
    (rt.waitForActiveTasks t).stack = rt.stack := by
  unfold waitForActiveTasks
  simp only
  split_ifs <;> rfl

/-- The records of tasks, which only starts and completions touch. -/
def SameTasks (rt rt' : Runtime) : Prop := rt'.running = rt.running ∧
  rt'.queue.nextTaskId = rt.queue.nextTaskId ∧ rt'.started = rt.started

theorem sameTasks_drainLane (rt : Runtime) (n : String) : SameTasks rt (rt.drainLane n) := by
  obtain ⟨he, -⟩ | ⟨he, -⟩ := drainLane_cases rt n <;> rw [he] <;> exact ⟨rfl, rfl, rfl⟩

theorem SameTasks.drainLane {rt rt' : Runtime} (h : SameTasks rt rt') (n : String) :
    SameTasks rt (rt'.drainLane n) := by
  obtain ⟨hr, hi, hs⟩ := sameTasks_drainLane rt' n
  exact ⟨hr.trans h.1, hi.trans h.2.1, hs.trans h.2.2⟩

theorem sameTasks_perform (rt : Runtime) (c : Call) : SameTasks rt (rt.perform c) := by
  have hrefl : SameTasks rt rt := ⟨rfl, rfl, rfl⟩
  cases c with
  | enqueueCommandInLane lane opts closed now =>
    simp only [perform, enqueueCommandInLane]
    split_ifs
    · exact hrefl
    · exact SameTasks.drainLane ⟨rfl, rfl, rfl⟩ _
  | setCommandLaneConcurrency lane k =>
    simp only [perform, setCommandLaneConcurrency]
    split_ifs
    · exact SameTasks.drainLane ⟨rfl, rfl, rfl⟩ _
    · exact ⟨rfl, rfl, rfl⟩
  | clearCommandLane lane =>
    simp only [perform, clearCommandLane]
    split
    · exact hrefl
    · exact ⟨rfl, rfl, rfl⟩
  | resetCommandLane lane =>
    simp only [perform, resetCommandLane]
    split
    · exact hrefl
    · split_ifs
      · exact SameTasks.drainLane ⟨rfl, rfl, rfl⟩ _
      · exact ⟨rfl, rfl, rfl⟩
  | resetAllLanes => exact ⟨rfl, rfl, rfl⟩
  | waitForActiveTasks timeoutMs =>
    simp only [perform, waitForActiveTasks]
    split_ifs <;> exact ⟨rfl, rfl, rfl⟩

theorem startEntry_running (rt : Runtime) (name : String) (entry : QueueEntry) :
    (rt.startEntry name entry).running =
      rt.running ++ [⟨name, rt.queue.nextTaskId, (rt.lane name).generation, entry⟩] := by
  obtain he | he := startEntry_cases rt name entry <;> rw [he] <;> rfl

/-- The forms of a step, with the operation it performs. -/
inductive Move (rt : Runtime) : Label → Runtime → Prop
  | call (c : Call) (hu : rt.inUserCode = true) : Move rt (.call c) (rt.perform c)
  | pump_stop (name : String) (rest : List Frame) (now : ℤ)
      (hs : rt.stack = .pump name none :: rest) (hf : ¬ (rt.lane name).pumpable) :
      Move rt (.resume now)
        ((rt.setLane name { rt.lane name with draining := false }).setStack rest)
  | pump_wait (name : String) (rest : List Frame) (now : ℤ) (entry : QueueEntry)
      (queue : List QueueEntry) (hs : rt.stack = .pump name none :: rest)
      (hf : (rt.lane name).hasFreeSlot) (hq : (rt.lane name).queue = entry :: queue) :
      Move rt (.resume now) ((rt.shifted name).setStack
        (.pump name (some (entry, rt.queue.nextQueueSequence)) :: rest))
  | pump_start (name : String) (rest : List Frame) (now : ℤ) (entry : QueueEntry)
      (queue : List QueueEntry) (hs : rt.stack = .pump name none :: rest)
      (hf : (rt.lane name).hasFreeSlot) (hq : (rt.lane name).queue = entry :: queue) :
      Move rt (.resume now)
        (((rt.shifted name).setStack (.pump name none :: rest)).startEntry name entry)
  | resetCommandLane (rest : List Frame) (now : ℤ) (hs : rt.stack = .resetCommandLane :: rest) :
      Move rt (.resume now) (rt.setStack rest).notifyActiveTaskWaiters
  | resetAllLanes_drain (name : String) (names : List String) (rest : List Frame) (now : ℤ)
      (hs : rt.stack = .resetAllLanes (name :: names) :: rest) :
      Move rt (.resume now) ((rt.setStack (.resetAllLanes names :: rest)).drainLane name)
  | resetAllLanes_notify (rest : List Frame) (now : ℤ)
      (hs : rt.stack = .resetAllLanes [] :: rest) :
      Move rt (.resume now) (rt.setStack rest).notifyActiveTaskWaiters
  | settleEntry (entry : QueueEntry) (outcome : Outcome) (rest : List Frame) (now : ℤ)
      (hs : rt.stack = .settleEntry entry outcome :: rest) :
      Move rt (.resume now)
        ({ rt with settled := rt.settled ++ [(entry.sequence, outcome.settlement)] }.setStack rest)
  | onWaitReturn (name : String) (entry : QueueEntry) (bound : ℕ) (rest : List Frame)
      (hs : rt.stack = .pump name (some (entry, bound)) :: rest) :
      Move rt .onWaitReturn ((rt.setStack (.pump name none :: rest)).startEntry name entry)
  | progressReturn (rest : List Frame) (hs : rt.stack = .progress :: rest) :
      Move rt .progressReturn (rt.setStack rest)
  | taskSettled_current (task : RunningTask) (outcome : Outcome) (hs : rt.stack = [])
      (hm : task ∈ rt.running) (hg : task.taskGeneration = (rt.lane task.lane).generation) :
      Move rt (.taskSettled task.taskId outcome)
        ((({ rt with running := rt.running.erase task }.push
            (.settleEntry task.entry outcome)).setLane task.lane
              (completeTask (rt.lane task.lane) task.taskId task.taskGeneration)
            ).notifyActiveTaskWaiters.push (.pump task.lane none))
  | taskSettled_stale (task : RunningTask) (outcome : Outcome) (hs : rt.stack = [])
      (hm : task ∈ rt.running) (hg : task.taskGeneration ≠ (rt.lane task.lane).generation) :
      Move rt (.taskSettled task.taskId outcome)
        ({ rt with running := rt.running.erase task }.push
          (.settleEntry task.entry outcome))
  | waiterTimeout (id : ℕ) (hs : rt.stack = []) :
      Move rt (.waiterTimeout id) { rt with
        queue.activeTaskWaiters := rt.queue.activeTaskWaiters.filter fun waiter => waiter.id ≠ id
        timedOut := rt.timedOut ++ [id] }

theorem move_pumpLoop {rt : Runtime} {name : String} {rest : List Frame} (now : ℤ)
    (hs : rt.stack = .pump name none :: rest) : Move rt (.resume now) (rt.pumpLoop name rest now) := by
  unfold pumpLoop
  simp only
  split_ifs with hf
  · split
    · rename_i hq
      exact .pump_stop name rest now hs fun h => h.2 hq
    · rename_i entry queue hq
      have hsh : rt.setLane name { rt.lane name with queue } = rt.shifted name := by
        rw [shifted, hq]; rfl
      rw [hsh]
      split_ifs
      · exact .pump_wait name rest now entry queue hs hf hq
      · exact .pump_start name rest now entry queue hs hf hq
  · exact .pump_stop name rest now hs fun h => hf h.1

theorem move_of_step {rt rt' : Runtime} {l : Label} (h : machine.step rt l = some rt') :
    Move rt l rt' := by
  change rt.step l = some rt' at h
  cases l with
  | call c =>
    simp only [step] at h
    split_ifs at h with hu
    cases h
    exact .call c hu
  | resume now =>
    simp only [step, resume] at h
    split at h
    · cases h; exact move_pumpLoop now ‹_›
    · cases h; exact .resetCommandLane _ _ ‹_›
    · cases h; exact .resetAllLanes_drain _ _ _ _ ‹_›
    · cases h; exact .resetAllLanes_notify _ _ ‹_›
    · cases h; exact .settleEntry _ _ _ _ ‹_›
    · cases h
  | onWaitReturn =>
    simp only [step, onWaitReturn] at h
    split at h
    · cases h; exact .onWaitReturn _ _ _ _ ‹_›
    · cases h
  | progressReturn =>
    simp only [step, progressReturn] at h
    split at h
    · cases h; exact .progressReturn _ ‹_›
    · cases h
  | taskSettled taskId outcome =>
    simp only [step, taskSettled] at h
    split at h
    · rename_i task hs hf
      have hm := List.mem_of_find?_eq_some hf
      obtain rfl : task.taskId = taskId := by simpa using List.find?_some hf
      split_ifs at h with hg
      · cases h; exact .taskSettled_current task outcome hs hm hg
      · cases h; exact .taskSettled_stale task outcome hs hm hg
    · cases h
  | waiterTimeout id =>
    simp only [step, waiterTimeout] at h
    split at h
    · split_ifs at h
      cases h
      exact .waiterTimeout id ‹_›
    · cases h

end Runtime

end Flashclaw.CommandQueue
