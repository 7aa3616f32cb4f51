import Flashclaw.CommandQueue.Tasks

/-!
# Command lanes: waiting for active tasks

A waiter is resolved by a notification that finds none of its tasks active.
Between a reset and its notification such a waiter may still be pending, so the
invariant asks for a reset in progress or an active task of every waiter.
-/

namespace Flashclaw.CommandQueue

open CommandQueue.Runtime

/-- Some task the waiter waits for is in some lane. -/
def Runtime.Owes (rt : Runtime) (ids : Finset ℕ) : Prop :=
  ∃ n, ¬ Disjoint ids (rt.lane n).activeTaskIds

theorem hasPendingActiveTasks_iff_owes {rt : Runtime} {ids : Finset ℕ} :
    rt.queue.hasPendingActiveTasks ids = true ↔ rt.Owes ids := by
  rw [QueueState.hasPendingActiveTasks_iff, Finset.not_disjoint_iff]
  simp only [Owes, Finset.not_disjoint_iff, QueueState.mem_activeIds]
  constructor
  · rintro ⟨i, hi, n, hn⟩
    exact ⟨n, i, hi, hn⟩
  · rintro ⟨n, i, hi, hn⟩
    exact ⟨i, hi, n, hn⟩

/-- The calls whose last act is a notification. -/
def Frame.notifies : Frame → Bool
  | .resetCommandLane => true
  | .resetAllLanes _ => true
  | _ => false

namespace Runtime

theorem sameWaiters_perform (rt : Runtime) (c : Call)
    (hc : ∀ timeoutMs, c ≠ .waitForActiveTasks timeoutMs) : SameWaiters rt (rt.perform c) := by
  have hrefl := SameWaiters.refl rt
  cases c with
  | enqueueCommandInLane lane opts closed now =>
    simp only [perform, enqueueCommandInLane]
    split_ifs
    · exact hrefl
    · exact SameWaiters.drainLane ⟨rfl, rfl, rfl, rfl⟩ _
  | setCommandLaneConcurrency lane k =>
    simp only [perform, setCommandLaneConcurrency]
    split_ifs
    · exact SameWaiters.drainLane ⟨rfl, rfl, rfl, rfl⟩ _
    · exact hrefl
  | clearCommandLane lane =>
    simp only [perform, clearCommandLane]
    split <;> exact hrefl
  | resetCommandLane lane =>
    simp only [perform, resetCommandLane]
    split
    · exact hrefl
    · split_ifs
      · exact SameWaiters.drainLane ⟨rfl, rfl, rfl, rfl⟩ _
      · exact hrefl
  | resetAllLanes => exact hrefl
  | waitForActiveTasks timeoutMs => exact absurd rfl (hc timeoutMs)

/-- What a step does to the waiters. -/
inductive WaiterMove (rt rt' : Runtime) : Prop
  /-- Nothing, and a lane loses tasks only to a reset that has yet to notify. -/
  | keep (hw : SameWaiters rt rt')
      (hf : (∃ f ∈ rt.stack, f.notifies) → ∃ f ∈ rt'.stack, f.notifies)
      (ha : (∀ n, (rt.lane n).activeTaskIds ⊆ (rt'.lane n).activeTaskIds) ∨
        ∃ f ∈ rt'.stack, f.notifies)
  | notify (rt₀ : Runtime) (hw : SameWaiters rt rt₀) (hl : ∀ n, rt'.lane n = rt₀.lane n)
      (he : SameWaiters rt₀.notifyActiveTaskWaiters rt')
  | create (timeoutMs : Option JsNumber) (he : rt' = rt.waitForActiveTasks timeoutMs)
  | timeout (id : ℕ) (hw : rt'.waiters = rt.waiters) (hi : rt'.nextWaiterId = rt.nextWaiterId)
      (hp : rt'.queue.activeTaskWaiters =
        rt.queue.activeTaskWaiters.filter fun waiter => waiter.id ≠ id)
      (hd : rt'.drained = rt.drained) (hl : ∀ n, rt'.lane n = rt.lane n)
      (hs : rt'.stack = rt.stack)

theorem mem_stack_drainLane_of_mem {rt : Runtime} {n : String} {f : Frame} (h : f ∈ rt.stack) :
    f ∈ (rt.drainLane n).stack := by
  obtain ⟨he, -⟩ | ⟨he, -⟩ := drainLane_cases rt n <;> rw [he]
  · exact h
  · exact List.mem_cons_of_mem _ h

/-- A call adds to the calls in progress. -/
theorem mem_stack_perform {rt : Runtime} {f : Frame} (h : f ∈ rt.stack) (c : Call) :
    f ∈ (rt.perform c).stack := by
  cases c with
  | enqueueCommandInLane lane opts closed now =>
    simp only [perform, enqueueCommandInLane]
    split_ifs
    · exact h
    · exact mem_stack_drainLane_of_mem h
  | setCommandLaneConcurrency lane k =>
    simp only [perform, setCommandLaneConcurrency]
    split_ifs
    · exact mem_stack_drainLane_of_mem h
    · exact h
  | clearCommandLane lane =>
    simp only [perform, clearCommandLane]
    split <;> exact h
  | resetCommandLane lane =>
    simp only [perform, resetCommandLane]
    split
    · exact h
    · split_ifs
      · exact mem_stack_drainLane_of_mem (List.mem_cons_of_mem _ h)
      · exact List.mem_cons_of_mem _ h
  | resetAllLanes => exact List.mem_cons_of_mem _ h
  | waitForActiveTasks timeoutMs =>
    rw [perform, waitForActiveTasks_stack]
    exact h

/-- A call that takes tasks out of their lanes is yet to notify. -/
theorem perform_owes (rt : Runtime) (c : Call) :
    (∀ n, (rt.lane n).activeTaskIds ⊆ ((rt.perform c).lane n).activeTaskIds) ∨
      ∃ f ∈ (rt.perform c).stack, f.notifies := by
  cases c with
  | resetCommandLane lane =>
    simp only [perform, resetCommandLane]
    split
    · exact .inl fun n => subset_rfl
    · refine .inr ⟨.resetCommandLane, ?_, rfl⟩
      split_ifs
      · exact mem_stack_drainLane_of_mem List.mem_cons_self
      · exact List.mem_cons_self
  | resetAllLanes => exact .inr ⟨_, List.mem_cons_self, rfl⟩
  | _ => exact .inl fun n => (rt.perform_activeTaskIds rfl n).symm.subset

theorem startEntry_activeTaskIds_subset (rt : Runtime) (name n : String) (entry : QueueEntry) :
    (rt.lane n).activeTaskIds ⊆ ((rt.startEntry name entry).lane n).activeTaskIds := by
  rw [startEntry_lane]
  split_ifs with hn
  · rw [hn]
    exact Finset.subset_insert _ _
  · exact subset_rfl

theorem waiterMove_startEntry (rt rt₀ : Runtime) (hw : SameWaiters rt rt₀)
    (hf : (∃ f ∈ rt.stack, f.notifies) → ∃ f ∈ rt₀.stack, f.notifies)
    (ha : ∀ n, (rt.lane n).activeTaskIds ⊆ (rt₀.lane n).activeTaskIds) (name : String)
    (entry : QueueEntry) : WaiterMove rt (rt₀.startEntry name entry) := by
  refine .keep (hw.startEntry name entry) (fun h => ?_)
    (.inl fun n => (ha n).trans (startEntry_activeTaskIds_subset rt₀ name n entry))
  obtain ⟨f, hm, hn⟩ := hf h
  obtain he | he := startEntry_cases rt₀ name entry <;> rw [he]
  · exact ⟨f, hm, hn⟩
  · exact ⟨f, List.mem_cons_of_mem _ hm, hn⟩

theorem waiterMove_of_move {rt rt' : Runtime} {l : Label} (h : Move rt l rt') :
    WaiterMove rt rt' := by
  -- a frame that notifies nobody may leave the stack
  have hpop {f : Frame} {rest fs : List Frame} (hs : rt.stack = f :: rest)
      (hf : f.notifies = false) (hsub : rest ⊆ fs) :
      (∃ g ∈ rt.stack, g.notifies) → ∃ g ∈ fs, g.notifies := by
    rintro ⟨g, hg, hn⟩
    rw [hs, List.mem_cons] at hg
    rcases hg with rfl | hg
    · rw [hf] at hn
      cases hn
    · exact ⟨g, hsub hg, hn⟩
  have hrefl : ∀ n, (rt.lane n).activeTaskIds ⊆ (rt.lane n).activeTaskIds := fun n => subset_rfl
  have hshifted (name n : String) :
      ((rt.shifted name).lane n).activeTaskIds = (rt.lane n).activeTaskIds :=
    setLane_activeTaskIds rt name { rt.lane name with queue := (rt.lane name).queue.tail } rfl n
  cases h with
  | call c hu =>
    by_cases hc : ∃ timeoutMs, c = .waitForActiveTasks timeoutMs
    · obtain ⟨timeoutMs, rfl⟩ := hc
      exact .create timeoutMs rfl
    · refine .keep (rt.sameWaiters_perform c fun t ht => hc ⟨t, ht⟩) ?_ (rt.perform_owes c)
      rintro ⟨f, hf, hn⟩
      exact ⟨f, mem_stack_perform hf c, hn⟩
  | pump_stop name rest now hs hf =>
    exact .keep (.refl rt) (hpop hs rfl (List.Subset.refl _)) (.inl fun n =>
      (setLane_activeTaskIds rt name { rt.lane name with draining := false } rfl n).symm.subset)
  | pump_wait name rest now entry queue hs hf hq =>
    exact .keep (.refl rt) (hpop hs rfl (List.subset_cons_self _ _))
      (.inl fun n => (hshifted name n).symm.subset)
  | pump_start name rest now entry queue hs hf hq =>
    exact waiterMove_startEntry rt ((rt.shifted name).setStack (.pump name none :: rest)) (.refl rt)
      (hpop hs rfl (List.subset_cons_self _ _)) (fun n => (hshifted name n).symm.subset) name entry
  | resetCommandLane rest now hs =>
    exact .notify (rt.setStack rest) (.refl rt) (fun n => rfl) (.refl _)
  | resetAllLanes_drain name names rest now hs =>
    have hw : SameWaiters rt (rt.setStack (.resetAllLanes names :: rest)) := .refl rt
    refine .keep (hw.drainLane name) (fun _ => ?_) (.inl fun n => ?_)
    · exact ⟨.resetAllLanes names, mem_stack_drainLane_of_mem List.mem_cons_self, rfl⟩
    · rw [drainLane_activeTaskIds, setStack_lane]
  | resetAllLanes_notify rest now hs =>
    exact .notify (rt.setStack rest) (.refl rt) (fun n => rfl) (.refl _)
  | settleEntry entry outcome rest now hs =>
    exact .keep (.refl rt) (hpop hs rfl (List.Subset.refl _)) (.inl hrefl)
  | onWaitReturn name entry bound rest hs =>
    exact waiterMove_startEntry rt (rt.setStack (.pump name none :: rest)) (.refl rt)
      (hpop hs rfl (List.subset_cons_self _ _)) hrefl name entry
  | progressReturn rest hs =>
    exact .keep (.refl rt) (hpop hs rfl (List.Subset.refl _)) (.inl hrefl)
  | taskSettled_current task outcome hs hm hg =>
    exact .notify (({ rt with running := rt.running.erase task }.push
      (.settleEntry task.entry outcome)).setLane task.lane
        (completeTask (rt.lane task.lane) task.taskId task.taskGeneration))
      (.refl rt) (fun n => rfl) (.refl _)
  | taskSettled_stale task outcome hs hm hg =>
    exact .keep (.refl rt) (fun ⟨f, hf, _⟩ => by rw [hs] at hf; cases hf) (.inl hrefl)
  | waiterTimeout id hs => exact .timeout id rfl rfl rfl rfl (fun n => rfl) rfl

/-- `notifyActiveTaskWaiters` asks of a waiter whether it is owed a task. -/
theorem notify_done (rt : Runtime) (ids : Finset ℕ) :
    (ids = ∅ || !rt.queue.hasPendingActiveTasks ids) = true ↔ ¬ rt.Owes ids := by
  rw [← hasPendingActiveTasks_iff_owes]
  cases h : rt.queue.hasPendingActiveTasks ids
  · simp
  · have hne : ids ≠ ∅ := by
      rintro rfl
      obtain ⟨n, hn⟩ := hasPendingActiveTasks_iff_owes.mp h
      exact hn (Finset.disjoint_empty_left _)
    simp [hne]

theorem mem_notify_waiters {rt : Runtime} {waiter : ActiveTaskWaiter} :
    waiter ∈ rt.notifyActiveTaskWaiters.queue.activeTaskWaiters ↔
      waiter ∈ rt.queue.activeTaskWaiters ∧ rt.Owes waiter.activeTaskIds := by
  simp only [notifyActiveTaskWaiters, List.mem_filter, Bool.not_eq_true', ← Bool.not_eq_true,
    notify_done, not_not]

theorem mem_notify_drained {rt : Runtime} {id : ℕ} :
    id ∈ rt.notifyActiveTaskWaiters.drained ↔ id ∈ rt.drained ∨
      ∃ waiter ∈ rt.queue.activeTaskWaiters, waiter.id = id ∧ ¬ rt.Owes waiter.activeTaskIds := by
  simp only [notifyActiveTaskWaiters, List.mem_append, List.mem_map, List.mem_filter, notify_done]
  constructor
  · rintro (h | ⟨waiter, ⟨hm, ho⟩, rfl⟩)
    · exact .inl h
    · exact .inr ⟨waiter, hm, rfl, ho⟩
  · rintro (h | ⟨waiter, hm, rfl, ho⟩)
    · exact .inl h
    · exact .inr ⟨waiter, ⟨hm, ho⟩, rfl⟩

theorem Owes.of_lane {rt rt' : Runtime} {ids : Finset ℕ}
    (h : ∀ n, (rt.lane n).activeTaskIds ⊆ (rt'.lane n).activeTaskIds) (ho : rt.Owes ids) :
    rt'.Owes ids := by
  obtain ⟨n, hn⟩ := ho
  exact ⟨n, fun hd => hn (hd.mono_right (h n))⟩

/-- The parts of a new waiter's promise that do not depend on how it begins. -/
theorem waitForActiveTasks_waiters (rt : Runtime) (timeoutMs : Option JsNumber) :
    (rt.waitForActiveTasks timeoutMs).waiters =
      rt.waiters ++ [(rt.nextWaiterId, rt.queue.activeIds)] ∧
    (rt.waitForActiveTasks timeoutMs).nextWaiterId = rt.nextWaiterId + 1 := by
  unfold waitForActiveTasks
  simp only
  split_ifs <;> exact ⟨rfl, rfl⟩

theorem not_owes_of_activeIds_eq_empty {rt : Runtime} {ids : Finset ℕ}
    (h : rt.queue.activeIds = ∅) : ¬ rt.Owes ids := by
  rintro ⟨n, hn⟩
  obtain ⟨i, -, hi⟩ := Finset.not_disjoint_iff.mp hn
  have : i ∈ rt.queue.activeIds := QueueState.mem_activeIds.mpr ⟨n, hi⟩
  rw [h] at this
  exact Finset.notMem_empty i this

/-- A waiter pending after `waitForActiveTasks` was pending, or is new and owed a task. -/
theorem mem_waitForActiveTasks {rt : Runtime} {timeoutMs : Option JsNumber}
    {waiter : ActiveTaskWaiter}
    (h : waiter ∈ (rt.waitForActiveTasks timeoutMs).queue.activeTaskWaiters) :
    waiter ∈ rt.queue.activeTaskWaiters ∨
      (waiter.id = rt.nextWaiterId ∧ waiter.activeTaskIds = rt.queue.activeIds) ∧
        rt.Owes waiter.activeTaskIds := by
  unfold waitForActiveTasks at h
  simp only at h
  split_ifs at h
  · exact .inl h
  · exact .inl h
  · obtain ⟨hm, ho⟩ := mem_notify_waiters.mp h
    rcases List.mem_append.mp hm with hm | hm
    · exact .inl hm
    · obtain rfl := List.mem_singleton.mp hm
      exact .inr ⟨⟨rfl, rfl⟩, ho⟩

/-- A promise `waitForActiveTasks` resolves is that of a waiter owed nothing. -/
theorem drained_waitForActiveTasks {rt : Runtime} {timeoutMs : Option JsNumber} {id : ℕ}
    (h : id ∈ (rt.waitForActiveTasks timeoutMs).drained) : id ∈ rt.drained ∨
      ∃ ids, ¬ rt.Owes ids ∧ ((id, ids) = (rt.nextWaiterId, rt.queue.activeIds) ∨
        ∃ waiter ∈ rt.queue.activeTaskWaiters, (id, ids) = (waiter.id, waiter.activeTaskIds)) := by
  unfold waitForActiveTasks at h
  simp only at h
  split_ifs at h with he
  · rcases List.mem_append.mp h with h | h
    · exact .inl h
    · obtain rfl := List.mem_singleton.mp h
      exact .inr ⟨_, not_owes_of_activeIds_eq_empty he, .inl rfl⟩
  · exact .inl h
  · rcases mem_notify_drained.mp h with h | ⟨waiter, hm, rfl, ho⟩
    · exact .inl h
    · refine .inr ⟨waiter.activeTaskIds, ho, ?_⟩
      rcases List.mem_append.mp hm with hm | hm
      · exact .inr ⟨waiter, hm, rfl⟩
      · obtain rfl := List.mem_singleton.mp hm
        exact .inl rfl

end Runtime

/-- The invariant of the waiters. -/
structure WaitersInvariant (rt : Runtime) : Prop where
  ids_lt : ∀ w ∈ rt.waiters, w.1 < rt.nextWaiterId
  nodup : (rt.waiters.map Prod.fst).Nodup
  captured_lt : ∀ w ∈ rt.waiters, ∀ taskId ∈ w.2, taskId < rt.queue.nextTaskId
  recorded : ∀ waiter ∈ rt.queue.activeTaskWaiters, (waiter.id, waiter.activeTaskIds) ∈ rt.waiters
  owed : (∃ f ∈ rt.stack, f.notifies) ∨
    ∀ waiter ∈ rt.queue.activeTaskWaiters, rt.Owes waiter.activeTaskIds

theorem waitersInvariant_initial : WaitersInvariant .initial where
  ids_lt _ h := nomatch h
  nodup := List.nodup_nil
  captured_lt _ h := nomatch h
  recorded _ h := nomatch h
  owed := .inr fun _ h => nomatch h

theorem nextTaskId_le {rt rt' : Runtime} {l : Label} (h : Move rt l rt') :
    rt.queue.nextTaskId ≤ rt'.queue.nextTaskId := by
  cases taskMove_of_move h with
  | keep hr hn ha => omega
  | start task hid hr hn hw ha => omega

theorem waitersInvariant_step {rt rt' : Runtime} {l : Label} (inv : WaitersInvariant rt)
    (fresh : FreshTaskIds rt) (h : machine.step rt l = some rt') : WaitersInvariant rt' := by
  have hnext := nextTaskId_le (move_of_step h)
  cases waiterMove_of_move (move_of_step h) with
  | keep hw hf ha =>
    obtain ⟨hw, hi, hp, -⟩ := hw
    refine ⟨by rw [hw, hi]; exact inv.ids_lt, by rw [hw]; exact inv.nodup, ?_,
      by rw [hw, hp]; exact inv.recorded, ?_⟩
    · rw [hw]
      exact fun w hm i hi => (inv.captured_lt w hm i hi).trans_le hnext
    · rw [hp]
      rcases inv.owed, ha with ⟨hr | ho, ha | hr'⟩
      · exact .inl (hf hr)
      · exact .inl hr'
      · exact .inr fun w hm => (ho w hm).of_lane ha
      · exact .inl hr'
  | notify rt₀ hw hl he =>
    obtain ⟨hw', hi', hp', -⟩ := he
    have hwaiters : rt'.waiters = rt.waiters := hw'.trans hw.1
    -- the waiters that are left are those with a task of theirs still active
    have hpending : ∀ waiter ∈ rt'.queue.activeTaskWaiters,
        waiter ∈ rt.queue.activeTaskWaiters ∧ rt₀.Owes waiter.activeTaskIds := by
      intro waiter hm
      rw [hp'] at hm
      obtain ⟨hm, ho⟩ := mem_notify_waiters.mp hm
      exact ⟨hw.2.2.1 ▸ hm, ho⟩
    refine ⟨?_, by rw [hwaiters]; exact inv.nodup, ?_, ?_, .inr fun waiter hm => ?_⟩
    · rw [hwaiters, hi'.trans hw.2.1]
      exact inv.ids_lt
    · rw [hwaiters]
      exact fun w hm i hi => (inv.captured_lt w hm i hi).trans_le hnext
    · rw [hwaiters]
      exact fun waiter hm => inv.recorded waiter (hpending waiter hm).1
    · exact (hpending waiter hm).2.of_lane fun n => by rw [hl]
  | create timeoutMs he =>
    subst he
    -- the new waiter has the next id, and waits for tasks that are active now
    obtain ⟨hw, hi⟩ := waitForActiveTasks_waiters rt timeoutMs
    refine ⟨?_, ?_, ?_, fun waiter hm => ?_, ?_⟩
    · rw [hw, hi]
      intro w hm
      rcases List.mem_append.mp hm with hm | hm
      · exact Nat.lt_succ_of_lt (inv.ids_lt w hm)
      · obtain rfl := List.mem_singleton.mp hm
        exact Nat.lt_succ_self _
    · rw [hw, List.map_append, List.map_singleton, List.nodup_append_comm]
      refine List.nodup_cons.mpr ⟨fun hm => ?_, inv.nodup⟩
      obtain ⟨w, hm, heq⟩ := List.mem_map.mp hm
      exact absurd (inv.ids_lt w hm) (by simp [heq])
    · rw [hw]
      intro w hm i hi
      refine Nat.lt_of_lt_of_le ?_ hnext
      rcases List.mem_append.mp hm with hm | hm
      · exact inv.captured_lt w hm i hi
      · obtain rfl := List.mem_singleton.mp hm
        obtain ⟨n, hn⟩ := QueueState.mem_activeIds.mp hi
        exact fresh.active_lt n i hn
    · rw [hw, List.mem_append, List.mem_singleton]
      rcases mem_waitForActiveTasks hm with hm | ⟨⟨hid, hids⟩, -⟩
      · exact .inl (inv.recorded waiter hm)
      · exact .inr (by rw [hid, hids])
    · rcases inv.owed with hr | ho
      · exact .inl (by rwa [waitForActiveTasks_stack])
      · refine .inr fun waiter hm => ?_
        have howes : rt.Owes waiter.activeTaskIds :=
          (mem_waitForActiveTasks hm).elim (ho waiter) fun h => h.2
        exact howes.of_lane fun n => by rw [waitForActiveTasks_lane]
  | timeout id hw hi hp hd hl hs =>
    have hsub : ∀ waiter ∈ rt'.queue.activeTaskWaiters, waiter ∈ rt.queue.activeTaskWaiters := by
      rw [hp]
      exact fun waiter hm => List.mem_of_mem_filter hm
    refine ⟨by rw [hw, hi]; exact inv.ids_lt, by rw [hw]; exact inv.nodup, ?_, ?_, ?_⟩
    · rw [hw]
      exact fun w hm i hi => (inv.captured_lt w hm i hi).trans_le hnext
    · rw [hw]
      exact fun waiter hm => inv.recorded waiter (hsub waiter hm)
    · rw [hs]
      exact inv.owed.imp_right fun ho waiter hm =>
        (ho waiter (hsub waiter hm)).of_lane fun n => by rw [hl]

theorem waitersInvariant_reachable {rt : Runtime} (h : machine.Reachable rt) :
    WaitersInvariant rt :=
  (h.invariant (P := fun rt => WaitersInvariant rt ∧ FreshTaskIds rt)
    ⟨waitersInvariant_initial, freshTaskIds_initial⟩ fun _ _ _ inv hs =>
      ⟨waitersInvariant_step inv.1 inv.2 hs, freshTaskIds_step inv.2 hs⟩).1

/-- What a `waitForActiveTasks` promise may rely on.  `waiters` records the set each waiter
captured; `idle` covers every completion, as those begin with no call in progress. -/
structure WaitersSound (rt : Runtime) : Prop where
  captured : ∀ timeoutMs, (rt.waitForActiveTasks timeoutMs).waiters =
    rt.waiters ++ [(rt.nextWaiterId, rt.queue.activeIds)]
  recorded : ∀ waiter ∈ rt.queue.activeTaskWaiters, (waiter.id, waiter.activeTaskIds) ∈ rt.waiters
  sound : ∀ l rt', machine.step rt l = some rt' → ∀ id ids, (id, ids) ∈ rt'.waiters →
    id ∈ rt'.drained → id ∉ rt.drained → ∀ n, Disjoint ids (rt'.lane n).activeTaskIds
  idle : rt.stack = [] → ∀ waiter ∈ rt.queue.activeTaskWaiters, rt.Owes waiter.activeTaskIds
  afterReset : ∀ f rest now rt', rt.stack = f :: rest →
    f = .resetCommandLane ∨ f = .resetAllLanes [] → machine.step rt (.resume now) = some rt' →
      ∀ waiter ∈ rt'.queue.activeTaskWaiters, rt'.Owes waiter.activeTaskIds
  laterStart : ∀ l rt', machine.step rt l = some rt' → ∀ n, ∀ taskId ∈ (rt'.lane n).activeTaskIds,
    taskId ∉ (rt.lane n).activeTaskIds → SameWaiters rt rt' ∧ ∀ w ∈ rt'.waiters, taskId ∉ w.2
  laterEnqueue : ∀ lane opts closed now,
    SameWaiters rt (rt.enqueueCommandInLane lane opts closed now)

theorem not_owes_iff {rt : Runtime} {ids : Finset ℕ} :
    ¬ rt.Owes ids ↔ ∀ n, Disjoint ids (rt.lane n).activeTaskIds := by
  simp [Owes]

theorem drained_sound {rt rt' : Runtime} {l : Label} (inv : WaitersInvariant rt)
    (inv' : WaitersInvariant rt') (h : machine.step rt l = some rt') {id : ℕ} {ids : Finset ℕ}
    (hm : (id, ids) ∈ rt'.waiters) (hnew : id ∈ rt'.drained) (hold : id ∉ rt.drained) :
    ¬ rt'.Owes ids := by
  have huniq {ids' : Finset ℕ} (hm' : (id, ids') ∈ rt'.waiters) : ids' = ids := congrArg Prod.snd
    (List.inj_on_of_nodup_map inv'.nodup hm' hm rfl)
  cases waiterMove_of_move (move_of_step h) with
  | keep hw hf ha =>
    rw [hw.2.2.2] at hnew
    exact absurd hnew hold
  | notify rt₀ hw hl he =>
    rw [he.2.2.2] at hnew
    rcases mem_notify_drained.mp hnew with hd | ⟨waiter, hp, rfl, ho⟩
    · rw [hw.2.2.2] at hd
      exact absurd hd hold
    · have hrec := inv.recorded waiter (hw.2.2.1 ▸ hp)
      rw [← hw.1, show rt₀.waiters = rt'.waiters from he.1.symm] at hrec
      rw [← huniq hrec]
      exact fun ho' => ho (ho'.of_lane fun n => by rw [hl])
  | create timeoutMs he =>
    subst he
    have hw := (waitForActiveTasks_waiters rt timeoutMs).1
    rcases drained_waitForActiveTasks hnew with hd | ⟨ids', ho, hids⟩
    · exact absurd hd hold
    · have hmem : (id, ids') ∈ (rt.waitForActiveTasks timeoutMs).waiters := by
        rw [hw, List.mem_append, List.mem_singleton]
        rcases hids with hids | ⟨waiter, hp, hids⟩
        · exact .inr hids
        · exact .inl (hids ▸ inv.recorded waiter hp)
      rw [← huniq hmem]
      exact fun ho' => ho (ho'.of_lane fun n => by rw [waitForActiveTasks_lane])
  | timeout id hw hi hp hd hl hs =>
    rw [hd] at hnew
    exact absurd hnew hold

theorem owes_after_notifies {rt rt' : Runtime} {f : Frame} {rest : List Frame} {now : ℤ}
    (hs : rt.stack = f :: rest) (hf : f = .resetCommandLane ∨ f = .resetAllLanes [])
    (h : machine.step rt (.resume now) = some rt') :
    ∀ waiter ∈ rt'.queue.activeTaskWaiters, rt'.Owes waiter.activeTaskIds := by
  have he : rt' = (rt.setStack rest).notifyActiveTaskWaiters := by
    rcases hf with rfl | rfl <;> simpa [machine, step, resume, hs, eq_comm] using h
  subst he
  intro waiter hm
  exact (mem_notify_waiters.mp hm).2

/-- A waiter is told `drained` only when none of the tasks it captured is active; no such waiter
is left pending when all calls, or a reset of a lane that exists, have returned; and later tasks
are nothing to it. -/
theorem waiters_sound {rt : Runtime} (h : machine.Reachable rt) : WaitersSound rt := by
  have inv := waitersInvariant_reachable h
  have fresh := freshTaskIds_reachable h
  constructor
  case captured => exact fun timeoutMs => (waitForActiveTasks_waiters rt timeoutMs).1
  case recorded => exact inv.recorded
  case sound =>
    intro l rt' hs id ids hm hnew hold
    exact not_owes_iff.mp
      (drained_sound inv (waitersInvariant_reachable (h.step hs)) hs hm hnew hold)
  case idle =>
    intro hs
    refine inv.owed.resolve_left ?_
    rintro ⟨f, hf, -⟩
    rw [hs] at hf
    cases hf
  case afterReset => exact fun f rest now rt' hs hf hstep => owes_after_notifies hs hf hstep
  case laterStart =>
    intro l rt' hs n taskId hm hold
    cases taskMove_of_move (move_of_step hs) with
    | keep hr hn ha => exact absurd (ha n hm) hold
    | start task hid hr hn hw ha =>
      refine ⟨hw, fun w hmem hcap => ?_⟩
      obtain rfl : taskId = rt.queue.nextTaskId :=
        (Finset.mem_insert.mp (ha n hm)).resolve_right hold
      rw [hw.1] at hmem
      exact absurd (inv.captured_lt w hmem _ hcap) (Nat.lt_irrefl _)
  case laterEnqueue =>
    intro lane opts closed now
    exact rt.sameWaiters_perform (.enqueueCommandInLane lane opts closed now) nofun

/-- A waiter waits for the task `resetAllLanes` forgets; before the reset notifies, it pumps an
entry whose `onWait` runs. -/
def resetBeforeNotify : List Label := [
  .call (.enqueueCommandInLane "main" {} false 0), .resume 0, .resume 0,
  .call (.waitForActiveTasks none),
  .call (.enqueueCommandInLane "main" { warnAfterMs := some (.ofNat 0), onWait := true } false 0),
  .resume 0, .call .resetAllLanes, .resume 0, .resume 0]

theorem waiters_sound_resetBeforeNotify : ∃ rt,
    machine.exec machine.start resetBeforeNotify = some rt ∧ WaitersSound rt := by
  obtain ⟨rt, h⟩ := Option.isSome_iff_exists.mp
    (by decide : (machine.exec machine.start resetBeforeNotify).isSome = true)
  exact ⟨rt, h, waiters_sound (.exec .start h)⟩

/-- That `onWait` may call `resetCommandLane` for a lane that does not exist, which returns
without a notification. -/
theorem missingLane_leaves_waiter : ¬ ∀ rt lane rt', machine.Reachable rt →
    machine.step rt (.call (.resetCommandLane lane)) = some rt' → rt'.stack = rt.stack →
      ∀ waiter ∈ rt'.queue.activeTaskWaiters, rt'.Owes waiter.activeTaskIds := by
  intro hnotified
  obtain ⟨rt, h⟩ := Option.isSome_iff_exists.mp
    (by decide : (machine.exec machine.start resetBeforeNotify).isSome = true)
  have hleft : (machine.exec machine.start resetBeforeNotify).all fun rt =>
      (machine.step rt (.call (.resetCommandLane "missing"))).any fun rt' =>
        decide (rt'.stack = rt.stack) && rt'.queue.activeTaskWaiters.any fun waiter =>
          !rt'.queue.hasPendingActiveTasks waiter.activeTaskIds := by decide
  simp only [h, Option.all_some, Option.any_eq_true, Bool.and_eq_true, decide_eq_true_eq,
    List.any_eq_true, Bool.not_eq_true', ← Bool.not_eq_true, hasPendingActiveTasks_iff_owes] at hleft
  obtain ⟨rt', hs, hstack, waiter, hm, hnot⟩ := hleft
  exact hnot (hnotified rt "missing" rt' (.exec .start h) hs hstack waiter hm)

end Flashclaw.CommandQueue
