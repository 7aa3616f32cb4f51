import Flashclaw.CommandQueue.Order
import Flashclaw.CommandQueue.Tasks

/-!
# Command lanes: work conservation

A lane that could start an entry has someone about to start it: a pump of its
own on the stack, or a reset that has yet to drain it.  So when every call has
returned no lane is left with work and a free slot.
-/

namespace Flashclaw.CommandQueue

open CommandQueue.Runtime

/-- A pump of the lane is in progress. -/
def Runtime.Pumping (rt : Runtime) (n : String) : Prop := ∃ w, Frame.pump n w ∈ rt.stack

/-- A reset in progress has yet to drain the lane. -/
def Runtime.ToDrain (rt : Runtime) (n : String) : Prop :=
  ∃ names, Frame.resetAllLanes names ∈ rt.stack ∧ n ∈ names

/-- The invariant of one lane. -/
structure Attended (rt : Runtime) (n : String) : Prop where
  name : (rt.lane n).lane = n
  draining : (rt.lane n).draining = true → rt.Pumping n
  pumpable : (rt.lane n).pumpable → rt.Pumping n ∨ rt.ToDrain n

theorem attended_initial (n : String) : Attended .initial n where
  name := rfl
  draining h := nomatch h
  pumpable h := absurd rfl h.2

section Lane

variable {rt rt' : Runtime} {n m : String}

theorem Attended.keep (h : Attended rt n) (hl : rt'.lane n = rt.lane n)
    (hp : rt.Pumping n → rt'.Pumping n) (hd : rt.ToDrain n → rt'.Pumping n ∨ rt'.ToDrain n) :
    Attended rt' n where
  name := by rw [hl]; exact h.name
  draining := by rw [hl]; exact fun hb => hp (h.draining hb)
  pumpable := by rw [hl]; exact fun hb => (h.pumpable hb).elim (fun h => .inl (hp h)) hd

/-- With the lane as it was, a stack that has lost no frame of interest. -/
theorem Attended.keep_stack (h : Attended rt n) (hl : rt'.lane n = rt.lane n)
    (hs : ∀ f ∈ rt.stack, f ∈ rt'.stack ∨ (∀ w, f ≠ .pump n w) ∧ ∀ ns, f ≠ .resetAllLanes ns) :
    Attended rt' n := by
  refine h.keep hl ?_ ?_
  · rintro ⟨w, hw⟩
    exact ⟨w, (hs _ hw).resolve_right fun hne => hne.1 w rfl⟩
  · rintro ⟨ns, hns, hn⟩
    exact .inr ⟨ns, (hs _ hns).resolve_right fun hne => hne.2 ns rfl, hn⟩

theorem Attended.of_pumping (name : (rt.lane n).lane = n) (hp : rt.Pumping n) : Attended rt n :=
  ⟨name, fun _ => hp, fun _ => .inl hp⟩

theorem Attended.of_idle (name : (rt.lane n).lane = n) (hd : (rt.lane n).draining = false)
    (hp : ¬ (rt.lane n).pumpable) : Attended rt n :=
  ⟨name, fun h => absurd (hd.symm.trans h) (by decide), fun h => absurd h hp⟩

theorem attended_drainLane (name : (rt.lane n).lane = n)
    (hd : (rt.lane n).draining = true → rt.Pumping n) : Attended (rt.drainLane n) n := by
  refine .of_pumping (by rw [drainLane_name, name]) ?_
  obtain ⟨he, hb⟩ | ⟨he, -⟩ := drainLane_cases rt n <;> rw [he]
  · exact hd hb
  · exact ⟨none, List.mem_cons_self⟩

theorem attended_drainLane_ne (h : Attended rt n) (hne : m ≠ n) :
    Attended (rt.drainLane m) n := by
  obtain ⟨he, -⟩ | ⟨he, -⟩ := drainLane_cases rt m <;> rw [he]
  · exact h
  · exact h.keep_stack (lane_setLane_ne rt hne _) fun f hf => .inl (List.mem_cons_of_mem _ hf)

end Lane

theorem not_pumpable_of_not_pos {state : LaneState}
    (h : ¬ JsNumber.ofNat 0 < state.maxConcurrent) : ¬ state.pumpable := fun hp =>
  h (JsNumber.ofNat_lt_of_le_of_lt (Nat.zero_le _) hp.1)

/-- `resetAllLanes` notes every lane with a queue. -/
theorem toDrain_resetAllLanes {rt : Runtime} {n : String} (name : (rt.lane n).lane = n)
    (hq : (rt.lane n).queue ≠ []) : rt.resetAllLanes.ToDrain n := by
  refine ⟨_, List.mem_cons_self, ?_⟩
  cases hn : rt.queue.lanes.get? n with
  | none => exact absurd (by rw [lane_eq_getD, hn]; rfl) hq
  | some state =>
    have hl : rt.lane n = state := QueueState.getLaneState_of_get? hn
    subst hl
    refine List.mem_map.mpr ⟨rt.lane n, List.mem_filter.mpr ⟨?_, by simpa using hq⟩, name⟩
    exact JsMap.mem_values.mpr ⟨n, hn⟩

theorem mem_startEntry_stack {rt : Runtime} {m : String} {entry : QueueEntry} {f : Frame}
    (h : f ∈ rt.stack) : f ∈ (rt.startEntry m entry).stack := by
  obtain he | he := startEntry_cases rt m entry <;> rw [he]
  · exact h
  · exact List.mem_cons_of_mem _ h

/-- A start by a pump that goes on. -/
theorem attended_startEntry {rt : Runtime} {n name : String} {rest : List Frame}
    (entry : QueueEntry) (h : Attended (rt.setStack (.pump name none :: rest)) n) :
    Attended ((rt.setStack (.pump name none :: rest)).startEntry name entry) n := by
  by_cases hn : name = n
  · subst hn
    refine .of_pumping ?_ ⟨none, mem_startEntry_stack List.mem_cons_self⟩
    rw [startEntry_lane, if_pos rfl]
    exact h.name
  · exact h.keep_stack (by rw [startEntry_lane, if_neg hn])
      fun f hf => .inl (mem_startEntry_stack hf)

/-- The entry shifted off leaves the pump on the stack. -/
theorem attended_shifted {rt : Runtime} {n name : String} {w w' : Option (QueueEntry × ℕ)}
    {rest : List Frame} (h : Attended rt n) (hs : rt.stack = .pump name w :: rest) :
    Attended ((rt.shifted name).setStack (.pump name w' :: rest)) n := by
  by_cases hn : name = n
  · subst hn
    refine .of_pumping ?_ ⟨w', List.mem_cons_self⟩
    rw [setStack_lane, shifted_lane, if_pos rfl]
    exact h.name
  · refine h.keep_stack (by rw [setStack_lane, shifted_lane, if_neg hn]) ?_
    simp +contextual [hs, hn]

theorem attended_call {rt : Runtime} {n : String} (h : Attended rt n) (c : Call) :
    Attended (rt.perform c) n := by
  cases c with
  | enqueueCommandInLane lane opts closed now =>
    simp only [perform, enqueueCommandInLane]
    split_ifs
    · exact h
    · by_cases hn : normalizeLane lane = n
      · subst hn
        refine attended_drainLane ?_ ?_ <;> rw [lane_setLane_self]
        · rw [enqueueLaneEntry_name]; exact h.name
        · rw [enqueueLaneEntry_draining]; exact h.draining
      · exact attended_drainLane_ne (h.keep_stack (lane_setLane_ne _ hn _) fun f hf => .inl hf) hn
  | setCommandLaneConcurrency lane k =>
    simp only [perform, setCommandLaneConcurrency]
    by_cases hn : normalizeLane lane = n
    · subst hn
      split_ifs with hk
      · refine attended_drainLane ?_ ?_ <;> rw [lane_setLane_self]
        · exact h.name
        · exact h.draining
      · refine ⟨?_, ?_, ?_⟩ <;> rw [lane_setLane_self]
        · exact h.name
        · exact h.draining
        · -- with no slots left the lane has nothing to pump
          exact fun hp => absurd hp (not_pumpable_of_not_pos hk)
    · have hkeep := h.keep_stack (lane_setLane_ne rt hn { rt.lane (normalizeLane lane) with
        maxConcurrent := resolveMaxConcurrent (normalizeLane lane) k }) fun f hf => .inl hf
      split_ifs
      · exact attended_drainLane_ne hkeep hn
      · exact hkeep
  | clearCommandLane lane =>
    simp only [perform, clearCommandLane]
    split
    · exact h
    · rename_i state hg
      obtain rfl : rt.lane (normalizeLane lane) = state := QueueState.getLaneState_of_get? hg
      by_cases hn : normalizeLane lane = n
      · subst hn
        refine ⟨?_, ?_, ?_⟩ <;> rw [lane_setLane_self]
        · exact h.name
        · exact h.draining
        · exact fun hp => absurd rfl hp.2
      · exact h.keep_stack (lane_setLane_ne _ hn _) fun f hf => .inl hf
  | resetCommandLane lane =>
    simp only [perform, resetCommandLane]
    split
    · exact h
    · rename_i state hg
      obtain rfl : rt.lane (normalizeLane lane) = state := QueueState.getLaneState_of_get? hg
      by_cases hn : normalizeLane lane = n
      · subst hn
        split_ifs with hq
        · refine attended_drainLane ?_ ?_ <;> rw [push_lane, lane_setLane_self]
          · exact h.name
          · exact fun hb => absurd hb Bool.false_ne_true
        · refine .of_idle ?_ ?_ ?_ <;> rw [push_lane, lane_setLane_self]
          · exact h.name
          · rfl
          · exact fun hp => hq hp.2
      · have hkeep : Attended ((rt.setLane (normalizeLane lane)
            (rt.lane (normalizeLane lane)).reset).push .resetCommandLane) n :=
          h.keep_stack (lane_setLane_ne _ hn _) fun f hf => .inl (List.mem_cons_of_mem _ hf)
        split_ifs
        · exact attended_drainLane_ne hkeep hn
        · exact hkeep
  | resetAllLanes =>
    obtain hl | ⟨hl, hc⟩ := resetAllLanes_lane rt n
    · refine ⟨?_, ?_, ?_⟩ <;> rw [perform, hl]
      · exact h.name
      · exact fun hb => absurd hb Bool.false_ne_true
      · -- a lane with entries is on the list of lanes that the call drains next
        exact fun hp => .inr (toDrain_resetAllLanes h.name hp.2)
    · refine .of_idle ?_ ?_ ?_ <;> rw [perform, hl, hc]
      · rfl
      · rfl
      · exact fun hp => absurd rfl hp.2
  | waitForActiveTasks timeoutMs =>
    refine h.keep_stack (waitForActiveTasks_lane rt n timeoutMs) fun f hf => .inl ?_
    rwa [perform, waitForActiveTasks_stack]

theorem attended_step {rt rt' : Runtime} {l : Label} {n : String} (h : Attended rt n)
    (hstep : machine.step rt l = some rt') : Attended rt' n := by
  cases move_of_step hstep with
  | call c => exact attended_call h c
  | pump_stop name rest now hs hf =>
    by_cases hn : name = n
    · subst hn
      refine .of_idle ?_ ?_ ?_ <;> rw [setStack_lane, lane_setLane_self]
      · exact h.name
      · exact hf
    · refine h.keep_stack (lane_setLane_ne rt hn _) ?_
      simp only [hs, List.forall_mem_cons]
      exact ⟨.inr ⟨by simp [hn], by simp⟩, fun f hf => .inl hf⟩
  | pump_wait name rest now entry queue hs hf hq => exact attended_shifted h hs
  | pump_start name rest now entry queue hs hf hq =>
    exact attended_startEntry entry (attended_shifted h hs)
  | resetCommandLane rest now hs =>
    exact h.keep_stack rfl (by simp +contextual [hs])
  | resetAllLanes_drain name names rest now hs =>
    have hstack : ∀ w, Frame.pump n w ∈ rt.stack →
        Frame.pump n w ∈ (rt.setStack (.resetAllLanes names :: rest)).stack := by
      simp [hs]
    by_cases hn : name = n
    · subst hn
      refine attended_drainLane h.name fun hb => ?_
      obtain ⟨w, hw⟩ := h.draining hb
      exact ⟨w, hstack w hw⟩
    · refine attended_drainLane_ne (h.keep rfl (fun ⟨w, hw⟩ => ⟨w, hstack w hw⟩) ?_) hn
      -- a lane that is still to be drained stays on the list behind the first one
      rintro ⟨ns, hns, hmem⟩
      rw [hs, List.mem_cons] at hns
      rcases hns with he | hns
      · cases he
        exact .inr ⟨names, List.mem_cons_self, by simpa [Ne.symm hn] using hmem⟩
      · exact .inr ⟨ns, List.mem_cons_of_mem _ hns, hmem⟩
  | resetAllLanes_notify rest now hs =>
    refine h.keep rfl ?_ ?_
    · rintro ⟨w, hw⟩
      exact ⟨w, by simpa [hs] using hw⟩
    · rintro ⟨ns, hns, hmem⟩
      rw [hs, List.mem_cons] at hns
      rcases hns with he | hns
      · cases he
        cases hmem
      · exact .inr ⟨ns, hns, hmem⟩
  | settleEntry entry outcome rest now hs => exact h.keep_stack rfl (by simp +contextual [hs])
  | onWaitReturn name entry bound rest hs =>
    refine attended_startEntry entry (h.keep rfl ?_ ?_)
    · rintro ⟨w, hw⟩
      rw [hs, List.mem_cons] at hw
      rcases hw with he | hw
      · cases he
        exact ⟨none, List.mem_cons_self⟩
      · exact ⟨w, List.mem_cons_of_mem _ hw⟩
    · rintro ⟨ns, hns, hmem⟩
      exact .inr ⟨ns, by simpa [hs] using hns, hmem⟩
  | progressReturn rest hs => exact h.keep_stack rfl (by simp +contextual [hs])
  | taskSettled_current task outcome hs hm hg =>
    by_cases hn : task.lane = n
    · subst hn
      refine .of_pumping ?_ ⟨none, List.mem_cons_self⟩
      rw [push_lane, notify_lane, lane_setLane_self, completeTask_name]
      exact h.name
    · exact h.keep_stack (lane_setLane_ne _ hn _) (by simp [hs])
  | taskSettled_stale task outcome hs hm hg => exact h.keep_stack rfl (by simp [hs])
  | waiterTimeout id hs => exact h.keep_stack rfl fun f hf => .inl hf

theorem attended_reachable {rt : Runtime} (h : machine.Reachable rt) (n : String) :
    Attended rt n :=
  h.invariant (P := fun rt => Attended rt n) (attended_initial n) fun _ _ _ => attended_step

/-- A completion of the lane's present generation takes its own id, and no other, off the active
set. -/
theorem completeTask_current {state : LaneState} {taskId taskGeneration : ℕ}
    (hg : taskGeneration = state.generation) :
    (completeTask state taskId taskGeneration).activeTaskIds = state.activeTaskIds.erase taskId := by
  unfold completeTask
  rw [if_neg (not_not_intro hg)]

/-- When every call has returned no lane has a waiting entry and a free slot; meanwhile one that
has is being pumped or about to be.  The completion of a task of an old generation changes no
lane, one of the present generation frees its own slot. -/
theorem no_lane_stalled {rt : Runtime} (h : machine.Reachable rt) :
    (rt.stack = [] → ∀ n, ¬ (rt.lane n).pumpable) ∧
    (∀ n, (rt.lane n).pumpable → rt.Pumping n ∨ rt.ToDrain n) ∧
    (∀ task ∈ rt.running, task.taskGeneration ≠ (rt.lane task.lane).generation →
      ∀ outcome rt', machine.step rt (.taskSettled task.taskId outcome) = some rt' →
        ∀ n, rt'.lane n = rt.lane n) ∧
    ∀ task ∈ rt.running, task.taskGeneration = (rt.lane task.lane).generation →
      ∀ outcome rt', machine.step rt (.taskSettled task.taskId outcome) = some rt' →
        (rt'.lane task.lane).activeTaskIds =
          (rt.lane task.lane).activeTaskIds.erase task.taskId ∧ rt'.Pumping task.lane := by
  have same_id : ∀ task ∈ rt.running, ∀ t ∈ rt.running, t.taskId = task.taskId → t = task :=
    fun task hm t ht he => List.inj_on_of_nodup_map (freshTaskIds_reachable h).nodup ht hm he
  refine ⟨fun hs n hp => ?_, fun n => (attended_reachable h n).pumpable, ?_, ?_⟩
  · rcases (attended_reachable h n).pumpable hp with ⟨w, hw⟩ | ⟨ns, hns, -⟩
    · rw [hs] at hw
      cases hw
    · rw [hs] at hns
      cases hns
  · intro task hm hg outcome rt' hstep n
    generalize hl : Label.taskSettled task.taskId outcome = l at hstep
    cases move_of_step hstep with
    | taskSettled_current t _ _ ht hg' =>
      injection hl with hid
      obtain rfl := same_id task hm t ht hid.symm
      exact absurd hg' hg
    | taskSettled_stale => rfl
    | _ => cases hl
  · intro task hm hg outcome rt' hstep
    generalize hl : Label.taskSettled task.taskId outcome = l at hstep
    cases move_of_step hstep with
    | taskSettled_current t _ _ ht hg' =>
      injection hl with hid
      obtain rfl := same_id task hm t ht hid.symm
      refine ⟨?_, none, List.mem_cons_self⟩
      rw [push_lane, notify_lane, lane_setLane_self]
      exact completeTask_current hg'
    | taskSettled_stale t _ _ ht hg' =>
      injection hl with hid
      obtain rfl := same_id task hm t ht hid.symm
      exact absurd hg hg'
    | _ => cases hl

/-- A task of a lane that was reset under it, with an entry enqueued since. -/
def staleTask : List Label := [
  .call (.enqueueCommandInLane "main" {} false 0), .resume 0, .resume 0,
  .call (.resetCommandLane "main"), .resume 0,
  .call (.enqueueCommandInLane "main" {} false 0), .resume 0, .resume 0,
  .call (.enqueueCommandInLane "main" {} false 0), .resume 0]

theorem no_lane_stalled_staleTask : ∃ rt, machine.exec machine.start staleTask = some rt ∧
    rt.stack = [] ∧ (∃ task ∈ rt.running, task.taskGeneration ≠ (rt.lane task.lane).generation ∧
      ∀ outcome rt', machine.step rt (.taskSettled task.taskId outcome) = some rt' →
        ∀ n, rt'.lane n = rt.lane n) ∧
    (∃ task ∈ rt.running, task.taskGeneration = (rt.lane task.lane).generation ∧
      ∀ outcome rt', machine.step rt (.taskSettled task.taskId outcome) = some rt' →
        (rt'.lane task.lane).activeTaskIds =
          (rt.lane task.lane).activeTaskIds.erase task.taskId) ∧
    ∀ n, ¬ (rt.lane n).pumpable := by
  obtain ⟨rt, h⟩ := Option.isSome_iff_exists.mp
    (by decide : (machine.exec machine.start staleTask).isSome = true)
  have hrun : (machine.exec machine.start staleTask).all fun rt => decide (rt.stack = []) &&
      (rt.running.any fun task => decide (task.taskGeneration ≠ (rt.lane task.lane).generation)) &&
      rt.running.any fun task => decide (task.taskGeneration = (rt.lane task.lane).generation) := by
    decide
  simp only [h, Option.all_some, Bool.and_eq_true, decide_eq_true_eq, List.any_eq_true] at hrun
  obtain ⟨⟨hs, old, hold, hne⟩, task, hm, hg⟩ := hrun
  obtain ⟨hidle, -, hstale, hfreed⟩ := no_lane_stalled (.exec .start h)
  exact ⟨rt, h, hs, ⟨old, hold, hne, hstale old hold hne⟩,
    ⟨task, hm, hg, fun outcome rt' hstep => (hfreed task hm hg outcome rt' hstep).1⟩, hidle hs⟩

/-- How many returns a call in progress is from its end, entries apart. -/
def Frame.weight : Frame → ℕ
  | .pump _ (some _) => 3
  | .resetAllLanes names => 1 + 2 * names.length
  | _ => 1

def Runtime.remaining (rt : Runtime) : ℕ :=
  3 * rt.queue.queued.card + (rt.stack.map Frame.weight).sum

/-- A step of a call in progress, or the return of a callback. -/
def Label.returns : Label → Bool
  | .resume _ => true
  | .onWaitReturn => true
  | .progressReturn => true
  | _ => false

theorem queued_drainLane (rt : Runtime) (n : String) :
    (rt.drainLane n).queue.queued = rt.queue.queued :=
  congrArg Ledger.queued (ledger_drainLane rt n)

theorem queued_startEntry (rt : Runtime) (n : String) (entry : QueueEntry) :
    (rt.startEntry n entry).queue.queued = rt.queue.queued :=
  congrArg Ledger.queued (ledger_startEntry rt n entry)

theorem card_queued_shifted {rt : Runtime} {n : String} {entry : QueueEntry}
    {queue : List QueueEntry} (hq : (rt.lane n).queue = entry :: queue) :
    rt.queue.queued.card = (rt.shifted n).queue.queued.card + 1 := by
  have h := congrArg Multiset.card (ledger_shifted rt n hq)
  rwa [Multiset.card_cons] at h

theorem remaining_drainLane_le (rt : Runtime) (n : String) :
    (rt.drainLane n).remaining ≤ rt.remaining + 1 := by
  unfold remaining
  rw [queued_drainLane]
  obtain ⟨he, -⟩ | ⟨he, -⟩ := drainLane_cases rt n <;> rw [he]
  · omega
  · simp only [push_stack, setLane_stack, List.map_cons, List.sum_cons, Frame.weight]
    omega

theorem remaining_startEntry_le (rt : Runtime) (n : String) (entry : QueueEntry) :
    (rt.startEntry n entry).remaining ≤ rt.remaining + 1 := by
  unfold remaining
  rw [queued_startEntry]
  obtain he | he := startEntry_cases rt n entry <;> rw [he]
  · simp
  · simp only [push_stack, activate_stack, List.map_cons, List.sum_cons, Frame.weight]
    omega

theorem Frame.weight_pos (f : Frame) : 0 < f.weight := by
  unfold weight
  split <;> omega

/-- A call that ends without touching a queue. -/
theorem remaining_pop {rt rt' : Runtime} {f : Frame} (hs : rt.stack = f :: rt'.stack)
    (hq : rt'.queue.lanes = rt.queue.lanes) : rt'.remaining < rt.remaining := by
  have hf := f.weight_pos
  simp only [remaining, QueueState.queued, hq, hs, List.map_cons, List.sum_cons]
  omega

theorem remaining_lt {rt rt' : Runtime} {l : Label} (h : machine.step rt l = some rt')
    (hl : l.returns = true) : rt'.remaining < rt.remaining := by
  cases move_of_step h with
  | call => cases hl
  | pump_stop name rest now hs hf =>
    have hq := congrArg Ledger.queued (ledger_setLane rt name
      { rt.lane name with draining := false } rfl)
    change (rt.setLane name _).queue.queued = rt.queue.queued at hq
    simp only [remaining, setStack_queue, setStack_stack, hq, hs, List.map_cons, List.sum_cons,
      Frame.weight]
    omega
  | pump_wait name rest now entry queue hs hf hq =>
    have hcard := card_queued_shifted hq
    simp only [remaining, setStack_queue, setStack_stack, hs, List.map_cons, List.sum_cons,
      Frame.weight]
    omega
  | pump_start name rest now entry queue hs hf hq =>
    have hcard := card_queued_shifted hq
    refine Nat.lt_of_le_of_lt (remaining_startEntry_le _ _ _) ?_
    simp only [remaining, setStack_queue, setStack_stack, hs, List.map_cons, List.sum_cons,
      Frame.weight]
    omega
  | resetCommandLane rest now hs => exact remaining_pop hs rfl
  | resetAllLanes_drain name names rest now hs =>
    refine Nat.lt_of_le_of_lt (remaining_drainLane_le _ _) ?_
    simp only [remaining, setStack_queue, setStack_stack, hs, List.map_cons, List.sum_cons,
      Frame.weight, List.length_cons]
    omega
  | resetAllLanes_notify rest now hs => exact remaining_pop hs rfl
  | settleEntry entry outcome rest now hs => exact remaining_pop hs rfl
  | onWaitReturn name entry bound rest hs =>
    refine Nat.lt_of_le_of_lt (remaining_startEntry_le _ _ _) ?_
    simp only [remaining, setStack_queue, setStack_stack, hs, List.map_cons, List.sum_cons,
      Frame.weight]
    omega
  | progressReturn rest hs => exact remaining_pop hs rfl
  | taskSettled_current task outcome hs hm hg => cases hl
  | taskSettled_stale task outcome hs hm hg => cases hl
  | waiterTimeout id hs => cases hl

/-- A call in progress can always go on. -/
theorem exists_returns {rt : Runtime} (h : rt.stack ≠ []) :
    ∃ l rt', l.returns = true ∧ machine.step rt l = some rt' := by
  obtain ⟨f, rest, hs⟩ := List.exists_cons_of_ne_nil h
  match f with
  | .pump name none => exact ⟨.resume 0, _, rfl, by simp [machine, step, resume, hs]; rfl⟩
  | .pump name (some (entry, bound)) =>
    exact ⟨.onWaitReturn, _, rfl, by simp [machine, step, onWaitReturn, hs]; rfl⟩
  | .progress => exact ⟨.progressReturn, _, rfl, by simp [machine, step, progressReturn, hs]; rfl⟩
  | .resetCommandLane => exact ⟨.resume 0, _, rfl, by simp [machine, step, resume, hs]; rfl⟩
  | .resetAllLanes [] => exact ⟨.resume 0, _, rfl, by simp [machine, step, resume, hs]; rfl⟩
  | .resetAllLanes (name :: names) =>
    exact ⟨.resume 0, _, rfl, by simp [machine, step, resume, hs]; rfl⟩
  | .settleEntry entry outcome =>
    exact ⟨.resume 0, _, rfl, by simp [machine, step, resume, hs]; rfl⟩

/-- Every call returns if its callbacks do. -/
theorem calls_return (rt : Runtime) : ∃ ls rt', machine.exec rt ls = some rt' ∧
    rt'.stack = [] ∧ ∀ l ∈ ls, l.returns = true := by
  induction hr : rt.remaining using Nat.strong_induction_on generalizing rt with
  | _ k ih =>
    by_cases h : rt.stack = []
    · exact ⟨[], rt, rfl, h, fun _ hl => nomatch hl⟩
    · obtain ⟨l, rt₁, hl, hstep⟩ := exists_returns h
      obtain ⟨ls, rt', he, hs, hls⟩ := ih rt₁.remaining (hr ▸ remaining_lt hstep hl) rt₁ rfl
      refine ⟨l :: ls, rt', ?_, hs, List.forall_mem_cons.mpr ⟨hl, hls⟩⟩
      simp only [TransitionSystem.exec, hstep, Option.bind_some, he]

end Flashclaw.CommandQueue
