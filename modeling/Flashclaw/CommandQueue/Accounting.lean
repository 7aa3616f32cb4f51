import Flashclaw.CommandQueue.Step
import Flashclaw.Lib.Lists
import Mathlib.Algebra.BigOperators.Group.Multiset.Basic
import Mathlib.Algebra.Order.Interval.Finset.SuccPred
import Mathlib.Data.Nat.SuccPred
import Mathlib.Order.Interval.Finset.Nat
import Mathlib.Tactic.Abel

/-!
# Command lanes: every entry once

The sequence numbers given out so far, counted with multiplicity, are those in
the queues, in an `onWait` call, in flight, being settled, or settled.  Each
step moves numbers between these places and never makes or loses one.
-/

namespace Flashclaw.CommandQueue

open CommandQueue.Runtime

/-- Where the sequence numbers are.  `started` remembers every start. -/
@[ext] structure Ledger where
  queued : Multiset ℕ
  waiting : List ℕ
  inFlight : List ℕ
  settling : List ℕ
  settled : List (ℕ × Settlement)
  started : List ℕ
  next : ℕ

namespace Ledger

/-- The promises settled by a completion handler, not by `clearCommandLane`. -/
def completed (a : Ledger) : List ℕ := (a.settled.filter fun s => s.2 ≠ .cleared).map Prod.fst

/-- The moves of sequence numbers between the places. -/
inductive Move (a : Ledger) : Ledger → Prop
  | keep : Move a a
  | accept : Move a { a with queued := a.next ::ₘ a.queued, next := a.next + 1 }
  | wait (i : ℕ) (q : Multiset ℕ) (h : a.queued = i ::ₘ q) :
      Move a { a with queued := q, waiting := i :: a.waiting }
  | shiftStart (i : ℕ) (q : Multiset ℕ) (h : a.queued = i ::ₘ q) :
      Move a { a with queued := q, inFlight := a.inFlight ++ [i], started := a.started ++ [i] }
  | start (i : ℕ) (w : List ℕ) (h : a.waiting = i :: w) :
      Move a { a with waiting := w, inFlight := a.inFlight ++ [i], started := a.started ++ [i] }
  | finish (i : ℕ) (f : List ℕ) (h : a.inFlight.Perm (i :: f)) :
      Move a { a with inFlight := f, settling := i :: a.settling }
  | settle (i : ℕ) (s : List ℕ) (outcome : Outcome) (h : a.settling = i :: s) :
      Move a { a with settling := s, settled := a.settled ++ [(i, outcome.settlement)] }
  | clear (is : List ℕ) (q : Multiset ℕ) (h : a.queued = is + q) :
      Move a { a with queued := q, settled := a.settled ++ is.map fun i => (i, .cleared) }

/-- Every number handed out is in exactly one place, and the started ones are those that have
left the queue other than by being cleared. -/
structure Balanced (a : Ledger) : Prop where
  pos : 1 ≤ a.next
  places : a.queued + a.waiting + a.inFlight + a.settling + (a.settled.map Prod.fst : List ℕ) =
    (Finset.Ico 1 a.next).val
  starts : (a.started : Multiset ℕ) = a.inFlight + a.settling + a.completed

theorem Move.of_eq {a b c : Ledger} (h : c = b) (hm : Move a b) : Move a c := h ▸ hm

theorem completed_append_outcome (a : Ledger) (i : ℕ) (outcome : Outcome) :
    completed { a with settled := a.settled ++ [(i, outcome.settlement)] } = a.completed ++ [i] := by
  cases outcome <;> simp [completed, Outcome.settlement]

theorem completed_append_cleared (a : Ledger) (is : List ℕ) :
    completed { a with settled := a.settled ++ is.map fun i => (i, .cleared) } = a.completed := by
  have h : (is.map fun i => (i, Settlement.cleared)).filter (fun s => s.2 ≠ .cleared) = [] := by
    simp
  simp only [completed, List.filter_append, h, List.append_nil]

theorem Move.next_le {a b : Ledger} (h : Move a b) : a.next ≤ b.next := by
  cases h <;> simp

/-- A list as a sum of its parts, so that moves between places are shifts of summands. -/
theorem coe_cons_eq (i : ℕ) (l : List ℕ) : ((i :: l : List ℕ) : Multiset ℕ) = {i} + l := by
  rw [← Multiset.cons_coe, Multiset.singleton_add]

theorem coe_append_singleton (i : ℕ) (l : List ℕ) :
    ((l ++ [i] : List ℕ) : Multiset ℕ) = l + {i} := by
  rw [← Multiset.coe_add, Multiset.coe_singleton]

theorem Ico_succ_val {n : ℕ} (h : 1 ≤ n) :
    (Finset.Ico 1 (n + 1)).val = {n} + (Finset.Ico 1 n).val := by
  rw [← Finset.insert_Ico_right_eq_Ico_add_one h,
    Finset.insert_val_of_notMem Finset.right_notMem_Ico, Multiset.singleton_add]

theorem Balanced.move {a b : Ledger} (h : a.Balanced) (hm : Move a b) : b.Balanced := by
  obtain ⟨pos, places, starts⟩ := h
  cases hm with
  | keep => exact ⟨pos, places, starts⟩
  | accept =>
    refine ⟨Nat.le_succ_of_le pos, ?_, starts⟩
    rw [Ico_succ_val pos, ← places, ← Multiset.singleton_add]
    simp only [add_assoc]
  | wait i q hq =>
    refine ⟨pos, ?_, starts⟩
    rw [← places, hq, coe_cons_eq, ← Multiset.singleton_add]
    abel
  | shiftStart i q hq =>
    refine ⟨pos, ?_, ?_⟩
    · rw [← places, hq, coe_append_singleton, ← Multiset.singleton_add]
      abel
    · rw [coe_append_singleton, coe_append_singleton, starts]
      change _ = _ + (a.completed : Multiset ℕ)
      abel
  | start i w hw =>
    refine ⟨pos, ?_, ?_⟩
    · rw [← places, hw, coe_append_singleton, coe_cons_eq]
      abel
    · rw [coe_append_singleton, coe_append_singleton, starts]
      change _ = _ + (a.completed : Multiset ℕ)
      abel
  | finish i f hf =>
    have hflight : (a.inFlight : Multiset ℕ) = {i} + f := by
      rw [← coe_cons_eq]
      exact Multiset.coe_eq_coe.mpr hf
    refine ⟨pos, ?_, ?_⟩
    · rw [← places, hflight, coe_cons_eq]
      abel
    · rw [coe_cons_eq, starts, hflight]
      change _ = _ + (a.completed : Multiset ℕ)
      abel
  | settle i s outcome hs =>
    refine ⟨pos, ?_, ?_⟩
    · rw [← places, hs, List.map_append, List.map_singleton, coe_append_singleton, coe_cons_eq]
      abel
    · rw [starts, hs, coe_cons_eq]
      change _ = _ + _ + ((completed { a with
        settled := a.settled ++ [(i, outcome.settlement)] } : List ℕ) : Multiset ℕ)
      rw [completed_append_outcome, coe_append_singleton]
      abel
  | clear is q hq =>
    refine ⟨pos, ?_, ?_⟩
    · rw [← places, hq, List.map_append, ← Multiset.coe_add, List.map_map]
      simp only [Function.comp_def, List.map_id']
      abel
    · rw [starts]
      change _ = _ + _ + ((completed { a with
        settled := a.settled ++ is.map fun i => (i, .cleared) } : List ℕ) : Multiset ℕ)
      rw [completed_append_cleared]

end Ledger

/-- The sequence numbers in a lane's queue. -/
def LaneState.queued (state : LaneState) : Multiset ℕ :=
  (state.queue.map (·.sequence) : List ℕ)

/-- The sequence numbers in the queues of all lanes. -/
def QueueState.queued (q : QueueState) : Multiset ℕ := (q.lanes.values.map LaneState.queued).sum

theorem queued_setLaneState (q : QueueState) (n : String) (state : LaneState) :
    (q.setLaneState n state).queued + (q.getLaneState n).queued = q.queued + state.queued := by
  have hold : ((q.lanes.get? n).map LaneState.queued).getD 0 = (q.getLaneState n).queued := by
    unfold QueueState.getLaneState
    cases q.lanes.get? n <;> rfl
  rw [← hold]
  exact q.lanes.sum_values_set LaneState.queued n state

/-- An enqueue adds the entry at the place `goesBefore` gives it. -/
theorem enqueueLaneEntry_queue (state : LaneState) (entry : QueueEntry) :
    ∃ placed : QueueEntry, placed.sequence = entry.sequence ∧ placed.priority = entry.priority ∧
      (enqueueLaneEntry state entry).queue =
        Lists.insertAtFirst entry.goesBefore placed state.queue := by
  refine ⟨{ entry with
    queuedAheadAtEnqueue := (state.queue.findIdx? entry.goesBefore).getD state.queue.length
    activeAheadAtEnqueue := state.activeTaskIds.card }, rfl, rfl, ?_⟩
  unfold enqueueLaneEntry Lists.insertAtFirst
  cases state.queue.findIdx? entry.goesBefore <;> rfl

theorem enqueueLaneEntry_queued (state : LaneState) (entry : QueueEntry) :
    (enqueueLaneEntry state entry).queued = entry.sequence ::ₘ state.queued := by
  obtain ⟨placed, hs, -, hq⟩ := enqueueLaneEntry_queue state entry
  rw [LaneState.queued, hq, ← hs, LaneState.queued, Multiset.cons_coe, Multiset.coe_eq_coe]
  exact (Lists.insertAtFirst_perm _ _ _).map _

@[simp] theorem completeTask_queue (state : LaneState) (taskId taskGeneration : ℕ) :
    (completeTask state taskId taskGeneration).queue = state.queue := by
  unfold completeTask
  split_ifs <;> rfl

/-- The entries shifted off a queue whose `onWait` is on the stack, topmost first. -/
def waitingEntries : List Frame → List QueueEntry
  | [] => []
  | .pump _ (some (entry, _)) :: rest => entry :: waitingEntries rest
  | _ :: rest => waitingEntries rest

/-- The entries whose completion handler has not settled the promise yet. -/
def settlingEntries : List Frame → List QueueEntry
  | [] => []
  | .settleEntry entry _ :: rest => entry :: settlingEntries rest
  | _ :: rest => settlingEntries rest

namespace Runtime

/-- The accounts of a runtime state. -/
def ledger (rt : Runtime) : Ledger where
  queued := rt.queue.queued
  waiting := (waitingEntries rt.stack).map (·.sequence)
  inFlight := rt.running.map (·.entry.sequence)
  settling := (settlingEntries rt.stack).map (·.sequence)
  settled := rt.settled
  started := rt.started
  next := rt.queue.nextQueueSequence

variable (rt : Runtime) (n : String)

theorem queued_setLane (state : LaneState) :
    (rt.setLane n state).queue.queued + (rt.lane n).queued = rt.queue.queued + state.queued :=
  queued_setLaneState rt.queue n state

theorem ledger_setLane (state : LaneState) (h : state.queued = (rt.lane n).queued) :
    (rt.setLane n state).ledger = rt.ledger := by
  have hq : (rt.setLane n state).queue.queued = rt.queue.queued := by
    have := rt.queued_setLane n state
    rw [h] at this
    exact add_right_cancel this
  exact Ledger.ext hq rfl rfl rfl rfl rfl rfl

theorem ledger_drainLane : (rt.drainLane n).ledger = rt.ledger := by
  obtain ⟨he, -⟩ | ⟨he, -⟩ := drainLane_cases rt n <;> rw [he]
  exact ledger_setLane rt n _ rfl

@[simp] theorem ledger_notify : rt.notifyActiveTaskWaiters.ledger = rt.ledger := rfl

theorem ledger_activate (entry : QueueEntry) : (rt.activate n entry).ledger =
    { rt.ledger with
      inFlight := rt.ledger.inFlight ++ [entry.sequence]
      started := rt.ledger.started ++ [entry.sequence] } := by
  refine (ledger_setLane _ n _ ?_).trans ?_
  · rfl
  · simp [ledger]
    rfl

theorem ledger_startEntry (entry : QueueEntry) : (rt.startEntry n entry).ledger =
    { rt.ledger with
      inFlight := rt.ledger.inFlight ++ [entry.sequence]
      started := rt.ledger.started ++ [entry.sequence] } := by
  rw [← ledger_activate]
  obtain he | he := startEntry_cases rt n entry <;> rw [he]
  rfl

theorem ledger_shifted {entry : QueueEntry} {queue : List QueueEntry}
    (hq : (rt.lane n).queue = entry :: queue) :
    rt.ledger.queued = entry.sequence ::ₘ (rt.shifted n).ledger.queued := by
  have h := rt.queued_setLane n { rt.lane n with queue := (rt.lane n).queue.tail }
  have hhead : (rt.lane n).queued = entry.sequence ::ₘ
      LaneState.queued { rt.lane n with queue := (rt.lane n).queue.tail } := by
    simp [LaneState.queued, hq]
  rw [hhead, Multiset.add_cons, ← Multiset.cons_add] at h
  exact (add_right_cancel h).symm

theorem ledger_setStack {fs : List Frame} (hw : waitingEntries fs = waitingEntries rt.stack)
    (hs : settlingEntries fs = settlingEntries rt.stack) :
    (rt.setStack fs).ledger = rt.ledger := by
  simp only [ledger, setStack_stack, hw, hs]
  rfl

theorem ledger_enqueue (lane : String) (opts : EnqueueOptions) (closed : Bool) (now : ℤ) :
    Ledger.Move rt.ledger (rt.enqueueCommandInLane lane opts closed now).ledger := by
  unfold enqueueCommandInLane
  split_ifs
  · exact .keep
  · simp only [ledger_drainLane]
    have h := rt.bumpSequence.queued_setLane (normalizeLane lane)
      (enqueueLaneEntry (rt.lane (normalizeLane lane))
        (.created rt.queue.nextQueueSequence opts now))
    rw [enqueueLaneEntry_queued, Multiset.add_cons, ← Multiset.cons_add] at h
    refine .of_eq ?_ .accept
    exact Ledger.ext (add_right_cancel h) rfl rfl rfl rfl rfl rfl

theorem ledger_clear (lane : String) :
    Ledger.Move rt.ledger (rt.clearCommandLane lane).ledger := by
  unfold clearCommandLane
  split
  · exact .keep
  · rename_i state hg
    obtain rfl : rt.lane (normalizeLane lane) = state := QueueState.getLaneState_of_get? hg
    have hempty : ({ rt.lane (normalizeLane lane) with queue := [] } : LaneState).queued = 0 := rfl
    have h := rt.queued_setLane (normalizeLane lane)
      { rt.lane (normalizeLane lane) with queue := [] }
    rw [hempty, add_zero, add_comm] at h
    refine .of_eq ?_ (.clear ((rt.lane (normalizeLane lane)).queue.map QueueEntry.sequence) _ h.symm)
    refine Ledger.ext rfl rfl rfl rfl ?_ rfl rfl
    rw [List.map_map]
    rfl

theorem queued_resetAllLanes : rt.resetAllLanes.queue.queued = rt.queue.queued := by
  simp only [QueueState.queued, resetAllLanes, push_queue, JsMap.values, JsMap.mapValues,
    List.map_map]
  rfl

theorem ledger_call (c : Call) : Ledger.Move rt.ledger (rt.perform c).ledger := by
  cases c with
  | enqueueCommandInLane lane opts closed now => exact rt.ledger_enqueue lane opts closed now
  | setCommandLaneConcurrency lane k =>
    have hset : (rt.setLane (normalizeLane lane) { rt.lane (normalizeLane lane) with
        maxConcurrent := resolveMaxConcurrent (normalizeLane lane) k }).ledger = rt.ledger :=
      ledger_setLane rt _ _ rfl
    simp only [perform, setCommandLaneConcurrency]
    split_ifs
    · rw [ledger_drainLane, hset]
      exact .keep
    · rw [hset]
      exact .keep
  | clearCommandLane lane => exact rt.ledger_clear lane
  | resetCommandLane lane =>
    simp only [perform, resetCommandLane]
    split
    · exact .keep
    · rename_i state hg
      obtain rfl : rt.lane (normalizeLane lane) = state := QueueState.getLaneState_of_get? hg
      have hidle : ((rt.setLane (normalizeLane lane) (rt.lane (normalizeLane lane)).reset).push
          .resetCommandLane).ledger = rt.ledger :=
        ledger_setLane rt (normalizeLane lane) (rt.lane (normalizeLane lane)).reset rfl
      split_ifs
      · rw [ledger_drainLane, hidle]
        exact .keep
      · rw [hidle]
        exact .keep
  | resetAllLanes =>
    refine .of_eq ?_ .keep
    exact Ledger.ext rt.queued_resetAllLanes rfl rfl rfl rfl rfl rfl
  | waitForActiveTasks timeoutMs =>
    refine .of_eq ?_ .keep
    simp only [perform, waitForActiveTasks]
    split_ifs <;> rfl

theorem ledger_move {rt rt' : Runtime} {l : Label} (h : Move rt l rt') :
    Ledger.Move rt.ledger rt'.ledger := by
  cases h with
  | call c => exact ledger_call rt c
  | pump_stop name rest now hs =>
    rw [ledger_setStack _ (by simp [hs, waitingEntries]) (by simp [hs, settlingEntries])]
    exact .of_eq (ledger_setLane rt name _ rfl) .keep
  -- Between the shift and `onWait`'s return the entry is in no queue: the stack alone has it.
  | pump_wait name rest now entry queue hs hf hq =>
    refine .of_eq ?_ (.wait entry.sequence _ (ledger_shifted rt name hq))
    refine Ledger.ext rfl ?_ rfl ?_ rfl rfl rfl
    · simp [ledger, hs, waitingEntries]
    · simp [ledger, hs, settlingEntries]
  | pump_start name rest now entry queue hs hf hq =>
    rw [ledger_startEntry,
      ledger_setStack _ (by simp [hs, waitingEntries]) (by simp [hs, settlingEntries])]
    exact .shiftStart entry.sequence _ (ledger_shifted rt name hq)
  | resetCommandLane rest now hs =>
    rw [ledger_notify, ledger_setStack _ (by simp [hs, waitingEntries])
      (by simp [hs, settlingEntries])]
    exact .keep
  | resetAllLanes_drain name names rest now hs =>
    rw [ledger_drainLane, ledger_setStack _ (by simp [hs, waitingEntries])
      (by simp [hs, settlingEntries])]
    exact .keep
  | resetAllLanes_notify rest now hs =>
    rw [ledger_notify, ledger_setStack _ (by simp [hs, waitingEntries])
      (by simp [hs, settlingEntries])]
    exact .keep
  | settleEntry entry outcome rest now hs =>
    have hsettling : rt.ledger.settling =
        entry.sequence :: (settlingEntries rest).map (·.sequence) := by
      simp [ledger, hs, settlingEntries]
    refine .of_eq ?_ (.settle entry.sequence _ outcome hsettling)
    refine Ledger.ext rfl ?_ rfl rfl rfl rfl rfl
    simp [ledger, hs, waitingEntries]
  | onWaitReturn name entry bound rest hs =>
    have hwaiting : rt.ledger.waiting =
        entry.sequence :: (waitingEntries rest).map (·.sequence) := by
      simp [ledger, hs, waitingEntries]
    rw [ledger_startEntry]
    refine .of_eq ?_ (.start entry.sequence _ hwaiting)
    refine Ledger.ext rfl rfl rfl ?_ rfl rfl rfl
    simp [ledger, hs, settlingEntries]
  | progressReturn rest hs =>
    rw [ledger_setStack _ (by simp [hs, waitingEntries]) (by simp [hs, settlingEntries])]
    exact .keep
  | taskSettled_current task outcome hs hm hg =>
    refine .of_eq ?_ (.finish task.entry.sequence _ ((List.perm_cons_erase hm).map _))
    have hset := ledger_setLane ({ rt with running := rt.running.erase task }.push
      (.settleEntry task.entry outcome)) task.lane
      (completeTask (rt.lane task.lane) task.taskId task.taskGeneration)
      (by simp [LaneState.queued]; rfl)
    exact hset
  -- A stale generation leaves its lane alone, yet the entry is still settled.
  | taskSettled_stale task outcome hs hm hg =>
    exact .finish task.entry.sequence _ ((List.perm_cons_erase hm).map _)
  | waiterTimeout id hs => exact .keep

end Runtime

end Flashclaw.CommandQueue
