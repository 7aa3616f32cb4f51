import Flashclaw.CommandQueue.Step

/-!
# Command lanes: the concurrency limit

A slot of a lane is taken in two moves: `pump` shifts an entry off the queue,
and only after its `onWait` returns does the task become active.  An entry in
between is *promised* a slot that no count shows.  The limit holds along every
run that never gives a promised slot away.
-/

namespace Flashclaw.CommandQueue

open CommandQueue.Runtime

/-- The entries of a lane that are shifted off its queue and still in `onWait`. -/
def promised (name : String) : List Frame → ℕ
  | [] => 0
  | .pump n (some _) :: rest => (if n = name then 1 else 0) + promised name rest
  | _ :: rest => promised name rest

@[simp] theorem promised_pump_none (name n : String) (rest : List Frame) :
    promised name (.pump n none :: rest) = promised name rest := rfl

@[simp] theorem promised_resetCommandLane (name : String) (rest : List Frame) :
    promised name (.resetCommandLane :: rest) = promised name rest := rfl

@[simp] theorem promised_resetAllLanes (name : String) (ls : List String) (rest : List Frame) :
    promised name (.resetAllLanes ls :: rest) = promised name rest := rfl

@[simp] theorem promised_progress (name : String) (rest : List Frame) :
    promised name (.progress :: rest) = promised name rest := rfl

@[simp] theorem promised_settleEntry (name : String) (e : QueueEntry) (s : Outcome)
    (rest : List Frame) : promised name (.settleEntry e s :: rest) = promised name rest := rfl

@[simp] theorem promised_drainLane (rt : Runtime) (name n : String) :
    promised name (rt.drainLane n).stack = promised name rt.stack := by
  obtain ⟨he, -⟩ | ⟨he, -⟩ := drainLane_cases rt n <;> rw [he]
  simp

@[simp] theorem promised_startEntry (rt : Runtime) (name n : String) (entry : QueueEntry) :
    promised name (rt.startEntry n entry).stack = promised name rt.stack := by
  obtain he | he := startEntry_cases rt n entry <;> rw [he] <;> rfl

theorem promised_tail_startEntry (rt : Runtime) (m : String) (rest : List Frame)
    (name n : String) (entry : QueueEntry) :
    promised n ((rt.setStack (.pump m none :: rest)).startEntry name entry).stack.tail =
      promised n rest := by
  obtain he | he := startEntry_cases (rt.setStack (.pump m none :: rest)) name entry <;> simp [he]

/-- What a step does to the slots of one lane. -/
inductive SlotMove (rt : Runtime) (l : Label) (rt' : Runtime) (n : String) : Prop
  /-- Slots are freed or left alone. -/
  | keep (ha : (rt'.lane n).activeTaskIds ⊆ (rt.lane n).activeTaskIds)
      (hm : (rt'.lane n).maxConcurrent = (rt.lane n).maxConcurrent)
      (hp : promised n rt'.stack = promised n rt.stack)
  | limit (lane : String) (k : JsNumber) (hl : l = .call (.setCommandLaneConcurrency lane k))
      (hn : normalizeLane lane = n)
      (ha : (rt'.lane n).activeTaskIds = (rt.lane n).activeTaskIds)
      (hm : (rt'.lane n).maxConcurrent = resolveMaxConcurrent n k)
      (hp : promised n rt'.stack = promised n rt.stack)
  /-- An entry is shifted off and its `onWait` called. -/
  | promise (now : ℤ) (rest : List Frame) (hl : l = .resume now)
      (hs : rt.stack = .pump n none :: rest) (hf : (rt.lane n).pumpable)
      (ha : (rt'.lane n).activeTaskIds = (rt.lane n).activeTaskIds)
      (hm : (rt'.lane n).maxConcurrent = (rt.lane n).maxConcurrent)
      (hp : promised n rt'.stack = promised n rt.stack + 1)
  /-- An entry is shifted off and started at once. -/
  | take (now : ℤ) (rest : List Frame) (hl : l = .resume now)
      (hs : rt.stack = .pump n none :: rest) (hf : (rt.lane n).pumpable)
      (ha : (rt'.lane n).activeTaskIds = insert rt.queue.nextTaskId (rt.lane n).activeTaskIds)
      (hm : (rt'.lane n).maxConcurrent = (rt.lane n).maxConcurrent)
      (hp : promised n rt'.stack = promised n rt.stack)
  /-- A promised entry is started. -/
  | redeem (ha : (rt'.lane n).activeTaskIds =
        insert rt.queue.nextTaskId (rt.lane n).activeTaskIds)
      (hm : (rt'.lane n).maxConcurrent = (rt.lane n).maxConcurrent)
      (hp : promised n rt.stack = promised n rt'.stack + 1)

/-- An update of one lane that frees slots or leaves them alone keeps the others. -/
theorem SlotMove.keep_setLane {rt : Runtime} {l : Label} {rt' : Runtime} (m : String)
    (state : LaneState) (n : String) (hl : rt'.lane n = (rt.setLane m state).lane n)
    (ha : state.activeTaskIds ⊆ (rt.lane m).activeTaskIds)
    (hm : state.maxConcurrent = (rt.lane m).maxConcurrent)
    (hp : promised n rt'.stack = promised n rt.stack) : SlotMove rt l rt' n := by
  rw [lane_setLane] at hl
  by_cases hmn : m = n
  · subst hmn
    rw [if_pos rfl] at hl
    exact .keep (by rwa [hl]) (by rwa [hl]) hp
  · rw [if_neg hmn] at hl
    exact .keep (by rw [hl]) (by rw [hl]) hp

theorem slotMove_call (rt : Runtime) (c : Call) (n : String) :
    SlotMove rt (.call c) (rt.perform c) n := by
  cases c with
  | enqueueCommandInLane lane opts closed now =>
    simp only [perform, enqueueCommandInLane]
    split_ifs
    · exact .keep subset_rfl rfl rfl
    · refine .keep ?_ ?_ (by simp)
      · rw [drainLane_activeTaskIds, lane_setLane_field _ _ _ (·.activeTaskIds)] <;> simp
      · rw [drainLane_maxConcurrent, lane_setLane_field _ _ _ (·.maxConcurrent)] <;> simp
  | setCommandLaneConcurrency lane k =>
    simp only [perform, setCommandLaneConcurrency]
    by_cases hn : normalizeLane lane = n
    · subst hn
      refine .limit lane k rfl rfl ?_ ?_ ?_ <;> split_ifs <;> simp
    · refine .keep ?_ ?_ ?_ <;> split_ifs <;> simp [lane_setLane_ne _ hn]
  | clearCommandLane lane =>
    simp only [perform, clearCommandLane]
    split
    · exact .keep subset_rfl rfl rfl
    · rename_i state hg
      have hl : rt.lane (normalizeLane lane) = state := QueueState.getLaneState_of_get? hg
      subst hl
      exact .keep_setLane (normalizeLane lane) { rt.lane (normalizeLane lane) with queue := [] } n
        rfl subset_rfl rfl rfl
  | resetCommandLane lane =>
    simp only [perform, resetCommandLane]
    split
    · exact .keep subset_rfl rfl rfl
    · rename_i state hg
      have hl : rt.lane (normalizeLane lane) = state := QueueState.getLaneState_of_get? hg
      subst hl
      refine .keep ?_ ?_ ?_
      · split_ifs <;> simp only [drainLane_activeTaskIds, push_lane, lane_setLane] <;>
          split_ifs <;> simp [LaneState.reset]
      · have hm : ∀ m, ((rt.setLane (normalizeLane lane) (rt.lane (normalizeLane lane)).reset).lane
            m).maxConcurrent = (rt.lane m).maxConcurrent := fun m =>
          lane_setLane_field _ _ _ (·.maxConcurrent) rfl
        split_ifs <;> simp [hm]
      · split_ifs <;> simp
  | resetAllLanes =>
    refine .keep ?_ ?_ rfl
    · obtain h | ⟨h, -⟩ := resetAllLanes_lane rt n <;> rw [perform, h]
      exact Finset.empty_subset _
    · obtain h | ⟨h, -⟩ := resetAllLanes_lane rt n <;> rw [perform, h]
      rfl
  | waitForActiveTasks timeoutMs =>
    exact .keep (by rw [perform, waitForActiveTasks_lane]) (by rw [perform, waitForActiveTasks_lane])
      (by simp [perform])

theorem slotMove_of_move {rt rt' : Runtime} {l : Label} (h : Move rt l rt') (n : String) :
    SlotMove rt l rt' n := by
  cases h with
  | call c => exact slotMove_call rt c n
  | pump_stop name rest now hs hf =>
    exact .keep_setLane name { rt.lane name with draining := false } n rfl subset_rfl rfl
      (by simp [hs])
  | pump_wait name rest now entry queue hs hf hq =>
    by_cases hn : name = n
    · subst hn
      exact .promise now rest rfl hs ⟨hf, by simp [hq]⟩ (by simp [shifted_lane])
        (by simp [shifted_lane]) (by simp [hs, promised, Nat.add_comm])
    · exact .keep (by simp [shifted_lane, hn]) (by simp [shifted_lane, hn])
        (by simp [hs, promised, hn])
  | pump_start name rest now entry queue hs hf hq =>
    by_cases hn : name = n
    · subst hn
      exact .take now rest rfl hs ⟨hf, by simp [hq]⟩ (by simp [startEntry_lane, shifted_lane])
        (by simp [startEntry_lane, shifted_lane]) (by simp [hs])
    · exact .keep (by simp [startEntry_lane, shifted_lane, hn])
        (by simp [startEntry_lane, shifted_lane, hn]) (by simp [hs])
  | resetCommandLane rest now hs => exact .keep (by simp) (by simp) (by simp [hs])
  | resetAllLanes_drain name names rest now hs => exact .keep (by simp) (by simp) (by simp [hs])
  | resetAllLanes_notify rest now hs => exact .keep (by simp) (by simp) (by simp [hs])
  | settleEntry entry settlement rest now hs => exact .keep subset_rfl rfl (by simp [hs])
  | onWaitReturn name entry bound rest hs =>
    by_cases hn : name = n
    · subst hn
      exact .redeem (by simp [startEntry_lane]) (by simp [startEntry_lane])
        (by simp [hs, promised, Nat.add_comm])
    · exact .keep (by simp [startEntry_lane, hn]) (by simp [startEntry_lane, hn])
        (by simp [hs, promised, hn])
  | progressReturn rest hs => exact .keep subset_rfl rfl (by simp [hs])
  | taskSettled_current task outcome hs hm hg =>
    exact .keep_setLane task.lane _ n rfl (completeTask_activeTaskIds_subset _ _ _) (by simp)
      (by simp [hs])
  | taskSettled_stale task outcome hs hm hg => exact .keep subset_rfl rfl (by simp [hs])
  | waiterTimeout id hs => exact .keep subset_rfl rfl rfl

/-- A step that gives no promised slot away.  While entries of a lane are in `onWait`, nothing
more is shifted off its queue than the slots left over, and its limit is not set below what is
taken and promised. -/
def orderly (rt : Runtime) (l : Label) : Bool :=
  match l, rt.stack with
  | .resume _, .pump name none :: rest => !decide (rt.lane name).pumpable ||
      promised name rest == 0 ||
      decide (JsNumber.ofNat ((rt.lane name).activeTaskIds.card + promised name rest) <
        (rt.lane name).maxConcurrent)
  | .call (.setCommandLaneConcurrency lane k), stack => promised (normalizeLane lane) stack == 0 ||
      decide (JsNumber.ofNat ((rt.lane (normalizeLane lane)).activeTaskIds.card +
        promised (normalizeLane lane) stack) ≤ resolveMaxConcurrent (normalizeLane lane) k)
  | _, _ => true

def Orderly (rt : Runtime) (l : Label) : Prop := orderly rt l = true

theorem Orderly.pump {rt : Runtime} {now : ℤ} {name : String} {rest : List Frame}
    (ok : Orderly rt (.resume now)) (hs : rt.stack = .pump name none :: rest)
    (hf : (rt.lane name).pumpable) (hp : promised name rest ≠ 0) :
    JsNumber.ofNat ((rt.lane name).activeTaskIds.card + promised name rest) <
      (rt.lane name).maxConcurrent := by
  simpa [Orderly, orderly, hs, hf, hp] using ok

theorem Orderly.limit {rt : Runtime} {lane : String} {k : JsNumber}
    (ok : Orderly rt (.call (.setCommandLaneConcurrency lane k)))
    (hp : promised (normalizeLane lane) rt.stack ≠ 0) :
    JsNumber.ofNat ((rt.lane (normalizeLane lane)).activeTaskIds.card +
      promised (normalizeLane lane) rt.stack) ≤ resolveMaxConcurrent (normalizeLane lane) k := by
  simpa [Orderly, orderly, hp] using ok

structure SlotInvariant (rt : Runtime) : Prop where
  whole : ∀ n, (rt.lane n).maxConcurrent.IsInteger
  kept : ∀ n, promised n rt.stack ≠ 0 →
    JsNumber.ofNat ((rt.lane n).activeTaskIds.card + promised n rt.stack) ≤
      (rt.lane n).maxConcurrent

theorem slotInvariant_initial : SlotInvariant .initial where
  whole _ := JsNumber.isInteger_ofNat 1
  kept _ h := absurd rfl h

theorem resolveMaxConcurrent_isInteger (lane : String) (k : JsNumber) :
    (resolveMaxConcurrent lane k).IsInteger :=
  JsNumber.isInteger_max (JsNumber.isInteger_ofNat _) (JsNumber.isInteger_floor k)

theorem slotInvariant_step {rt rt' : Runtime} {l : Label} (inv : SlotInvariant rt)
    (ok : Orderly rt l) (h : machine.step rt l = some rt') : SlotInvariant rt' := by
  have hmove := slotMove_of_move (move_of_step h)
  constructor
  · intro n
    cases hmove n with
    | keep _ hm _ => rw [hm]; exact inv.whole n
    | limit _ k _ _ _ hm _ => rw [hm]; exact resolveMaxConcurrent_isInteger n k
    | promise _ _ _ _ _ _ hm _ => rw [hm]; exact inv.whole n
    | take _ _ _ _ _ _ hm _ => rw [hm]; exact inv.whole n
    | redeem _ hm _ => rw [hm]; exact inv.whole n
  · intro n hn
    cases hmove n with
    | keep ha hm hp =>
      rw [hp] at hn ⊢
      rw [hm]
      exact JsNumber.ofNat_le_of_le (Nat.add_le_add_right (Finset.card_le_card ha) _)
        (inv.kept n hn)
    | limit lane k hl hln ha hm hp =>
      subst hl hln
      rw [hp] at hn ⊢
      rw [ha, hm]
      exact ok.limit hn
    | promise now rest hl hs hf ha hm hp =>
      subst hl
      rw [hs, promised_pump_none] at hp
      rw [ha, hm, hp, ← Nat.add_assoc]
      refine JsNumber.succ_le_of_lt (inv.whole n) ?_
      by_cases h0 : promised n rest = 0
      · rw [h0]; exact hf.1
      · exact ok.pump hs hf h0
    | take now rest hl hs hf ha hm hp =>
      subst hl
      rw [hs, promised_pump_none] at hp
      rw [hp] at hn ⊢
      rw [ha, hm]
      refine JsNumber.ofNat_le_of_le ?_
        (JsNumber.succ_le_of_lt (inv.whole n) (ok.pump hs hf hn))
      have := Finset.card_insert_le rt.queue.nextTaskId (rt.lane n).activeTaskIds
      omega
    | redeem ha hm hp =>
      rw [ha, hm]
      refine JsNumber.ofNat_le_of_le ?_ (inv.kept n (by omega))
      have := Finset.card_insert_le rt.queue.nextTaskId (rt.lane n).activeTaskIds
      omega

theorem slotInvariant_run {ls : List Label} {rt : Runtime} (run : machine.Run Orderly ls rt) :
    SlotInvariant rt :=
  run.invariant slotInvariant_initial fun _ _ _ => slotInvariant_step

theorem hasFreeSlot_of_added {rt rt' : Runtime} {l : Label} (inv : SlotInvariant rt)
    (h : machine.step rt l = some rt') {n : String} {taskId : ℕ}
    (hnew : taskId ∈ (rt'.lane n).activeTaskIds) (hold : taskId ∉ (rt.lane n).activeTaskIds) :
    (rt.lane n).hasFreeSlot := by
  cases slotMove_of_move (move_of_step h) n with
  | keep ha _ _ => exact absurd (ha hnew) hold
  | limit _ _ _ _ ha _ _ => exact absurd (ha ▸ hnew) hold
  | promise _ _ _ _ _ ha _ _ => exact absurd (ha ▸ hnew) hold
  | take _ _ _ _ hf _ _ _ => exact hf.1
  | redeem _ _ hp =>
    exact JsNumber.ofNat_lt_of_lt_of_le (by omega) (inv.kept n (by omega))

/-- Where a lane is over its limit, the limit in force was set while all the tasks still
active were already active. -/
def LoweredWhileActive (ls : List Label) (rt : Runtime) (n : String) : Prop :=
  ∃ pre lane k post rt₀, ls = pre ++ .call (.setCommandLaneConcurrency lane k) :: post ∧
    normalizeLane lane = n ∧ machine.Run Orderly pre rt₀ ∧
    (rt.lane n).activeTaskIds ⊆ (rt₀.lane n).activeTaskIds ∧
    (rt.lane n).maxConcurrent = resolveMaxConcurrent n k

theorem LoweredWhileActive.extend {ls : List Label} {rt rt' : Runtime} {n : String} (l : Label)
    (h : LoweredWhileActive ls rt n)
    (ha : (rt'.lane n).activeTaskIds ⊆ (rt.lane n).activeTaskIds)
    (hm : (rt'.lane n).maxConcurrent = (rt.lane n).maxConcurrent) :
    LoweredWhileActive (ls ++ [l]) rt' n := by
  obtain ⟨pre, lane, k, post, rt₀, rfl, hn, run, hsub, hmax⟩ := h
  exact ⟨pre, lane, k, post ++ [l], rt₀, by simp, hn, run, ha.trans hsub, hm.trans hmax⟩

theorem loweredWhileActive_of_exceeds {ls : List Label} {rt : Runtime}
    (run : machine.Run Orderly ls rt) (n : String)
    (hex : (rt.lane n).maxConcurrent < .ofNat (rt.lane n).activeTaskIds.card) :
    LoweredWhileActive ls rt n := by
  induction run with
  | start =>
    have h0 : JsNumber.ofNat 0 ≤ (Runtime.initial.lane n).maxConcurrent :=
      JsNumber.ofNat_le_ofNat.mpr (Nat.zero_le 1)
    exact absurd hex (JsNumber.not_lt_ofNat_of_le h0)
  | @step ls s l s' run ok hs ih =>
    have inv := slotInvariant_run run
    have hadd (hfree : (s.lane n).hasFreeSlot)
        (ha : (s'.lane n).activeTaskIds = insert s.queue.nextTaskId (s.lane n).activeTaskIds)
        (hm : (s'.lane n).maxConcurrent = (s.lane n).maxConcurrent) : False := by
      rw [ha, hm] at hex
      exact JsNumber.not_lt_ofNat_of_le (JsNumber.ofNat_le_of_le (Finset.card_insert_le _ _)
        (JsNumber.succ_le_of_lt (inv.whole n) hfree)) hex
    cases slotMove_of_move (move_of_step hs) n with
    | keep ha hm _ =>
      rw [hm] at hex
      exact (ih (JsNumber.lt_ofNat_of_lt_of_le hex (Finset.card_le_card ha))).extend l ha hm
    | limit lane k hl hn ha hm _ =>
      subst hl
      exact ⟨ls, lane, k, [], s, rfl, hn, run, by rw [ha], hm⟩
    | promise _ _ _ _ _ ha hm _ =>
      rw [ha, hm] at hex
      exact (ih hex).extend l (by rw [ha]) hm
    | take _ _ _ _ hf ha hm _ => exact (hadd hf.1 ha hm).elim
    | redeem ha hm hp =>
      exact (hadd (JsNumber.ofNat_lt_of_lt_of_le (by omega) (inv.kept n (by omega))) ha hm).elim

/-- Along a run that gives no promised slot away, a task becomes active only in a lane with
fewer active tasks than its limit, and a lane is over its limit only after the limit was set
below the tasks then active. -/
theorem concurrency_bound {ls : List Label} {rt : Runtime} (run : machine.Run Orderly ls rt) :
    (∀ l rt', machine.step rt l = some rt' → ∀ n, ∀ taskId ∈ (rt'.lane n).activeTaskIds,
      taskId ∉ (rt.lane n).activeTaskIds → (rt.lane n).hasFreeSlot) ∧
    ∀ n, (rt.lane n).maxConcurrent < .ofNat (rt.lane n).activeTaskIds.card →
      LoweredWhileActive ls rt n :=
  ⟨fun _ _ h _ _ hnew hold => hasFreeSlot_of_added (slotInvariant_run run) h hnew hold,
    fun n hex => loweredWhileActive_of_exceeds run n hex⟩

/-- The `onWait` callbacks return without calling the queue. -/
def QuietCallbacks (rt : Runtime) (l : Label) : Prop :=
  ∀ name waiting rest, rt.stack = .pump name (some waiting) :: rest → l = .onWaitReturn

theorem QuietCallbacks.promised_eq_zero {rt : Runtime} {c : Call} {n : String}
    (quiet : QuietCallbacks rt (.call c)) (hu : rt.inUserCode = true)
    (h0 : promised n rt.stack.tail = 0) : promised n rt.stack = 0 := by
  unfold inUserCode at hu
  split at hu
  · rename_i hs
    rw [hs]
    rfl
  · rename_i hs
    cases quiet _ _ _ hs
  · rename_i hs
    rwa [hs] at h0 ⊢
  · cases hu

theorem promised_tail_le (n : String) (fs : List Frame) : promised n fs.tail ≤ promised n fs := by
  cases fs with
  | nil => exact le_rfl
  | cons f rest =>
    match f with
    | .pump _ (some _) => exact Nat.le_add_left _ _
    | .pump _ none => exact le_rfl
    | .progress => exact le_rfl
    | .resetCommandLane => exact le_rfl
    | .resetAllLanes _ => exact le_rfl
    | .settleEntry _ _ => exact le_rfl

/-- Under quiet callbacks only the topmost call can hold a promise. -/
theorem promised_tail_step {rt rt' : Runtime} {l : Label} {n : String}
    (h0 : promised n rt.stack.tail = 0) (quiet : QuietCallbacks rt l)
    (h : machine.step rt l = some rt') : promised n rt'.stack.tail = 0 := by
  have hpop {rest : List Frame} (hr : promised n rest = 0) : promised n rest.tail = 0 :=
    Nat.eq_zero_of_le_zero (hr ▸ promised_tail_le n rest)
  cases move_of_step h with
  | call c hu =>
    have hs : promised n rt.stack = 0 := quiet.promised_eq_zero hu h0
    cases slotMove_call rt c n with
    | keep _ _ hp => exact hpop (hp.trans hs)
    | limit _ _ _ _ _ _ hp => exact hpop (hp.trans hs)
    | promise _ _ hl => cases hl
    | take _ _ hl => cases hl
    | redeem _ _ hp => omega
  | pump_stop name rest now hs => exact hpop (by simpa [hs] using h0)
  | pump_wait name rest now entry queue hs => simpa [hs] using h0
  | pump_start name rest now entry queue hs =>
    rw [promised_tail_startEntry]
    simpa [hs] using h0
  | resetCommandLane rest now hs => exact hpop (by simpa [hs] using h0)
  | resetAllLanes_drain name names rest now hs =>
    refine hpop ?_
    rw [promised_drainLane]
    simpa [hs] using h0
  | resetAllLanes_notify rest now hs => exact hpop (by simpa [hs] using h0)
  | settleEntry entry settlement rest now hs => exact hpop (by simpa [hs] using h0)
  | onWaitReturn name entry bound rest hs =>
    rw [promised_tail_startEntry]
    simpa [hs] using h0
  | progressReturn rest hs => exact hpop (by simpa [hs] using h0)
  | taskSettled_current task outcome hs => simp [hs, promised]
  | taskSettled_stale task outcome hs => simp [hs, promised]
  | waiterTimeout id hs => simpa [hs] using h0

/-- Runs whose callbacks leave the queue alone give no promised slot away. -/
theorem orderly_of_quietCallbacks {ls : List Label} {rt : Runtime}
    (run : machine.Run QuietCallbacks ls rt) :
    machine.Run Orderly ls rt ∧ ∀ n, promised n rt.stack.tail = 0 := by
  induction run with
  | start => exact ⟨.start, fun _ => rfl⟩
  | @step ls s l s' run quiet hs ih =>
    refine ⟨ih.1.step ?_ hs, fun n => promised_tail_step (ih.2 n) quiet hs⟩
    unfold Orderly orderly
    split
    · rename_i name rest hstack
      have h0 := ih.2 name
      rw [hstack, List.tail_cons] at h0
      simp [h0]
    · have hmove : Move s _ s' := move_of_step hs
      cases hmove with
      | call _ hu => simp [quiet.promised_eq_zero hu (ih.2 _)]
    · rfl

/-- One task runs and one waits; when the first ends, the second's `onWait` clears the lane and
raises its limit to two before enqueueing a third entry. -/
def orderlyReentry : List Label := [
  .call (.enqueueCommandInLane "main" {} false 0), .resume 0, .resume 0,
  .call (.enqueueCommandInLane "main" { warnAfterMs := some (.ofNat 0), onWait := true } false 0),
  .resume 0, .taskSettled 1 .success, .resume 1,
  .call (.clearCommandLane "main"), .call (.setCommandLaneConcurrency "main" (.ofNat 2)),
  .resume 1, .call (.enqueueCommandInLane "main" {} false 1), .resume 1, .resume 1,
  .onWaitReturn, .resume 1]

theorem concurrency_bound_orderlyReentry : ∃ rt, machine.Run Orderly orderlyReentry rt ∧
    ((∀ l rt', machine.step rt l = some rt' → ∀ n, ∀ taskId ∈ (rt'.lane n).activeTaskIds,
      taskId ∉ (rt.lane n).activeTaskIds → (rt.lane n).hasFreeSlot) ∧
    ∀ n, (rt.lane n).maxConcurrent < .ofNat (rt.lane n).activeTaskIds.card →
      LoweredWhileActive orderlyReentry rt n) := by
  obtain ⟨rt, h⟩ := Option.isSome_iff_exists.mp
    (by decide : (machine.execOk orderly machine.start orderlyReentry).isSome = true)
  exact ⟨rt, .of_execOk h, concurrency_bound (.of_execOk h)⟩

/-- A lane of one slot: the first task ends, its handler pumps the second entry, and that
entry's `onWait` enqueues a third.  `draining` is not set, so the third starts inside. -/
def reentrantEnqueue : List Label := [
  .call (.enqueueCommandInLane "main" {} false 0), .resume 0, .resume 0,
  .call (.enqueueCommandInLane "main" { warnAfterMs := some (.ofNat 0), onWait := true } false 0),
  .resume 0, .taskSettled 1 .success, .resume 1,
  .call (.enqueueCommandInLane "main" {} false 1), .resume 1, .resume 1]

/-- With an `onWait` that enqueues, a lane of one slot comes to run two tasks. -/
theorem reentrantEnqueue_overcommits : ¬ ∀ rt l rt', machine.Reachable rt →
    machine.step rt l = some rt' → ∀ n, ∀ taskId ∈ (rt'.lane n).activeTaskIds,
      taskId ∉ (rt.lane n).activeTaskIds → (rt.lane n).hasFreeSlot := by
  intro hbound
  obtain ⟨rt, h⟩ := Option.isSome_iff_exists.mp
    (by decide : (machine.exec machine.start reentrantEnqueue).isSome = true)
  have hfull : (machine.exec machine.start reentrantEnqueue).all fun rt =>
      !decide (rt.lane "main").hasFreeSlot && decide (3 ∉ (rt.lane "main").activeTaskIds) &&
      (machine.step rt .onWaitReturn).any fun rt' => decide (3 ∈ (rt'.lane "main").activeTaskIds)
      := by decide
  simp only [h, Option.all_some, Bool.and_eq_true, Bool.not_eq_true', decide_eq_false_iff_not,
    decide_eq_true_eq, Option.any_eq_true] at hfull
  obtain ⟨⟨hslot, hold⟩, rt', hs, hnew⟩ := hfull
  exact hslot (hbound rt .onWaitReturn rt' (.exec .start h) hs "main" 3 hnew hold)

end Flashclaw.CommandQueue
