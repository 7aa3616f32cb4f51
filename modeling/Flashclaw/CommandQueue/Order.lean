import Flashclaw.CommandQueue.Accounting

/-!
# Command lanes: start order

Each queue is sorted by priority, then age, so the entry shifted off precedes
all that stay.  What its `onWait` enqueues may precede it by the time it starts.
-/

namespace Flashclaw.CommandQueue

open CommandQueue.Runtime

theorem goesBefore_iff {a b : QueueEntry} : a.goesBefore b = true ↔
    b.priority < a.priority ∨ b.priority = a.priority ∧ a.sequence < b.sequence := by
  simp [QueueEntry.goesBefore]

/-- `a` may stand in front of `b` in a queue. -/
def QueueEntry.mayPrecede (a b : QueueEntry) : Prop := b.goesBefore a = false

theorem mayPrecede_iff {a b : QueueEntry} : a.mayPrecede b ↔
    b.priority < a.priority ∨ b.priority = a.priority ∧ a.sequence ≤ b.sequence := by
  rw [QueueEntry.mayPrecede, Bool.eq_false_iff, ne_eq, goesBefore_iff]
  omega

theorem mayPrecede_trans (a b c : QueueEntry) (hab : a.mayPrecede b) (hbc : b.mayPrecede c) :
    a.mayPrecede c := by
  rw [mayPrecede_iff] at *
  omega

theorem enqueueLaneEntry_sorted {state : LaneState} {entry : QueueEntry}
    (h : state.queue.Pairwise QueueEntry.mayPrecede) :
    (enqueueLaneEntry state entry).queue.Pairwise QueueEntry.mayPrecede := by
  obtain ⟨placed, hs, hp, hq⟩ := enqueueLaneEntry_queue state entry
  rw [hq]
  refine Lists.pairwise_insertAtFirst mayPrecede_trans h ?_ ?_
  · intro b _ hb
    rw [goesBefore_iff] at hb
    rw [mayPrecede_iff, hs, hp]
    omega
  · intro b _ hb
    change b.mayPrecede entry at hb
    rw [mayPrecede_iff] at hb ⊢
    rwa [hs, hp]

theorem mem_enqueueLaneEntry_queue {state : LaneState} {entry q : QueueEntry}
    (h : q ∈ (enqueueLaneEntry state entry).queue) :
    q ∈ state.queue ∨ q.sequence = entry.sequence := by
  obtain ⟨placed, hs, -, hq⟩ := enqueueLaneEntry_queue state entry
  rw [hq, (Lists.insertAtFirst_perm _ _ _).mem_iff, List.mem_cons] at h
  rcases h with rfl | h
  · exact .inr hs
  · exact .inl h

namespace Runtime

/-- What a step does to one queue: entries leave, or the next one is enqueued. -/
inductive QueueMove (rt rt' : Runtime) (n : String) : Prop
  | leave (h : (rt'.lane n).queue.Sublist (rt.lane n).queue)
  | enqueue (opts : EnqueueOptions) (now : ℤ) (h : (rt'.lane n).queue =
      (enqueueLaneEntry (rt.lane n) (.created rt.queue.nextQueueSequence opts now)).queue)

theorem QueueMove.keep {rt rt' : Runtime} {n : String}
    (h : (rt'.lane n).queue = (rt.lane n).queue) : QueueMove rt rt' n :=
  .leave (by rw [h])

theorem setLane_queue (rt : Runtime) (m : String) (state : LaneState)
    (h : state.queue = (rt.lane m).queue) (n : String) :
    ((rt.setLane m state).lane n).queue = (rt.lane n).queue :=
  lane_setLane_field rt m n (·.queue) h

theorem startEntry_queue (rt : Runtime) (name n : String) (entry : QueueEntry) :
    ((rt.startEntry name entry).lane n).queue = (rt.lane n).queue := by
  rw [startEntry_lane]
  split_ifs with h
  · rw [h]
  · rfl

theorem shifted_queue (rt : Runtime) (name n : String) :
    ((rt.shifted name).lane n).queue.Sublist (rt.lane n).queue := by
  rw [shifted_lane]
  split_ifs with h
  · subst h
    exact List.tail_sublist _
  · exact .refl _

theorem resetCommandLane_queue (rt : Runtime) (lane n : String) :
    ((rt.resetCommandLane lane).lane n).queue = (rt.lane n).queue := by
  unfold resetCommandLane
  split
  · rfl
  · rename_i state hg
    obtain rfl : rt.lane (normalizeLane lane) = state := QueueState.getLaneState_of_get? hg
    have hidle := setLane_queue rt (normalizeLane lane) (rt.lane (normalizeLane lane)).reset rfl n
    split_ifs
    · rw [drainLane_queue]
      exact hidle
    · exact hidle

theorem resetAllLanes_queue (rt : Runtime) (n : String) :
    (rt.resetAllLanes.lane n).queue = (rt.lane n).queue := by
  obtain h | ⟨h, -⟩ := resetAllLanes_lane rt n <;> rw [h]
  rfl

theorem queueMove_call (rt : Runtime) (c : Call) (n : String) : QueueMove rt (rt.perform c) n := by
  cases c with
  | enqueueCommandInLane lane opts closed now =>
    simp only [perform, enqueueCommandInLane]
    split_ifs
    · exact .keep rfl
    · by_cases hn : normalizeLane lane = n
      · subst hn
        exact .enqueue opts now (by rw [drainLane_queue, lane_setLane_self])
      · exact .keep (by rw [drainLane_queue, lane_setLane_ne _ hn]; rfl)
  | setCommandLaneConcurrency lane k =>
    have hset := setLane_queue rt (normalizeLane lane) { rt.lane (normalizeLane lane) with
      maxConcurrent := resolveMaxConcurrent (normalizeLane lane) k } rfl n
    simp only [perform, setCommandLaneConcurrency]
    split_ifs
    · exact .keep (by rw [drainLane_queue, hset])
    · exact .keep hset
  | clearCommandLane lane =>
    simp only [perform, clearCommandLane]
    split
    · exact .keep rfl
    · by_cases hn : normalizeLane lane = n
      · subst hn
        refine .leave ?_
        rw [lane_setLane_self]
        exact List.nil_sublist _
      · refine .keep ?_
        rw [lane_setLane_ne _ hn]
        rfl
  | resetCommandLane lane => exact .keep (resetCommandLane_queue rt lane n)
  | resetAllLanes => exact .keep (resetAllLanes_queue rt n)
  | waitForActiveTasks timeoutMs => exact .keep (by rw [perform, waitForActiveTasks_lane])

theorem queueMove_of_move {rt rt' : Runtime} {l : Label} (h : Move rt l rt') (n : String) :
    QueueMove rt rt' n := by
  cases h with
  | call c => exact queueMove_call rt c n
  | pump_stop name rest now hs =>
    exact .keep (setLane_queue rt name { rt.lane name with draining := false } rfl n)
  | pump_wait name rest now entry queue hs hf hq => exact .leave (shifted_queue rt name n)
  | pump_start name rest now entry queue hs hf hq =>
    refine .leave ?_
    rw [startEntry_queue]
    exact shifted_queue rt name n
  | resetCommandLane rest now hs => exact .keep rfl
  | resetAllLanes_drain name names rest now hs => exact .keep (by rw [drainLane_queue]; rfl)
  | resetAllLanes_notify rest now hs => exact .keep rfl
  | settleEntry entry outcome rest now hs => exact .keep rfl
  | onWaitReturn name entry bound rest hs => exact .keep (by rw [startEntry_queue]; rfl)
  | progressReturn rest hs => exact .keep rfl
  | taskSettled_current task outcome hs hm hg =>
    exact .keep (setLane_queue _ task.lane _ (completeTask_queue _ _ _) n)
  | taskSettled_stale task outcome hs hm hg => exact .keep rfl
  | waiterTimeout id hs => exact .keep rfl

theorem mem_stack_drainLane {rt : Runtime} {m n : String} {w : QueueEntry × ℕ}
    (h : Frame.pump n (some w) ∈ (rt.drainLane m).stack) : Frame.pump n (some w) ∈ rt.stack := by
  obtain ⟨he, -⟩ | ⟨he, -⟩ := drainLane_cases rt m <;> rw [he] at h
  · exact h
  · simpa using h

theorem mem_stack_startEntry {rt : Runtime} {m n : String} {entry : QueueEntry}
    {w : QueueEntry × ℕ} (h : Frame.pump n (some w) ∈ (rt.startEntry m entry).stack) :
    Frame.pump n (some w) ∈ rt.stack := by
  obtain he | he := startEntry_cases rt m entry <;> rw [he] at h
  · exact h
  · simpa using h

theorem mem_stack_call {rt : Runtime} {c : Call} {n : String} {w : QueueEntry × ℕ}
    (h : Frame.pump n (some w) ∈ (rt.perform c).stack) : Frame.pump n (some w) ∈ rt.stack := by
  cases c with
  | enqueueCommandInLane lane opts closed now =>
    simp only [perform, enqueueCommandInLane] at h
    split_ifs at h
    · exact h
    · simpa using mem_stack_drainLane h
  | setCommandLaneConcurrency lane k =>
    simp only [perform, setCommandLaneConcurrency] at h
    split_ifs at h
    · simpa using mem_stack_drainLane h
    · exact h
  | clearCommandLane lane =>
    simp only [perform, clearCommandLane] at h
    split at h <;> exact h
  | resetCommandLane lane =>
    simp only [perform, resetCommandLane] at h
    split at h
    · exact h
    · split_ifs at h
      · simpa using mem_stack_drainLane h
      · simpa using h
  | resetAllLanes => simpa [perform, Runtime.resetAllLanes] using h
  | waitForActiveTasks timeoutMs => simpa [perform] using h

/-- An entry is in `onWait` after a step if it was before, or was just shifted off. -/
theorem waiting_of_move {rt rt' : Runtime} {l : Label} (h : Move rt l rt') {n : String}
    {entry : QueueEntry} {bound : ℕ} (hm : Frame.pump n (some (entry, bound)) ∈ rt'.stack) :
    Frame.pump n (some (entry, bound)) ∈ rt.stack ∨
      bound = rt.queue.nextQueueSequence ∧ (rt.lane n).queue = entry :: (rt'.lane n).queue := by
  cases h with
  | call c => exact .inl (mem_stack_call hm)
  | pump_stop name rest now hs => exact .inl (by rw [hs]; exact List.mem_cons_of_mem _ hm)
  | pump_wait name rest now head queue hs hf hq =>
    rcases List.mem_cons.mp hm with he | hm
    · obtain ⟨rfl, rfl, rfl⟩ : n = name ∧ entry = head ∧ bound = rt.queue.nextQueueSequence := by
        simpa using he
      refine .inr ⟨rfl, ?_⟩
      rw [setStack_lane, shifted_lane, if_pos rfl, hq]
      rfl
    · exact .inl (by rw [hs]; exact List.mem_cons_of_mem _ hm)
  | pump_start name rest now head queue hs hf hq =>
    exact .inl (by rw [hs]; exact mem_stack_startEntry hm)
  | resetCommandLane rest now hs => exact .inl (by rw [hs]; exact List.mem_cons_of_mem _ hm)
  | resetAllLanes_drain name names rest now hs =>
    have := mem_stack_drainLane hm
    exact .inl (by simpa [hs] using this)
  | resetAllLanes_notify rest now hs => exact .inl (by rw [hs]; exact List.mem_cons_of_mem _ hm)
  | settleEntry entry outcome rest now hs =>
    exact .inl (by rw [hs]; exact List.mem_cons_of_mem _ hm)
  | onWaitReturn name head b rest hs =>
    have := mem_stack_startEntry hm
    refine .inl ?_
    rw [hs]
    exact List.mem_cons_of_mem _ (by simpa using this)
  | progressReturn rest hs => exact .inl (by rw [hs]; exact List.mem_cons_of_mem _ hm)
  | taskSettled_current task outcome hs => exact absurd hm (by simp [hs])
  | taskSettled_stale task outcome hs => exact absurd hm (by simp [hs])
  | waiterTimeout id hs => exact .inl hm

/-- The order invariant.  Entries that precede one in `onWait` were enqueued since it was
shifted off. -/
structure Ordered (rt : Runtime) : Prop where
  sorted : ∀ n, (rt.lane n).queue.Pairwise QueueEntry.mayPrecede
  since : ∀ n entry bound, Frame.pump n (some (entry, bound)) ∈ rt.stack →
    bound ≤ rt.queue.nextQueueSequence ∧
      ∀ q ∈ (rt.lane n).queue, q.goesBefore entry = true → bound ≤ q.sequence

theorem ordered_initial : Ordered .initial where
  sorted _ := List.Pairwise.nil
  since _ _ _ h := nomatch h

theorem nextQueueSequence_le {rt rt' : Runtime} {l : Label} (h : Move rt l rt') :
    rt.queue.nextQueueSequence ≤ rt'.queue.nextQueueSequence :=
  (ledger_move h).next_le

theorem ordered_step {rt rt' : Runtime} {l : Label} (inv : Ordered rt)
    (h : machine.step rt l = some rt') : Ordered rt' := by
  have hmove := move_of_step h
  constructor
  · intro n
    cases queueMove_of_move hmove n with
    | leave hl => exact (inv.sorted n).sublist hl
    | enqueue opts now hq =>
      rw [hq]
      exact enqueueLaneEntry_sorted (inv.sorted n)
  · intro n entry bound hm
    have hnext := nextQueueSequence_le hmove
    rcases waiting_of_move hmove hm with hold | ⟨rfl, hq⟩
    · obtain ⟨hb, hsince⟩ := inv.since n entry bound hold
      refine ⟨hb.trans hnext, fun q hmem hbefore => ?_⟩
      cases queueMove_of_move hmove n with
      | leave hl => exact hsince q (hl.subset hmem) hbefore
      | enqueue opts now hq =>
        rw [hq] at hmem
        rcases mem_enqueueLaneEntry_queue hmem with hmem | hseq
        · exact hsince q hmem hbefore
        · rw [hseq]
          exact hb
    · refine ⟨hnext, fun q hmem hbefore => ?_⟩
      have hsorted := inv.sorted n
      rw [hq, List.pairwise_cons] at hsorted
      have hle : q.goesBefore entry = false := hsorted.1 q hmem
      rw [hle] at hbefore
      cases hbefore

theorem ordered_reachable {rt : Runtime} (h : machine.Reachable rt) : Ordered rt :=
  h.invariant ordered_initial fun _ _ _ => ordered_step

end Runtime

end Flashclaw.CommandQueue
