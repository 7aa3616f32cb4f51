import Flashclaw.CommandQueue.Order

/-!
# Command lanes: exactly once, in order

The balanced accounts and the order invariant together: what becomes of an
entry, from its enqueue to the settlement of its promise.
-/

namespace Flashclaw.CommandQueue

open CommandQueue.Runtime

namespace Ledger

variable {a b : Ledger}

theorem Balanced.nodup (h : a.Balanced) :
    (a.queued + a.waiting + a.inFlight + a.settling + (a.settled.map Prod.fst : List ℕ)).Nodup :=
  h.places ▸ (Finset.Ico 1 a.next).nodup

theorem completed_sublist (a : Ledger) : a.completed.Sublist (a.settled.map Prod.fst) :=
  List.filter_sublist.map _

theorem Balanced.nodup_settled (h : a.Balanced) : (a.settled.map Prod.fst).Nodup :=
  (Multiset.nodup_add.mp h.nodup).2.1

theorem Balanced.nodup_started (h : a.Balanced) : a.started.Nodup := by
  have hle : (a.started : Multiset ℕ) ≤
      a.queued + a.waiting + a.inFlight + a.settling + (a.settled.map Prod.fst : List ℕ) := by
    calc (a.started : Multiset ℕ) = a.inFlight + a.settling + a.completed := h.starts
      _ ≤ a.inFlight + a.settling + (a.settled.map Prod.fst : List ℕ) :=
        Multiset.add_le_add_iff_left.mpr (Multiset.coe_le.mpr a.completed_sublist.subperm)
      _ ≤ a.queued + a.waiting +
          (a.inFlight + a.settling + (a.settled.map Prod.fst : List ℕ)) :=
        Multiset.le_add_left _ _
      _ = a.queued + a.waiting + a.inFlight + a.settling + (a.settled.map Prod.fst : List ℕ) := by
        simp only [add_assoc]
  exact Multiset.coe_nodup.mp (Multiset.nodup_of_le hle h.nodup)

/-- Started and not settled: the task is in flight, or its handler has yet to settle. -/
theorem Balanced.mem_started (h : a.Balanced) {i : ℕ} :
    i ∈ a.started ↔ i ∈ a.inFlight ∨ i ∈ a.settling ∨ i ∈ a.completed := by
  rw [← Multiset.mem_coe, h.starts]
  simp

theorem Balanced.mem_places (h : a.Balanced) {i : ℕ} : 1 ≤ i ∧ i < a.next ↔
    i ∈ a.queued ∨ i ∈ a.waiting ∨ i ∈ a.inFlight ∨ i ∈ a.settling ∨
      i ∈ a.settled.map Prod.fst := by
  rw [← Finset.mem_Ico, ← Finset.mem_val, ← h.places]
  simp only [Multiset.mem_add, Multiset.mem_coe, or_assoc]

/-- No number is in two places. -/
theorem Balanced.apart (h : a.Balanced) {i : ℕ} :
    (i ∈ a.queued → i ∉ a.waiting ∧ i ∉ a.inFlight ∧ i ∉ a.settling ∧
      i ∉ a.settled.map Prod.fst) ∧
    (i ∈ a.waiting → i ∉ a.inFlight ∧ i ∉ a.settling ∧ i ∉ a.settled.map Prod.fst) ∧
    (i ∈ a.inFlight → i ∉ a.settling ∧ i ∉ a.settled.map Prod.fst) ∧
    (i ∈ a.settling → i ∉ a.settled.map Prod.fst) := by
  have hn := h.nodup
  simp only [Multiset.nodup_add, Multiset.disjoint_left, Multiset.mem_add, Multiset.mem_coe] at hn
  obtain ⟨⟨⟨⟨-, -, hw⟩, -, hf⟩, -, hs⟩, -, hd⟩ := hn
  refine ⟨fun hi => ⟨hw hi, hf (.inl hi), hs (.inl (.inl hi)), hd (.inl (.inl (.inl hi)))⟩,
    fun hi => ⟨hf (.inr hi), hs (.inl (.inr hi)), hd (.inl (.inl (.inr hi)))⟩,
    fun hi => ⟨hs (.inr hi), hd (.inl (.inr hi))⟩, fun hi => hd (.inr hi)⟩

theorem Balanced.not_started_of_cleared (h : a.Balanced) {i : ℕ}
    (hc : (i, .cleared) ∈ a.settled) : i ∉ a.started := by
  have hmem : i ∈ a.settled.map Prod.fst := List.mem_map_of_mem (f := Prod.fst) hc
  rw [h.mem_started]
  rintro (hi | hi | hi)
  · exact (h.apart.2.2.1 hi).2 hmem
  · exact h.apart.2.2.2 hi hmem
  · obtain ⟨⟨j, s⟩, hs, rfl⟩ := List.mem_map.mp hi
    obtain ⟨hs, hne⟩ := List.mem_filter.mp hs
    have : s = .cleared := by
      have := List.inj_on_of_nodup_map h.nodup_settled hs hc rfl
      exact congrArg Prod.snd this
    simp [this] at hne

theorem Move.settled_subset (h : Move a b) : a.settled ⊆ b.settled := by
  cases h with
  | settle => exact List.subset_append_left _ _
  | clear => exact List.subset_append_left _ _
  | _ => exact List.Subset.refl _

end Ledger

theorem balanced_initial : Runtime.initial.ledger.Balanced where
  pos := le_rfl
  places := rfl
  starts := rfl

theorem balanced_step {rt rt' : Runtime} {l : Label} (hb : rt.ledger.Balanced)
    (h : machine.step rt l = some rt') : rt'.ledger.Balanced :=
  hb.move (ledger_move (move_of_step h))

theorem balanced_reachable {rt : Runtime} (h : machine.Reachable rt) : rt.ledger.Balanced :=
  h.invariant (P := fun rt => rt.ledger.Balanced) balanced_initial fun _ _ _ => balanced_step

theorem settled_subset_exec {rt rt' : Runtime} {ls : List Label}
    (h : machine.exec rt ls = some rt') : rt.settled ⊆ rt'.settled := by
  induction ls generalizing rt with
  | nil => cases h; exact List.Subset.refl _
  | cons l ls ih =>
    obtain ⟨t, ht, h'⟩ := Option.bind_eq_some_iff.mp h
    exact List.Subset.trans (ledger_move (move_of_step ht)).settled_subset (ih h')

/-- Where an accepted entry can be. -/
inductive Place where
  | queued
  | waiting
  | started
  | settled
deriving DecidableEq

/-- The entry numbered `i` is in a queue, in `onWait`, started and unsettled, or settled. -/
def Runtime.At (rt : Runtime) (i : ℕ) : Place → Prop
  | .queued => ∃ n, ∃ entry ∈ (rt.lane n).queue, entry.sequence = i
  | .waiting => ∃ n entry bound, Frame.pump n (some (entry, bound)) ∈ rt.stack ∧
      entry.sequence = i
  | .started => i ∈ rt.started ∧ i ∉ rt.settled.map Prod.fst
  | .settled => i ∈ rt.settled.map Prod.fst

theorem mem_queued {q : QueueState} {i : ℕ} :
    i ∈ q.queued ↔ ∃ n, ∃ entry ∈ (q.getLaneState n).queue, entry.sequence = i := by
  have hsum : ∀ states : List LaneState, i ∈ (states.map LaneState.queued).sum ↔
      ∃ state ∈ states, ∃ entry ∈ state.queue, entry.sequence = i := by
    intro states
    induction states with
    | nil => simp
    | cons state states ih => simp [ih, LaneState.queued]
  rw [QueueState.queued, hsum]
  exact QueueState.exists_lane_iff (P := fun state => ∃ entry ∈ state.queue, entry.sequence = i)
    fun n => by simp [LaneState.created]

theorem mem_waitingEntries {fs : List Frame} {entry : QueueEntry} :
    entry ∈ waitingEntries fs ↔ ∃ n bound, Frame.pump n (some (entry, bound)) ∈ fs := by
  induction fs with
  | nil => simp [waitingEntries]
  | cons f fs ih =>
    cases f with
    | pump m waiting =>
      cases waiting with
      | none => simpa [waitingEntries] using ih
      | some waiting =>
        obtain ⟨e, b⟩ := waiting
        simp only [waitingEntries, List.mem_cons, ih, Frame.pump.injEq, Option.some.injEq,
          Prod.mk.injEq]
        constructor
        · rintro (rfl | ⟨n, bound, h⟩)
          · exact ⟨m, b, .inl ⟨rfl, rfl, rfl⟩⟩
          · exact ⟨n, bound, .inr h⟩
        · rintro ⟨n, bound, ⟨-, rfl, -⟩ | h⟩
          · exact .inl rfl
          · exact .inr ⟨n, bound, h⟩
    | progress => simpa [waitingEntries] using ih
    | resetCommandLane => simpa [waitingEntries] using ih
    | resetAllLanes _ => simpa [waitingEntries] using ih
    | settleEntry _ _ => simpa [waitingEntries] using ih

theorem at_queued {rt : Runtime} {i : ℕ} : rt.At i .queued ↔ i ∈ rt.ledger.queued :=
  mem_queued.symm

theorem at_waiting {rt : Runtime} {i : ℕ} : rt.At i .waiting ↔ i ∈ rt.ledger.waiting := by
  simp only [Runtime.At, Runtime.ledger, List.mem_map, mem_waitingEntries]
  constructor
  · rintro ⟨n, entry, bound, hm, he⟩
    exact ⟨entry, ⟨n, bound, hm⟩, he⟩
  · rintro ⟨entry, ⟨n, bound, hm⟩, he⟩
    exact ⟨n, entry, bound, hm, he⟩

theorem at_started {rt : Runtime} (hb : rt.ledger.Balanced) {i : ℕ} :
    rt.At i .started ↔ i ∈ rt.ledger.inFlight ∨ i ∈ rt.ledger.settling := by
  change i ∈ rt.ledger.started ∧ i ∉ rt.ledger.settled.map Prod.fst ↔ _
  rw [hb.mem_started]
  constructor
  · rintro ⟨hf | hs | hc, hd⟩
    · exact .inl hf
    · exact .inr hs
    · exact absurd (rt.ledger.completed_sublist.subset hc) hd
  · rintro (hf | hs)
    · exact ⟨.inl hf, (hb.apart.2.2.1 hf).2⟩
    · exact ⟨.inr (.inl hs), hb.apart.2.2.2 hs⟩

theorem at_unique {rt : Runtime} (hb : rt.ledger.Balanced) {i : ℕ} {p p' : Place}
    (h : rt.At i p) (h' : rt.At i p') : p = p' := by
  have hd : rt.At i .settled ↔ i ∈ rt.ledger.settled.map Prod.fst := Iff.rfl
  obtain ⟨hq, hw, hf, hs⟩ := hb.apart (i := i)
  cases p <;> cases p' <;> simp only [at_queued, at_waiting, at_started hb, hd] at h h' <;> grind

theorem existsUnique_place {rt : Runtime} (hb : rt.ledger.Balanced) {i : ℕ} (h1 : 1 ≤ i)
    (hi : i < rt.queue.nextQueueSequence) : ∃! p, rt.At i p := by
  suffices h : ∃ p, rt.At i p by
    obtain ⟨p, hp⟩ := h
    exact ⟨p, hp, fun p' hp' => at_unique hb hp' hp⟩
  rcases hb.mem_places.mp ⟨h1, hi⟩ with h | h | h | h | h
  · exact ⟨.queued, at_queued.mpr h⟩
  · exact ⟨.waiting, at_waiting.mpr h⟩
  · exact ⟨.started, (at_started hb).mpr (.inl h)⟩
  · exact ⟨.started, (at_started hb).mpr (.inr h)⟩
  · exact ⟨.settled, h⟩

namespace Runtime

/-- A task in flight after a step was in flight before, was at the head of its queue, or had its
`onWait` return. -/
theorem running_of_move {rt rt' : Runtime} {l : Label} (h : Move rt l rt') {task : RunningTask}
    (hm : task ∈ rt'.running) : task ∈ rt.running ∨
      (rt.lane task.lane).queue = task.entry :: (rt'.lane task.lane).queue ∨
      (∃ bound rest, rt.stack = .pump task.lane (some (task.entry, bound)) :: rest) ∧
        (rt'.lane task.lane).queue = (rt.lane task.lane).queue := by
  cases h with
  | call c => exact .inl (by rwa [(sameTasks_perform rt c).1] at hm)
  | pump_start name rest now entry queue hs hf hq =>
    rw [startEntry_running, List.mem_append, List.mem_singleton] at hm
    rcases hm with hm | rfl
    · exact .inl hm
    · refine .inr (.inl ?_)
      rw [startEntry_queue, setStack_lane, shifted_lane, if_pos rfl, hq]
      rfl
  | onWaitReturn name entry bound rest hs =>
    rw [startEntry_running, List.mem_append, List.mem_singleton] at hm
    rcases hm with hm | rfl
    · exact .inl hm
    · exact .inr (.inr ⟨⟨bound, rest, hs⟩, by rw [startEntry_queue]; rfl⟩)
  | taskSettled_current task' outcome hs => exact .inl (List.mem_of_mem_erase hm)
  | taskSettled_stale task' outcome hs => exact .inl (List.mem_of_mem_erase hm)
  | resetAllLanes_drain name names rest now hs =>
    rw [(sameTasks_drainLane _ _).1] at hm
    exact .inl hm
  | _ => exact .inl hm

end Runtime

/-- What becomes of an entry.  `shifted` and `startOrder` compare an entry with those still in
its queue when it is shifted off and when its task becomes active. -/
structure ExactlyOnceInOrder (rt : Runtime) : Prop where
  startedOnce : rt.started.Nodup
  settledOnce : (rt.settled.map Prod.fst).Nodup
  queuedOnce : rt.queue.queued.Nodup
  onePlace : ∀ i, 1 ≤ i → i < rt.queue.nextQueueSequence → ∃! p, rt.At i p
  clearedNeverStarts : ∀ i, (i, .cleared) ∈ rt.settled →
    ∀ ls rt', machine.exec rt ls = some rt' → i ∉ rt'.started
  resetsKeep : ∀ n, (∀ lane, ((rt.resetCommandLane lane).lane n).queue = (rt.lane n).queue) ∧
    (rt.resetAllLanes.lane n).queue = (rt.lane n).queue
  shifted : ∀ l rt', machine.step rt l = some rt' → ∀ n entry bound,
    .pump n (some (entry, bound)) ∈ rt'.stack → .pump n (some (entry, bound)) ∉ rt.stack →
      bound = rt.queue.nextQueueSequence ∧ ∀ q ∈ (rt'.lane n).queue, q.goesBefore entry = false
  startOrder : ∀ l rt', machine.step rt l = some rt' → ∀ task ∈ rt'.running, task ∉ rt.running →
    ∀ q ∈ (rt'.lane task.lane).queue, q.goesBefore task.entry = true →
      ∃ bound rest, rt.stack = .pump task.lane (some (task.entry, bound)) :: rest ∧
        bound ≤ q.sequence

/-- Every accepted entry is started and settled at most once and is in one place at a time, and
only entries enqueued during an entry's own `onWait` can precede it and start later. -/
theorem exactlyOnce_inOrder {rt : Runtime} (h : machine.Reachable rt) : ExactlyOnceInOrder rt := by
  have hb := balanced_reachable h
  have ho := ordered_reachable h
  have hhead {n : String} {entry q : QueueEntry} {queue : List QueueEntry}
      (hq : (rt.lane n).queue = entry :: queue) (hm : q ∈ queue) : q.goesBefore entry = false := by
    have hsorted := ho.sorted n
    rw [hq, List.pairwise_cons] at hsorted
    exact hsorted.1 q hm
  constructor
  case startedOnce => exact hb.nodup_started
  case settledOnce => exact hb.nodup_settled
  case queuedOnce =>
    exact (Multiset.nodup_add.mp (Multiset.nodup_add.mp (Multiset.nodup_add.mp
      (Multiset.nodup_add.mp hb.nodup).1).1).1).1
  case onePlace => exact fun i h1 hi => existsUnique_place hb h1 hi
  case clearedNeverStarts =>
    intro i hc ls rt' he
    exact (balanced_reachable (h.exec he)).not_started_of_cleared (settled_subset_exec he hc)
  case resetsKeep =>
    exact fun n => ⟨fun lane => resetCommandLane_queue rt lane n, resetAllLanes_queue rt n⟩
  case shifted =>
    intro l rt' hs n entry bound hm hold
    rcases waiting_of_move (move_of_step hs) hm with hm | ⟨hb, hq⟩
    · exact absurd hm hold
    · exact ⟨hb, fun q hm => hhead hq hm⟩
  case startOrder =>
    intro l rt' hs task hm hold q hq hbefore
    rcases running_of_move (move_of_step hs) hm with hm | hqueue | ⟨⟨bound, rest, hs⟩, hqueue⟩
    · exact absurd hm hold
    · rw [hhead hqueue hq] at hbefore
      cases hbefore
    · rw [hqueue] at hq
      have hmem : Frame.pump task.lane (some (task.entry, bound)) ∈ rt.stack := by
        rw [hs]
        exact List.mem_cons_self
      exact ⟨bound, rest, hs, (ho.since _ _ _ hmem).2 q hq hbefore⟩

/-- A pump shifts off an entry whose `onWait` enqueues one of higher priority. -/
def foregroundDuringOnWait : List Label := [
  .call (.enqueueCommandInLane "main" { warnAfterMs := some (.ofNat 0), onWait := true } false 0),
  .resume 0, .call (.enqueueCommandInLane "main" { priority := some .foreground } false 0)]

theorem exactlyOnce_inOrder_foreground : ∃ rt,
    machine.exec machine.start foregroundDuringOnWait = some rt ∧ ExactlyOnceInOrder rt := by
  obtain ⟨rt, h⟩ := Option.isSome_iff_exists.mp
    (by decide : (machine.exec machine.start foregroundDuringOnWait).isSome = true)
  exact ⟨rt, h, exactlyOnce_inOrder (.exec .start h)⟩

/-- A task can start while an entry that precedes it is in the queue of its lane. -/
theorem foreground_overtaken : ¬ ∀ rt l rt', machine.Reachable rt →
    machine.step rt l = some rt' → ∀ task ∈ rt'.running, task ∉ rt.running →
      ∀ q ∈ (rt'.lane task.lane).queue, q.goesBefore task.entry = false := by
  intro horder
  obtain ⟨rt, h⟩ := Option.isSome_iff_exists.mp
    (by decide : (machine.exec machine.start foregroundDuringOnWait).isSome = true)
  have hstart : (machine.exec machine.start foregroundDuringOnWait).all fun rt =>
      (machine.step rt .onWaitReturn).any fun rt' => rt'.running.any fun task =>
        decide (task ∉ rt.running) && (rt'.lane task.lane).queue.any fun q =>
          q.goesBefore task.entry := by decide
  simp only [h, Option.all_some, Option.any_eq_true, List.any_eq_true, Bool.and_eq_true,
    decide_eq_true_eq] at hstart
  obtain ⟨rt', hs, task, hm, hold, q, hq, hbefore⟩ := hstart
  rw [horder rt .onWaitReturn rt' (.exec .start h) hs task hm hold q hq] at hbefore
  cases hbefore

end Flashclaw.CommandQueue
