import Flashclaw.StoreWriter.Invariant

/-!
# The store writer queue: what a step keeps

Each operation keeps the invariant, some of them up to the hole that the next
one fills, and so does each step that goes as it should.
-/

namespace Flashclaw.StoreWriter

variable {ε τ : Type} {s s' : Runtime ε τ} {hole : Option StoreKey} {n ref : ℕ} {key : StoreKey}

theorem pendingOf_of_queue (h : s.queues key = some ref) :
    s.pendingOf key = (s.objects ref).pending := by
  rw [Runtime.pendingOf, h]

theorem pendingOf_congr (hqueues : s'.queues = s.queues)
    (hobjects : ∀ ref, (s'.objects ref).pending = (s.objects ref).pending) (key : StoreKey) :
    s'.pendingOf key = s.pendingOf key := by
  unfold Runtime.pendingOf
  rw [hqueues]
  cases s.queues key with
  | none => rfl
  | some ref => exact hobjects ref

/-- A path has one drain loop. -/
theorem Lanes.drain_unique (h : Lanes hole s) {d d' : Drain ε τ} (hd : d ∈ s.drains)
    (hd' : d' ∈ s.drains) (hkey : d.key = d'.key) : d = d' := by
  have hsymm : Std.Symm fun d d' : Drain ε τ => d.key ≠ d'.key := ⟨fun _ _ hne => Ne.symm hne⟩
  by_contra hne
  exact h.exclusive.forall hd hd' hne hkey

/-- A writer of the path is active only while its drain loop waits for it. -/
theorem Wf.exists_drain (h : Wf hole n s) {id : ℕ} (hactive : id ∈ s.active)
    (hstarted : (id, key) ∈ s.started) : ∃ d ∈ s.drains, d.task.call = id ∧ d.ended = none ∧
      d.key = key := by
  obtain ⟨d, hd, rfl, hended⟩ := (h.outcomes.active id).mp hactive
  have hkey := h.ids.key_unique (h.ids.queued_of_started (h.ids.drainStarted d hd))
    (h.ids.queued_of_started hstarted)
  exact ⟨d, hd, rfl, hended, hkey⟩

/-- Without a drain loop of the path no writer of it is active. -/
theorem Wf.isActive_eq_false (h : Wf hole n s) {context : Context}
    (hknown : context.Known s.started) (hnone : ∀ d ∈ s.drains, d.key ≠ key) :
    isActiveStoreWriter s.active key context = false := by
  by_contra hne
  rw [Bool.not_eq_false] at hne
  obtain ⟨id, hactive, hstarted⟩ := exists_of_isActiveStoreWriter hknown hne
  obtain ⟨d, hd, -, -, hkey⟩ := h.exists_drain hactive hstarted
  exact hnone d hd hkey

section Queues

/-- Of the queues the rest of the invariant reads what is pending. -/
theorem Wf.withQueues (h : Wf hole n s) {hole' : Option StoreKey} {queues : StoreKey → Option ℕ}
    {objects : ℕ → StoreWriterQueue} {nextObject : ℕ}
    (hlanes : Lanes hole' { s with queues, objects, nextObject })
    (hof : ∀ key, Runtime.pendingOf { s with queues, objects, nextObject } key = s.pendingOf key) :
    Wf hole' n { s with queues, objects, nextObject } := by
  refine ⟨h.microtasks, hlanes, ?_, ⟨h.outcomes.active, h.outcomes.drained, h.outcomes.settled,
    h.outcomes.ended⟩, ⟨h.frames.nodup, h.frames.active⟩, ?_⟩
  · refine ⟨h.ids.places, h.ids.queuedLt, h.ids.queuedNodup, ?_, h.ids.drainStarted⟩
    intro key
    rw [hof]
    exact h.ids.order key
  · refine ⟨h.contexts.known, ?_, h.contexts.drainKnown, h.contexts.alone, ?_, h.contexts.inside⟩
    · intro key
      rw [hof]
      exact h.contexts.pendingKnown key
    · intro key
      rw [hof]
      exact h.contexts.waiting key

theorem pending_setQueue {q : StoreWriterQueue} (hpending : q.pending = (s.objects ref).pending)
    (ref' : ℕ) : ((s.setQueue ref q).objects ref').pending = (s.objects ref').pending := by
  by_cases hne : ref' = ref
  · subst hne
    simp only [Runtime.setQueue, Function.update_self, hpending]
  · simp only [Runtime.setQueue, Function.update_of_ne hne]

theorem promised_setQueue {q : StoreWriterQueue} {ref' : ℕ} (h : s.Promised ref')
    (hpromise : (s.objects ref).drainPromise = true → q.drainPromise = true ∨ ref' ≠ ref) :
    (s.setQueue ref q).Promised ref' := by
  obtain h | h := h
  · by_cases hne : ref' = ref
    · subst hne
      obtain hq | hne := hpromise h
      · left
        simp only [Runtime.setQueue, Function.update_self, hq]
      · exact absurd rfl hne
    · left
      simp only [Runtime.setQueue, Function.update_of_ne hne, h]
  · exact .inr h

/-- The flags of a queue change; the promise goes only in the hole. -/
theorem Wf.setQueue (h : Wf hole n s) {q : StoreWriterQueue}
    (hpending : q.pending = (s.objects ref).pending)
    (hpromise : (s.objects ref).drainPromise = true → q.drainPromise = true ∨
      ∀ key, s.queues key = some ref → hole = some key) : Wf hole n (s.setQueue ref q) := by
  have hpend := @pending_setQueue ε τ s ref q hpending
  refine h.withQueues ?_ (pendingOf_congr rfl hpend)
  refine ⟨?_, h.lanes.mapped, h.lanes.exclusive, h.lanes.refs, h.lanes.injective, ?_⟩
  · intro key ref' hkey hhole
    obtain ⟨hpromised, hdrain⟩ := h.lanes.lane key ref' hkey hhole
    refine ⟨promised_setQueue hpromised ?_, hdrain⟩
    intro hp
    obtain hq | hq := hpromise hp
    · exact .inl hq
    · right
      rintro rfl
      exact hhole (hq key hkey)
  · intro ref' hne
    have hne' : ((s.setQueue ref q).objects ref').pending ≠ [] := hne
    rw [hpend] at hne'
    exact h.lanes.unmapped ref' hne'

theorem getOrCreate_of_some (h : s.queues key = some ref) :
    s.getOrCreateStoreWriterQueue key = (s, ref) := by
  rw [Runtime.getOrCreateStoreWriterQueue, h]

theorem getOrCreate_of_none (h : s.queues key = none) :
    s.getOrCreateStoreWriterQueue key = ({ s with
      queues := Function.update s.queues key (some s.nextObject)
      objects := Function.update s.objects s.nextObject ⟨false, [], false⟩
      nextObject := s.nextObject + 1 }, s.nextObject) := by
  rw [Runtime.getOrCreateStoreWriterQueue, h]

/-- A new queue is the hole until its drain loop starts. -/
theorem Wf.getOrCreate (h : Wf none n s) (hnone : s.queues key = none) :
    Wf (some key) n (s.getOrCreateStoreWriterQueue key).1 := by
  have hfresh (key' : StoreKey) (ref' : ℕ) (hkey' : s.queues key' = some ref') :
      ref' ≠ s.nextObject := (h.lanes.refs key' ref' hkey').ne
  -- the new object was never used: tasks wait only in objects that a key maps to
  have hpending : (s.objects s.nextObject).pending = [] := by
    by_contra hne
    obtain ⟨key', hkey'⟩ := h.lanes.unmapped _ hne
    exact hfresh key' _ hkey' rfl
  have hnodrain : ∀ d ∈ s.drains, d.key ≠ key := by
    rintro d hd rfl
    rw [(h.lanes.mapped d hd).1] at hnone
    cases hnone
  rw [getOrCreate_of_none hnone]
  refine h.withQueues ?_ ?_
  · constructor
    · intro key' ref' hkey' hhole
      have hne : key' ≠ key := fun heq => hhole (congrArg some heq.symm)
      simp only [Function.update_of_ne hne] at hkey'
      obtain ⟨hpromised, hdrain⟩ := h.lanes.lane key' ref' hkey' (by simp)
      refine ⟨?_, hdrain⟩
      unfold Runtime.Promised at hpromised ⊢
      simp only [Function.update_of_ne (hfresh key' ref' hkey')]
      exact hpromised
    · intro d hd
      have hne := hnodrain d hd
      simp only [Function.update_of_ne hne]
      exact ⟨(h.lanes.mapped d hd).1, fun heq => hne (Option.some.inj heq).symm⟩
    · exact h.lanes.exclusive
    · intro key' ref' hkey'
      show ref' < s.nextObject + 1
      by_cases hkey : key' = key
      · subst hkey
        simp only [Function.update_self, Option.some.injEq] at hkey'
        omega
      · simp only [Function.update_of_ne hkey] at hkey'
        have hlt := h.lanes.refs key' ref' hkey'
        omega
    · intro key₁ key₂ ref' h₁ h₂
      simp only [Function.update_apply] at h₁ h₂
      split at h₁ <;> split at h₂
      · rename_i heq₁ heq₂
        rw [heq₁, heq₂]
      · exact absurd (Option.some.inj h₁).symm (hfresh key₂ ref' h₂)
      · exact absurd (Option.some.inj h₂).symm (hfresh key₁ ref' h₁)
      · exact h.lanes.injective key₁ key₂ ref' h₁ h₂
    · intro ref' hne
      by_cases href : ref' = s.nextObject
      · exact ⟨key, by simp only [Function.update_self, href]⟩
      · simp only [Function.update_of_ne href] at hne
        obtain ⟨key', hkey'⟩ := h.lanes.unmapped ref' hne
        refine ⟨key', ?_⟩
        have hkey : key' ≠ key := by
          rintro rfl
          rw [hnone] at hkey'
          cases hkey'
        simp only [Function.update_of_ne hkey, hkey']
  · intro key'
    unfold Runtime.pendingOf
    by_cases hkey : key' = key
    · subst hkey
      simp only [Function.update_self, hnone]
    · simp only [Function.update_of_ne hkey]
      cases hq : s.queues key' with
      | none => rfl
      | some ref' => simp only [Function.update_of_ne (hfresh key' ref' hq)]

/-- A drain loop with nothing left removes its queue. -/
theorem Wf.finishDrain (h : Wf (some key) n s) (hqueue : s.queues key = some ref)
    (hpending : (s.objects ref).pending = []) (context : Context) :
    Wf none n (s.finishDrain ref key context false) := by
  unfold Runtime.finishDrain
  have hwf := @Wf.setQueue ε τ s (some key) n ref h
    { s.objects ref with running := false, drainPromise := false } rfl
    fun _ => .inr fun key' hkey' => congrArg some (h.lanes.injective _ _ _ hqueue hkey')
  generalize hs' : s.setQueue ref { s.objects ref with running := false, drainPromise := false } = s'
    at hwf
  have hqueue' : s'.queues key = some ref := by
    rw [← hs']
    exact hqueue
  have hpending' : (s'.objects ref).pending = [] := by
    rw [← hs']
    exact (@pending_setQueue ε τ s ref
      { s.objects ref with running := false, drainPromise := false } rfl ref).trans hpending
  dsimp only
  rw [if_pos hpending']
  -- the key is removed, so its lane need not be served
  refine hwf.withQueues ?_ ?_
  · constructor
    · intro key' ref' hkey' _
      have hne : key' ≠ key := by
        rintro rfl
        simp only [Function.update_self] at hkey'
        cases hkey'
      simp only [Function.update_of_ne hne] at hkey'
      exact hwf.lanes.lane key' ref' hkey' fun heq => hne (Option.some.inj heq).symm
    · intro d hd
      obtain ⟨hmap, hhole⟩ := hwf.lanes.mapped d hd
      have hne : d.key ≠ key := fun heq => hhole (congrArg some heq.symm)
      simp only [Function.update_of_ne hne]
      exact ⟨hmap, by simp⟩
    · exact hwf.lanes.exclusive
    · intro key' ref' hkey'
      simp only [Function.update_apply] at hkey'
      split at hkey'
      · cases hkey'
      · exact hwf.lanes.refs key' ref' hkey'
    · intro key₁ key₂ ref' h₁ h₂
      simp only [Function.update_apply] at h₁ h₂
      split at h₁ <;> split at h₂
      · cases h₁
      · cases h₁
      · cases h₂
      · exact hwf.lanes.injective key₁ key₂ ref' h₁ h₂
    · intro ref' hne
      obtain ⟨key', hkey'⟩ := hwf.lanes.unmapped ref' hne
      refine ⟨key', ?_⟩
      have hkey : key' ≠ key := by
        rintro rfl
        obtain rfl := Option.some.inj (hqueue'.symm.trans hkey')
        exact hne hpending'
      simp only [Function.update_of_ne hkey, hkey']
  · intro key'
    unfold Runtime.pendingOf
    by_cases hkey : key' = key
    · subst hkey
      simp only [Function.update_self, hqueue', hpending']
    · simp only [Function.update_of_ne hkey]

end Queues

section Tasks

/-- The call of a task has the next number, and was made in a context that is known. -/
theorem Wf.pushTask (h : Wf hole n s) {task : StoreWriterTask} (hqueue : s.queues key = some ref)
    (hcall : task.call = n) (hknown : task.context.Known s.started)
    (hwaiting : task.reentrant = true → isInside s.active key task.context = false) :
    Wf hole (n + 1) (s.pushTask ref key task) := by
  subst hcall
  have hpending (key' : StoreKey) : (s.pushTask ref key task).pendingOf key' =
      s.pendingOf key' ++ if key' = key then [task] else [] := by
    unfold Runtime.pendingOf Runtime.pushTask Runtime.setQueue
    dsimp only
    by_cases hkey : key' = key
    · subst hkey
      simp only [hqueue, Function.update_self, if_true]
    · simp only [if_neg hkey, List.append_nil]
      cases hq : s.queues key' with
      | none => rfl
      | some ref' =>
        have hne : ref' ≠ ref := by
          rintro rfl
          exact hkey (h.lanes.injective _ _ _ hq hqueue)
        simp only [Function.update_of_ne hne]
  refine ⟨h.microtasks, ?_, ?_, ⟨h.outcomes.active, h.outcomes.drained, h.outcomes.settled,
    h.outcomes.ended⟩, ⟨h.frames.nodup, h.frames.active⟩, ?_⟩
  · refine ⟨?_, h.lanes.mapped, h.lanes.exclusive, h.lanes.refs, h.lanes.injective, ?_⟩
    · intro key' ref' hkey' hhole
      obtain ⟨hpromised, hdrain⟩ := h.lanes.lane key' ref' hkey' hhole
      exact ⟨promised_setQueue hpromised fun hp => .inl hp, hdrain⟩
    · intro ref' hne
      by_cases href : ref' = ref
      · exact ⟨key, href ▸ hqueue⟩
      · simp only [Runtime.pushTask, Runtime.setQueue, Function.update_of_ne href] at hne
        exact h.lanes.unmapped ref' hne
  · constructor
    · intro id
      have hplaces := h.ids.places id
      simp only [Runtime.pushTask, Runtime.setQueue, List.map_append, List.map_singleton,
        count_concat]
      split_ifs at hplaces ⊢ <;> omega
    · intro q hq
      obtain hq | hq := List.mem_append.mp hq
      · exact (h.ids.queuedLt q hq).trans (Nat.lt_succ_self _)
      · rw [List.mem_singleton.mp hq]
        exact Nat.lt_succ_self _
    · -- the id of the call is larger than all that were queued
      show ((s.queued ++ [(task.call, key)]).map Prod.fst).Nodup
      rw [List.map_append, List.map_singleton]
      apply h.ids.queuedNodup.append (List.nodup_singleton _)
      rw [List.disjoint_singleton]
      intro hmem
      obtain ⟨q, hq, heq⟩ := List.mem_map.mp hmem
      exact absurd (h.ids.queuedLt q hq) (by omega)
    · intro key'
      have hqueued : (s.pushTask ref key task).queuedOf key' =
          s.queuedOf key' ++ if key' = key then [task.call] else [] := by
        unfold Runtime.queuedOf Runtime.pushTask
        by_cases hkey : key' = key
        · simp [hkey]
        · simp [hkey, Ne.symm hkey]
      rw [hpending, hqueued, ← h.ids.order key', List.map_append, ← List.append_assoc]
      by_cases hkey : key' = key
      · simp only [if_pos hkey]
        rfl
      · simp only [if_neg hkey]
        rfl
    · exact h.ids.drainStarted
  · refine ⟨h.contexts.known, ?_, h.contexts.drainKnown, h.contexts.alone, ?_, h.contexts.inside⟩
    · intro key' task' htask'
      rw [hpending, List.mem_append] at htask'
      obtain htask' | htask' := htask'
      · exact h.contexts.pendingKnown key' task' htask'
      · split at htask'
        · rw [List.mem_singleton.mp htask']
          exact hknown
        · cases htask'
    · intro key' task' htask'
      rw [hpending, List.mem_append] at htask'
      obtain htask' | htask' := htask'
      · exact h.contexts.waiting key' task' htask'
      · split at htask'
        · rename_i hkey
          rw [List.mem_singleton.mp htask', hkey]
          exact hwaiting
        · cases htask'

/-- Starting the first pending task fills the hole. -/
theorem Wf.startTask (h : Wf (some key) n s) {task : StoreWriterTask}
    {pending : List StoreWriterTask} {context : Context} {first : Bool}
    (hqueue : s.queues key = some ref) (hpending : (s.objects ref).pending = task :: pending)
    (hpromise : (s.objects ref).drainPromise = true ∨ first = true)
    (hknown : context.Known s.started) (hdirect : ∀ e ∈ s.direct, e.key ≠ key) :
    Wf none n
      ((s.setQueue ref { s.objects ref with pending }).startTask ref key context task first) := by
  have htask : task ∈ s.pendingOf key := by
    rw [pendingOf_of_queue hqueue, hpending]
    exact List.mem_cons_self
  have hfresh (key' : StoreKey) : (task.call, key') ∉ s.started := h.ids.not_started htask
  have hnodrain : ∀ d ∈ s.drains, d.key ≠ key :=
    fun d hd heq => (h.lanes.mapped d hd).2 (congrArg some heq.symm)
  have hinactive : task.call ∉ s.active := by
    intro hactive
    obtain ⟨d, hd, hcall, -⟩ := (h.outcomes.active _).mp hactive
    exact hfresh d.key (hcall ▸ h.ids.drainStarted d hd)
  have hsub : s.started ⊆ s.started ++ [(task.call, key)] := List.subset_append_left _ _
  have hne {key' : StoreKey} {ref' : ℕ} (hkey' : s.queues key' = some ref') (hkey : key' ≠ key) :
      ref' ≠ ref := by
    rintro rfl
    exact hkey (h.lanes.injective _ _ _ hkey' hqueue)
  have hpend (key' : StoreKey) : ((s.setQueue ref { s.objects ref with pending }).startTask ref key
      context task first).pendingOf key' = if key' = key then pending else s.pendingOf key' := by
    unfold Runtime.pendingOf Runtime.startTask Runtime.setQueue
    dsimp only
    by_cases hkey : key' = key
    · subst hkey
      simp only [hqueue, Function.update_self, if_true]
    · rw [if_neg hkey]
      cases hq : s.queues key' with
      | none => rfl
      | some ref' => simp only [Function.update_of_ne (hne hq hkey)]
  have hpendsub (key' : StoreKey) : ∀ task' ∈ ((s.setQueue ref { s.objects ref with
      pending }).startTask ref key context task first).pendingOf key', task' ∈ s.pendingOf key' := by
    intro task' htask'
    rw [hpend] at htask'
    split at htask'
    · rename_i hkey
      rw [hkey, pendingOf_of_queue hqueue, hpending]
      exact List.mem_cons_of_mem _ htask'
    · exact htask'
  -- the task moves from the front of its queue to a new drain, which is the only one for its key
  refine ⟨h.microtasks, ?_, ?_, ?_, ?_, ?_⟩
  · constructor
    · intro key' ref' hkey' _
      by_cases hkey : key' = key
      · subst hkey
        obtain rfl := Option.some.inj (hqueue.symm.trans hkey')
        refine ⟨?_, _, List.mem_append_right _ (List.mem_singleton_self _), rfl⟩
        obtain hpromise | rfl := hpromise
        · left
          simp only [Runtime.startTask, Runtime.setQueue, Function.update_self, hpromise]
        · exact .inr ⟨_, List.mem_cons_self, rfl, rfl⟩
      · obtain ⟨hpromised, d, hd, hdkey⟩ := h.lanes.lane key' ref' hkey' fun heq =>
          hkey (Option.some.inj heq).symm
        refine ⟨?_, d, List.mem_append_left _ hd, hdkey⟩
        obtain hpromised | ⟨f, hf, hfirst⟩ := hpromised
        · left
          simp only [Runtime.startTask, Runtime.setQueue, Function.update_of_ne (hne hkey' hkey),
            hpromised]
        · exact .inr ⟨f, List.mem_cons_of_mem _ hf, hfirst⟩
    · intro d hd
      refine ⟨?_, by simp⟩
      obtain hd | hd := List.mem_append.mp hd
      · exact (h.lanes.mapped d hd).1
      · rw [List.mem_singleton.mp hd]
        exact hqueue
    · refine List.pairwise_append.mpr ⟨h.lanes.exclusive, List.pairwise_singleton _ _, ?_⟩
      intro d hd d' hd'
      rw [List.mem_singleton.mp hd']
      exact hnodrain d hd
    · exact h.lanes.refs
    · exact h.lanes.injective
    · intro ref' hpending'
      by_cases href : ref' = ref
      · exact ⟨key, href ▸ hqueue⟩
      · simp only [Runtime.startTask, Runtime.setQueue, Function.update_of_ne href] at hpending'
        exact h.lanes.unmapped ref' hpending'
  · refine ⟨?_, h.ids.queuedLt, h.ids.queuedNodup, ?_, ?_⟩
    · -- its call is counted once as queued before and once as started after
      intro id
      have hplaces := h.ids.places id
      simp only [Runtime.startTask, Runtime.setQueue, List.map_append, List.map_singleton,
        count_concat]
      omega
    · intro key'
      have hstarted : ((s.setQueue ref { s.objects ref with pending }).startTask ref key context
          task first).startedOf key' = s.startedOf key' ++ if key' = key then [task.call] else [] := by
        unfold Runtime.startedOf Runtime.startTask
        by_cases hkey : key' = key
        · simp [hkey, Runtime.setQueue]
        · simp [hkey, Ne.symm hkey, Runtime.setQueue]
      refine Eq.trans ?_ (h.ids.order key')
      rw [hstarted, hpend]
      by_cases hkey : key' = key
      · subst hkey
        rw [if_pos rfl, if_pos rfl, pendingOf_of_queue hqueue, hpending, List.append_assoc]
        rfl
      · rw [if_neg hkey, if_neg hkey, List.append_nil]
    · intro d hd
      obtain hd | hd := List.mem_append.mp hd
      · exact List.mem_append_left _ (h.ids.drainStarted d hd)
      · rw [List.mem_singleton.mp hd]
        exact List.mem_append_right _ (List.mem_singleton_self _)
  · constructor
    · intro id
      show id ∈ insert task.call s.active ↔ ∃ d ∈ s.drains ++ _, _
      simp only [Finset.mem_insert, h.outcomes.active, List.mem_append, List.mem_singleton,
        or_and_right, exists_or, exists_eq_left, and_true]
      rw [or_comm, eq_comm]
    · intro d hd o hended
      obtain hd | hd := List.mem_append.mp hd
      · exact h.outcomes.drained d hd o hended
      · rw [List.mem_singleton.mp hd] at hended
        cases hended
    · exact h.outcomes.settled
    · intro id o hended
      obtain hsettled | ⟨d, hd, hdrain⟩ := h.outcomes.ended id o hended
      · exact .inl hsettled
      · exact .inr ⟨d, List.mem_append_left _ hd, hdrain⟩
  · constructor
    · refine List.nodup_cons.mpr ⟨?_, h.frames.nodup⟩
      intro hmem
      obtain ⟨f, hf, hcall⟩ := List.mem_map.mp hmem
      have hactive := h.frames.active f hf
      rw [show f.call = task.call from hcall] at hactive
      exact hinactive hactive
    · intro f hf
      obtain rfl | hf := List.mem_cons.mp hf
      · exact Finset.mem_insert_self _ _
      · exact Finset.mem_insert_of_mem (h.frames.active f hf)
  · constructor
    · intro c hc
      obtain hc | hc := List.mem_append.mp hc
      · exact (h.contexts.known c hc).mono hsub
      · rw [List.mem_singleton.mp hc]
        exact ⟨List.mem_append_right _ (List.mem_singleton_self _), hknown.mono hsub,
          (h.contexts.pendingKnown key task htask).mono hsub⟩
    · intro key' task' htask'
      exact (h.contexts.pendingKnown key' task' (hpendsub key' task' htask')).mono hsub
    · intro d hd
      obtain hd | hd := List.mem_append.mp hd
      · exact (h.contexts.drainKnown d hd).mono hsub
      · rw [List.mem_singleton.mp hd]
        exact hknown.mono hsub
    · intro call key' parent caller hc
      obtain hc | hc := List.mem_append.mp hc
      · have hparent := (h.contexts.known _ hc).2.1
        exact (isActiveStoreWriter_insert hparent hfresh).trans (h.contexts.alone _ _ _ _ hc)
      · cases List.mem_singleton.mp hc
        exact (isActiveStoreWriter_insert hknown hfresh).trans (h.isActive_eq_false hknown hnodrain)
    · -- no waiting task is inside the new call, since nothing has started under it
      intro key' task' htask' hreentrant
      have hmem := hpendsub key' task' htask'
      exact (isInside_insert (h.contexts.pendingKnown key' task' hmem) hfresh).trans
        (h.contexts.waiting key' task' hmem hreentrant)
    · intro e he d hd hended hkey
      obtain hd | hd := List.mem_append.mp hd
      · exact h.contexts.inside e he d hd hended hkey
      · rw [List.mem_singleton.mp hd] at hkey
        exact absurd hkey.symm (hdirect e he)

/-- A drain loop that goes on leaves the hole until it starts the next task. -/
theorem Wf.removeDrain (h : Wf none n s) {d : Drain ε τ} {outcome : Except ε τ} (hd : d ∈ s.drains)
    (hended : d.ended = some outcome) :
    Wf (some d.key) n (Runtime.settle
      { s with drains := s.drains.eraseP fun d' => d'.task.call = d.task.call } d.task.call
      (.outcome outcome)) := by
  have hsub : ∀ d' ∈ s.drains.eraseP fun d' => d'.task.call = d.task.call, d' ∈ s.drains :=
    fun d' hd' => List.mem_of_mem_eraseP hd'
  have hkeep {d' : Drain ε τ} (hd' : d' ∈ s.drains) (hne : d'.task.call ≠ d.task.call) :
      d' ∈ s.drains.eraseP fun d' => d'.task.call = d.task.call :=
    (List.mem_eraseP_of_neg (by simpa using hne)).mpr hd'
  -- it was the only drain for its key
  have hgone : ∀ d' ∈ s.drains.eraseP fun d' => d'.task.call = d.task.call, d'.key ≠ d.key := by
    obtain ⟨d₀, l₁, l₂, -, hd₀, hl, herase⟩ :=
      @List.exists_of_eraseP _ (fun d' : Drain ε τ => d'.task.call = d.task.call) _ _ hd (by simp)
    have hmem : d₀ ∈ s.drains := hl ▸ List.mem_append_right _ List.mem_cons_self
    obtain rfl := h.ids.drain_unique hmem hd (by simpa using hd₀)
    have hpairwise := h.lanes.exclusive
    rw [hl, List.pairwise_middle fun hne => Ne.symm hne] at hpairwise
    rw [herase]
    exact fun d' hd' => ((List.pairwise_cons.mp hpairwise).1 d' hd').symm
  refine ⟨h.microtasks, ?_, ?_, ?_, ⟨h.frames.nodup, h.frames.active⟩, ?_⟩
  · refine ⟨?_, ?_, h.lanes.exclusive.sublist (List.eraseP_sublist), h.lanes.refs,
      h.lanes.injective, h.lanes.unmapped⟩
    · intro key ref hkey hhole
      obtain ⟨hpromised, d', hd', rfl⟩ := h.lanes.lane key ref hkey (by simp)
      refine ⟨hpromised, d', hkeep hd' ?_, rfl⟩
      intro heq
      exact hhole (congrArg (fun d => some d.key) (h.ids.drain_unique hd hd' heq.symm))
    · intro d' hd'
      refine ⟨(h.lanes.mapped d' (hsub d' hd')).1, ?_⟩
      intro heq
      exact hgone d' hd' (Option.some.inj heq).symm
  · refine ⟨?_, h.ids.queuedLt, h.ids.queuedNodup, h.ids.order,
      fun d' hd' => h.ids.drainStarted d' (hsub d' hd')⟩
    intro id
    have hplaces := h.ids.places id
    -- its call is counted once as settled instead of once as drained
    have hcount := count_map_eraseP (fun d' : Drain ε τ => d'.task.call) hd id
    simp only [Runtime.settle, List.map_append, List.map_singleton, count_concat]
    omega
  · constructor
    · intro id
      refine (h.outcomes.active id).trans ?_
      constructor
      · rintro ⟨d', hd', rfl, hnone⟩
        refine ⟨d', hkeep hd' ?_, rfl, hnone⟩
        intro heq
        rw [h.ids.drain_unique hd' hd heq, hended] at hnone
        cases hnone
      · rintro ⟨d', hd', hd''⟩
        exact ⟨d', hsub d' hd', hd''⟩
    · exact fun d' hd' => h.outcomes.drained d' (hsub d' hd')
    · intro id o hsettled
      obtain hsettled | hsettled := List.mem_append.mp hsettled
      · exact h.outcomes.settled id o hsettled
      · cases List.mem_singleton.mp hsettled
        exact h.outcomes.drained d hd _ hended
    · intro id o hmem
      obtain hsettled | ⟨d', hd', rfl, hended'⟩ := h.outcomes.ended id o hmem
      · exact .inl (List.mem_append_left _ hsettled)
      · by_cases heq : d'.task.call = d.task.call
        · left
          rw [h.ids.drain_unique hd' hd heq, hended] at hended'
          obtain rfl := Option.some.inj hended'
          exact List.mem_append_right _ (heq ▸ List.mem_singleton_self _)
        · exact .inr ⟨d', hkeep hd' heq, rfl, hended'⟩
  · exact ⟨h.contexts.known, h.contexts.pendingKnown,
      fun d' hd' => h.contexts.drainKnown d' (hsub d' hd'), h.contexts.alone, h.contexts.waiting,
      fun e he d' hd' => h.contexts.inside e he d' (hsub d' hd')⟩

/-- The stack loses its top, whose drain loop has its promise if it ran its first task. -/
theorem Wf.popStack (h : Wf none n s) {frame : Frame} {stack : List Frame}
    (hstack : s.stack = frame :: stack)
    (hpromise : frame.first = true → (s.objects frame.queue).drainPromise = true) :
    Wf none n { s with stack } := by
  have hsub : ∀ f ∈ stack, f ∈ s.stack := fun f hf => hstack ▸ List.mem_cons_of_mem _ hf
  refine ⟨h.microtasks, ?_, ⟨h.ids.places, h.ids.queuedLt, h.ids.queuedNodup, h.ids.order,
    h.ids.drainStarted⟩, ⟨h.outcomes.active, h.outcomes.drained, h.outcomes.settled,
    h.outcomes.ended⟩, ⟨?_, fun f hf => h.frames.active f (hsub f hf)⟩, ⟨h.contexts.known,
    h.contexts.pendingKnown, h.contexts.drainKnown, h.contexts.alone, h.contexts.waiting,
    h.contexts.inside⟩⟩
  · refine ⟨?_, h.lanes.mapped, h.lanes.exclusive, h.lanes.refs, h.lanes.injective,
      h.lanes.unmapped⟩
    intro key ref hkey hhole
    obtain ⟨hpromised, hdrain⟩ := h.lanes.lane key ref hkey hhole
    refine ⟨?_, hdrain⟩
    obtain hpromised | ⟨f, hf, hfirst, rfl⟩ := hpromised
    · exact .inl hpromised
    · rw [hstack] at hf
      obtain rfl | hf := List.mem_cons.mp hf
      · exact .inl (hpromise hfirst)
      · exact .inr ⟨f, hf, hfirst, rfl⟩
  · have hnodup := h.frames.nodup
    rw [hstack] at hnodup
    exact (List.nodup_cons.mp hnodup).2

theorem Wf.popFrame (h : Wf none n s) {frame : Frame} {stack : List Frame}
    (hstack : s.stack = frame :: stack) : Wf none n (s.popFrame frame stack) := by
  unfold Runtime.popFrame
  split
  · have hwf := @Wf.setQueue ε τ s none n frame.queue h
      { s.objects frame.queue with drainPromise := true } rfl fun _ => .inl rfl
    refine hwf.popStack hstack fun _ => ?_
    simp only [Runtime.setQueue, Function.update_self]
  · rename_i hfirst
    exact h.popStack hstack fun hf => absurd hf hfirst

/-- The end of an active writer whose function is not on the stack. -/
theorem Wf.endWriter (h : Wf none n s) {call : ℕ} (hactive : call ∈ s.active)
    (hstack : ∀ f ∈ s.stack, f.call ≠ call) (outcome : Except ε τ) :
    Wf none n (s.endWriter call outcome) := by
  have hmem {d : Drain ε τ} (hd : d ∈ (s.endWriter call outcome).drains) : ∃ d' ∈ s.drains,
      d'.task = d.task ∧ d'.key = d.key ∧ d'.queue = d.queue ∧ d'.context = d.context ∧
        (d.ended = d'.ended ∧ d.task.call ≠ call ∨ d.ended = some outcome ∧ d.task.call = call) := by
    obtain ⟨d', hd', rfl⟩ := List.mem_map.mp hd
    refine ⟨d', hd', ?_⟩
    split
    · rename_i heq
      exact ⟨rfl, rfl, rfl, rfl, .inr ⟨rfl, heq⟩⟩
    · rename_i hne
      exact ⟨rfl, rfl, rfl, rfl, .inl ⟨rfl, hne⟩⟩
  have hother {d : Drain ε τ} (hd : d ∈ s.drains) (hne : d.task.call ≠ call) :
      d ∈ (s.endWriter call outcome).drains :=
    List.mem_map.mpr ⟨d, hd, if_neg hne⟩
  have hcall : (s.endWriter call outcome).drains.map (·.task.call) = s.drains.map (·.task.call) := by
    simp only [Runtime.endWriter, List.map_map]
    apply List.map_congr_left
    intro d _
    simp only [Function.comp]
    split <;> rfl
  refine ⟨h.microtasks, ?_, ?_, ?_, ?_, ?_⟩
  · refine ⟨?_, ?_, ?_, h.lanes.refs, h.lanes.injective, h.lanes.unmapped⟩
    · intro key ref hkey hhole
      obtain ⟨hpromised, d, hd, rfl⟩ := h.lanes.lane key ref hkey hhole
      refine ⟨hpromised, _, List.mem_map_of_mem hd, ?_⟩
      split <;> rfl
    · intro d hd
      obtain ⟨d', hd', -, hkey, hqueue, -⟩ := hmem hd
      rw [← hkey, ← hqueue]
      exact h.lanes.mapped d' hd'
    · refine List.pairwise_map.mpr (h.lanes.exclusive.imp ?_)
      intro d d' hne
      split <;> split <;> exact hne
  · refine ⟨?_, h.ids.queuedLt, h.ids.queuedNodup, h.ids.order, ?_⟩
    · intro id
      rw [hcall]
      exact h.ids.places id
    · intro d hd
      obtain ⟨d', hd', htask, hkey, -⟩ := hmem hd
      rw [← htask, ← hkey]
      exact h.ids.drainStarted d' hd'
  · constructor
    · intro id
      show id ∈ s.active.erase call ↔ _
      rw [Finset.mem_erase, h.outcomes.active]
      constructor
      · rintro ⟨hne, d, hd, rfl, hended⟩
        exact ⟨d, hother hd hne, rfl, hended⟩
      · rintro ⟨d, hd, rfl, hended⟩
        obtain ⟨d', hd', htask, -, -, -, ⟨hsame, hne⟩ | ⟨hsome, -⟩⟩ := hmem hd
        · exact ⟨hne, d', hd', congrArg _ htask, hsame.symm.trans hended⟩
        · rw [hsome] at hended
          cases hended
    · intro d hd o hended
      obtain ⟨d', hd', htask, -, -, -, ⟨hsame, -⟩ | ⟨hsome, heq⟩⟩ := hmem hd
      · rw [← htask]
        exact List.mem_append_left _ (h.outcomes.drained d' hd' o (hsame.symm.trans hended))
      · obtain rfl := Option.some.inj (hsome.symm.trans hended)
        exact List.mem_append_right _ (heq ▸ List.mem_singleton_self _)
    · intro id o hsettled
      exact List.mem_append_left _ (h.outcomes.settled id o hsettled)
    · intro id o hended
      obtain hended | hended := List.mem_append.mp hended
      · obtain hsettled | ⟨d, hd, rfl, hsome⟩ := h.outcomes.ended id o hended
        · exact .inl hsettled
        · refine .inr ⟨d, hother hd ?_, rfl, hsome⟩
          -- a loop whose writer is active has no outcome yet
          rintro rfl
          obtain ⟨d', hd', heq, hnone⟩ := (h.outcomes.active _).mp hactive
          rw [h.ids.drain_unique hd' hd heq, hsome] at hnone
          cases hnone
      · cases List.mem_singleton.mp hended
        obtain ⟨d, hd, heq, -⟩ := (h.outcomes.active _).mp hactive
        exact .inr ⟨_, List.mem_map.mpr ⟨d, hd, if_pos heq⟩, heq, rfl⟩
  · refine ⟨h.frames.nodup, ?_⟩
    intro f hf
    exact Finset.mem_erase.mpr ⟨hstack f hf, h.frames.active f hf⟩
  · refine ⟨h.contexts.known, h.contexts.pendingKnown, ?_, ?_, ?_, ?_⟩
    · intro d hd
      obtain ⟨d', hd', -, -, -, hcontext, -⟩ := hmem hd
      rw [← hcontext]
      exact h.contexts.drainKnown d' hd'
    · intro call' key parent caller hc
      exact isActiveStoreWriter_erase (h.contexts.alone call' key parent caller hc)
    · intro key task htask hreentrant
      exact isInside_erase (h.contexts.waiting key task htask hreentrant)
    · intro e he d hd hended hkey
      obtain ⟨d', hd', htask, hkey', -, -, ⟨hsame, -⟩ | ⟨hsome, -⟩⟩ := hmem hd
      · rw [← htask]
        exact h.contexts.inside e he d' hd' (hsame.symm.trans hended) (hkey'.trans hkey)
      · rw [hsome] at hended
        cases hended

end Tasks

section Direct

/-- A reentrant call that is in an active writer of its path runs at once. -/
theorem Wf.pushDirect (h : Wf none n s) {context : Context}
    (hinside : isInside s.active key context = true) (hknown : context.Known s.started) :
    Wf none (n + 1) { s with direct := s.direct ++ [⟨n, key, context⟩] } := by
  refine ⟨h.microtasks, ⟨h.lanes.lane, h.lanes.mapped, h.lanes.exclusive, h.lanes.refs,
    h.lanes.injective, h.lanes.unmapped⟩, ?_, ⟨h.outcomes.active, h.outcomes.drained,
    h.outcomes.settled, h.outcomes.ended⟩, ⟨h.frames.nodup, h.frames.active⟩, ⟨h.contexts.known,
    h.contexts.pendingKnown, h.contexts.drainKnown, h.contexts.alone, h.contexts.waiting, ?_⟩⟩
  · refine ⟨?_, fun q hq => (h.ids.queuedLt q hq).trans (Nat.lt_succ_self _), h.ids.queuedNodup,
      h.ids.order, h.ids.drainStarted⟩
    intro id
    have hplaces := h.ids.places id
    simp only [List.map_append, List.map_singleton, count_concat]
    split_ifs at hplaces ⊢ <;> omega
  · intro e he d hd hended hkey
    obtain he | he := List.mem_append.mp he
    · exact h.contexts.inside e he d hd hended hkey
    · cases List.mem_singleton.mp he
      obtain ⟨id, hactive, hstarted, hcallers⟩ := exists_of_isInside hknown hinside
      obtain ⟨d', hd', rfl, -, hkey'⟩ := h.exists_drain hactive hstarted
      -- the path has one writer
      rw [h.lanes.drain_unique hd hd' (hkey.trans hkey'.symm)]
      exact hcallers

theorem Wf.settleInvalid (h : Wf none n s) (message : String) :
    Wf none (n + 1) (s.settle n (.invalidStorePath message)) := by
  refine ⟨h.microtasks, ⟨h.lanes.lane, h.lanes.mapped, h.lanes.exclusive, h.lanes.refs,
    h.lanes.injective, h.lanes.unmapped⟩, ?_, ⟨h.outcomes.active, h.outcomes.drained, ?_, ?_⟩,
    ⟨h.frames.nodup, h.frames.active⟩, ⟨h.contexts.known, h.contexts.pendingKnown,
    h.contexts.drainKnown, h.contexts.alone, h.contexts.waiting, h.contexts.inside⟩⟩
  · refine ⟨?_, fun q hq => (h.ids.queuedLt q hq).trans (Nat.lt_succ_self _), h.ids.queuedNodup,
      h.ids.order, h.ids.drainStarted⟩
    intro id
    have hplaces := h.ids.places id
    simp only [Runtime.settle, List.map_append, List.map_singleton, count_concat]
    split_ifs at hplaces ⊢ <;> omega
  · intro id o hsettled
    obtain hsettled | hsettled := List.mem_append.mp hsettled
    · exact h.outcomes.settled id o hsettled
    · cases List.mem_singleton.mp hsettled
  · intro id o hended
    obtain hsettled | hdrain := h.outcomes.ended id o hended
    · exact .inl (List.mem_append_left _ hsettled)
    · exact .inr hdrain

theorem Wf.settleDirect (h : Wf none n s) {e : DirectCall} (he : e ∈ s.direct)
    (outcome : Except ε τ) : Wf none n (s.settleDirect e.call outcome) := by
  refine ⟨h.microtasks, ⟨h.lanes.lane, h.lanes.mapped, h.lanes.exclusive, h.lanes.refs,
    h.lanes.injective, h.lanes.unmapped⟩, ?_, ⟨h.outcomes.active, ?_, ?_, ?_⟩,
    ⟨h.frames.nodup, h.frames.active⟩, ⟨h.contexts.known, h.contexts.pendingKnown,
    h.contexts.drainKnown, h.contexts.alone, h.contexts.waiting, ?_⟩⟩
  · refine ⟨?_, h.ids.queuedLt, h.ids.queuedNodup, h.ids.order, h.ids.drainStarted⟩
    intro id
    have hplaces := h.ids.places id
    have hcount := count_map_eraseP (fun e : DirectCall => e.call) he id
    simp only [Runtime.settleDirect, List.map_append, List.map_singleton, count_concat]
    omega
  · exact fun d hd o hended => List.mem_append_left _ (h.outcomes.drained d hd o hended)
  · intro id o hsettled
    obtain hsettled | hsettled := List.mem_append.mp hsettled
    · exact List.mem_append_left _ (h.outcomes.settled id o hsettled)
    · cases List.mem_singleton.mp hsettled
      exact List.mem_append_right _ (List.mem_singleton_self _)
  · intro id o hended
    obtain hended | hended := List.mem_append.mp hended
    · obtain hsettled | hdrain := h.outcomes.ended id o hended
      · exact .inl (List.mem_append_left _ hsettled)
      · exact .inr hdrain
    · cases List.mem_singleton.mp hended
      exact .inl (List.mem_append_right _ (List.mem_singleton_self _))
  · exact fun e' he' => h.contexts.inside e' (List.mem_of_mem_eraseP he')

end Direct

section Step

variable {context : Context} {reentrant : Bool}

theorem Wf.bump (h : Wf hole n s) (nextCall : ℕ) : Wf hole n { s with nextCall } := by
  exact ⟨h.microtasks, ⟨h.lanes.lane, h.lanes.mapped, h.lanes.exclusive, h.lanes.refs,
    h.lanes.injective, h.lanes.unmapped⟩, ⟨h.ids.places, h.ids.queuedLt, h.ids.queuedNodup,
    h.ids.order, h.ids.drainStarted⟩, ⟨h.outcomes.active, h.outcomes.drained, h.outcomes.settled,
    h.outcomes.ended⟩, ⟨h.frames.nodup, h.frames.active⟩, ⟨h.contexts.known,
    h.contexts.pendingKnown, h.contexts.drainKnown, h.contexts.alone, h.contexts.waiting,
    h.contexts.inside⟩⟩

/-- A queued call waits behind the drain loop of its path, or starts one. -/
theorem Wf.enqueue (h : Wf none n s) {task : StoreWriterTask} (hcall : task.call = n)
    (hknown : task.context.Known s.started)
    (hwaiting : task.reentrant = true → isInside s.active key task.context = false)
    (hreturned : ∀ f ∈ s.stack, f.first = true → s.queues key ≠ some f.queue)
    (hsettled : s.queues key = none → ∀ e ∈ s.direct, e.key ≠ key) :
    Wf none (n + 1) (s.enqueue key task) := by
  unfold Runtime.enqueue
  cases hqueue : s.queues key with
  | some ref =>
    rw [getOrCreate_of_some hqueue]
    have hwf := h.pushTask hqueue hcall hknown hwaiting
    -- a queue that is there is drained: no first task of it is on the stack
    have hpromise : ((s.pushTask ref key task).objects ref).drainPromise = true := by
      obtain ⟨hpromise | ⟨f, hf, hfirst, rfl⟩, -⟩ := h.lanes.lane key ref hqueue (by simp)
      · simp only [Runtime.pushTask, Runtime.setQueue, Function.update_self, hpromise]
      · exact absurd hqueue (hreturned f hf hfirst)
    have hqueue' : (s.pushTask ref key task).queues key = some ref := hqueue
    dsimp only
    rw [Runtime.drainStoreWriterQueue, hqueue']
    dsimp only
    rw [if_pos hpromise]
    exact hwf
  | none =>
    have hhole := h.getOrCreate hqueue
    have hdirect : ∀ e ∈ (s.getOrCreateStoreWriterQueue key).1.direct, e.key ≠ key := by
      rw [getOrCreate_of_none hqueue]
      exact hsettled hqueue
    have hknown' : task.context.Known (s.getOrCreateStoreWriterQueue key).1.started := by
      rw [getOrCreate_of_none hqueue]
      exact hknown
    have hwaiting' : task.reentrant = true →
        isInside (s.getOrCreateStoreWriterQueue key).1.active key task.context = false := by
      rw [getOrCreate_of_none hqueue]
      exact hwaiting
    -- a new queue starts its first task at once
    have hcreated : (s.getOrCreateStoreWriterQueue key).1.queues key =
          some (s.getOrCreateStoreWriterQueue key).2 ∧
        (s.getOrCreateStoreWriterQueue key).1.objects (s.getOrCreateStoreWriterQueue key).2 =
          ⟨false, [], false⟩ := by
      rw [getOrCreate_of_none hqueue]
      exact ⟨Function.update_self _ _ _, Function.update_self _ _ _⟩
    generalize s.getOrCreateStoreWriterQueue key = created
      at hhole hdirect hknown' hwaiting' hcreated ⊢
    obtain ⟨s', ref⟩ := created
    obtain ⟨hqueue', hobject⟩ := hcreated
    have hpushed := hhole.pushTask hqueue' hcall hknown' hwaiting'
    have hpushedObject : (s'.pushTask ref key task).objects ref = ⟨false, [task], false⟩ := by
      dsimp only at hobject
      simp only [Runtime.pushTask, Runtime.setQueue, Function.update_self, hobject, List.nil_append]
    have hpushedQueue : (s'.pushTask ref key task).queues key = some ref := hqueue'
    have hpushedDirect : ∀ e ∈ (s'.pushTask ref key task).direct, e.key ≠ key := hdirect
    have hpushedKnown : task.context.Known (s'.pushTask ref key task).started := hknown'
    dsimp only
    generalize s'.pushTask ref key task = s''
      at hpushed hpushedObject hpushedQueue hpushedDirect hpushedKnown ⊢
    have hrunning := @Wf.setQueue ε τ s'' (some key) (n + 1) ref hpushed
      { s''.objects ref with running := true } rfl .inl
    have hpending : ((s''.setQueue ref { s''.objects ref with running := true }).objects
        ref).pending = [task] := by
      simp only [Runtime.setQueue, Function.update_self, hpushedObject]
    rw [Runtime.drainStoreWriterQueue, hpushedQueue]
    dsimp only
    rw [if_neg (by simp [hpushedObject]), Runtime.drainLoop, hpending]
    exact hrunning.startTask hpushedQueue hpending (.inr rfl) hpushedKnown hpushedDirect

@[simp]
theorem nextCall_drainLoop (s : Runtime ε τ) (ref : ℕ) (key : StoreKey) (context : Context)
    (first : Bool) : (s.drainLoop ref key context first).nextCall = s.nextCall := by
  unfold Runtime.drainLoop Runtime.finishDrain
  split
  · dsimp only
    split <;> rfl
  · rfl

theorem nextCall_enqueue (s : Runtime ε τ) (key : StoreKey) (task : StoreWriterTask) :
    (s.enqueue key task).nextCall = s.nextCall := by
  have hcreated : (s.getOrCreateStoreWriterQueue key).1.nextCall = s.nextCall := by
    unfold Runtime.getOrCreateStoreWriterQueue
    split <;> rfl
  unfold Runtime.enqueue Runtime.drainStoreWriterQueue
  dsimp only
  split
  · exact hcreated
  · split
    · exact hcreated
    · rw [nextCall_drainLoop]
      exact hcreated

theorem nextCall_popFrame (s : Runtime ε τ) (frame : Frame) (stack : List Frame) :
    (s.popFrame frame stack).nextCall = s.nextCall := by
  unfold Runtime.popFrame
  split <;> rfl

/-- A call that the queue serves as it should. -/
theorem Wf.runQueuedStoreWrite (h : Wf none s.nextCall s) (label : String)
    (hknown : context.Known s.started) (hok : CallOk s context key reentrant) :
    Wf none (s.runQueuedStoreWrite context key label reentrant).nextCall
      (s.runQueuedStoreWrite context key label reentrant) := by
  have hbump := h.bump (s.nextCall + 1)
  unfold Runtime.runQueuedStoreWrite
  dsimp only
  split
  · exact hbump.settleInvalid _
  · rename_i hpath
    split
    · rename_i hactive
      obtain ⟨hreentrant, hactive⟩ := Bool.and_eq_true_iff.mp hactive
      rw [hok.agrees hreentrant] at hactive
      exact hbump.pushDirect hactive hknown
    · rename_i hqueue
      have hqueued : s.isQueued context key reentrant = true := by
        simp only [Runtime.isQueued, ne_eq, hpath, not_false_eq_true, decide_true, Bool.true_and,
          Bool.not_eq_true']
        exact Bool.eq_false_iff.mpr hqueue
      rw [nextCall_enqueue]
      refine hbump.enqueue rfl hknown ?_ (hok.returned hqueued) (hok.settled hqueued)
      intro hreentrant
      have hagrees := hok.agrees hreentrant
      obtain rfl : reentrant = true := hreentrant
      rw [Bool.true_and] at hqueue
      exact hagrees ▸ Bool.eq_false_iff.mpr hqueue

/-- The drain loop takes the next task, or is over. -/
theorem Wf.drainLoop (h : Wf (some key) n s) (hqueue : s.queues key = some ref)
    (hpromise : (s.objects ref).drainPromise = true) (hknown : context.Known s.started)
    (hdirect : (s.objects ref).pending ≠ [] → ∀ e ∈ s.direct, e.key ≠ key) :
    Wf none n (s.drainLoop ref key context false) := by
  unfold Runtime.drainLoop
  split
  · rename_i hpending
    exact h.finishDrain hqueue hpending context
  · rename_i task pending hpending
    refine h.startTask hqueue hpending (.inl hpromise) hknown (hdirect ?_)
    rw [hpending]
    exact List.cons_ne_nil _ _

theorem Wf.step (h : Wf none s.nextCall s) {l : Label ε τ} (hok : StepOk s l)
    (hs : step s l = some s') : Wf none s'.nextCall s' := by
  cases l with
  | call context key label reentrant =>
    simp only [StoreWriter.step] at hs
    split at hs
    · rename_i hcontext
      obtain rfl := Option.some.inj hs
      refine h.runQueuedStoreWrite label ?_ hok
      obtain rfl | hcontext := hcontext
      · trivial
      · exact h.contexts.known context hcontext
    · cases hs
  | fnReturns =>
    simp only [StoreWriter.step] at hs
    split at hs
    · cases hs
    · rename_i frame stack hstack
      obtain rfl := Option.some.inj hs
      rw [nextCall_popFrame]
      exact h.popFrame hstack
  | fnThrows reason =>
    simp only [StoreWriter.step] at hs
    split at hs
    · cases hs
    · rename_i frame stack hstack
      obtain rfl := Option.some.inj hs
      -- a throw is a return whose call has ended at once
      have hpop := h.popFrame hstack
      have hnodup := h.frames.nodup
      rw [hstack] at hnodup
      have hactive := h.frames.active frame (hstack ▸ List.mem_cons_self)
      have hfields : (s.popFrame frame stack).active = s.active ∧
          (s.popFrame frame stack).stack = stack := by
        unfold Runtime.popFrame
        split <;> exact ⟨rfl, rfl⟩
      show Wf none (s.popFrame frame stack).nextCall _
      rw [nextCall_popFrame]
      apply hpop.endWriter
      · rw [hfields.1]
        exact hactive
      · rw [hfields.2]
        intro f hf heq
        exact (List.nodup_cons.mp hnodup).1 (List.mem_map.mpr ⟨f, hf, heq⟩)
  | writerEnds call outcome =>
    simp only [StoreWriter.step] at hs
    split at hs
    · rename_i hrunning
      obtain ⟨hstack, hactive⟩ := hrunning
      obtain rfl := Option.some.inj hs
      refine h.endWriter hactive ?_ outcome
      rw [hstack]
      exact List.forall_mem_nil _
    · cases hs
  | drainResumes call =>
    simp only [StoreWriter.step] at hs
    split at hs
    · rename_i hstack
      obtain ⟨d, hfind, hs⟩ := Option.bind_eq_some_iff.mp hs
      obtain ⟨outcome, hended, rfl⟩ := Option.map_eq_some_iff.mp hs
      have hd := List.mem_of_find?_eq_some hfind
      have hcall : d.task.call = call := by simpa using List.find?_some hfind
      -- with an empty stack no first task is running, so the lane of the drain has its promise
      have hpromised : (s.objects d.queue).drainPromise = true := by
        obtain ⟨hpromise | ⟨f, hf, -⟩, -⟩ :=
          h.lanes.lane d.key d.queue (h.lanes.mapped d hd).1 (by simp)
        · exact hpromise
        · rw [hstack] at hf
          cases hf
      unfold Runtime.resumeDrain
      rw [nextCall_drainLoop]
      exact (h.removeDrain hd hended).drainLoop (h.lanes.mapped d hd).1 hpromised
        (h.contexts.drainKnown d hd) (hok d hd hcall)
    · cases hs
  | directSettles call outcome =>
    simp only [StoreWriter.step] at hs
    split at hs
    · rename_i hdirect
      obtain rfl := Option.some.inj hs
      obtain ⟨e, he, hcall⟩ := List.any_eq_true.mp hdirect.2
      obtain rfl : e.call = call := by simpa using hcall
      exact h.settleDirect he outcome
    · cases hs
  | microtask =>
    simp only [StoreWriter.step, h.microtasks] at hs
    split at hs <;> cases hs

theorem wf_of_run {ls : List (Label ε τ)} (run : (machine ε τ).Run StepOk ls s) :
    Wf none s.nextCall s :=
  run.invariant (P := fun s => Wf none s.nextCall s) wf_initial fun _ _ _ h hok hs => h.step hok hs

end Step

end Flashclaw.StoreWriter
