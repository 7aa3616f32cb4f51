import Flashclaw.StoreWriter.Progress

/-!
# The store writer queue: what it promises

Writers of a path do not overlap and start in the order of their calls, a
reentrant call runs beside no writer that it was not made in and waits for none
that it was, every call settles once and with the outcome of its own writer,
and no call is left behind.  All of it holds in the runs whose steps are as
`StepOk` says, and some run without them breaks each part.
-/

namespace Flashclaw.StoreWriter

variable {ε τ : Type} {s s' : Runtime ε τ} {n : ℕ} {key : StoreKey}

/-- What the queue promises in every state. -/
structure Served (s : Runtime ε τ) : Prop where
  exclusive : ∀ key call call', s.Running key call → s.Running key call' → call = call'
  ordered : ∀ key, s.startedOf key <+: s.queuedOf key
  /-- A reentrant call's function runs beside the writer it was made in, if beside any. -/
  reentrant : ∀ e ∈ s.direct, ∀ call, s.Running e.key call → call ∈ e.context.callers
  /-- A reentrant call does not wait for a writer it was made in. -/
  notWaiting : ∀ key, ∀ task ∈ s.pendingOf key, task.reentrant = true →
    ∀ call ∈ task.context.callers, ¬ s.Running key call
  settledOnce : (s.settled.map Prod.fst).Nodup
  ownOutcome : ∀ call o, (call, .outcome o) ∈ s.settled → ∀ o', (call, o') ∈ s.ended ↔ o' = o
  /-- A call is settled, or runs, or ran and settles next, or waits for a loop that is on. -/
  lossless : ∀ call < s.nextCall, call ∈ s.settled.map Prod.fst ∨
    (∃ d ∈ s.drains, d.task.call = call) ∨ (∃ e ∈ s.direct, e.call = call) ∨
      ∃ key, (∃ task ∈ s.pendingOf key, task.call = call) ∧ ∃ d ∈ s.drains, d.key = key

theorem Wf.exclusive (h : Wf none n s) {call call' : ℕ} (hcall : s.Running key call)
    (hcall' : s.Running key call') : call = call' := by
  obtain ⟨d, hd, rfl, -, hkey⟩ := h.exists_drain hcall.1 hcall.2
  obtain ⟨d', hd', rfl, -, hkey'⟩ := h.exists_drain hcall'.1 hcall'.2
  rw [h.lanes.drain_unique hd hd' (hkey.trans hkey'.symm)]

/-- A writer that a call is made in and that is running is one that the code would have to find. -/
theorem isInside_of_mem_callers {context : Context} {call : ℕ} (hids : Ids n s)
    (hknown : context.Known s.started) (hcall : call ∈ context.callers)
    (hrunning : s.Running key call) : isInside s.active key context = true := by
  induction context with
  | root => cases hcall
  | writer call' key' parent caller _ ihCaller =>
    simp only [isInside, Bool.or_eq_true, Bool.and_eq_true, decide_eq_true_eq]
    obtain rfl | hcall := List.mem_cons.mp hcall
    · exact .inl ⟨hrunning.1, hids.key_unique (hids.queued_of_started hknown.1)
        (hids.queued_of_started hrunning.2)⟩
    · exact .inr (ihCaller hknown.2.2 hcall)

theorem Wf.ownOutcome (h : Wf none n s) {call : ℕ} {o o' : Except ε τ}
    (hsettled : (call, .outcome o) ∈ s.settled) : (call, o') ∈ s.ended ↔ o' = o := by
  constructor
  · intro hended
    obtain hsettled' | ⟨d, hd, rfl, -⟩ := h.outcomes.ended call o' hended
    · have heq := List.inj_on_of_nodup_map h.ids.settled_nodup hsettled' hsettled rfl
      cases heq
      rfl
    · exact absurd (List.mem_map_of_mem hsettled) (h.ids.not_settled_of_drain hd)
  · rintro rfl
    exact h.outcomes.settled call o' hsettled

theorem Wf.served (h : Wf none s.nextCall s) : Served s := by
  constructor
  · intro key call call' hcall hcall'
    exact h.exclusive hcall hcall'
  · intro key
    exact ⟨_, h.ids.order key⟩
  · intro e he call hrunning
    obtain ⟨d, hd, rfl, hended, hkey⟩ := h.exists_drain hrunning.1 hrunning.2
    exact h.contexts.inside e he d hd hended hkey
  · intro key task htask hreentrant call hcall hrunning
    have hinside := isInside_of_mem_callers h.ids (h.contexts.pendingKnown key task htask) hcall
      hrunning
    rw [h.contexts.waiting key task htask hreentrant] at hinside
    cases hinside
  · exact h.ids.settled_nodup
  · intro call o hsettled o'
    exact h.ownOutcome hsettled
  · intro call hcall
    obtain hplace | hplace | hplace | ⟨key, task, htask, hplace⟩ := h.ids.accounted hcall
    · exact .inl hplace
    · exact .inr (.inl (List.mem_map.mp hplace))
    · exact .inr (.inr (.inl (List.mem_map.mp hplace)))
    · refine .inr (.inr (.inr ⟨key, ⟨task, htask, hplace⟩, ?_⟩))
      cases hqueue : s.queues key with
      | none =>
        rw [Runtime.pendingOf, hqueue] at htask
        cases htask
      | some ref => exact (h.lanes.lane key ref hqueue (by simp)).2

theorem queued_drainLoop (s : Runtime ε τ) (ref : ℕ) (key : StoreKey) (context : Context)
    (first : Bool) : (s.drainLoop ref key context first).queued = s.queued := by
  unfold Runtime.drainLoop Runtime.finishDrain
  split
  · dsimp only
    split <;> rfl
  · rfl

theorem queued_enqueue (s : Runtime ε τ) (key : StoreKey) (task : StoreWriterTask) :
    (s.enqueue key task).queued = s.queued ++ [(task.call, key)] := by
  have hpushed : ((s.getOrCreateStoreWriterQueue key).1.pushTask
      (s.getOrCreateStoreWriterQueue key).2 key task).queued = s.queued ++ [(task.call, key)] := by
    unfold Runtime.getOrCreateStoreWriterQueue
    split <;> rfl
  unfold Runtime.enqueue Runtime.drainStoreWriterQueue
  dsimp only
  split
  · exact hpushed
  · split
    · exact hpushed
    · rw [queued_drainLoop]
      exact hpushed

/-- A call in the context of a writer of its path that is over is queued. -/
theorem Wf.queued_of_finished (h : Wf none n s) {call : ℕ} {parent caller : Context} {label : String}
    {reentrant : Bool} (hfinished : call ∉ s.active) (hpath : key.storePath ≠ "")
    (hs : StoreWriter.step s (.call (.writer call key parent caller) key label reentrant) = some s') :
    s'.queued = s.queued ++ [(s.nextCall, key)] := by
  simp only [StoreWriter.step, reduceCtorEq, false_or] at hs
  split at hs
  · rename_i hcontext
    obtain rfl := Option.some.inj hs
    have hactive : isActiveStoreWriter s.active key (.writer call key parent caller) = false := by
      simp only [isActiveStoreWriter, hfinished, decide_false, Bool.false_and, Bool.false_or]
      exact h.contexts.alone call key parent caller hcontext
    unfold Runtime.runQueuedStoreWrite
    dsimp only
    rw [if_neg hpath, hactive, Bool.and_false, if_neg Bool.false_ne_true]
    exact queued_enqueue _ _ _
  · cases hs

theorem queues_drainLoop {ref : ℕ} {context : Context} {first : Bool} {key' : StoreKey}
    (h : (s.objects ref).pending ≠ [] ∨ key' ≠ key) :
    (s.drainLoop ref key context first).queues key' = s.queues key' := by
  unfold Runtime.drainLoop Runtime.finishDrain
  split
  · rename_i hpending
    have hne := h.resolve_left fun hne => hne hpending
    dsimp only
    split
    · exact Function.update_of_ne hne _ _
    · rfl
  · rfl

/-- A call removes no queue. -/
theorem queues_enqueue {key' : StoreKey} {ref : ℕ} (task : StoreWriterTask)
    (h : s.queues key' = some ref) : (s.enqueue key task).queues key' = some ref := by
  have hcreated : (s.getOrCreateStoreWriterQueue key).1.queues key' = some ref := by
    unfold Runtime.getOrCreateStoreWriterQueue
    split
    · exact h
    · rename_i hnone
      have hne : key' ≠ key := by
        rintro rfl
        rw [hnone] at h
        cases h
      exact (Function.update_of_ne hne _ _).trans h
  unfold Runtime.enqueue Runtime.drainStoreWriterQueue
  dsimp only
  split
  · exact hcreated
  · rename_i ref' hqueue
    split
    · exact hcreated
    · refine (queues_drainLoop ?_).trans hcreated
      by_cases hkey : key' = key
      · -- the loop takes the task that was pushed
        subst hkey
        rw [getOrCreate_of_some h] at hqueue ⊢
        obtain rfl : ref = ref' := Option.some.inj (h.symm.trans hqueue)
        left
        simp [Runtime.setQueue, Runtime.pushTask]
      · exact .inr hkey

/-- A queue is removed when nothing is pending. -/
theorem Wf.removed (h : Wf none n s) {l : Label ε τ} {ref : ℕ} (hs : StoreWriter.step s l = some s')
    (hqueue : s.queues key = some ref) (hremoved : s'.queues key ≠ some ref) :
    s.pendingOf key = [] := by
  cases l with
  | call context key' label reentrant =>
    simp only [StoreWriter.step] at hs
    split at hs
    · obtain rfl := Option.some.inj hs
      refine absurd ?_ hremoved
      unfold Runtime.runQueuedStoreWrite
      dsimp only
      split
      · exact hqueue
      · split
        · exact hqueue
        · exact queues_enqueue _ hqueue
    · cases hs
  | drainResumes call =>
    simp only [StoreWriter.step] at hs
    split at hs
    · obtain ⟨d, hfind, hs⟩ := Option.bind_eq_some_iff.mp hs
      obtain ⟨outcome, -, rfl⟩ := Option.map_eq_some_iff.mp hs
      -- only the end of a drain removes a queue
      have hmapped := (h.lanes.mapped d (List.mem_of_find?_eq_some hfind)).1
      by_contra hne
      refine hremoved ((queues_drainLoop ?_).trans hqueue)
      by_cases hkey : key = d.key
      · left
        subst hkey
        rw [pendingOf_of_queue hmapped] at hne
        exact hne
      · exact .inr hkey
    · cases hs
  | fnReturns =>
    simp only [StoreWriter.step] at hs
    split at hs
    · cases hs
    · obtain rfl := Option.some.inj hs
      refine absurd ?_ hremoved
      unfold Runtime.popFrame
      split <;> exact hqueue
  | fnThrows reason =>
    simp only [StoreWriter.step] at hs
    split at hs
    · cases hs
    · obtain rfl := Option.some.inj hs
      refine absurd ?_ hremoved
      unfold Runtime.popFrame
      split <;> exact hqueue
  | writerEnds call outcome =>
    simp only [StoreWriter.step] at hs
    split at hs
    · obtain rfl := Option.some.inj hs
      exact absurd hqueue hremoved
    · cases hs
  | directSettles call outcome =>
    simp only [StoreWriter.step] at hs
    split at hs
    · obtain rfl := Option.some.inj hs
      exact absurd hqueue hremoved
    · cases hs
  | microtask =>
    simp only [StoreWriter.step, h.microtasks] at hs
    split at hs <;> cases hs

/-- Every state of a run whose steps are as they should is served: what the queue promises holds,
what was called goes on until it is settled, in as many steps without a call as there is work at
most, a call in the context of a writer of its path that is over is queued, and a queue that the
next step removes has nothing pending. -/
theorem storeWrites_served {ls : List (Label ε τ)} {s : Runtime ε τ}
    (run : (machine ε τ).Run StepOk ls s) :
    Served s ∧ Progress s ∧
    (∀ ls' t, (machine ε τ).Run StepOk (ls ++ ls') t → (∀ l ∈ ls', l.isCall = false) →
      ls'.length + t.work ≤ s.work) ∧
    (∀ call key parent caller label reentrant s', call ∉ s.active → key.storePath ≠ "" →
      step s (.call (.writer call key parent caller) key label reentrant) = some s' →
        s'.queued = s.queued ++ [(s.nextCall, key)]) ∧
    (∀ l s' key ref, step s l = some s' → s.queues key = some ref → s'.queues key ≠ some ref →
      s.pendingOf key = []) := by
  have h := wf_of_run run
  refine ⟨h.served, h.progress, ?_, ?_, ?_⟩
  · intro ls' t run' hcall
    exact length_le_work run run' hcall
  · intro call key parent caller label reentrant s' hfinished hpath hs
    exact h.queued_of_finished hfinished hpath hs
  · intro l s' key ref hs hqueue hremoved
    exact h.removed hs hqueue hremoved

instance (s : Runtime ε τ) (context : Context) (key : StoreKey) (reentrant : Bool) :
    Decidable (CallOk s context key reentrant) :=
  decidable_of_iff
    ((s.isQueued context key reentrant = true →
        ∀ f ∈ s.stack, f.first = true → s.queues key ≠ some f.queue) ∧
      (s.isQueued context key reentrant = true → s.queues key = none → ∀ e ∈ s.direct, e.key ≠ key) ∧
      (reentrant = true →
        isActiveStoreWriter s.active key context = isInside s.active key context))
    ⟨fun h => ⟨h.1, h.2.1, h.2.2⟩, fun h => ⟨h.returned, h.settled, h.agrees⟩⟩

instance (s : Runtime ε τ) : DecidablePred (StepOk s)
  | .call context key _ reentrant => inferInstanceAs (Decidable (CallOk s context key reentrant))
  | .drainResumes call => inferInstanceAs (Decidable (∀ d ∈ s.drains, d.task.call = call →
      (s.objects d.queue).pending ≠ [] → ∀ e ∈ s.direct, e.key ≠ d.key))
  | .fnReturns => .isTrue trivial
  | .fnThrows _ => .isTrue trivial
  | .writerEnds _ _ => .isTrue trivial
  | .directSettles _ _ => .isTrue trivial
  | .microtask => .isTrue trivial

/-- Two paths of one map. -/
def pathA : StoreKey := ⟨0, "a"⟩
def pathB : StoreKey := ⟨0, "b"⟩

/-- The context of the first call's writer, started from outside. -/
def firstWriter : Context := .writer 0 pathA .root .root

/-- A writer whose reentrant call runs inside of it, and a call that waits and throws. -/
def nestedRun : List (Label String String) :=
  [.call .root pathA "outer" false, .fnReturns, .call firstWriter pathA "inner" true,
    .call .root pathA "next" true, .directSettles 1 (.ok "inner"), .writerEnds 0 (.ok "outer"),
    .drainResumes 0, .fnThrows "next", .drainResumes 2]

theorem storeWrites_served_sample : ∃ s : Runtime String String, Served s ∧ Progress s ∧
    s.settled.map Prod.fst = [1, 0, 2] ∧ s.queues pathA = none := by
  have hexec : (((machine String String).execOk (fun s l => decide (StepOk s l)) .initial
      nestedRun).any fun s =>
        decide (s.settled.map Prod.fst = [1, 0, 2] ∧ s.queues pathA = none)) = true := by
    decide +kernel
  obtain ⟨s, hs, hfinal⟩ := (Option.any_eq_true _ _).mp hexec
  have run := (TransitionSystem.Run.of_execOk (T := machine String String) hs).mono
    fun s l h => of_decide_eq_true h
  obtain ⟨hsettled, hqueue⟩ := of_decide_eq_true hfinal
  exact ⟨s, (storeWrites_served run).1, (storeWrites_served run).2.1, hsettled, hqueue⟩

/-- Steps that are not as they should be.  A writer that queues a write of its own path before it
gives back its promise runs beside it, and a queue is removed while a write waits in it.  A drain
loop that a writer of another path started gives that writer's context to the calls of others, whose
reentrant calls then run beside it; one that was started elsewhere does not give it to the
writer's own, whose reentrant calls wait for it.  A reentrant function that outlives its writer
runs beside the next one. -/
theorem storeWrites_not_served :
    (∃ s : Runtime String String, (machine String String).Reachable s ∧
      s.Running pathA 0 ∧ s.Running pathA 1) ∧
    (∃ s s' : Runtime String String, (machine String String).Reachable s ∧
      step s (.drainResumes 0) = some s' ∧ (s.queues pathA).isSome = true ∧
        s'.queues pathA = none ∧ s.pendingOf pathA ≠ []) ∧
    (∃ s : Runtime String String, (machine String String).Reachable s ∧
      s.Running pathA 0 ∧ ∃ e ∈ s.direct, e.key = pathA ∧ 0 ∉ e.context.callers) ∧
    (∃ s : Runtime String String, (machine String String).Reachable s ∧
      s.Running pathA 1 ∧ ∃ task ∈ s.pendingOf pathA, task.reentrant = true ∧
        1 ∈ task.context.callers) ∧
    (∃ s : Runtime String String, (machine String String).Reachable s ∧
      s.Running pathA 2 ∧ ∃ e ∈ s.direct, e.key = pathA ∧ 2 ∉ e.context.callers) := by
  -- One run a part; in the first two the inner call is made before the outer function returns.
  refine ⟨?_, ?_, ?_, ?_, ?_⟩
  · obtain ⟨s, hs, h⟩ := @TransitionSystem.exists_reachable_of_exec _ _ (machine String String)
      (fun s => decide (s.Running pathA 0 ∧ s.Running pathA 1))
      [.call .root pathA "outer" false, .call firstWriter pathA "inner" false] (by decide +kernel)
    exact ⟨s, hs, of_decide_eq_true h⟩
  · obtain ⟨s, hs, h⟩ := @TransitionSystem.exists_reachable_of_exec _ _ (machine String String)
      (fun s => decide ((s.queues pathA).isSome = true ∧ s.pendingOf pathA ≠ []) &&
        (step s (.drainResumes 0)).any fun s' : Runtime String String =>
          decide (s'.queues pathA = none))
      [.call .root pathA "outer" false, .call firstWriter pathA "inner" false, .fnReturns,
        .fnReturns, .writerEnds 1 (.ok "inner"), .drainResumes 1, .call .root pathA "third" false,
        .fnReturns, .call .root pathA "fourth" false, .writerEnds 0 (.ok "outer")]
      (by decide +kernel)
    obtain ⟨hbefore, hafter⟩ := Bool.and_eq_true_iff.mp h
    obtain ⟨hmapped, hpending⟩ := of_decide_eq_true hbefore
    obtain ⟨s', hs', hremoved⟩ := (Option.any_eq_true _ _).mp hafter
    exact ⟨s, s', hs, hs', hmapped, of_decide_eq_true hremoved, hpending⟩
  · obtain ⟨s, hs, h⟩ := @TransitionSystem.exists_reachable_of_exec _ _ (machine String String)
      (fun s => decide (s.Running pathA 0 ∧ ∃ e ∈ s.direct, e.key = pathA ∧ 0 ∉ e.context.callers))
      [.call .root pathA "outer" false, .fnReturns, .call firstWriter pathB "nested" false,
        .fnReturns, .call .root pathB "other" false, .writerEnds 1 (.ok "nested"), .drainResumes 1,
        .fnReturns, .call (.writer 2 pathB firstWriter .root) pathA "inner" true]
      (by decide +kernel)
    exact ⟨s, hs, of_decide_eq_true h⟩
  · obtain ⟨s, hs, h⟩ := @TransitionSystem.exists_reachable_of_exec _ _ (machine String String)
      (fun s => decide (s.Running pathA 1 ∧
        ∃ task ∈ s.pendingOf pathA, task.reentrant = true ∧ 1 ∈ task.context.callers))
      [.call .root pathB "other" false, .fnReturns, .call .root pathA "outer" false, .fnReturns,
        .call (.writer 1 pathA .root .root) pathB "nested" false, .writerEnds 0 (.ok "other"),
        .drainResumes 0, .fnReturns,
        .call (.writer 2 pathB .root (.writer 1 pathA .root .root)) pathA "inner" true]
      (by decide +kernel)
    exact ⟨s, hs, of_decide_eq_true h⟩
  · obtain ⟨s, hs, h⟩ := @TransitionSystem.exists_reachable_of_exec _ _ (machine String String)
      (fun s => decide (s.Running pathA 2 ∧ ∃ e ∈ s.direct, e.key = pathA ∧ 2 ∉ e.context.callers))
      [.call .root pathA "outer" false, .fnReturns, .call firstWriter pathA "inner" true,
        .call .root pathA "next" false, .writerEnds 0 (.ok "outer"), .drainResumes 0]
      (by decide +kernel)
    exact ⟨s, hs, of_decide_eq_true h⟩

end Flashclaw.StoreWriter
