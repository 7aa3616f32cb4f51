import Mathlib.Data.Finset.Card
import Mathlib.Data.List.Perm.Subperm
import Flashclaw.StoreWriter.Steps

/-!
# The store writer queue: what goes on

A writer that ended is settled by its drain loop, which then starts the next
write of its path, and a reentrant call is settled when its function is.  Each
step that is no call leaves less to do, and where nothing is left every call is
settled.
-/

namespace Flashclaw.StoreWriter

variable {ε τ : Type} {s s' : Runtime ε τ} {n ref : ℕ} {key : StoreKey}

/-- The writer of the call is between its start and its end. -/
def Runtime.Running (s : Runtime ε τ) (key : StoreKey) (call : ℕ) : Prop :=
  call ∈ s.active ∧ (call, key) ∈ s.started

instance (s : Runtime ε τ) (key : StoreKey) (call : ℕ) : Decidable (s.Running key call) :=
  inferInstanceAs (Decidable (_ ∧ _))

/-- What is left to do before every call is settled: a call starts, and its writer's function gives
back a promise, ends and is settled. -/
def Runtime.work (s : Runtime ε τ) : ℕ :=
  3 * (s.nextCall - s.settled.length) + s.active.card + s.stack.length

def Label.isCall : Label ε τ → Bool
  | .call .. => true
  | _ => false

/-- The drain loop of the path starts the next write that is pending.  With none it is over, and
the path has no queue any more. -/
def Continues (s : Runtime ε τ) (key : StoreKey) (s' : Runtime ε τ) : Prop :=
  match s.pendingOf key with
  | [] => s'.queues key = none ∧ s'.started = s.started ∧ ∀ d ∈ s'.drains, d.key ≠ key
  | task :: pending =>
    s'.pendingOf key = pending ∧ s'.started = s.started ++ [(task.call, key)] ∧
      s'.Running key task.call ∧ ∃ d ∈ s'.drains, d.key = key ∧ d.task = task

/-- What a state goes on with. -/
structure Progress (s : Runtime ε τ) : Prop where
  /-- A function on the stack gives back its promise, or throws. -/
  returns : ∀ frame stack, s.stack = frame :: stack →
    (∃ s', step s .fnReturns = some s' ∧ s'.stack = stack) ∧
    ∀ reason, ∃ s', step s (.fnThrows reason) = some s' ∧ s'.stack = stack ∧
      ∃ d ∈ s'.drains, d.task.call = frame.call ∧ d.ended = some (.error reason)
  ends : s.stack = [] → ∀ call ∈ s.active, ∀ outcome,
    ∃ s', step s (.writerEnds call outcome) = some s' ∧
      ∃ d ∈ s'.drains, d.task.call = call ∧ d.ended = some outcome
  /-- The drain loop of a writer that ended settles the call, with the writer's outcome. -/
  resumes : s.stack = [] → ∀ d ∈ s.drains, ∀ outcome, d.ended = some outcome →
    ∃ s', step s (.drainResumes d.task.call) = some s' ∧
      s'.settled = s.settled ++ [(d.task.call, .outcome outcome)] ∧ Continues s d.key s'
  settles : s.stack = [] → ∀ e ∈ s.direct, ∀ outcome,
    ∃ s', step s (.directSettles e.call outcome) = some s' ∧
      s'.settled = s.settled ++ [(e.call, .outcome outcome)]
  /-- With nothing that could go on every call is settled. -/
  quiet : s.stack = [] → s.active = ∅ → s.direct = [] → (∀ d ∈ s.drains, d.ended = none) →
    ∀ call < s.nextCall, call ∈ s.settled.map Prod.fst
  lessens : ∀ l s', l.isCall = false → step s l = some s' → s'.work < s.work

theorem settled_drainLoop (s : Runtime ε τ) (ref : ℕ) (key : StoreKey) (context : Context)
    (first : Bool) : (s.drainLoop ref key context first).settled = s.settled := by
  unfold Runtime.drainLoop Runtime.finishDrain
  split
  · dsimp only
    split <;> rfl
  · rfl

/-- The loop waits for one writer more at most, whose function is on the stack. -/
theorem running_drainLoop (s : Runtime ε τ) (ref : ℕ) (key : StoreKey) (context : Context)
    (first : Bool) :
    (s.drainLoop ref key context first).active.card +
        (s.drainLoop ref key context first).stack.length ≤
      s.active.card + s.stack.length + 2 := by
  unfold Runtime.drainLoop Runtime.finishDrain
  split
  · dsimp only
    split <;> exact Nat.le_add_right _ _
  · rename_i task pending _
    have hcard := Finset.card_insert_le task.call s.active
    simp only [Runtime.startTask, Runtime.setQueue, List.length_cons]
    omega

theorem continues_drainLoop (h : Lanes (some key) s) (hqueue : s.queues key = some ref)
    (context : Context) (first : Bool) : Continues s key (s.drainLoop ref key context first) := by
  have hnone : ∀ d ∈ s.drains, d.key ≠ key :=
    fun d hd heq => (h.mapped d hd).2 (congrArg some heq.symm)
  unfold Continues Runtime.drainLoop
  rw [pendingOf_of_queue hqueue]
  cases hpending : (s.objects ref).pending with
  | nil =>
    have hfinish : ((s.setQueue ref { s.objects ref with
        running := false, drainPromise := first }).objects ref).pending = [] := by
      simpa [Runtime.setQueue] using hpending
    simp only [Runtime.finishDrain, if_pos hfinish]
    exact ⟨Function.update_self _ _ _, rfl, hnone⟩
  | cons task pending =>
    refine ⟨?_, rfl, ⟨Finset.mem_insert_self _ _, ?_⟩, ⟨ref, key, context, task, none⟩, ?_,
      rfl, rfl⟩
    · simp only [Runtime.pendingOf, Runtime.startTask, Runtime.setQueue, hqueue, Function.update_self]
    · exact List.mem_append_right _ (List.mem_singleton_self _)
    · exact List.mem_append_right _ (List.mem_singleton_self _)

theorem Ids.lt_of_place (h : Ids n s) {id : ℕ} (hplace : id ∈ s.settled.map Prod.fst ∨
    id ∈ s.drains.map (·.task.call) ∨ id ∈ s.direct.map (·.call)) : id < n := by
  by_contra hge
  have hcount := h.places id
  obtain ⟨hstarted, hqueued⟩ := h.count_started_le id
  rw [if_neg hge] at hcount hqueued
  simp only [← List.count_pos_iff] at hplace
  omega

theorem length_le_of_nodup {ids : List ℕ} (hnodup : ids.Nodup) (hlt : ∀ id ∈ ids, id < n) :
    ids.length ≤ n := by
  have hsub : ids ⊆ List.range n := fun id hid => List.mem_range.mpr (hlt id hid)
  have hle := (List.subperm_of_subset hnodup hsub).length_le
  rwa [List.length_range] at hle

/-- A call that is waited for is one more than those that are settled. -/
theorem Ids.settled_lt (h : Ids n s) {id : ℕ}
    (hplace : id ∈ s.drains.map (·.task.call) ∨ id ∈ s.direct.map (·.call)) :
    s.settled.length < n := by
  have hnot : id ∉ s.settled.map Prod.fst := by
    intro hsettled
    have hle := h.count_le_one id
    have hpos := List.count_pos_iff.mpr hsettled
    simp only [← List.count_pos_iff] at hplace
    omega
  have hle := @length_le_of_nodup n (id :: s.settled.map Prod.fst)
    (List.nodup_cons.mpr ⟨hnot, h.settled_nodup⟩) (by
      intro id' hid'
      obtain rfl | hid' := List.mem_cons.mp hid'
      · exact h.lt_of_place (.inr hplace)
      · exact h.lt_of_place (.inl hid'))
  simpa [Nat.succ_le_iff] using hle

theorem Wf.findDrain (h : Wf none n s) {d : Drain ε τ} (hd : d ∈ s.drains) :
    StoreWriter.findDrain s d.task.call = some d := by
  unfold StoreWriter.findDrain
  cases hfind : s.drains.find? fun d' => d'.task.call = d.task.call with
  | none => simpa using List.find?_eq_none.mp hfind d hd
  | some d' =>
    have hcall : d'.task.call = d.task.call := by simpa using List.find?_some hfind
    rw [h.ids.drain_unique (List.mem_of_find?_eq_some hfind) hd hcall]

theorem exists_drain_endWriter {call : ℕ} {d : Drain ε τ} (hd : d ∈ s.drains)
    (hcall : d.task.call = call) (outcome : Except ε τ) :
    ∃ d' ∈ (s.endWriter call outcome).drains, d'.task.call = call ∧ d'.ended = some outcome :=
  ⟨{ d with ended := some outcome }, List.mem_map.mpr ⟨d, hd, if_pos hcall⟩, hcall, rfl⟩

/-- The drain loop of a writer that ended settles the writer's call and goes on. -/
theorem Wf.resumes (h : Wf none n s) (hstack : s.stack = []) {d : Drain ε τ} (hd : d ∈ s.drains)
    {outcome : Except ε τ} (hended : d.ended = some outcome) :
    ∃ s', StoreWriter.step s (.drainResumes d.task.call) = some s' ∧
      s'.settled = s.settled ++ [(d.task.call, .outcome outcome)] ∧ Continues s d.key s' := by
  refine ⟨s.resumeDrain d outcome, ?_, settled_drainLoop _ _ _ _ _, ?_⟩
  · simp only [StoreWriter.step, if_pos hstack, h.findDrain hd, Option.bind_some, hended,
      Option.map_some]
  · exact continues_drainLoop (h.removeDrain hd hended).lanes (h.lanes.mapped d hd).1 d.context false

/-- Without a drain loop and a reentrant function every call is settled. -/
theorem Wf.settled_of_quiet (h : Wf none n s) (hactive : s.active = ∅) (hdirect : s.direct = [])
    (hended : ∀ d ∈ s.drains, d.ended = none) {call : ℕ} (hcall : call < n) :
    call ∈ s.settled.map Prod.fst := by
  have hdrains : ∀ d, d ∉ s.drains := by
    intro d hd
    have hmem := (h.outcomes.active d.task.call).mpr ⟨d, hd, rfl, hended d hd⟩
    rw [hactive] at hmem
    exact Finset.notMem_empty _ hmem
  obtain hplace | hplace | hplace | ⟨key, task, htask, -⟩ := h.ids.accounted hcall
  · exact hplace
  · obtain ⟨d, hd, -⟩ := List.mem_map.mp hplace
    exact absurd hd (hdrains d)
  · rw [hdirect] at hplace
    cases hplace
  · -- what is pending has a drain loop
    cases hqueue : s.queues key with
    | none =>
      rw [Runtime.pendingOf, hqueue] at htask
      cases htask
    | some ref =>
      obtain ⟨d, hd, -⟩ := (h.lanes.lane key ref hqueue (by simp)).2
      exact absurd hd (hdrains d)

theorem popFrame_fields (s : Runtime ε τ) (frame : Frame) (stack : List Frame) :
    (s.popFrame frame stack).stack = stack ∧ (s.popFrame frame stack).active = s.active ∧
      (s.popFrame frame stack).settled = s.settled ∧ (s.popFrame frame stack).drains = s.drains := by
  unfold Runtime.popFrame
  split <;> exact ⟨rfl, rfl, rfl, rfl⟩

/-- A step that is no call leaves less to do. -/
theorem Wf.lessens (h : Wf none s.nextCall s) {l : Label ε τ} (hcall : l.isCall = false)
    (hs : StoreWriter.step s l = some s') : s'.work < s.work := by
  cases l with
  | call => cases hcall
  | fnReturns =>
    simp only [StoreWriter.step] at hs
    split at hs
    · cases hs
    · rename_i frame stack hstack
      obtain rfl := Option.some.inj hs
      obtain ⟨hstack', hactive, hsettled, -⟩ := popFrame_fields s frame stack
      simp only [Runtime.work, nextCall_popFrame, hstack', hactive, hsettled, hstack,
        List.length_cons]
      omega
  | fnThrows reason =>
    simp only [StoreWriter.step] at hs
    split at hs
    · cases hs
    · rename_i frame stack hstack
      obtain rfl := Option.some.inj hs
      obtain ⟨hstack', hactive, hsettled, -⟩ := popFrame_fields s frame stack
      have hcard := Finset.card_erase_le (s := s.active) (a := frame.call)
      simp only [Runtime.work, Runtime.endWriter, nextCall_popFrame, hstack', hactive, hsettled,
        hstack, List.length_cons]
      omega
  | writerEnds call outcome =>
    simp only [StoreWriter.step] at hs
    split at hs
    · rename_i hrunning
      obtain rfl := Option.some.inj hs
      have hcard := Finset.card_erase_lt_of_mem hrunning.2
      simp only [Runtime.work, Runtime.endWriter]
      omega
    · cases hs
  | drainResumes call =>
    simp only [StoreWriter.step] at hs
    split at hs
    · obtain ⟨d, hfind, hs⟩ := Option.bind_eq_some_iff.mp hs
      obtain ⟨outcome, -, rfl⟩ := Option.map_eq_some_iff.mp hs
      -- one call more is settled, and the loop starts at most one task
      have hlt := h.ids.settled_lt (.inl (List.mem_map_of_mem (List.mem_of_find?_eq_some hfind)))
      have hrunning := running_drainLoop (Runtime.settle
        { s with drains := s.drains.eraseP fun d' => d'.task.call = d.task.call } d.task.call
        (.outcome outcome)) d.queue d.key d.context false
      simp only [Runtime.work, Runtime.resumeDrain, nextCall_drainLoop, settled_drainLoop,
        Runtime.settle, List.length_append, List.length_singleton] at hrunning ⊢
      omega
    · cases hs
  | directSettles call outcome =>
    simp only [StoreWriter.step] at hs
    split at hs
    · rename_i hdirect
      obtain rfl := Option.some.inj hs
      obtain ⟨e, he, hcall⟩ := List.any_eq_true.mp hdirect.2
      have hlt := h.ids.settled_lt (.inr (List.mem_map_of_mem he))
      simp only [Runtime.work, Runtime.settleDirect, List.length_append, List.length_singleton]
      omega
    · cases hs
  | microtask =>
    simp only [StoreWriter.step, h.microtasks] at hs
    split at hs <;> cases hs

theorem Wf.progress (h : Wf none s.nextCall s) : Progress s := by
  constructor
  · intro frame stack hstack
    obtain ⟨hstack', -, -, hdrains⟩ := popFrame_fields s frame stack
    refine ⟨⟨s.popFrame frame stack, ?_, hstack'⟩, ?_⟩
    · simp only [StoreWriter.step, hstack]
    · intro reason
      refine ⟨(s.popFrame frame stack).endWriter frame.call (.error reason), ?_, hstack', ?_⟩
      · simp only [StoreWriter.step, hstack]
      · have hactive := h.frames.active frame (hstack ▸ List.mem_cons_self)
        obtain ⟨d, hd, hcall, -⟩ := (h.outcomes.active frame.call).mp hactive
        exact exists_drain_endWriter (hdrains ▸ hd) hcall _
  · intro hstack call hactive outcome
    obtain ⟨d, hd, hcall, -⟩ := (h.outcomes.active call).mp hactive
    exact ⟨s.endWriter call outcome, if_pos ⟨hstack, hactive⟩, exists_drain_endWriter hd hcall _⟩
  · intro hstack d hd outcome hended
    exact h.resumes hstack hd hended
  · intro hstack e he outcome
    refine ⟨s.settleDirect e.call outcome, if_pos ⟨hstack, ?_⟩, rfl⟩
    exact List.any_eq_true.mpr ⟨e, he, by simp⟩
  · intro _ hactive hdirect hended call hcall
    exact h.settled_of_quiet hactive hdirect hended hcall
  · intro l s' hcall hs
    exact h.lessens hcall hs

/-- A run goes on without a call for as long as there is work. -/
theorem length_le_work {ls ls' : List (Label ε τ)} {t : Runtime ε τ}
    (run : (machine ε τ).Run StepOk ls s) (run' : (machine ε τ).Run StepOk (ls ++ ls') t)
    (hcall : ∀ l ∈ ls', l.isCall = false) : ls'.length + t.work ≤ s.work := by
  induction ls' using List.reverseRecOn generalizing t with
  | nil =>
    rw [List.append_nil] at run'
    obtain rfl : s = t := Option.some.inj (run.exec.symm.trans run'.exec)
    simp
  | append_singleton ls' l ih =>
    rw [← List.append_assoc] at run'
    obtain ⟨u, runs, -, hs⟩ := run'.of_concat
    have hle := ih runs fun l hl => hcall l (List.mem_append_left _ hl)
    have hlast := hcall l (List.mem_append_right _ (List.mem_singleton_self _))
    have hlt := (wf_of_run runs).lessens hlast hs
    simp only [List.length_append, List.length_singleton]
    omega

end Flashclaw.StoreWriter
