import Flashclaw.GatewayAdmission.State

/-!
# Gateway work admission: the fences

The three fences, the restart drain, the restart signal and the suspension,
close admission independently.  Generations only grow, so a superseded lease
stays inert; an unreleased admission is in the active set, so with the set
empty there is no live parent left to continue from.
-/

namespace Flashclaw.GatewayAdmission

namespace State

variable (s : State)

/-- The fences of two states, as far as a step may move them. -/
structure FencesKept (s s' : State) : Prop where
  suspend : s.suspendGeneration ≤ s'.suspendGeneration
  signal : s.restartSignalGeneration ≤ s'.restartSignalGeneration
  draining : s.restartDraining = true → s'.restartDraining = true

variable {s} in
theorem FencesKept.trans {s' s'' : State} (h : FencesKept s s') (h' : FencesKept s' s'') :
    FencesKept s s'' :=
  ⟨h.suspend.trans h'.suspend, h.signal.trans h'.signal, fun hd => h'.draining (h.draining hd)⟩

theorem fencesKept_release (handle : ℕ) : FencesKept s (s.release handle) := by
  unfold release
  simp only
  split_ifs <;> exact ⟨le_rfl, le_rfl, id⟩

theorem fencesKept_clearRestartSignalFence : FencesKept s s.clearRestartSignalFence.1 := by
  unfold clearRestartSignalFence
  split_ifs
  · exact ⟨le_rfl, le_rfl, id⟩
  · exact ⟨le_rfl, Nat.le_succ _, id⟩

theorem fencesKept_invalidate (frame : Frame) :
    FencesKept s (s.invalidateSuspendAdmission frame) := by
  unfold invalidateSuspendAdmission
  simp only
  split_ifs <;> exact ⟨Nat.le_succ _, le_rfl, id⟩

theorem fencesKept_independentRoot :
    FencesKept s s.tryBeginGatewayIndependentRootWorkAdmission.1 := by
  unfold tryBeginGatewayIndependentRootWorkAdmission
  split_ifs <;> exact ⟨le_rfl, le_rfl, id⟩

theorem fencesKept_root (current : Option ℕ) :
    FencesKept s (s.tryBeginGatewayRootWorkAdmission current).1 := by
  unfold tryBeginGatewayRootWorkAdmission
  split_ifs
  · exact ⟨le_rfl, le_rfl, id⟩
  · exact s.fencesKept_independentRoot

theorem fencesKept_attempt (a : Attempt) : FencesKept s (s.attempt a).1 := by
  cases a with
  | rootWorkWhenOpen current =>
    have h := s.fencesKept_root current
    simp only [attempt]
    split_ifs
    · exact ⟨le_rfl, le_rfl, id⟩
    · split
      · exact ⟨le_rfl, le_rfl, id⟩
      · exact h
  | independentRootWork =>
    have h := s.fencesKept_independentRoot
    simp only [attempt]
    split_ifs
    · exact ⟨le_rfl, le_rfl, id⟩
    · split
      · exact ⟨le_rfl, le_rfl, id⟩
      · exact h

theorem fencesKept_transition (generation : ℕ) (expected next : SuspendPhase) :
    FencesKept s (s.transition generation expected next).1 := by
  unfold transition
  simp only
  split_ifs <;> exact ⟨le_rfl, le_rfl, id⟩

theorem fencesKept_perform (current : Option ℕ) (c : Call) (hc : c ≠ .resetGatewayWorkAdmission) :
    FencesKept s (s.perform current c).1 := by
  cases c with
  | markGatewayRestartDraining =>
    simp only [perform, markGatewayRestartDraining]
    split_ifs
    · exact ⟨le_rfl, le_rfl, id⟩
    · refine FencesKept.trans ?_ (fencesKept_invalidate _ _)
      exact ⟨le_rfl, Nat.le_succ _, fun _ => rfl⟩
    · exact ⟨le_rfl, Nat.le_succ _, fun _ => rfl⟩
  | beginGatewayRestartSignalAdmission =>
    simp only [perform, beginGatewayRestartSignalAdmission]
    split_ifs
    · exact ⟨le_rfl, le_rfl, id⟩
    · exact ⟨le_rfl, Nat.le_succ _, id⟩
  | restartSignalRollback generation =>
    simp only [perform, restartSignalRollback]
    split_ifs
    · exact ⟨le_rfl, le_rfl, id⟩
    · exact s.fencesKept_clearRestartSignalFence
  | rollbackGatewayRestartSignalFence => exact s.fencesKept_clearRestartSignalFence
  | tryBeginGatewayRootWorkAdmission => exact s.fencesKept_root current
  | beginGatewayRootWorkAdmissionWhenOpen => exact s.fencesKept_attempt _
  | runWithGatewayIndependentRootWorkAdmission => exact s.fencesKept_attempt _
  | runWithGatewayIndependentRootWorkContinuation =>
    simp only [perform, runWithGatewayIndependentRootWorkContinuation]
    split_ifs
    · exact ⟨le_rfl, le_rfl, id⟩
    · exact s.fencesKept_attempt _
  | retainGatewayRootWorkAdmissionContinuation =>
    simp only [perform, retainGatewayRootWorkAdmissionContinuation]
    split <;> exact ⟨le_rfl, le_rfl, id⟩
  | release handle => exact s.fencesKept_release handle
  | waitForActiveGatewayRootWork timeoutIsZero =>
    simp only [perform, waitForActiveGatewayRootWork]
    split_ifs <;> exact ⟨le_rfl, le_rfl, id⟩
  | tryBeginGatewaySuspendAdmission =>
    simp only [perform, tryBeginGatewaySuspendAdmission]
    split_ifs
    · exact ⟨le_rfl, le_rfl, id⟩
    · exact ⟨Nat.le_succ _, le_rfl, id⟩
  | suspendCommit generation => exact s.fencesKept_transition generation _ _
  | suspendRollback generation => exact s.fencesKept_transition generation _ _
  | suspendRelease generation => exact s.fencesKept_transition generation _ _
  | resetGatewayWorkAdmission => exact absurd rfl hc

/-- A reset lifts the drain, and supersedes every lease. -/
theorem resetGatewayWorkAdmission_generations :
    s.suspendGeneration < s.resetGatewayWorkAdmission.suspendGeneration ∧
      s.restartSignalGeneration < s.resetGatewayWorkAdmission.restartSignalGeneration := by
  unfold resetGatewayWorkAdmission invalidateSuspendAdmission
  simp only
  split_ifs <;> exact ⟨Nat.lt_succ_self _, Nat.lt_succ_self _⟩

variable {s} in
theorem fencesKept_step {s' : State} {l : Label} (h : machine.step s l = some s')
    (hl : ∀ current, l ≠ .call current .resetGatewayWorkAdmission) : FencesKept s s' := by
  change s.step l = some s' at h
  cases l with
  | call current c =>
    cases h
    exact s.fencesKept_perform current c fun hc => hl current (by rw [hc])
  | retry waiter =>
    simp only [step] at h
    split_ifs at h
    cases h
    refine FencesKept.trans ?_ (fencesKept_attempt _ _)
    exact ⟨le_rfl, le_rfl, id⟩
  | drainTimeout id =>
    simp only [step] at h
    split_ifs at h
    cases h
    exact ⟨le_rfl, le_rfl, fun h => h⟩
  | callbackReturn throws =>
    simp only [step] at h
    split at h
    · cases h
    · split_ifs at h <;> cases h <;> exact ⟨le_rfl, le_rfl, id⟩

variable {s} in
theorem generations_step {s' : State} {l : Label} (h : machine.step s l = some s') :
    s.suspendGeneration ≤ s'.suspendGeneration ∧
      s.restartSignalGeneration ≤ s'.restartSignalGeneration := by
  by_cases hl : ∃ current, l = .call current .resetGatewayWorkAdmission
  · obtain ⟨current, rfl⟩ := hl
    cases h
    obtain ⟨h1, h2⟩ := s.resetGatewayWorkAdmission_generations
    exact ⟨h1.le, h2.le⟩
  · have hk := fencesKept_step h fun current hc => hl ⟨current, hc⟩
    exact ⟨hk.suspend, hk.signal⟩

variable {s} in
theorem generations_exec {s' : State} {ls : List Label} (h : machine.exec s ls = some s') :
    s.suspendGeneration ≤ s'.suspendGeneration ∧
      s.restartSignalGeneration ≤ s'.restartSignalGeneration := by
  induction ls generalizing s with
  | nil => cases h; exact ⟨le_rfl, le_rfl⟩
  | cons l ls ih =>
    obtain ⟨t, ht, h'⟩ := Option.bind_eq_some_iff.mp h
    obtain ⟨h1, h2⟩ := generations_step ht
    obtain ⟨h3, h4⟩ := ih h'
    exact ⟨h1.trans h3, h2.trans h4⟩

/-- A call of `runWithGatewayIndependentRootWorkContinuation` under a live parent. -/
def ContinuedUnderLiveParent (l : Label) : Prop := ∃ parent,
  l = .call (some parent) .runWithGatewayIndependentRootWorkContinuation ∧
    (s.admission parent).released = false

/-- What a step does to the roots. -/
inductive RootMove (l : Label) (s' : State) : Prop
  | keep (ha : s'.admission = s.admission) (hr : s'.activeRootWork = s.activeRootWork)
  /-- A root is retained, or one of several references to it given back. -/
  | count (a : ℕ) (references : ℤ) (ha : s'.admission =
        Function.update s.admission a { s.admission a with references })
      (hr : s'.activeRootWork = s.activeRootWork)
  | join (ha : s'.admission = Function.update s.admission s.nextAdmission ⟨1, false⟩)
      (hr : s'.activeRootWork = insert s.nextAdmission s.activeRootWork)
      (why : s.isGatewayWorkAdmissionClosed = false ∨ s.ContinuedUnderLiveParent l)
  | retire (a : ℕ) (references : ℤ)
      (ha : s'.admission = Function.update s.admission a ⟨references, true⟩)
      (hr : s'.activeRootWork = s.activeRootWork.erase a)
  | reset (ha : s'.admission =
        fun a => if a ∈ s.activeRootWork then ⟨0, true⟩ else s.admission a)
      (hr : s'.activeRootWork = ∅)

theorem rootMove_release (l : Label) (handle : ℕ) : RootMove s l (s.release handle) := by
  unfold release
  simp only
  split_ifs
  · exact .keep rfl rfl
  · exact .count _ _ rfl rfl
  · exact .retire _ _ rfl rfl
  · exact .retire _ _ rfl rfl

theorem rootMove_independentRoot (l : Label) :
    RootMove s l s.tryBeginGatewayIndependentRootWorkAdmission.1 := by
  unfold tryBeginGatewayIndependentRootWorkAdmission
  split_ifs with h
  · exact .keep rfl rfl
  · exact .join rfl rfl (.inl (by simpa using h))

theorem rootMove_root (l : Label) (current : Option ℕ) :
    RootMove s l (s.tryBeginGatewayRootWorkAdmission current).1 := by
  unfold tryBeginGatewayRootWorkAdmission
  split_ifs
  · exact .keep rfl rfl
  · exact s.rootMove_independentRoot l

theorem rootMove_attempt (l : Label) (a : Attempt) : RootMove s l (s.attempt a).1 := by
  cases a with
  | rootWorkWhenOpen current =>
    have h := s.rootMove_root l current
    simp only [attempt]
    split_ifs
    · exact .keep rfl rfl
    · split
      · exact .keep rfl rfl
      · exact h
  | independentRootWork =>
    have h := s.rootMove_independentRoot l
    simp only [attempt]
    split_ifs
    · exact .keep rfl rfl
    · split
      · exact .keep rfl rfl
      · exact h

theorem rootMove_clearRestartSignalFence (l : Label) :
    RootMove s l s.clearRestartSignalFence.1 := by
  unfold clearRestartSignalFence
  split_ifs <;> exact .keep rfl rfl

theorem rootMove_transition (l : Label) (generation : ℕ) (expected next : SuspendPhase) :
    RootMove s l (s.transition generation expected next).1 := by
  unfold transition
  simp only
  split_ifs <;> exact .keep rfl rfl

theorem live_eq_some {current : Option ℕ} {a : ℕ} :
    s.live current = some a ↔ current = some a ∧ (s.admission a).released = false := by
  simp [live, Option.filter_eq_some_iff]

theorem rootMove_perform (current : Option ℕ) (c : Call) :
    RootMove s (.call current c) (s.perform current c).1 := by
  cases c with
  | markGatewayRestartDraining =>
    simp only [perform, markGatewayRestartDraining, invalidateSuspendAdmission]
    split_ifs <;> exact .keep rfl rfl
  | beginGatewayRestartSignalAdmission =>
    simp only [perform, beginGatewayRestartSignalAdmission]
    split_ifs <;> exact .keep rfl rfl
  | restartSignalRollback generation =>
    simp only [perform, restartSignalRollback]
    split_ifs
    · exact .keep rfl rfl
    · exact s.rootMove_clearRestartSignalFence _
  | rollbackGatewayRestartSignalFence => exact s.rootMove_clearRestartSignalFence _
  | tryBeginGatewayRootWorkAdmission => exact s.rootMove_root _ current
  | beginGatewayRootWorkAdmissionWhenOpen => exact s.rootMove_attempt _ _
  | runWithGatewayIndependentRootWorkAdmission => exact s.rootMove_attempt _ _
  | runWithGatewayIndependentRootWorkContinuation =>
    simp only [perform, runWithGatewayIndependentRootWorkContinuation]
    split_ifs with h
    · obtain ⟨parent, hp⟩ := Option.isSome_iff_exists.mp h
      obtain ⟨rfl, hlive⟩ := s.live_eq_some.mp hp
      exact .join rfl rfl (.inr ⟨parent, rfl, hlive⟩)
    · exact s.rootMove_attempt _ _
  | retainGatewayRootWorkAdmissionContinuation =>
    simp only [perform, retainGatewayRootWorkAdmissionContinuation]
    split
    · exact .keep rfl rfl
    · exact .count _ _ rfl rfl
  | release handle => exact s.rootMove_release _ handle
  | waitForActiveGatewayRootWork timeoutIsZero =>
    simp only [perform, waitForActiveGatewayRootWork]
    split_ifs <;> exact .keep rfl rfl
  | tryBeginGatewaySuspendAdmission =>
    simp only [perform, tryBeginGatewaySuspendAdmission]
    split_ifs <;> exact .keep rfl rfl
  | suspendCommit generation => exact s.rootMove_transition _ generation _ _
  | suspendRollback generation => exact s.rootMove_transition _ generation _ _
  | suspendRelease generation => exact s.rootMove_transition _ generation _ _
  | resetGatewayWorkAdmission =>
    simp only [perform, resetGatewayWorkAdmission, invalidateSuspendAdmission]
    split_ifs <;> exact .reset rfl rfl

variable {s}

theorem rootMove_step {s' : State} {l : Label} (h : machine.step s l = some s') :
    RootMove s l s' := by
  change s.step l = some s' at h
  cases l with
  | call current c =>
    cases h
    exact s.rootMove_perform current c
  | retry waiter =>
    simp only [step] at h
    split_ifs at h
    cases h
    cases rootMove_attempt { s with woken := s.woken.erase waiter } (.retry waiter)
        waiter.attempt with
    | keep ha hr => exact .keep ha hr
    | count a r ha hr => exact .count a r ha hr
    | join ha hr why => exact .join ha hr why
    | retire a r ha hr => exact .retire a r ha hr
    | reset ha hr => exact .reset ha hr
  | drainTimeout id =>
    simp only [step] at h
    split_ifs at h
    cases h
    exact .keep rfl rfl
  | callbackReturn throws =>
    simp only [step] at h
    split at h
    · cases h
    · split_ifs at h <;> cases h <;> exact .keep rfl rfl

end State

/-- The active set holds exactly the unreleased admissions. -/
def Tracked (s : State) : Prop :=
  ∀ a, (s.admission a).released = false ↔ a ∈ s.activeRootWork

theorem tracked_initial : Tracked .initial := by
  simp [Tracked, State.initial]

theorem tracked_step {s s' : State} {l : Label} (inv : Tracked s)
    (h : machine.step s l = some s') : Tracked s' := by
  intro a
  have ha := inv a
  cases State.rootMove_step h with
  | keep ha' hr => rw [ha', hr, ha]
  | count b r ha' hr =>
    rw [ha', hr, ← ha]
    by_cases hab : a = b
    · subst hab; simp
    · rw [Function.update_of_ne hab]
  | join ha' hr why =>
    rw [ha', hr, Finset.mem_insert, ← ha]
    by_cases hab : a = s.nextAdmission
    · simp [hab]
    · simp [hab]
  | retire b r ha' hr =>
    rw [ha', hr, Finset.mem_erase, ← ha]
    by_cases hab : a = b
    · simp [hab]
    · simp [hab]
  | reset ha' hr =>
    rw [ha', hr]
    by_cases hm : a ∈ s.activeRootWork
    · simp [hm]
    · simpa [hm] using ha.not.mpr hm

theorem tracked_reachable {s : State} (h : machine.Reachable s) : Tracked s :=
  h.invariant tracked_initial fun _ _ _ => tracked_step

/-- A new root needs open admission or a live parent, which is itself a root. -/
theorem admitted_by {s s' : State} {l : Label} (inv : Tracked s) (h : machine.step s l = some s')
    {a : ℕ} (hnew : a ∈ s'.activeRootWork) (hold : a ∉ s.activeRootWork) :
    s.isGatewayWorkAdmissionClosed = false ∨
      s.ContinuedUnderLiveParent l ∧ s.activeRootWork.Nonempty := by
  cases State.rootMove_step h with
  | keep _ hr => exact absurd (hr ▸ hnew) hold
  | count _ _ _ hr => exact absurd (hr ▸ hnew) hold
  | join _ _ why =>
    refine why.imp_right fun hc => ⟨hc, ?_⟩
    obtain ⟨parent, -, hlive⟩ := hc
    exact ⟨parent, (inv parent).mp hlive⟩
  | retire b _ _ hr => exact absurd (Finset.mem_of_mem_erase (hr ▸ hnew)) hold
  | reset _ hr => exact absurd (hr ▸ hnew) (Finset.notMem_empty a)

/-- Closed admission without a root stays without one for as long as it stays closed. -/
theorem quiescent_step {s s' : State} {l : Label} (inv : Tracked s)
    (h : machine.step s l = some s') (hc : s.isGatewayWorkAdmissionClosed = true)
    (h0 : s.activeRootWork = ∅) : s'.activeRootWork = ∅ := by
  refine Finset.eq_empty_of_forall_notMem fun a ha => ?_
  rcases admitted_by inv h ha (by simp [h0]) with hopen | ⟨-, hroot⟩
  · rw [hc] at hopen
    cases hopen
  · rw [h0] at hroot
    exact Finset.not_nonempty_empty hroot

theorem quiescent_exec {s s' : State} {ls : List Label} (inv : Tracked s)
    (h : machine.execOk (fun s _ => s.isGatewayWorkAdmissionClosed) s ls = some s')
    (h0 : s.activeRootWork = ∅) : s'.activeRootWork = ∅ := by
  induction ls generalizing s with
  | nil => cases h; exact h0
  | cons l ls ih =>
    simp only [TransitionSystem.execOk] at h
    split_ifs at h with hc
    obtain ⟨t, ht, h'⟩ := Option.bind_eq_some_iff.mp h
    exact ih (tracked_step inv ht) h' (quiescent_step inv ht hc h0)

theorem transition_stale {s : State} {generation : ℕ} (h : generation < s.suspendGeneration)
    (expected next : SuspendPhase) :
    s.transition generation expected next = (s, .bool false) := by
  simp [State.transition, h.ne']

theorem restartSignalRollback_stale {s : State} {generation : ℕ}
    (h : generation < s.restartSignalGeneration) :
    s.restartSignalRollback generation = (s, .bool false) := by
  simp [State.restartSignalRollback, h.ne']

/-- What the fences promise the owners of leases and roots.  A lease is superseded once the
generation is above its own. -/
structure FencesHold (s : State) : Prop where
  suspendLease : ∀ current generation,
    (s.perform current .tryBeginGatewaySuspendAdmission).2 = .suspendLease generation →
      s.suspendGeneration < generation ∧ generation =
        (s.perform current .tryBeginGatewaySuspendAdmission).1.suspendGeneration
  signalLease : ∀ current generation,
    (s.perform current .beginGatewayRestartSignalAdmission).2 = .restartSignalLease generation →
      s.restartSignalGeneration < generation ∧ generation =
        (s.perform current .beginGatewayRestartSignalAdmission).1.restartSignalGeneration
  staleSuspend : ∀ generation < s.suspendGeneration, ∀ ls s', machine.exec s ls = some s' →
    ∀ current, ∀ c ∈ [Call.suspendCommit generation, .suspendRollback generation,
      .suspendRelease generation], s'.perform current c = (s', .bool false)
  staleSignal : ∀ generation < s.restartSignalGeneration, ∀ ls s', machine.exec s ls = some s' →
    ∀ current, s'.perform current (.restartSignalRollback generation) = (s', .bool false)
  drainStays : s.restartDraining = true → ∀ l s', machine.step s l = some s' →
    s'.restartDraining = false → ∃ current, l = .call current .resetGatewayWorkAdmission
  quiescent : s.activeRootWork = ∅ → ∀ ls s',
    machine.execOk (fun s _ => s.isGatewayWorkAdmissionClosed) s ls = some s' →
      s'.activeRootWork = ∅
  onlyContinuations : s.isGatewayWorkAdmissionClosed = true → ∀ l s',
    machine.step s l = some s' → ∀ a ∈ s'.activeRootWork, a ∉ s.activeRootWork →
      s.ContinuedUnderLiveParent l

/-- Stale leases are inert for good, only a reset lifts the drain, and closed admission gains no
root except by a continuation under a live one. -/
theorem fences_hold {s : State} (h : machine.Reachable s) : FencesHold s := by
  have inv := tracked_reachable h
  constructor
  case suspendLease =>
    intro current generation hr
    simp only [State.perform, State.tryBeginGatewaySuspendAdmission] at hr ⊢
    split_ifs at hr ⊢
    cases hr
    exact ⟨Nat.lt_succ_self _, rfl⟩
  case signalLease =>
    intro current generation hr
    simp only [State.perform, State.beginGatewayRestartSignalAdmission] at hr ⊢
    split_ifs at hr ⊢
    cases hr
    exact ⟨Nat.lt_succ_self _, rfl⟩
  case staleSuspend =>
    intro generation hg ls s' he current c hc
    have hlt := hg.trans_le (State.generations_exec he).1
    simp only [List.mem_cons, List.not_mem_nil, or_false] at hc
    rcases hc with rfl | rfl | rfl <;> exact transition_stale hlt _ _
  case staleSignal =>
    intro generation hg ls s' he current
    exact restartSignalRollback_stale (hg.trans_le (State.generations_exec he).2)
  case drainStays =>
    intro hd l s' hs hcleared
    by_contra hl
    rw [(State.fencesKept_step hs fun current hc => hl ⟨current, hc⟩).draining hd] at hcleared
    cases hcleared
  case quiescent => exact fun h0 ls s' he => quiescent_exec inv he h0
  case onlyContinuations =>
    intro hc l s' hs a hnew hold
    refine ((admitted_by inv hs hnew hold).resolve_left ?_).1
    rw [hc]
    exact Bool.noConfusion

/-- A suspension taken back and another begun, under which a root continues. -/
def secondSuspension : List Label := [
  .call none .tryBeginGatewayRootWorkAdmission, .call none .tryBeginGatewaySuspendAdmission,
  .call none (.suspendRollback 1), .call none .tryBeginGatewaySuspendAdmission,
  .call (some 0) .runWithGatewayIndependentRootWorkContinuation]

theorem fences_hold_secondSuspension : ∃ s,
    machine.exec machine.start secondSuspension = some s ∧ FencesHold s := by
  obtain ⟨s, h⟩ := Option.isSome_iff_exists.mp
    (by decide : (machine.exec machine.start secondSuspension).isSome = true)
  exact ⟨s, h, fences_hold (.exec .start h)⟩

end Flashclaw.GatewayAdmission
