import Flashclaw.StateLease.Machine

/-!
# State leases: what a step does

One lemma for the table, one for the other calls, and one for each stage of a call:
from where a step gets there.
-/

namespace Flashclaw.StateLease

/-- How far a call has come. -/
inductive Stage where
  | outside
  | waiting
  | inside
  | returning
  | failing
deriving DecidableEq

/-- `waiting` has acquired the lease, `inside` has entered the callback, and `returning` has passed
the check behind it. -/
def Phase.stage : Phase → Stage
  | .idle | .acquiring _ | .tryAcquire _ _ | .missed _ => .outside
  | .acquired _ | .entering | .checking .entry _ => .waiting
  | .running | .checking .operation _ | .renew _ | .finishing | .checking .final _ => .inside
  | .releasing (.outcome .value) _ | .release (.outcome .value) _ | .settling (.outcome .value) =>
    .returning
  | .settled .value => .returning
  | _ => .failing

namespace Call

variable {call : Call}

@[simp] theorem setPhase_phase (phase : Phase) : (call.setPhase phase).phase = phase := rfl

@[simp] theorem startRelease_phase (elapsed : ℕ) (ending : Ending) :
    (call.startRelease elapsed ending).phase =
      .releasing ending (elapsed + RELEASE_RETRY_TIMEOUT_MS) :=
  rfl

end Call

namespace State

variable {ο : Type} [DecidableEq ο] {options : ο → LeaseOptions} {s s' : State ο} {owner : ο}

@[simp] theorem setCall_self (call : Call) : (s.setCall owner call).call owner = call :=
  Function.update_self _ _ _

@[simp] theorem setCall_ne {other : ο} (h : other ≠ owner) (call : Call) :
    (s.setCall owner call).call other = s.call other :=
  Function.update_of_ne h _ _

theorem lock_eq_some {phase : Phase} (h : s.lock owner phase = some s') :
    s' = { s.setCall owner ((s.call owner).setPhase phase) with writer := some owner } := by
  unfold lock at h
  split_ifs at h
  exact (Option.some.inj h).symm

/-- The step by which a call acquires its lease. -/
def Acquires (options : ο → LeaseOptions) (s : State ο) (owner : ο) (action : Action) : Prop :=
  action = .commit ∧ ∃ deadline now, (s.call owner).phase = .tryAcquire deadline now ∧
    (StateLease.tryAcquire (identity options owner) (options owner).leaseMs now
      s.table).2.isSome = true

/-- What a step of a call writes: nothing, an acquisition, a renewal or a release. -/
inductive Writes (options : ο → LeaseOptions) (s : State ο) (owner : ο) (action : Action)
    (table : Table ο) : Prop where
  | nothing (h : table = s.table)
  | acquire (deadline now : ℕ) (haction : action = .commit)
    (hphase : (s.call owner).phase = .tryAcquire deadline now)
    (h : table =
      (tryAcquire (identity options owner) (options owner).leaseMs now s.table).1)
  | renew (now expiresAt : ℕ) (haction : action = .commit)
    (hphase : (s.call owner).phase = .renew now)
    (h : StateLease.renew (identity options owner) (options owner).leaseMs now s.table =
      some (table, expiresAt))
  | release (ending : Ending) (deadline : ℕ) (haction : action = .commit)
    (hphase : (s.call owner).phase = .release ending deadline)
    (h : table = StateLease.release (identity options owner) s.table)

theorem act_writes {action : Action} (h : s.act options owner action = some s') :
    Writes options s owner action s'.table := by
  unfold act at h
  dsimp only at h
  split at h
  case h_2 =>
    apply Writes.nothing
    unfold beginAcquire at h
    split_ifs at h
    · cases h
      rfl
    · rw [lock_eq_some h]
      rfl
  case h_3 | h_4 =>
    rw [lock_eq_some h]
    exact .nothing rfl
  case h_5 deadline now hphase =>
    cases h
    exact .acquire deadline now rfl hphase rfl
  case h_6 now hphase =>
    cases h
    unfold commitRenew
    split
    · rename_i table expiresAt hrenew
      exact .renew now expiresAt rfl hphase hrenew
    · exact .nothing rfl
  case h_7 ending deadline hphase =>
    cases h
    exact .release ending deadline rfl hphase rfl
  all_goals
    cases h <;> exact .nothing rfl

theorem act_other {action : Action} (h : s.act options owner action = some s') {other : ο}
    (hother : other ≠ owner) : s'.call other = s.call other := by
  unfold act at h
  dsimp only at h
  split at h
  case h_2 =>
    unfold beginAcquire at h
    split_ifs at h
    · cases h
      exact setCall_ne hother _
    · rw [lock_eq_some h]
      exact setCall_ne hother _
  case h_3 | h_4 =>
    rw [lock_eq_some h]
    exact setCall_ne hother _
  case h_6 =>
    cases h
    unfold commitRenew
    split <;> exact setCall_ne hother _
  all_goals
    cases h <;> exact setCall_ne hother _

/-- How a step of a call gets from a phase to the next one. -/
inductive Moves (options : ο → LeaseOptions) (s : State ο) (owner : ο) (action : Action)
    (p p' : Phase) : Prop where
  | failing (h : p'.stage = .failing)
  | outside (h : p'.stage = .outside)
  | same (h : p' = p)
  | within (h : p'.stage = p.stage) (hcheck : ∀ check now, p' ≠ .checking check now)
  | acquired (hacquires : Acquires options s owner action) (deadline : ℕ)
    (h : p' = .acquired deadline)
  | checking (check : Check) (haction : action = .check) (hstage : p'.stage = p.stage)
    (h : p' = .checking check s.clock)
  | entered (now : ℕ) (haction : action = .read false) (hphase : p = .checking .entry now)
    (howned : leaseOwned (identity options owner) now s.table = true) (h : p' = .running)
  | verified (now : ℕ) (haction : action = .read false) (hphase : p = .checking .final now)
    (howned : leaseOwned (identity options owner) now s.table = true)
    (h : p'.stage = .returning) (hcheck : ∀ check now, p' ≠ .checking check now)

section Moves

variable {action : Action} {p : Phase} {call : Call}

theorem moves_check (check : Check) (hstage : (Phase.checking check s.clock).stage = p.stage)
    (hphase : call.phase = p) :
    Moves options s owner .check p (call.check s.clock s.elapsed check).phase := by
  unfold Call.check
  cases hrefusal : call.refusal with
  | none => exact .checking check rfl hstage rfl
  | some code =>
    dsimp only
    split_ifs with hoperation
    · exact .same hphase
    · exact .failing rfl

theorem moves_read (check : Check) {now : ℕ} (fault : Bool) :
    Moves options s owner (.read fault) (.checking check now) (call.read s.elapsed check
      (leaseOwned (identity options owner) now s.table) fault).phase := by
  unfold Call.read
  cases check with
  | entry =>
    dsimp only
    split
    case isTrue hread =>
      simp only [Bool.and_eq_true, Bool.not_eq_true'] at hread
      obtain ⟨howned, rfl⟩ := hread
      exact .entered now rfl rfl howned rfl
    case isFalse => exact .failing rfl
  | operation => exact .within rfl (by rintro _ _ ⟨⟩)
  | final =>
    dsimp only
    split
    case isTrue hread =>
      simp only [Bool.and_eq_true, Bool.not_eq_true'] at hread
      obtain ⟨howned, rfl⟩ := hread
      exact .verified now rfl rfl howned rfl (by rintro _ _ ⟨⟩)
    case isFalse => exact .failing rfl

theorem moves_failRelease (ending : Ending) (deadline : ℕ) (lockError : Bool)
    (h : p.stage = (Phase.settling ending).stage) :
    Moves options s owner action p
      (call.failRelease s.elapsed ending deadline lockError).phase := by
  unfold Call.failRelease
  split_ifs
  · apply Moves.within _ (by rintro _ _ ⟨⟩)
    rw [h]
    cases ending with
    | tooLate => rfl
    | outcome outcome => cases outcome <;> rfl
  · exact .within h.symm (by rintro _ _ ⟨⟩)

theorem moves_lock {phase : Phase} (h : s.lock owner phase = some s')
    (hmoves : Moves options s owner action p phase) :
    Moves options s owner action p (s'.call owner).phase := by
  rw [lock_eq_some h]
  show Moves options s owner action p ((s.setCall owner _).call owner).phase
  rw [setCall_self]
  exact hmoves

theorem moves_setCall {t : State ο} (hmoves : Moves options s owner action p call.phase) :
    Moves options s owner action p ((t.setCall owner call).call owner).phase := by
  rw [setCall_self]
  exact hmoves

end Moves

theorem act_moves {action : Action} (h : s.act options owner action = some s') :
    Moves options s owner action (s.call owner).phase (s'.call owner).phase := by
  unfold act at h
  dsimp only at h
  split at h
  case h_1 =>
    cases h
    apply moves_setCall
    unfold Call.start
    split_ifs
    · exact .failing rfl
    · exact .failing rfl
    · exact .outside rfl
  case h_2 =>
    unfold beginAcquire at h
    split_ifs at h
    · cases h
      exact moves_setCall (.failing rfl)
    · exact moves_lock h (.outside rfl)
  case h_3 hphase =>
    rw [hphase]
    exact moves_lock h (.within rfl (by rintro _ _ ⟨⟩))
  case h_4 ending deadline hphase =>
    rw [hphase]
    apply moves_lock h
    -- an ending may be a value, an error or a callback that is still open
    apply Moves.within _ (by rintro _ _ ⟨⟩)
    rcases ending with ⟨_ | _⟩ | _ <;> rfl
  case h_5 deadline now hphase =>
    cases h
    apply moves_setCall
    dsimp only
    split
    -- the one step that gives a lease
    case isTrue hsome => exact .acquired ⟨rfl, deadline, now, hphase, hsome⟩ deadline rfl
    case isFalse => exact .outside rfl
  case h_6 hphase =>
    cases h
    rw [hphase]
    unfold commitRenew
    split <;> exact moves_setCall (.within rfl (by rintro _ _ ⟨⟩))
  case h_7 ending deadline hphase =>
    cases h
    rw [hphase]
    apply moves_setCall
    apply Moves.within _ (by rintro _ _ ⟨⟩)
    rcases ending with ⟨_ | _⟩ | _ <;> rfl
  case h_8 | h_9 =>
    cases h
    apply moves_setCall
    unfold Call.failAcquire
    split_ifs
    · exact .outside rfl
    · exact .failing rfl
  case h_10 hphase | h_11 hphase =>
    cases h
    rw [hphase]
    exact moves_setCall (.within rfl (by rintro _ _ ⟨⟩))
  case h_12 hphase | h_13 hphase =>
    cases h
    rw [hphase]
    apply moves_setCall
    apply moves_failRelease
    rename_i ending deadline
    rcases ending with ⟨_ | _⟩ | _ <;> rfl
  case h_14 =>
    cases h
    apply moves_setCall
    unfold Call.proceedMissed
    split_ifs
    · exact .failing rfl
    · exact .outside rfl
  case h_15 hphase =>
    cases h
    rw [hphase]
    apply moves_setCall
    unfold Call.proceedAcquired
    split_ifs
    · exact .failing rfl
    · exact .within rfl (by rintro _ _ ⟨⟩)
  case h_16 hphase | h_17 hphase | h_18 hphase =>
    cases h
    rw [hphase]
    exact moves_setCall (moves_check _ rfl hphase)
  case h_19 hphase =>
    cases h
    rw [hphase]
    exact moves_setCall (moves_read _ _)
  case h_20 hphase =>
    cases h
    rw [hphase]
    apply moves_setCall
    unfold Call.callback
    split_ifs
    · exact .within rfl (by rintro _ _ ⟨⟩)
    · exact .failing rfl
  case h_21 | h_22 =>
    cases h
    exact moves_setCall (.same rfl)
  case h_23 ending hphase =>
    cases h
    rw [hphase]
    apply moves_setCall
    unfold Call.settle
    rcases ending with ⟨_ | _⟩ | _
    · exact .within rfl (by rintro _ _ ⟨⟩)
    · exact .failing rfl
    · exact .failing rfl
  case h_24 =>
    cases h
    exact moves_setCall (.failing rfl)
  case h_25 => cases h

end State

end Flashclaw.StateLease
