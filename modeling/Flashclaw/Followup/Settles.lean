import Flashclaw.Followup.Refinement
import Mathlib.Data.List.Induction

/-!
# Turn adoption settles once

Whatever runs share a lifecycle, and in whatever order they are called.
-/

namespace Flashclaw.Followup

open Event Lifecycle

/-- A turn that steps have led to is as its log says. -/
theorem Turn.Sound.steps {t t' : Turn} (h : t.Sound)
    (hsteps : Relation.ReflTransGen Turn.Next t t') : t'.Sound := by
  induction hsteps with
  | refl => exact h
  | tail _ hnext ih => exact ih.next hnext

/-- What holds of each lifecycle in every run. -/
structure Holds (l : Lifecycle) : Prop where
  kept : l.Kept
  waits : l.Waits
  sound : l.turn.Sound

theorem Holds.initial : Holds Lifecycle.initial :=
  ⟨.initial, fun h => (by cases h), .initial⟩

theorem Holds.step {l l' : Lifecycle} (h : Holds l) {a : Action} (hs : l.step a = some l') :
    Holds l' := by
  obtain ⟨hkept, hwaits, hturns⟩ := refines_step h.kept h.waits hs
  exact ⟨hkept, hwaits, h.sound.steps hturns⟩

section Runs

variable {L : Type*} [DecidableEq L] {s : L → Lifecycle}

theorem holds_of_reachable (h : (lifecycles L).Reachable s) (l : L) : Holds (s l) := by
  apply h.invariant (P := fun s => ∀ l, Holds (s l)) (fun _ => .initial)
  rintro s ⟨⟨run⟩, a⟩ s' hs hstep l
  cases run with
  | none =>
    obtain rfl := Option.some.inj hstep
    exact hs l
  | some l₀ =>
    obtain ⟨t, ht, rfl⟩ := Option.map_eq_some_iff.mp hstep
    by_cases hl : l = l₀
    · subst hl
      rw [Function.update_self]
      exact (hs l).step ht
    · rw [Function.update_of_ne hl]
      exact hs l

/-- Calls of `onAdopted` that start with none pending never pile up. -/
theorem pending_le_one {log : List Event} (h : SettlesOnce log) : pending log ≤ 1 := by
  induction log using List.reverseRecOn with
  | nil => exact Nat.zero_le 1
  | append_singleton log e ih =>
    have hbefore : pending log ≤ 1 := by
      apply ih
      intro before e' after heq
      exact h before e' (after ++ [e]) (by rw [heq, List.append_assoc, List.cons_append])
    have hlast := h log e [] rfl
    cases e with
    | adoptionStarted =>
      have hfree : pending log = 0 := hlast.1
      unfold pending at hfree ⊢
      simp only [List.count_append, List.count_singleton_self]
      simp
      omega
    | _ =>
      unfold pending at hbefore ⊢
      simp only [List.count_append]
      simp
      omega

/-- Nothing of a lifecycle is under way. -/
def Idle (l : Lifecycle) : Prop :=
  l.settling = 0 ∧ ∀ a ∈ l.admissions, a.phase.isSettled = true ∧ a.reactions = []

/-- At any time at most one call of `onAdopted` is pending; every callback is called when it may
be; and where nothing is under way any more, a requested completion has settled. -/
theorem turn_adoption_settles_once (h : (lifecycles L).Reachable s) (l : L) :
    SettlesOnce (s l).log ∧ (∀ before, before <+: (s l).log → pending before ≤ 1) ∧
      (Idle (s l) → completionRequested ∈ (s l).log → onSettled ∈ (s l).log) := by
  obtain ⟨-, hwaits, hsound⟩ := holds_of_reachable h l
  refine ⟨hsound.settlesOnce, ?_, ?_⟩
  · rintro before ⟨after, heq⟩
    apply pending_le_one
    intro before' e after' heq'
    apply hsound.settlesOnce before' e (after' ++ after)
    rw [← List.cons_append, ← List.append_assoc, ← heq']
    exact heq.symm
  · rintro ⟨hframe, hidle⟩ hrequested
    have hcompleted : (s l).completed = true := hsound.requested.mp hrequested
    rcases hwaits hcompleted with hcallbacks | ⟨id, a, ha, hfinish⟩
    · exact hsound.settled.mpr ⟨hcallbacks, hframe⟩
    · rw [(hidle a (List.mem_of_getElem? ha)).2] at hfinish
      cases hfinish

end Runs

/-- A completion is requested while an adoption is pending, which then fails. -/
def sampleActions : List Action :=
  [.markFollowupRunEnqueued, .deferred true, .admitFollowupRunLifecycle, .runAdmission 0,
    .completeFollowupRunLifecycle, .endAdoption 0 false, .settleAdmission 0, .runReaction 0,
    .runReaction 0, .callOnSettled]

def sampleCalls : List (FollowupLifecycleRun Bool × Action) :=
  sampleActions.map fun a => (⟨some true⟩, a)

theorem turn_adoption_settles_once_sample :
    ∃ s, (lifecycles Bool).Reachable s ∧
      (s true).log = [onDeferred, admissionStarted, adoptionStarted, completionRequested,
        adoptionFailed, admissionSettled, admitEnded false, onAbandoned, onSettled] ∧
      SettlesOnce (s true).log := by
  obtain ⟨s, hs, hlog⟩ := @TransitionSystem.exists_reachable_of_exec _ _ (lifecycles Bool)
    (fun s => (s true).log = [onDeferred, admissionStarted, adoptionStarted, completionRequested,
      adoptionFailed, admissionSettled, admitEnded false, onAbandoned, onSettled]) sampleCalls
    (by decide)
  exact ⟨s, hs, of_decide_eq_true hlog, (turn_adoption_settles_once hs true).1⟩

end Flashclaw.Followup
