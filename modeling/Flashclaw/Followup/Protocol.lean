import Flashclaw.Followup.Lifecycle
import Mathlib.Data.List.Count
import Mathlib.Logic.Relation

/-!
# Turn adoption: what may be called when

What the calls of an owner's callbacks have to obey, read off the log alone, and
an abstract machine of one admission at a time that obeys it.
-/

namespace Flashclaw.Followup

open Event

section Log

/-- The admissions in flight at the end of a log. -/
def inFlight (log : List Event) : ℕ := log.count admissionStarted - log.count admissionSettled

/-- The calls of `onAdopted` pending at the end of a log. -/
def pending (log : List Event) : ℕ :=
  log.count adoptionStarted - (log.count adoptionSucceeded + log.count adoptionFailed)

/-- Completion was requested with no admission in flight. -/
def Closed (log : List Event) : Prop :=
  ∃ before after, log = before ++ completionRequested :: after ∧ inFlight before = 0

/-- What may be called after a log. -/
def MayFollow (log : List Event) : Event → Prop
  | adoptionStarted => pending log = 0 ∧ adoptionSucceeded ∉ log ∧ ¬ Closed log
  | onAbandoned =>
    onAbandoned ∉ log ∧ completionRequested ∈ log ∧ inFlight log = 0 ∧ adoptionSucceeded ∉ log
  | onSettled =>
    onSettled ∉ log ∧ completionRequested ∈ log ∧ inFlight log = 0 ∧
      (onAbandoned ∈ log ↔ adoptionSucceeded ∉ log)
  | _ => True

/-- Every call in a log could follow what was before it. -/
def SettlesOnce (log : List Event) : Prop :=
  ∀ before e after, log = before ++ e :: after → MayFollow before e

theorem SettlesOnce.nil : SettlesOnce [] := by
  intro before e after h
  exact absurd h (List.append_ne_nil_of_right_ne_nil _ (List.cons_ne_nil e after)).symm

theorem SettlesOnce.concat {log : List Event} {e : Event} (h : SettlesOnce log)
    (he : MayFollow log e) : SettlesOnce (log ++ [e]) := by
  intro before e' after heq
  rcases List.eq_nil_or_concat after with rfl | ⟨after, last, rfl⟩
  · obtain ⟨rfl, hlast⟩ := List.append_inj' heq rfl
    obtain rfl := List.singleton_inj.mp hlast
    exact he
  · rw [List.concat_eq_append, ← List.cons_append, ← List.append_assoc] at heq
    exact h before e' after (List.append_inj' heq rfl).1

theorem closed_concat {log : List Event} {e : Event} :
    Closed (log ++ [e]) ↔ Closed log ∨ (e = completionRequested ∧ inFlight log = 0) := by
  constructor
  · rintro ⟨before, after, heq, hflight⟩
    rcases List.eq_nil_or_concat after with rfl | ⟨after, last, rfl⟩
    · obtain ⟨rfl, hlast⟩ := List.append_inj' heq rfl
      exact .inr ⟨List.singleton_inj.mp hlast, hflight⟩
    · rw [List.concat_eq_append, ← List.cons_append, ← List.append_assoc] at heq
      exact .inl ⟨before, after, (List.append_inj' heq rfl).1, hflight⟩
  · rintro (⟨before, after, rfl, hflight⟩ | ⟨rfl, hflight⟩)
    · exact ⟨before, after ++ [e], by rw [List.append_assoc, List.cons_append], hflight⟩
    · exact ⟨log, [], rfl, hflight⟩

/-- What no promise about the callbacks speaks of. -/
def IsSilent : Event → Prop
  | onDeferred => True
  | onCancellationRetired => True
  | admitEnded _ => True
  | _ => False

end Log

/-- One turn: its admission in flight, and what is decided about it. -/
structure Turn where
  flight : Option Phase
  admitted : Bool
  completed : Bool
  completedCallbacks : Bool
  settling : ℕ
  log : List Event

namespace Turn

def initial : Turn := ⟨none, false, false, false, 0, []⟩

/-- One admission at a time, none after an adoption or a completion; the callbacks of a completion
when none is in flight. -/
inductive Next : Turn → Turn → Prop
  | silent (t : Turn) (e : Event) (h : IsSilent e) : Next t { t with log := t.log ++ [e] }
  | start (t : Turn) (hflight : t.flight = none) (hadmitted : t.admitted = false)
      (hcompleted : t.completed = false) :
      Next t { t with flight := some .scheduled, log := t.log ++ [admissionStarted] }
  | adopt (t : Turn) (hflight : t.flight = some .scheduled) (hadmitted : t.admitted = false) :
      Next t { t with flight := some .adopting, log := t.log ++ [adoptionStarted] }
  | skip (t : Turn) (hflight : t.flight = some .scheduled) (hadmitted : t.admitted = true) :
      Next t { t with flight := some .recorded }
  | succeed (t : Turn) (hflight : t.flight = some .adopting) :
      Next t { t with flight := some .adopted, log := t.log ++ [adoptionSucceeded] }
  | fail (t : Turn) (hflight : t.flight = some .adopting) :
      Next t { t with flight := some .refused, log := t.log ++ [adoptionFailed] }
  | record (t : Turn) (hflight : t.flight = some .adopted) :
      Next t { t with flight := some .recorded, admitted := true }
  | settle (t : Turn) (hflight : t.flight = some .recorded ∨ t.flight = some .refused) :
      Next t { t with flight := none, log := t.log ++ [admissionSettled] }
  | request (t : Turn) : Next t { t with completed := true, log := t.log ++ [completionRequested] }
  | finish (t : Turn) (hflight : t.flight = none) (hcompleted : t.completed = true)
      (hcallbacks : t.completedCallbacks = false) :
      Next t { t with
        completedCallbacks := true
        settling := t.settling + 1
        log := if t.admitted then t.log else t.log ++ [onAbandoned] }
  | callOnSettled (t : Turn) (hsettling : t.settling ≠ 0) :
      Next t { t with settling := t.settling - 1, log := t.log ++ [onSettled] }

/-- The log and the turn say the same. -/
structure Sound (t : Turn) : Prop where
  flights : t.log.count admissionStarted =
    t.log.count admissionSettled + if t.flight = none then 0 else 1
  adoptions : t.log.count adoptionStarted =
    t.log.count adoptionSucceeded + t.log.count adoptionFailed +
      if t.flight = some .adopting then 1 else 0
  admitted : t.admitted = true → t.flight = none ∨ t.flight = some .recorded
  recorded : t.flight = some .recorded → t.admitted = true
  succeeded : adoptionSucceeded ∈ t.log ↔ t.admitted = true ∨ t.flight = some .adopted
  requested : completionRequested ∈ t.log ↔ t.completed = true
  closed : Closed t.log → t.completed = true ∧ t.flight = none
  callbacks : t.completedCallbacks = true → t.completed = true ∧ t.flight = none
  abandoned : onAbandoned ∈ t.log ↔ t.completedCallbacks = true ∧ t.admitted = false
  settled : onSettled ∈ t.log ↔ t.completedCallbacks = true ∧ t.settling = 0
  settling : t.settling ≤ 1 ∧ (t.settling ≠ 0 → t.completedCallbacks = true)
  settlesOnce : SettlesOnce t.log

theorem Sound.initial : Sound initial where
  flights := rfl
  adoptions := rfl
  admitted h := by cases h
  recorded h := by cases h
  succeeded := by simp [Turn.initial]
  requested := by simp [Turn.initial]
  closed := by
    rintro ⟨before, after, h, -⟩
    exact absurd h (List.append_ne_nil_of_right_ne_nil _ (List.cons_ne_nil _ after)).symm
  callbacks h := by cases h
  abandoned := by simp [Turn.initial]
  settled := by simp [Turn.initial]
  settling := ⟨Nat.zero_le 1, fun h => absurd rfl h⟩
  settlesOnce := .nil

theorem Sound.inFlight_eq {t : Turn} (h : Sound t) :
    inFlight t.log = if t.flight = none then 0 else 1 := by
  have := h.flights
  unfold inFlight
  omega

theorem Sound.pending_eq {t : Turn} (h : Sound t) :
    pending t.log = if t.flight = some .adopting then 1 else 0 := by
  have := h.adoptions
  unfold pending
  omega

theorem Sound.next {t t' : Turn} (h : Sound t) (hnext : Next t t') : Sound t' := by
  have hflight := h.inFlight_eq
  have hpending := h.pending_eq
  obtain ⟨hflights, hadoptions, hadmitted, hrecorded, hsucceeded, hrequested, hclosed, hcallbacks,
    habandoned, hsettled, hsettling, honce⟩ := h
  cases hnext with
  | silent e he =>
    refine ⟨?_, ?_, hadmitted, hrecorded, ?_, ?_, ?_, hcallbacks, ?_, ?_, hsettling, ?_⟩
    all_goals
      cases e <;> first
        | exact he.elim
        | simp_all [List.count_append, closed_concat]
    all_goals exact honce.concat trivial
  | start hnone hnot hopen =>
    refine ⟨?_, ?_, ?_, ?_, ?_, ?_, ?_, ?_, ?_, ?_, hsettling, honce.concat trivial⟩
    all_goals simp_all [List.count_append, closed_concat]
  | adopt hscheduled hnot =>
    have hnone : adoptionSucceeded ∉ t.log := by simp [hsucceeded, hnot, hscheduled]
    -- a turn that is scheduled is open, and no adoption of it is pending
    have hopen : ¬ Closed t.log := fun hc => by simp [hscheduled] at hclosed; exact hclosed hc
    have hfree : pending t.log = 0 := by simp [hpending, hscheduled]
    refine ⟨?_, ?_, ?_, ?_, ?_, ?_, ?_, ?_, ?_, ?_, hsettling, honce.concat ⟨hfree, hnone, hopen⟩⟩
    all_goals simp_all [List.count_append, closed_concat]
  | skip hscheduled hdone =>
    have := hadmitted hdone
    simp [hscheduled] at this
  | succeed hadopting =>
    refine ⟨?_, ?_, ?_, ?_, ?_, ?_, ?_, ?_, ?_, ?_, hsettling, honce.concat trivial⟩
    all_goals simp_all [List.count_append, closed_concat]
    all_goals omega
  | fail hadopting =>
    refine ⟨?_, ?_, ?_, ?_, ?_, ?_, ?_, ?_, ?_, ?_, hsettling, honce.concat trivial⟩
    all_goals simp_all [List.count_append, closed_concat]
    all_goals omega
  | record hadopted =>
    refine ⟨?_, ?_, ?_, ?_, ?_, ?_, ?_, ?_, ?_, ?_, hsettling, honce⟩
    all_goals simp_all
  | settle hend =>
    refine ⟨?_, ?_, ?_, ?_, ?_, ?_, ?_, ?_, ?_, ?_, hsettling, honce.concat trivial⟩
    all_goals rcases hend with hend | hend <;> simp_all [List.count_append, closed_concat]
  | request =>
    -- a request closes the turn only where no attempt is in flight
    have hopen : Closed (t.log ++ [completionRequested]) → t.flight = none := by
      rw [closed_concat]
      rintro (hc | ⟨-, hfree⟩)
      · exact (hclosed hc).2
      · by_contra hsome
        rw [hflight, if_neg hsome] at hfree
        cases hfree
    refine ⟨?_, ?_, hadmitted, hrecorded, ?_, ?_, fun hc => ⟨rfl, hopen hc⟩, ?_, ?_, ?_, hsettling,
      honce.concat trivial⟩
    all_goals simp_all [List.count_append]
  | finish hnone hdone hnot =>
    have hframe : t.settling = 0 := by
      by_contra hne
      rw [hsettling.2 hne] at hnot
      cases hnot
    have hnever : onAbandoned ∉ t.log := by simp [habandoned, hnot]
    cases hcase : t.admitted with
    | true =>
      simp only [if_true]
      refine ⟨hflights, hadoptions, ?_, ?_, ?_, ?_, ?_, ?_, ?_, ?_, ?_, honce⟩
      all_goals simp_all
    | false =>
      have hfailed : adoptionSucceeded ∉ t.log := by simp [hsucceeded, hcase, hnone]
      -- not adopted and nothing in flight: the turn was given up
      have hfollow : MayFollow t.log onAbandoned :=
        ⟨hnever, hrequested.mpr hdone, by simp [hflight, hnone], hfailed⟩
      refine ⟨?_, ?_, ?_, ?_, ?_, ?_, ?_, ?_, ?_, ?_, ?_, honce.concat hfollow⟩
      all_goals simp_all [List.count_append, closed_concat]
  | callOnSettled hframe =>
    obtain ⟨hle, hdone⟩ := hsettling
    obtain ⟨hcompleted, hnone⟩ := hcallbacks (hdone hframe)
    have hone : t.settling = 1 := by omega
    have hfollow : MayFollow t.log onSettled := by
      refine ⟨?_, hrequested.mpr hcompleted, by simp [hflight, hnone], ?_⟩
      · rw [hsettled]
        exact fun hboth => hframe hboth.2
      · simp [habandoned, hsucceeded, hdone hframe, hnone]
    refine ⟨?_, ?_, hadmitted, hrecorded, ?_, ?_, ?_, hcallbacks, ?_, ?_, ?_, honce.concat hfollow⟩
    all_goals simp_all [List.count_append, closed_concat]

end Turn

end Flashclaw.Followup
