import Flashclaw.Followup.Protocol

/-!
# Turn adoption: the code keeps to the protocol

Of all the promises the map holds the one in flight, and what waits for an older
one is no owner. So every step of a lifecycle is a step of its turn, or two.
-/

namespace Flashclaw.Followup

open Event

namespace Lifecycle

/-- The phase of the admission in flight. -/
def flight (l : Lifecycle) : Option Phase :=
  (l.admitting.bind l.phase?).filter fun phase => !phase.isSettled

def turn (l : Lifecycle) : Turn where
  flight := l.flight
  admitted := l.admitted
  completed := l.completed
  completedCallbacks := l.completedCallbacks
  settling := l.settling
  log := l.log

/-- What holds of the map and the promises between any two steps. -/
structure Kept (l : Lifecycle) : Prop where
  others : ∀ id a, l.admissions[id]? = some a → l.admitting ≠ some id →
    a.phase.isSettled = true ∧ .owner ∉ a.reactions
  entry : ∀ id, l.admitting = some id → ∃ a rest, l.admissions[id]? = some a ∧
    a.reactions = .owner :: rest ∧ .owner ∉ rest
  finishes : ∀ id a, l.admissions[id]? = some a → .finish ∈ a.reactions →
    l.completed = true ∧ ∀ other, l.admitting = some other → other = id

/-- A completion whose callbacks were not called waits for an admission. -/
def Waits (l : Lifecycle) : Prop :=
  l.completed = true → l.completedCallbacks = true ∨
    ∃ (id : ℕ) (a : Admission), l.admissions[id]? = some a ∧ Reaction.finish ∈ a.reactions

theorem Kept.initial : Kept initial where
  others id a h := by cases h
  entry id h := by cases h
  finishes id a h := by cases h

section Updates

variable {l : Lifecycle} {id : ℕ}

theorem getElem?_setPhase (phase : Phase) (i : ℕ) : (l.setPhase id phase).admissions[i]? =
    (l.admissions[i]?).map fun a => if id = i then { a with phase := phase } else a := by
  show (l.admissions.modify id _)[i]? = _
  rw [List.getElem?_modify]
  cases l.admissions[i]? <;> rfl

theorem getElem?_addReaction (reaction : Reaction) (i : ℕ) :
    (l.addReaction id reaction).admissions[i]? = (l.admissions[i]?).map fun a =>
      if id = i then { a with reactions := a.reactions ++ [reaction] } else a := by
  show (l.admissions.modify id _)[i]? = _
  rw [List.getElem?_modify]
  cases l.admissions[i]? <;> rfl

/-- What is not settled is in flight. -/
theorem Kept.flight_of_phase (h : Kept l) {phase : Phase} (hphase : l.phase? id = some phase)
    (hopen : phase.isSettled = false) : l.admitting = some id ∧ l.flight = some phase := by
  obtain ⟨a, ha, rfl⟩ := Option.map_eq_some_iff.mp hphase
  have hentry : l.admitting = some id := by
    by_contra hne
    rw [(h.others id a ha hne).1] at hopen
    cases hopen
  refine ⟨hentry, ?_⟩
  unfold flight
  rw [hentry, Option.bind_some, hphase, Option.filter_some, hopen]
  rfl

theorem flight_setPhase (hentry : l.admitting = some id) {old : Phase}
    (hold : l.phase? id = some old) (phase : Phase) :
    (l.setPhase id phase).flight = if phase.isSettled then none else some phase := by
  have hphase : (l.setPhase id phase).phase? id = some phase := by
    obtain ⟨a, ha, -⟩ := Option.map_eq_some_iff.mp hold
    unfold phase?
    rw [getElem?_setPhase, ha]
    simp
  unfold flight
  rw [show (l.setPhase id phase).admitting = some id from hentry, Option.bind_some, hphase,
    Option.filter_some]
  cases phase.isSettled <;> rfl

theorem flight_addReaction (reaction : Reaction) :
    (l.addReaction id reaction).flight = l.flight := by
  have hphase : (l.addReaction id reaction).phase? = l.phase? := by
    funext i
    unfold phase?
    rw [getElem?_addReaction, Option.map_map]
    congr 1
    funext a
    show Admission.phase (if id = i then _ else _) = a.phase
    split_ifs <;> rfl
  unfold flight
  rw [hphase]
  rfl

/-- A new phase of the admission in flight changes nothing about what waits for it. -/
theorem Kept.setPhase (h : Kept l) (hentry : l.admitting = some id) (phase : Phase) :
    Kept (l.setPhase id phase) := by
  refine ⟨?_, ?_, ?_⟩
  · intro i a ha hne
    have hi : id ≠ i := by
      rintro rfl
      exact hne hentry
    rw [getElem?_setPhase] at ha
    obtain ⟨b, hb, rfl⟩ := Option.map_eq_some_iff.mp ha
    rw [if_neg hi]
    exact h.others i b hb hne
  · intro i hi
    obtain ⟨a, rest, ha, hreactions, hrest⟩ := h.entry i hi
    refine ⟨_, rest, by rw [getElem?_setPhase, ha]; rfl, ?_, hrest⟩
    split_ifs <;> exact hreactions
  · intro i a ha hfinish
    rw [getElem?_setPhase] at ha
    obtain ⟨b, hb, rfl⟩ := Option.map_eq_some_iff.mp ha
    apply h.finishes i b hb
    split_ifs at hfinish <;> exact hfinish

theorem Waits.setPhase (h : Waits l) (id : ℕ) (phase : Phase) : Waits (l.setPhase id phase) := by
  intro hcompleted
  refine (h hcompleted).imp_right ?_
  rintro ⟨i, a, ha, hfinish⟩
  refine ⟨i, _, by rw [getElem?_setPhase, ha]; rfl, ?_⟩
  split_ifs <;> exact hfinish

theorem Kept.addReaction (h : Kept l) (hentry : l.admitting = some id) {reaction : Reaction}
    (howner : reaction ≠ .owner) (hfinish : reaction = .finish → l.completed = true) :
    Kept (l.addReaction id reaction) := by
  refine ⟨?_, ?_, ?_⟩
  · intro i a ha hne
    have hi : id ≠ i := by
      rintro rfl
      exact hne hentry
    rw [getElem?_addReaction] at ha
    obtain ⟨b, hb, rfl⟩ := Option.map_eq_some_iff.mp ha
    rw [if_neg hi]
    exact h.others i b hb hne
  · intro i hi
    obtain rfl : id = i := Option.some.inj (hentry.symm.trans hi)
    obtain ⟨a, rest, ha, hreactions, hrest⟩ := h.entry id hi
    refine ⟨_, rest ++ [reaction], by rw [getElem?_addReaction, ha]; rfl, ?_, ?_⟩
    · simp [hreactions]
    · simp [hrest, howner.symm]
  · intro i a ha hmem
    rw [getElem?_addReaction] at ha
    obtain ⟨b, hb, rfl⟩ := Option.map_eq_some_iff.mp ha
    split_ifs at hmem with hi
    · subst hi
      rcases List.mem_append.mp hmem with hmem | hmem
      · exact h.finishes id b hb hmem
      · refine ⟨hfinish (List.mem_singleton.mp hmem).symm, fun other hother => ?_⟩
        exact Option.some.inj (hother.symm.trans hentry)
    · exact h.finishes i b hb hmem

theorem Waits.addReaction (h : Waits l) (id : ℕ) (reaction : Reaction) :
    Waits (l.addReaction id reaction) := by
  intro hcompleted
  refine (h hcompleted).imp_right ?_
  rintro ⟨i, a, ha, hmem⟩
  refine ⟨i, _, by rw [getElem?_addReaction, ha]; rfl, ?_⟩
  split_ifs
  · exact List.mem_append_left _ hmem
  · exact hmem

/-- A completion that waits. -/
theorem Kept.waits_addReaction (h : Kept l) (hentry : l.admitting = some id) :
    Waits (l.addReaction id .finish) := by
  intro _
  obtain ⟨a, rest, ha, -, -⟩ := h.entry id hentry
  refine .inr ⟨id, _, by rw [getElem?_addReaction, ha]; rfl, ?_⟩
  simp

/-- An admission that starts when none is in the map. -/
theorem Kept.start (h : Kept l) (hentry : l.admitting = none) (hcompleted : l.completed = false)
    (log : List Event) :
    Kept { l with
      log := log
      admissions := l.admissions ++ [⟨.scheduled, [.owner]⟩]
      admitting := some l.admissions.length } := by
  have hnew : (l.admissions ++ [⟨.scheduled, [.owner]⟩])[l.admissions.length]? =
      some ⟨.scheduled, [.owner]⟩ := by simp
  have hold : ∀ i a, (l.admissions ++ [⟨.scheduled, [.owner]⟩])[i]? = some a →
      i ≠ l.admissions.length → l.admissions[i]? = some a := by
    intro i a ha hi
    rw [List.getElem?_append] at ha
    split_ifs at ha with hlt
    · exact ha
    · rw [List.getElem?_singleton] at ha
      split_ifs at ha
      omega
  refine ⟨?_, ?_, ?_⟩
  · intro i a ha hne
    have hi : i ≠ l.admissions.length := by
      rintro rfl
      exact hne rfl
    exact h.others i a (hold i a ha hi) (by rw [hentry]; simp)
  · rintro i ⟨⟩
    exact ⟨_, [], hnew, rfl, List.not_mem_nil⟩
  · intro i a ha hfinish
    by_cases hi : i = l.admissions.length
    · subst hi
      obtain rfl := Option.some.inj (hnew.symm.trans ha)
      simp at hfinish
    · rw [(h.finishes i a (hold i a ha hi) hfinish).1] at hcompleted
      cases hcompleted

/-- What a settled promise looks like without its first reaction. -/
theorem getElem?_rest {fulfilled : Bool} {reaction : Reaction} {reactions : List Reaction}
    (ha : l.admissions[id]? = some ⟨.settled fulfilled, reaction :: reactions⟩) {i : ℕ}
    {a : Admission}
    (h : (l.setAdmission id ⟨.settled fulfilled, reactions⟩).admissions[i]? = some a) :
    ∃ b, l.admissions[i]? = some b ∧ a.phase = b.phase ∧
      (∀ r ∈ a.reactions, r ∈ b.reactions) ∧ (i ≠ id → a = b) ∧ (i = id → a.reactions = reactions) := by
  unfold Lifecycle.setAdmission at h
  rw [List.getElem?_set] at h
  split_ifs at h with hi hlt
  · subst hi
    obtain rfl := Option.some.inj h
    exact ⟨_, ha, rfl, fun r hr => List.mem_cons_of_mem _ hr, fun hne => absurd rfl hne,
      fun _ => rfl⟩
  · exact ⟨a, h, rfl, fun r hr => hr, fun _ => rfl, fun heq => absurd heq.symm hi⟩

end Updates

section Steps

variable {l l' : Lifecycle} {id : ℕ}

theorem turn_addReaction (reaction : Reaction) :
    (l.addReaction id reaction).turn = l.turn := by
  unfold turn
  rw [flight_addReaction]
  rfl

theorem flight_of_admitting (h : l.admitting = none) : l.flight = none := by
  unfold flight
  rw [h]
  rfl

theorem Kept.congr (h : Kept l) (hadmissions : l'.admissions = l.admissions)
    (hadmitting : l'.admitting = l.admitting) (hcompleted : l'.completed = l.completed) :
    Kept l' := by
  refine ⟨?_, ?_, ?_⟩
  · rw [hadmissions, hadmitting]
    exact h.others
  · rw [hadmissions, hadmitting]
    exact h.entry
  · rw [hadmissions, hadmitting, hcompleted]
    exact h.finishes

/-- What a step keeps, and what it is for the turn. -/
structure Refines (l l' : Lifecycle) : Prop where
  kept : Kept l'
  waits : Waits l'
  turns : Relation.ReflTransGen Turn.Next l.turn l'.turn

/-- The map and the promises stay as they are. -/
theorem Refines.of_fields (h : Kept l) (hw : Waits l) (hadmissions : l'.admissions = l.admissions)
    (hadmitting : l'.admitting = l.admitting) (hcompleted : l'.completed = l.completed)
    (hcallbacks : l.completedCallbacks = true → l'.completedCallbacks = true)
    (hturns : Relation.ReflTransGen Turn.Next l.turn l'.turn) : Refines l l' := by
  refine ⟨h.congr hadmissions hadmitting hcompleted, ?_, hturns⟩
  unfold Waits
  rw [hadmissions, hcompleted]
  exact fun hdone => (hw hdone).imp_left hcallbacks

theorem Refines.silent (h : Kept l) (hw : Waits l) {e : Event} (he : IsSilent e) :
    Refines l (l.emit e) :=
  .of_fields h hw rfl rfl rfl (fun hdone => hdone) (.single (.silent l.turn e he))

/-- The callbacks of a completion, with nothing in flight. -/
theorem finish_spec (hcompleted : l.completed = true) (hflight : l.flight = none) :
    Relation.ReflTransGen Turn.Next l.turn l.finish.turn ∧
      l.finish.completedCallbacks = true ∧ l.finish.admissions = l.admissions ∧
      l.finish.admitting = l.admitting ∧ l.finish.completed = l.completed := by
  unfold Lifecycle.finish
  by_cases hdone : l.completedCallbacks = true
  · rw [if_pos hdone]
    exact ⟨.refl, hdone, rfl, rfl, rfl⟩
  · rw [if_neg hdone]
    rw [Bool.not_eq_true] at hdone
    exact ⟨.single (.finish l.turn hflight hcompleted hdone), rfl, rfl, rfl, rfl⟩

theorem refines_mark (h : Kept l) (hw : Waits l) : Refines l l.markFollowupRunEnqueued := by
  unfold Lifecycle.markFollowupRunEnqueued
  split_ifs
  · exact ⟨h, hw, .refl⟩
  · exact .of_fields h hw rfl rfl rfl (fun hdone => hdone) (.single (.silent l.turn _ trivial))

theorem refines_deferred (h : Kept l) (hw : Waits l) {accepted : Bool}
    (hs : l.deferred accepted = some l') : Refines l l' := by
  unfold Lifecycle.deferred at hs
  split_ifs at hs
  obtain rfl := Option.some.inj hs
  exact .of_fields h hw rfl rfl rfl (fun hdone => hdone) .refl

theorem refines_retire (h : Kept l) (hw : Waits l) :
    Refines l l.retireFollowupRunCancellation := by
  unfold Lifecycle.retireFollowupRunCancellation
  split_ifs
  · exact ⟨h, hw, .refl⟩
  · exact .of_fields h hw rfl rfl rfl (fun hdone => hdone) (.single (.silent l.turn _ trivial))

theorem refines_admit (h : Kept l) (hw : Waits l) : Refines l l.admitFollowupRunLifecycle := by
  unfold Lifecycle.admitFollowupRunLifecycle
  by_cases hadmitted : l.admitted = true
  · rw [if_pos hadmitted]
    exact .silent h hw trivial
  rw [if_neg hadmitted]
  cases hentry : l.admitting with
  | some existing =>
    refine ⟨h.addReaction hentry (by simp) (by simp), hw.addReaction existing .joined, ?_⟩
    show Relation.ReflTransGen Turn.Next l.turn (l.addReaction existing .joined).turn
    rw [turn_addReaction]
  | none =>
    by_cases hcompleted : l.completed = true
    · simp only [if_pos hcompleted]
      exact .silent h hw trivial
    simp only [if_neg hcompleted]
    rw [Bool.not_eq_true] at hadmitted hcompleted
    refine ⟨h.start hentry hcompleted _, fun hdone => ?_, .single ?_⟩
    · rw [show l.completed = true from hdone] at hcompleted
      cases hcompleted
    · have hstart := Turn.Next.start l.turn (flight_of_admitting hentry) hadmitted hcompleted
      convert hstart using 1
      unfold turn flight phase?
      simp [Phase.isSettled, emit]

theorem Kept.requestCompletion (h : Kept l) : Kept l.requestCompletion :=
  ⟨h.others, h.entry, fun i a ha hfinish => ⟨rfl, (h.finishes i a ha hfinish).2⟩⟩

theorem refines_complete (h : Kept l) : Refines l l.completeFollowupRunLifecycle := by
  have hrequest : Turn.Next l.turn l.requestCompletion.turn := .request l.turn
  unfold Lifecycle.completeFollowupRunLifecycle
  cases hentry : l.admitting with
  | none =>
    have hnone : l.requestCompletion.admitting = none := hentry
    obtain ⟨hturns, hcallbacks, hadmissions, hadmitting, hcompleted⟩ :=
      finish_spec (l := l.requestCompletion) rfl (flight_of_admitting hnone)
    exact ⟨h.requestCompletion.congr hadmissions hadmitting hcompleted, fun _ => .inl hcallbacks,
      .head hrequest hturns⟩
  | some id =>
    have hsome : l.requestCompletion.admitting = some id := hentry
    refine ⟨h.requestCompletion.addReaction hsome (by simp) fun _ => rfl,
      h.requestCompletion.waits_addReaction hsome, .single ?_⟩
    show Turn.Next l.turn (l.requestCompletion.addReaction id .finish).turn
    rw [turn_addReaction]
    exact hrequest

theorem refines_callOnSettled (h : Kept l) (hw : Waits l) (hs : l.callOnSettled = some l') :
    Refines l l' := by
  unfold Lifecycle.callOnSettled at hs
  split_ifs at hs with hframe
  obtain rfl := Option.some.inj hs
  exact .of_fields h hw rfl rfl rfl (fun hdone => hdone)
    (.single (.callOnSettled l.turn hframe))

/-- A new phase of the admission in flight. -/
theorem Refines.setPhase (h : Kept l) (hw : Waits l) {old phase : Phase}
    (hold : l.phase? id = some old) (hopen : old.isSettled = false) {log : List Event}
    {admitted : Bool}
    (hturn : Turn.Next l.turn { l.turn with
      flight := if phase.isSettled then none else some phase
      admitted := admitted
      log := log }) :
    Refines l { l.setPhase id phase with admitted := admitted, log := log } := by
  obtain ⟨hentry, -⟩ := h.flight_of_phase hold hopen
  have hkept := h.setPhase hentry phase
  refine ⟨⟨hkept.others, hkept.entry, hkept.finishes⟩, hw.setPhase id phase, .single ?_⟩
  have hflight := flight_setPhase hentry hold phase
  convert hturn using 1
  show Turn.mk (l.setPhase id phase).flight _ _ _ _ _ = _
  rw [hflight]
  rfl

theorem refines_runAdmission (h : Kept l) (hw : Waits l) (hs : l.runAdmission id = some l') :
    Refines l l' := by
  unfold Lifecycle.runAdmission at hs
  split_ifs at hs with hphase hadmitted
  all_goals
    obtain rfl := Option.some.inj hs
    obtain ⟨hentry, hflight⟩ := h.flight_of_phase hphase rfl
  · exact Refines.setPhase h hw hphase rfl (.skip l.turn hflight hadmitted)
  · rw [Bool.not_eq_true] at hadmitted
    exact Refines.setPhase h hw hphase rfl (.adopt l.turn hflight hadmitted)

theorem refines_endAdoption (h : Kept l) (hw : Waits l) {succeeded : Bool}
    (hs : l.endAdoption id succeeded = some l') : Refines l l' := by
  unfold Lifecycle.endAdoption at hs
  split_ifs at hs with hphase
  all_goals
    obtain rfl := Option.some.inj hs
    obtain ⟨hentry, hflight⟩ := h.flight_of_phase hphase rfl
  · exact Refines.setPhase h hw hphase rfl (.succeed l.turn hflight)
  · exact Refines.setPhase h hw hphase rfl (.fail l.turn hflight)

theorem refines_recordAdmission (h : Kept l) (hw : Waits l)
    (hs : l.recordAdmission id = some l') : Refines l l' := by
  unfold Lifecycle.recordAdmission at hs
  split_ifs at hs with hphase
  obtain rfl := Option.some.inj hs
  obtain ⟨hentry, hflight⟩ := h.flight_of_phase hphase rfl
  exact Refines.setPhase h hw hphase rfl (.record l.turn hflight)

theorem refines_settleAdmission (h : Kept l) (hw : Waits l)
    (hs : l.settleAdmission id = some l') : Refines l l' := by
  unfold Lifecycle.settleAdmission at hs
  split_ifs at hs with hphase hphase'
  · obtain rfl := Option.some.inj hs
    obtain ⟨hentry, hflight⟩ := h.flight_of_phase hphase rfl
    exact Refines.setPhase h hw hphase rfl (.settle l.turn (.inl hflight))
  · obtain rfl := Option.some.inj hs
    obtain ⟨hentry, hflight⟩ := h.flight_of_phase hphase' rfl
    exact Refines.setPhase h hw hphase' rfl (.settle l.turn (.inr hflight))

section Reactions

variable {fulfilled : Bool} {reaction : Reaction} {reactions : List Reaction}

/-- A settled promise without its first reaction, that of an owner apart. -/
theorem Kept.rest (h : Kept l)
    (ha : l.admissions[id]? = some ⟨.settled fulfilled, reaction :: reactions⟩)
    (howner : reaction ≠ .owner) :
    l.admitting ≠ some id ∧ Kept (l.setAdmission id ⟨.settled fulfilled, reactions⟩) := by
  have hne : l.admitting ≠ some id := by
    intro hentry
    obtain ⟨a, rest, ha', hreactions, -⟩ := h.entry id hentry
    obtain rfl := Option.some.inj (ha.symm.trans ha')
    exact howner (List.cons.inj hreactions).1
  refine ⟨hne, ?_, ?_, ?_⟩
  · intro i a hi hother
    obtain ⟨b, hb, hphase, hsub, -, -⟩ := getElem?_rest ha hi
    obtain ⟨hsettled, hmem⟩ := h.others i b hb hother
    exact ⟨hphase ▸ hsettled, fun hcontra => hmem (hsub _ hcontra)⟩
  · intro i hi
    obtain ⟨a, rest, hget, hreactions, hrest⟩ := h.entry i hi
    have hother : id ≠ i := by
      rintro rfl
      exact hne hi
    refine ⟨a, rest, ?_, hreactions, hrest⟩
    unfold Lifecycle.setAdmission
    rw [List.getElem?_set_ne hother]
    exact hget
  · intro i a hi hfinish
    obtain ⟨b, hb, -, hsub, -, -⟩ := getElem?_rest ha hi
    exact h.finishes i b hb (hsub _ hfinish)

theorem Waits.rest (hw : Waits l)
    (ha : l.admissions[id]? = some ⟨.settled fulfilled, reaction :: reactions⟩)
    (hfinish : reaction ≠ .finish) :
    Waits (l.setAdmission id ⟨.settled fulfilled, reactions⟩) := by
  intro hcompleted
  refine (hw hcompleted).imp_right ?_
  rintro ⟨i, a, hi, hmem⟩
  by_cases hid : id = i
  · subst hid
    obtain rfl := Option.some.inj (ha.symm.trans hi)
    refine ⟨id, ⟨.settled fulfilled, reactions⟩, ?_, ?_⟩
    · unfold Lifecycle.setAdmission
      rw [List.getElem?_set_self (List.getElem?_eq_some_iff.mp ha).1]
    · exact (List.mem_cons.mp hmem).resolve_left hfinish.symm
  · refine ⟨i, a, ?_, hmem⟩
    unfold Lifecycle.setAdmission
    rw [List.getElem?_set_ne hid]
    exact hi

theorem turn_rest (ha : l.admissions[id]? = some ⟨.settled fulfilled, reaction :: reactions⟩) :
    (l.setAdmission id ⟨.settled fulfilled, reactions⟩).turn = l.turn := by
  have hphase : (l.setAdmission id ⟨.settled fulfilled, reactions⟩).phase? = l.phase? := by
    funext i
    show ((l.admissions.set id _)[i]?).map Admission.phase = (l.admissions[i]?).map Admission.phase
    by_cases hid : id = i
    · subst hid
      rw [List.getElem?_set_self (List.getElem?_eq_some_iff.mp ha).1, ha]
      rfl
    · rw [List.getElem?_set_ne hid]
  unfold turn flight
  rw [hphase]
  rfl

theorem refines_owner (h : Kept l) (hw : Waits l)
    (ha : l.admissions[id]? = some ⟨.settled fulfilled, .owner :: reactions⟩) :
    Refines l ((l.setAdmission id ⟨.settled fulfilled, reactions⟩).react fulfilled .owner) := by
  have hentry : l.admitting = some id := by
    by_contra hne
    exact (h.others id _ ha hne).2 List.mem_cons_self
  have hflight : l.flight = none := by
    have hphase : l.phase? id = some (.settled fulfilled) := by
      unfold phase?
      rw [ha]
      rfl
    unfold flight
    rw [hentry, Option.bind_some, hphase]
    rfl
  obtain ⟨b, rest, hb, hreactions, hrest⟩ := h.entry id hentry
  obtain rfl := Option.some.inj (ha.symm.trans hb)
  obtain rfl : reactions = rest := (List.cons.inj hreactions).2
  refine ⟨⟨?_, ?_, ?_⟩, hw.rest ha (by simp), .single ?_⟩
  · intro i a hi _
    obtain ⟨c, hc, hphase, -, hsame, hself⟩ := getElem?_rest ha hi
    by_cases hid : i = id
    · subst hid
      rw [← Option.some.inj (ha.symm.trans hc)] at hphase
      exact ⟨by rw [hphase]; rfl, hself rfl ▸ hrest⟩
    · obtain rfl := hsame hid
      apply h.others i a hc
      rw [hentry]
      exact fun heq => hid (Option.some.inj heq).symm
  · intro i hi
    cases hi
  · intro i a hi hfinish
    obtain ⟨b, hb, -, hsub, -, -⟩ := getElem?_rest ha hi
    exact ⟨(h.finishes i b hb (hsub _ hfinish)).1, fun other hother => by cases hother⟩
  · have hsilent := Turn.Next.silent l.turn (admitEnded fulfilled) trivial
    convert hsilent using 1
    show Turn.mk none _ _ _ _ _ = Turn.mk l.flight _ _ _ _ _
    rw [hflight]
    rfl

theorem refines_runReaction (h : Kept l) (hw : Waits l) (hs : l.runReaction id = some l') :
    Refines l l' := by
  unfold Lifecycle.runReaction at hs
  split at hs
  · rename_i fulfilled reaction reactions ha
    obtain rfl := Option.some.inj hs
    cases reaction with
    | owner => exact refines_owner h hw ha
    | joined =>
      have hsilent := Refines.silent (h.rest ha (by simp)).2 (hw.rest ha (by simp))
        (e := admitEnded fulfilled) trivial
      exact ⟨hsilent.kept, hsilent.waits, turn_rest ha ▸ hsilent.turns⟩
    | finish =>
      obtain ⟨hne, hkept⟩ := h.rest ha (by simp)
      obtain ⟨hcompleted, hothers⟩ := h.finishes id _ ha List.mem_cons_self
      -- The promise is no longer in the map, and no other one can be.
      have hnone : l.admitting = none := by
        cases hentry : l.admitting with
        | none => rfl
        | some other => exact absurd (hothers other hentry ▸ hentry) hne
      obtain ⟨hturns, hcallbacks, hadmissions, hadmitting, hdone⟩ :=
        finish_spec (l := l.setAdmission id ⟨.settled fulfilled, reactions⟩) hcompleted
          (flight_of_admitting hnone)
      exact ⟨hkept.congr hadmissions hadmitting hdone, fun _ => .inl hcallbacks,
        turn_rest ha ▸ hturns⟩
  · cases hs

end Reactions

theorem refines_step (h : Kept l) (hw : Waits l) {a : Action} (hs : l.step a = some l') :
    Refines l l' := by
  cases a with
  | markFollowupRunEnqueued =>
    obtain rfl := Option.some.inj hs
    exact refines_mark h hw
  | deferred accepted => exact refines_deferred h hw hs
  | retireFollowupRunCancellation =>
    obtain rfl := Option.some.inj hs
    exact refines_retire h hw
  | admitFollowupRunLifecycle =>
    obtain rfl := Option.some.inj hs
    exact refines_admit h hw
  | completeFollowupRunLifecycle =>
    obtain rfl := Option.some.inj hs
    exact refines_complete h
  | callOnSettled => exact refines_callOnSettled h hw hs
  | runAdmission id => exact refines_runAdmission h hw hs
  | endAdoption id succeeded => exact refines_endAdoption h hw hs
  | recordAdmission id => exact refines_recordAdmission h hw hs
  | settleAdmission id => exact refines_settleAdmission h hw hs
  | runReaction id => exact refines_runReaction h hw hs

end Steps

end Lifecycle

end Flashclaw.Followup
