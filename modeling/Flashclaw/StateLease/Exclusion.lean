import Flashclaw.StateLease.Steps

/-!
# State leases exclude each other

A row is removed by its owner or once it has expired, and an owner inserts its row only
once.  So the row that a check finds has been there since the call acquired it.
-/

namespace Flashclaw.StateLease

open State

variable {ο : Type} [DecidableEq ο] {options : ο → LeaseOptions}

def Owns (options : ο → LeaseOptions) (owner : ο) (table : Table ο) : Prop :=
  ∃ row ∈ table.rows, row.hasKey (identity options owner) = true ∧ row.owner = owner

theorem leaseOwned_iff {params : LeaseIdentity ο} {now : ℕ} {table : Table ο} :
    leaseOwned params now table = true ↔ ∃ row ∈ table.rows,
      row.hasKey params = true ∧ row.owner = params.owner ∧ now < row.expiresAt := by
  unfold leaseOwned
  simp only [List.any_eq_true, LeaseRow.isOwned, Bool.and_eq_true, decide_eq_true_eq, and_assoc]

theorem owns_of_leaseOwned {owner : ο} {now : ℕ} {table : Table ο}
    (h : leaseOwned (identity options owner) now table = true) : Owns options owner table := by
  obtain ⟨row, hrow, hkey, howner, -⟩ := leaseOwned_iff.mp h
  exact ⟨row, hrow, hkey, howner⟩

def SameKey (options : ο → LeaseOptions) (owner other : ο) : Prop :=
  (options owner).scope = (options other).scope ∧ (options owner).key = (options other).key

omit [DecidableEq ο] in
theorem hasKey_of_sameKey {owner other : ο} (h : SameKey options owner other) (row : LeaseRow ο) :
    row.hasKey (identity options owner) = row.hasKey (identity options other) := by
  unfold LeaseRow.hasKey identity
  rw [h.1, h.2]

omit [DecidableEq ο] in
/-- The key of a lease has one row, and this one owner. -/
theorem eq_of_owns {owner other : ο} {table : Table ο} (hkey : SameKey options owner other)
    (h : Owns options owner table) (h' : Owns options other table) : owner = other := by
  obtain ⟨row, hrow, hhas, rfl⟩ := h
  obtain ⟨row', hrow', hhas', rfl⟩ := h'
  rw [hasKey_of_sameKey hkey] at hhas
  rw [eq_of_hasKey hrow hrow' hhas hhas']

section Written

variable {s : State ο} {owner : ο} {action : Action} {table : Table ο}
  (h : Writes options s owner action table)

include h

/-- The rows of the others are not new. -/
theorem mem_of_writes {row : LeaseRow ο} (hrow : row ∈ table.rows) (hother : row.owner ≠ owner) :
    row ∈ s.table.rows := by
  cases h with
  | nothing h =>
    rw [← h]
    exact hrow
  | acquire deadline now haction hphase h =>
    rcases tryAcquire_eq (identity options owner) (options owner).leaseMs now s.table with
        ⟨-, -, -, -, heq⟩ | ⟨-, -, hmem⟩
    · rw [h, heq] at hrow
      exact (SqlTable.mem_delete.mp hrow).1
    · rw [h] at hrow
      rcases (hmem row).mp hrow with rfl | ⟨hold, -⟩
      · exact absurd rfl hother
      · exact hold
  | renew now expiresAt haction hphase h =>
    rcases (mem_renew h).mp hrow with ⟨hold, -⟩ | ⟨before, -, howned, rfl⟩
    · exact hold
    · unfold LeaseRow.isOwned at howned
      simp only [Bool.and_eq_true, decide_eq_true_eq] at howned
      exact absurd howned.1.2 hother
  | release ending deadline haction hphase h =>
    rw [h] at hrow
    exact (mem_release.mp hrow).1

/-- Only an acquisition gives a call its row. -/
theorem owns_of_writes (hacquires : ¬ Acquires options s owner action)
    (howns : Owns options owner table) : Owns options owner s.table := by
  obtain ⟨row, hrow, hkey, howner⟩ := howns
  cases h with
  | nothing h =>
    rw [h] at hrow
    exact ⟨row, hrow, hkey, howner⟩
  | acquire deadline now haction hphase h =>
    rcases tryAcquire_eq (identity options owner) (options owner).leaseMs now s.table with
        ⟨-, -, -, -, heq⟩ | ⟨-, hsome, -⟩
    · rw [h, heq] at hrow
      exact ⟨row, (SqlTable.mem_delete.mp hrow).1, hkey, howner⟩
    · exact absurd ⟨haction, deadline, now, hphase, by rw [hsome]; rfl⟩ hacquires
  | renew now expiresAt haction hphase h =>
    rcases (mem_renew h).mp hrow with ⟨hold, -⟩ | ⟨before, hbefore, -, rfl⟩
    · exact ⟨row, hold, hkey, howner⟩
    · exact ⟨before, hbefore, hkey, howner⟩
  | release ending deadline haction hphase h =>
    rw [h] at hrow
    exact ⟨row, (mem_release.mp hrow).1, hkey, howner⟩

end Written

theorem owns_of_acquires {s s' : State ο} {owner : ο} {action : Action}
    (h : s.act options owner action = some s') (hacquires : Acquires options s owner action) :
    Owns options owner s'.table := by
  obtain ⟨rfl, deadline, now, hphase, hsome⟩ := hacquires
  have hcommit : s' = s.commitAcquire options owner deadline now := by
    unfold act at h
    dsimp only at h
    rw [hphase] at h
    exact (Option.some.inj h).symm
  rcases tryAcquire_eq (identity options owner) (options owner).leaseMs now s.table with
        ⟨-, -, -, -, heq⟩ | ⟨-, -, hmem⟩
  · rw [heq] at hsome
    cases hsome
  · rw [hcommit]
    refine ⟨_, (hmem _).mpr (.inl rfl), ?_, rfl⟩
    unfold LeaseRow.hasKey
    simp

section Runs

variable (options) (table : Table ο)

/-- No other call acquires the lease of `owner` by the step. -/
def noOther (owner : ο) (s : State ο) : Label ο → Bool
  | .act other .commit =>
    match (s.call other).phase with
    | .tryAcquire _ now =>
      let acquired := tryAcquire (identity options other) (options other).leaseMs now s.table
      other = owner || (options owner).scope ≠ (options other).scope ||
        (options owner).key ≠ (options other).key || acquired.2.isNone
    | _ => true
  | _ => true

abbrev Runs (ls : List (Label ο)) (s : State ο) : Prop :=
  (machine options table).Run (fun _ _ => True) ls s

/-- The call has acquired its lease, and while it has its row no other call has since. -/
def AcquiredBefore (owner : ο) (ls : List (Label ο)) (s : State ο) : Prop :=
  ∃ before s₀ mid, ls = before ++ .act owner .commit :: mid ∧ Runs options table before s₀ ∧
    Acquires options s₀ owner .commit ∧ (Owns options owner s.table →
      (machine options table).execOk (noOther options owner) s₀ (.act owner .commit :: mid) =
        some s)

/-- The call has passed a check, and by the clock that it sampled its lease had not expired. -/
def CheckedBefore (owner : ο) (check : Check) (ls : List (Label ο)) (s : State ο) : Prop :=
  ∃ before s₀ mid, ls = before ++ .act owner .check :: mid ∧ Runs options table before s₀ ∧
    (s.call owner).phase = .checking check s₀.clock ∧
    ∀ row ∈ s.table.rows, row.owner = owner → row ∈ s₀.table.rows

variable {options table} {owner : ο} {ls : List (Label ο)} {s s' : State ο} {l : Label ο}

theorem noOther_of (h : ∀ other, l = .act other .commit → other ≠ owner →
    SameKey options owner other → ¬ Acquires options s other .commit) :
    noOther options owner s l = true := by
  unfold noOther
  split
  · rename_i other
    split
    · rename_i deadline now hphase
      by_cases hsame : other = owner
      · simp [hsame]
      · by_cases hkey : SameKey options owner other
        · have hnone := h other rfl hsame hkey
          rw [Bool.or_eq_true, Option.isNone_iff_eq_none]
          right
          by_contra hsome
          exact hnone ⟨rfl, deadline, now, hphase, Option.isSome_iff_ne_none.mpr hsome⟩
        · unfold SameKey at hkey
          by_cases hscope : (options owner).scope = (options other).scope
          · have hkey : (options owner).key ≠ (options other).key := fun h => hkey ⟨hscope, h⟩
            simp [hkey]
          · simp [hscope]
    · rfl
  · rfl

/-- As long as a call keeps its row no step gives the lease to another. -/
theorem noOther_of_owns (h : State.step options s l = some s')
    (howns : Owns options owner s'.table) : noOther options owner s l = true := by
  apply noOther_of
  rintro other rfl hother hkey hacquires
  exact hother (eq_of_owns hkey howns (owns_of_acquires h hacquires)).symm

theorem owns_of_step (h : State.step options s l = some s')
    (hacquires : ∀ action, l = .act owner action → ¬ Acquires options s owner action)
    (howns : Owns options owner s'.table) : Owns options owner s.table := by
  cases l with
  | pass clock elapsed =>
    unfold State.step at h
    dsimp only at h
    split_ifs at h
    obtain rfl := Option.some.inj h
    exact howns
  | act actor action =>
    have hwrites := act_writes h
    by_cases hactor : actor = owner
    · subst hactor
      exact owns_of_writes hwrites (hacquires action rfl) howns
    · obtain ⟨row, hrow, hkey, howner⟩ := howns
      refine ⟨row, mem_of_writes hwrites hrow ?_, hkey, howner⟩
      rw [howner]
      exact Ne.symm hactor

theorem AcquiredBefore.step (hbefore : AcquiredBefore options table owner ls s)
    (h : State.step options s l = some s')
    (hacquires : ∀ action, l = .act owner action → ¬ Acquires options s owner action) :
    AcquiredBefore options table owner (ls ++ [l]) s' := by
  obtain ⟨before, s₀, mid, rfl, hrun, hacquired, hquiet⟩ := hbefore
  refine ⟨before, s₀, mid ++ [l], by simp, hrun, hacquired, ?_⟩
  intro howns
  rw [← List.cons_append]
  exact TransitionSystem.execOk_concat _ (hquiet (owns_of_step h hacquires howns))
    (noOther_of_owns h howns) h

/-- The stage of a call that does not move. -/
theorem call_of_step (h : State.step options s l = some s')
    (hl : ∀ action, l ≠ .act owner action) : s'.call owner = s.call owner := by
  cases l with
  | pass clock elapsed =>
    unfold State.step at h
    dsimp only at h
    split_ifs at h
    obtain rfl := Option.some.inj h
    rfl
  | act actor action =>
    apply act_other h
    rintro rfl
    exact hl action rfl

theorem acquired_before (hrun : Runs options table ls s)
    (hstage : (s.call owner).phase.stage = .waiting ∨ (s.call owner).phase.stage = .inside) :
    AcquiredBefore options table owner ls s := by
  induction hrun with
  | start => rcases hstage with hstage | hstage <;> cases hstage
  | @step ls s l s' hrun _ h ih =>
    have hstep : State.step options s l = some s' := h
    by_cases hl : ∃ action, l = .act owner action
    · obtain ⟨action, rfl⟩ := hl
      -- what acquires a lease is outside before
      have hkeeps : (s.call owner).phase.stage = .waiting ∨
          (s.call owner).phase.stage = .inside →
          AcquiredBefore options table owner (ls ++ [.act owner action]) s' := by
        intro hbefore
        apply (ih hbefore).step hstep
        rintro action' hl' ⟨-, deadline, now, hphase, -⟩
        rw [hphase] at hbefore
        rcases hbefore with hbefore | hbefore <;> cases hbefore
      cases act_moves h with
      | failing hstage' => rw [hstage'] at hstage; rcases hstage with hstage | hstage <;> cases hstage
      | outside hstage' => rw [hstage'] at hstage; rcases hstage with hstage | hstage <;> cases hstage
      | same hsame =>
        rw [hsame] at hstage
        exact hkeeps hstage
      | within hsame =>
        rw [hsame] at hstage
        exact hkeeps hstage
      | acquired hacquires =>
        have haction := hacquires.1
        subst haction
        refine ⟨ls, s, [], rfl, hrun, hacquires, ?_⟩
        intro howns
        exact TransitionSystem.execOk_concat [] rfl (noOther_of_owns hstep howns) h
      | checking check haction hsame =>
        rw [hsame] at hstage
        exact hkeeps hstage
      | entered now haction hphase =>
        apply hkeeps
        rw [hphase]
        exact .inl rfl
      | verified now haction hphase howned hreturning =>
        rw [hreturning] at hstage
        rcases hstage with hstage | hstage <;> cases hstage
    · have hl : ∀ action, l ≠ .act owner action := fun action heq => hl ⟨action, heq⟩
      rw [call_of_step hstep hl] at hstage
      exact (ih hstage).step hstep fun action heq => absurd heq (hl action)

theorem table_of_commit {action : Action} (h : s.act options owner action = some s')
    (haction : action ≠ .commit) : s'.table = s.table := by
  cases act_writes h with
  | nothing h => exact h
  | acquire _ _ hcommit => exact absurd hcommit haction
  | renew _ _ hcommit => exact absurd hcommit haction
  | release _ _ hcommit => exact absurd hcommit haction

theorem table_of_checking {action : Action} (h : s.act options owner action = some s')
    {check : Check} {now : ℕ} (hphase : (s.call owner).phase = .checking check now) :
    s'.table = s.table := by
  cases act_writes h with
  | nothing h => exact h
  | acquire _ _ _ hphase' =>
    rw [hphase] at hphase'
    cases hphase'
  | renew _ _ _ hphase' =>
    rw [hphase] at hphase'
    cases hphase'
  | release _ _ _ hphase' =>
    rw [hphase] at hphase'
    cases hphase'

theorem checked_before {check : Check} {now : ℕ} (hrun : Runs options table ls s)
    (hphase : (s.call owner).phase = .checking check now) :
    CheckedBefore options table owner check ls s := by
  induction hrun with
  | start => cases hphase
  | @step ls s l s' hrun _ h ih =>
    have hstep : State.step options s l = some s' := h
    by_cases hl : ∃ action, l = .act owner action
    · obtain ⟨action, rfl⟩ := hl
      cases act_moves h with
      | same hsame =>
        rw [hsame] at hphase
        obtain ⟨before, s₀, mid, rfl, hrun₀, hclock, hrows⟩ := ih hphase
        refine ⟨before, s₀, mid ++ [.act owner action], by simp, hrun₀, hsame.trans hclock, ?_⟩
        -- the call is at the check already, and what it does there writes nothing
        rw [table_of_checking h hphase]
        exact hrows
      | checking check' haction _ hnow =>
        -- this step reads the clock for the check
        subst haction
        rw [hphase] at hnow
        obtain ⟨rfl, rfl⟩ := Phase.checking.inj hnow
        refine ⟨ls, s, [], rfl, hrun, hphase, ?_⟩
        rw [table_of_commit h (by rintro ⟨⟩)]
        exact fun row hrow _ => hrow
      | failing hstage =>
        rw [hphase] at hstage
        cases check <;> cases hstage
      | outside hstage =>
        rw [hphase] at hstage
        cases check <;> cases hstage
      | within _ hcheck => exact absurd hphase (hcheck check now)
      | acquired _ _ hnow =>
        rw [hphase] at hnow
        cases hnow
      | entered _ _ _ _ hnow =>
        rw [hphase] at hnow
        cases hnow
      | verified _ _ _ _ _ hcheck => exact absurd hphase (hcheck check now)
    · have hl : ∀ action, l ≠ .act owner action := fun action heq => hl ⟨action, heq⟩
      rw [call_of_step hstep hl] at hphase
      obtain ⟨before, s₀, mid, rfl, hrun₀, hclock, hrows⟩ := ih hphase
      refine ⟨before, s₀, mid ++ [l], by simp, hrun₀, ?_, ?_⟩
      · rw [call_of_step hstep hl]
        exact hclock
      · intro row hrow howner
        apply hrows row _ howner
        cases l with
        | pass clock elapsed =>
          unfold State.step at hstep
          dsimp only at hstep
          split_ifs at hstep
          obtain rfl := Option.some.inj hstep
          exact hrow
        | act actor action =>
          -- another owner writes no row of this one
          apply mem_of_writes (act_writes h) hrow
          rw [howner]
          rintro rfl
          exact hl action rfl

/-- What a check finds was there when it sampled the clock. -/
theorem CheckedBefore.owned {check : Check} {now : ℕ}
    (h : CheckedBefore options table owner check ls s)
    (hphase : (s.call owner).phase = .checking check now)
    (howned : leaseOwned (identity options owner) now s.table = true) :
    ∃ before s₀ mid, ls = before ++ .act owner .check :: mid ∧ Runs options table before s₀ ∧
      now = s₀.clock ∧ leaseOwned (identity options owner) s₀.clock s₀.table = true := by
  obtain ⟨before, s₀, mid, hls, hrun, hclock, hrows⟩ := h
  rw [hphase] at hclock
  obtain ⟨-, rfl⟩ := Phase.checking.inj hclock
  obtain ⟨row, hrow, hkey, howner, hlater⟩ := leaseOwned_iff.mp howned
  refine ⟨before, s₀, mid, hls, hrun, rfl, ?_⟩
  exact leaseOwned_iff.mpr ⟨row, hrows row hrow howner, hkey, howner, hlater⟩

/-- A check by which a call gets on: the clock is sampled behind `before`, the table is read behind
`mid`, and at both times the call has a lease that has not expired by that clock. -/
def Passed (options : ο → LeaseOptions) (table : Table ο) (owner : ο) (check : Check)
    (before mid : List (Label ο)) : Prop :=
  ∃ s₀ s₁, Runs options table before s₀ ∧
    Runs options table (before ++ .act owner .check :: mid) s₁ ∧
    (s₁.call owner).phase = .checking check s₀.clock ∧
    leaseOwned (identity options owner) s₀.clock s₀.table = true ∧
    leaseOwned (identity options owner) s₀.clock s₁.table = true

/-- The callback of a call is entered behind a check that it has passed. -/
def EnteredOwned (options : ο → LeaseOptions) (table : Table ο) (owner : ο)
    (ls : List (Label ο)) : Prop :=
  ∃ before mid after, ls = before ++ .act owner .check :: (mid ++ .act owner (.read false) :: after) ∧
    Passed options table owner .entry before mid

/-- A call has passed its last check, and no other has acquired the lease between its acquisition
and this check. -/
def ReturnedAlone (options : ο → LeaseOptions) (table : Table ο) (owner : ο)
    (ls : List (Label ο)) : Prop :=
  ∃ before s₀ mid s₁ after,
    ls = before ++ .act owner .commit :: (mid ++ .act owner (.read false) :: after) ∧
    Runs options table before s₀ ∧ Acquires options s₀ owner .commit ∧
    (machine options table).execOk (noOther options owner) s₀ (.act owner .commit :: mid) =
      some s₁ ∧
    ∃ before' mid', before ++ .act owner .commit :: mid = before' ++ .act owner .check :: mid' ∧
      Passed options table owner .final before' mid'

theorem passed {check : Check} {now : ℕ} (hrun : Runs options table ls s)
    (hphase : (s.call owner).phase = .checking check now)
    (howned : leaseOwned (identity options owner) now s.table = true) :
    ∃ before mid, ls = before ++ .act owner .check :: mid ∧
      Passed options table owner check before mid := by
  obtain ⟨before, s₀, mid, rfl, hrun₀, rfl, hsampled⟩ :=
    (checked_before hrun hphase).owned hphase howned
  exact ⟨before, mid, rfl, s₀, s, hrun₀, hrun, hphase, hsampled, howned⟩

theorem EnteredOwned.step (h : EnteredOwned options table owner ls) (l : Label ο) :
    EnteredOwned options table owner (ls ++ [l]) := by
  obtain ⟨before, mid, after, rfl, hpassed⟩ := h
  exact ⟨before, mid, after ++ [l], by simp, hpassed⟩

theorem ReturnedAlone.step (h : ReturnedAlone options table owner ls) (l : Label ο) :
    ReturnedAlone options table owner (ls ++ [l]) := by
  obtain ⟨before, s₀, mid, s₁, after, rfl, hrest⟩ := h
  exact ⟨before, s₀, mid, s₁, after ++ [l], by simp, hrest⟩

theorem enteredOwned (hrun : Runs options table ls s)
    (hstage : (s.call owner).phase.stage = .inside) : EnteredOwned options table owner ls := by
  induction hrun with
  | start => cases hstage
  | @step ls s l s' hrun _ h ih =>
    have hstep : State.step options s l = some s' := h
    by_cases hl : ∃ action, l = .act owner action
    · obtain ⟨action, rfl⟩ := hl
      cases act_moves h with
      | failing hstage' =>
        rw [hstage'] at hstage
        cases hstage
      | outside hstage' =>
        rw [hstage'] at hstage
        cases hstage
      | same hsame =>
        rw [hsame] at hstage
        exact (ih hstage).step _
      | within hsame =>
        rw [hsame] at hstage
        exact (ih hstage).step _
      | acquired _ _ hphase =>
        rw [hphase] at hstage
        cases hstage
      | checking check _ hsame =>
        rw [hsame] at hstage
        exact (ih hstage).step _
      | entered now haction hphase howned =>
        subst haction
        obtain ⟨before, mid, rfl, hpassed⟩ := passed hrun hphase howned
        exact ⟨before, mid, [], by simp, hpassed⟩
      | verified _ _ _ _ hreturning =>
        rw [hreturning] at hstage
        cases hstage
    · have hl : ∀ action, l ≠ .act owner action := fun action heq => hl ⟨action, heq⟩
      rw [call_of_step hstep hl] at hstage
      exact (ih hstage).step _

theorem returnedAlone (hrun : Runs options table ls s)
    (hstage : (s.call owner).phase.stage = .returning) :
    ReturnedAlone options table owner ls := by
  induction hrun with
  | start => cases hstage
  | @step ls s l s' hrun _ h ih =>
    have hstep : State.step options s l = some s' := h
    by_cases hl : ∃ action, l = .act owner action
    · obtain ⟨action, rfl⟩ := hl
      cases act_moves h with
      | failing hstage' =>
        rw [hstage'] at hstage
        cases hstage
      | outside hstage' =>
        rw [hstage'] at hstage
        cases hstage
      | same hsame =>
        rw [hsame] at hstage
        exact (ih hstage).step _
      | within hsame =>
        rw [hsame] at hstage
        exact (ih hstage).step _
      | acquired _ _ hphase =>
        rw [hphase] at hstage
        cases hstage
      | checking check _ hsame =>
        rw [hsame] at hstage
        exact (ih hstage).step _
      | entered _ _ _ _ hphase =>
        rw [hphase] at hstage
        cases hstage
      | verified now haction hphase howned =>
        subst haction
        have hinside : (s.call owner).phase.stage = .inside := by
          rw [hphase]
          rfl
        obtain ⟨before, s₀, mid, rfl, hrun₀, hacquires, hquiet⟩ :=
          acquired_before hrun (.inr hinside)
        obtain ⟨before', mid', hls, hpassed⟩ := passed hrun hphase howned
        exact ⟨before, s₀, mid, s, [], by simp, hrun₀, hacquires,
          hquiet (owns_of_leaseOwned howned), before', mid', hls, hpassed⟩
    · have hl : ∀ action, l ≠ .act owner action := fun action heq => hl ⟨action, heq⟩
      rw [call_of_step hstep hl] at hstage
      exact (ih hstage).step _

/-- What a step writes: a row appears by an acquisition that finds every row of its key expired, or
by a renewal of a row that has not expired; it vanishes by a step of its owner, or expired. -/
structure Framed (options : ο → LeaseOptions) (s : State ο) (l : Label ο) (s' : State ο) : Prop where
  appears : ∀ row ∈ s'.table.rows, row ∉ s.table.rows → ∃ owner, l = .act owner .commit ∧
    row.owner = owner ∧ row.hasKey (identity options owner) = true ∧
    ((∃ deadline now, (s.call owner).phase = .tryAcquire deadline now ∧
      ∀ old ∈ s.table.rows, old.hasKey (identity options owner) = true → old.expiresAt ≤ now) ∨
    ∃ now, (s.call owner).phase = .renew now ∧
      ∃ old ∈ s.table.rows, old.isOwned (identity options owner) now = true)
  vanishes : ∀ row ∈ s.table.rows, row ∉ s'.table.rows → ∃ owner, l = .act owner .commit ∧
    row.hasKey (identity options owner) = true ∧
    (row.owner = owner ∨ ∃ deadline now, (s.call owner).phase = .tryAcquire deadline now ∧
      row.expiresAt ≤ now)

theorem isOwned_iff {params : LeaseIdentity ο} {now : ℕ} {row : LeaseRow ο} :
    row.isOwned params now = true ↔
      row.hasKey params = true ∧ row.owner = params.owner ∧ now < row.expiresAt := by
  unfold LeaseRow.isOwned
  simp only [Bool.and_eq_true, decide_eq_true_eq, and_assoc]

theorem framed (h : State.step options s l = some s') : Framed options s l s' := by
  -- most steps leave the table alone
  have hsame : s'.table = s.table → Framed options s l s' := by
    intro htable
    constructor <;> intro row hrow hne
    · rw [htable] at hrow
      exact absurd hrow hne
    · rw [htable] at hne
      exact absurd hrow hne
  cases l with
  | pass clock elapsed =>
    unfold State.step at h
    dsimp only at h
    split_ifs at h
    obtain rfl := Option.some.inj h
    exact hsame rfl
  | act owner action =>
    cases act_writes h with
    | nothing htable => exact hsame htable
    | acquire deadline now haction hphase htable =>
      subst haction
      rcases tryAcquire_eq (identity options owner) (options owner).leaseMs now s.table with
        ⟨-, -, -, -, heq⟩ | ⟨hexpired, -, hmem⟩
      · rw [heq] at htable
        constructor <;> intro row hrow hne
        · rw [htable] at hrow
          exact absurd (SqlTable.mem_delete.mp hrow).1 hne
        · rw [htable, SqlTable.mem_delete, not_and, Bool.not_eq_false] at hne
          -- a row that is gone had expired
          have hgone := hne hrow
          rw [Bool.and_eq_true, decide_eq_true_eq] at hgone
          exact ⟨owner, rfl, hgone.1, .inr ⟨deadline, now, hphase, hgone.2⟩⟩
      · constructor <;> intro row hrow hne
        · rw [htable] at hrow
          rcases (hmem row).mp hrow with rfl | ⟨hold, -⟩
          · refine ⟨owner, rfl, rfl, ?_, .inl ⟨deadline, now, hphase, hexpired⟩⟩
            unfold LeaseRow.hasKey
            simp
          · exact absurd hold hne
        · rw [htable, hmem, not_or, not_and, Bool.not_eq_false] at hne
          have hkey := hne.2 hrow
          exact ⟨owner, rfl, hkey, .inr ⟨deadline, now, hphase, hexpired row hrow hkey⟩⟩
    | renew now expiresAt haction hphase hrenew =>
      subst haction
      constructor <;> intro row hrow hne
      · rcases (mem_renew hrenew).mp hrow with ⟨hold, -⟩ | ⟨old, hold, howned, rfl⟩
        · exact absurd hold hne
        · obtain ⟨hkey, howner, -⟩ := isOwned_iff.mp howned
          exact ⟨owner, rfl, howner, hkey, .inr ⟨now, hphase, old, hold, howned⟩⟩
      · rw [mem_renew hrenew, not_or, not_and, Bool.not_eq_false] at hne
        obtain ⟨hkey, howner, -⟩ := isOwned_iff.mp (hne.1 hrow)
        exact ⟨owner, rfl, hkey, .inl howner⟩
    | release ending deadline haction hphase htable =>
      subst haction
      constructor <;> intro row hrow hne
      · rw [htable] at hrow
        exact absurd (mem_release.mp hrow).1 hne
      · rw [htable, mem_release, not_and, Classical.not_imp, ne_eq, not_not] at hne
        obtain ⟨hkey, howner⟩ := hne hrow
        exact ⟨owner, rfl, hkey, .inl howner⟩

/-- State leases exclude each other. -/
theorem leases_exclude (options : ο → LeaseOptions) (table : Table ο) (ls : List (Label ο))
    (s : State ο) (hrun : Runs options table ls s) :
    (∀ owner other now now', SameKey options owner other →
      leaseOwned (identity options owner) now s.table = true →
      leaseOwned (identity options other) now' s.table = true → owner = other) ∧
    (∀ owner, (s.call owner).phase.stage = .inside → EnteredOwned options table owner ls) ∧
    (∀ owner, (s.call owner).phase = .settled .value → ReturnedAlone options table owner ls) ∧
    ∀ l s', State.step options s l = some s' → Framed options s l s' := by
  refine ⟨?_, ?_, ?_, ?_⟩
  · intro owner other now now' hkey howned howned'
    exact eq_of_owns hkey (owns_of_leaseOwned howned) (owns_of_leaseOwned howned')
  · intro owner hstage
    exact enteredOwned hrun hstage
  · intro owner hphase
    apply returnedAlone hrun
    rw [hphase]
    rfl
  · intro l s' h
    exact framed h

end Runs

def emptyTable : Table ℕ := SqlTable.empty

def sampleOptions (_ : ℕ) : LeaseOptions where
  scope := Utf16.ofString "plugin:memory-core:qmd"
  key := Utf16.ofString "embed"
  leaseMs := 1000
  waitMs := 0

/-- A call that acquires its lease. -/
def acquisition (owner : ℕ) : List (Label ℕ) := [.act owner .start, .act owner .begin]

/-- What it does until it has released the lease again. -/
def operation (owner : ℕ) : List (Label ℕ) :=
  [.act owner .commit, .act owner .proceed, .act owner .check, .act owner (.read false),
    .act owner (.callback true), .act owner .check, .act owner (.read false), .act owner .begin,
    .act owner .commit]

/-- A call that waits for its lease for some time. -/
def patientOptions (owner : ℕ) : LeaseOptions := { sampleOptions owner with waitMs := 500 }

/-- A call finds the lease taken, and acquires it when the other one has released it. -/
def contendedRun : List (Label ℕ) :=
  acquisition 0 ++ (operation 0).take 4 ++ acquisition 1 ++ [.act 1 .commit, .act 1 .proceed] ++
    (operation 0).drop 4 ++ [.act 0 .settle, .pass 40 40, .act 1 .begin] ++ operation 1 ++
      [.act 1 .settle]

theorem leases_exclude_sample : ∃ s, Runs patientOptions emptyTable contendedRun s ∧
    (s.call 0).phase = .settled .value ∧ (s.call 1).phase = .settled .value ∧
    ReturnedAlone patientOptions emptyTable 0 contendedRun ∧
    ReturnedAlone patientOptions emptyTable 1 contendedRun := by
  obtain ⟨s, hrun, hphases⟩ := TransitionSystem.exists_run_of_exec
    (T := machine patientOptions emptyTable)
    (fun s => decide ((s.call 0).phase = .settled .value ∧ (s.call 1).phase = .settled .value))
    contendedRun (by decide)
  obtain ⟨hfirst, hsecond⟩ := of_decide_eq_true hphases
  exact ⟨s, hrun, hfirst, hsecond, (leases_exclude _ _ _ s hrun).2.2.1 0 hfirst,
    (leases_exclude _ _ _ s hrun).2.2.1 1 hsecond⟩

/-- The lease is released before the promise is settled, and another call is there first. -/
theorem lease_taken_before_return :
    (∃ s, Runs sampleOptions emptyTable (acquisition 0) s ∧
      Acquires sampleOptions s 0 .commit) ∧
    (∃ s, Runs sampleOptions emptyTable (acquisition 0 ++ operation 0 ++ acquisition 1) s ∧
      Acquires sampleOptions s 1 .commit) ∧
    ∃ s, Runs sampleOptions emptyTable (acquisition 0 ++ operation 0 ++ acquisition 1 ++
        [.act 1 .commit, .act 0 .settle]) s ∧ (s.call 0).phase = .settled .value := by
  have hacquires : ∀ (s : State ℕ) (owner : ℕ),
      (decide ((s.call owner).phase = .tryAcquire 0 0) && (tryAcquire (identity sampleOptions owner)
        1000 0 s.table).2.isSome) = true → Acquires sampleOptions s owner .commit := by
    intro s owner h
    rw [Bool.and_eq_true, decide_eq_true_eq] at h
    exact ⟨rfl, 0, 0, h⟩
  refine ⟨?_, ?_, ?_⟩
  · obtain ⟨s, hrun, h⟩ := TransitionSystem.exists_run_of_exec
      (T := machine sampleOptions emptyTable)
      (fun s => decide ((s.call 0).phase = .tryAcquire 0 0) &&
        (tryAcquire (identity sampleOptions 0) 1000 0 s.table).2.isSome)
      (acquisition 0) (by decide)
    exact ⟨s, hrun, hacquires s 0 h⟩
  · obtain ⟨s, hrun, h⟩ := TransitionSystem.exists_run_of_exec
      (T := machine sampleOptions emptyTable)
      (fun s => decide ((s.call 1).phase = .tryAcquire 0 0) &&
        (tryAcquire (identity sampleOptions 1) 1000 0 s.table).2.isSome)
      (acquisition 0 ++ operation 0 ++ acquisition 1) (by decide)
    exact ⟨s, hrun, hacquires s 1 h⟩
  · obtain ⟨s, hrun, h⟩ := TransitionSystem.exists_run_of_exec
      (T := machine sampleOptions emptyTable)
      (fun s => decide ((s.call 0).phase = .settled .value))
      (acquisition 0 ++ operation 0 ++ acquisition 1 ++ [.act 1 .commit, .act 0 .settle]) (by decide)
    exact ⟨s, hrun, of_decide_eq_true h⟩

end Flashclaw.StateLease
