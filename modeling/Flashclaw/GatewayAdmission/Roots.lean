import Flashclaw.GatewayAdmission.Fences
import Mathlib.Data.List.Induction
import Mathlib.Data.Set.Card

/-!
# Gateway work admission: roots, handles and waiters

The references of a root are its handles not yet called; whoever waits for
admission to open, or for the last root to go, is woken when that happens.
-/

namespace Flashclaw.GatewayAdmission

namespace State

/-- What the module keeps of the roots and their handles. -/
structure Roots where
  admission : ℕ → GatewayRootWorkAdmission
  nextAdmission : ℕ
  handle : ℕ → ReleaseHandle
  nextHandle : ℕ
  activeRootWork : Finset ℕ

def roots (s : State) : Roots :=
  ⟨s.admission, s.nextAdmission, s.handle, s.nextHandle, s.activeRootWork⟩

variable (s : State)

/-- `retainGatewayRootWorkAdmissionContinuation` under the live admission `a`. -/
def retain (a : ℕ) : State :=
  { s with
    admission := Function.update s.admission a
      { s.admission a with references := (s.admission a).references + 1 }
    }.createGatewayRootWorkRelease a

/-- What a step does to the roots and handles. -/
inductive HandleMove (l : Label) (s' : State) : Prop
  | keep (hl : ∀ current handle, l ≠ .call current (.release handle)) (h : s'.roots = s.roots)
  | join (hl : ∀ current handle, l ≠ .call current (.release handle))
      (h : s'.roots = s.createGatewayRootWorkAdmission.roots)
  | retain (hl : ∀ current handle, l ≠ .call current (.release handle)) (a : ℕ)
      (hlive : (s.admission a).released = false) (h : s'.roots = (s.retain a).roots)
  | release (current : Option ℕ) (handle : ℕ) (hl : l = .call current (.release handle))
      (h : s'.roots = (s.release handle).roots)
  | reset (hl : ∀ current handle, l ≠ .call current (.release handle))
      (h : s'.roots = { s.roots with
        admission := fun a => if a ∈ s.activeRootWork then ⟨0, true⟩ else s.admission a
        activeRootWork := ∅ })

variable {s}

theorem handleMove_independentRoot {l : Label}
    (hl : ∀ current handle, l ≠ .call current (.release handle)) :
    HandleMove s l s.tryBeginGatewayIndependentRootWorkAdmission.1 := by
  unfold tryBeginGatewayIndependentRootWorkAdmission
  split_ifs
  · exact .keep hl rfl
  · exact .join hl rfl

theorem handleMove_root {l : Label} (hl : ∀ current handle, l ≠ .call current (.release handle))
    (current : Option ℕ) : HandleMove s l (s.tryBeginGatewayRootWorkAdmission current).1 := by
  unfold tryBeginGatewayRootWorkAdmission
  split_ifs
  · exact .keep hl rfl
  · exact handleMove_independentRoot hl

theorem handleMove_attempt {l : Label} (hl : ∀ current handle, l ≠ .call current (.release handle))
    (a : Attempt) : HandleMove s l (s.attempt a).1 := by
  cases a with
  | rootWorkWhenOpen current =>
    have h := handleMove_root (s := s) hl current
    simp only [attempt]
    split_ifs
    · exact .keep hl rfl
    · split
      · exact .keep hl rfl
      · exact h
  | independentRootWork =>
    have h := handleMove_independentRoot (s := s) hl
    simp only [attempt]
    split_ifs
    · exact .keep hl rfl
    · split
      · exact .keep hl rfl
      · exact h

theorem roots_clearRestartSignalFence (s : State) : s.clearRestartSignalFence.1.roots = s.roots := by
  unfold clearRestartSignalFence
  split_ifs <;> rfl

theorem roots_transition (s : State) (generation : ℕ) (expected next : SuspendPhase) :
    (s.transition generation expected next).1.roots = s.roots := by
  unfold transition
  simp only
  split_ifs <;> rfl

theorem handleMove_perform (current : Option ℕ) (c : Call) :
    HandleMove s (.call current c) (s.perform current c).1 := by
  cases c with
  | markGatewayRestartDraining =>
    apply HandleMove.keep (by simp)
    simp only [perform, markGatewayRestartDraining, invalidateSuspendAdmission]
    split_ifs <;> rfl
  | beginGatewayRestartSignalAdmission =>
    apply HandleMove.keep (by simp)
    simp only [perform, beginGatewayRestartSignalAdmission]
    split_ifs <;> rfl
  | restartSignalRollback generation =>
    apply HandleMove.keep (by simp)
    simp only [perform, restartSignalRollback]
    split_ifs
    · rfl
    · exact s.roots_clearRestartSignalFence
  | rollbackGatewayRestartSignalFence => exact .keep (by simp) s.roots_clearRestartSignalFence
  | tryBeginGatewayRootWorkAdmission => exact handleMove_root (by simp) current
  | beginGatewayRootWorkAdmissionWhenOpen => exact handleMove_attempt (by simp) _
  | runWithGatewayIndependentRootWorkAdmission => exact handleMove_attempt (by simp) _
  | runWithGatewayIndependentRootWorkContinuation =>
    simp only [perform, runWithGatewayIndependentRootWorkContinuation]
    split_ifs
    · exact .join (by simp) rfl
    · exact handleMove_attempt (by simp) _
  | retainGatewayRootWorkAdmissionContinuation =>
    simp only [perform, retainGatewayRootWorkAdmissionContinuation]
    split
    · exact .keep (by simp) rfl
    · rename_i a ha
      exact .retain (by simp) a (s.live_eq_some.mp ha).2 rfl
  | release handle => exact .release current handle rfl rfl
  | waitForActiveGatewayRootWork timeoutIsZero =>
    apply HandleMove.keep (by simp)
    simp only [perform, waitForActiveGatewayRootWork]
    split_ifs <;> rfl
  | tryBeginGatewaySuspendAdmission =>
    apply HandleMove.keep (by simp)
    simp only [perform, tryBeginGatewaySuspendAdmission]
    split_ifs <;> rfl
  | suspendCommit generation => exact .keep (by simp) (s.roots_transition generation _ _)
  | suspendRollback generation => exact .keep (by simp) (s.roots_transition generation _ _)
  | suspendRelease generation => exact .keep (by simp) (s.roots_transition generation _ _)
  | resetGatewayWorkAdmission =>
    apply HandleMove.reset (by simp)
    simp only [perform, resetGatewayWorkAdmission, invalidateSuspendAdmission]
    split_ifs <;> rfl

theorem handleMove_step {s' : State} {l : Label} (h : machine.step s l = some s') :
    HandleMove s l s' := by
  change s.step l = some s' at h
  cases l with
  | call current c =>
    cases h
    exact handleMove_perform current c
  | retry waiter =>
    simp only [step] at h
    split_ifs at h
    cases h
    cases handleMove_attempt (s := { s with woken := s.woken.erase waiter }) (l := .retry waiter)
        (by simp) waiter.attempt with
    | keep hl h => exact .keep hl h
    | join hl h => exact .join hl h
    | retain hl a hlive h => exact .retain hl a hlive h
    | release current handle hl h => cases hl
    | reset hl h => exact .reset hl h
  | drainTimeout id =>
    simp only [step] at h
    split_ifs at h
    cases h
    exact .keep (by simp) rfl
  | callbackReturn throws =>
    simp only [step] at h
    split at h
    · cases h
    · split_ifs at h <;> cases h <;> exact .keep (by simp) rfl

variable (s) in
/-- The handles of a root that are still to be released. -/
def unreleased (a : ℕ) : Finset ℕ :=
  (Finset.range s.nextHandle).filter fun handle =>
    (s.handle handle).admission = a ∧ (s.handle handle).leaseReleased = false

theorem mem_unreleased {a handle : ℕ} : handle ∈ s.unreleased a ↔
    handle < s.nextHandle ∧ (s.handle handle).admission = a ∧
      (s.handle handle).leaseReleased = false := by
  simp [unreleased]

/-- How roots and handles belong together. -/
structure RootsOk (s : State) : Prop where
  handles : ∀ handle < s.nextHandle, (s.handle handle).admission < s.nextAdmission
  unmade : ∀ a, s.nextAdmission ≤ a → (s.admission a).released = true
  unmadeHandle : ∀ handle, s.nextHandle ≤ handle → (s.handle handle).leaseReleased = true
  references : ∀ a, (s.admission a).released = false →
    (s.admission a).references = (s.unreleased a).card

theorem rootsOk_initial : RootsOk .initial := by
  constructor <;> simp [initial]

theorem RootsOk.congr {s' : State} (h : RootsOk s) (hr : s'.roots = s.roots) : RootsOk s' := by
  simp only [roots, Roots.mk.injEq] at hr
  obtain ⟨ha, hna, hh, hnh, -⟩ := hr
  have hu : s'.unreleased = s.unreleased := by
    funext a
    simp only [unreleased, hh, hnh]
  exact ⟨by rw [hh, hnh, hna]; exact h.handles, by rw [ha, hna]; exact h.unmade,
    by rw [hh, hnh]; exact h.unmadeHandle, by rw [ha, hu]; exact h.references⟩

/-- A new handle counts for its root only. -/
theorem mem_unreleased_create {a b handle : ℕ} :
    handle ∈ (s.createGatewayRootWorkRelease a).unreleased b ↔
      handle = s.nextHandle ∧ a = b ∨ handle ∈ s.unreleased b := by
  rw [mem_unreleased, mem_unreleased]
  simp only [createGatewayRootWorkRelease]
  by_cases hn : handle = s.nextHandle
  · simp [hn]
  · have hlt : handle < s.nextHandle + 1 ↔ handle < s.nextHandle := by omega
    simp [hn, hlt]

theorem card_unreleased_create (s : State) (a : ℕ) :
    ((s.createGatewayRootWorkRelease a).unreleased a).card = (s.unreleased a).card + 1 := by
  have hinsert : (s.createGatewayRootWorkRelease a).unreleased a =
      insert s.nextHandle (s.unreleased a) := by
    ext handle
    rw [mem_unreleased_create, Finset.mem_insert]
    simp
  rw [hinsert, Finset.card_insert_of_notMem]
  simp [mem_unreleased]

theorem RootsOk.create (h : RootsOk s) {a : ℕ} (ha : a < s.nextAdmission)
    (admission : GatewayRootWorkAdmission)
    (hreferences : admission.references = (s.unreleased a).card + 1) :
    RootsOk ({ s with
      admission := Function.update s.admission a admission }.createGatewayRootWorkRelease a) where
  handles handle hlt := by
    by_cases hn : handle = s.nextHandle
    · simpa [createGatewayRootWorkRelease, hn] using ha
    · have : handle < s.nextHandle := by
        simp only [createGatewayRootWorkRelease] at hlt
        omega
      simpa [createGatewayRootWorkRelease, hn] using h.handles handle this
  unmade b hb := by
    have hne : b ≠ a := by
      simp only [createGatewayRootWorkRelease] at hb
      omega
    simpa [createGatewayRootWorkRelease, hne] using h.unmade b hb
  unmadeHandle handle hle := by
    simp only [createGatewayRootWorkRelease] at hle
    have hn : handle ≠ s.nextHandle := by omega
    simpa [createGatewayRootWorkRelease, hn] using h.unmadeHandle handle (by omega)
  references b hb := by
    by_cases hba : b = a
    · subst hba
      rw [card_unreleased_create]
      simp only [createGatewayRootWorkRelease, Function.update_self]
      rw [hreferences]
      rfl
    · have hsame : State.unreleased ({ s with
          admission := Function.update s.admission a admission }.createGatewayRootWorkRelease a) b =
          s.unreleased b := by
        ext handle
        rw [mem_unreleased_create]
        simp [Ne.symm hba, mem_unreleased]
      rw [hsame]
      simp only [createGatewayRootWorkRelease, Function.update_of_ne hba] at hb ⊢
      exact h.references b hb

/-- A handle that has been called, or whose root is gone. -/
def Spent (s : State) (handle : ℕ) : Prop :=
  (s.handle handle).leaseReleased = true ∨
    (s.admission (s.handle handle).admission).released = true

theorem release_of_spent {handle : ℕ} (h : s.Spent handle) : s.release handle = s := by
  unfold release
  rcases h with h | h <;> simp [h]

/-- What calling a handle does that is not spent. -/
theorem roots_release {handle : ℕ} (h : ¬ s.Spent handle) :
    ∃ released, (s.release handle).roots = { s.roots with
      handle := Function.update s.handle handle { s.handle handle with leaseReleased := true }
      admission := Function.update s.admission (s.handle handle).admission
        ⟨(s.admission (s.handle handle).admission).references - 1, released⟩
      activeRootWork := if released then s.activeRootWork.erase (s.handle handle).admission
        else s.activeRootWork } := by
  unfold Spent at h
  unfold release
  simp only [not_or, Bool.not_eq_true] at h
  simp only [h.1, h.2, Bool.or_self, Bool.false_eq_true, if_false]
  split_ifs
  · exact ⟨false, rfl⟩
  · exact ⟨true, rfl⟩
  · exact ⟨true, rfl⟩

theorem RootsOk.release (h : RootsOk s) (handle : ℕ) : RootsOk (s.release handle) := by
  -- a handle that was released before does nothing
  by_cases hspent : s.Spent handle
  · rwa [release_of_spent hspent]
  obtain ⟨released, hr⟩ := roots_release hspent
  unfold Spent at hspent
  simp only [not_or, Bool.not_eq_true] at hspent
  obtain ⟨hhandle, hlive⟩ := hspent
  simp only [roots, Roots.mk.injEq] at hr
  obtain ⟨ha, hna, hh, hnh, -⟩ := hr
  have hmade : handle < s.nextHandle := by
    by_contra hle
    rw [h.unmadeHandle handle (not_lt.mp hle)] at hhandle
    cases hhandle
  have hadmission : ∀ other, ((s.release handle).handle other).admission =
      (s.handle other).admission := by
    intro other
    rw [hh]
    by_cases hn : other = handle
    · simp [hn]
    · simp [hn]
  have hcalled : ∀ other, ((s.release handle).handle other).leaseReleased = false ↔
      other ≠ handle ∧ (s.handle other).leaseReleased = false := by
    intro other
    rw [hh]
    by_cases hn : other = handle
    · simp [hn]
    · simp [hn]
  refine ⟨fun other hlt => ?_, fun b hb => ?_, fun other hle => ?_, fun b hb => ?_⟩
  · rw [hadmission, hna]
    exact h.handles other (hnh ▸ hlt)
  · have hne : b ≠ (s.handle handle).admission := by
      have := h.handles handle hmade
      omega
    rw [ha, Function.update_of_ne hne]
    exact h.unmade b (hna ▸ hb)
  · by_contra hfalse
    have := (hcalled other).mp (Bool.not_eq_true _ ▸ hfalse)
    rw [h.unmadeHandle other (hnh ▸ hle)] at this
    cases this.2
  · -- one handle fewer is unreleased, and only for its admission
    have herase : (s.release handle).unreleased b = (s.unreleased b).erase handle := by
      ext other
      rw [Finset.mem_erase, mem_unreleased, mem_unreleased, hadmission, hcalled, hnh]
      tauto
    rw [herase]
    by_cases hba : b = (s.handle handle).admission
    · subst hba
      have hm : handle ∈ s.unreleased (s.handle handle).admission :=
        mem_unreleased.mpr ⟨hmade, rfl, hhandle⟩
      have hpos := Finset.card_pos.mpr ⟨handle, hm⟩
      rw [ha, Function.update_self, Finset.card_erase_of_mem hm, h.references _ hlive]
      simp only
      omega
    · have hm : handle ∉ s.unreleased b := by
        rw [mem_unreleased]
        exact fun hm => hba hm.2.1.symm
      rw [Finset.erase_eq_of_notMem hm]
      rw [ha, Function.update_of_ne hba] at hb ⊢
      exact h.references b hb

theorem rootsOk_step {s' : State} {l : Label} (h : RootsOk s) (hs : machine.step s l = some s') :
    RootsOk s' := by
  cases handleMove_step hs with
  | keep hl hr => exact h.congr hr
  | join hl hr =>
    have hnew : (s.unreleased s.nextAdmission).card = 0 := by
      rw [Finset.card_eq_zero, Finset.eq_empty_iff_forall_notMem]
      intro handle hm
      obtain ⟨hlt, ha, -⟩ := mem_unreleased.mp hm
      have := h.handles handle hlt
      omega
    have hwider : RootsOk { s with
        nextAdmission := s.nextAdmission + 1
        activeRootWork := insert s.nextAdmission s.activeRootWork } :=
      ⟨fun handle hlt => Nat.lt_succ_of_lt (h.handles handle hlt),
        fun a hle => h.unmade a (Nat.le_of_succ_le hle), h.unmadeHandle, h.references⟩
    have hcreate := hwider.create (Nat.lt_succ_self s.nextAdmission)
      ⟨1, false⟩ (by
        change (1 : ℤ) = ((s.unreleased s.nextAdmission).card : ℤ) + 1
        rw [hnew]
        rfl)
    exact hcreate.congr hr
  | retain hl a hlive hr =>
    have hmade : a < s.nextAdmission := by
      by_contra hle
      rw [h.unmade a (not_lt.mp hle)] at hlive
      cases hlive
    have hcreate := h.create hmade
      { s.admission a with references := (s.admission a).references + 1 }
      (congrArg (· + 1) (h.references a hlive))
    exact hcreate.congr hr
  | release current handle hl hr => exact (h.release handle).congr hr
  | reset hl hr =>
    have hretired : RootsOk { s with
        admission := fun a => if a ∈ s.activeRootWork then ⟨0, true⟩ else s.admission a
        activeRootWork := ∅ } := by
      refine ⟨h.handles, fun a hle => ?_, h.unmadeHandle, fun a ha => ?_⟩
      · simp only
        split_ifs
        · rfl
        · exact h.unmade a hle
      · simp only at ha ⊢
        split_ifs at ha ⊢
        exact h.references a ha
    exact hretired.congr hr

/-- A spent handle stays spent. -/
theorem spent_step {s' : State} {l : Label} (h : RootsOk s) (hs : machine.step s l = some s')
    {handle : ℕ} (hmade : handle < s.nextHandle) (hspent : s.Spent handle) :
    s'.Spent handle ∧ handle < s'.nextHandle := by
  have hadmission := h.handles handle hmade
  unfold Spent at *
  cases handleMove_step hs with
  | keep hl hr =>
    simp only [roots, Roots.mk.injEq] at hr
    obtain ⟨ha, -, hh, hnh, -⟩ := hr
    rw [ha, hh, hnh]
    exact ⟨hspent, hmade⟩
  | join hl hr =>
    simp only [roots, Roots.mk.injEq, createGatewayRootWorkAdmission,
      createGatewayRootWorkRelease] at hr
    obtain ⟨ha, -, hh, hnh, -⟩ := hr
    rw [ha, hh, hnh, Function.update_of_ne hmade.ne, Function.update_of_ne hadmission.ne]
    exact ⟨hspent, by omega⟩
  -- A retain raises the count of a live admission only, and a spent handle's is not live.
  | retain hl a hlive hr =>
    simp only [roots, Roots.mk.injEq, State.retain, createGatewayRootWorkRelease] at hr
    obtain ⟨ha, -, hh, hnh, -⟩ := hr
    rw [ha, hh, hnh, Function.update_of_ne hmade.ne]
    refine ⟨hspent.imp_right fun hreleased => ?_, by omega⟩
    by_cases hne : (s.handle handle).admission = a
    · rw [hne, hlive] at hreleased
      cases hreleased
    · rwa [Function.update_of_ne hne]
  | release current other hl hr =>
    by_cases hother : s.Spent other
    · rw [release_of_spent hother] at hr
      simp only [roots, Roots.mk.injEq] at hr
      obtain ⟨ha, -, hh, hnh, -⟩ := hr
      rw [ha, hh, hnh]
      exact ⟨hspent, hmade⟩
    · obtain ⟨released, hr'⟩ := roots_release hother
      rw [hr'] at hr
      simp only [roots, Roots.mk.injEq] at hr
      obtain ⟨ha, -, hh, hnh, -⟩ := hr
      have hne : handle ≠ other := fun he => hother (he ▸ hspent)
      rw [ha, hh, hnh, Function.update_of_ne hne]
      refine ⟨hspent.imp_right fun hreleased => ?_, hmade⟩
      -- Two handles on one admission: that one released would make the other spent as well.
      have hne : (s.handle handle).admission ≠ (s.handle other).admission := by
        intro he
        exact hother (.inr (he ▸ hreleased))
      rwa [Function.update_of_ne hne]
  | reset hl hr =>
    simp only [roots, Roots.mk.injEq] at hr
    obtain ⟨ha, -, hh, hnh, -⟩ := hr
    rw [ha, hh, hnh]
    refine ⟨hspent.imp_right fun hreleased => ?_, hmade⟩
    simp only
    split_ifs
    · rfl
    · exact hreleased

theorem nextHandle_step {s' : State} {l : Label} (hs : machine.step s l = some s') :
    s.nextHandle ≤ s'.nextHandle := by
  cases handleMove_step hs with
  | keep hl hr => exact (congrArg Roots.nextHandle hr).ge
  | join hl hr => exact (congrArg Roots.nextHandle hr).ge.trans' (Nat.le_succ _)
  | retain hl a hlive hr => exact (congrArg Roots.nextHandle hr).ge.trans' (Nat.le_succ _)
  | release current handle hl hr =>
    by_cases hspent : s.Spent handle
    · rw [release_of_spent hspent] at hr
      exact (congrArg Roots.nextHandle hr).ge
    · obtain ⟨released, hr'⟩ := roots_release hspent
      exact (congrArg Roots.nextHandle (hr.trans hr')).ge
  | reset hl hr => exact (congrArg Roots.nextHandle hr).ge

/-- A handle is marked by a call of it only. -/
theorem leaseReleased_step {s' : State} {l : Label} (hs : machine.step s l = some s')
    {handle : ℕ} (hmade : handle < s'.nextHandle)
    (hreleased : (s'.handle handle).leaseReleased = true) :
    handle < s.nextHandle ∧
      ((s.handle handle).leaseReleased = true ∨ ∃ current, l = .call current (.release handle)) := by
  cases handleMove_step hs with
  | keep hl hr =>
    simp only [roots, Roots.mk.injEq] at hr
    obtain ⟨-, -, hh, hnh, -⟩ := hr
    exact ⟨hnh ▸ hmade, .inl (hh ▸ hreleased)⟩
  | join hl hr =>
    simp only [roots, Roots.mk.injEq, createGatewayRootWorkAdmission,
      createGatewayRootWorkRelease] at hr
    obtain ⟨-, -, hh, hnh, -⟩ := hr
    rw [hh] at hreleased
    by_cases hn : handle = s.nextHandle
    · simp [hn] at hreleased
    · rw [Function.update_of_ne hn] at hreleased
      exact ⟨by omega, .inl hreleased⟩
  | retain hl a hlive hr =>
    simp only [roots, Roots.mk.injEq, State.retain, createGatewayRootWorkRelease] at hr
    obtain ⟨-, -, hh, hnh, -⟩ := hr
    rw [hh] at hreleased
    by_cases hn : handle = s.nextHandle
    · simp [hn] at hreleased
    · rw [Function.update_of_ne hn] at hreleased
      exact ⟨by omega, .inl hreleased⟩
  | release current other hl hr =>
    by_cases hother : s.Spent other
    · rw [release_of_spent hother] at hr
      simp only [roots, Roots.mk.injEq] at hr
      obtain ⟨-, -, hh, hnh, -⟩ := hr
      exact ⟨hnh ▸ hmade, .inl (hh ▸ hreleased)⟩
    · obtain ⟨released, hr'⟩ := roots_release hother
      rw [hr'] at hr
      simp only [roots, Roots.mk.injEq] at hr
      obtain ⟨-, -, hh, hnh, -⟩ := hr
      refine ⟨hnh ▸ hmade, ?_⟩
      by_cases hn : handle = other
      · exact .inr ⟨current, hn ▸ hl⟩
      · rw [hh, Function.update_of_ne hn] at hreleased
        exact .inl hreleased
  | reset hl hr =>
    simp only [roots, Roots.mk.injEq] at hr
    obtain ⟨-, -, hh, hnh, -⟩ := hr
    exact ⟨hnh ▸ hmade, .inl (hh ▸ hreleased)⟩

theorem spent_exec {s' : State} {ls : List Label} (h : RootsOk s) (he : machine.exec s ls = some s')
    {handle : ℕ} (hmade : handle < s.nextHandle) (hspent : s.Spent handle) : s'.Spent handle := by
  induction ls generalizing s with
  | nil =>
    cases he
    exact hspent
  | cons l ls ih =>
    obtain ⟨t, ht, he'⟩ := Option.bind_eq_some_iff.mp he
    obtain ⟨hspent', hmade'⟩ := spent_step h ht hmade hspent
    exact ih (rootsOk_step h ht) he' hmade' hspent'

/-- A handle is spent by calling it. -/
theorem spent_release (s : State) (handle : ℕ) : (s.release handle).Spent handle := by
  by_cases hspent : s.Spent handle
  · rwa [release_of_spent hspent]
  · obtain ⟨released, hr⟩ := roots_release hspent
    simp only [roots, Roots.mk.injEq] at hr
    obtain ⟨-, -, hh, -⟩ := hr
    apply Or.inl
    rw [hh, Function.update_self]

/-- A reset spends every handle made so far. -/
theorem spent_reset (ht : Tracked s) (handle : ℕ) : s.resetGatewayWorkAdmission.Spent handle := by
  have hr : s.resetGatewayWorkAdmission.roots = { s.roots with
      admission := fun a => if a ∈ s.activeRootWork then ⟨0, true⟩ else s.admission a
      activeRootWork := ∅ } := by
    simp only [resetGatewayWorkAdmission, invalidateSuspendAdmission]
    split_ifs <;> rfl
  simp only [roots, Roots.mk.injEq] at hr
  obtain ⟨ha, -, hh, -⟩ := hr
  apply Or.inr
  rw [ha, hh]
  simp only
  split_ifs with hm
  · rfl
  · exact Bool.not_eq_false _ ▸ (ht _).not.mpr hm

/-- Whoever waits for admission to open waits for good reason. -/
def Awake (s : State) : Prop :=
  s.isGatewayWorkAdmissionClosed = false ∨ s.restartDraining = true → s.suspendOpenWaiters = []

/-- Whoever waits for the last root to go waits for one. -/
def Drained (s : State) : Prop := s.activeRootWork = ∅ → s.rootDrainWaiters = []

/-- Who waited still waits, or is woken. -/
structure WaitersKept (s s' : State) : Prop where
  suspendOpen : ∀ w ∈ s.suspendOpenWaiters, w ∈ s'.suspendOpenWaiters ∨ w ∈ s'.woken
  rootDrain : ∀ id ∈ s.rootDrainWaiters, id ∈ s'.rootDrainWaiters ∨ id ∈ s'.drained

/-- What a step does to the waiters. -/
structure WaitersMove (s s' : State) : Prop where
  kept : WaitersKept s s'
  awake : Awake s → Awake s'
  drained : Drained s → Drained s'

theorem WaitersMove.refl (s : State) : WaitersMove s s :=
  ⟨⟨fun _ => .inl, fun _ => .inl⟩, id, id⟩

/-- Nothing about the waiters and what they wait for changes. -/
theorem WaitersMove.of_eq {s' : State} (hc : s'.isGatewayWorkAdmissionClosed =
      s.isGatewayWorkAdmissionClosed) (hd : s'.restartDraining = s.restartDraining)
    (ha : s'.activeRootWork = s.activeRootWork) (ho : s'.suspendOpenWaiters = s.suspendOpenWaiters)
    (hr : s'.rootDrainWaiters = s.rootDrainWaiters) : WaitersMove s s' := by
  refine ⟨⟨?_, ?_⟩, ?_, ?_⟩
  · rw [ho]
    exact fun _ => .inl
  · rw [hr]
    exact fun _ => .inl
  · unfold Awake
    rw [hc, hd, ho]
    exact id
  · unfold Drained
    rw [ha, hr]
    exact id

/-- Admission closes, or stays as it is with nobody to wake. -/
theorem WaitersMove.of_closed {s' : State} (hc : s'.isGatewayWorkAdmissionClosed = true)
    (hd : s'.restartDraining = false) (ha : s'.activeRootWork = s.activeRootWork)
    (ho : s.suspendOpenWaiters ⊆ s'.suspendOpenWaiters)
    (hr : s'.rootDrainWaiters = s.rootDrainWaiters) : WaitersMove s s' := by
  refine ⟨⟨fun _ hw => .inl (ho hw), ?_⟩, fun _ hopen => ?_, ?_⟩
  · rw [hr]
    exact fun _ => .inl
  · rcases hopen with hopen | hopen
    · rw [hc] at hopen
      cases hopen
    · rw [hd] at hopen
      cases hopen
  · unfold Drained
    rw [ha, hr]
    exact id

/-- All who wait for admission to open are woken. -/
theorem WaitersMove.of_resolved {s' : State} (ho : s'.suspendOpenWaiters = [])
    (hw : s.suspendOpenWaiters ⊆ s'.woken) (ha : s'.activeRootWork = s.activeRootWork)
    (hr : s'.rootDrainWaiters = s.rootDrainWaiters) : WaitersMove s s' := by
  refine ⟨⟨fun _ hm => .inr (hw hm), ?_⟩, fun _ _ => ho, ?_⟩
  · rw [hr]
    exact fun _ => .inl
  · unfold Drained
    rw [ha, hr]
    exact id

theorem waitersMove_release (s : State) (handle : ℕ) : WaitersMove s (s.release handle) := by
  unfold release
  simp only
  split_ifs with hspent hmore hlast
  · exact .refl s
  · exact .of_eq rfl rfl rfl rfl rfl
  · refine ⟨⟨fun _ => .inl, fun id hm => .inr ?_⟩, fun h => h, fun _ _ => rfl⟩
    exact List.mem_append_right _ hm
  · refine ⟨⟨fun _ => .inl, fun _ => .inl⟩, fun h => h, fun _ hempty => absurd hempty hlast⟩

theorem waitersMove_create (s : State) : WaitersMove s s.createGatewayRootWorkAdmission := by
  refine ⟨⟨fun _ => .inl, fun _ => .inl⟩, fun h => h, fun _ hempty => ?_⟩
  exact absurd hempty (Finset.insert_ne_empty _ _)

theorem waitersMove_independentRoot (s : State) :
    WaitersMove s s.tryBeginGatewayIndependentRootWorkAdmission.1 := by
  unfold tryBeginGatewayIndependentRootWorkAdmission
  split_ifs
  · exact .refl s
  · exact waitersMove_create s

theorem waitersMove_root (s : State) (current : Option ℕ) :
    WaitersMove s (s.tryBeginGatewayRootWorkAdmission current).1 := by
  unfold tryBeginGatewayRootWorkAdmission
  split_ifs
  · exact .refl s
  · exact waitersMove_independentRoot s

/-- No lease is given while admission is closed. -/
theorem closed_of_null (current : Option ℕ)
    (h : (s.tryBeginGatewayRootWorkAdmission current).2 = .null) :
    s.isGatewayWorkAdmissionClosed = true := by
  unfold tryBeginGatewayRootWorkAdmission tryBeginGatewayIndependentRootWorkAdmission at h
  split_ifs at h with _ hclosed
  exact hclosed

theorem waitersMove_await (s : State) (a : Attempt)
    (hc : s.isGatewayWorkAdmissionClosed = true) (hd : s.restartDraining = false) :
    WaitersMove s (s.await a).1 :=
  .of_closed hc hd rfl (List.subset_append_left _ _) rfl

theorem waitersMove_attempt (s : State) (a : Attempt) : WaitersMove s (s.attempt a).1 := by
  cases a with
  | rootWorkWhenOpen current =>
    simp only [attempt]
    split_ifs with hdraining
    · exact .refl s
    · have h := waitersMove_root s current
      split
      · rename_i hnull
        have hc := closed_of_null (s := s) current (by rw [hnull])
        exact waitersMove_await s _ hc (by simpa using hdraining)
      · exact h
  | independentRootWork =>
    simp only [attempt]
    split_ifs with hdraining
    · exact .refl s
    · have h := waitersMove_independentRoot s
      split
      · rename_i hnull
        have hc := closed_of_null (s := s) none (by
          unfold tryBeginGatewayRootWorkAdmission
          rw [if_neg (by simp [live]), hnull])
        exact waitersMove_await s _ hc (by simpa using hdraining)
      · exact h

theorem waitersMove_clearRestartSignalFence (s : State) :
    WaitersMove s s.clearRestartSignalFence.1 := by
  unfold clearRestartSignalFence
  split_ifs
  · exact .refl s
  · exact .of_resolved rfl (List.subset_append_right _ _) rfl rfl

theorem waitersMove_transition (s : State) (generation : ℕ) (expected next : SuspendPhase)
    (he : expected ≠ .accepting) : WaitersMove s (s.transition generation expected next).1 := by
  unfold transition
  simp only
  split_ifs with hstale hopen
  · exact .refl s
  · exact .of_resolved rfl (List.subset_append_right _ _) rfl rfl
  · refine .of_eq ?_ rfl rfl rfl rfl
    have hphase : s.suspendPhase = expected := by
      by_contra hne
      exact hstale (by simp [hne])
    simp [isGatewayWorkAdmissionClosed, hphase, he, hopen]

theorem waitersMove_mark (s : State) : WaitersMove s s.markGatewayRestartDraining := by
  unfold markGatewayRestartDraining
  simp only
  split_ifs
  · exact .refl s
  · unfold invalidateSuspendAdmission
    simp only
    split_ifs <;> exact .of_resolved rfl (by simp [resolveSuspendOpenWaiters]) rfl rfl
  · exact .of_resolved rfl (List.subset_append_right _ _) rfl rfl

theorem waitersMove_reset (s : State) : WaitersMove s s.resetGatewayWorkAdmission := by
  have h : s.resetGatewayWorkAdmission.suspendOpenWaiters = [] ∧
      s.suspendOpenWaiters ⊆ s.resetGatewayWorkAdmission.woken ∧
      s.resetGatewayWorkAdmission.rootDrainWaiters = [] ∧
      s.rootDrainWaiters ⊆ s.resetGatewayWorkAdmission.drained := by
    simp only [resetGatewayWorkAdmission, invalidateSuspendAdmission]
    split_ifs <;> refine ⟨rfl, ?_, rfl, List.subset_append_right _ _⟩ <;>
      simp [resolveSuspendOpenWaiters, resolveRootDrainWaiters]
  obtain ⟨hopen, hwoken, hroot, hdrained⟩ := h
  exact ⟨⟨fun _ hm => .inr (hwoken hm), fun _ hm => .inr (hdrained hm)⟩, fun _ _ => hopen,
    fun _ _ => hroot⟩

theorem waitersMove_perform (s : State) (current : Option ℕ) (c : Call) :
    WaitersMove s (s.perform current c).1 := by
  cases c with
  | markGatewayRestartDraining => exact waitersMove_mark s
  | beginGatewayRestartSignalAdmission =>
    simp only [perform, beginGatewayRestartSignalAdmission]
    split_ifs with hclosed
    · exact .refl s
    · simp only [Bool.or_eq_true, not_or, Bool.not_eq_true] at hclosed
      exact .of_closed (by simp [isGatewayWorkAdmissionClosed]) hclosed.1 rfl
        (List.Subset.refl _) rfl
  | restartSignalRollback generation =>
    simp only [perform, restartSignalRollback]
    split_ifs
    · exact .refl s
    · exact waitersMove_clearRestartSignalFence s
  | rollbackGatewayRestartSignalFence => exact waitersMove_clearRestartSignalFence s
  | tryBeginGatewayRootWorkAdmission => exact waitersMove_root s current
  | beginGatewayRootWorkAdmissionWhenOpen => exact waitersMove_attempt s _
  | runWithGatewayIndependentRootWorkAdmission => exact waitersMove_attempt s _
  | runWithGatewayIndependentRootWorkContinuation =>
    simp only [perform, runWithGatewayIndependentRootWorkContinuation]
    split_ifs
    · exact waitersMove_create s
    · exact waitersMove_attempt s _
  | retainGatewayRootWorkAdmissionContinuation =>
    simp only [perform, retainGatewayRootWorkAdmissionContinuation]
    split
    · exact .refl s
    · exact .of_eq rfl rfl rfl rfl rfl
  | release handle => exact waitersMove_release s handle
  | waitForActiveGatewayRootWork timeoutIsZero =>
    simp only [perform, waitForActiveGatewayRootWork]
    split_ifs with hempty
    · exact .refl s
    · exact .refl s
    · exact ⟨⟨fun _ => .inl, fun _ hm => .inl (List.mem_append_left _ hm)⟩, fun h => h,
        fun _ h => absurd h hempty⟩
  | tryBeginGatewaySuspendAdmission =>
    simp only [perform, tryBeginGatewaySuspendAdmission]
    split_ifs with hclosed
    · exact .refl s
    · simp only [isGatewayWorkAdmissionClosed, Bool.or_eq_true, not_or, Bool.not_eq_true] at hclosed
      exact .of_closed (by simp [isGatewayWorkAdmissionClosed]) hclosed.1.1 rfl
        (List.Subset.refl _) rfl
  | suspendCommit generation => exact waitersMove_transition s generation _ _ (by decide)
  | suspendRollback generation => exact waitersMove_transition s generation _ _ (by decide)
  | suspendRelease generation => exact waitersMove_transition s generation _ _ (by decide)
  | resetGatewayWorkAdmission => exact waitersMove_reset s

/-- A round of a loop that has to wait is registered under the id it was given. -/
theorem registered_attempt {s : State} {a : Attempt} {id : ℕ}
    (h : (s.attempt a).2 = .waiting id) : ⟨id, a⟩ ∈ (s.attempt a).1.suspendOpenWaiters := by
  have of_await : (s.await a).2 = .waiting id → ⟨id, a⟩ ∈ (s.await a).1.suspendOpenWaiters := by
    intro hid
    injection hid with hid
    subst hid
    exact List.mem_append_right _ (List.mem_singleton_self _)
  cases a with
  | rootWorkWhenOpen current =>
    revert h
    simp only [attempt, tryBeginGatewayRootWorkAdmission,
      tryBeginGatewayIndependentRootWorkAdmission]
    split_ifs with hdraining hlive hclosed
    · exact fun h => h.elim
    · intro h
      cases h
    · exact of_await
    · intro h
      cases h
  | independentRootWork =>
    revert h
    simp only [attempt, tryBeginGatewayIndependentRootWorkAdmission]
    split_ifs with hdraining hclosed
    · exact fun h => h.elim
    · exact of_await
    · intro h
      cases h

/-- Only the loops and `waitForActiveGatewayRootWork` return a pending promise. -/
theorem registered_perform {s : State} {current : Option ℕ} {c : Call} {id : ℕ}
    (h : (s.perform current c).2 = .waiting id) :
    (∃ a, ⟨id, a⟩ ∈ (s.perform current c).1.suspendOpenWaiters) ∨
      id ∈ (s.perform current c).1.rootDrainWaiters := by
  cases c with
  | beginGatewayRootWorkAdmissionWhenOpen => exact .inl ⟨_, registered_attempt h⟩
  | runWithGatewayIndependentRootWorkAdmission => exact .inl ⟨_, registered_attempt h⟩
  | runWithGatewayIndependentRootWorkContinuation =>
    revert h
    simp only [perform, runWithGatewayIndependentRootWorkContinuation]
    split_ifs
    · intro h
      cases h
    · exact fun h => .inl ⟨_, registered_attempt h⟩
  | waitForActiveGatewayRootWork timeoutIsZero =>
    revert h
    simp only [perform, waitForActiveGatewayRootWork]
    split_ifs
    · intro h
      cases h
    · intro h
      cases h
    · intro h
      injection h with hid
      subst hid
      exact .inr (List.mem_append_right _ (List.mem_singleton_self _))
  | _ =>
    exfalso
    revert h
    simp only [perform, beginGatewayRestartSignalAdmission, restartSignalRollback,
      clearRestartSignalFence, tryBeginGatewayRootWorkAdmission,
      tryBeginGatewayIndependentRootWorkAdmission, retainGatewayRootWorkAdmissionContinuation,
      tryBeginGatewaySuspendAdmission, transition]
    repeat' split
    all_goals
      intro h
      cases h

/-- A root-drain waiter whose timer fires goes; for the rest a step wakes whom it must. -/
theorem waitersMove_step {s' : State} {l : Label} (hs : machine.step s l = some s') :
    (∀ w ∈ s.suspendOpenWaiters, w ∈ s'.suspendOpenWaiters ∨ w ∈ s'.woken) ∧
      (∀ id ∈ s.rootDrainWaiters, id ∈ s'.rootDrainWaiters ∨ id ∈ s'.drained ∨
        l = .drainTimeout id) ∧
      (Awake s → Awake s') ∧ (Drained s → Drained s') := by
  have hmove {t : State} (h : WaitersMove t s') (ho : t.suspendOpenWaiters = s.suspendOpenWaiters)
      (hr : t.rootDrainWaiters = s.rootDrainWaiters) (ha : Awake s → Awake t)
      (hd : Drained s → Drained t) :
      (∀ w ∈ s.suspendOpenWaiters, w ∈ s'.suspendOpenWaiters ∨ w ∈ s'.woken) ∧
        (∀ id ∈ s.rootDrainWaiters, id ∈ s'.rootDrainWaiters ∨ id ∈ s'.drained ∨
          l = .drainTimeout id) ∧
        (Awake s → Awake s') ∧ (Drained s → Drained s') :=
    ⟨fun w hw => h.kept.suspendOpen w (ho ▸ hw),
      fun id hid => (h.kept.rootDrain id (hr ▸ hid)).imp_right .inl, fun hawake => h.awake (ha hawake),
      fun hdrained => h.drained (hd hdrained)⟩
  change s.step l = some s' at hs
  cases l with
  | call current c =>
    cases hs
    exact hmove (waitersMove_perform s current c) rfl rfl id id
  | retry waiter =>
    simp only [step] at hs
    split_ifs at hs
    cases hs
    exact hmove (waitersMove_attempt _ _) rfl rfl id id
  | drainTimeout waiter =>
    simp only [step] at hs
    split_ifs at hs
    cases hs
    refine ⟨fun _ => .inl, fun id hid => ?_, fun h => h, fun h hempty => ?_⟩
    · by_cases he : id = waiter
      · exact .inr (.inr (he ▸ rfl))
      · exact .inl ((List.mem_erase_of_ne he).mpr hid)
    · change s.rootDrainWaiters.erase waiter = []
      rw [h hempty]
      rfl
  | callbackReturn throws =>
    simp only [step] at hs
    split at hs
    · cases hs
    · split_ifs at hs <;> cases hs
      · exact hmove (.of_resolved rfl (List.subset_append_right _ _) rfl rfl) rfl rfl id id
      · exact hmove (.of_eq rfl rfl rfl rfl rfl) rfl rfl id id

end State

/-- The handle is called in the run, after it was made. -/
def CalledIn (ls : List Label) (handle : ℕ) : Prop :=
  ∃ before current after s, ls = before ++ .call current (.release handle) :: after ∧
    machine.exec machine.start before = some s ∧ handle < s.nextHandle

theorem calledIn_concat {ls : List Label} {s : State}
    (h : machine.exec machine.start ls = some s) (l : Label) (handle : ℕ) :
    CalledIn (ls ++ [l]) handle ↔ CalledIn ls handle ∨
      (∃ current, l = .call current (.release handle)) ∧ handle < s.nextHandle := by
  constructor
  · rintro ⟨before, current, after, t, hsplit, hbefore, hmade⟩
    rcases List.eq_nil_or_concat after with rfl | ⟨after, last, rfl⟩
    · obtain ⟨rfl, hl⟩ := List.append_inj' hsplit rfl
      rw [h] at hbefore
      cases hbefore
      exact .inr ⟨⟨current, List.singleton_inj.mp hl⟩, hmade⟩
    · have hsplit' : ls ++ [l] =
          (before ++ .call current (.release handle) :: after) ++ [last] := by
        simpa using hsplit
      obtain ⟨rfl, -⟩ := List.append_inj' hsplit' rfl
      exact .inl ⟨before, current, after, t, rfl, hbefore, hmade⟩
  · rintro (⟨before, current, after, t, rfl, hbefore, hmade⟩ | ⟨⟨current, rfl⟩, hmade⟩)
    · exact ⟨before, current, after ++ [l], t, by simp, hbefore, hmade⟩
    · exact ⟨ls, current, [], s, rfl, h, hmade⟩

/-- What holds after a run. -/
structure RunOk (ls : List Label) (s : State) : Prop where
  tracked : Tracked s
  roots : s.RootsOk
  awake : s.Awake
  drained : s.Drained
  called : ∀ handle, CalledIn ls handle → handle < s.nextHandle ∧ s.Spent handle
  spent : ∀ handle < s.nextHandle, (s.handle handle).leaseReleased = true → CalledIn ls handle

theorem runOk_initial : RunOk [] .initial where
  tracked := tracked_initial
  roots := State.rootsOk_initial
  awake _ := rfl
  drained _ := rfl
  called handle h := by
    obtain ⟨before, current, after, t, hsplit, -⟩ := h
    cases before <;> cases hsplit
  spent handle h := by cases h

theorem runOk_step {ls : List Label} {s s' : State} {l : Label}
    (hrun : machine.exec machine.start ls = some s) (h : RunOk ls s)
    (hs : machine.step s l = some s') : RunOk (ls ++ [l]) s' := by
  obtain ⟨-, -, hawake, hdrained⟩ := State.waitersMove_step hs
  refine ⟨tracked_step h.tracked hs, State.rootsOk_step h.roots hs, hawake h.awake,
    hdrained h.drained, fun handle hcalled => ?_, fun handle hmade hreleased => ?_⟩
  · rcases (calledIn_concat hrun l handle).mp hcalled with hcalled | ⟨⟨current, rfl⟩, hmade⟩
    · obtain ⟨hmade, hspent⟩ := h.called handle hcalled
      exact (State.spent_step h.roots hs hmade hspent).symm
    · refine ⟨hmade.trans_le (State.nextHandle_step hs), ?_⟩
      cases hs
      exact s.spent_release handle
  · obtain ⟨hmade, hreleased | hl⟩ := State.leaseReleased_step hs hmade hreleased
    · exact (calledIn_concat hrun l handle).mpr (.inl (h.spent handle hmade hreleased))
    · exact (calledIn_concat hrun l handle).mpr (.inr ⟨hl, hmade⟩)

theorem runOk {ls : List Label} {s : State} (h : machine.exec machine.start ls = some s) :
    RunOk ls s := by
  induction ls using List.reverseRecOn generalizing s with
  | nil =>
    cases h
    exact runOk_initial
  | append_singleton ls l ih =>
    rw [TransitionSystem.exec_concat] at h
    obtain ⟨t, ht, hs⟩ := Option.bind_eq_some_iff.mp h
    exact runOk_step ht (ih ht) hs

/-- The handles of a root that the run has not called. -/
def uncalled (ls : List Label) (s : State) (a : ℕ) : Set ℕ :=
  {handle | handle < s.nextHandle ∧ (s.handle handle).admission = a ∧ ¬ CalledIn ls handle}

theorem RunOk.uncalled_eq {ls : List Label} {s : State} (h : RunOk ls s) {a : ℕ}
    (ha : (s.admission a).released = false) : uncalled ls s a = s.unreleased a := by
  ext handle
  rw [Finset.mem_coe, State.mem_unreleased]
  refine and_congr_right fun hmade => and_congr_right fun hroot => ?_
  rw [← Bool.not_eq_true, not_iff_not]
  refine ⟨fun hcalled => ?_, h.spent handle hmade⟩
  rcases (h.called handle hcalled).2 with hreleased | hreleased
  · exact hreleased
  · rw [hroot, ha] at hreleased
    cases hreleased

/-- What a run of the admission module keeps: whoever is told to wait is registered and woken in
time, and a root is active for exactly as long as handles of it are out. -/
structure AdmissionSound (ls : List Label) (s : State) : Prop where
  noneWaits : s.isGatewayWorkAdmissionClosed = false ∨ s.restartDraining = true →
    s.suspendOpenWaiters = []
  woken : ∀ l s', machine.step s l = some s' → ∀ w ∈ s.suspendOpenWaiters,
    w ∈ s'.suspendOpenWaiters ∨ w ∈ s'.woken
  active : ∀ a, a ∈ s.activeRootWork ↔ (s.admission a).released = false
  references : ∀ a ∈ s.activeRootWork, (s.admission a).references = (uncalled ls s a).ncard
  calledTwice : ∀ handle < s.nextHandle, ∀ rest s',
    machine.exec (s.release handle) rest = some s' → s'.release handle = s'
  calledAfterReset : ∀ handle < s.nextHandle, ∀ rest s',
    machine.exec s.resetGatewayWorkAdmission rest = some s' → s'.release handle = s'
  drained : s.activeRootWork = ∅ → s.rootDrainWaiters = []
  resolved : ∀ l s', machine.step s l = some s' → ∀ id ∈ s.rootDrainWaiters,
    id ∈ s'.rootDrainWaiters ∨ id ∈ s'.drained ∨ l = .drainTimeout id
  registered : ∀ current c id, (s.perform current c).2 = .waiting id →
    (∃ a, ⟨id, a⟩ ∈ (s.perform current c).1.suspendOpenWaiters) ∨
      id ∈ (s.perform current c).1.rootDrainWaiters
  registeredAgain : ∀ waiter ∈ s.woken, ∀ id,
    ({ s with woken := s.woken.erase waiter }.attempt waiter.attempt).2 = .waiting id →
      ⟨id, waiter.attempt⟩ ∈
        ({ s with woken := s.woken.erase waiter }.attempt waiter.attempt).1.suspendOpenWaiters

/-- No wake-up is lost, and roots are counted exactly. -/
theorem admission_sound {ls : List Label} {s : State}
    (h : machine.exec machine.start ls = some s) : AdmissionSound ls s := by
  have inv := runOk h
  constructor
  case noneWaits => exact inv.awake
  case woken => exact fun l s' hs => (State.waitersMove_step hs).1
  case active => exact fun a => (inv.tracked a).symm
  case references =>
    intro a ha
    have hlive := (inv.tracked a).mpr ha
    rw [inv.uncalled_eq hlive, Set.ncard_coe_finset]
    exact inv.roots.references a hlive
  case calledTwice =>
    intro handle hmade rest s' he
    have hs : machine.step s (.call none (.release handle)) = some (s.release handle) := rfl
    have hmade' := hmade.trans_le (State.nextHandle_step hs)
    exact State.release_of_spent (State.spent_exec (State.rootsOk_step inv.roots hs) he hmade'
      (s.spent_release handle))
  case calledAfterReset =>
    intro handle hmade rest s' he
    have hs : machine.step s (.call none .resetGatewayWorkAdmission) =
        some s.resetGatewayWorkAdmission := rfl
    have hmade' := hmade.trans_le (State.nextHandle_step hs)
    exact State.release_of_spent (State.spent_exec (State.rootsOk_step inv.roots hs) he hmade'
      (State.spent_reset inv.tracked handle))
  case drained => exact inv.drained
  case resolved => exact fun l s' hs => (State.waitersMove_step hs).2.1
  case registered => exact fun current c id => State.registered_perform
  case registeredAgain => exact fun waiter _ id => State.registered_attempt

/-- A root retained and released twice, while another waits out a suspension. -/
def retainedRoot : List Label := [
  .call none .tryBeginGatewayRootWorkAdmission,
  .call (some 0) .retainGatewayRootWorkAdmissionContinuation,
  .call none (.release 0), .call none .tryBeginGatewaySuspendAdmission,
  .call none .beginGatewayRootWorkAdmissionWhenOpen, .call none (.suspendRollback 1),
  .call none (.release 0)]

theorem admission_sound_retainedRoot : ∃ s,
    machine.exec machine.start retainedRoot = some s ∧ AdmissionSound retainedRoot s := by
  obtain ⟨s, h⟩ := Option.isSome_iff_exists.mp
    (by decide : (machine.exec machine.start retainedRoot).isSome = true)
  exact ⟨s, h, admission_sound h⟩

end Flashclaw.GatewayAdmission
