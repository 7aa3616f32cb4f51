import Flashclaw.LiveEvents.Settles

/-!
# Live events: claims of runs

A claim publishes nothing.  Where it is granted, its window is still open and has no end of
the run on record.
-/

namespace Flashclaw.LiveEvents

open Utf16

namespace Receiver

theorem Settles.stays_open {R R' : Receiver} (h : R.Settles R') (hw : R'.windows = R.windows)
    {id : ℕ} (ho : R.IsOpen id) : R'.IsOpen id := by
  show R'.windows.get? (R'.heap id).sessionId = some id
  rw [hw, (h.eases id).sessionId]
  exact ho

theorem terminalRuns_fenceReleasedRun (R : Receiver) (id : ℕ) {runId other : Utf16}
    (hne : runId ≠ other) : ((R.fenceReleasedRun id runId).heap id).terminalRuns.get? other =
      (R.heap id).terminalRuns.get? other := by
  unfold fenceReleasedRun releaseRun
  rw [heap_change_self, heap_change_self]
  split
  · rfl
  · exact JsMap.get?_set_ne _ _ hne

/-- Only the runs that it visits are fenced. -/
theorem pruneReleasedRuns_spec {R : Receiver} {id : ℕ} (turn : Turn)
    (runs : List (Utf16 × OwnedLiveRun)) (hopen : R.IsOpen id) :
    R.Quiet (R.pruneReleasedRuns id turn runs).1 ∧
      ((R.pruneReleasedRuns id turn runs).2 = false →
        (R.pruneReleasedRuns id turn runs).1.IsOpen id ∧
        ∀ runId, runId ∉ runs.map Prod.fst → (R.heap id).terminalRuns.get? runId = none →
          ((R.pruneReleasedRuns id turn runs).1.heap id).terminalRuns.get? runId = none) := by
  induction runs generalizing R with
  | nil => exact ⟨.refl R, fun _ => ⟨hopen, fun _ _ h => h⟩⟩
  | cons run runs ih =>
    obtain ⟨runId, owned⟩ := run
    unfold pruneReleasedRuns
    split
    · exact ⟨quiet_clearWindow hopen, fun h => by cases h⟩
    · obtain ⟨hquiet, hkept⟩ := ih hopen
      refine ⟨hquiet, fun h => ⟨(hkept h).1, fun other hother hnone => ?_⟩⟩
      exact (hkept h).2 other (fun hmem => hother (List.mem_cons_of_mem _ hmem)) hnone
    · have hfence := quiet_fenceReleasedRun R id runId
      obtain ⟨hquiet, hkept⟩ := ih (hfence.toSettles.stays_open rfl hopen)
      refine ⟨hfence.trans hquiet, fun h => ⟨(hkept h).1, fun other hother hnone => ?_⟩⟩
      have hne : runId ≠ other := fun heq => hother (heq ▸ List.mem_cons_self)
      apply (hkept h).2 other fun hmem => hother (List.mem_cons_of_mem _ hmem)
      rw [terminalRuns_fenceReleasedRun R id hne]
      exact hnone

variable (options : Options)

/-- What a claim may do. -/
structure Claims (R : Receiver) (id : ℕ) (runId : Utf16)
    (claimed : Receiver × Except WorkerLiveEventFailure OwnedLiveRun) : Prop where
  quiet : R.Quiet claimed.1
  granted : ∀ owned, claimed.2 = .ok owned →
    claimed.1.IsOpen id ∧ (claimed.1.heap id).terminalRuns.get? runId = none
  full : claimed.2 = .error .capacityExceeded → claimed.1.IsOpen id

theorem Claims.of_error {R R' : Receiver} {id : ℕ} {runId : Utf16} {failure}
    (h : R.Quiet R') (hfull : failure = .capacityExceeded → R'.IsOpen id) :
    Claims R id runId (R', .error failure) :=
  ⟨h, fun _ heq => (by cases heq), fun heq => hfull (Except.error.inj heq)⟩

theorem quiet_setActive (R : Receiver) (id : ℕ) (runId : Utf16) (owned : OwnedLiveRun) :
    R.Quiet (R.change id fun window =>
      { window with activeRuns := window.activeRuns.set runId owned }) :=
  quiet_change R ⟨rfl, rfl, rfl, rfl, rfl, .inl ⟨rfl, rfl⟩⟩ fun _ _ h => h

theorem claims_claimNewRun {R : Receiver} {id : ℕ} {runId : Utf16} (allow : Bool) (turn : Turn)
    (hopen : R.IsOpen id) (hended : (R.heap id).terminalRuns.get? runId = none)
    (hnew : (R.heap id).activeRuns.get? runId = none) :
    Claims R id runId (R.claimNewRun options id runId allow turn) := by
  obtain ⟨hquiet, hkept⟩ := pruneReleasedRuns_spec turn (R.heap id).activeRuns.entries hopen
  have hfresh : runId ∉ (R.heap id).activeRuns.entries.map Prod.fst := by
    intro hmem
    obtain ⟨⟨_, owned⟩, hentry, rfl⟩ := List.mem_map.mp hmem
    rw [JsMap.get?_eq_some.mpr hentry] at hnew
    cases hnew
  unfold claimNewRun
  simp only
  split
  · exact .of_error hquiet fun h => by cases h
  rename_i hlost
  obtain ⟨hstill, hkept⟩ := hkept (Bool.eq_false_iff.mpr hlost)
  split
  · exact .of_error hquiet fun _ => hstill
  split
  · exact .of_error hquiet fun h => by cases h
  split
  · exact .of_error hquiet fun h => by cases h
  · -- the granted claim is entered among the active runs
    have hset := quiet_setActive (R.pruneReleasedRuns id turn (R.heap id).activeRuns.entries).1 id
      runId
    refine ⟨hquiet.trans (hset _), fun _ _ => ⟨(hset _).toSettles.stays_open rfl hstill, ?_⟩,
      fun h => by cases h⟩
    rw [heap_change_self]
    exact hkept runId hfresh hended

theorem claims_claimRun {R : Receiver} {id : ℕ} (runId : Utf16) (allow : Bool) (turn : Turn)
    (hopen : R.IsOpen id) : Claims R id runId (R.claimRun options id runId allow turn) := by
  unfold claimRun
  simp only
  split
  · exact .of_error (.refl R) fun h => by cases h
  rename_i hended
  replace hended : (R.heap id).terminalRuns.get? runId = none := by simpa using hended
  split
  · rename_i hnew
    exact claims_claimNewRun options allow turn hopen hended hnew
  split
  · exact .of_error (quiet_clearWindow hopen) fun h => by cases h
  split
  · exact ⟨.refl R, fun _ _ => ⟨hopen, hended⟩, fun h => by cases h⟩
  · exact .of_error (quiet_fenceReleasedRun R id runId) fun h => by cases h

end Receiver

end Flashclaw.LiveEvents
