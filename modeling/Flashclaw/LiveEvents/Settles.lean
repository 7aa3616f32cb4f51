import Flashclaw.LiveEvents.Receiver

/-!
# Live events: changes that publish nothing

What every operation but an application does to a window: its number and its binding stay,
its queue stays or is emptied, and it is closed only with an empty queue.
-/

namespace Flashclaw.LiveEvents

open Utf16

def LiveEventWindow.drop (window : LiveEventWindow) : LiveEventWindow :=
  { window with pending := .empty, pendingBytes := 0 }

/-- A change of a window that an application does not make. -/
structure LiveEventWindow.Eases (w w' : LiveEventWindow) : Prop where
  ackedSeq : w'.ackedSeq = w.ackedSeq
  sessionId : w'.sessionId = w.sessionId
  environmentId : w'.environmentId = w.environmentId
  runEpoch : w'.runEpoch = w.runEpoch
  origin : w'.origin = w.origin
  queue : (w'.pending = w.pending ∧ w'.pendingBytes = w.pendingBytes) ∨
    (w'.pending = .empty ∧ w'.pendingBytes = 0)

namespace LiveEventWindow.Eases

variable {w w' w'' : LiveEventWindow}

theorem refl (w : LiveEventWindow) : w.Eases w := ⟨rfl, rfl, rfl, rfl, rfl, .inl ⟨rfl, rfl⟩⟩

theorem trans (h : w.Eases w') (h' : w'.Eases w'') : w.Eases w'' where
  ackedSeq := h'.ackedSeq.trans h.ackedSeq
  sessionId := h'.sessionId.trans h.sessionId
  environmentId := h'.environmentId.trans h.environmentId
  runEpoch := h'.runEpoch.trans h.runEpoch
  origin := h'.origin.trans h.origin
  queue := by
    obtain ⟨hp', hb'⟩ | hempty := h'.queue
    · rw [hp', hb']
      exact h.queue
    · exact .inr hempty

/-- What was buffered afterwards was buffered before. -/
theorem get?_pending (h : w.Eases w') {seq : ℕ} {p : PendingLiveEvent}
    (hp : w'.pending.get? seq = some p) : w.pending.get? seq = some p := by
  obtain ⟨hpending, -⟩ | ⟨hpending, -⟩ := h.queue
  · exact hpending ▸ hp
  · rw [hpending] at hp
    cases hp

theorem size_pending (h : w.Eases w') : w'.pending.size ≤ w.pending.size := by
  obtain ⟨hpending, -⟩ | ⟨hpending, -⟩ := h.queue
  · rw [hpending]
  · rw [hpending]
    exact Nat.zero_le _

end LiveEventWindow.Eases

namespace Receiver

/-- The window is in the map. -/
def IsOpen (R : Receiver) (id : ℕ) : Prop := R.windows.get? (R.heap id).sessionId = some id

/-- A window in the map stands under its own session. -/
def Coherent (R : Receiver) : Prop :=
  ∀ session id, R.windows.get? session = some id → (R.heap id).sessionId = session ∧ id < R.created

theorem Coherent.isOpen {R : Receiver} (h : R.Coherent) {session : Utf16} {id : ℕ}
    (hget : R.windows.get? session = some id) : R.IsOpen id := by
  show R.windows.get? (R.heap id).sessionId = some id
  rw [(h session id hget).1]
  exact hget

theorem Coherent.lt {R : Receiver} (h : R.Coherent) {id : ℕ} (hopen : R.IsOpen id) :
    id < R.created :=
  (h _ id hopen).2

theorem Coherent.nodup_values {R : Receiver} (h : R.Coherent) : R.windows.values.Nodup := by
  have hkeys : R.windows.values.map (fun id => (R.heap id).sessionId) = R.windows.keys := by
    rw [JsMap.values, JsMap.keys, List.map_map]
    apply List.map_congr_left
    rintro ⟨session, id⟩ hentry
    exact (h session id (JsMap.get?_eq_some.mpr hentry)).1
  have hnodup : R.windows.keys.Nodup := R.windows.nodupKeys
  rw [← hkeys] at hnodup
  exact hnodup.of_map _

/-- A change that publishes nothing. -/
structure Settles (R R' : Receiver) : Prop where
  created : R'.created = R.created
  eases : ∀ id, (R.heap id).Eases (R'.heap id)
  windows : ∀ session id, R'.windows.get? session = some id → R.windows.get? session = some id
  closed : ∀ id, R.IsOpen id → ¬ R'.IsOpen id → (R'.heap id).pending = .empty
  ended : ∀ id, R'.IsOpen id → ∀ runId seq, (R.heap id).terminalRuns.get? runId = some seq →
    (R'.heap id).terminalRuns.get? runId = some seq
  history : ∃ cleared : List (Utf16 × ℕ),
    R'.history = R.history ++ cleared.map fun c => .cleared c.1 c.2

/-- A change that clears no environment either. -/
structure Quiet (R R' : Receiver) : Prop extends Settles R R' where
  same : R'.history = R.history
  fenced : R'.fencedEnvironmentEpochs = R.fencedEnvironmentEpochs

variable {R R' R'' : Receiver}

theorem Settles.isOpen (h : R.Settles R') {id : ℕ} (hopen : R'.IsOpen id) : R.IsOpen id := by
  have hget := h.windows _ id hopen
  rwa [(h.eases id).sessionId] at hget

theorem Settles.refl (R : Receiver) : R.Settles R where
  created := rfl
  eases _ := .refl _
  windows _ _ h := h
  closed _ hopen hclosed := absurd hopen hclosed
  ended _ _ _ _ h := h
  history := ⟨[], by simp⟩

theorem Settles.trans (h : R.Settles R') (h' : R'.Settles R'') : R.Settles R'' where
  created := h'.created.trans h.created
  eases id := (h.eases id).trans (h'.eases id)
  windows session id hget := h.windows session id (h'.windows session id hget)
  closed id hopen hclosed := by
    by_cases hmid : R'.IsOpen id
    · exact h'.closed id hmid hclosed
    · have hempty := h.closed id hopen hmid
      obtain ⟨hp, -⟩ | ⟨hp, -⟩ := (h'.eases id).queue
      · rw [hp, hempty]
      · exact hp
  ended id hopen runId seq hget :=
    h'.ended id hopen runId seq (h.ended id (h'.isOpen hopen) runId seq hget)
  history := by
    obtain ⟨l, hl⟩ := h.history
    obtain ⟨l', hl'⟩ := h'.history
    exact ⟨l ++ l', by rw [hl', hl, List.map_append, List.append_assoc]⟩

theorem Settles.coherent (h : R.Settles R') (hc : R.Coherent) : R'.Coherent := by
  intro session id hget
  obtain ⟨hsession, hlt⟩ := hc session id (h.windows session id hget)
  exact ⟨(h.eases id).sessionId.trans hsession, h.created ▸ hlt⟩

theorem Quiet.refl (R : Receiver) : R.Quiet R := ⟨.refl R, rfl, rfl⟩

theorem Quiet.trans (h : R.Quiet R') (h' : R'.Quiet R'') : R.Quiet R'' :=
  ⟨h.toSettles.trans h'.toSettles, h'.same.trans h.same, h'.fenced.trans h.fenced⟩

theorem Quiet.coherent (h : R.Quiet R') (hc : R.Coherent) : R'.Coherent := h.toSettles.coherent hc

theorem heap_change_self (R : Receiver) (id : ℕ) (f : LiveEventWindow → LiveEventWindow) :
    (R.change id f).heap id = f (R.heap id) := Function.update_self ..

theorem heap_change_ne (R : Receiver) {id other : ℕ} (f : LiveEventWindow → LiveEventWindow)
    (h : other ≠ id) : (R.change id f).heap other = R.heap other := Function.update_of_ne h ..

theorem quiet_change (R : Receiver) {id : ℕ} {f : LiveEventWindow → LiveEventWindow}
    (heases : (R.heap id).Eases (f (R.heap id)))
    (hended : ∀ runId seq, (R.heap id).terminalRuns.get? runId = some seq →
      (f (R.heap id)).terminalRuns.get? runId = some seq) : R.Quiet (R.change id f) := by
  have hall : ∀ other, (R.heap other).Eases ((R.change id f).heap other) := fun other => by
    by_cases hne : other = id
    · subst hne
      rwa [heap_change_self]
    · rw [heap_change_ne R f hne]
      exact .refl _
  refine ⟨⟨rfl, hall, fun _ _ h => h, fun other hopen hclosed => ?_,
    fun other _ runId seq hget => ?_, [], by simp [change]⟩, rfl, rfl⟩
  · rw [IsOpen, (hall other).sessionId] at hclosed
    exact absurd hopen hclosed
  · by_cases hne : other = id
    · subst hne
      rw [heap_change_self]
      exact hended runId seq hget
    · rwa [heap_change_ne R f hne]

theorem quiet_releaseRun (R : Receiver) (id : ℕ) (runId : Utf16) :
    R.Quiet (R.releaseRun id runId) :=
  quiet_change R ⟨rfl, rfl, rfl, rfl, rfl, .inl ⟨rfl, rfl⟩⟩ fun _ _ h => h

theorem quiet_fenceReleasedRun (R : Receiver) (id : ℕ) (runId : Utf16) :
    R.Quiet (R.fenceReleasedRun id runId) := by
  refine .trans (quiet_change R ?_ ?_) (quiet_releaseRun _ id runId)
  · split <;> exact ⟨rfl, rfl, rfl, rfl, rfl, .inl ⟨rfl, rfl⟩⟩
  · intro other seq hget
    split
    · exact hget
    · rename_i hnone
      have hne : runId ≠ other := fun h => hnone (by rw [h, hget]; rfl)
      rwa [JsMap.get?_set_ne _ _ hne]

theorem quiet_dropPending (R : Receiver) (id : ℕ) : R.Quiet (R.dropPending id) :=
  quiet_change R ⟨rfl, rfl, rfl, rfl, rfl, .inr ⟨rfl, rfl⟩⟩ fun _ _ h => h

theorem session_ne {R : Receiver} {id other : ℕ} (hopen : R.IsOpen id) (hother : R.IsOpen other)
    (hne : other ≠ id) : (R.heap other).sessionId ≠ (R.heap id).sessionId := by
  intro hs
  rw [IsOpen, hs, hopen] at hother
  exact hne (Option.some.inj hother).symm

/-- Only an open window is cleared: a closed one would close its successor. -/
theorem quiet_clearWindow {R : Receiver} {id : ℕ} (hopen : R.IsOpen id) :
    R.Quiet (R.clearWindow id) := by
  have hheap : ∀ other, other ≠ id → (R.clearWindow id).heap other = R.heap other :=
    fun other hne => heap_change_ne _ _ hne
  have hself : (R.clearWindow id).heap id = { R.heap id with
      activeRuns := .empty, pending := .empty, pendingBytes := 0, terminalRuns := .empty } :=
    heap_change_self ..
  have hget : ∀ session, (R.clearWindow id).windows.get? session =
      if session = (R.heap id).sessionId then none else R.windows.get? session :=
    fun session => JsMap.get?_delete _ _ _
  have hall : ∀ other, (R.heap other).Eases ((R.clearWindow id).heap other) := fun other => by
    by_cases hne : other = id
    · subst hne
      rw [hself]
      exact ⟨rfl, rfl, rfl, rfl, rfl, .inr ⟨rfl, rfl⟩⟩
    · rw [hheap other hne]
      exact .refl _
  have hclosed : ¬ (R.clearWindow id).IsOpen id := by
    rw [IsOpen, hget, (hall id).sessionId, if_pos rfl]
    exact (Option.some_ne_none id).symm
  refine ⟨⟨rfl, hall, fun session other h => ?_, fun other ho hc => ?_,
    fun other ho runId seq h => ?_, [], by simp [clearWindow, change]⟩, rfl, rfl⟩
  · rw [hget] at h
    split at h
    · cases h
    · exact h
  · by_cases hne : other = id
    · rw [hne, hself]
    · -- a window of another session stays open
      rw [IsOpen, hget, (hall other).sessionId, if_neg (session_ne hopen ho hne)] at hc
      exact absurd ho hc
  · by_cases hne : other = id
    · exact absurd (hne ▸ ho) hclosed
    · rwa [hheap other hne]

theorem isOpen_clearWindow {R : Receiver} {id other : ℕ} (hopen : R.IsOpen id)
    (hother : R.IsOpen other) (hne : other ≠ id) : (R.clearWindow id).IsOpen other := by
  show (R.windows.delete _).get? ((R.clearWindow id).heap other).sessionId = _
  rw [((quiet_clearWindow hopen).eases other).sessionId, JsMap.get?_delete,
    if_neg (session_ne hopen hother hne)]
  exact hother

theorem not_isOpen_clearWindow {R : Receiver} {id : ℕ} (hopen : R.IsOpen id) :
    ¬ (R.clearWindow id).IsOpen id := by
  show ¬ (R.windows.delete _).get? ((R.clearWindow id).heap id).sessionId = _
  rw [((quiet_clearWindow hopen).eases id).sessionId, JsMap.get?_delete, if_pos rfl]
  exact (Option.some_ne_none id).symm

theorem quiet_of_same {R R' : Receiver} (hheap : R'.heap = R.heap)
    (hcreated : R'.created = R.created) (hwindows : R'.windows = R.windows) (hhistory : R'.history = R.history)
    (hfenced : R'.fencedEnvironmentEpochs = R.fencedEnvironmentEpochs) : R.Quiet R' := by
  refine ⟨⟨hcreated, fun id => hheap ▸ .refl _, fun _ _ h => hwindows ▸ h, fun id ho hc => ?_,
    fun id _ _ _ h => hheap ▸ h, [], by simp [hhistory]⟩, hhistory, hfenced⟩
  rw [IsOpen, hheap, hwindows] at hc
  exact absurd ho hc

theorem quiet_foldl {α : Type*} {f : Receiver → α → Receiver}
    (h : ∀ (R : Receiver) (a : α), R.Coherent → R.Quiet (f R a)) (l : List α) {R : Receiver}
    (hc : R.Coherent) : R.Quiet (l.foldl f R) := by
  induction l generalizing R with
  | nil => exact .refl R
  | cons a l ih => exact (h R a hc).trans (ih ((h R a hc).coherent hc))

theorem quiet_clearMoved {R : Receiver} (hc : R.Coherent) (binding : WorkerLiveSessionBinding) :
    R.Quiet (R.clearMoved binding) := by
  unfold clearMoved
  split
  · exact .refl R
  · rename_i id hget
    split
    · exact quiet_clearWindow (hc.isOpen hget)
    · exact .refl R

theorem quiet_retarget (R : Receiver) (sessionId : Utf16) (target : LiveEventTarget) :
    R.Quiet (R.retarget sessionId target) := by
  unfold retarget
  split
  · exact .refl R
  · exact quiet_change R ⟨rfl, rfl, rfl, rfl, rfl, .inl ⟨rfl, rfl⟩⟩ fun _ _ h => h

theorem quiet_clearSession {R : Receiver} (hc : R.Coherent) (sessionId : Utf16) :
    R.Quiet (R.clearSession sessionId) := by
  unfold clearSession
  split
  · exact .refl R
  · rename_i id hget
    exact quiet_clearWindow (hc.isOpen hget)

theorem quiet_forgetStartupOwner (R : Receiver) (environmentId : Utf16) :
    R.Quiet (R.forgetStartupOwner environmentId) := quiet_of_same rfl rfl rfl rfl rfl

theorem quiet_bindSessionWithConfig {R : Receiver} (hc : R.Coherent)
    (binding : WorkerLiveSessionBinding) (resolve : Utf16 → Option LiveEventTarget) :
    R.Quiet (R.bindSessionWithConfig binding resolve).1 := by
  simp only [bindSessionWithConfig]
  split
  · exact .refl R
  split
  · exact .refl R
  split
  · split
    · exact quiet_of_same rfl rfl rfl rfl rfl
    · exact .refl R
  · rename_i target _
    have hbound : (R.clearMoved binding).Quiet ((R.clearMoved binding).setBinding binding target) :=
      quiet_of_same rfl rfl rfl rfl rfl
    exact ((quiet_clearMoved hc binding).trans hbound).trans (quiet_retarget _ _ _)

theorem quiet_rebindAll {R : Receiver} (hc : R.Coherent)
    (resolve : Utf16 → Option LiveEventTarget) : R.Quiet (R.rebindAll resolve) :=
  quiet_foldl (fun _ binding hc => quiet_bindSessionWithConfig hc binding resolve) _ hc

theorem quiet_identityMutated {R : Receiver} (hc : R.Coherent) (isMatch : Utf16 → Bool)
    (resolve : Utf16 → Option LiveEventTarget) : R.Quiet (R.identityMutated isMatch resolve) := by
  refine quiet_foldl (fun R binding hc => ?_) _ hc
  have hbound := quiet_bindSessionWithConfig hc binding resolve
  dsimp only
  split_ifs
  · exact .refl R
  · exact hbound
  · have howner := hbound.trans (quiet_forgetStartupOwner _ binding.environmentId)
    exact howner.trans (quiet_clearSession (howner.coherent hc) binding.sessionId)

theorem quiet_start {R : Receiver} (hc : R.Coherent) (resolve : Utf16 → Option LiveEventTarget) :
    R.Quiet (R.start resolve) := by
  refine quiet_foldl (fun R binding hc => ?_) _ hc
  have hbound := quiet_bindSessionWithConfig hc binding resolve
  dsimp only
  split_ifs
  · exact hbound
  · exact hbound.trans (quiet_forgetStartupOwner _ _)

theorem quiet_rotateCredential (R : Receiver) (rotation : WorkerLiveCredentialRotation) :
    R.Quiet (R.rotateCredential rotation) := by
  unfold rotateCredential
  split_ifs
  · exact .refl R
  split
  · exact .refl R
  split_ifs
  · exact quiet_change R ⟨rfl, rfl, rfl, rfl, rfl, .inl ⟨rfl, rfl⟩⟩ fun _ _ h => h
  · exact .refl R

theorem quiet_clearRequested (R : Receiver) (id : ℕ) (runId clearedClaimId : Utf16) :
    R.Quiet (R.clearRequested id runId clearedClaimId) := by
  unfold clearRequested
  split_ifs
  · exact quiet_fenceReleasedRun R id runId
  · exact .refl R

theorem quiet_clearWindows (ids : List ℕ) {R : Receiver} (hn : ids.Nodup)
    (hopen : ∀ id ∈ ids, R.IsOpen id) :
    R.Quiet (ids.foldl clearWindow R) ∧ ∀ id ∈ ids, ¬ (ids.foldl clearWindow R).IsOpen id := by
  induction ids generalizing R with
  | nil => exact ⟨.refl R, fun id hid => absurd hid List.not_mem_nil⟩
  | cons first ids ih =>
    obtain ⟨hfirst, hn⟩ := List.nodup_cons.mp hn
    have hself := hopen first List.mem_cons_self
    obtain ⟨hquiet, hshut⟩ := ih (R := R.clearWindow first) hn fun id hid =>
      isOpen_clearWindow hself (hopen id (List.mem_cons_of_mem first hid))
        (ne_of_mem_of_not_mem hid hfirst)
    refine ⟨(quiet_clearWindow hself).trans hquiet, fun id hid => ?_⟩
    rcases List.mem_cons.mp hid with rfl | hid
    · exact fun h => not_isOpen_clearWindow hself (hquiet.isOpen h)
    · exact hshut id hid

/-- The windows of an environment when it is cleared. -/
theorem ids_open {R : Receiver} (hc : R.Coherent) (environmentId : Utf16) :
    ∀ id ∈ R.windows.values.filter fun id => (R.heap id).environmentId = environmentId,
      R.IsOpen id := by
  intro id hid
  obtain ⟨session, hget⟩ := JsMap.mem_values.mp (List.mem_of_mem_filter hid)
  exact hc.isOpen hget

/-- All of `clearEnvironment` but the fence. -/
theorem settles_unbind (R : Receiver) (environmentId : Utf16) :
    R.Settles ((R.forgetStartupOwner environmentId).unbind environmentId) where
  created := rfl
  eases _ := .refl _
  windows _ _ h := h
  closed _ ho hc := absurd ho hc
  ended _ _ _ _ h := h
  history := ⟨(R.epochsOf environmentId).map fun epoch => (environmentId, epoch), by
    rw [List.map_map]
    rfl⟩

theorem clearEnvironment_eq (R : Receiver) (environmentId : Utf16) : ∃ fenced,
    R.clearEnvironment environmentId =
      { (R.windows.values.filter fun id => (R.heap id).environmentId = environmentId).foldl
          clearWindow ((R.forgetStartupOwner environmentId).unbind environmentId) with
        fencedEnvironmentEpochs := fenced } := by
  unfold clearEnvironment
  dsimp only
  split
  · exact ⟨_, rfl⟩
  · exact ⟨_, rfl⟩

theorem settles_clearEnvironment {R : Receiver} (hc : R.Coherent) (environmentId : Utf16) :
    R.Settles (R.clearEnvironment environmentId) ∧
      ∀ id, (R.clearEnvironment environmentId).IsOpen id →
        (R.heap id).environmentId ≠ environmentId := by
  obtain ⟨fenced, heq⟩ := clearEnvironment_eq R environmentId
  have hunbound := settles_unbind R environmentId
  obtain ⟨hquiet, hshut⟩ := quiet_clearWindows _ (hc.nodup_values.filter _)
    (R := (R.forgetStartupOwner environmentId).unbind environmentId)
    (ids_open hc environmentId)
  have hsettles := hunbound.trans hquiet.toSettles
  rw [heq]
  refine ⟨⟨hsettles.created, hsettles.eases, hsettles.windows, hsettles.closed, hsettles.ended,
    hsettles.history⟩, fun id hopen henv => ?_⟩
  refine hshut id (List.mem_filter.mpr ⟨?_, decide_eq_true henv⟩) hopen
  exact JsMap.mem_values.mpr ⟨_, hsettles.windows _ id hopen⟩

theorem quiet_act {R : Receiver} (hc : R.Coherent) (action : Action)
    (h : ∀ environmentId, action ≠ .clearEnvironment environmentId) : R.Quiet (R.act action) := by
  cases action with
  | bindSession binding resolve => exact quiet_bindSessionWithConfig hc binding resolve
  | rebindAll resolve => exact quiet_rebindAll hc resolve
  | identityMutated isMatch resolve => exact quiet_identityMutated hc isMatch resolve
  | start resolve => exact quiet_start hc resolve
  | rotateCredential rotation => exact quiet_rotateCredential R rotation
  | clearRequested id runId claimId => exact quiet_clearRequested R id runId claimId
  | clearEnvironment environmentId => exact absurd rfl (h environmentId)

theorem settles_act {R : Receiver} (hc : R.Coherent) (action : Action) :
    R.Settles (R.act action) := by
  by_cases h : ∃ environmentId, action = .clearEnvironment environmentId
  · obtain ⟨environmentId, rfl⟩ := h
    exact (settles_clearEnvironment hc environmentId).1
  · exact (quiet_act hc action fun environmentId heq => h ⟨environmentId, heq⟩).toSettles

theorem settles_acts (actions : List Action) {R : Receiver} (hc : R.Coherent) :
    R.Settles (actions.foldl act R) := by
  induction actions generalizing R with
  | nil => exact .refl R
  | cons action actions ih =>
    have hfirst := settles_act hc action
    exact hfirst.trans (ih (hfirst.coherent hc))

end Receiver

end Flashclaw.LiveEvents
