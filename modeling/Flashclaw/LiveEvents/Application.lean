import Flashclaw.LiveEvents.Order

/-!
# Live events: applications

Every application keeps the receiver `Sound`, and what it acknowledges is the number of the
window of its session.
-/

namespace Flashclaw.LiveEvents

open Utf16

namespace Receiver

variable {options : Options}

theorem heap_createWindow_self (R : Receiver) (window : LiveEventWindow) :
    (R.createWindow window).heap R.created = window := Function.update_self ..

theorem heap_createWindow_ne (R : Receiver) (window : LiveEventWindow) {other : ℕ}
    (h : other < R.created) : (R.createWindow window).heap other = R.heap other :=
  Function.update_of_ne h.ne ..

theorem isOpen_createWindow_self (R : Receiver) (window : LiveEventWindow) :
    (R.createWindow window).IsOpen R.created := by
  show (R.windows.set _ _).get? ((R.createWindow window).heap R.created).sessionId = _
  rw [heap_createWindow_self]
  exact JsMap.get?_set_self _ _ _

theorem isOpen_createWindow_iff {R : Receiver} {window : LiveEventWindow} {other : ℕ}
    (hfree : R.windows.get? window.sessionId = none) (h : other < R.created) :
    (R.createWindow window).IsOpen other ↔ R.IsOpen other := by
  show (R.windows.set _ _).get? ((R.createWindow window).heap other).sessionId = _ ↔ _
  rw [heap_createWindow_ne R window h, IsOpen, JsMap.get?_set]
  split
  · rename_i hsession
    rw [← hsession, hfree]
    exact ⟨fun heq => absurd (Option.some.inj heq).symm h.ne, fun heq => by cases heq⟩
  · rfl

/-- A session without a window gets one that is empty. -/
theorem sound_createWindow {R : Receiver} {window : LiveEventWindow} (hs : R.Sound options none)
    (hfree : R.windows.get? window.sessionId = none) (hpending : window.pending = .empty)
    (hbytes : window.pendingBytes = 0) (horigin : window.origin = window.ackedSeq) :
    (R.createWindow window).Sound options none := by
  have hself := heap_createWindow_self R window
  refine ⟨fun session other hget => ?_, fun other hother => ?_, fun other hother hclosed => ?_,
    fun other hother => ?_, fun other hother => hs.unborn other (by exact Nat.le_of_succ_le hother),
    fun other seq runId env epoch hmem ho hacked => ?_, hs.apart⟩
  · have hget' : (if window.sessionId = session then some R.created
        else R.windows.get? session) = some other := by
      rw [← JsMap.get?_set]
      exact hget
    split at hget'
    · obtain rfl := Option.some.inj hget'
      rw [hself]
      exact ⟨‹_›, Nat.lt_succ_self _⟩
    · obtain ⟨hsession, hlt⟩ := hs.coherent session other hget'
      rw [heap_createWindow_ne R window hlt]
      exact ⟨hsession, Nat.lt_succ_of_lt hlt⟩
  · rcases Nat.lt_succ_iff_lt_or_eq.mp hother with hlt | rfl
    · rw [heap_createWindow_ne R window hlt]
      exact hs.fits other hlt
    · rw [hself]
      refine ⟨fun seq p hp => ?_, ?_, ?_⟩
      · rw [hpending] at hp
        cases hp
      · rw [hpending, hbytes]
        rfl
      · rw [hbytes]
        exact Int.natCast_nonneg _
  · rcases Nat.lt_succ_iff_lt_or_eq.mp hother with hlt | rfl
    · rw [isOpen_createWindow_iff hfree hlt] at hclosed
      rw [heap_createWindow_ne R window hlt]
      exact hs.shut other hlt hclosed
    · exact absurd (isOpen_createWindow_self R window) hclosed
  · rcases Nat.lt_succ_iff_lt_or_eq.mp hother with hlt | rfl
    · rw [heap_createWindow_ne R window hlt]
      exact hs.order other hlt
    · rw [hself]
      refine ⟨0, hs.unborn _ le_rfl, ?_⟩
      rw [if_neg (Option.some_ne_none _).symm, horigin]
  · -- a new window has published nothing yet
    by_cases hlt : other < R.created
    · rw [heap_createWindow_ne R window hlt] at hacked ⊢
      exact hs.ends other seq runId env epoch hmem
        ((isOpen_createWindow_iff hfree hlt).mp ho) hacked
    · have hnone := hs.unborn other (Nat.not_lt.mp hlt)
      rw [numbers, List.filterMap_eq_nil_iff] at hnone
      have := hnone _ hmem
      rw [Entry.number, if_pos rfl] at this
      cases this

theorem Sound.newWindow {R : Receiver} {sessionId : Utf16} (hs : R.Sound options none)
    (hfree : R.windows.get? sessionId = none) (identity : WorkerConnectionIdentity)
    (request : WorkerLiveEventParams) (target : LiveEventTarget) :
    (R.createWindow (newWindow sessionId identity request target)).Sound options none :=
  sound_createWindow hs hfree rfl rfl rfl

/-- An acknowledgement is the number of the window of its session. -/
def Acknowledges (R : Receiver) (sessionId : Utf16) (n : ℕ) : Prop :=
  ∃ id < R.created, (R.heap id).sessionId = sessionId ∧ (R.heap id).ackedSeq = n ∧
    ∀ other, R.windows.get? sessionId = some other → other = id

theorem acknowledges_of_isOpen {R : Receiver} {id : ℕ} (hc : R.Coherent) (hopen : R.IsOpen id) :
    R.Acknowledges (R.heap id).sessionId (R.heap id).ackedSeq :=
  ⟨id, hc.lt hopen, rfl, rfl, fun _ hget => Option.some.inj (hget.symm.trans hopen)⟩

/-- The outcome of finding a window: an answer, or the window and its cursor before it. -/
structure Finds (options : Options) (request : WorkerLiveEventParams) (sessionId : Utf16)
    (found : Receiver × (WorkerLiveEventResult ⊕ ℕ)) : Prop where
  sound : found.1.Sound options none
  answer : ∀ n, found.2 = .inl (.ok n) → found.1.Acknowledges sessionId n
  window : ∀ id, found.2 = .inr id → found.1.IsOpen id ∧
    (found.1.heap id).sessionId = sessionId ∧ (found.1.heap id).ackedSeq < request.seq

theorem finds_checkCursor {R : Receiver} {id : ℕ} (request : WorkerLiveEventParams)
    (hs : R.Sound options none) (hopen : R.IsOpen id) :
    Finds options request (R.heap id).sessionId (R.checkCursor id request) := by
  unfold checkCursor
  dsimp only
  split
  · refine ⟨hs, fun n hn => ?_, fun _ h => by cases h⟩
    cases hn
    exact acknowledges_of_isOpen hs.coherent hopen
  split
  · exact ⟨hs.settles (quiet_dropPending R id).toSettles, fun _ h => (by cases h),
      fun _ h => by cases h⟩
  · rename_i hafter _
    refine ⟨hs, fun _ h => (by cases h), fun other h => ?_⟩
    obtain rfl := Sum.inr.inj h
    exact ⟨hopen, rfl, Nat.not_le.mp hafter⟩

theorem finds_error {R : Receiver} {request : WorkerLiveEventParams} {sessionId : Utf16} {failure}
    (hs : R.Sound options none) : Finds options request sessionId (R, .inl (.error failure)) :=
  ⟨hs, fun _ h => (by cases h), fun _ h => by cases h⟩

theorem finds_resolveOrCreateWindow {R : Receiver} (sessionId : Utf16)
    (identity : WorkerConnectionIdentity) (request : WorkerLiveEventParams)
    (hs : R.Sound options none) :
    Finds options request sessionId
      (R.resolveOrCreateWindow options sessionId identity request) := by
  unfold resolveOrCreateWindow
  split
  · exact finds_error hs
  split
  · exact finds_error hs
  split
  · exact finds_error hs
  split
  · rename_i id hget
    dsimp only
    split
    · exact finds_error hs
    · rw [← (hs.coherent sessionId id hget).1]
      exact finds_checkCursor request hs (hs.coherent.isOpen hget)
  · rename_i binding _ _ _ _ hfree
    split
    · exact finds_error hs
    split
    · exact finds_error hs
    · have hself := heap_createWindow_self R (newWindow sessionId identity request binding.target)
      have hfinds := finds_checkCursor request
        (hs.newWindow hfree identity request binding.target) (isOpen_createWindow_self R _)
      rw [hself] at hfinds
      exact hfinds

theorem sound_buffer {R : Receiver} {id : ℕ} {request : WorkerLiveEventParams}
    (hs : R.Sound options none) (hopen : R.IsOpen id)
    (hlt : (R.heap id).ackedSeq < request.seq)
    (hle : request.seq ≤ (R.heap id).ackedSeq + options.windowSize)
    (hnew : (R.heap id).pending.get? request.seq = none)
    (hroom : (R.heap id).pendingBytes + sizeBytes request.event ≤ options.maxPendingBytes) :
    (R.buffer id request).Sound options none := by
  have hfits := hs.fits id (hs.coherent.lt hopen)
  refine hs.change (fun hclosed => absurd hopen hclosed) ⟨rfl, rfl, ⟨fun seq p hp => ?_, ?_, hroom⟩,
    rfl, le_rfl, fun _ _ => .rfl, fun _ _ _ h => h⟩
  · replace hp : ((R.heap id).pending.set request.seq ⟨request, sizeBytes request.event⟩).get? seq =
      some p := hp
    rw [JsMap.get?_set] at hp
    split at hp
    · obtain rfl := Option.some.inj hp
      rename_i hseq
      exact hseq ▸ ⟨hlt, hle, rfl⟩
    · exact hfits.range seq p hp
  · have hsum := JsMap.sum_values_set (R.heap id).pending
      (fun p : PendingLiveEvent => (p.sizeBytes : ℤ)) request.seq ⟨request, sizeBytes request.event⟩
    rw [hnew, Option.map_none, Option.getD_none, add_zero] at hsum
    show (R.heap id).pendingBytes + _ = _
    rw [hfits.bytes]
    exact hsum.symm

/-- A request with the next number, or the one that is buffered for it, is the head. -/
theorem Sound.atNext {R : Receiver} {id : ℕ} {request : WorkerLiveEventParams}
    (hs : R.Sound options none) (hopen : R.IsOpen id)
    (hnext : request.seq = (R.heap id).ackedSeq + 1) :
    R.AtHead id ((((R.heap id).pending.get? request.seq).map (·.request)).getD request)
      ((R.heap id).pending.get? request.seq) := by
  rcases hpending : (R.heap id).pending.get? request.seq with _ | p
  · exact ⟨hopen, hnext, fun p hp => hpending.symm.trans hp, fun _ h => by cases h⟩
  · have hseq := ((hs.fits id (hs.coherent.lt hopen)).range _ p hpending).2.2
    refine ⟨hopen, hseq.trans hnext, fun q hq => ?_, fun q hq => ?_⟩
    · show some p = some q
      rw [← hpending, ← hq]
      exact congrArg _ hseq.symm
    · obtain rfl := Option.some.inj hq
      rfl

theorem sound_applyTo {R : Receiver} {id : ℕ} {request : WorkerLiveEventParams} (turns : ℕ → Turn)
    (hs : R.Sound options none) (hopen : R.IsOpen id)
    (hlt : (R.heap id).ackedSeq < request.seq) :
    (R.applyTo options id request turns).1.Sound options none ∧
      ∀ n, (R.applyTo options id request turns).2 = .ok n →
        (R.applyTo options id request turns).1.Acknowledges (R.heap id).sessionId n := by
  have hid := hs.coherent.lt hopen
  have hdropped := hs.settles (quiet_dropPending R id).toSettles
  unfold applyTo
  dsimp only
  split
  · exact ⟨hdropped, fun _ h => by cases h⟩
  rename_i hwindow
  split
  · -- the number is the next one
    rename_i hnext
    obtain ⟨hsound, hnarrows, hanswer⟩ :=
      sound_drain id turns (R.heap id).pending.size false hs (hs.atNext hopen hnext)
    refine ⟨hsound, fun n hn => ⟨id, hnarrows.created ▸ hid, hnarrows.sessionId id,
      (hanswer n hn).symm, fun other hget => ?_⟩⟩
    exact Option.some.inj ((hnarrows.windows _ other hget).symm.trans hopen)
  split
  · refine ⟨hs, fun n hn => ?_⟩
    cases hn
    exact acknowledges_of_isOpen hs.coherent hopen
  rename_i hnew
  split
  · exact ⟨hdropped, fun _ h => by cases h⟩
  · rename_i hroom
    have hbuffered := sound_buffer hs hopen hlt (Nat.not_lt.mp hwindow) (by simpa using hnew)
      (not_lt.mp hroom)
    refine ⟨hbuffered, fun n hn => ?_⟩
    cases hn
    have hstill : (R.buffer id request).IsOpen id := by
      show R.windows.get? ((R.change id _).heap id).sessionId = some id
      rw [heap_change_self]
      exact hopen
    have hanswer := acknowledges_of_isOpen hbuffered.coherent hstill
    rw [buffer, heap_change_self] at hanswer
    exact hanswer

theorem sound_apply {R : Receiver} (identity : WorkerConnectionIdentity)
    (request : WorkerLiveEventParams) (turns : ℕ → Turn) (hs : R.Sound options none) :
    (R.apply options identity request turns).1.Sound options none ∧
      ∀ n, (R.apply options identity request turns).2 = .ok n → ∃ sessionId,
        identity.sessionId = some sessionId ∧
        (R.apply options identity request turns).1.Acknowledges sessionId n := by
  unfold apply
  split
  · exact ⟨hs, fun _ h => by cases h⟩
  rename_i sessionId hsession
  split
  · exact ⟨hs, fun _ h => by cases h⟩
  split
  · exact ⟨hs, fun _ h => by cases h⟩
  have hfinds := finds_resolveOrCreateWindow sessionId identity request hs
  dsimp only
  have hidentity := (Option.filter_eq_some_iff.mp hsession).1
  split
  · rename_i result hresult
    refine ⟨hfinds.sound, fun n hn => ⟨sessionId, hidentity, hfinds.answer n ?_⟩⟩
    rw [hresult]
    exact congrArg _ hn
  · rename_i id hfound
    obtain ⟨hopen, hid, hlt⟩ := hfinds.window id hfound
    obtain ⟨hsound, hanswer⟩ := sound_applyTo turns hfinds.sound hopen hlt
    rw [hid] at hanswer
    exact ⟨hsound, fun n hn => ⟨sessionId, hidentity, hanswer n hn⟩⟩

end Receiver

end Flashclaw.LiveEvents
