import Flashclaw.LiveEvents.Claims

/-!
# Live events: the order of publication

`Sound` is what holds of a receiver between two operations, and with `ahead` while the next
event of that window is with its listeners.
-/

namespace Flashclaw.LiveEvents

open Utf16

structure LiveEventWindow.Fits (options : Options) (window : LiveEventWindow) : Prop where
  range : ∀ seq p, window.pending.get? seq = some p →
    window.ackedSeq < seq ∧ seq ≤ window.ackedSeq + options.windowSize ∧ p.request.seq = seq
  bytes : window.pendingBytes = (window.pending.values.map fun p => (p.sizeBytes : ℤ)).sum
  room : window.pendingBytes ≤ options.maxPendingBytes

def Entry.number (id : ℕ) : Entry → Option ℕ
  | .published window seq _ _ _ _ => if window = id then some seq else none
  | .cleared _ _ => none

/-- The numbers of what was published for a window, in order. -/
def numbers (id : ℕ) (history : List Entry) : List ℕ := history.filterMap (Entry.number id)

/-- A window publishes nothing for a run that ended while its end is on record. -/
def Entry.Apart (windowSize : ℕ) : Entry → Entry → Prop
  | .published id seq runId _ _ definitive, .published id' seq' runId' _ _ _ =>
    definitive = true → id = id' → runId = runId' → seq + windowSize < seq'
  | _, _ => True

theorem LiveEventWindow.Fits.eases {options : Options} {w w' : LiveEventWindow}
    (h : w.Fits options) (he : w.Eases w') : w'.Fits options := by
  refine ⟨fun seq p hp => ?_, ?_, ?_⟩
  · rw [he.ackedSeq]
    exact h.range seq p (he.get?_pending hp)
  · obtain ⟨hp, hb⟩ | ⟨hp, hb⟩ := he.queue
    · rw [hp, hb]
      exact h.bytes
    · rw [hp, hb]
      rfl
  · obtain ⟨-, hb⟩ | ⟨-, hb⟩ := he.queue
    · rw [hb]
      exact h.room
    · rw [hb]
      exact Int.natCast_nonneg _

theorem LiveEventWindow.Fits.delete {options : Options} {w : LiveEventWindow} (h : w.Fits options)
    {seq : ℕ} {p : PendingLiveEvent} (hp : w.pending.get? seq = some p) :
    ({ w with
      pending := w.pending.delete seq
      pendingBytes := w.pendingBytes - p.sizeBytes } : LiveEventWindow).Fits options := by
  have hsum := JsMap.sum_values_delete w.pending (fun p => (p.sizeBytes : ℤ)) seq
  rw [hp, Option.map_some, Option.getD_some] at hsum
  refine ⟨fun other q hq => ?_, ?_, ?_⟩
  · rw [JsMap.get?_delete] at hq
    split at hq
    · cases hq
    · exact h.range other q hq
  · show w.pendingBytes - (p.sizeBytes : ℤ) =
      ((w.pending.delete seq).values.map fun p => (p.sizeBytes : ℤ)).sum
    rw [h.bytes]
    omega
  · show w.pendingBytes - _ ≤ _
    have := h.room
    omega

namespace Receiver

variable {options : Options}

structure Sound (options : Options) (R : Receiver) (ahead : Option ℕ) : Prop where
  coherent : R.Coherent
  fits : ∀ id < R.created, (R.heap id).Fits options
  shut : ∀ id < R.created, ¬ R.IsOpen id → (R.heap id).pending = .empty
  order : ∀ id < R.created, ∃ n,
    numbers id R.history = List.range' ((R.heap id).origin + 1) n ∧
    (R.heap id).origin + n = (R.heap id).ackedSeq + if ahead = some id then 1 else 0
  unborn : ∀ id, R.created ≤ id → numbers id R.history = []
  ends : ∀ id seq runId environmentId runEpoch,
    .published id seq runId environmentId runEpoch true ∈ R.history → R.IsOpen id →
    (R.heap id).ackedSeq < seq + options.windowSize →
    (R.heap id).terminalRuns.get? runId = some seq
  apart : R.history.Pairwise (Entry.Apart options.windowSize)

theorem numbers_cleared (id : ℕ) (history : List Entry) (cleared : List (Utf16 × ℕ)) :
    numbers id (history ++ cleared.map fun c => .cleared c.1 c.2) = numbers id history := by
  have hnone : (cleared.map fun c => Entry.cleared c.1 c.2).filterMap (Entry.number id) = [] := by
    rw [List.filterMap_eq_nil_iff]
    intro entry hentry
    obtain ⟨c, -, rfl⟩ := List.mem_map.mp hentry
    rfl
  rw [numbers, List.filterMap_append, hnone, List.append_nil]
  rfl

theorem Sound.settles {R R' : Receiver} {ahead : Option ℕ} (hs : R.Sound options ahead)
    (h : R.Settles R') : R'.Sound options ahead := by
  obtain ⟨cleared, hhistory⟩ := h.history
  refine ⟨h.coherent hs.coherent, fun id hid => ?_, fun id hid hclosed => ?_, fun id hid => ?_,
    fun id hid => ?_, fun id seq runId env epoch hmem hopen hacked => ?_, ?_⟩
  · exact (hs.fits id (h.created ▸ hid)).eases (h.eases id)
  · by_cases hopen : R.IsOpen id
    · exact h.closed id hopen hclosed
    · have hempty := hs.shut id (h.created ▸ hid) hopen
      obtain ⟨hp, -⟩ | ⟨hp, -⟩ := (h.eases id).queue
      · rw [hp, hempty]
      · exact hp
  · rw [hhistory, numbers_cleared, (h.eases id).origin, (h.eases id).ackedSeq]
    exact hs.order id (h.created ▸ hid)
  · rw [hhistory, numbers_cleared]
    exact hs.unborn id (h.created ▸ hid)
  · rw [hhistory, List.mem_append] at hmem
    rcases hmem with hmem | hmem
    · rw [(h.eases id).ackedSeq] at hacked
      exact h.ended id hopen runId seq
        (hs.ends id seq runId env epoch hmem (h.isOpen hopen) hacked)
    · obtain ⟨c, -, hc⟩ := List.mem_map.mp hmem
      cases hc
  · rw [hhistory, List.pairwise_append]
    refine ⟨hs.apart, ?_, fun e _ e' he' => ?_⟩
    · rw [List.pairwise_map]
      exact List.pairwise_of_forall fun _ _ => trivial
    · obtain ⟨c, -, rfl⟩ := List.mem_map.mp he'
      cases e <;> trivial

theorem quiet_fenceEnded {R : Receiver} {id : ℕ} {request : WorkerLiveEventParams}
    (hended : (R.heap id).terminalRuns.get? request.runId = none) :
    R.Quiet (R.fenceEnded id request) := by
  unfold fenceEnded
  split
  · refine quiet_change R ⟨rfl, rfl, rfl, rfl, rfl, .inl ⟨rfl, rfl⟩⟩ fun runId seq hget => ?_
    have hne : request.runId ≠ runId := by
      rintro rfl
      rw [hended] at hget
      cases hget
    rwa [JsMap.get?_set_ne _ _ hne]
  · exact .refl R

theorem windows_fenceEnded (R : Receiver) (id : ℕ) (request : WorkerLiveEventParams) :
    (R.fenceEnded id request).windows = R.windows := by
  unfold fenceEnded
  split <;> rfl

theorem numbers_concat (id : ℕ) (history : List Entry) (entry : Entry) :
    numbers id (history ++ [entry]) = numbers id history ++ (entry.number id).toList := by
  rw [numbers, List.filterMap_append]
  cases h : entry.number id <;> simp [numbers, h]

/-- The next number of an open window goes out for a run without an end on record. -/
theorem Sound.record {R : Receiver} {id : ℕ} {request : WorkerLiveEventParams}
    (hs : R.Sound options none) (hopen : R.IsOpen id)
    (hnext : request.seq = (R.heap id).ackedSeq + 1)
    (hended : ∀ seq environmentId runEpoch,
      .published id seq request.runId environmentId runEpoch true ∈ R.history →
      seq + options.windowSize < request.seq)
    (hnew : isDefinitiveWorkerTerminalEvent request.event = true →
      (R.heap id).terminalRuns.get? request.runId = some request.seq) :
    (R.record id request).Sound options (some id) := by
  have hlt := hs.coherent.lt hopen
  refine ⟨hs.coherent, hs.fits, hs.shut, fun other hother => ?_, fun other hother => ?_,
    fun other seq runId env epoch hmem ho hacked => ?_, ?_⟩
  · -- The event published now is the one number its stream has not acknowledged yet.
    obtain ⟨n, hn, hsum⟩ := hs.order other hother
    rw [if_neg (Option.some_ne_none other).symm] at hsum
    show ∃ n, numbers other (R.history ++ [_]) = List.range' ((R.heap other).origin + 1) n ∧
      (R.heap other).origin + n = (R.heap other).ackedSeq + _
    rw [numbers_concat, hn]
    by_cases hid : id = other
    · subst hid
      refine ⟨n + 1, ?_, ?_⟩
      · rw [List.range'_concat, Entry.number, if_pos rfl, hnext]
        show _ ++ [_] = _ ++ [_]
        congr 2
        omega
      · rw [if_pos rfl]
        omega
    · refine ⟨n, ?_, ?_⟩
      · rw [Entry.number, if_neg hid]
        exact List.append_nil _
      · rw [if_neg fun h => hid (Option.some.inj h)]
        exact hsum
  · show numbers other (R.history ++ _) = []
    have hne : id ≠ other := by
      rintro rfl
      exact absurd hlt (Nat.not_lt.mpr hother)
    rw [numbers_concat, hs.unborn other hother, Entry.number, if_neg hne]
    rfl
  · -- A definitive end is entered with its own number, so it is the run's last.
    rcases List.mem_append.mp hmem with hmem | hmem
    · exact hs.ends other seq runId env epoch hmem ho hacked
    · obtain ⟨rfl, rfl, rfl, -, -, hdefinitive⟩ :=
        Entry.published.inj (List.mem_singleton.mp hmem)
      exact hnew hdefinitive.symm
  · show (R.history ++ _).Pairwise _
    rw [List.pairwise_append]
    refine ⟨hs.apart, List.pairwise_singleton _ _, fun e he e' he' => ?_⟩
    rw [List.mem_singleton.mp he']
    cases e with
    | cleared env epoch => trivial
    | published id' seq runId env epoch definitive =>
      rintro rfl rfl rfl
      exact hended seq env epoch he

theorem Sound.emit {R : Receiver} {id : ℕ} {request : WorkerLiveEventParams} (turn : Turn)
    (hs : R.Sound options none) (hopen : R.IsOpen id)
    (hnext : request.seq = (R.heap id).ackedSeq + 1)
    (hended : (R.heap id).terminalRuns.get? request.runId = none) :
    (R.emit id request turn).Sound options (some id) ∧
      ((R.fenceEnded id request).record id request).Settles (R.emit id request turn) := by
  have hquiet := quiet_fenceEnded hended
  have hfenced := hs.settles hquiet.toSettles
  have hacked := (hquiet.eases id).ackedSeq
  have hrecorded : ((R.fenceEnded id request).record id request).Sound options (some id) := by
    refine hfenced.record (hquiet.toSettles.stays_open (windows_fenceEnded R id request) hopen)
      (hacked ▸ hnext) (fun seq env epoch hmem => ?_) fun hdefinitive => ?_
    · -- an end that is still on record would have refused the claim
      rw [hquiet.same] at hmem
      by_contra hnear
      have hkept := hs.ends id seq request.runId env epoch hmem hopen (by omega)
      rw [hended] at hkept
      cases hkept
    · rw [fenceEnded, if_pos hdefinitive, heap_change_self]
      exact JsMap.get?_set_self _ _ _
  have hsettles := settles_acts turn.listeners hrecorded.coherent
  exact ⟨hrecorded.settles hsettles, hsettles⟩

/-- A change of a window that publishes nothing. -/
structure Proper (options : Options) (id : ℕ) (ahead ahead' : Option ℕ)
    (w w' : LiveEventWindow) : Prop where
  sessionId : w'.sessionId = w.sessionId
  origin : w'.origin = w.origin
  fits : w'.Fits options
  acked : (w.ackedSeq + if ahead = some id then 1 else 0) =
    w'.ackedSeq + if ahead' = some id then 1 else 0
  le : w.ackedSeq ≤ w'.ackedSeq
  others : ∀ other, other ≠ id → (ahead = some other ↔ ahead' = some other)
  ended : ∀ runId seq, w'.ackedSeq < seq + options.windowSize →
    w.terminalRuns.get? runId = some seq → w'.terminalRuns.get? runId = some seq

theorem Sound.change {R : Receiver} {ahead ahead' : Option ℕ} {id : ℕ}
    {f : LiveEventWindow → LiveEventWindow} (hs : R.Sound options ahead)
    (hshut : ¬ R.IsOpen id → (f (R.heap id)).pending = .empty)
    (hf : Proper options id ahead ahead' (R.heap id) (f (R.heap id))) :
    (R.change id f).Sound options ahead' := by
  have hself := heap_change_self R id f
  have hne : ∀ other, other ≠ id → (R.change id f).heap other = R.heap other :=
    fun other hne => heap_change_ne R f hne
  have hsession : ∀ other, ((R.change id f).heap other).sessionId = (R.heap other).sessionId := by
    intro other
    by_cases h : other = id
    · rw [h, hself, hf.sessionId]
    · rw [hne other h]
  have hiff : ∀ other, (R.change id f).IsOpen other ↔ R.IsOpen other := fun other => by
    rw [IsOpen, IsOpen, hsession]
    rfl
  refine ⟨fun session other hget => ?_, fun other hother => ?_, fun other hother hclosed => ?_,
    fun other hother => ?_, hs.unborn, fun other seq runId env epoch hmem ho hacked => ?_, hs.apart⟩
  · rw [hsession]
    exact hs.coherent session other hget
  · by_cases h : other = id
    · rw [h, hself]
      exact hf.fits
    · rw [hne other h]
      exact hs.fits other hother
  · rw [hiff] at hclosed
    by_cases h : other = id
    · subst h
      rw [hself]
      exact hshut hclosed
    · rw [hne other h]
      exact hs.shut other hother hclosed
  · obtain ⟨n, hn, hsum⟩ := hs.order other hother
    refine ⟨n, ?_⟩
    by_cases h : other = id
    · subst h
      rw [hself, hf.origin, ← hf.acked]
      exact ⟨hn, hsum⟩
    · rw [hne other h]
      simp only [hf.others other h] at hsum
      exact ⟨hn, hsum⟩
  · rw [hiff] at ho
    by_cases h : other = id
    · subst h
      rw [hself] at hacked ⊢
      refine hf.ended runId seq hacked ?_
      exact hs.ends other seq runId env epoch hmem ho (lt_of_le_of_lt hf.le hacked)
    · rw [hne other h] at hacked ⊢
      exact hs.ends other seq runId env epoch hmem ho hacked

theorem Sound.takePending {R : Receiver} {ahead : Option ℕ} {id seq : ℕ}
    {buffered : PendingLiveEvent} (hs : R.Sound options ahead) (hid : id < R.created)
    (hbuffered : ∀ p, (R.heap id).pending.get? seq = some p → p = buffered) :
    (R.takePending id seq buffered).Sound options ahead := by
  have hfits := hs.fits id hid
  refine hs.change (fun hclosed => ?_) ?_
  · have hempty := hs.shut id hid hclosed
    rw [if_neg (by rw [hempty, JsMap.get?_empty]; exact Bool.noConfusion)]
    exact hempty
  split
  · rename_i hsome
    obtain ⟨p, hp⟩ := Option.isSome_iff_exists.mp hsome
    obtain rfl := hbuffered p hp
    exact ⟨rfl, rfl, hfits.delete hp, rfl, le_rfl, fun _ _ => .rfl, fun _ _ _ h => h⟩
  · exact ⟨rfl, rfl, hfits, rfl, le_rfl, fun _ _ => .rfl, fun _ _ _ h => h⟩

theorem takePending_get? (R : Receiver) (id seq : ℕ) (buffered : PendingLiveEvent) :
    ((R.takePending id seq buffered).heap id).pending.get? seq = none := by
  rw [takePending, heap_change_self]
  split
  · rw [JsMap.get?_delete, if_pos rfl]
  · rename_i hnone
    simpa using hnone

theorem Sound.advance {R : Receiver} {id seq : ℕ} (hs : R.Sound options (some id))
    (hid : id < R.created) (hnext : seq = (R.heap id).ackedSeq + 1)
    (htaken : (R.heap id).pending.get? seq = none) :
    (R.advance options id seq).Sound options none := by
  have hfits := hs.fits id hid
  refine hs.change (hs.shut id hid) ⟨rfl, rfl, ⟨fun other p hp => ?_, hfits.bytes, hfits.room⟩,
    ?_, ?_, fun other hother => ?_, fun runId terminalSeq hacked hget => ?_⟩
  · obtain ⟨hlt, hle, hseq⟩ := hfits.range other p hp
    have hne : other ≠ seq := by
      rintro rfl
      rw [htaken] at hp
      cases hp
    refine ⟨?_, ?_, hseq⟩
    · show seq < other
      omega
    · show other ≤ seq + _
      omega
  · rw [if_pos rfl, if_neg (Option.some_ne_none id).symm]
    exact hnext.symm
  · show _ ≤ seq
    omega
  · exact ⟨fun h => absurd (Option.some.inj h).symm hother, fun h => by cases h⟩
  · rw [JsMap.get?_filterEntries, hget]
    have hrecent : seq < terminalSeq + options.windowSize := hacked
    simp [hrecent]

/-- No window is opened, none moves to another session. -/
structure Narrows (R R' : Receiver) : Prop where
  created : R'.created = R.created
  sessionId : ∀ id, (R'.heap id).sessionId = (R.heap id).sessionId
  windows : ∀ session id, R'.windows.get? session = some id → R.windows.get? session = some id

theorem Narrows.refl (R : Receiver) : R.Narrows R := ⟨rfl, fun _ => rfl, fun _ _ h => h⟩

theorem Narrows.trans {R R' R'' : Receiver} (h : R.Narrows R') (h' : R'.Narrows R'') :
    R.Narrows R'' :=
  ⟨h'.created.trans h.created, fun id => (h'.sessionId id).trans (h.sessionId id),
    fun session id hget => h.windows session id (h'.windows session id hget)⟩

theorem Settles.narrows {R R' : Receiver} (h : R.Settles R') : R.Narrows R' :=
  ⟨h.created, fun id => (h.eases id).sessionId, h.windows⟩

theorem narrows_change (R : Receiver) {id : ℕ} {f : LiveEventWindow → LiveEventWindow}
    (hf : (f (R.heap id)).sessionId = (R.heap id).sessionId) : R.Narrows (R.change id f) := by
  refine ⟨rfl, fun other => ?_, fun _ _ h => h⟩
  by_cases h : other = id
  · rw [h, heap_change_self, hf]
  · rw [heap_change_ne R f h]

theorem narrows_taken (R : Receiver) (id seq : ℕ) (buffered : Option PendingLiveEvent) :
    R.Narrows (buffered.elim R (R.takePending id seq)) := by
  cases buffered with
  | none => exact .refl R
  | some b =>
    refine narrows_change R ?_
    split <;> rfl

theorem narrows_advance (R : Receiver) (id seq : ℕ) : R.Narrows (R.advance options id seq) :=
  narrows_change R rfl

theorem narrows_acknowledge (options : Options) (R : Receiver) (id seq : ℕ)
    (buffered : Option PendingLiveEvent) : R.Narrows (R.acknowledge options id seq buffered) :=
  (narrows_taken R id seq buffered).trans (narrows_advance _ id seq)

/-- The request that the drain is about to publish. -/
structure AtHead (R : Receiver) (id : ℕ) (request : WorkerLiveEventParams)
    (buffered : Option PendingLiveEvent) : Prop where
  isOpen : R.IsOpen id
  next : request.seq = (R.heap id).ackedSeq + 1
  held : ∀ p, (R.heap id).pending.get? request.seq = some p → buffered = some p
  request_eq : ∀ p, buffered = some p → p.request = request

theorem Sound.acknowledge {R : Receiver} {id seq : ℕ} {buffered : Option PendingLiveEvent}
    (hs : R.Sound options (some id)) (hid : id < R.created)
    (hnext : seq = (R.heap id).ackedSeq + 1)
    (hheld : ∀ p, (R.heap id).pending.get? seq = some p → buffered = some p) :
    (R.acknowledge options id seq buffered).Sound options none := by
  cases buffered with
  | none =>
    refine hs.advance hid hnext (Option.eq_none_iff_forall_ne_some.mpr fun p hp => ?_)
    cases hheld p hp
  | some b =>
    have htaken : (R.takePending id seq b).Sound options (some id) :=
      hs.takePending hid fun p hp => (Option.some.inj (hheld p hp)).symm
    refine htaken.advance hid ?_ (takePending_get? R id seq b)
    show _ = (((R.change id _).heap id).ackedSeq + 1)
    rw [heap_change_self]
    split <;> exact hnext

/-- Of what follows the published event, an open window has it next. -/
theorem Sound.atHead {R : Receiver} {id : ℕ} {next : PendingLiveEvent} (hs : R.Sound options none)
    (hid : id < R.created)
    (hnext : (R.heap id).pending.get? ((R.heap id).ackedSeq + 1) = some next) :
    R.AtHead id next.request (some next) := by
  have hseq := ((hs.fits id hid).range _ next hnext).2.2
  refine ⟨?_, hseq, fun p hp => ?_, fun p hp => ?_⟩
  · by_contra hclosed
    rw [hs.shut id hid hclosed] at hnext
    cases hnext
  · rw [hseq, hnext] at hp
    exact hp
  · rw [Option.some.inj hp]

/-- What a publication does. -/
theorem publish_spec {R : Receiver} {id : ℕ} {request : WorkerLiveEventParams}
    {buffered : Option PendingLiveEvent} (turn : Turn) (hs : R.Sound options none)
    (hhead : R.AtHead id request buffered) :
    (∃ failed, (R.publish options id request buffered.isSome turn).2 = some failed ∧
      R.Quiet (R.publish options id request buffered.isSome turn).1 ∧
      (failed = .capacityExceeded →
        (R.publish options id request buffered.isSome turn).1.IsOpen id)) ∨
    ((R.publish options id request buffered.isSome turn).2 = none ∧
      (R.publish options id request buffered.isSome turn).1.Sound options (some id) ∧
      (R.heap id).Eases ((R.publish options id request buffered.isSome turn).1.heap id) ∧
      R.Narrows (R.publish options id request buffered.isSome turn).1) := by
  obtain ⟨hquiet, hgranted, hfull⟩ :=
    claims_claimRun options request.runId buffered.isSome turn hhead.isOpen
  unfold publish
  dsimp only
  split
  · rename_i failed hfailed
    exact .inl ⟨failed, rfl, hquiet, fun h => hfull (h ▸ hfailed)⟩
  · rename_i owned howned
    obtain ⟨hopen, hended⟩ := hgranted owned howned
    have hnext : request.seq = ((R.claimRun options id request.runId buffered.isSome
        turn).1.heap id).ackedSeq + 1 := (hquiet.eases id).ackedSeq ▸ hhead.next
    obtain ⟨hsound, hsettles⟩ := (hs.settles hquiet.toSettles).emit turn hopen hnext hended
    refine .inr ⟨rfl, hsound, ?_, ?_⟩
    · exact ((hquiet.eases id).trans ((quiet_fenceEnded hended).eases id)).trans (hsettles.eases id)
    · have hrecord : ((R.claimRun options id request.runId buffered.isSome turn).1.fenceEnded id
          request).Narrows (((R.claimRun options id request.runId buffered.isSome
            turn).1.fenceEnded id request).record id request) := ⟨rfl, fun _ => rfl, fun _ _ h => h⟩
      exact ((hquiet.trans (quiet_fenceEnded hended)).toSettles.narrows.trans hrecord).trans
        hsettles.narrows

theorem sound_refuse {R : Receiver} {id seq : ℕ} {buffered : Option PendingLiveEvent}
    (publishedPrefix : Bool) (failed : WorkerLiveEventFailure) (hs : R.Sound options none)
    (hid : id < R.created)
    (hheld : ∀ p, (R.heap id).pending.get? seq = some p → buffered = some p)
    (hfull : failed = .capacityExceeded → R.IsOpen id) :
    (R.refuse id seq buffered publishedPrefix failed).1.Sound options none ∧
      R.Narrows (R.refuse id seq buffered publishedPrefix failed).1 ∧
      ∀ n, (R.refuse id seq buffered publishedPrefix failed).2 = .ok n →
        n = ((R.refuse id seq buffered publishedPrefix failed).1.heap id).ackedSeq := by
  have hnarrows := narrows_taken R id seq buffered
  have htaken : (buffered.elim R (R.takePending id seq)).Sound options none := by
    cases buffered with
    | none => exact hs
    | some b => exact hs.takePending hid fun p hp => (Option.some.inj (hheld p hp)).symm
  unfold refuse
  split
  · exact ⟨hs, .refl R, fun n hn => (Except.ok.inj hn).symm⟩
  rename_i hfresh
  dsimp only
  split
  · -- a fresh head that finds no room: its window is given up
    rename_i hgiven
    obtain ⟨hcapacity, -⟩ := Bool.and_eq_true_iff.mp hgiven
    replace hcapacity := of_decide_eq_true hcapacity
    cases buffered with
    | none =>
      have hquiet := quiet_clearWindow (hfull hcapacity)
      exact ⟨hs.settles hquiet.toSettles, hquiet.toSettles.narrows, fun n hn => by cases hn⟩
    | some b => exact absurd (by simp [hcapacity]) hfresh
  split
  · exact ⟨htaken, hnarrows, fun n hn => (Except.ok.inj hn).symm⟩
  · exact ⟨htaken, hnarrows, fun n hn => by cases hn⟩

/-- A refused publication leaves the head of its window where it was. -/
theorem AtHead.held_of_eases {R R' : Receiver} {id : ℕ} {request : WorkerLiveEventParams}
    {buffered : Option PendingLiveEvent} (h : R.AtHead id request buffered)
    (he : (R.heap id).Eases (R'.heap id)) :
    ∀ p, (R'.heap id).pending.get? request.seq = some p → buffered = some p :=
  fun p hp => h.held p (he.get?_pending hp)

/-- A publication and its acknowledgement. -/
theorem sound_published {R : Receiver} {id : ℕ} {request : WorkerLiveEventParams}
    {buffered : Option PendingLiveEvent} (turn : Turn) (hs : R.Sound options none)
    (hhead : R.AtHead id request buffered)
    (hnone : (R.publish options id request buffered.isSome turn).2 = none) :
    ((R.publish options id request buffered.isSome turn).1.acknowledge options id request.seq
        buffered).Sound options none ∧
      id < ((R.publish options id request buffered.isSome turn).1.acknowledge options id
        request.seq buffered).created ∧
      R.Narrows ((R.publish options id request buffered.isSome turn).1.acknowledge options id
        request.seq buffered) := by
  have hid := hs.coherent.lt hhead.isOpen
  obtain ⟨failed, hfailed, -⟩ | ⟨-, hsound, heases, hnarrows⟩ := publish_spec turn hs hhead
  · cases hfailed.symm.trans hnone
  have hacked := hsound.acknowledge (hnarrows.created ▸ hid) (heases.ackedSeq ▸ hhead.next)
    (hhead.held_of_eases heases)
  have hlast := narrows_acknowledge options
    (R.publish options id request buffered.isSome turn).1 id request.seq buffered
  exact ⟨hacked, (hnarrows.trans hlast).created ▸ hid, hnarrows.trans hlast⟩

/-- The drain ends with its window in order, and answers with its number. -/
theorem sound_drain (id : ℕ) (turns : ℕ → Turn) (fuel : ℕ) {R : Receiver}
    {request : WorkerLiveEventParams} {buffered : Option PendingLiveEvent} (publishedPrefix : Bool)
    (hs : R.Sound options none) (hhead : R.AtHead id request buffered) :
    (drain options id turns fuel R request buffered publishedPrefix).1.Sound options none ∧
      R.Narrows (drain options id turns fuel R request buffered publishedPrefix).1 ∧
      ∀ n, (drain options id turns fuel R request buffered publishedPrefix).2 = .ok n → n =
        ((drain options id turns fuel R request buffered publishedPrefix).1.heap id).ackedSeq := by
  fun_induction drain options id turns fuel R request buffered publishedPrefix with
  | case1 fuel R request buffered publishedPrefix published failed hfailed =>
    have hid := hs.coherent.lt hhead.isOpen
    obtain ⟨failed', hfailed', hquiet, hfull⟩ | ⟨hnone, -⟩ := publish_spec (turns fuel) hs hhead
    · obtain rfl := Option.some.inj (hfailed.symm.trans hfailed')
      obtain ⟨hrefused, hnarrows, hanswer⟩ := sound_refuse publishedPrefix failed
        (hs.settles hquiet.toSettles) (hquiet.created ▸ hid)
        (hhead.held_of_eases (hquiet.eases id)) hfull
      exact ⟨hrefused, hquiet.toSettles.narrows.trans hnarrows, hanswer⟩
    · cases hfailed.symm.trans hnone
  | case2 R request buffered publishedPrefix fuel next published hnone acked hnext ih =>
    obtain ⟨hacked, hid, hnarrows⟩ := sound_published (turns (fuel + 1)) hs hhead hnone
    obtain ⟨hrest, hnarrows', hanswer⟩ := ih hacked (hacked.atHead hid hnext)
    exact ⟨hrest, hnarrows.trans hnarrows', hanswer⟩
  | case3 fuel R request buffered publishedPrefix published hnone acked _ =>
    obtain ⟨hacked, -, hnarrows⟩ := sound_published (turns fuel) hs hhead hnone
    exact ⟨hacked, hnarrows, fun n hn => (Except.ok.inj hn).symm⟩

end Receiver

end Flashclaw.LiveEvents
