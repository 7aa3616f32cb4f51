import Flashclaw.LiveEvents.Fences

/-!
# Live events: once and in order

Along every run of a receiver, each window publishes the numbers behind its first one without
a gap or a repetition.
-/

namespace Flashclaw.LiveEvents

open Utf16

namespace Receiver

variable {options : Options}

theorem size_acknowledge {R : Receiver} {id seq : ℕ} {buffered : Option PendingLiveEvent} {n : ℕ}
    (hsize : (R.heap id).pending.size ≤ n + if buffered.isSome then 1 else 0)
    (hheld : buffered.isSome → (R.heap id).pending.get? seq = none → (R.heap id).pending.size ≤ n) :
    ((R.acknowledge options id seq buffered).heap id).pending.size ≤ n := by
  unfold acknowledge advance
  rw [heap_change_self]
  cases buffered with
  | none => exact hsize
  | some b =>
    show ((R.takePending id seq b).heap id).pending.size ≤ n
    rw [takePending, heap_change_self]
    split
    · rename_i hsome
      obtain ⟨p, hp⟩ := Option.isSome_iff_exists.mp hsome
      have hdelete := JsMap.size_delete hp
      rw [Option.isSome_some, if_pos rfl] at hsize
      show ((R.heap id).pending.delete seq).size ≤ n
      omega
    · rename_i hnone
      exact hheld rfl (by simpa using hnone)

/-- An event takes its place out of the buffer. -/
theorem size_published {R : Receiver} {id : ℕ} {request : WorkerLiveEventParams}
    {buffered : Option PendingLiveEvent} (turn : Turn) {n : ℕ} (hs : R.Sound options none)
    (hhead : R.AtHead id request buffered)
    (hbuffered : ∀ p, buffered = some p → (R.heap id).pending.get? request.seq = some p)
    (hsize : (R.heap id).pending.size ≤ n + if buffered.isSome then 1 else 0)
    (hnone : (R.publish options id request buffered.isSome turn).2 = none) :
    (((R.publish options id request buffered.isSome turn).1.acknowledge options id request.seq
      buffered).heap id).pending.size ≤ n := by
  obtain ⟨failed, hfailed, -⟩ | ⟨-, -, heases, -⟩ := publish_spec turn hs hhead
  · cases hfailed.symm.trans hnone
  refine size_acknowledge (heases.size_pending.trans hsize) fun hsome hgone => ?_
  obtain ⟨p, rfl⟩ := Option.isSome_iff_exists.mp hsome
  obtain ⟨hsame, -⟩ | ⟨hempty, -⟩ := heases.queue
  · rw [hsame, hbuffered p rfl] at hgone
    cases hgone
  · rw [hempty]
    exact Nat.zero_le n

/-- As many steps as there are buffered events are enough: one more changes nothing. -/
theorem drain_fuel (id : ℕ) (turns : ℕ → Turn) (fuel : ℕ) {R : Receiver}
    {request : WorkerLiveEventParams} {buffered : Option PendingLiveEvent} (publishedPrefix : Bool)
    (hs : R.Sound options none) (hhead : R.AtHead id request buffered)
    (hbuffered : ∀ p, buffered = some p → (R.heap id).pending.get? request.seq = some p)
    (hsize : (R.heap id).pending.size ≤ fuel + if buffered.isSome then 1 else 0) :
    drain options id (fun n => turns (n - 1)) (fuel + 1) R request buffered publishedPrefix =
      drain options id turns fuel R request buffered publishedPrefix := by
  induction fuel generalizing R request buffered publishedPrefix with
  | zero =>
    rcases hpublished : (R.publish options id request buffered.isSome (turns 0)).2 with _ | failed
    · obtain ⟨hacked, hid, -⟩ := sound_published (turns 0) hs hhead hpublished
      have hempty := size_published (turns 0) hs hhead hbuffered hsize hpublished
      have hnext := JsMap.get?_of_size_le_zero hempty (((R.publish options id request
        buffered.isSome (turns 0)).1.acknowledge options id request.seq buffered).heap
          id).ackedSeq.succ
      rw [drain, drain, Nat.add_sub_cancel]
      simp only [hpublished]
      split
      · rename_i heq
        cases hnext.symm.trans heq
      · rfl
    · rw [drain, drain, Nat.add_sub_cancel]
      simp only [hpublished]
  | succ fuel ih =>
    rcases hpublished : (R.publish options id request buffered.isSome (turns (fuel + 1))).2 with
      _ | failed
    · obtain ⟨hacked, hid, -⟩ := sound_published (turns (fuel + 1)) hs hhead hpublished
      have hfewer := size_published (turns (fuel + 1)) hs hhead hbuffered hsize hpublished
      generalize hacked' : (R.publish options id request buffered.isSome
        (turns (fuel + 1))).1.acknowledge options id request.seq buffered = acked at *
      rw [drain, drain, Nat.add_sub_cancel]
      simp only [hpublished, hacked']
      rcases hnext : (acked.heap id).pending.get? ((acked.heap id).ackedSeq + 1) with _ | next
      · rfl
      · have hseq := ((hacked.fits id hid).range _ next hnext).2.2
        refine ih true hacked (hacked.atHead hid hnext) (fun p hp => ?_) hfewer
        rw [hseq, hnext]
        exact hp
    · rw [drain, drain, Nat.add_sub_cancel]
      simp only [hpublished]

theorem sound_create (heap : ℕ → LiveEventWindow)
    (startupBindings : List WorkerLiveSessionBinding) (startupOwners : JsMap Utf16 ℕ)
    (resolve : Utf16 → Option LiveEventTarget) :
    (create heap startupBindings startupOwners resolve).Sound options none := by
  refine ⟨fun session id hget => ?_, fun id hid => ?_, fun id hid => ?_, fun id hid => ?_,
    fun _ _ => rfl, fun id seq runId env epoch hmem => ?_, .nil⟩
  · cases hget
  · exact absurd hid (Nat.not_lt_zero id)
  · exact absurd hid (Nat.not_lt_zero id)
  · exact absurd hid (Nat.not_lt_zero id)
  · exact absurd hmem List.not_mem_nil

theorem guards_create (heap : ℕ → LiveEventWindow)
    (startupBindings : List WorkerLiveSessionBinding) (startupOwners : JsMap Utf16 ℕ)
    (resolve : Utf16 → Option LiveEventTarget) :
    (create heap startupBindings startupOwners resolve).Guards := by
  refine ⟨fun environmentId fence hget => ?_, fun _ => ⟨fun environmentId runEpoch hmem => ?_,
    fun environmentId runEpoch hmem => ?_, .nil⟩⟩
  · cases hget
  · exact absurd hmem List.not_mem_nil
  · exact absurd hmem List.not_mem_nil

theorem step_spec {R : Receiver} (label : Label) (hs : R.Sound options none) (h : R.Guards) :
    (R.step options label).Sound options none ∧ (R.step options label).Guards := by
  cases label with
  | act action => exact ⟨hs.settles (settles_act hs.coherent action), h.act hs.coherent action⟩
  | apply identity request turns =>
    exact ⟨(sound_apply identity request turns hs).1, h.apply identity request turns hs⟩

def run (options : Options) (R : Receiver) (labels : List Label) : Receiver :=
  labels.foldl (step options) R

theorem run_spec (labels : List Label) {R : Receiver} (hs : R.Sound options none) (h : R.Guards) :
    (R.run options labels).Sound options none ∧ (R.run options labels).Guards := by
  induction labels generalizing R with
  | nil => exact ⟨hs, h⟩
  | cons label labels ih =>
    obtain ⟨hs', h'⟩ := step_spec label hs h
    exact ih hs' h'

/-- What each window has published are the numbers behind its first one up to the acknowledged
one, in order; what it buffers lies ahead of them, within its limits.  Behind the end of a
run, and behind a clear, nothing of it is published; and what a call acknowledges is the
number of the window of its session. -/
theorem published_once_in_order (options : Options) (heap : ℕ → LiveEventWindow)
    (startupBindings : List WorkerLiveSessionBinding) (startupOwners : JsMap Utf16 ℕ)
    (resolve : Utf16 → Option LiveEventTarget) (labels : List Label) :
    let R := (create heap startupBindings startupOwners resolve).run options labels
    (∀ id < R.created,
      (R.heap id).origin ≤ (R.heap id).ackedSeq ∧
      numbers id R.history = List.range' ((R.heap id).origin + 1)
        ((R.heap id).ackedSeq - (R.heap id).origin) ∧
      (R.heap id).Fits options) ∧
    R.history.Pairwise (Entry.Apart options.windowSize) ∧
    (∀ identity request turns n, (R.apply options identity request turns).2 = .ok n →
      ∃ sessionId, identity.sessionId = some sessionId ∧
        (R.apply options identity request turns).1.Acknowledges sessionId n) ∧
    ((clearedEnvironments R.history).card ≤ MAX_FENCED_ENVIRONMENTS →
      R.history.Pairwise Entry.Later) := by
  intro R
  obtain ⟨hs, h⟩ : R.Sound options none ∧ R.Guards :=
    run_spec labels (sound_create heap startupBindings startupOwners resolve)
      (guards_create heap startupBindings startupOwners resolve)
  refine ⟨fun id hid => ?_, hs.apart, fun identity request turns => ?_,
    fun hcard => (h.guarded hcard).late⟩
  · obtain ⟨n, hn, hsum⟩ := hs.order id hid
    rw [if_neg (Option.some_ne_none id).symm, add_zero] at hsum
    refine ⟨by omega, ?_, hs.fits id hid⟩
    rw [hn, ← hsum, Nat.add_sub_cancel_left]
  · exact (sound_apply identity request turns hs).2

def sampleTarget : LiveEventTarget := ⟨none, ofString "s", ofString "k", ofString "p"⟩

def sampleOptions : Options := ⟨2, 1000, 1, 1, by decide⟩

def sampleTurn : Turn where
  ownerStatus _ _ _ := some .active
  context _ := some
    ⟨some (ofString "s"), some (ofString "k"), none, some (ofString "g"), some false⟩
  lifecycleGeneration := ofString "g"
  claim _ := some (ofString "c")
  listeners := []

/-- An event of one run, for the window of its session. -/
def sampleApply (seq : ℕ) : Label :=
  .apply ⟨ofString "e", ofString "h", 1, some (ofString "s")⟩
    ⟨1, 0, seq, ofString "r", .null⟩ fun _ => sampleTurn

def sampleLabels : List Label :=
  [.act (.bindSession ⟨ofString "e", 1, ofString "s"⟩ fun _ => some sampleTarget),
    sampleApply 2, sampleApply 1, sampleApply 2]

def sampleWindow : LiveEventWindow :=
  newWindow [] ⟨[], [], 0, none⟩ ⟨0, 0, 0, [], .null⟩ sampleTarget

/-- The second event comes first, is buffered, and goes out behind the first one. -/
example :
    numbers 0 ((create (fun _ => sampleWindow) [] .empty fun _ => none).run sampleOptions
      sampleLabels).history = [1, 2] := by decide +kernel

end Receiver

end Flashclaw.LiveEvents
