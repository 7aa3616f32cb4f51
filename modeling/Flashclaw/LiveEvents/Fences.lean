import Flashclaw.LiveEvents.Application

/-!
# Live events: cleared environments

While no more environments than `MAX_FENCED_ENVIRONMENTS` have been cleared, each keeps its
fence, and no window of a cleared epoch is open or opened again.
-/

namespace Flashclaw.LiveEvents

open Utf16

/-- What is published behind a clear belongs to a later epoch. -/
def Entry.Later : Entry → Entry → Prop
  | .cleared environmentId runEpoch, .published _ _ _ environmentId' runEpoch' _ =>
    environmentId = environmentId' → runEpoch < runEpoch'
  | _, _ => True

def Entry.environment? : Entry → Option Utf16
  | .published .. => none
  | .cleared environmentId _ => some environmentId

def clearedEnvironments (history : List Entry) : Finset Utf16 :=
  (history.filterMap Entry.environment?).toFinset

theorem mem_clearedEnvironments {history : List Entry} {environmentId : Utf16} :
    environmentId ∈ clearedEnvironments history ↔
      ∃ runEpoch, .cleared environmentId runEpoch ∈ history := by
  rw [clearedEnvironments, List.mem_toFinset, List.mem_filterMap]
  constructor
  · rintro ⟨entry, hentry, henv⟩
    cases entry with
    | published => cases henv
    | cleared other runEpoch => exact ⟨runEpoch, Option.some.inj henv ▸ hentry⟩
  · rintro ⟨runEpoch, hentry⟩
    exact ⟨_, hentry, rfl⟩

theorem clearedEnvironments_mono {history history' : List Entry} (h : history ⊆ history') :
    clearedEnvironments history ⊆ clearedEnvironments history' := by
  intro environmentId hmem
  obtain ⟨runEpoch, hentry⟩ := mem_clearedEnvironments.mp hmem
  exact mem_clearedEnvironments.mpr ⟨runEpoch, h hentry⟩

namespace Receiver

variable {options : Options}

structure Guarded (R : Receiver) : Prop where
  covered : ∀ environmentId runEpoch, .cleared environmentId runEpoch ∈ R.history →
    ∃ fence, R.fencedEnvironmentEpochs.get? environmentId = some fence ∧ runEpoch ≤ fence
  above : ∀ environmentId runEpoch, .cleared environmentId runEpoch ∈ R.history →
    ∀ id, R.IsOpen id → (R.heap id).environmentId = environmentId → runEpoch < (R.heap id).runEpoch
  late : R.history.Pairwise Entry.Later

/-- Guarded, as far as the fences suffice. -/
structure Guards (R : Receiver) : Prop where
  known : ∀ environmentId fence, R.fencedEnvironmentEpochs.get? environmentId = some fence →
    environmentId ∈ clearedEnvironments R.history
  guarded : (clearedEnvironments R.history).card ≤ MAX_FENCED_ENVIRONMENTS → R.Guarded

/-- A window changes neither its environment nor its epoch. -/
theorem Guards.of_same {R R' : Receiver} (h : R.Guards) (hhistory : R'.history = R.history)
    (hfenced : R'.fencedEnvironmentEpochs = R.fencedEnvironmentEpochs)
    (hopen : ∀ id, R'.IsOpen id → R.IsOpen id ∧
      (R'.heap id).environmentId = (R.heap id).environmentId ∧
      (R'.heap id).runEpoch = (R.heap id).runEpoch) : R'.Guards := by
  refine ⟨fun environmentId fence hget => ?_, fun hcard => ?_⟩
  · rw [hhistory]
    exact h.known environmentId fence (hfenced ▸ hget)
  · obtain ⟨hcovered, habove, hlate⟩ := h.guarded (hhistory ▸ hcard)
    refine ⟨?_, fun environmentId runEpoch hmem id ho henv => ?_, ?_⟩
    · rw [hhistory, hfenced]
      exact hcovered
    · obtain ⟨ho', henv', hepoch⟩ := hopen id ho
      rw [hepoch]
      rw [hhistory] at hmem
      exact habove environmentId runEpoch hmem id ho' (henv'.symm.trans henv)
    · rw [hhistory]
      exact hlate

theorem Guards.quiet {R R' : Receiver} (h : R.Guards) (hq : R.Quiet R') : R'.Guards :=
  h.of_same hq.same hq.fenced fun id ho =>
    ⟨hq.isOpen ho, (hq.eases id).environmentId, (hq.eases id).runEpoch⟩

theorem Guards.change {R : Receiver} {id : ℕ} {f : LiveEventWindow → LiveEventWindow}
    (h : R.Guards) (hsession : (f (R.heap id)).sessionId = (R.heap id).sessionId)
    (henv : (f (R.heap id)).environmentId = (R.heap id).environmentId)
    (hepoch : (f (R.heap id)).runEpoch = (R.heap id).runEpoch) : (R.change id f).Guards := by
  have hself := heap_change_self R id f
  refine h.of_same rfl rfl fun other ho => ?_
  by_cases hother : other = id
  · subst hother
    rw [hself]
    rw [IsOpen, hself, hsession] at ho
    exact ⟨ho, henv, hepoch⟩
  · have hne := heap_change_ne R f hother
    rw [hne]
    rw [IsOpen, hne] at ho
    exact ⟨ho, rfl, rfl⟩

/-- As many fences as cleared environments fit. -/
theorem size_le_card {fenced : JsMap Utf16 ℕ} {environments : Finset Utf16}
    (h : ∀ environmentId fence, fenced.get? environmentId = some fence →
      environmentId ∈ environments) : fenced.size ≤ environments.card := by
  have hsize : fenced.keys.toFinset.card = fenced.size := by
    have hnodup : fenced.keys.Nodup := fenced.nodupKeys
    rw [List.toFinset_card_of_nodup hnodup, JsMap.keys, List.length_map]
    rfl
  rw [← hsize]
  refine Finset.card_le_card fun environmentId hmem => ?_
  obtain ⟨⟨_, fence⟩, hentry, rfl⟩ := List.mem_map.mp (List.mem_toFinset.mp hmem)
  exact h _ fence (JsMap.get?_eq_some.mpr hentry)

theorem fence_get? {fenced : JsMap Utf16 ℕ} {environments : Finset Utf16} {environmentId : Utf16}
    (epoch : ℕ)
    (h : ∀ other fence, fenced.get? other = some fence → other ∈ environments)
    (hmem : environmentId ∈ environments) (hcard : environments.card ≤ MAX_FENCED_ENVIRONMENTS)
    (other : Utf16) : (fence fenced environmentId epoch).get? other =
      if environmentId = other then some epoch else fenced.get? other := by
  have hget : ∀ other, ((fenced.delete environmentId).set environmentId epoch).get? other =
      if environmentId = other then some epoch else fenced.get? other := by
    intro other
    rw [JsMap.get?_set, JsMap.get?_delete]
    by_cases heq : environmentId = other
    · rw [if_pos heq, if_pos heq]
    · rw [if_neg heq, if_neg heq, if_neg (Ne.symm heq)]
  have hsize : ((fenced.delete environmentId).set environmentId epoch).size ≤
      environments.card := by
    refine size_le_card fun other value hvalue => ?_
    rw [hget] at hvalue
    split at hvalue
    · rename_i heq
      exact heq ▸ hmem
    · exact h other value hvalue
  unfold fence
  dsimp only
  rw [if_pos (hsize.trans hcard)]
  exact hget other

theorem mem_fence {fenced : JsMap Utf16 ℕ} {environmentId other : Utf16} {epoch value : ℕ}
    (h : (fence fenced environmentId epoch).get? other = some value) :
    environmentId = other ∨ fenced.get? other = some value := by
  have hset : ∀ value, ((fenced.delete environmentId).set environmentId epoch).get? other =
      some value → environmentId = other ∨ fenced.get? other = some value := by
    intro value hvalue
    rw [JsMap.get?_set, JsMap.get?_delete] at hvalue
    split_ifs at hvalue with heq
    · exact .inl heq
    · exact .inr hvalue
  unfold fence at h
  dsimp only at h
  split at h
  · exact hset value h
  · rcases hhead : ((fenced.delete environmentId).set environmentId epoch).keys.head? with
      _ | oldest
    · rw [hhead] at h
      exact hset value h
    · rw [hhead, Option.elim_some] at h
      split at h
      · exact hset value h
      · rw [JsMap.get?_delete] at h
        split at h
        · cases h
        · exact hset value h

theorem clearEnvironment_spec {R : Receiver} (hc : R.Coherent) (environmentId : Utf16) :
    (R.clearEnvironment environmentId).history =
        R.history ++ (R.epochsOf environmentId).map (.cleared environmentId) ∧
      ((R.epochsOf environmentId = [] ∧
          (R.clearEnvironment environmentId).fencedEnvironmentEpochs = R.fencedEnvironmentEpochs) ∨
        ∃ epoch, (∃ e, e ∈ R.fencedEnvironmentEpochs.get? environmentId ∨
            e ∈ R.epochsOf environmentId) ∧
          (∀ e ∈ R.fencedEnvironmentEpochs.get? environmentId, e ≤ epoch) ∧
          (∀ e ∈ R.epochsOf environmentId, e ≤ epoch) ∧
          (R.clearEnvironment environmentId).fencedEnvironmentEpochs =
            fence R.fencedEnvironmentEpochs environmentId epoch) := by
  have hquiet := (quiet_clearWindows _ (hc.nodup_values.filter _)
    (R := (R.forgetStartupOwner environmentId).unbind environmentId) (ids_open hc environmentId)).1
  unfold clearEnvironment
  dsimp only
  split
  · rename_i hmax
    obtain ⟨-, hepochs⟩ := List.append_eq_nil_iff.mp (List.max?_eq_none_iff.mp hmax)
    exact ⟨hquiet.same, .inl ⟨hepochs, hquiet.fenced⟩⟩
  · rename_i epoch hmax
    obtain ⟨hmem, hle⟩ := List.max?_eq_some_iff.mp hmax
    refine ⟨hquiet.same, .inr ⟨epoch, ⟨epoch, ?_⟩, fun e he => ?_, fun e he => ?_, rfl⟩⟩
    · rw [List.mem_append, Option.mem_toList] at hmem
      exact hmem
    · exact hle e (List.mem_append_left _ (Option.mem_toList.mpr he))
    · exact hle e (List.mem_append_right _ he)

theorem Guards.clearEnvironment {R : Receiver} (h : R.Guards) (hc : R.Coherent)
    (environmentId : Utf16) : (R.clearEnvironment environmentId).Guards := by
  obtain ⟨hsettles, hother⟩ := settles_clearEnvironment hc environmentId
  obtain ⟨hhistory, hfenced⟩ := clearEnvironment_spec hc environmentId
  have hsub : R.history ⊆ (R.clearEnvironment environmentId).history := by
    rw [hhistory]
    exact List.subset_append_left _ _
  have hknown : ∀ other fence, R.fencedEnvironmentEpochs.get? other = some fence →
      other ∈ clearedEnvironments (R.clearEnvironment environmentId).history :=
    fun other fence hget => clearedEnvironments_mono hsub (h.known other fence hget)
  have hnew : ∀ e, e ∈ R.epochsOf environmentId →
      environmentId ∈ clearedEnvironments (R.clearEnvironment environmentId).history := by
    intro e he
    rw [mem_clearedEnvironments, hhistory]
    exact ⟨e, List.mem_append_right _ (List.mem_map_of_mem he)⟩
  -- an environment with a fence or a window was cleared, now or before
  have hself : (∃ e, e ∈ R.fencedEnvironmentEpochs.get? environmentId ∨
      e ∈ R.epochsOf environmentId) →
      environmentId ∈ clearedEnvironments (R.clearEnvironment environmentId).history := by
    rintro ⟨e, he | he⟩
    · exact hknown environmentId e he
    · exact hnew e he
  refine ⟨fun other value hget => ?_, fun hcard => ?_⟩
  · obtain ⟨-, hsame⟩ | ⟨epoch, hsome, -, -, heq⟩ := hfenced
    · exact hknown other value (hsame ▸ hget)
    · rw [heq] at hget
      obtain rfl | hold := mem_fence hget
      · exact hself hsome
      · exact hknown other value hold
  · -- as few environments were cleared before
    obtain ⟨hcovered, habove, hlate⟩ :=
      h.guarded ((Finset.card_le_card (clearedEnvironments_mono hsub)).trans hcard)
    refine ⟨fun other runEpoch hmem => ?_, fun other runEpoch hmem id ho henv => ?_, ?_⟩
    · rw [hhistory, List.mem_append] at hmem
      obtain ⟨hnone, hsame⟩ | ⟨epoch, hsome, hold, hle, heq⟩ := hfenced
      · rw [hnone] at hmem
        rw [hsame]
        exact hcovered other runEpoch (hmem.resolve_right List.not_mem_nil)
      · rw [heq, fence_get? epoch hknown (hself hsome) hcard]
        rcases hmem with hmem | hmem
        · obtain ⟨value, hvalue, hbelow⟩ := hcovered other runEpoch hmem
          split
          · rename_i hid
            subst hid
            exact ⟨epoch, rfl, hbelow.trans (hold value hvalue)⟩
          · exact ⟨value, hvalue, hbelow⟩
        · obtain ⟨e, he, hcleared⟩ := List.mem_map.mp hmem
          obtain ⟨rfl, rfl⟩ := Entry.cleared.inj hcleared
          rw [if_pos rfl]
          exact ⟨epoch, rfl, hle e he⟩
    · rw [(hsettles.eases id).environmentId] at henv
      rw [(hsettles.eases id).runEpoch]
      rw [hhistory, List.mem_append] at hmem
      rcases hmem with hmem | hmem
      · exact habove other runEpoch hmem id (hsettles.isOpen ho) henv
      · -- no window of the cleared environment is open
        obtain ⟨e, -, hcleared⟩ := List.mem_map.mp hmem
        exact absurd (henv.trans (Entry.cleared.inj hcleared).1.symm) (hother id ho)
    · rw [hhistory, List.pairwise_append]
      refine ⟨hlate, ?_, fun entry _ last hlast => ?_⟩
      · rw [List.pairwise_map]
        exact List.pairwise_of_forall fun _ _ => trivial
      · obtain ⟨e, -, rfl⟩ := List.mem_map.mp hlast
        cases entry <;> trivial

theorem Guards.act {R : Receiver} (h : R.Guards) (hc : R.Coherent) (action : Action) :
    (R.act action).Guards := by
  by_cases hclear : ∃ environmentId, action = .clearEnvironment environmentId
  · obtain ⟨environmentId, rfl⟩ := hclear
    exact h.clearEnvironment hc environmentId
  · exact h.quiet (quiet_act hc action fun environmentId heq => hclear ⟨environmentId, heq⟩)

theorem Guards.acts (actions : List Action) {R : Receiver} (h : R.Guards) (hc : R.Coherent) :
    (actions.foldl Receiver.act R).Guards := by
  induction actions generalizing R with
  | nil => exact h
  | cons action actions ih =>
    exact ih (h.act hc action) ((settles_act hc action).coherent hc)

theorem Guards.record {R : Receiver} {id : ℕ} (h : R.Guards) (hopen : R.IsOpen id)
    (request : WorkerLiveEventParams) : (R.record id request).Guards := by
  have hclears : ∀ environmentId runEpoch,
      .cleared environmentId runEpoch ∈ (R.record id request).history ↔
        .cleared environmentId runEpoch ∈ R.history := by
    intro environmentId runEpoch
    show _ ∈ R.history ++ [_] ↔ _
    rw [List.mem_append, List.mem_singleton]
    exact ⟨fun hmem => hmem.resolve_right fun heq => (by cases heq), Or.inl⟩
  have hsame : clearedEnvironments (R.record id request).history =
      clearedEnvironments R.history := by
    ext environmentId
    simp only [mem_clearedEnvironments, hclears]
  refine ⟨fun environmentId fence hget => ?_, fun hcard => ?_⟩
  · rw [hsame]
    exact h.known environmentId fence hget
  · rw [hsame] at hcard
    obtain ⟨hcovered, habove, hlate⟩ := h.guarded hcard
    refine ⟨fun environmentId runEpoch hmem => ?_, fun environmentId runEpoch hmem => ?_, ?_⟩
    · exact hcovered environmentId runEpoch ((hclears environmentId runEpoch).mp hmem)
    · exact habove environmentId runEpoch ((hclears environmentId runEpoch).mp hmem)
    · show (R.history ++ [_]).Pairwise _
      rw [List.pairwise_append]
      refine ⟨hlate, List.pairwise_singleton _ _, fun entry hentry last hlast => ?_⟩
      rw [List.mem_singleton.mp hlast]
      cases entry with
      | published => trivial
      | cleared environmentId runEpoch =>
        exact fun heq => habove environmentId runEpoch hentry id hopen heq.symm

theorem Guards.publish {R : Receiver} {id : ℕ} {request : WorkerLiveEventParams} (allow : Bool)
    (turn : Turn) (h : R.Guards) (hc : R.Coherent) (hopen : R.IsOpen id) :
    (R.publish options id request allow turn).1.Guards := by
  obtain ⟨hquiet, hgranted, -⟩ := claims_claimRun options request.runId allow turn hopen
  have hclaimed := h.quiet hquiet
  unfold Receiver.publish
  dsimp only
  split
  · exact hclaimed
  · rename_i owned howned
    obtain ⟨hstill, hended⟩ := hgranted owned howned
    have hfenced := quiet_fenceEnded hended
    have hready := hfenced.toSettles.stays_open (windows_fenceEnded _ id request) hstill
    have hcoherent := hfenced.coherent (hquiet.coherent hc)
    exact ((hclaimed.quiet hfenced).record hready request).acts turn.listeners hcoherent

theorem Guards.taken {R : Receiver} (h : R.Guards) (id seq : ℕ)
    (buffered : Option PendingLiveEvent) : (buffered.elim R (R.takePending id seq)).Guards := by
  cases buffered with
  | none => exact h
  | some b => apply h.change <;> split <;> rfl

theorem Guards.advance {R : Receiver} (h : R.Guards) (id seq : ℕ) :
    (R.advance options id seq).Guards :=
  h.change rfl rfl rfl

theorem Guards.acknowledge {R : Receiver} (h : R.Guards) (id seq : ℕ)
    (buffered : Option PendingLiveEvent) : (R.acknowledge options id seq buffered).Guards :=
  (h.taken id seq buffered).advance id seq

theorem Guards.refuse {R : Receiver} {id seq : ℕ} {buffered : Option PendingLiveEvent}
    (publishedPrefix : Bool) (failed : WorkerLiveEventFailure) (h : R.Guards)
    (hfull : failed = .capacityExceeded → R.IsOpen id) :
    (R.refuse id seq buffered publishedPrefix failed).1.Guards := by
  have htaken := h.taken id seq buffered
  unfold Receiver.refuse
  split
  · exact h
  rename_i hfresh
  dsimp only
  split
  · rename_i hgiven
    obtain ⟨hcapacity, -⟩ := Bool.and_eq_true_iff.mp hgiven
    replace hcapacity := of_decide_eq_true hcapacity
    cases buffered with
    | none => exact h.quiet (quiet_clearWindow (hfull hcapacity))
    | some b => exact absurd (by simp [hcapacity]) hfresh
  · split
    · exact htaken
    · exact htaken

theorem Guards.drain (id : ℕ) (turns : ℕ → Turn) (fuel : ℕ) {R : Receiver}
    {request : WorkerLiveEventParams} {buffered : Option PendingLiveEvent} (publishedPrefix : Bool)
    (h : R.Guards) (hs : R.Sound options none) (hhead : R.AtHead id request buffered) :
    (drain options id turns fuel R request buffered publishedPrefix).1.Guards := by
  fun_induction Receiver.drain options id turns fuel R request buffered publishedPrefix with
  | case1 fuel R request buffered publishedPrefix published failed hfailed =>
    have hpublished : published.1.Guards :=
      h.publish buffered.isSome (turns fuel) hs.coherent hhead.isOpen
    obtain ⟨failed', hfailed', -, hfull⟩ | ⟨hnone, -⟩ := publish_spec (turns fuel) hs hhead
    · obtain rfl := Option.some.inj (hfailed.symm.trans hfailed')
      exact hpublished.refuse publishedPrefix failed hfull
    · cases hfailed.symm.trans hnone
  | case2 R request buffered publishedPrefix fuel next published hnone acked hnext ih =>
    have hpublished : published.1.Guards :=
      h.publish buffered.isSome (turns (fuel + 1)) hs.coherent hhead.isOpen
    obtain ⟨hacked, hid, -⟩ := sound_published (turns (fuel + 1)) hs hhead hnone
    exact ih (hpublished.acknowledge id request.seq buffered) hacked (hacked.atHead hid hnext)
  | case3 fuel R request buffered publishedPrefix published hnone acked _ =>
    have hpublished : published.1.Guards :=
      h.publish buffered.isSome (turns fuel) hs.coherent hhead.isOpen
    exact hpublished.acknowledge id request.seq buffered

theorem Guards.checkCursor {R : Receiver} (h : R.Guards) (id : ℕ)
    (request : WorkerLiveEventParams) : (R.checkCursor id request).1.Guards := by
  unfold Receiver.checkCursor
  dsimp only
  split
  · exact h
  split
  · exact h.quiet (quiet_dropPending R id)
  · exact h

/-- A new window belongs to an epoch above the fence of its environment. -/
theorem Guards.createWindow {R : Receiver} {window : LiveEventWindow} (h : R.Guards)
    (hc : R.Coherent) (hfree : R.windows.get? window.sessionId = none)
    (hfence : ∀ fence, R.fencedEnvironmentEpochs.get? window.environmentId = some fence →
      fence < window.runEpoch) : (R.createWindow window).Guards := by
  refine ⟨h.known, fun hcard => ?_⟩
  obtain ⟨hcovered, habove, hlate⟩ := h.guarded hcard
  refine ⟨hcovered, fun environmentId runEpoch hmem id ho henv => ?_, hlate⟩
  have hid : id < R.created + 1 := by
    have hget : (R.windows.set window.sessionId R.created).get?
        ((R.createWindow window).heap id).sessionId = some id := ho
    rw [JsMap.get?_set] at hget
    split at hget
    · rw [← Option.some.inj hget]
      exact Nat.lt_succ_self _
    · exact Nat.lt_succ_of_lt (hc _ id hget).2
  rcases Nat.lt_succ_iff_lt_or_eq.mp hid with hlt | rfl
  · rw [heap_createWindow_ne R window hlt] at henv ⊢
    exact habove environmentId runEpoch hmem id ((isOpen_createWindow_iff hfree hlt).mp ho) henv
  · rw [heap_createWindow_self] at henv ⊢
    obtain ⟨fence, hget, hle⟩ := hcovered environmentId runEpoch hmem
    exact lt_of_le_of_lt hle (hfence fence (henv ▸ hget))

theorem Guards.resolveOrCreateWindow {R : Receiver} (h : R.Guards) (hc : R.Coherent)
    {sessionId : Utf16} {identity : WorkerConnectionIdentity} {request : WorkerLiveEventParams}
    (hfence : ∀ fence, R.fencedEnvironmentEpochs.get? identity.environmentId = some fence →
      fence < request.runEpoch) :
    (R.resolveOrCreateWindow options sessionId identity request).1.Guards := by
  unfold Receiver.resolveOrCreateWindow
  split
  · exact h
  split
  · exact h
  split
  · exact h
  split
  · rename_i id _
    dsimp only
    split
    · exact h
    · exact h.checkCursor id request
  · rename_i binding _ _ _ _ hfree
    split
    · exact h
    split
    · exact h
    · have hcreated :
          (R.createWindow (newWindow sessionId identity request binding.target)).Guards :=
        h.createWindow hc hfree hfence
      exact hcreated.checkCursor R.created request

theorem Guards.buffer {R : Receiver} (h : R.Guards) (id : ℕ) (request : WorkerLiveEventParams) :
    (R.buffer id request).Guards :=
  h.change rfl rfl rfl

theorem Guards.applyTo {R : Receiver} {id : ℕ} {request : WorkerLiveEventParams}
    (turns : ℕ → Turn) (h : R.Guards) (hs : R.Sound options none) (hopen : R.IsOpen id) :
    (R.applyTo options id request turns).1.Guards := by
  have hdropped := h.quiet (quiet_dropPending R id)
  unfold Receiver.applyTo
  dsimp only
  split
  · exact hdropped
  split
  · rename_i hnext
    exact h.drain id turns _ false hs (hs.atNext hopen hnext)
  split
  · exact h
  split
  · exact hdropped
  · exact h.buffer id request

theorem Guards.apply {R : Receiver} (identity : WorkerConnectionIdentity)
    (request : WorkerLiveEventParams) (turns : ℕ → Turn) (h : R.Guards)
    (hs : R.Sound options none) : (R.apply options identity request turns).1.Guards := by
  unfold Receiver.apply
  split
  · exact h
  rename_i sessionId _
  split
  · exact h
  split
  · exact h
  rename_i hfence
  have hresolved : (R.resolveOrCreateWindow options sessionId identity request).1.Guards := by
    refine h.resolveOrCreateWindow hs.coherent fun fence hget => ?_
    rw [hget, Option.any_some, decide_eq_true_eq] at hfence
    exact Nat.not_le.mp hfence
  have hfinds := finds_resolveOrCreateWindow sessionId identity request hs
  dsimp only
  split
  · exact hresolved
  · rename_i id hfound
    exact hresolved.applyTo turns hfinds.sound (hfinds.window id hfound).1

end Receiver

end Flashclaw.LiveEvents
