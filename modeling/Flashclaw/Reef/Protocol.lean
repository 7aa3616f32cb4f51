import Flashclaw.Reef.Guarded

/-!
# Reef: the calls that a run makes on the replay store

`open` of `protocol/envelope.ts`, and what it and `composeInbound` have in
common: a run claims one message at most, and it changes a claim only where it
was new.
-/

namespace Flashclaw.Reef

open Utf16 Json Results Traced

variable {σ : Type} (crypto : EnvelopeCrypto)

/-- `open`. -/
def openEnvelope (replayStore : ReplayStore (World σ Call)) (opening : OpenOptions) :
    Step σ JsValue := do
  let opened ← openClaimed crypto replayStore opening
  match opened with
  | .duplicate _ _ => throw (.protocol .replayed "duplicate envelope")
  | .new body _ =>
    let id := stringField opening.envelope "id"
    let source ← liftExcept (lift (parseHandleEpoch (stringField opening.envelope "from")))
    let consumed ← Traced.attempt (replayStore.consume source.handle id)
    match consumed with
    | .ok _ => return body
    | .error e =>
      let _ ← replayStore.release source.handle id
      throw e

/-- A call that claims nothing, and that is about this message where it is one on the replay
store. -/
def Call.IsOn (peer id : Utf16) : Call → Prop
  | .claim _ _ _ _ => False
  | .refresh peer' id' _ => peer' = peer ∧ id' = id
  | .complete peer' id' _ _ _ => peer' = peer ∧ id' = id
  | .consume peer' id' _ => peer' = peer ∧ id' = id
  | .release peer' id' _ => peer' = peer ∧ id' = id
  | .completed peer' id' _ => peer' = peer ∧ id' = id
  | _ => True

/-- A call that changes a claim. -/
def Call.acts : Call → Bool
  | .refresh _ _ _ => true
  | .complete _ _ _ _ _ => true
  | .consume _ _ _ => true
  | .release _ _ _ => true
  | _ => false

/-- A run claims one message at most, and it changes a claim only where it was new. -/
inductive ClaimsOnce : List Call → Prop
  | none : ClaimsOnce []
  | one (peer id hash : Utf16) (r : Except Thrown ReplayClaim) (log : List Call)
      (on : ∀ call ∈ log, call.IsOn peer id) (new : r = .ok .new ∨ ∀ call ∈ log, call.acts = false) :
      ClaimsOnce (.claim peer id hash r :: log)

variable {crypto} {secretFindings : SecretFindings} {store : ReplayStore σ}
  {options : PipelineOptions σ} {inbound : InboundOptions}

section Emits

variable {peer id : Utf16}

theorem emits_appendAudit (type : String) (payload : JsValue) :
    Emits (options.appendAudit type payload) (Call.IsOn peer id) :=
  Emits.call fun _ => trivial

theorem emits_classifyAdmitted (p : Proposal) :
    Emits (classifyAdmitted options p) (Call.IsOn peer id) :=
  (Emits.call fun _ => trivial).bind fun _ => Emits.pure _

theorem emits_classifyWithReview (p : Proposal) :
    Emits (classifyWithReview options p) (Call.IsOn peer id) := by
  refine (emits_classifyAdmitted p).bind fun verdict => (emits_appendAudit _ _).bind fun _ => ?_
  cases verdict.decision with
  | deny => exact Emits.throw _
  | allow => exact Emits.pure _
  | review =>
    have hask : ∀ request, Emits (options.askReview request) (Call.IsOn peer id) := by
      intro request
      unfold PipelineOptions.askReview
      cases options.reviewGate with
      | none => exact Emits.pure _
      | some gate => exact Emits.call fun _ => trivial
    refine (hask _).bind fun approval => ?_
    cases approval with
    | none => exact Emits.throw _
    | some approval =>
      simp only
      split_ifs
      · exact Emits.throw _
      · refine (emits_appendAudit _ _).bind fun _ => (emits_classifyAdmitted p).bind fun verdict =>
          (emits_appendAudit _ _).bind fun _ => ?_
        split_ifs
        · exact Emits.throw _
        · exact Emits.pure _
      · exact Emits.throw _

theorem emits_completeRejection (p : Proposal) (category : String) :
    Emits (completeRejection crypto store.logged options inbound peer p category)
      (Call.IsOn peer p.id) :=
  (emits_appendAudit _ _).bind fun _ => (Emits.lift _).bind fun _ =>
    (emits_appendAudit _ _).bind fun _ => (Emits.call fun _ => ⟨rfl, rfl⟩).bind fun _ =>
      Emits.pure _

theorem emits_rejectClassified (p : Proposal) (e : Thrown) :
    Emits (rejectClassified crypto store.logged options inbound peer p e) (Call.IsOn peer p.id) := by
  have hrefresh : Emits (store.logged.refresh peer p.id) (Call.IsOn peer p.id) :=
    Emits.call fun _ => ⟨rfl, rfl⟩
  unfold rejectClassified
  split
  · split_ifs
    · exact hrefresh.bind fun _ => (emits_completeRejection p _).bind fun _ => Emits.pure _
    · exact Emits.throw _
  · exact hrefresh.bind fun _ => (emits_completeRejection p _).bind fun _ => Emits.pure _
  · exact Emits.throw _

theorem emits_acceptInbound (p : Proposal) (body : JsValue) (verdict : Verdict) :
    Emits (acceptInbound crypto store.logged options inbound peer p body verdict)
      (Call.IsOn peer p.id) :=
  (Emits.call fun _ => ⟨rfl, rfl⟩).bind fun _ => (emits_appendAudit _ _).bind fun _ =>
    (Emits.lift _).bind fun _ => (emits_appendAudit _ _).bind fun _ =>
      (Emits.call fun _ => ⟨rfl, rfl⟩).bind fun _ => Emits.pure _

theorem emits_composeNew (body : JsValue) :
    Emits (composeNew crypto store.logged options inbound secretFindings peer body)
      (Call.IsOn peer (stringField inbound.opening.envelope "id")) := by
  unfold composeNew
  apply Spec.bind (Spec.lift (p := fun log r => log = [] ∧
    r = proposeInbound crypto options inbound body) ⟨rfl, rfl⟩)
  · rintro log p ⟨rfl, hp⟩
    rw [← (proposeInbound_eq_ok hp.symm).2.1]
    show Emits _ _
    simp only
    split_ifs
    · refine (emits_classifyWithReview p).attempt.bind fun classified => ?_
      cases classified with
      | ok verdict => exact (emits_acceptInbound p body verdict).bind fun _ => Emits.pure _
      | error e => exact (emits_rejectClassified p e).bind fun _ => Emits.pure _
    · exact (Emits.call fun _ => ⟨rfl, rfl⟩).bind fun _ => (emits_appendAudit _ _).bind fun _ =>
        (emits_completeRejection p _).bind fun _ => Emits.pure _
  · rintro log e ⟨rfl, -⟩
    simp

end Emits

theorem claimsOnce_openClaimed (opening : OpenOptions) :
    Spec (openClaimed crypto store.logged opening) fun log _ => ClaimsOnce log := by
  unfold openClaimed
  apply Spec.bind (Spec.lift (p := fun log _ => log = []) rfl)
  · rintro log ⟨envelope, peer, hash⟩ rfl
    apply Spec.bind (spec_call _ _)
    · rintro log claim rfl
      cases claim with
      | mismatch => exact Spec.throw (.one peer envelope.id hash _ [] (by simp) (.inr (by simp)))
      | inFlight => exact Spec.throw (.one peer envelope.id hash _ [] (by simp) (.inr (by simp)))
      | duplicate =>
        have hcompleted : ∀ r, ClaimsOnce [.claim peer envelope.id hash (.ok .duplicate),
            .completed peer envelope.id r] := by
          intro r
          refine .one peer envelope.id hash _ _ ?_ (.inr ?_)
          · simp [Call.IsOn]
          · simp [Call.acts]
        apply Spec.bind (spec_call _ _)
        · rintro log completed rfl
          exact Spec.pure (hcompleted _)
        · rintro log e rfl
          exact hcompleted _
      | new =>
        simp only
        cases openNew crypto opening envelope with
        | ok body => exact Spec.pure (.one peer envelope.id hash _ [] (by simp) (.inl rfl))
        | error e =>
          have hreleased : ∀ r, ClaimsOnce [.claim peer envelope.id hash (.ok .new),
              .release peer envelope.id r] := by
            intro r
            refine .one peer envelope.id hash _ _ ?_ (.inl rfl)
            simp [Call.IsOn]
          apply Spec.bind (spec_call _ _)
          · rintro log _ rfl
            exact Spec.throw (hreleased _)
          · rintro log e' rfl
            exact hreleased _
    · rintro log e rfl
      exact .one peer envelope.id hash _ [] (by simp) (.inr (by simp))
  · rintro log e rfl
    exact .none

/-- What follows a claim that was new may act on it. -/
theorem claimsOnce_bind {α : Type} {opening : OpenOptions} {f : ClaimedOpenResult → Step σ α}
    (hduplicate : ∀ receipt body, Emits (f (.duplicate receipt body)) fun _ => False)
    (hnew : ∀ body hash source,
      lift (parseHandleEpoch (stringField opening.envelope "from")) = .ok source →
      Emits (f (.new body hash)) (Call.IsOn source.handle (stringField opening.envelope "id"))) :
    Spec (openClaimed crypto store.logged opening >>= f) fun log _ => ClaimsOnce log := by
  apply Spec.bind ((spec_openClaimed opening).and (claimsOnce_openClaimed opening))
  · rintro log opened ⟨hopened, honce⟩
    cases hopened with
    | new body source hash opens hpeer hlog =>
      subst hlog
      refine (hnew body hash source hpeer).mono fun log' r hlog' => ?_
      exact .one _ _ hash _ log' hlog' (.inl rfl)
    | settled _ hquiet hsettled hnotNew =>
      cases opened with
      | new body hash => exact absurd rfl (hnotNew body hash)
      | duplicate receipt body =>
        refine (hduplicate receipt body).mono fun log' r hlog' => ?_
        rw [List.eq_nil_iff_forall_not_mem.mpr hlog', List.append_nil]
        exact honce
  · rintro log e ⟨-, honce⟩
    exact honce

/-- An inbound run claims one message at most, and it changes a claim only where it was new. -/
theorem claimsOnce_composeInbound :
    Spec (composeInbound crypto store.logged options inbound secretFindings)
      fun log _ => ClaimsOnce log := by
  apply claimsOnce_bind
  · intro receipt body
    cases receipt with
    | none => exact Emits.throw _
    | some receipt => exact Emits.pure _
  · intro body hash source hsource
    simp only
    rw [hsource]
    refine Emits.lift_ok ((emits_composeNew body).attempt.bind fun result => ?_)
    cases result with
    | ok finalized => exact Emits.lift _
    | error e => exact (Emits.call fun _ => ⟨rfl, rfl⟩).bind fun _ => Emits.throw _

theorem claimsOnce_openEnvelope (opening : OpenOptions) :
    Spec (openEnvelope crypto store.logged opening) fun log _ => ClaimsOnce log := by
  apply claimsOnce_bind
  · intro receipt body
    exact Emits.throw _
  · intro body hash source hsource
    simp only
    rw [hsource]
    have hconsume : Emits (store.logged.consume source.handle (stringField opening.envelope "id"))
        (Call.IsOn source.handle (stringField opening.envelope "id")) :=
      Emits.call fun _ => ⟨rfl, rfl⟩
    refine Emits.lift_ok (hconsume.attempt.bind fun consumed => ?_)
    cases consumed with
    | ok _ => exact Emits.pure _
    | error e => exact (Emits.call fun _ => ⟨rfl, rfl⟩).bind fun _ => Emits.throw _

end Flashclaw.Reef
