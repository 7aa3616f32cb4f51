import Flashclaw.Reef.Denials
import Flashclaw.Reef.Sealed

/-!
# Reef: no message passes without the guard
-/

namespace Flashclaw.Reef

open Utf16 Json Results Traced

variable {σ : Type}

variable {crypto : EnvelopeCrypto} {secretFindings : SecretFindings}

/-- An envelope leaves only after the guard let its message pass. -/
theorem spec_composeOutbound (options : PipelineOptions σ) (sealing : SealOptions) :
    Spec (composeOutbound crypto secretFindings options sealing) fun log r =>
      ∀ result, r = .ok result → ∃ p,
        proposeOutbound crypto secretFindings options.policyVersion sealing = .ok p ∧
        (deterministicChecks secretFindings p.text).allowed = true ∧ Passed options p log ∧
        sealEnvelope crypto sealing = .ok result.envelope := by
  unfold composeOutbound
  apply Spec.bind (Spec.lift (p := fun log r => log = [] ∧
    r = proposeOutbound crypto secretFindings options.policyVersion sealing) ⟨rfl, rfl⟩)
  · rintro log p ⟨rfl, hp⟩
    apply Spec.bind (spec_call _ _)
    · rintro log entry rfl
      split_ifs with hallowed
      · apply Spec.bind (spec_classifyWithReview options p)
        · intro log verdict hclassified
          apply Spec.bind (Spec.lift (p := fun log r => log = [] ∧
            r = sealEnvelope crypto sealing) ⟨rfl, rfl⟩)
          · rintro log' envelope ⟨rfl, henvelope⟩
            apply Spec.bind (spec_call _ _)
            · rintro log' entry rfl
              apply Spec.pure
              rintro result ⟨⟩
              refine ⟨p, hp.symm, hallowed, ?_, henvelope.symm⟩
              apply (hclassified.passed verdict rfl).mono
              exact (List.sublist_append_left log _).trans
                ((List.sublist_append_right _ _).trans (List.sublist_append_right _ _))
            · simp
          · simp
        · simp
      · apply Spec.bind (spec_call _ _)
        · rintro log entry rfl
          apply Spec.throw
          simp
        · simp
    · simp
  · simp

/-- Sending issues no receipt. -/
theorem quiet_composeOutbound (options : PipelineOptions σ) (sealing : SealOptions) :
    Spec (composeOutbound crypto secretFindings options sealing) fun log _ => Quiet log := by
  unfold composeOutbound
  apply Spec.bind (Spec.lift (p := fun log _ => log = []) rfl)
  · rintro log p rfl
    have hproposal := quiet_append (show ofString "proposal" ≠ ofString "receipt" by decide)
      (proposalRecord p sealing.body)
    apply Spec.bind (spec_call _ _)
    · rintro log entry rfl
      split_ifs with hallowed
      · apply Spec.bind (spec_classifyWithReview options p)
        · intro log verdict hclassified
          apply Spec.bind (Spec.lift (p := fun log _ => log = []) rfl)
          · rintro log' envelope rfl
            have henvelope := quiet_append (show ofString "envelope" ≠ ofString "receipt" by decide)
              (record [("id", .string p.id), ("approvalDigest", .string p.approvalDigest),
                ("envelope", envelope.value)])
            apply Spec.bind (spec_call _ _)
            · rintro log' entry rfl
              apply Spec.pure
              exact (hproposal _).append (hclassified.quiet.append (henvelope _))
            · rintro log' e rfl
              exact (hproposal _).append (hclassified.quiet.append (henvelope _))
          · rintro log' e rfl
            exact (hproposal _).append (hclassified.quiet.append quiet_nil)
        · intro log e hclassified
          exact (hproposal _).append hclassified.quiet
      · have hverdict := quiet_append
          (show ofString "deterministic_verdict" ≠ ofString "receipt" by decide)
          (denialRecord p.id p.approvalDigest (deterministicChecks secretFindings p.text).findings)
        apply Spec.bind (spec_call _ _)
        · rintro log entry rfl
          apply Spec.throw
          exact (hproposal _).append ((hverdict _).append quiet_nil)
        · rintro log e rfl
          exact (hproposal _).append (hverdict _)
    · rintro log e rfl
      exact hproposal _
  · rintro log e rfl
    exact quiet_nil

/-- What an outbound run logs and returns. -/
structure OutboundGuarded (crypto : EnvelopeCrypto) (secretFindings : SecretFindings)
    (options : PipelineOptions σ) (sealing : SealOptions) (log : List Call)
    (r : Except Thrown OutboundResult) : Prop where
  sent : ∀ result, r = .ok result → sealEnvelope crypto sealing = .ok result.envelope ∧ ∃ p,
    proposeOutbound crypto secretFindings options.policyVersion sealing = .ok p ∧
    (deterministicChecks secretFindings p.text).allowed = true ∧ Passed options p log
  issued : ∀ call ∈ log, ¬ IssuesRejected call

/-- Calls that claim nothing. -/
def NoClaims (log : List Call) : Prop := ∀ call ∈ log, ∀ peer id hash r, call ≠ .claim peer id hash r

theorem NoClaims.append {log log' : List Call} (h : NoClaims log) (h' : NoClaims log') :
    NoClaims (log ++ log') :=
  List.forall_mem_append.mpr ⟨h, h'⟩

theorem Quiet.noClaims {log : List Call} (h : Quiet log) : NoClaims log :=
  fun call hcall => (h call hcall).2

theorem noClaims_append (type : Utf16) (payload : JsValue) (r : Except Thrown AuditEntry) :
    NoClaims [.append type payload r] := by
  simp [NoClaims]

theorem noClaims_complete (peer id : Utf16) (receipt : SignedReceipt) (body : Option JsValue)
    (r : Except Thrown Unit) : NoClaims [.complete peer id receipt body r] := by
  simp [NoClaims]

theorem signReceipt_status {body : ReceiptBody} {secretKey : Utf16} {receipt : SignedReceipt}
    (h : signReceipt crypto body secretKey = .ok receipt) : receipt.status = body.status := by
  obtain ⟨_, -, h⟩ := bind_eq_ok.mp h
  obtain ⟨_, -, h⟩ := bind_eq_ok.mp h
  obtain ⟨_, -, h⟩ := bind_eq_ok.mp h
  obtain ⟨_, -, h⟩ := bind_eq_ok.mp h
  obtain rfl := Except.ok.inj h
  rfl

theorem lift_eq_ok {α : Type} {x : Except JsError α} {a : α} : lift x = .ok a ↔ x = .ok a := by
  cases x <;> simp [lift, Except.mapError]

/-- A receipt that is recorded as accepted is not one that is recorded as rejected. -/
theorem quiet_receipt (id approvalDigest : Utf16) {receipt : SignedReceipt}
    (h : receipt.status = .accepted) (r : Except Thrown AuditEntry) :
    Quiet [.append (ofString "receipt") (receiptRecord id approvalDigest receipt) r] := by
  apply quiet_singleton _ (by simp)
  intro hissues
  generalize hcall : Call.append (ofString "receipt") (receiptRecord id approvalDigest receipt) r =
    call at hissues
  cases hissues with
  | append id' digest receipt' result rejected =>
    have hrecord := (Call.append.inj hcall).2.1
    simp only [receiptRecord, record, List.map_cons, List.map_nil, JsValue.object.injEq,
      List.cons.injEq, Prod.mk.injEq, true_and, and_true, SignedReceipt.value, ReceiptBody.fields,
      List.cons_append, List.nil_append] at hrecord
    have hstatus := hrecord.2.2.2.2.2.1
    rw [h, rejected] at hstatus
    revert hstatus
    simp only [JsValue.string.injEq]
    decide
  | complete peer id receipt body result rejected => cases hcall

theorem quiet_complete (peer id : Utf16) {receipt : SignedReceipt} (h : receipt.status = .accepted)
    (body : Option JsValue) (r : Except Thrown Unit) :
    Quiet [.complete peer id receipt body r] := by
  apply quiet_singleton _ (by simp)
  intro hissues
  generalize hcall : Call.complete peer id receipt body r = call at hissues
  cases hissues with
  | append id' digest receipt' result rejected => cases hcall
  | complete peer' id' receipt' body' result rejected =>
    obtain ⟨-, -, rfl, -, -⟩ := Call.complete.inj hcall
    rw [h] at rejected
    cases rejected

/-- The claim is completed. -/
def Finalized (peer id : Utf16) (log : List Call) : Prop :=
  ∃ receipt body, Call.complete peer id receipt body (.ok ()) ∈ log

theorem Finalized.mono {peer id : Utf16} {log log' : List Call} (h : Finalized peer id log)
    (hlog : log.Sublist log') : Finalized peer id log' := by
  obtain ⟨receipt, body, hmem⟩ := h
  exact ⟨receipt, body, hlog.subset hmem⟩

variable {store : ReplayStore σ} {options : PipelineOptions σ} {inbound : InboundOptions}

theorem spec_completeRejection (peer : Utf16) (p : Proposal) (category : String) :
    Spec (completeRejection crypto store.logged options inbound peer p category) fun log r =>
      NoClaims log ∧ ∀ receipt, r = .ok receipt → Finalized peer p.id log := by
  unfold completeRejection
  apply Spec.bind (spec_call _ _)
  · rintro log entry rfl
    apply Spec.bind (Spec.lift (p := fun log _ => log = []) rfl)
    · rintro log receipt rfl
      apply Spec.bind (spec_call _ _)
      · rintro log entry' rfl
        apply Spec.bind (spec_call _ _)
        · rintro log _ rfl
          apply Spec.pure
          refine ⟨(noClaims_append _ _ _).append ((noClaims_append _ _ _).append
            (noClaims_complete _ _ _ _ _)), fun _ _ => ⟨receipt, none, ?_⟩⟩
          simp
        · rintro log e rfl
          exact ⟨(noClaims_append _ _ _).append ((noClaims_append _ _ _).append
            (noClaims_complete _ _ _ _ _)), by simp⟩
      · rintro log e rfl
        exact ⟨(noClaims_append _ _ _).append (noClaims_append _ _ _), by simp⟩
    · rintro log e rfl
      exact ⟨noClaims_append _ _ _, by simp⟩
  · rintro log e rfl
    exact ⟨noClaims_append _ _ _, by simp⟩

/-- An error of the classification is a denial that is completed, or it is thrown as it is. -/
theorem spec_rejectClassified (peer : Utf16) (p : Proposal) (e : Thrown) :
    Spec (rejectClassified crypto store.logged options inbound peer p e) fun log r =>
      NoClaims log ∧ (∀ e', r = .ok e' → Finalized peer p.id log) ∧ (¬ IsDenial e → log = []) := by
  have hreject : ∀ category (make : SignedReceipt → Thrown),
      Spec (do
        let _ ← store.logged.refresh peer p.id
        let receipt ← completeRejection crypto store.logged options inbound peer p category
        return make receipt) fun log r =>
          NoClaims log ∧ ∀ e', r = .ok e' → Finalized peer p.id log := by
    intro category make
    have hquiet := fun r => (quiet_refresh peer p.id r).noClaims
    apply Spec.bind (spec_call _ _)
    · rintro log _ rfl
      apply Spec.bind (spec_completeRejection peer p category)
      · rintro log receipt ⟨hclaims, hfinal⟩
        apply Spec.pure
        rw [List.append_nil]
        exact ⟨(hquiet _).append hclaims, fun _ _ =>
          (hfinal receipt rfl).mono (List.sublist_append_right _ log)⟩
      · rintro log e ⟨hclaims, -⟩
        exact ⟨(hquiet _).append hclaims, by simp⟩
    · rintro log e rfl
      exact ⟨hquiet _, by simp⟩
  have hthrow : Spec (throw e : Step σ Thrown) fun log r =>
      NoClaims log ∧ (∀ e', r = .ok e' → Finalized peer p.id log) ∧ (¬ IsDenial e → log = []) :=
    Spec.throw ⟨by simp [NoClaims], by simp, fun _ => rfl⟩
  unfold rejectClassified
  split
  · split_ifs with hdeny
    · exact (hreject _ _).mono fun log r h => ⟨h.1, h.2, fun hdenial => absurd hdeny hdenial⟩
    · exact hthrow
  · exact (hreject _ _).mono fun log r h => ⟨h.1, h.2, fun hdenial => absurd trivial hdenial⟩
  · exact hthrow

theorem spec_acceptInbound (peer : Utf16) (p : Proposal) (body : JsValue) (verdict : Verdict) :
    Spec (acceptInbound crypto store.logged options inbound peer p body verdict) fun log r =>
      Quiet log ∧ ∀ receipt, r = .ok receipt → Finalized peer p.id log := by
  have hquiet := fun r r' => (quiet_refresh peer p.id r).append
    (quiet_append (show ofString "inbox" ≠ ofString "receipt" by decide) (record [("id", .string p.id),
      ("bodyHash", .string p.proposalHash), ("approvalDigest", .string p.approvalDigest),
      ("text", .string p.text), ("verdict", record verdict.fields)]) r')
  unfold acceptInbound
  apply Spec.bind (spec_call _ _)
  · rintro log _ rfl
    apply Spec.bind (spec_call _ _)
    · rintro log entry rfl
      apply Spec.bind (Spec.lift (p := fun log r => log = [] ∧ r = lift (signReceipt crypto
        ⟨p.id, p.proposalHash, entry.entryHash, .accepted, none⟩
        inbound.recipientSigningSecretKey)) ⟨rfl, rfl⟩)
      · rintro log receipt ⟨rfl, hreceipt⟩
        have hstatus : receipt.status = .accepted :=
          signReceipt_status (lift_eq_ok.mp hreceipt.symm)
        apply Spec.bind (spec_call _ _)
        · rintro log entry' rfl
          apply Spec.bind (spec_call _ _)
          · rintro log _ rfl
            apply Spec.pure
            refine ⟨?_, fun _ _ => ⟨receipt, some body, by simp⟩⟩
            exact (quiet_refresh _ _ _).append ((quiet_append (by decide) _ _).append
              ((quiet_receipt p.id p.approvalDigest hstatus _).append
                (quiet_complete _ _ hstatus _ _)))
          · rintro log e rfl
            refine ⟨?_, by simp⟩
            exact (quiet_refresh _ _ _).append ((quiet_append (by decide) _ _).append
              ((quiet_receipt p.id p.approvalDigest hstatus _).append
                (quiet_complete _ _ hstatus _ _)))
        · rintro log e rfl
          refine ⟨?_, by simp⟩
          exact (quiet_refresh _ _ _).append ((quiet_append (by decide) _ _).append
            (quiet_receipt p.id p.approvalDigest hstatus _))
      · rintro log e ⟨rfl, -⟩
        exact ⟨(hquiet _ _).append quiet_nil, by simp⟩
    · rintro log e rfl
      exact ⟨hquiet _ _, by simp⟩
  · rintro log e rfl
    exact ⟨quiet_refresh _ _ _, by simp⟩

/-- The message of a claim was denied, or a call threw a denial. -/
def ProposalDenied (crypto : EnvelopeCrypto) (options : PipelineOptions σ)
    (inbound : InboundOptions) (body : JsValue) (log : List Call) : Prop :=
  ∃ p, proposeInbound crypto options inbound body = .ok p ∧ (Denied options p log ∨ ThrewDenial log)

theorem ProposalDenied.mono {body : JsValue} {log log' : List Call}
    (h : ProposalDenied crypto options inbound body log) (hlog : log.Sublist log') :
    ProposalDenied crypto options inbound body log' := by
  obtain ⟨p, hp, hdenied⟩ := h
  exact ⟨p, hp, hdenied.imp (·.mono hlog) (·.mono hlog)⟩

/-- What the `try` of an inbound run logs and returns. -/
structure Composed (crypto : EnvelopeCrypto) (secretFindings : SecretFindings)
    (options : PipelineOptions σ) (inbound : InboundOptions) (peer : Utf16) (body : JsValue)
    (log : List Call) (r : Except Thrown (Except Thrown InboundResult)) : Prop where
  noClaims : NoClaims log
  issued : IssuedAfter (ProposalDenied crypto options inbound body) log
  finalized : ∀ result, r = .ok result →
    Finalized peer (stringField inbound.opening.envelope "id") log
  accepted : ∀ body' verdict receipt, r = .ok (.ok (.accepted body' verdict receipt)) →
    body' = body ∧ ∃ p, proposeInbound crypto options inbound body = .ok p ∧
      (deterministicChecks secretFindings p.text).allowed = true ∧ Passed options p log

theorem proposeInbound_eq_ok {body : JsValue} {p : Proposal}
    (h : proposeInbound crypto options inbound body = .ok p) :
    p.direction = .inbound ∧ p.id = stringField inbound.opening.envelope "id" ∧
      p.source = stringField inbound.opening.envelope "from" ∧
      p.destination = inbound.opening.self ∧ bodyHash crypto body = .ok p.proposalHash ∧
      computeApprovalDigest crypto p.id p.source p.destination .inbound p.proposalHash
        options.policyVersion = .ok p.approvalDigest ∧ p.text = stringField body "text" := by
  obtain ⟨hash, hhash, h⟩ := bind_eq_ok.mp h
  obtain ⟨digest, hdigest, h⟩ := bind_eq_ok.mp h
  obtain rfl := Except.ok.inj h
  exact ⟨rfl, rfl, rfl, rfl, hhash, hdigest, rfl⟩

/-- Checks that do not allow a text have findings, unless it is no well-formed text. -/
theorem findings_ne_nil {text : Utf16} (h : ¬ (deterministicChecks secretFindings text).allowed) :
    (deterministicChecks secretFindings text).findings ≠ [] := by
  unfold deterministicChecks at h ⊢
  cases hdecoded : decodeUtf8 (utf8 text) with
  | error e => simp
  | ok decoded =>
    rw [hdecoded] at h
    simp only at h ⊢
    split_ifs at h ⊢
    · simp
    · simp
    · simpa using h

/-- A run that issues nothing and is not finalized. -/
theorem Composed.of_error {peer : Utf16} {body : JsValue} {log : List Call} {e : Thrown}
    (hclaims : NoClaims log)
    (hissued : IssuedAfter (ProposalDenied crypto options inbound body) log) :
    Composed crypto secretFindings options inbound peer body log (.error e) where
  noClaims := hclaims
  issued := hissued
  finalized _ h := by cases h
  accepted _ _ _ h := by cases h

/-- The denial that a message gets for the checks. -/
theorem spec_composeNew_denied {peer : Utf16} {body : JsValue} {p : Proposal}
    (hp : proposeInbound crypto options inbound body = .ok p)
    (hdenied : ¬ (deterministicChecks secretFindings p.text).allowed) :
    Spec (do
      let _ ← store.logged.refresh peer p.id
      let _ ← options.appendAudit "deterministic_verdict"
        (denialRecord p.id p.approvalDigest (deterministicChecks secretFindings p.text).findings)
      let receipt ←
        completeRejection crypto store.logged options inbound peer p "deterministic_deny"
      return .error (.pipeline .deterministic "deterministic checks denied message" none
        (some receipt) none none))
      (Composed crypto secretFindings options inbound peer body) := by
  have hid := (proposeInbound_eq_ok hp).2.1
  have hquiet := fun r r' => (quiet_refresh peer p.id r).append
    (quiet_append (show ofString "deterministic_verdict" ≠ ofString "receipt" by decide)
      (denialRecord p.id p.approvalDigest (deterministicChecks secretFindings p.text).findings) r')
  apply Spec.bind (spec_call _ _)
  · rintro log _ rfl
    apply Spec.bind (spec_call _ _)
    · rintro log entry rfl
      have hissued : ∀ log', IssuedAfter (ProposalDenied crypto options inbound body)
          ([.refresh peer p.id (.ok ())] ++ ([.append (ofString "deterministic_verdict")
            (denialRecord p.id p.approvalDigest
              (deterministicChecks secretFindings p.text).findings) (.ok entry)] ++ log')) := by
        intro log'
        rw [← List.append_assoc]
        refine IssuedAfter.append (fun _ _ => .mono) (hquiet _ _) ⟨p, hp, .inl ?_⟩
        exact .deterministic _ entry (findings_ne_nil hdenied) (by simp)
      apply Spec.bind (spec_completeRejection peer p _)
      · rintro log receipt ⟨hclaims, hfinal⟩
        apply Spec.pure
        rw [List.append_nil]
        refine ⟨?_, hissued log, fun _ _ => ?_, by simp⟩
        · rw [← List.append_assoc]
          exact (hquiet _ _).noClaims.append hclaims
        · rw [← hid]
          exact (hfinal receipt rfl).mono
            ((List.sublist_append_right _ log).trans (List.sublist_append_right _ _))
      · rintro log e ⟨hclaims, -⟩
        refine .of_error ?_ (hissued log)
        rw [← List.append_assoc]
        exact (hquiet _ _).noClaims.append hclaims
    · rintro log e rfl
      exact .of_error (hquiet _ _).noClaims (.of_none (hquiet _ _))
  · rintro log e rfl
    exact .of_error (quiet_refresh _ _ _).noClaims (.of_none (quiet_refresh _ _ _))

theorem spec_composeNew (peer : Utf16) (body : JsValue) :
    Spec (composeNew crypto store.logged options inbound secretFindings peer body)
      (Composed crypto secretFindings options inbound peer body) := by
  unfold composeNew
  apply Spec.bind (Spec.lift (p := fun log r => log = [] ∧
    r = proposeInbound crypto options inbound body) ⟨rfl, rfl⟩)
  · rintro log p ⟨rfl, hp⟩
    have hid := (proposeInbound_eq_ok hp.symm).2.1
    simp only [List.nil_append]
    split_ifs with hallowed
    · -- The attempt returns its error as a value, so the error branch of this bind is empty.
      have hattempt : Spec (Traced.attempt (classifyWithReview options p) : Step σ _)
          fun log r => ∃ r', r = .ok r' ∧ Classified options p log r' :=
        Spec.attempt ((spec_classifyWithReview options p).mono fun log r h => ⟨r, rfl, h⟩)
      apply Spec.bind hattempt
      · rintro log classified ⟨_, ⟨⟩, h⟩
        cases classified with
        | ok verdict =>
          apply Spec.bind (spec_acceptInbound peer p body verdict)
          · rintro log' receipt ⟨hquiet, hfinal⟩
            apply Spec.pure
            rw [List.append_nil]
            refine ⟨(h.quiet.append hquiet).noClaims, .of_none (h.quiet.append hquiet),
              fun _ _ => ?_, ?_⟩
            · rw [← hid]
              exact (hfinal receipt rfl).mono (List.sublist_append_right log log')
            · rintro body' verdict' receipt' ⟨⟩
              exact ⟨rfl, p, hp.symm, hallowed,
                (h.passed verdict rfl).mono (List.sublist_append_left log log')⟩
          · rintro log' e ⟨hquiet, -⟩
            exact .of_error (h.quiet.append hquiet).noClaims (.of_none (h.quiet.append hquiet))
        | error e =>
          have hissued : ∀ log', (¬ IsDenial e → log' = []) →
              IssuedAfter (ProposalDenied crypto options inbound body) (log ++ log') := by
            intro log' hlog'
            by_cases hdenial : IsDenial e
            · exact IssuedAfter.append (fun _ _ => .mono) h.quiet
                ⟨p, hp.symm, h.denied e rfl hdenial⟩
            · rw [hlog' hdenial, List.append_nil]
              exact .of_none h.quiet
          apply Spec.bind (spec_rejectClassified peer p e)
          · rintro log' e' ⟨hclaims, hfinal, hlog'⟩
            apply Spec.pure
            rw [List.append_nil]
            refine ⟨h.quiet.noClaims.append hclaims, hissued log' hlog', fun _ _ => ?_, by simp⟩
            rw [← hid]
            exact (hfinal e' rfl).mono (List.sublist_append_right log log')
          · rintro log' e' ⟨hclaims, -, hlog'⟩
            exact .of_error (h.quiet.noClaims.append hclaims) (hissued log' hlog')
      · rintro log e ⟨_, ⟨⟩, -⟩
    · exact spec_composeNew_denied hp.symm hallowed
  · rintro log e ⟨rfl, -⟩
    exact .of_error quiet_nil.noClaims (.of_none quiet_nil)

theorem asString_eq_some {value : JsValue} {s : Utf16} :
    asString value = some s ↔ value = .string s := by
  cases value <;> simp [asString]

theorem readEnvelope_eq_some {fields : List (Utf16 × JsValue)} {envelope : Envelope}
    (h : readEnvelope fields = some envelope) :
    field fields (ofString "id") = .string envelope.id ∧
      field fields (ofString "from") = .string envelope.source := by
  simp only [readEnvelope, Option.bind_eq_bind, Option.bind_eq_some_iff, asString_eq_some,
    Option.pure_def, Option.some.injEq] at h
  obtain ⟨v, -, id, hid, source, hsource, -, -, -, -, -, -, -, -, -, -, -, -, rfl⟩ := h
  exact ⟨hid, hsource⟩

theorem validateSizes_eq_ok {envelope envelope' : Envelope}
    (h : validateSizes envelope = .ok envelope') : envelope' = envelope := by
  unfold validateSizes at h
  split_ifs at h
  obtain ⟨bytes, -, h⟩ := bind_eq_ok.mp h
  split_ifs at h
  exact (Except.ok.inj h).symm

theorem validateEnvelope_eq_ok {value : JsValue} {envelope : Envelope}
    (h : validateEnvelope value = .ok envelope) :
    stringField value "id" = envelope.id ∧ stringField value "from" = envelope.source := by
  unfold validateEnvelope at h
  split at h
  · split_ifs at h
    split at h
    · cases h
    · rename_i fields _ e he
      obtain rfl := validateSizes_eq_ok h
      obtain ⟨hid, hsource⟩ := readEnvelope_eq_some he
      simp [stringField, hid, hsource, asString]
  · cases h

/-- The envelope that is claimed is the one that is composed. -/
theorem checkEnvelope_eq_ok {opening : OpenOptions} {envelope : Envelope} {peer hash : Utf16}
    (h : checkEnvelope crypto opening = .ok (envelope, peer, hash)) :
    stringField opening.envelope "id" = envelope.id ∧
      ∃ source, lift (parseHandleEpoch (stringField opening.envelope "from")) = .ok source ∧
        source.handle = peer := by
  obtain ⟨e, he, h⟩ := bind_eq_ok.mp h
  obtain ⟨publicKey, -, h⟩ := bind_eq_ok.mp h
  split_ifs at h
  · obtain ⟨_, -, h⟩ := bind_eq_ok.mp h
    cases h
  · obtain ⟨_, -, h⟩ := bind_eq_ok.mp h
    obtain ⟨source, hsource, h⟩ := bind_eq_ok.mp h
    obtain ⟨_, -, h⟩ := bind_eq_ok.mp h
    obtain ⟨rfl, rfl, rfl⟩ := Except.ok.inj h
    obtain ⟨hid, hfrom⟩ := validateEnvelope_eq_ok he
    exact ⟨hid, source, hfrom ▸ hsource, rfl⟩

/-- The claims of the log that were new are finalized or released. -/
def Settled (log : List Call) : Prop :=
  ∀ peer id hash, Call.claim peer id hash (.ok .new) ∈ log →
    Finalized peer id log ∨ ∃ r, Call.release peer id r ∈ log

theorem NoClaims.settled {log : List Call} (h : NoClaims log) : Settled log :=
  fun peer id hash hmem => absurd rfl (h _ hmem peer id hash _)

/-- The body of the envelope, where it passes every check. -/
def OpensTo (crypto : EnvelopeCrypto) (opening : OpenOptions) (body : JsValue) : Prop :=
  ∃ envelope peer hash, checkEnvelope crypto opening = .ok (envelope, peer, hash) ∧
    openNew crypto opening envelope = .ok body

/-- What opening an envelope logs and returns. -/
inductive Opened (crypto : EnvelopeCrypto) (opening : OpenOptions) (log : List Call) :
    Except Thrown ClaimedOpenResult → Prop
  | new (body : JsValue) (source : HandleEpoch) (hash : Utf16) (opens : OpensTo crypto opening body)
      (peer : lift (parseHandleEpoch (stringField opening.envelope "from")) = .ok source)
      (claim : log = [.claim source.handle (stringField opening.envelope "id") hash (.ok .new)]) :
      Opened crypto opening log (.ok (.new body hash))
  | settled (r : Except Thrown ClaimedOpenResult) (quiet : ∀ call ∈ log, ¬ IssuesRejected call)
      (settled : Settled log) (notNew : ∀ body hash, r ≠ .ok (.new body hash)) :
      Opened crypto opening log r

theorem not_issuesRejected_claim {peer id hash : Utf16} {r : Except Thrown ReplayClaim} :
    ¬ IssuesRejected (.claim peer id hash r) := fun h => by cases h

theorem not_issuesRejected_release {peer id : Utf16} {r : Except Thrown Unit} :
    ¬ IssuesRejected (.release peer id r) := fun h => by cases h

theorem not_issuesRejected_completed {peer id : Utf16} {r : Except Thrown (Option CompletedReplay)} :
    ¬ IssuesRejected (.completed peer id r) := fun h => by cases h

/-- A claim that was not new leaves nothing to release. -/
theorem settled_claim {peer id hash : Utf16} {r : Except Thrown ReplayClaim} (h : r ≠ .ok .new)
    {log : List Call} (hclaims : NoClaims log) : Settled (.claim peer id hash r :: log) := by
  intro peer' id' hash' hmem
  rcases List.mem_cons.mp hmem with heq | hmem
  · exact absurd (Call.claim.inj heq).2.2.2.symm h
  · exact absurd rfl (hclaims _ hmem peer' id' hash' _)

theorem spec_openClaimed (opening : OpenOptions) :
    Spec (openClaimed crypto store.logged opening) (Opened crypto opening) := by
  unfold openClaimed
  apply Spec.bind (Spec.lift (p := fun log r => log = [] ∧ r = checkEnvelope crypto opening)
    ⟨rfl, rfl⟩)
  · rintro log ⟨envelope, peer, hash⟩ ⟨rfl, hchecked⟩
    obtain ⟨hid, source, hsource, hpeer⟩ := checkEnvelope_eq_ok hchecked.symm
    apply Spec.bind (spec_call _ _)
    · rintro log claim rfl
      -- a message that is not new leaves no claim open
      have hsettled : ∀ log' (r : Except Thrown ClaimedOpenResult), claim ≠ .new →
          (∀ call ∈ log', ¬ IssuesRejected call) → NoClaims log' →
          (∀ body hash, r ≠ .ok (.new body hash)) → Opened crypto opening
            ([] ++ ([.claim peer envelope.id hash (.ok claim)] ++ log')) r := by
        intro log' r hclaim hquiet hclaims hr
        refine .settled r ?_ (settled_claim (by simpa using hclaim) hclaims) hr
        exact List.forall_mem_cons.mpr ⟨not_issuesRejected_claim, hquiet⟩
      cases claim with
      | mismatch =>
        apply Spec.throw
        exact hsettled [] _ (by simp) (by simp) (by simp [NoClaims]) (by simp)
      | inFlight =>
        apply Spec.throw
        exact hsettled [] _ (by simp) (by simp) (by simp [NoClaims]) (by simp)
      | duplicate =>
        have hcompleted := fun r => (quiet_completed peer envelope.id r).noClaims
        apply Spec.bind (spec_call _ _)
        · rintro log completed rfl
          apply Spec.pure
          exact hsettled _ _ (by simp) (by simp [not_issuesRejected_completed]) (hcompleted _)
            (by simp)
        · rintro log e rfl
          exact hsettled _ _ (by simp) (by simp [not_issuesRejected_completed]) (hcompleted _)
            (by simp)
      | new =>
        simp only
        cases hopen : openNew crypto opening envelope with
        | ok body =>
          apply Spec.pure
          refine .new body source hash ⟨envelope, peer, hash, hchecked.symm, hopen⟩ hsource ?_
          subst hpeer
          rw [hid]
          rfl
        | error e =>
          -- a new message that cannot be opened gives its claim back
          have hreleased : ∀ r (r' : Except Thrown ClaimedOpenResult),
              (∀ body hash, r' ≠ .ok (.new body hash)) → Opened crypto opening
                ([] ++ ([.claim peer envelope.id hash (.ok .new)] ++
                  [.release peer envelope.id r])) r' := by
            intro r r' hr
            refine .settled r' ?_ ?_ hr
            · simp [not_issuesRejected_claim, not_issuesRejected_release]
            · intro peer' id' hash' hmem
              right
              refine ⟨r, ?_⟩
              simp only [List.nil_append, List.cons_append, List.mem_cons, Call.claim.injEq,
                reduceCtorEq, List.not_mem_nil, or_false] at hmem
              obtain ⟨rfl, rfl, -⟩ := hmem
              simp
          apply Spec.bind (spec_call _ _)
          · rintro log _ rfl
            apply Spec.throw
            rw [List.append_nil]
            exact hreleased _ _ (by simp)
          · rintro log e' rfl
            exact hreleased _ _ (by simp)
    · rintro log e rfl
      refine .settled _ (by simp [not_issuesRejected_claim]) ?_ (by simp)
      exact settled_claim (by simp) (by simp [NoClaims])
  · rintro log e ⟨rfl, -⟩
    exact .settled _ (by simp) (by simp [Settled]) (by simp)

theorem IssuedAfter.prepend {denied : List Call → Prop} {log log' : List Call}
    (hmono : ∀ l l', denied l → l.Sublist l' → denied l') (h : ∀ call ∈ log, ¬ IssuesRejected call)
    (h' : IssuedAfter denied log') : IssuedAfter denied (log ++ log') := by
  intro before call after heq hissues
  obtain ⟨rest, rfl, hrest⟩ | ⟨rest, rfl, hrest⟩ := List.append_eq_append_iff.mp heq
  · exact hmono _ _ (h' rest call after hrest hissues) (List.sublist_append_right log rest)
  · cases rest with
    | nil => exact hmono _ _ (h' [] call after hrest.symm hissues) (List.nil_sublist _)
    | cons c rest =>
      obtain ⟨rfl, -⟩ := List.cons.inj hrest
      exact absurd hissues (h call (by simp))

/-- Calls that issue nothing may follow. -/
theorem IssuedAfter.extend {denied : List Call → Prop} {log log' : List Call}
    (h : IssuedAfter denied log) (h' : ∀ call ∈ log', ¬ IssuesRejected call) :
    IssuedAfter denied (log ++ log') := by
  intro before call after heq hissues
  obtain ⟨rest, rfl, hrest⟩ | ⟨rest, rfl, hrest⟩ := List.append_eq_append_iff.mp heq
  · exact absurd hissues (h' call (by rw [hrest]; simp))
  · cases rest with
    | nil =>
      rw [List.nil_append] at hrest
      exact absurd hissues (h' call (hrest ▸ List.mem_cons_self))
    | cons c rest =>
      obtain ⟨rfl, -⟩ := List.cons.inj hrest
      exact h before call rest rfl hissues

theorem Settled.of_claim {peer id hash : Utf16} {log : List Call} (hclaims : NoClaims log)
    (h : Finalized peer id log ∨ ∃ r, Call.release peer id r ∈ log) :
    Settled (.claim peer id hash (.ok .new) :: log) := by
  intro peer' id' hash' hmem
  rcases List.mem_cons.mp hmem with heq | hmem
  · obtain ⟨rfl, rfl, -, -⟩ := Call.claim.inj heq
    refine h.imp (·.mono (List.sublist_cons_self _ log)) ?_
    rintro ⟨r, hr⟩
    exact ⟨r, List.mem_cons_of_mem _ hr⟩
  · exact absurd rfl (hclaims _ hmem peer' id' hash' _)

/-- The body of the envelope was denied, or a call threw a denial. -/
def MessageDenied (crypto : EnvelopeCrypto) (options : PipelineOptions σ)
    (inbound : InboundOptions) (log : List Call) : Prop :=
  ∃ body, OpensTo crypto inbound.opening body ∧ ProposalDenied crypto options inbound body log

theorem MessageDenied.mono {log log' : List Call}
    (h : MessageDenied crypto options inbound log) (hlog : log.Sublist log') :
    MessageDenied crypto options inbound log' := by
  obtain ⟨body, hbody, hdenied⟩ := h
  exact ⟨body, hbody, hdenied.mono hlog⟩

/-- What an inbound run logs and returns. -/
structure InboundGuarded (crypto : EnvelopeCrypto) (secretFindings : SecretFindings)
    (options : PipelineOptions σ) (inbound : InboundOptions) (log : List Call)
    (r : Except Thrown InboundResult) : Prop where
  accepted : ∀ body verdict receipt, r = .ok (.accepted body verdict receipt) →
    OpensTo crypto inbound.opening body ∧ ∃ p,
      proposeInbound crypto options inbound body = .ok p ∧
      (deterministicChecks secretFindings p.text).allowed = true ∧ Passed options p log
  issued : IssuedAfter (MessageDenied crypto options inbound) log
  settled : Settled log

/-- A run that accepts nothing and issues nothing. -/
theorem InboundGuarded.of_settled {log : List Call} {r : Except Thrown InboundResult}
    (hquiet : ∀ call ∈ log, ¬ IssuesRejected call) (hsettled : Settled log)
    (h : ∀ body verdict receipt, r ≠ .ok (.accepted body verdict receipt)) :
    InboundGuarded crypto secretFindings options inbound log r where
  accepted body verdict receipt heq := absurd heq (h body verdict receipt)
  issued := by
    rintro before call after rfl hissues
    exact absurd hissues (hquiet call (by simp))
  settled := hsettled

theorem spec_composeInbound :
    Spec (composeInbound crypto store.logged options inbound secretFindings)
      (InboundGuarded crypto secretFindings options inbound) := by
  unfold composeInbound
  apply Spec.bind (spec_openClaimed inbound.opening)
  · intro log opened hopened
    cases hopened with
    | settled _ hquiet hsettled hnew =>
      cases opened with
      | new body hash => exact absurd rfl (hnew body hash)
      | duplicate receipt body =>
        cases receipt with
        | none =>
          apply Spec.throw
          rw [List.append_nil]
          exact .of_settled hquiet hsettled (by simp)
        | some receipt =>
          apply Spec.pure
          rw [List.append_nil]
          exact .of_settled hquiet hsettled (by simp)
    | new body source hash hopens hpeer hlog =>
      subst hlog
      -- the claim of the message is in front of all that follows
      have hclaim : ∀ call ∈ [Call.claim source.handle (stringField inbound.opening.envelope "id")
          hash (.ok .new)], ¬ IssuesRejected call := by
        simp [not_issuesRejected_claim]
      have hissued : ∀ log', IssuedAfter (ProposalDenied crypto options inbound body) log' →
          IssuedAfter (MessageDenied crypto options inbound)
            ([.claim source.handle (stringField inbound.opening.envelope "id") hash (.ok .new)] ++
              log') :=
        fun log' h => IssuedAfter.prepend (fun _ _ => .mono) hclaim
          fun before call after heq hissues => ⟨body, hopens, h before call after heq hissues⟩
      apply Spec.bind (Spec.lift (p := fun log r => log = [] ∧
        r = lift (parseHandleEpoch (stringField inbound.opening.envelope "from"))) ⟨rfl, rfl⟩)
      · rintro log source' ⟨rfl, hsource'⟩
        obtain rfl := Except.ok.inj (hpeer.symm.trans hsource'.symm)
        have hattempt : Spec (Traced.attempt
            (composeNew crypto store.logged options inbound secretFindings source.handle body))
            fun log r => ∃ r', r = .ok r' ∧
              Composed crypto secretFindings options inbound source.handle body log r' :=
          Spec.attempt ((spec_composeNew source.handle body).mono fun log r h => ⟨r, rfl, h⟩)
        apply Spec.bind hattempt
        · rintro log result ⟨_, ⟨⟩, h⟩
          cases result with
          | ok finalized =>
            apply Spec.lift
            rw [List.append_nil, List.nil_append]
            refine ⟨?_, hissued log h.issued,
              .of_claim h.noClaims (.inl (h.finalized finalized rfl))⟩
            rintro body' verdict receipt rfl
            obtain ⟨rfl, p, hp, hallowed, hpassed⟩ := h.accepted body' verdict receipt rfl
            exact ⟨hopens, p, hp, hallowed, hpassed.mono (List.sublist_append_right _ log)⟩
          | error e =>
            -- a failed composition releases the claim, whatever comes of that
            have hreleased : ∀ r (r' : Except Thrown InboundResult),
                (∀ body verdict receipt, r' ≠ .ok (.accepted body verdict receipt)) →
                InboundGuarded crypto secretFindings options inbound
                  ([.claim source.handle (stringField inbound.opening.envelope "id") hash
                    (.ok .new)] ++ (log ++ [.release source.handle
                      (stringField inbound.opening.envelope "id") r])) r' := by
              intro r r' hr
              refine ⟨fun body verdict receipt heq => absurd heq (hr body verdict receipt), ?_, ?_⟩
              · apply hissued
                exact h.issued.extend (by simp [not_issuesRejected_release])
              · exact .of_claim (h.noClaims.append (quiet_release _ _ r).noClaims)
                  (.inr ⟨r, by simp⟩)
            apply Spec.bind (spec_call _ _)
            · rintro log' _ rfl
              apply Spec.throw
              rw [List.append_nil]
              exact hreleased _ _ (by simp)
            · rintro log' e' rfl
              exact hreleased _ _ (by simp)
        · rintro log e ⟨_, ⟨⟩, -⟩
      · rintro log e ⟨-, he⟩
        rw [hpeer] at he
        cases he
  · intro log e hopened
    cases hopened with
    | settled _ hquiet hsettled hnew => exact .of_settled hquiet hsettled (by simp)

/-- No message passes without the guard, and every claim of a run is settled. -/
theorem composed_guarded (crypto : EnvelopeCrypto) (secretFindings : SecretFindings)
    (options : PipelineOptions σ) (store : ReplayStore σ) :
    (∀ sealing, Spec (composeOutbound crypto secretFindings options sealing)
      (OutboundGuarded crypto secretFindings options sealing)) ∧
    ∀ inbound, Spec (composeInbound crypto store.logged options inbound secretFindings)
      (InboundGuarded crypto secretFindings options inbound) := by
  refine ⟨fun sealing => ?_, fun inbound => spec_composeInbound⟩
  apply ((spec_composeOutbound options sealing).and (quiet_composeOutbound options sealing)).mono
  rintro log r ⟨hsent, hquiet⟩
  refine ⟨fun result hr => ?_, fun call hcall => (hquiet call hcall).1⟩
  obtain ⟨p, hp, hallowed, hpassed, hseal⟩ := hsent result hr
  exact ⟨hseal, p, hp, hallowed, hpassed⟩

theorem hashValue_eq {value : JsValue} (h : IsPlain value) :
    hashValue crypto value = .ok (hex (crypto.sha256 (utf8 (render (normalForm value))))) := by
  unfold hashValue canonicalBytes
  rw [canonicalJson_eq value h]
  rfl

def sampleVerdict : Verdict := guardFailure (ofString "gpt-5.6-sol") (ofString "1")

/-- What a guard throws that reports a denial itself. -/
def thrownDenial : Thrown := .pipeline .guard "denied" (some sampleVerdict) none none none

def sampleEntry : AuditEntry :=
  ⟨⟨1, .finite .zero, ofString "inbox_rejected", .null⟩, [], hex sampleDigest⟩

/-- A guard that throws a denial, with no review gate. -/
def throwingOptions : PipelineOptions Bindings where
  classify _ := throw thrownDenial
  pinnedModel := ofString "gpt-5.6-sol"
  reviewGate := none
  appendEvent _ _ := pure sampleEntry
  policyVersion := ofString "1"

theorem run_append (type : String) (payload : JsValue) (w : World Bindings Call) :
    throwingOptions.appendAudit type payload w =
      (.ok sampleEntry, ⟨w.state, w.log ++ [.append (ofString type) payload (.ok sampleEntry)]⟩) :=
  rfl

theorem run_refresh (peer id : Utf16) (w : World Bindings Call) :
    memoryReplayStore.logged.refresh peer id w =
      (.ok (), ⟨w.state, w.log ++ [.refresh peer id (.ok ())]⟩) := rfl

theorem spec_pure_true {α : Type} (a : α) : Spec (pure a : Step σ α) fun _ _ => True :=
  Spec.pure trivial

section Throwing

variable {inbound : InboundOptions} (peer : Utf16) {p : Proposal}

/-- What a run logs before the receipt, and the receipt. -/
def rejectionCall (p : Proposal) : Call :=
  .append (ofString "inbox_rejected") (record [("id", .string p.id),
    ("bodyHash", .string p.proposalHash), ("approvalDigest", .string p.approvalDigest),
    ("decision", text "deny"), ("category", text "guard_deny")]) (.ok sampleEntry)

def receiptCall (p : Proposal) (receipt : SignedReceipt) : Call :=
  .append (ofString "receipt") (receiptRecord p.id p.approvalDigest receipt) (.ok sampleEntry)

variable {receipt : SignedReceipt}
  (hsign : lift (signReceipt sampleEnvelopeCrypto
  ⟨p.id, p.proposalHash, sampleEntry.entryHash, .rejected, some (ofString "guard_deny")⟩
  inbound.recipientSigningSecretKey) = .ok receipt)

include hsign

theorem logStarts_completeRejection (w : World Bindings Call) :
    LogStarts (completeRejection sampleEnvelopeCrypto memoryReplayStore.logged throwingOptions
      inbound peer p "guard_deny") w (w.log ++ [rejectionCall p, receiptCall p receipt]) := by
  have htail : Spec (memoryReplayStore.logged.complete peer p.id receipt none >>= fun _ =>
      (pure receipt : Step Bindings SignedReceipt)) fun _ _ => True :=
    Spec.bind (spec_call _ _) (fun _ _ _ => spec_pure_true _) fun _ _ _ => trivial
  have hlog : LogStarts _ ⟨w.state, w.log ++ [rejectionCall p, receiptCall p receipt]⟩ _ := .of_spec htail
  unfold LogStarts completeRejection
  rw [run_bind_ok (run_append _ _ _), hsign, run_bind_ok (run_liftExcept _),
    run_bind_ok (run_append _ _ _), List.append_assoc]
  exact hlog

theorem logStarts_rejectClassified (w : World Bindings Call) :
    LogStarts (rejectClassified sampleEnvelopeCrypto memoryReplayStore.logged throwingOptions
      inbound peer p thrownDenial) w
      (w.log ++ .refresh peer p.id (.ok ()) :: [rejectionCall p, receiptCall p receipt]) := by
  have hreject := (logStarts_completeRejection peer hsign
    ⟨w.state, w.log ++ [.refresh peer p.id (.ok ())]⟩).bind fun receipt =>
      spec_pure_true (Thrown.pipeline .guard "denied" (some sampleVerdict) (some receipt) none none)
  unfold LogStarts rejectClassified thrownDenial
  rw [List.append_cons]
  simp only
  rw [if_pos (show sampleVerdict.decision = .deny from rfl), run_bind_ok (run_refresh _ _ _)]
  exact hreject

/-- The calls of a run whose guard throws a denial, until the receipt. -/
theorem logStarts_composeNew {body : JsValue} (w : World Bindings Call)
    (hp : proposeInbound sampleEnvelopeCrypto throwingOptions inbound body = .ok p)
    (hallowed : (deterministicChecks (fun _ => []) p.text).allowed = true) :
    LogStarts (composeNew sampleEnvelopeCrypto memoryReplayStore.logged throwingOptions inbound
      (fun _ => []) peer body) w (w.log ++ .classify (p.request throwingOptions.policyVersion)
        (.error thrownDenial) :: .refresh peer p.id (.ok ()) :: [rejectionCall p, receiptCall p receipt]) := by
  have hreject := (logStarts_rejectClassified peer hsign ⟨w.state, w.log ++
    [.classify (p.request throwingOptions.policyVersion) (.error thrownDenial)]⟩).bind fun e =>
      spec_pure_true (Except.error e : Except Thrown InboundResult)
  unfold LogStarts composeNew
  rw [hp, run_bind_ok (run_liftExcept _), List.append_cons,
    if_neg (by simp [hallowed])]
  exact hreject

theorem logStarts_composeInbound {w w' : World Bindings Call} {body : JsValue} {hash : Utf16}
    {source : HandleEpoch}
    (hopened : openClaimed sampleEnvelopeCrypto memoryReplayStore.logged inbound.opening w =
      (.ok (.new body hash), w'))
    (hsource : lift (parseHandleEpoch (stringField inbound.opening.envelope "from")) = .ok source)
    (hp : proposeInbound sampleEnvelopeCrypto throwingOptions inbound body = .ok p)
    (hallowed : (deterministicChecks (fun _ => []) p.text).allowed = true) :
    LogStarts (composeInbound sampleEnvelopeCrypto memoryReplayStore.logged throwingOptions inbound
      fun _ => []) w (w'.log ++ .classify (p.request throwingOptions.policyVersion)
        (.error thrownDenial) :: .refresh source.handle p.id (.ok ()) ::
          [rejectionCall p, receiptCall p receipt]) := by
  have hnew : LogStarts (Traced.attempt (composeNew sampleEnvelopeCrypto memoryReplayStore.logged
      throwingOptions inbound (fun _ => []) source.handle body)) w' _ :=
    logStarts_composeNew source.handle hsign w' hp hallowed
  unfold LogStarts composeInbound
  rw [run_bind_ok hopened]
  simp only
  rw [hsource, run_bind_ok (run_liftExcept _)]
  apply hnew.bind
  intro result
  cases result with
  | ok finalized => exact Spec.lift trivial
  | error e =>
    exact Spec.bind (spec_call _ _) (fun _ _ _ => Spec.throw trivial) fun _ _ _ => trivial

end Throwing

/-- The message of the sample, as it is received. -/
theorem normalForm_sampleBody : normalForm sampleSealing.body =
    .object [(ofString "text", .string (ofString "hi"))] := by
  rfl

def sampleInbound (envelope : Envelope) : InboundOptions where
  opening := { sampleOpening with envelope := envelope.value }
  recipientSigningSecretKey := sampleKeyText

theorem proposeInbound_sample {envelope : Envelope} (hid : envelope.id = sampleSealing.id)
    (hfields : stringField envelope.value "id" = envelope.id) :
    ∃ p, proposeInbound sampleEnvelopeCrypto throwingOptions (sampleInbound envelope)
        (normalForm sampleSealing.body) = .ok p ∧ p.id = sampleSealing.id ∧
      p.proposalHash = hex sampleDigest ∧ p.text = ofString "hi" := by
  have hplain : IsPlain (.object [(ofString "text", .string (ofString "hi"))]) :=
    ⟨by decide, .inr trivial, trivial⟩
  have hrecord : ∀ source, IsPlain (record [("id", .string envelope.id), ("from", .string source),
      ("to", .string sampleOpening.self), ("direction", text GuardDirection.inbound.text),
      ("bodyHash", .string (hex sampleDigest)), ("policyVersion", .string (ofString "1"))]) := by
    intro source
    refine ⟨?_, .inr trivial, .inr trivial, .inr trivial, .inr trivial, .inr trivial, .inr trivial,
      trivial⟩
    simp only [List.map_cons, List.map_nil]
    decide
  have hid' : stringField (sampleInbound envelope).opening.envelope "id" = envelope.id := hfields
  refine ⟨⟨.inbound, envelope.id, hex sampleDigest, hex sampleDigest,
    stringField envelope.value "from", sampleOpening.self, ofString "hi"⟩, ?_, hid, rfl, rfl⟩
  unfold proposeInbound bodyHash computeApprovalDigest
  rw [normalForm_sampleBody, hashValue_eq hplain, hid']
  exact bind_eq_ok.mpr ⟨hex sampleDigest, rfl, bind_eq_ok.mpr ⟨_, hashValue_eq (hrecord _), rfl⟩⟩

theorem signReceipt_sample (envelope : Envelope) : ∃ receipt, lift (signReceipt sampleEnvelopeCrypto
    ⟨sampleSealing.id, hex sampleDigest, sampleEntry.entryHash, .rejected,
      some (ofString "guard_deny")⟩ (sampleInbound envelope).recipientSigningSecretKey) =
        .ok receipt := by
  have hplain : IsPlain (.object (ReceiptBody.fields ⟨sampleSealing.id, hex sampleDigest,
      sampleEntry.entryHash, .rejected, some (ofString "guard_deny")⟩)) :=
    ⟨by decide, .inr trivial, .inr trivial, .inr trivial, .inr trivial, .inr trivial, trivial⟩
  have hvalid : validateReceiptBody ⟨sampleSealing.id, hex sampleDigest, sampleEntry.entryHash,
      .rejected, some (ofString "guard_deny")⟩ = .ok () := by
    decide
  have hkey : (sampleInbound envelope).recipientSigningSecretKey = sampleKeyText := rfl
  unfold signReceipt canonicalBytes
  rw [hvalid, canonicalJson_eq _ hplain, hkey]
  exact ⟨_, rfl⟩

/-- The guard denied nothing, and still the run issues a rejected receipt. -/
theorem rejects_thrown_denial :
    ∃ (inbound : InboundOptions) (before : List Call) (call : Call) (after : List Call),
      (composeInbound sampleEnvelopeCrypto memoryReplayStore.logged throwingOptions inbound
        (fun _ => []) ⟨.empty, []⟩).2.log = before ++ call :: after ∧ IssuesRejected call ∧
      ∀ p, ¬ Denied throwingOptions p before := by
  obtain ⟨envelope, peer, hash, hid, hcheck, hopen⟩ : ∃ envelope peer hash,
      envelope.id = sampleSealing.id ∧
      checkEnvelope sampleEnvelopeCrypto (sampleInbound envelope).opening =
        .ok (envelope, peer, hash) ∧
      openNew sampleEnvelopeCrypto (sampleInbound envelope).opening envelope =
        .ok (normalForm sampleSealing.body) := by
    obtain ⟨envelope, peer, hash, -, -, hid, -, hcheck, hopen⟩ :=
      fits_sample.open sampleEnvelopeCrypto_correct
    exact ⟨envelope, peer, hash, hid, hcheck, hopen⟩
  obtain ⟨hfields, -⟩ := checkEnvelope_eq_ok hcheck
  have hfresh : IsFresh memoryReplayStore.logged ⟨.empty, []⟩ := fun _ _ _ => ⟨_, rfl⟩
  obtain ⟨w, hopened⟩ := openClaimed_eq_new hfresh hcheck hopen
  have hspec : Spec (openClaimed sampleEnvelopeCrypto memoryReplayStore.logged
      (sampleInbound envelope).opening) _ := spec_openClaimed _
  obtain ⟨log, hlog, hlogged⟩ := hspec ⟨.empty, []⟩
  rw [hopened] at hlogged hlog
  obtain ⟨p, hp, hpid, hphash, hptext⟩ := proposeInbound_sample hid hfields
  obtain ⟨receipt, hreceipt⟩ := signReceipt_sample envelope
  rw [← hpid, ← hphash] at hreceipt
  have hallowed : (deterministicChecks (fun _ => []) p.text).allowed = true := by
    rw [hptext]
    decide
  -- The classifier's throw is the last call before the receipt: no call of the log denies.
  cases hlogged with
  | settled r quiet settled notNew => exact absurd rfl (notNew _ _)
  | new body source hash opens hpeer claim =>
    have hstarts : LogStarts (composeInbound sampleEnvelopeCrypto memoryReplayStore.logged
        throwingOptions (sampleInbound envelope) fun _ => []) ⟨.empty, []⟩ _ :=
      logStarts_composeInbound hreceipt hopened hpeer hp hallowed
    obtain ⟨after, hafter⟩ := hstarts
    refine ⟨sampleInbound envelope, w.log ++ .classify (p.request throwingOptions.policyVersion)
      (.error thrownDenial) :: .refresh source.handle p.id (.ok ()) :: [rejectionCall p],
      receiptCall p receipt, after, ?_, ?_, ?_⟩
    · rw [← hafter]
      simp
    · exact .append _ _ _ _ (signReceipt_status (lift_eq_ok.mp hreceipt))
    · intro p' hdenied
      rw [show w.log = _ from hlog.trans claim] at hdenied
      cases hdenied with
      | deterministic findings entry denies call =>
        have hne : ofString "deterministic_verdict" ≠ ofString "inbox_rejected" := by decide
        simp [rejectionCall, hne] at call
      | guard raw payload entry calls recorded deny =>
        have := calls.subset List.mem_cons_self
        simp [rejectionCall] at this
      | review verdict approval call digest refuse => simp [rejectionCall] at call

end Flashclaw.Reef
