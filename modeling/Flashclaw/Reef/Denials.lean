import Flashclaw.Reef.Pipeline

/-!
# Reef: what a classification logs
-/

namespace Flashclaw.Reef

open Utf16 Json Results Traced

variable {σ : Type}

/-- The calls that let a proposal pass, in the order in which they returned. -/
inductive Passed (options : PipelineOptions σ) (p : Proposal) (log : List Call) : Prop
  | allowed (raw : JsValue) (entry : AuditEntry)
      (calls : [.classify (p.request options.policyVersion) (.ok raw),
        .append (ofString "guard_verdict") (p.verdictRecord
          (admitVerdict raw options.pinnedModel options.policyVersion)) (.ok entry)].Sublist log)
      (allow : (admitVerdict raw options.pinnedModel options.policyVersion).decision = .allow)
  | approved (raw raw' : JsValue) (entry entry' entry'' : AuditEntry) (approval : ReviewApproval)
      (calls : [.classify (p.request options.policyVersion) (.ok raw),
        .append (ofString "guard_verdict") (p.verdictRecord
          (admitVerdict raw options.pinnedModel options.policyVersion)) (.ok entry),
        .review (p.reviewRequest (admitVerdict raw options.pinnedModel options.policyVersion))
          (.ok (some approval)),
        .append (ofString "review_approval") p.approvalRecord (.ok entry'),
        .classify (p.request options.policyVersion) (.ok raw'),
        .append (ofString "guard_verdict") (p.afterApprovalRecord
          (admitVerdict raw' options.pinnedModel options.policyVersion)) (.ok entry'')].Sublist log)
      (review : (admitVerdict raw options.pinnedModel options.policyVersion).decision = .review)
      (digest : approval.approvalDigest = p.approvalDigest) (approve : approval.approved = true)
      (later : (admitVerdict raw' options.pinnedModel options.policyVersion).decision ≠ .deny)

/-- The error of a call. -/
def Call.thrown : Call → Option Thrown
  | .classify _ (.error e) => some e
  | .review _ (.error e) => some e
  | .append _ _ (.error e) => some e
  | _ => none

/-- An error that reports a denial. -/
def IsDenial : Thrown → Prop
  | .pipeline .guard _ (some verdict) _ _ _ => verdict.decision = .deny
  | .pipeline .review _ _ _ (some .denied) _ => True
  | _ => False

/-- A denial by the checks, by a verdict that is admitted or by the review gate. -/
inductive Denied (options : PipelineOptions σ) (p : Proposal) (log : List Call) : Prop
  | deterministic (findings : List Utf16) (entry : AuditEntry) (denies : findings ≠ [])
      (call : .append (ofString "deterministic_verdict")
        (denialRecord p.id p.approvalDigest findings) (.ok entry) ∈ log)
  | guard (raw payload : JsValue) (entry : AuditEntry)
      (calls : [.classify (p.request options.policyVersion) (.ok raw),
        .append (ofString "guard_verdict") payload (.ok entry)].Sublist log)
      (recorded : payload = p.verdictRecord
          (admitVerdict raw options.pinnedModel options.policyVersion) ∨
        payload = p.afterApprovalRecord
          (admitVerdict raw options.pinnedModel options.policyVersion))
      (deny : (admitVerdict raw options.pinnedModel options.policyVersion).decision = .deny)
  | review (verdict : Verdict) (approval : ReviewApproval)
      (call : .review (p.reviewRequest verdict) (.ok (some approval)) ∈ log)
      (digest : approval.approvalDigest = p.approvalDigest) (refuse : approval.approved = false)

/-- A call of the guard, of the review gate or of the audit store threw a denial. -/
def ThrewDenial (log : List Call) : Prop := ∃ call ∈ log, ∃ e, call.thrown = some e ∧ IsDenial e

/-- The call that makes a rejected receipt known. -/
inductive IssuesRejected : Call → Prop
  | append (id approvalDigest : Utf16) (receipt : SignedReceipt)
      (result : Except Thrown AuditEntry) (rejected : receipt.status = .rejected) :
      IssuesRejected (.append (ofString "receipt") (receiptRecord id approvalDigest receipt) result)
  | complete (peer id : Utf16) (receipt : SignedReceipt) (body : Option JsValue)
      (result : Except Thrown Unit) (rejected : receipt.status = .rejected) :
      IssuesRejected (.complete peer id receipt body result)

theorem Passed.mono {options : PipelineOptions σ} {p : Proposal} {log log' : List Call}
    (h : Passed options p log) (hlog : log.Sublist log') : Passed options p log' := by
  cases h with
  | allowed raw entry calls allow => exact .allowed raw entry (calls.trans hlog) allow
  | approved raw raw' entry entry' entry'' approval calls review digest approve later =>
    exact .approved raw raw' entry entry' entry'' approval (calls.trans hlog) review digest approve
      later

theorem Denied.mono {options : PipelineOptions σ} {p : Proposal} {log log' : List Call}
    (h : Denied options p log) (hlog : log.Sublist log') : Denied options p log' := by
  cases h with
  | deterministic findings entry denies call =>
    exact .deterministic findings entry denies (hlog.subset call)
  | guard raw payload entry calls recorded deny =>
    exact .guard raw payload entry (calls.trans hlog) recorded deny
  | review verdict approval call digest refuse =>
    exact .review verdict approval (hlog.subset call) digest refuse

theorem ThrewDenial.mono {log log' : List Call} (h : ThrewDenial log) (hlog : log.Sublist log') :
    ThrewDenial log' := by
  obtain ⟨call, hcall, hthrown⟩ := h
  exact ⟨call, hlog.subset hcall, hthrown⟩

/-- Calls before which a denial is due all follow one. -/
def IssuedAfter (denied : List Call → Prop) (log : List Call) : Prop :=
  ∀ before call after, log = before ++ call :: after → IssuesRejected call → denied before

/-- Calls that neither claim nor issue a rejected receipt. -/
def Quiet (log : List Call) : Prop :=
  ∀ call ∈ log, ¬ IssuesRejected call ∧ ∀ peer id hash r, call ≠ .claim peer id hash r

theorem Quiet.append {log log' : List Call} (h : Quiet log) (h' : Quiet log') :
    Quiet (log ++ log') :=
  List.forall_mem_append.mpr ⟨h, h'⟩

theorem quiet_nil : Quiet [] := fun _ h => by cases h

theorem quiet_singleton {call : Call} (hissues : ¬ IssuesRejected call)
    (hclaim : ∀ peer id hash r, call ≠ .claim peer id hash r) : Quiet [call] := by
  intro c hc
  rw [List.mem_singleton.mp hc]
  exact ⟨hissues, hclaim⟩

theorem quiet_classify (request : GuardRequest) (r : Except Thrown JsValue) :
    Quiet [.classify request r] :=
  quiet_singleton (fun h => by cases h) (by simp)

theorem quiet_review (request : ReviewRequest) (r : Except Thrown (Option ReviewApproval)) :
    Quiet [.review request r] :=
  quiet_singleton (fun h => by cases h) (by simp)

theorem quiet_refresh (peer id : Utf16) (r : Except Thrown Unit) : Quiet [.refresh peer id r] :=
  quiet_singleton (fun h => by cases h) (by simp)

theorem quiet_release (peer id : Utf16) (r : Except Thrown Unit) : Quiet [.release peer id r] :=
  quiet_singleton (fun h => by cases h) (by simp)

theorem quiet_completed (peer id : Utf16) (r : Except Thrown (Option CompletedReplay)) :
    Quiet [.completed peer id r] :=
  quiet_singleton (fun h => by cases h) (by simp)

theorem quiet_append {type : Utf16} (h : type ≠ ofString "receipt") (payload : JsValue)
    (r : Except Thrown AuditEntry) : Quiet [.append type payload r] := by
  apply quiet_singleton _ (by simp)
  intro hissues
  generalize hcall : Call.append type payload r = call at hissues
  cases hissues with
  | append id digest receipt result rejected => exact h (Call.append.inj hcall).1
  | complete peer id receipt body result rejected => cases hcall

theorem IssuedAfter.of_none {denied : List Call → Prop} {log : List Call} (h : Quiet log) :
    IssuedAfter denied log := by
  rintro before call after rfl hissues
  exact absurd hissues (h call (by simp)).1

/-- What follows a denial may issue receipts. -/
theorem IssuedAfter.append {denied : List Call → Prop} {log log' : List Call}
    (hmono : ∀ l l', denied l → l.Sublist l' → denied l') (h : Quiet log)
    (hdenied : denied log) : IssuedAfter denied (log ++ log') := by
  intro before call after heq hissues
  obtain ⟨rest, rfl, hrest⟩ | ⟨rest, rfl, hrest⟩ := List.append_eq_append_iff.mp heq
  · exact hmono _ _ hdenied (List.sublist_append_left log rest)
  · cases rest with
    | nil =>
      rw [List.append_nil] at hdenied
      exact hdenied
    | cons c rest =>
      obtain ⟨rfl, -⟩ := List.cons.inj hrest
      exact absurd hissues (h call (by simp)).1

/-- What a classification logs and returns. -/
structure Classified (options : PipelineOptions σ) (p : Proposal) (log : List Call)
    (r : Except Thrown Verdict) : Prop where
  quiet : Quiet log
  passed : ∀ verdict, r = .ok verdict → Passed options p log
  denied : ∀ e, r = .error e → IsDenial e → Denied options p log ∨ ThrewDenial log

/-- A call of the classification that throws ends it. -/
theorem Classified.of_thrown {options : PipelineOptions σ} {p : Proposal} {log : List Call}
    {call : Call} {e : Thrown} (h : Quiet (log ++ [call])) (hthrown : call.thrown = some e) :
    Classified options p (log ++ [call]) (.error e) where
  quiet := h
  passed verdict h := by cases h
  denied e' h hdenial := by
    obtain rfl := Except.error.inj h
    exact .inr ⟨call, by simp, _, hthrown, hdenial⟩

/-- An error that is no denial. -/
theorem Classified.of_error {options : PipelineOptions σ} {p : Proposal} {log : List Call}
    {e : Thrown} (h : Quiet log) (hdenial : ¬ IsDenial e) :
    Classified options p log (.error e) where
  quiet := h
  passed verdict h := by cases h
  denied e' h hdenial' := by
    obtain rfl := Except.error.inj h
    exact absurd hdenial' hdenial

theorem Classified.of_denied {options : PipelineOptions σ} {p : Proposal} {log : List Call}
    {e : Thrown} (h : Quiet log) (hdenied : Denied options p log) :
    Classified options p log (.error e) where
  quiet := h
  passed verdict h := by cases h
  denied _ _ _ := .inl hdenied

theorem Classified.of_passed {options : PipelineOptions σ} {p : Proposal} {log : List Call}
    {verdict : Verdict} (h : Quiet log) (hpassed : Passed options p log) :
    Classified options p log (.ok verdict) where
  quiet := h
  passed _ _ := hpassed
  denied e h := by cases h

theorem spec_call {α : Type} (entry : Except Thrown α → Call) (operation : Run σ α) :
    Spec (Traced.call entry operation) fun log r => log = [entry r] :=
  Spec.call fun _ => rfl

theorem spec_classifyAdmitted (options : PipelineOptions σ) (p : Proposal) :
    Spec (classifyAdmitted options p) fun log r =>
      (∃ raw, log = [.classify (p.request options.policyVersion) (.ok raw)] ∧
        r = .ok (admitVerdict raw options.pinnedModel options.policyVersion)) ∨
      ∃ e, log = [.classify (p.request options.policyVersion) (.error e)] ∧ r = .error e := by
  unfold classifyAdmitted
  apply Spec.bind (spec_call _ _)
  · rintro log raw rfl
    apply Spec.pure
    exact .inl ⟨raw, rfl, rfl⟩
  · rintro log e rfl
    exact .inr ⟨e, rfl, rfl⟩

theorem guard_verdict_ne_receipt : ofString "guard_verdict" ≠ ofString "receipt" := by decide

theorem review_approval_ne_receipt : ofString "review_approval" ≠ ofString "receipt" := by decide

theorem spec_askReview (options : PipelineOptions σ) (request : ReviewRequest) :
    Spec (options.askReview request) fun log r =>
      log = [] ∧ r = .ok none ∨ log = [.review request r] := by
  unfold PipelineOptions.askReview
  cases options.reviewGate with
  | none => exact Spec.pure (.inl ⟨rfl, rfl⟩)
  | some gate => exact Spec.call fun r => .inr rfl

section Review

variable {options : PipelineOptions σ} {p : Proposal} {raw : JsValue} {verdict : Verdict}
  (entry : AuditEntry)

/-- The calls until a verdict is recorded. -/
abbrev verdictCalls (options : PipelineOptions σ) (p : Proposal) (raw payload : JsValue)
    (r : Except Thrown AuditEntry) : List Call :=
  [.classify (p.request options.policyVersion) (.ok raw)] ++
    [.append (ofString "guard_verdict") payload r]

theorem quiet_verdictCalls (options : PipelineOptions σ) (p : Proposal) (raw payload : JsValue)
    (r : Except Thrown AuditEntry) : Quiet (verdictCalls options p raw payload r) :=
  (quiet_classify _ _).append (quiet_append guard_verdict_ne_receipt _ _)

/-- The second classification and its record, after the approval. -/
theorem spec_afterApproval {approval : ReviewApproval} (entry' : AuditEntry)
    (hverdict : verdict = admitVerdict raw options.pinnedModel options.policyVersion)
    (hreview : verdict.decision = .review) (hdigest : approval.approvalDigest = p.approvalDigest)
    (happroved : approval.approved = true) {log : List Call}
    (hlog : log = verdictCalls options p raw (p.verdictRecord verdict) (.ok entry) ++
      ([.review (p.reviewRequest verdict) (.ok (some approval))] ++
        [.append (ofString "review_approval") p.approvalRecord (.ok entry')])) :
    Spec (do
      let verdict ← classifyAdmitted options p
      let _ ← options.appendAudit "guard_verdict" (p.afterApprovalRecord verdict)
      if verdict.decision = .deny then
        throw (.pipeline .guard "guard denied approved message" (some verdict) none none none)
      else return verdict)
      fun log' r => Classified options p (log ++ log') r := by
  have hquiet : Quiet log := by
    rw [hlog]
    exact (quiet_verdictCalls _ _ _ _ _).append
      ((quiet_review _ _).append (quiet_append review_approval_ne_receipt _ _))
  apply Spec.bind (spec_classifyAdmitted options p)
  · rintro log' verdict' (⟨raw', rfl, hverdict'⟩ | ⟨e, -, hverdict'⟩)
    · obtain rfl := Except.ok.inj hverdict'
      have hquiet' := fun r => hquiet.append (quiet_verdictCalls options p raw'
        (p.afterApprovalRecord (admitVerdict raw' options.pinnedModel options.policyVersion)) r)
      apply Spec.bind (spec_call _ _)
      · rintro log'' entry'' rfl
        split_ifs with hdeny
        · apply Spec.throw
          exact .of_denied (hquiet' (.ok entry'')) (.guard raw' _ entry''
            (List.sublist_append_right log _) (.inr rfl) hdeny)
        · apply Spec.pure
          refine .of_passed (hquiet' (.ok entry'')) ?_
          subst hverdict hlog
          exact .approved raw raw' entry entry' entry'' approval (List.Sublist.refl _) hreview
            hdigest happroved hdeny
      · rintro log'' e rfl
        have hthrown := hquiet' (.error e)
        rw [← List.append_assoc] at hthrown ⊢
        exact .of_thrown hthrown rfl
    · cases hverdict'
  · rintro log' e (⟨raw', -, hverdict'⟩ | ⟨e', rfl, hverdict'⟩)
    · cases hverdict'
    · obtain rfl := Except.error.inj hverdict'
      exact .of_thrown (hquiet.append (quiet_classify _ _)) rfl

/-- The rest of a classification whose verdict asks for a review. -/
theorem spec_reviewVerdict
    (hverdict : verdict = admitVerdict raw options.pinnedModel options.policyVersion)
    (hreview : verdict.decision = .review) :
    Spec (reviewVerdict options p verdict) fun log r =>
      Classified options p
        (verdictCalls options p raw (p.verdictRecord verdict) (.ok entry) ++ log) r := by
  have hquiet := quiet_verdictCalls options p raw (p.verdictRecord verdict) (.ok entry)
  have hquietReview := fun r => hquiet.append (quiet_review (p.reviewRequest verdict) r)
  unfold reviewVerdict
  apply Spec.bind (spec_askReview options _)
  · rintro log approval (⟨rfl, happroval⟩ | rfl)
    · obtain rfl := Except.ok.inj happroval
      apply Spec.throw
      exact .of_error (hquiet.append quiet_nil) id
    · cases approval with
      | none =>
        apply Spec.throw
        exact .of_error (hquietReview _) id
      | some approval =>
        simp only
        split_ifs with hdigest happroved
        · apply Spec.throw
          exact .of_error (hquietReview _) id
        · rw [not_not] at hdigest
          apply Spec.bind (spec_call _ _)
          · rintro log entry' rfl
            have hafter := spec_afterApproval entry entry' hverdict hreview
              hdigest happroved rfl
            refine hafter.mono fun log r h => ?_
            simpa using h
          · rintro log e rfl
            have hthrown := (hquietReview (.ok (some approval))).append
              (quiet_append review_approval_ne_receipt p.approvalRecord (.error e))
            rw [← List.append_assoc]
            exact .of_thrown hthrown rfl
        · rw [not_not] at hdigest
          apply Spec.throw
          exact .of_denied (hquietReview _) (.review verdict approval (by simp) hdigest
            (by simpa using happroved))
  · rintro log e (⟨-, happroval⟩ | rfl)
    · cases happroval
    · exact .of_thrown (hquietReview _) rfl

end Review

theorem spec_classifyWithReview (options : PipelineOptions σ) (p : Proposal) :
    Spec (classifyWithReview options p) (Classified options p) := by
  unfold classifyWithReview
  apply Spec.bind (spec_classifyAdmitted options p)
  · rintro log verdict (⟨raw, rfl, hverdict⟩ | ⟨e, -, hverdict⟩)
    · obtain rfl := Except.ok.inj hverdict
      have hquiet := quiet_verdictCalls options p raw
        (p.verdictRecord (admitVerdict raw options.pinnedModel options.policyVersion))
      apply Spec.bind (spec_call _ _)
      · rintro log entry rfl
        cases hdecision :
            (admitVerdict raw options.pinnedModel options.policyVersion).decision with
        | deny =>
          apply Spec.throw
          exact .of_denied (hquiet (.ok entry)) (.guard raw _ entry (List.Sublist.refl _) (.inl rfl)
            hdecision)
        | allow =>
          apply Spec.pure
          exact .of_passed (hquiet (.ok entry)) (.allowed raw entry (List.Sublist.refl _) hdecision)
        | review =>
          have hreviewed := spec_reviewVerdict (p := p) entry rfl hdecision
          refine hreviewed.mono fun log r h => ?_
          simpa using h
      · rintro log e rfl
        exact .of_thrown (hquiet (.error e)) rfl
    · cases hverdict
  · rintro log e (⟨raw, -, hverdict⟩ | ⟨e', rfl, hverdict⟩)
    · cases hverdict
    · obtain rfl := Except.error.inj hverdict
      rw [← List.nil_append [_]]
      exact .of_thrown (quiet_classify _ _) rfl

end Flashclaw.Reef
