import Flashclaw.Reef.Envelope

/-!
# Reef: the guard

`admitVerdict` of `protocol/guard.ts` and the checks of `protocol/checks.ts`.
A verdict is a value that does not change once the guard returned it.  What the
patterns and the entropy of `deterministicChecks` find in a text is a
parameter: the entropy is a sum of floating-point logarithms.
-/

namespace Flashclaw.Reef

open Utf16 Json

inductive GuardDirection where
  | outbound
  | inbound
deriving DecidableEq

def GuardDirection.text : GuardDirection → String
  | outbound => "outbound"
  | inbound => "inbound"

structure GuardRequest where
  direction : GuardDirection
  source : Utf16
  destination : Utf16
  text : Utf16
  policyVersion : Utf16

def Decision.text : Decision → String
  | allow => "allow"
  | deny => "deny"
  | review => "review"

def undatedImmutableModels : List Utf16 :=
  [ofString "gpt-5.6-sol", ofString "gpt-5.6-terra", ofString "gpt-5.6-luna"]

/-- The text ends in the shape, where `d` stands for a digit. -/
def endsIn (shape : String) (text : Utf16) : Bool :=
  let last := text.drop (text.length - shape.length)
  shape.length ≤ text.length &&
    (last.zip shape.toList).all fun (c, s) => if s = 'd' then isDigit c else c = unit s

/-- `PINNED_MODEL`. -/
def isDated (model : Utf16) : Bool := endsIn "-dddddddd" model || endsIn "-dddd-dd-dd" model

/-- `assertPinnedModel` does not throw. -/
def isPinnedModel (model : Utf16) : Bool := isDated model || model ∈ undatedImmutableModels

def verdictKeys : List Utf16 :=
  [ofString "decision", ofString "category", ofString "reason", ofString "model",
    ofString "policyVersion"]

def readDecision (value : JsValue) : Option Decision := do
  let text ← asString value
  if text = ofString "allow" then some .allow
  else if text = ofString "deny" then some .deny
  else if text = ofString "review" then some .review
  else none

/-- The fields of a verdict, where they have their types and lengths. -/
def readVerdict (record : List (Utf16 × JsValue)) : Option Verdict := do
  let category ← asString (field record (ofString "category"))
  let reason ← asString (field record (ofString "reason"))
  let model ← asString (field record (ofString "model"))
  let policyVersion ← asString (field record (ofString "policyVersion"))
  let decision ← readDecision (field record (ofString "decision"))
  if 1 ≤ category.length ∧ category.length ≤ 128 ∧ 1 ≤ reason.length ∧ reason.length ≤ 512 ∧
      1 ≤ policyVersion.length then
    some { decision, category, reason, model, policyVersion }
  else none

def parseVerdict (value : JsValue) : Except JsError Verdict :=
  match value with
  | .object record =>
    if record.length ≠ verdictKeys.length ∨ ¬ verdictKeys.all (· ∈ record.map Prod.fst) then
      .error ⟨"Error", "invalid guard verdict schema"⟩
    else if (readDecision (field record (ofString "decision"))).isNone then
      .error ⟨"Error", "invalid guard decision"⟩
    else (readVerdict record).elim (.error ⟨"Error", "invalid guard verdict fields"⟩) .ok
  | _ => .error ⟨"Error", "invalid guard verdict"⟩

def guardFailure (model policyVersion : Utf16) : Verdict where
  decision := .deny
  category := ofString "guard_failure"
  reason := ofString "Guard unavailable or invalid."
  model := model
  policyVersion := policyVersion

def admitVerdict (raw : JsValue) (pinnedModel policyVersion : Utf16) : Verdict :=
  match parseVerdict raw with
  | .ok verdict =>
    if ¬ isPinnedModel verdict.model then guardFailure pinnedModel policyVersion
    else if verdict.model ≠ pinnedModel ∨ verdict.policyVersion ≠ policyVersion then
      guardFailure pinnedModel policyVersion
    else verdict
  | .error _ => guardFailure pinnedModel policyVersion

/-- The codes of the findings; every finding denies. -/
structure CheckResult where
  allowed : Bool
  findings : List Utf16

/-- The findings of the patterns and of the entropy in a text. -/
abbrev SecretFindings := Utf16 → List Utf16

def deterministicChecks (secretFindings : SecretFindings) (input : Utf16) : CheckResult :=
  match decodeUtf8 (utf8 input) with
  | .ok decoded =>
    if decoded ≠ input then ⟨false, [ofString "invalid_utf8"]⟩
    else if 32 * 1024 < (utf8 input).length then ⟨false, [ofString "too_large"]⟩
    else
      let findings := secretFindings input
      ⟨findings.isEmpty, findings⟩
  | .error _ => ⟨false, [ofString "invalid_utf8"]⟩

end Flashclaw.Reef
