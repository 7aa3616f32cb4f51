import Flashclaw.Lib.JsMap
import Flashclaw.Reef.Envelope

/-!
# Reef: the replay store in memory

`protocol/replay.ts`.
-/

namespace Flashclaw.Reef

open Utf16

inductive ReplayState where
  | available
  | inFlight
  | completed
  | consumed
deriving DecidableEq

structure ReplayRecord where
  envelopeHash : Utf16
  state : ReplayState
  receipt : Option SignedReceipt
  body : Option JsValue

abbrev Bindings := JsMap Utf16 ReplayRecord

def replayKey (peer id : Utf16) : Utf16 := peer ++ unit '\n' :: id

/-- An accepted completion has a body, a rejected one has none. -/
def validateCompletion (receipt : SignedReceipt) (body : Option JsValue) : Except Thrown Unit :=
  if receipt.status = .accepted ↔ body.isSome then .ok ()
  else .error (.error ⟨"Error",
    "accepted replay completion requires body; rejected completion forbids body"⟩)

namespace MemoryReplay

variable (bindings : Bindings) (peer id : Utf16)

def claim (envelopeHash : Utf16) : ReplayClaim × Bindings :=
  let key := replayKey peer id
  match bindings.get? key with
  | none => (.new, bindings.set key ⟨envelopeHash, .inFlight, none, none⟩)
  | some existing =>
    if existing.envelopeHash ≠ envelopeHash then (.mismatch, bindings)
    else if existing.state = .completed ∨ existing.state = .consumed then (.duplicate, bindings)
    else if existing.state = .inFlight then (.inFlight, bindings)
    else (.new, bindings.set key { existing with state := .inFlight })

/-- The record of a claim that is in flight. -/
def inFlight : Except Thrown ReplayRecord :=
  match bindings.get? (replayKey peer id) with
  | some existing =>
    if existing.state = .inFlight then .ok existing
    else .error (.error ⟨"Error", "replay claim is not in flight"⟩)
  | none => .error (.error ⟨"Error", "replay claim is not in flight"⟩)

def complete (receipt : SignedReceipt) (body : Option JsValue) : Except Thrown Bindings := do
  let existing ← inFlight bindings peer id
  if receipt.id ≠ id then
    .error (.error ⟨"Error", "receipt id does not match replay claim"⟩)
  else do
    let _ ← validateCompletion receipt body
    return bindings.set (replayKey peer id)
      { existing with state := .completed, receipt := some receipt, body := body <|> existing.body }

def consume : Except Thrown Bindings := do
  let existing ← inFlight bindings peer id
  return bindings.set (replayKey peer id)
    { existing with state := .consumed, receipt := none, body := none }

def release : Bindings :=
  match bindings.get? (replayKey peer id) with
  | some existing =>
    if existing.state = .inFlight then
      bindings.set (replayKey peer id) { existing with state := .available }
    else bindings
  | none => bindings

def completed : Option CompletedReplay :=
  (bindings.get? (replayKey peer id)).bind fun existing =>
    if existing.state = .completed then existing.receipt.map fun receipt => ⟨receipt, existing.body⟩
    else none

end MemoryReplay

/-- An operation that leaves the bindings as they were where it throws. -/
def replaceBindings (operation : Bindings → Except Thrown Bindings) : Run Bindings Unit :=
  fun bindings =>
    match operation bindings with
    | .ok bindings' => (.ok (), bindings')
    | .error e => (.error e, bindings)

/-- `MemoryReplayStore`. -/
def memoryReplayStore : ReplayStore Bindings where
  claim peer id envelopeHash := fun bindings =>
    let (result, bindings') := MemoryReplay.claim bindings peer id envelopeHash
    (.ok result, bindings')
  refresh _ _ := pure ()
  complete peer id receipt body :=
    replaceBindings fun bindings => MemoryReplay.complete bindings peer id receipt body
  consume peer id := replaceBindings fun bindings => MemoryReplay.consume bindings peer id
  release peer id := fun bindings => (.ok (), MemoryReplay.release bindings peer id)
  completed peer id := fun bindings => (.ok (MemoryReplay.completed bindings peer id), bindings)

/-- Every claim on a store in this state is new. -/
def IsFresh {σ : Type} (store : ReplayStore σ) (state : σ) : Prop :=
  ∀ peer id envelopeHash, ∃ state', store.claim peer id envelopeHash state = (.ok .new, state')

theorem isFresh_memoryReplayStore : IsFresh memoryReplayStore .empty :=
  fun _ _ _ => ⟨_, rfl⟩

end Flashclaw.Reef
