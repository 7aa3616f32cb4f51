import Flashclaw.Transcript.Settled

/-!
# Repaired transcripts are sound

All that `repairToolUseResultPairing` promises, for every transcript and both policies for failed
turns, and when a second repair leaves its output as it is.
-/

namespace Flashclaw.Transcript

open Lists Utf16

/-- A result with an id, of a tool or not, as a turn with these calls sees it. -/
def isAnswer (toolCalls : List ToolCallLike) (id : Utf16) (message : AgentMessage) : Bool :=
  isAnswerFor toolCalls id (message, 0)

section Sound

variable (now : Number) (options : ToolUseResultPairingOptions)

/-- The calls of a turn, each with its result, where some messages follow the turn. -/
structure Answered (assistant : AssistantMessage) (body : List AgentMessage)
    (answers : List (ToolCallLike × Option ToolResultMessage)) : Prop where
  calls : answers.map Prod.fst = extractToolCallsFromAssistant assistant
  own : ∀ answer ∈ answers, ∀ result, answer.2 = some result →
    Answers now options answer.1 result
  missing : ∀ answer ∈ answers, answer.2 = none → isFailed assistant = true ∧
    body.countP (isAnswer (extractToolCallsFromAssistant assistant) answer.1.id) <
      (extractToolCallsFromAssistant assistant).countP fun call => call.id = answer.1.id
  real : ∀ answer ∈ answers,
    ((extractToolCallsFromAssistant assistant).countP fun call => call.id = answer.1.id) ≤
      body.countP (isRealAnswer (extractToolCallsFromAssistant assistant) answer.1.id) →
    ∃ result, answer.2 = some result ∧ isSyntheticMissingToolResult result = false

/-- What the repair makes of a transcript. -/
structure RepairSound (messages : List AgentMessage) (report : ToolUseRepairReport) : Prop where
  paired : Paired now options report.messages
  others : report.messages.filter AgentMessage.isPlain =
    messages.filter fun message => message.isPlain && !isDroppedTurn options message
  sources : ∃ out : List OutMessage, report.messages = out.map OutMessage.message ∧
    (∀ entry ∈ out, entry.From now options messages) ∧ (out.filterMap OutMessage.source).Nodup ∧
      (out.filter fun entry => entry.source.isNone).map OutMessage.message =
        report.added.map AgentMessage.toolResult
  turns : ∀ before assistant body after,
    messages = before ++ .assistant assistant :: (body ++ after) →
      extractToolCallsFromAssistant assistant ≠ [] → (∀ message ∈ body, toolCallsOf message = []) →
        (isFailed assistant && options.dropErroredAssistantResults) = false →
          ∃ front answers rest,
            report.messages = front ++ .assistant assistant ::
              ((answers.filterMap Prod.snd).map AgentMessage.toolResult ++ rest) ∧
              (front.filter AgentMessage.isPlain = before.filter fun message =>
                message.isPlain && !isDroppedTurn options message) ∧
              (rest.filter AgentMessage.isPlain = (body ++ after).filter fun message =>
                message.isPlain && !isDroppedTurn options message) ∧
              Answered now options assistant body answers
  again : ∀ now', repairToolUseResultPairing now' options report.messages =
      ⟨report.messages, [], 0, 0, false⟩ ↔ ∀ result ∈ report.added, result.ReadsBack

theorem isAnswerFor_eq (toolCalls : List ToolCallLike) (id : Utf16) :
    isAnswerFor toolCalls id = isAnswer toolCalls id ∘ Prod.fst := by
  funext entry
  obtain ⟨message, index⟩ := entry
  cases message with
  | toolResult message =>
    show decide (extractToolResultId (legacyResult toolCalls message index).message = some id) =
      decide (extractToolResultId (legacyResult toolCalls message 0).message = some id)
    rw [message_legacyResult]
  | _ => rfl

/-- The calls of a frame are answered by what was read and what was made up. -/
theorem answered_answerOf {span : FrameSpan} {frame : ToolUseFrame} (h : Repaired span frame)
    {body : List AgentMessage} (hbody : ∀ p, body.countP p ≤ span.body.countP (p ∘ Prod.fst)) :
    Answered now options span.assistant body
      (frame.occurrences.map (answerOf now options (isFailed span.assistant))) := by
  have hcount : ∀ id, callCount frame.occurrences id =
      (extractToolCallsFromAssistant span.assistant).countP fun call => call.id = id := by
    intro id
    rw [← h.calls, List.countP_map]
    rfl
  refine ⟨?_, ?_, ?_, ?_⟩
  · rw [List.map_map, ← h.calls]
    rfl
  · intro answer hmem result hresult
    obtain ⟨occurrence, hoccurrence, rfl⟩ := List.mem_map.mp hmem
    rw [answerOf] at hresult ⊢
    cases hpresent : occurrence.result with
    | some present =>
      rw [hpresent] at hresult
      obtain rfl := Option.some.inj hresult
      exact .inl (h.owned occurrence hoccurrence present hpresent).1
    | none =>
      rw [hpresent] at hresult
      cases hfailed : isFailed span.assistant with
      | true =>
        rw [hfailed] at hresult
        cases hresult
      | false =>
        rw [hfailed] at hresult
        obtain rfl := Option.some.inj hresult
        exact .inr rfl
  · intro answer hmem hnone
    obtain ⟨occurrence, hoccurrence, rfl⟩ := List.mem_map.mp hmem
    have hunfilled : occurrence.isUnfilled = true ∧ isFailed span.assistant = true := by
      rw [answerOf] at hnone
      rw [ToolCallOccurrence.isUnfilled]
      cases hpresent : occurrence.result with
      | some present =>
        rw [hpresent] at hnone
        cases hnone
      | none =>
        rw [hpresent] at hnone
        cases hfailed : isFailed span.assistant with
        | true => exact ⟨rfl, rfl⟩
        | false =>
          rw [hfailed] at hnone
          cases hnone
    refine ⟨hunfilled.2, ?_⟩
    show body.countP (isAnswer _ occurrence.id) <
      (extractToolCallsFromAssistant span.assistant).countP fun call => call.id = occurrence.id
    -- An unfilled place leaves its id with more calls than answers.
    have hlt : answeredCount frame.occurrences occurrence.id <
        callCount frame.occurrences occurrence.id := by
      by_contra hle
      have hfilled := of_callCount_le (Nat.le_of_not_lt hle) occurrence hoccurrence rfl
      rw [hunfilled.1] at hfilled
      cases hfilled
    have hanswered := h.answered occurrence.id
    have hread := hbody (isAnswer (extractToolCallsFromAssistant span.assistant) occurrence.id)
    rw [← isAnswerFor_eq] at hread
    rw [← hcount]
    omega
  · intro answer hmem henough
    obtain ⟨occurrence, hoccurrence, rfl⟩ := List.mem_map.mp hmem
    have henough : callCount frame.occurrences occurrence.id ≤
        body.countP (isRealAnswer (extractToolCallsFromAssistant span.assistant) occurrence.id) :=
      (hcount occurrence.id).le.trans henough
    have hread := hbody (isRealAnswer (extractToolCallsFromAssistant span.assistant) occurrence.id)
    rw [← isRealFor_eq] at hread
    have hreal := h.real occurrence.id
    -- As many real answers as calls: each place of the id took one.
    have hisReal := of_callCount_le (p := ToolCallOccurrence.isReal)
      (show callCount frame.occurrences occurrence.id ≤ realCount frame.occurrences occurrence.id by omega)
      occurrence hoccurrence rfl
    obtain ⟨result, hpresent, hsynthetic⟩ := (Option.any_eq_true _ _).mp hisReal
    refine ⟨result.message, ?_, (Bool.not_eq_true' _).mp hsynthetic⟩
    rw [answerOf, hpresent]

/-- What is written for a call of a turn that did not fail. -/
def writtenFor (occurrence : ToolCallOccurrence) : ToolResultMessage :=
  match occurrence.result with
  | some result => result.message
  | none => missingResult now options occurrence

theorem results_writtenFor (occurrences : List ToolCallOccurrence) :
    (occurrences.filterMap (resultMessage now options false)).map OutMessage.message =
      occurrences.map fun occurrence => .toolResult (writtenFor now options occurrence) := by
  induction occurrences with
  | nil => rfl
  | cons occurrence occurrences ih =>
    rw [List.filterMap_cons, List.map_cons, resultMessage, writtenFor, ← ih]
    cases occurrence.result <;> rfl

/-- A result that a call keeps as it is, with what a made up one says, is read as it is. -/
theorem readsBack_of_isOwn {result : Sourced} {occurrence : ToolCallOccurrence}
    (hmessage : result.message = missingResult now options occurrence)
    (hid : extractToolResultId result.message = some occurrence.id)
    (hname : normalizeToolResultName result occurrence.name = result) :
    (missingResult now options occurrence).ReadsBack := by
  have hnone : normalizeOptionalString none = none := rfl
  refine ⟨?_, ?_⟩
  · show normalizeOptionalString (some occurrence.id) = some occurrence.id
    rw [hmessage, extractToolResultId, extractToolResultIds, missingResult,
      makeMissingToolResult] at hid
    simp only [List.foldl_cons, List.foldl_nil, hnone] at hid
    cases hread : normalizeOptionalString (some occurrence.id) with
    | none =>
      rw [hread] at hid
      cases hid
    | some id =>
      rw [hread] at hid
      exact congrArg some (Option.some.inj hid)
  · have htool : result.message.toolName = some (occurrence.name.getD UNKNOWN_TOOL) := by
      rw [hmessage]
      rfl
    have hrenamed : ∀ toolName, result.withName toolName = result →
        some toolName = some (occurrence.name.getD UNKNOWN_TOOL) := fun toolName heq =>
      (congrArg (fun r : Sourced => r.message.toolName) heq).trans htool
    show normalizeOptionalString (some (occurrence.name.getD UNKNOWN_TOOL)) =
      some (occurrence.name.getD UNKNOWN_TOOL)
    rw [normalizeToolResultName, htool] at hname
    cases hread : normalizeOptionalString (some (occurrence.name.getD UNKNOWN_TOOL)) with
    | some toolName =>
      rw [hread] at hname
      dsimp only at hname
      split_ifs at hname with hsame
      · exact hsame.symm
      · exact hrenamed toolName hname
    | none =>
      -- a blank name: the call has no other one, and the result would be renamed
      rw [hread] at hname
      cases hcall : occurrence.name with
      | none =>
        rw [hcall] at hread
        exact absurd hread (by decide)
      | some name =>
        rw [hcall] at hread hname
        have hblank : normalizeOptionalString (some name) = none := hread
        rw [hblank] at hname
        have hunknown := hrenamed UNKNOWN_TOOL hname
        rw [hcall] at hunknown
        rw [← hunknown] at hread
        exact absurd hread (by decide)

/-- A made up result is for a call of a turn that did not fail, and is written behind this turn. -/
structure MadeFor (messages : List AgentMessage) (result : ToolResultMessage)
    (front : List AgentMessage) (assistant : AssistantMessage)
    (occurrences : List ToolCallOccurrence) (rest : List AgentMessage) : Prop where
  called : extractToolCallsFromAssistant assistant ≠ []
  failed : isFailed assistant = false
  calls : occurrences.map ToolCallOccurrence.call = extractToolCallsFromAssistant assistant
  made : ∃ occurrence ∈ occurrences, occurrence.result = none ∧
    result = missingResult now options occurrence
  written : (repairToolUseResultPairing now options messages).messages =
    front ++ .assistant assistant ::
      (occurrences.map (fun occurrence => .toolResult (writtenFor now options occurrence)) ++ rest)

theorem exists_madeFor {messages : List AgentMessage} {result : ToolResultMessage}
    (h : result ∈ (repairToolUseResultPairing now options messages).added) :
    ∃ front assistant occurrences rest,
      MadeFor now options messages result front assistant occurrences rest := by
  obtain ⟨frame, hframe, hadded⟩ := List.mem_flatMap.mp h
  have hframe : frame ∈ (recoveredFrames (splitFrames messages.zipIdx).2).1 := hframe
  obtain ⟨span, hspan, hrepaired⟩ := exists_repaired hframe
  obtain ⟨frames, frames', hframes⟩ := List.append_of_mem hframe
  rw [ToolUseFrame.added] at hadded
  split_ifs at hadded with hfailed
  · cases hadded
  · rw [Bool.not_eq_true] at hfailed
    obtain ⟨occurrence, hoccurrence, rfl⟩ := List.mem_map.mp hadded
    obtain ⟨hoccurrence, hnone⟩ := List.mem_filter.mp hoccurrence
    have hdropped : frame.isDropped options = false := by
      rw [ToolUseFrame.isDropped, hfailed]
      rfl
    refine ⟨(unframedMessages (splitFrames messages.zipIdx).1 ++
        frames.flatMap (ToolUseFrame.output now options)).map OutMessage.message,
      span.assistant, frame.occurrences, (frame.remainder.map OutMessage.kept ++
        frames'.flatMap (ToolUseFrame.output now options)).map OutMessage.message,
      ⟨((splitFrames_wellFormed messages.zipIdx).2 span hspan).calls,
        hrepaired.failed.symm.trans hfailed, hrepaired.calls,
        ⟨occurrence, hoccurrence, Option.isNone_iff_eq_none.mp hnone, rfl⟩, ?_⟩⟩
    rw [messages_repair, repairOutput_eq, hframes, List.flatMap_append, List.flatMap_cons,
      ToolUseFrame.output, hdropped, if_neg Bool.false_ne_true, hfailed, hrepaired.assistant,
      ← results_writtenFor]
    simp only [List.map_append, List.map_cons, List.append_assoc, List.cons_append]

/-- No message of a repaired transcript would be dropped by a second repair. -/
theorem not_isDroppedTurn_repair {messages : List AgentMessage} {message : AgentMessage}
    (hmem : message ∈ (repairToolUseResultPairing now options messages).messages)
    (hplain : message.isPlain = true) : isDroppedTurn options message = false := by
  have hin := List.mem_filter.mpr ⟨hmem, hplain⟩
  rw [filter_isPlain_repair] at hin
  have hnot := ((Bool.and_eq_true _ _).mp (List.mem_filter.mp hin).2).2
  rwa [Bool.not_eq_true'] at hnot

/-- Where a second repair changes nothing, each made up result is read as it is. -/
theorem readsBack_of_again {now' : Number} {messages : List AgentMessage}
    (h : repairToolUseResultPairing now' options
        (repairToolUseResultPairing now options messages).messages =
      ⟨(repairToolUseResultPairing now options messages).messages, [], 0, 0, false⟩) :
    ∀ result ∈ (repairToolUseResultPairing now options messages).added, result.ReadsBack := by
  intro result hresult
  obtain ⟨front, assistant, occurrences, rest, hmade⟩ := exists_madeFor now options hresult
  obtain ⟨occurrence, hoccurrence, hunanswered, rfl⟩ := hmade.made
  have hwritten := hmade.written
  have hsame := congrArg ToolUseRepairReport.messages h
  have hnone := congrArg ToolUseRepairReport.added h
  have hkept := @not_isDroppedTurn_repair now options messages
  generalize (repairToolUseResultPairing now options messages).messages = repaired at *
  subst hwritten
  -- the turn with its results after the second repair
  obtain ⟨front', frame', rest', hwritten', hfront', -, hframe', hrepaired'⟩ :=
    exists_written_frame now' options front (occurrences.map
      (fun occurrence => .toolResult (writtenFor now options occurrence)) ++ rest)
      assistant hmade.called (by rw [hmade.failed]; rfl)
  rw [hsame, hmade.failed, results_writtenFor] at hwritten'
  have hlength : (front.filter AgentMessage.isPlain).length =
      (front'.filter AgentMessage.isPlain).length := by
    rw [hfront']
    apply congrArg List.length
    apply List.filter_congr
    intro message hmem
    cases hplain : message.isPlain with
    | false => rfl
    | true =>
      rw [hkept (List.mem_append_left _ hmem) hplain]
      rfl
  obtain ⟨-, htail⟩ := append_cons_inj_of_filter rfl hwritten' hlength
  have hcalls : occurrences.map ToolCallOccurrence.call =
      frame'.occurrences.map ToolCallOccurrence.call := hmade.calls.trans hrepaired'.calls.symm
  have hcount := congrArg List.length hcalls
  rw [List.length_map, List.length_map] at hcount
  obtain ⟨hresults, -⟩ := List.append_inj htail (by rw [List.length_map, List.length_map, hcount])
  -- after the second repair the call has the same result, which was not made up again
  obtain ⟨place, hget⟩ := List.mem_iff_getElem?.mp hoccurrence
  have hcallAt := congrArg (fun calls => calls[place]?) hcalls
  have hresultAt := congrArg (fun results => results[place]?) hresults
  simp only [List.getElem?_map, hget, Option.map_some] at hcallAt hresultAt
  obtain ⟨occurrence', hget', hcall⟩ := Option.map_eq_some_iff.mp hcallAt.symm
  rw [hget', Option.map_some, Option.some.injEq] at hresultAt
  injection hresultAt with hmessage
  have hmem' := List.mem_of_getElem? hget'
  cases hpresent : occurrence'.result with
  | none =>
    have hadded : missingResult now' options occurrence' ∈ (repairToolUseResultPairing now' options
        (front ++ .assistant assistant :: (occurrences.map
          (fun occurrence => .toolResult (writtenFor now options occurrence)) ++ rest))).added := by
      refine List.mem_flatMap.mpr ⟨frame', hframe', ?_⟩
      rw [ToolUseFrame.added, hrepaired'.failed, hmade.failed, if_neg Bool.false_ne_true]
      refine List.mem_map_of_mem (List.mem_filter.mpr ⟨hmem', ?_⟩)
      rw [hpresent]
      rfl
    rw [hnone] at hadded
    cases hadded
  | some present =>
    obtain ⟨hid, hname⟩ := hrepaired'.owned occurrence' hmem' present hpresent
    rw [show occurrence'.id = occurrence.id from congrArg ToolCallLike.id hcall] at hid
    rw [show occurrence'.name = occurrence.name from congrArg ToolCallLike.name hcall] at hname
    apply readsBack_of_isOwn now options ?_ hid hname
    rw [writtenFor, writtenFor, hpresent, hunanswered] at hmessage
    exact hmessage.symm

/-- Every call gets a result of its own, no result is lost that can be placed, and the rest of the
transcript stays as it is.  A second repair finds nothing to do just where it reads what was made up
as it is. -/
theorem repairToolUseResultPairing_sound (messages : List AgentMessage) :
    RepairSound now options messages (repairToolUseResultPairing now options messages) := by
  refine ⟨?_, filter_isPlain_repair now options messages, ?_, ?_, fun now' => ?_⟩
  · rw [messages_repair]
    exact paired_repairOutput now options messages
  · exact ⟨repairOutput now options messages, messages_repair now options messages,
      fun _ => from_of_mem_repairOutput now options, nodup_sources_repairOutput now options messages,
      map_filter_repairOutput now options messages⟩
  · rintro before assistant body after rfl hcalls hbody hkept
    obtain ⟨front, frame, rest, hwritten, hfront, hrest, -, hframe⟩ :=
      exists_written_frame now options before (body ++ after) assistant hcalls hkept
    rw [← results_answerOf] at hwritten
    exact ⟨front, _, rest, hwritten, hfront, hrest, answered_answerOf now options hframe fun p =>
      countP_le_body hbody after (before.length + 1) p⟩
  · exact ⟨readsBack_of_again now options, repair_again now options now' messages⟩

end Sound

/-- A turn with a call whose id has white space around it. -/
def untrimmedTurn : AssistantMessage :=
  ⟨some [⟨some (ofString "toolCall"), some (ofString " a "), some (ofString "read"), .object []⟩],
    none, .null⟩

def firstRepair : Number := .finite (.ofNat 1 (by decide))

def secondRepair : Number := .finite (.ofNat 2 (by decide))

/-- The time at which a result was made up. -/
def madeAt : AgentMessage → Option Number
  | .toolResult message =>
    match message.rest with
    | .object [(_, .number now)] => some now
    | _ => none
  | _ => none

/-- The result that was made up has the id of the call, but is read with another one: the second
repair drops it and makes up one of its own. -/
theorem repair_again_untrimmed :
    (repairToolUseResultPairing secondRepair ⟨false, none⟩
      (repairToolUseResultPairing firstRepair ⟨false, none⟩ [.assistant untrimmedTurn]).messages).messages ≠
        (repairToolUseResultPairing firstRepair ⟨false, none⟩ [.assistant untrimmedTurn]).messages := by
  intro h
  have hfirst : (repairToolUseResultPairing firstRepair ⟨false, none⟩
      [.assistant untrimmedTurn]).messages.filterMap madeAt = [firstRepair] := by decide +kernel
  have hsecond : (repairToolUseResultPairing secondRepair ⟨false, none⟩
      (repairToolUseResultPairing firstRepair ⟨false, none⟩
        [.assistant untrimmedTurn]).messages).messages.filterMap madeAt = [secondRepair] := by
    decide +kernel
  rw [h, hfirst] at hsecond
  exact absurd hsecond (by decide)

end Flashclaw.Transcript
