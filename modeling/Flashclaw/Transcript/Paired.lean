import Flashclaw.Transcript.Frames

/-!
# Repaired transcripts are paired

What `repairToolUseResultPairing` gives: behind each turn with calls stand the results of its calls,
in their order, and nowhere else is there a result.  No result is used twice, and none is lost that
is not counted.
-/

namespace Flashclaw.Transcript

open Lists Utf16

section Output

variable (now : Number) (options : ToolUseResultPairingOptions) (messages : List AgentMessage)

/-- A message, a copy of a result with its content, or a result that is made up. -/
inductive OutMessage.From : OutMessage → Prop
  | same (message : AgentMessage) (place : ℕ) (h : messages[place]? = some message) :
    From ⟨message, some place, false⟩
  | copy (original result : ToolResultMessage) (place : ℕ)
    (h : messages[place]? = some (.toolResult original))
    (hcontent : SameContent (messages.flatMap toolCallsOf) original result) :
    From ⟨.toolResult result, some place, true⟩
  | made (call : ToolCallLike) (message : AgentMessage) (place : ℕ)
    (h : messages[place]? = some message) (hcall : call ∈ toolCallsOf message) :
    From ⟨.toolResult (makeMissingToolResult now call options.missingToolResultText), none, true⟩

variable {messages}

theorem from_kept {entry : AgentMessage × ℕ} (h : entry ∈ messages.zipIdx) :
    (OutMessage.kept entry).From now options messages :=
  .same entry.1 entry.2 (List.mk_mem_zipIdx_iff_getElem?.mp h)

theorem from_resultMessage {failed : Bool} {occurrence : ToolCallOccurrence} {entry : OutMessage}
    {message : AgentMessage} {place : ℕ} (hmessage : messages[place]? = some message)
    (hcall : occurrence.call ∈ toolCallsOf message) (hfrom : occurrence.IsFrom
      (messages.flatMap toolCallsOf) messages.zipIdx)
    (h : resultMessage now options failed occurrence = some entry) :
    entry.From now options messages := by
  rw [resultMessage] at h
  cases hresult : occurrence.result with
  | none =>
    rw [hresult] at h
    cases failed with
    | true => cases h
    | false =>
      obtain rfl := Option.some.inj h
      exact .made occurrence.call message place hmessage hcall
  | some result =>
    rw [hresult] at h
    obtain rfl := Option.some.inj h
    obtain ⟨original, hmem, hcontent, hsame⟩ := hfrom result hresult
    have hget := List.mk_mem_zipIdx_iff_getElem?.mp hmem
    cases hcopied : result.copied with
    | true => exact .copy original result.message result.source hget hcontent
    | false =>
      rw [hsame hcopied]
      exact .same _ result.source hget

theorem repairOutput_eq (messages : List AgentMessage) : repairOutput now options messages =
    unframedMessages (splitFrames messages.zipIdx).1 ++
      (recoveredFrames (splitFrames messages.zipIdx).2).1.flatMap
        (ToolUseFrame.output now options) := rfl

theorem unframedMessages_eq (entries : List (AgentMessage × ℕ)) :
    unframedMessages entries =
      (entries.filter fun entry => entry.1.isPlain).map OutMessage.kept := by
  induction entries with
  | nil => rfl
  | cons entry entries ih =>
    obtain ⟨message, index⟩ := entry
    rw [unframedMessages] at ih ⊢
    cases message with
    | assistant assistant => exact congrArg (_ :: ·) ih
    | other message => exact congrArg (_ :: ·) ih
    | _ => exact ih

theorem entries_subset {span : FrameSpan} {entries : List (AgentMessage × ℕ)}
    (h : span ∈ (splitFrames entries).2) : span.entries ⊆ entries := by
  intro entry hmem
  rw [← splitFrames_entries entries]
  exact List.mem_append_right _ (List.mem_flatMap.mpr ⟨span, h, hmem⟩)

theorem isFrom_recoveredFrames {spans : List FrameSpan} {entries : List (AgentMessage × ℕ)}
    (h : ∀ span ∈ spans, span.entries ⊆ entries) :
    ∀ frame ∈ (recoveredFrames spans).1, ∀ occurrence ∈ frame.occurrences,
      occurrence.IsFrom ((entries.map Prod.fst).flatMap toolCallsOf) entries := by
  have hcalls : ∀ span ∈ spans, extractToolCallsFromAssistant span.assistant ⊆
      (entries.map Prod.fst).flatMap toolCallsOf := by
    intro span hspan call hcall
    have hentry := h span hspan List.mem_cons_self
    exact List.mem_flatMap.mpr ⟨_, List.mem_map_of_mem hentry, hcall⟩
  intro frame hframe occurrence hoccurrence
  refine (recovered_recoveredFrames spans).isFrom _ entries ?_ ?_ occurrence ?_
  · intro before hbefore result hresult
    obtain ⟨built, hbuilt, hmem⟩ := List.mem_flatMap.mp hbefore
    obtain ⟨span, hspan, rfl⟩ := List.mem_map.mp hbuilt
    exact ((frameRead_readAll span).isFrom before hmem result hresult).mono (hcalls span hspan)
      fun _ hentry => h span hspan (List.mem_cons_of_mem _ hentry)
  · intro record hrecord
    obtain ⟨built, hbuilt, hmem⟩ := List.mem_flatMap.mp hrecord
    obtain ⟨span, hspan, rfl⟩ := List.mem_map.mp hbuilt
    exact ((frameRead_readAll span).recordFrom record hmem).mono (hcalls span hspan)
      fun _ hentry => h span hspan (List.mem_cons_of_mem _ hentry)
  · rw [← flatMap_recoveredFrames]
    exact List.mem_flatMap.mpr ⟨frame, hframe, hoccurrence⟩

theorem from_output {span : FrameSpan} {frame : ToolUseFrame} (h : Repaired span frame)
    (hspan : span.entries ⊆ messages.zipIdx)
    (hfrom : ∀ occurrence ∈ frame.occurrences, occurrence.IsFrom (messages.flatMap toolCallsOf)
      messages.zipIdx) :
    ∀ entry ∈ frame.output now options, entry.From now options messages := by
  have hturn := List.mk_mem_zipIdx_iff_getElem?.mp (hspan List.mem_cons_self)
  intro entry hmem
  rw [ToolUseFrame.output] at hmem
  rcases List.mem_append.mp hmem with hmem | hmem
  · split_ifs at hmem
    · cases hmem
    · rcases List.mem_cons.mp hmem with rfl | hmem
      · rw [h.assistant, h.startIndex]
        exact .same _ _ hturn
      · obtain ⟨occurrence, hoccurrence, hresult⟩ := List.mem_filterMap.mp hmem
        have hcall : occurrence.call ∈ extractToolCallsFromAssistant span.assistant := by
          rw [← h.calls]
          exact List.mem_map_of_mem hoccurrence
        exact from_resultMessage now options hturn hcall (hfrom occurrence hoccurrence) hresult
  · obtain ⟨plain, hplain, rfl⟩ := List.mem_map.mp hmem
    rw [h.remainder] at hplain
    exact from_kept now options (hspan (List.mem_cons_of_mem _ (List.mem_filter.mp hplain).1))

theorem from_of_mem_repairOutput {entry : OutMessage} (h : entry ∈ repairOutput now options messages) :
    entry.From now options messages := by
  rw [repairOutput_eq] at h
  rcases List.mem_append.mp h with h | h
  · rw [unframedMessages_eq] at h
    obtain ⟨plain, hplain, rfl⟩ := List.mem_map.mp h
    apply from_kept
    rw [← splitFrames_entries messages.zipIdx]
    exact List.mem_append_left _ (List.mem_filter.mp hplain).1
  · obtain ⟨frame, hframe, hentry⟩ := List.mem_flatMap.mp h
    obtain ⟨span, hspan, hrepaired⟩ := exists_repaired hframe
    have hfrom := isFrom_recoveredFrames (fun _ => entries_subset) frame hframe
    rw [List.zipIdx_map_fst] at hfrom
    exact from_output now options hrepaired (entries_subset hspan) hfrom entry hentry

/-- Where nothing changed, the messages are what would be written. -/
theorem messages_repair (messages : List AgentMessage) :
    (repairToolUseResultPairing now options messages).messages =
      (repairOutput now options messages).map OutMessage.message := by
  show (if isChanged messages (repairOutput now options messages) then _ else messages) = _
  split_ifs with hchanged
  · rfl
  · rw [Bool.not_eq_true, isChanged, Bool.or_eq_false_iff] at hchanged
    obtain ⟨hlength, hany⟩ := hchanged
    have hlength : (repairOutput now options messages).length = messages.length :=
      of_not_not (of_decide_eq_false hlength)
    apply List.ext_getElem (by rw [List.length_map, hlength])
    intro place hlt hlt'
    rw [List.getElem_map]
    have hlt' : place < (repairOutput now options messages).length := by omega
    have hmem := List.getElem_mem hlt'
    have hplace := List.any_eq_false.mp hany ((repairOutput now options messages)[place], place)
      (List.mk_mem_zipIdx_iff_getElem?.mpr (List.getElem?_eq_getElem hlt'))
    rw [Bool.not_eq_true, Bool.or_eq_false_iff] at hplace
    obtain ⟨hcopied, hsource⟩ := hplace
    have hsource := of_not_not (of_decide_eq_false hsource)
    generalize (repairOutput now options messages)[place] = entry at hmem hcopied hsource
    cases from_of_mem_repairOutput now options hmem with
    | same message source hget =>
      obtain rfl := Option.some.inj hsource
      exact (List.getElem?_eq_some_iff.mp hget).2
    | copy => cases hcopied
    | made => cases hcopied

/-- A result with the id of a call, or one that is made up for it. -/
def Answers (call : ToolCallLike) (result : ToolResultMessage) : Prop :=
  extractToolResultId result = some call.id ∨
    result = makeMissingToolResult now call options.missingToolResultText

/-- The results of calls in their order.  Those of a failed turn may lack some. -/
inductive AllAnswered (failed : Bool) : List ToolCallLike → List ToolResultMessage → Prop
  | nil : AllAnswered failed [] []
  | answered (call : ToolCallLike) (result : ToolResultMessage) (calls : List ToolCallLike)
    (results : List ToolResultMessage) (hresult : Answers now options call result)
    (h : AllAnswered failed calls results) : AllAnswered failed (call :: calls) (result :: results)
  | skipped (call : ToolCallLike) (calls : List ToolCallLike) (results : List ToolResultMessage)
    (hfailed : failed = true) (h : AllAnswered failed calls results) :
    AllAnswered failed (call :: calls) results

/-- Results stand only behind the turn with their calls. -/
inductive Paired : List AgentMessage → Prop
  | nil : Paired []
  | plain (message : AgentMessage) (messages : List AgentMessage) (hplain : message.isPlain = true)
    (hcalls : toolCallsOf message = []) (h : Paired messages) : Paired (message :: messages)
  | turn (assistant : AssistantMessage) (results : List ToolResultMessage)
    (messages : List AgentMessage) (hcalls : extractToolCallsFromAssistant assistant ≠ [])
    (hkept : (isFailed assistant && options.dropErroredAssistantResults) = false)
    (hresults : AllAnswered now options (isFailed assistant)
      (extractToolCallsFromAssistant assistant) results)
    (h : Paired messages) :
    Paired (.assistant assistant :: (results.map AgentMessage.toolResult ++ messages))

/-- A failed turn with calls, where such turns are dropped. -/
def isDroppedTurn : AgentMessage → Bool
  | .assistant assistant =>
    !(extractToolCallsFromAssistant assistant).isEmpty && isFailed assistant &&
      options.dropErroredAssistantResults
  | _ => false

theorem paired_plain {plain rest : List AgentMessage}
    (hplain : ∀ message ∈ plain, message.isPlain = true ∧ toolCallsOf message = [])
    (h : Paired now options rest) : Paired now options (plain ++ rest) := by
  induction plain with
  | nil => exact h
  | cons message plain ih =>
    obtain ⟨⟨hmessage, hcalls⟩, hplain⟩ := List.forall_mem_cons.mp hplain
    exact .plain message _ hmessage hcalls (ih hplain)

/-- A result of a tool with an id. -/
def isRealResult (id : Utf16) (result : ToolResultMessage) : Bool :=
  extractToolResultId result = some id && !isSyntheticMissingToolResult result

theorem allAnswered_results {occurrences : List ToolCallOccurrence} (failed : Bool)
    (h : Owned occurrences) : ∃ results : List ToolResultMessage,
      (occurrences.filterMap (resultMessage now options failed)).map OutMessage.message =
        results.map AgentMessage.toolResult ∧
      AllAnswered now options failed (occurrences.map ToolCallOccurrence.call) results ∧
      ∀ id, realCount occurrences id ≤ results.countP (isRealResult id) := by
  induction occurrences with
  | nil => exact ⟨[], rfl, .nil, fun _ => Nat.le_refl _⟩
  | cons occurrence occurrences ih =>
    obtain ⟨hfirst, hrest⟩ := List.forall_mem_cons.mp h
    obtain ⟨results, hmap, hanswered, hreal⟩ := ih hrest
    have hcount : ∀ id, realCount (occurrence :: occurrences) id =
        realCount occurrences id + if (occurrence.id = id && occurrence.isReal) = true then 1 else 0 :=
      fun _ => List.countP_cons
    rw [List.filterMap_cons, resultMessage]
    cases hresult : occurrence.result with
    | some result =>
      have hid := (hfirst result hresult).1
      refine ⟨result.message :: results, congrArg (_ :: ·) hmap,
        .answered _ _ _ _ (.inl hid) hanswered, fun id => ?_⟩
      have hsame : (occurrence.id = id && occurrence.isReal) = isRealResult id result.message := by
        rw [isRealResult, hid, ToolCallOccurrence.isReal, hresult, Option.any_some]
        simp only [Option.some.injEq]
      rw [hcount, List.countP_cons, hsame]
      exact Nat.add_le_add_right (hreal id) _
    | none =>
      have hnone : ∀ id, realCount (occurrence :: occurrences) id = realCount occurrences id := by
        intro id
        rw [hcount, ToolCallOccurrence.isReal, hresult, Option.any_none, Bool.and_false]
        rfl
      cases failed with
      | true => exact ⟨results, hmap, .skipped _ _ _ rfl hanswered, fun id => (hnone id).symm ▸ hreal id⟩
      | false =>
        refine ⟨missingResult now options occurrence :: results, congrArg (_ :: ·) hmap,
          .answered _ _ _ _ (.inr rfl) hanswered, fun id => ?_⟩
        rw [hnone, List.countP_cons]
        exact (hreal id).trans (Nat.le_add_right _ _)

theorem map_message_kept (entries : List (AgentMessage × ℕ)) :
    (entries.map OutMessage.kept).map OutMessage.message = entries.map Prod.fst := by
  rw [List.map_map]
  rfl

theorem paired_output {span : FrameSpan} {frame : ToolUseFrame} {rest : List AgentMessage}
    (h : Repaired span frame) (hspan : span.WellFormed) (hrest : Paired now options rest) :
    Paired now options ((frame.output now options).map OutMessage.message ++ rest) := by
  have hremainder : Paired now options (frame.remainder.map Prod.fst ++ rest) := by
    apply paired_plain now options _ hrest
    intro message hmem
    obtain ⟨entry, hentry, rfl⟩ := List.mem_map.mp hmem
    rw [h.remainder] at hentry
    obtain ⟨hbody, hplain⟩ := List.mem_filter.mp hentry
    exact ⟨hplain, hspan.body entry hbody⟩
  rw [ToolUseFrame.output, List.map_append, map_message_kept, List.append_assoc]
  split_ifs with hdropped
  · exact hremainder
  · obtain ⟨results, hmap, hanswered, -⟩ := allAnswered_results now options frame.failed h.owned
    rw [List.map_cons, hmap, h.assistant]
    rw [h.calls, h.failed] at hanswered
    rw [Bool.not_eq_true, ToolUseFrame.isDropped, h.failed] at hdropped
    exact .turn span.assistant results _ hspan.calls hdropped hanswered hremainder

theorem paired_frames {spans : List FrameSpan} {frames : List ToolUseFrame}
    (h : List.Forall₂ Repaired spans frames) (hspans : ∀ span ∈ spans, span.WellFormed) :
    Paired now options ((frames.flatMap (ToolUseFrame.output now options)).map OutMessage.message) := by
  induction h with
  | nil => exact .nil
  | cons hframe _ ih =>
    obtain ⟨hspan, hspans⟩ := List.forall_mem_cons.mp hspans
    rw [List.flatMap_cons, List.map_append]
    exact paired_output now options hframe hspan (ih hspans)

theorem paired_repairOutput (messages : List AgentMessage) :
    Paired now options ((repairOutput now options messages).map OutMessage.message) := by
  obtain ⟨hunframed, hspans⟩ := splitFrames_wellFormed messages.zipIdx
  rw [repairOutput_eq, List.map_append, unframedMessages_eq, map_message_kept]
  apply paired_plain
  · intro message hmem
    obtain ⟨entry, hentry, rfl⟩ := List.mem_map.mp hmem
    obtain ⟨hmem, hplain⟩ := List.mem_filter.mp hentry
    exact ⟨hplain, hunframed entry hmem⟩
  · exact paired_frames now options (recoveredFrames_repaired _) hspans

def isKept (entry : AgentMessage × ℕ) : Bool := entry.1.isPlain && !isDroppedTurn options entry.1

theorem filter_isKept_of_noCalls {entries : List (AgentMessage × ℕ)}
    (h : ∀ entry ∈ entries, toolCallsOf entry.1 = []) :
    entries.filter (isKept options) = entries.filter fun entry => entry.1.isPlain := by
  apply List.filter_congr
  intro entry hmem
  have hnone := h entry hmem
  have hdropped : isDroppedTurn options entry.1 = false := by
    obtain ⟨message, index⟩ := entry
    cases message with
    | assistant assistant =>
      have hnone : extractToolCallsFromAssistant assistant = [] := hnone
      rw [isDroppedTurn, hnone]
      rfl
    | _ => rfl
  rw [isKept, hdropped, Bool.not_false, Bool.and_true]

theorem filter_isPlain_kept {entries : List (AgentMessage × ℕ)}
    (h : ∀ entry ∈ entries, entry.1.isPlain = true) :
    (entries.map OutMessage.kept).filter (fun entry => entry.message.isPlain) =
      entries.map OutMessage.kept := by
  apply List.filter_eq_self.mpr
  intro entry hmem
  obtain ⟨plain, hplain, rfl⟩ := List.mem_map.mp hmem
  exact h plain hplain

theorem not_isPlain_of_mem_results {occurrences : List ToolCallOccurrence} {failed : Bool}
    {entry : OutMessage} (h : entry ∈ occurrences.filterMap (resultMessage now options failed)) :
    entry.message.isPlain = false := by
  obtain ⟨occurrence, -, hresult⟩ := List.mem_filterMap.mp h
  rw [resultMessage] at hresult
  cases hpresent : occurrence.result with
  | some result =>
    rw [hpresent] at hresult
    obtain rfl := Option.some.inj hresult
    rfl
  | none =>
    rw [hpresent] at hresult
    cases failed with
    | true => cases hresult
    | false =>
      obtain rfl := Option.some.inj hresult
      rfl

/-- The messages of a frame but for its results. -/
theorem filter_isPlain_output {span : FrameSpan} {frame : ToolUseFrame} (h : Repaired span frame)
    (hspan : span.WellFormed) :
    (frame.output now options).filter (fun entry => entry.message.isPlain) =
      (span.entries.filter (isKept options)).map OutMessage.kept := by
  have hbody : (frame.remainder.map OutMessage.kept).filter (fun entry => entry.message.isPlain) =
      (span.body.filter (isKept options)).map OutMessage.kept := by
    rw [h.remainder, filter_isKept_of_noCalls options hspan.body]
    exact filter_isPlain_kept fun entry hmem => (List.mem_filter.mp hmem).2
  have hassistant : isKept options (.assistant span.assistant, span.startIndex) =
      !frame.isDropped options := by
    rw [isKept, isDroppedTurn, ToolUseFrame.isDropped, h.failed]
    cases hcalls : extractToolCallsFromAssistant span.assistant with
    | nil => exact absurd hcalls hspan.calls
    | cons call calls => rfl
  rw [ToolUseFrame.output, List.filter_append, hbody, FrameSpan.entries, List.filter_cons, hassistant]
  cases frame.isDropped options with
  | true => rfl
  | false =>
    have hresults : (frame.occurrences.filterMap (resultMessage now options frame.failed)).filter
        (fun entry => entry.message.isPlain) = [] := by
      apply List.filter_eq_nil_iff.mpr
      intro entry hmem
      rw [not_isPlain_of_mem_results now options hmem]
      exact Bool.false_ne_true
    rw [if_neg Bool.false_ne_true, List.filter_cons, hresults, h.assistant, h.startIndex]
    rfl

theorem filter_isPlain_frames {spans : List FrameSpan} {frames : List ToolUseFrame}
    (h : List.Forall₂ Repaired spans frames) (hspans : ∀ span ∈ spans, span.WellFormed) :
    (frames.flatMap (ToolUseFrame.output now options)).filter (fun entry => entry.message.isPlain) =
      ((spans.flatMap FrameSpan.entries).filter (isKept options)).map OutMessage.kept := by
  induction h with
  | nil => rfl
  | cons hframe _ ih =>
    obtain ⟨hspan, hspans⟩ := List.forall_mem_cons.mp hspans
    rw [List.flatMap_cons, List.flatMap_cons, List.filter_append, List.filter_append, List.map_append,
      ih hspans, filter_isPlain_output now options hframe hspan]

theorem filter_isPlain_repairOutput (messages : List AgentMessage) :
    (repairOutput now options messages).filter (fun entry => entry.message.isPlain) =
      (messages.zipIdx.filter (isKept options)).map OutMessage.kept := by
  obtain ⟨hunframed, hspans⟩ := splitFrames_wellFormed messages.zipIdx
  have hentries := splitFrames_entries messages.zipIdx
  rw [repairOutput_eq, List.filter_append, unframedMessages_eq, ← filter_isKept_of_noCalls options hunframed,
    filter_isPlain_frames now options (recoveredFrames_repaired _) hspans, filter_isPlain_kept,
    ← List.map_append, ← List.filter_append, hentries]
  intro entry hmem
  exact ((Bool.and_eq_true _ _).mp (List.mem_filter.mp hmem).2).1

/-- Apart from results, dropped turns and what is no message, the messages stay as they are. -/
theorem filter_isPlain_repair (messages : List AgentMessage) :
    (repairToolUseResultPairing now options messages).messages.filter AgentMessage.isPlain =
      messages.filter fun message => message.isPlain && !isDroppedTurn options message := by
  have hfilter := congrArg (List.map OutMessage.message) (filter_isPlain_repairOutput now options messages)
  rw [map_message_kept] at hfilter
  rw [messages_repair, List.filter_map]
  refine hfilter.trans ?_
  conv_rhs => rw [← List.zipIdx_map_fst 0 messages, List.filter_map]
  rfl

theorem repairToolUseResultPairing_paired (messages : List AgentMessage) :
    Paired now options (repairToolUseResultPairing now options messages).messages ∧
      (repairToolUseResultPairing now options messages).messages.filter AgentMessage.isPlain =
        messages.filter fun message => message.isPlain && !isDroppedTurn options message := by
  refine ⟨?_, filter_isPlain_repair now options messages⟩
  rw [messages_repair]
  exact paired_repairOutput now options messages

end Output

/-- The results that are written for the calls of a frame. -/
def ToolUseFrame.results (now : Number) (options : ToolUseResultPairingOptions)
    (frame : ToolUseFrame) : List OutMessage :=
  if frame.isDropped options then []
  else frame.occurrences.filterMap (resultMessage now options frame.failed)

section Once

variable (now : Number) (options : ToolUseResultPairingOptions)

theorem filterMap_source_results (failed : Bool) (occurrences : List ToolCallOccurrence) :
    (occurrences.filterMap (resultMessage now options failed)).filterMap OutMessage.source =
      sources occurrences := by
  rw [List.filterMap_filterMap, sources]
  apply List.filterMap_congr
  intro occurrence _
  rw [resultMessage]
  cases occurrence.result with
  | some result => rfl
  | none => cases failed <;> rfl

theorem filter_not_isPlain_kept {entries : List (AgentMessage × ℕ)}
    (h : ∀ entry ∈ entries, entry.1.isPlain = true) :
    (entries.map OutMessage.kept).filter (fun entry => !entry.message.isPlain) = [] := by
  apply List.filter_eq_nil_iff.mpr
  intro entry hmem
  obtain ⟨plain, hplain, rfl⟩ := List.mem_map.mp hmem
  rw [Bool.not_eq_true, Bool.not_eq_false']
  exact h plain hplain

theorem filter_not_isPlain_output {span : FrameSpan} {frame : ToolUseFrame}
    (h : Repaired span frame) :
    (frame.output now options).filter (fun entry => !entry.message.isPlain) =
      frame.results now options := by
  have hremainder : ∀ entry ∈ frame.remainder, entry.1.isPlain = true := by
    rw [h.remainder]
    exact fun entry hmem => (List.mem_filter.mp hmem).2
  rw [ToolUseFrame.output, List.filter_append, filter_not_isPlain_kept hremainder, List.append_nil,
    ToolUseFrame.results]
  split_ifs
  · rfl
  · apply (List.filter_cons_of_neg Bool.false_ne_true).trans
    apply List.filter_eq_self.mpr
    intro entry hmem
    rw [not_isPlain_of_mem_results now options hmem]
    rfl

theorem filter_not_isPlain_repairOutput (messages : List AgentMessage) :
    (repairOutput now options messages).filter (fun entry => !entry.message.isPlain) =
      (recoveredFrames (splitFrames messages.zipIdx).2).1.flatMap
        (ToolUseFrame.results now options) := by
  have hunframed : ∀ entry ∈ (splitFrames messages.zipIdx).1.filter fun entry => entry.1.isPlain,
      entry.1.isPlain = true := fun entry hmem => (List.mem_filter.mp hmem).2
  rw [repairOutput_eq, List.filter_append, unframedMessages_eq, filter_not_isPlain_kept hunframed,
    List.nil_append, List.filter_flatMap]
  apply List.flatMap_congr
  intro frame hframe
  obtain ⟨span, -, hrepaired⟩ := exists_repaired hframe
  exact filter_not_isPlain_output now options hrepaired

/-- The sources of all results are among the results of the frames. -/
theorem sources_recovered (spans : List FrameSpan) :
    (sources (recoveredFrames spans).2.occurrences).Subperm
      (spans.flatMap fun span => resultPlaces span.body) := by
  refine (recovered_recoveredFrames spans).sources.trans ?_
  induction spans with
  | nil => exact List.Subperm.refl []
  | cons span spans ih =>
    rw [List.map_cons, List.flatMap_cons, List.flatMap_cons, List.flatMap_cons, List.map_append,
      sources_append, List.append_assoc]
    refine List.Perm.subperm (List.Perm.append_left _ (List.perm_append_comm_assoc _ _ _)) |>.trans ?_
    rw [← List.append_assoc]
    exact (frameRead_readAll span).sources.append ih

/-- Each result is for a call, was replaced or was not for any. -/
theorem count_recovered (spans : List FrameSpan) :
    (sources (recoveredFrames spans).2.occurrences).length +
        (recoveredFrames spans).2.droppedDuplicateCount +
          (recoveredFrames spans).2.droppedOrphanCount =
      (spans.flatMap fun span => resultPlaces span.body).length := by
  refine (recovered_recoveredFrames spans).count.trans ?_
  induction spans with
  | nil => rfl
  | cons span spans ih =>
    have hspan := (frameRead_readAll span).count
    rw [List.map_cons, List.map_cons, List.flatMap_cons, List.flatMap_cons, List.flatMap_cons,
      sources_append, List.sum_cons, List.length_append, List.length_append, List.length_append]
    show (sources span.readAll.occurrences).length + _ + (span.readAll.droppedDuplicateCount + _) +
      (span.readAll.unclaimedResults.length + _) = _
    omega

theorem resultPlaces_entries (entries : List (AgentMessage × ℕ)) :
    resultPlaces entries = resultPlaces (splitFrames entries).1 ++
      (splitFrames entries).2.flatMap fun span => resultPlaces span.body := by
  conv_lhs => rw [← splitFrames_entries entries]
  rw [resultPlaces, List.filter_append, List.map_append, List.filter_flatMap, List.map_flatMap]
  rfl

theorem isPlain_of_not_isResult {message : AgentMessage} (h : message.isPlain = true) :
    (!message.isResult) = true := by
  rw [not_isResult_of_isPlain h]
  rfl

theorem nodup_sources_repairOutput (messages : List AgentMessage) :
    ((repairOutput now options messages).filterMap OutMessage.source).Nodup := by
  let entries := messages.zipIdx
  have hplain : ((repairOutput now options messages).filter
      (fun entry => entry.message.isPlain)).filterMap OutMessage.source =
        (entries.filter (isKept options)).map Prod.snd := by
    rw [filter_isPlain_repairOutput, List.filterMap_map]
    exact congrFun List.filterMap_eq_map' _
  have hresults : ((repairOutput now options messages).filter
      (fun entry => !entry.message.isPlain)).filterMap OutMessage.source |>.Subperm
        (resultPlaces entries) := by
    rw [filter_not_isPlain_repairOutput, List.filterMap_flatMap]
    have hframes : ((recoveredFrames (splitFrames entries).2).1.flatMap fun frame =>
        (frame.results now options).filterMap OutMessage.source).Sublist
          ((recoveredFrames (splitFrames entries).2).1.flatMap fun frame => sources frame.occurrences) := by
      apply List.Sublist.flatMap_right
      intro frame _
      rw [ToolUseFrame.results]
      split_ifs
      · exact List.nil_sublist _
      · rw [filterMap_source_results]
    refine hframes.subperm.trans ?_
    have hall : ((recoveredFrames (splitFrames entries).2).1.flatMap fun frame =>
        sources frame.occurrences) = sources (recoveredFrames (splitFrames entries).2).2.occurrences := by
      rw [← flatMap_recoveredFrames]
      exact List.filterMap_flatMap.symm
    rw [hall, resultPlaces_entries]
    exact (sources_recovered _).trans (List.sublist_append_right _ _).subperm
  have hplaces : (entries.filter (isKept options)).map Prod.snd |>.Sublist
      ((entries.filter fun entry => !entry.1.isResult).map Prod.snd) := by
    apply List.Sublist.map
    apply List.monotone_filter_right
    intro entry hkept
    exact isPlain_of_not_isResult ((Bool.and_eq_true _ _).mp hkept).1
  obtain ⟨used, hperm, hsublist⟩ : ((repairOutput now options messages).filterMap
      OutMessage.source).Subperm (List.range' 0 messages.length) := by
    rw [← List.zipIdx_map_snd 0 messages]
    have hout := (List.filter_append_perm (fun entry : OutMessage => entry.message.isPlain)
      (repairOutput now options messages)).filterMap OutMessage.source
    have hin := (List.filter_append_perm (fun entry : AgentMessage × ℕ => entry.1.isResult)
      entries).map Prod.snd
    rw [List.filterMap_append, hplain] at hout
    rw [List.map_append] at hin
    refine hout.symm.subperm.trans (List.Subperm.trans ?_ hin.subperm)
    exact (hplaces.subperm.append hresults).trans List.perm_append_comm.subperm
  exact hperm.nodup_iff.mp (List.Nodup.sublist hsublist List.nodup_range')

/-- What is made up for a frame is what is added for it. -/
theorem map_filter_results (frame : ToolUseFrame) :
    ((frame.results now options).filter fun entry => entry.source.isNone).map OutMessage.message =
      (frame.added now options).map AgentMessage.toolResult := by
  rw [ToolUseFrame.results, ToolUseFrame.isDropped, ToolUseFrame.added]
  cases frame.failed with
  | true =>
    rw [@if_pos (true = true) _ rfl]
    split_ifs
    · rfl
    · apply List.map_eq_nil_iff.mpr
      apply List.filter_eq_nil_iff.mpr
      intro entry hmem
      obtain ⟨occurrence, -, hresult⟩ := List.mem_filterMap.mp hmem
      rw [resultMessage] at hresult
      cases hpresent : occurrence.result with
      | some result =>
        rw [hpresent] at hresult
        obtain rfl := Option.some.inj hresult
        exact Bool.false_ne_true
      | none =>
        rw [hpresent] at hresult
        cases hresult
  | false =>
    rw [Bool.false_and, if_neg Bool.false_ne_true, if_neg Bool.false_ne_true]
    induction frame.occurrences with
    | nil => rfl
    | cons occurrence occurrences ih =>
      rw [List.filterMap_cons, resultMessage, List.filter_cons]
      cases occurrence.result with
      | some result => exact ih
      | none => exact congrArg (_ :: ·) ih

theorem source_of_isPlain {messages : List AgentMessage} {entry : OutMessage}
    (h : entry.From now options messages) (hplain : entry.message.isPlain = true) :
    entry.source.isNone = false := by
  cases h with
  | same => rfl
  | copy => rfl
  | made => cases hplain

theorem filter_isNone_repairOutput (messages : List AgentMessage) :
    ((repairOutput now options messages).filter fun entry => entry.source.isNone) =
      ((repairOutput now options messages).filter fun entry => !entry.message.isPlain).filter
        fun entry => entry.source.isNone := by
  rw [List.filter_filter]
  apply List.filter_congr
  intro entry hmem
  cases hplain : entry.message.isPlain with
  | true =>
    rw [source_of_isPlain now options (from_of_mem_repairOutput now options hmem) hplain]
    rfl
  | false => rw [Bool.not_false, Bool.and_true]

theorem map_filter_repairOutput (messages : List AgentMessage) :
    ((repairOutput now options messages).filter fun entry => entry.source.isNone).map
        OutMessage.message =
      (repairToolUseResultPairing now options messages).added.map AgentMessage.toolResult := by
  rw [filter_isNone_repairOutput, filter_not_isPlain_repairOutput, List.filter_flatMap,
    List.map_flatMap]
  show _ = ((recoveredFrames (splitFrames messages.zipIdx).2).1.flatMap
    (ToolUseFrame.added now options)).map _
  rw [List.map_flatMap]
  exact List.flatMap_congr fun frame _ => map_filter_results now options frame

/-- Each message is one of the transcript or a result that was added, and no message is used
twice. -/
theorem repairToolUseResultPairing_from (messages : List AgentMessage) : ∃ out : List OutMessage,
    (repairToolUseResultPairing now options messages).messages = out.map OutMessage.message ∧
      (∀ entry ∈ out, entry.From now options messages) ∧
      (out.filterMap OutMessage.source).Nodup ∧
      (out.filter fun entry => entry.source.isNone).map OutMessage.message =
        (repairToolUseResultPairing now options messages).added.map AgentMessage.toolResult :=
  ⟨repairOutput now options messages, messages_repair now options messages,
    fun _ => from_of_mem_repairOutput now options, nodup_sources_repairOutput now options messages,
    map_filter_repairOutput now options messages⟩

theorem Paired.isResult {messages : List AgentMessage} (h : Paired now options messages) :
    ∀ message ∈ messages, message.isResult = !message.isPlain := by
  induction h with
  | nil => exact fun _ hmem => (List.not_mem_nil hmem).elim
  | plain message messages hplain _ _ ih =>
    intro other hmem
    rcases List.mem_cons.mp hmem with rfl | hmem
    · rw [not_isResult_of_isPlain hplain, hplain]
      rfl
    · exact ih other hmem
  | turn assistant results messages _ _ _ _ ih =>
    intro other hmem
    rcases List.mem_cons.mp hmem with rfl | hmem
    · rfl
    · rcases List.mem_append.mp hmem with hmem | hmem
      · obtain ⟨result, -, rfl⟩ := List.mem_map.mp hmem
        rfl
      · exact ih other hmem

theorem length_eq_sources (out : List OutMessage) :
    out.length = (out.filterMap OutMessage.source).length +
      (out.filter fun entry => entry.source.isNone).length := by
  induction out with
  | nil => rfl
  | cons entry out ih =>
    rw [List.length_cons, ih, List.filterMap_cons, List.filter_cons]
    cases entry.source with
    | some place => exact Nat.add_right_comm _ _ 1
    | none => rfl

theorem countP_isResult (messages : List AgentMessage) :
    messages.countP AgentMessage.isResult =
      countUnframedResults (splitFrames messages.zipIdx).1 +
        ((splitFrames messages.zipIdx).2.flatMap fun span => resultPlaces span.body).length := by
  have hplaces : ∀ entries : List (AgentMessage × ℕ),
      (resultPlaces entries).length = entries.countP fun entry => entry.1.isResult := by
    intro entries
    rw [resultPlaces, List.length_map, List.countP_eq_length_filter]
  have hunframed : ∀ entries, countUnframedResults entries = (resultPlaces entries).length := by
    intro entries
    rw [hplaces, countUnframedResults]
    apply List.countP_congr
    intro entry _
    obtain ⟨message, index⟩ := entry
    cases message <;> exact Iff.rfl
  conv_lhs => rw [← List.zipIdx_map_fst 0 messages, List.countP_map]
  refine (hplaces messages.zipIdx).symm.trans ?_
  rw [resultPlaces_entries, List.length_append, hunframed]

/-- Where no turn is dropped, every result that is not written again was counted. -/
theorem repairToolUseResultPairing_counts (messages : List AgentMessage)
    (h : options.dropErroredAssistantResults = false) :
    messages.countP AgentMessage.isResult +
        (repairToolUseResultPairing now options messages).added.length =
      (repairToolUseResultPairing now options messages).messages.countP AgentMessage.isResult +
        (repairToolUseResultPairing now options messages).droppedDuplicateCount +
          (repairToolUseResultPairing now options messages).droppedOrphanCount := by
  let spans := (splitFrames messages.zipIdx).2
  let out := repairOutput now options messages
  have hkept : ∀ frame : ToolUseFrame, (frame.results now options).filterMap OutMessage.source =
      sources frame.occurrences := by
    intro frame
    rw [ToolUseFrame.results, ToolUseFrame.isDropped, h, Bool.and_false, if_neg Bool.false_ne_true,
      filterMap_source_results]
  have hsources : ((out.filter fun entry => !entry.message.isPlain).filterMap
      OutMessage.source) = sources (recoveredFrames spans).2.occurrences := by
    rw [filter_not_isPlain_repairOutput, List.filterMap_flatMap, ← flatMap_recoveredFrames, sources,
      List.filterMap_flatMap]
    exact List.flatMap_congr fun frame _ => hkept frame
  have hadded : ((out.filter fun entry => !entry.message.isPlain).filter
      fun entry => entry.source.isNone).length =
        (repairToolUseResultPairing now options messages).added.length := by
    have hmap := congrArg List.length (map_filter_repairOutput now options messages)
    rw [List.length_map, List.length_map] at hmap
    rw [← hmap, filter_isNone_repairOutput]
  have hresults : (repairToolUseResultPairing now options messages).messages.countP
      AgentMessage.isResult = (out.filter fun entry => !entry.message.isPlain).length := by
    rw [messages_repair, List.countP_map, ← List.countP_eq_length_filter]
    apply List.countP_congr
    intro entry hmem
    rw [Function.comp_apply, (paired_repairOutput now options messages).isResult now options
      entry.message (List.mem_map_of_mem hmem)]
  have hwritten := length_eq_sources (out.filter fun entry => !entry.message.isPlain)
  rw [hsources, hadded, ← hresults] at hwritten
  have hread : messages.countP AgentMessage.isResult =
      countUnframedResults (splitFrames messages.zipIdx).1 +
        (spans.flatMap fun span => resultPlaces span.body).length := countP_isResult messages
  have hcount := count_recovered spans
  rw [hread, hwritten]
  show _ = _ + (recoveredFrames spans).2.droppedDuplicateCount +
    ((recoveredFrames spans).2.droppedOrphanCount + countUnframedResults (splitFrames messages.zipIdx).1)
  omega

end Once

def sampleTurn : AssistantMessage :=
  ⟨some [⟨some (ofString "toolCall"), some (ofString "a"), some (ofString "read"), .object []⟩],
    none, .null⟩

def sampleResult : ToolResultMessage :=
  ⟨some (ofString "a"), none, none, none, none, none, none, false, false, none, .null⟩

/-- A result in front of the turn it answers, and another one behind it. -/
def sampleTranscript : List AgentMessage :=
  [.toolResult sampleResult, .assistant sampleTurn, .other .null, .toolResult sampleResult]

theorem repairToolUseResultPairing_counts_sample :
    sampleTranscript.countP AgentMessage.isResult +
        (repairToolUseResultPairing .negZero ⟨false, none⟩ sampleTranscript).added.length =
      (repairToolUseResultPairing .negZero ⟨false, none⟩ sampleTranscript).messages.countP
          AgentMessage.isResult +
        (repairToolUseResultPairing .negZero ⟨false, none⟩ sampleTranscript).droppedDuplicateCount +
          (repairToolUseResultPairing .negZero ⟨false, none⟩ sampleTranscript).droppedOrphanCount :=
  repairToolUseResultPairing_counts .negZero ⟨false, none⟩ sampleTranscript rfl

example : ((repairToolUseResultPairing .negZero ⟨false, none⟩ sampleTranscript).messages.map
    AgentMessage.isResult, (repairToolUseResultPairing .negZero ⟨false, none⟩
      sampleTranscript).droppedOrphanCount) = ([false, true, false], 1) := by decide

/-- A result of a tool with an id, as a turn with these calls sees it. -/
def isRealAnswer (toolCalls : List ToolCallLike) (id : Utf16) (message : AgentMessage) : Bool :=
  isRealFor toolCalls id (message, 0)

section Real

variable (now : Number) (options : ToolUseResultPairingOptions)

/-- The place of a result does not matter to what it says. -/
theorem message_legacyResult (toolCalls : List ToolCallLike) (message : ToolResultMessage)
    (index : ℕ) : (legacyResult toolCalls message index).message =
      (legacyResult toolCalls message 0).message := by
  unfold legacyResult normalizeLegacyToolResultId
  dsimp only
  cases extractToolResultId message with
  | some resultId => rfl
  | none =>
    obtain _ | ⟨toolCall, _ | ⟨other, toolCalls⟩⟩ := toolCalls
    · rfl
    · dsimp only
      cases normalizeOptionalString message.toolName with
      | none => rfl
      | some resultName =>
        cases normalizeOptionalString toolCall.name with
        | none => rfl
        | some callName =>
          dsimp only
          split_ifs <;> rfl
    · rfl

theorem isRealFor_eq (toolCalls : List ToolCallLike) (id : Utf16) :
    isRealFor toolCalls id = isRealAnswer toolCalls id ∘ Prod.fst := by
  funext entry
  obtain ⟨message, index⟩ := entry
  cases message with
  | toolResult message =>
    show isRealFor toolCalls id (.toolResult message, index) =
      isRealFor toolCalls id (.toolResult message, 0)
    rw [isRealFor, isRealFor, message_legacyResult]
  | _ => rfl

/-- The place of a turn that is kept: what is kept of the messages before it stands in front of it,
what is kept of those behind it behind the results for its calls. -/
theorem exists_written_frame (before following : List AgentMessage) (assistant : AssistantMessage)
    (hcalls : extractToolCallsFromAssistant assistant ≠ [])
    (hkept : (isFailed assistant && options.dropErroredAssistantResults) = false) :
    ∃ front frame rest,
      (repairToolUseResultPairing now options
        (before ++ .assistant assistant :: following)).messages =
          front ++ .assistant assistant :: ((frame.occurrences.filterMap
            (resultMessage now options (isFailed assistant))).map OutMessage.message ++ rest) ∧
      (front.filter AgentMessage.isPlain =
        before.filter fun message => message.isPlain && !isDroppedTurn options message) ∧
      (rest.filter AgentMessage.isPlain =
        following.filter fun message => message.isPlain && !isDroppedTurn options message) ∧
      frame ∈ (recoveredFrames
        (splitFrames (before ++ .assistant assistant :: following).zipIdx).2).1 ∧
      Repaired ⟨assistant, before.length,
        (splitFrames (following.zipIdx (before.length + 1))).1⟩ frame := by
  let first := before.zipIdx
  let second := following.zipIdx (before.length + 1)
  let span : FrameSpan := ⟨assistant, before.length, (splitFrames second).1⟩
  have hsplit : splitFrames (before ++ .assistant assistant :: following).zipIdx =
      ((splitFrames first).1, (splitFrames first).2 ++ span :: (splitFrames second).2) := by
    have hturn := @splitFrames_turn assistant before.length hcalls second
    rw [List.zipIdx_append, List.zipIdx_cons, Nat.zero_add,
      splitFrames_append_turns _ (congrArg Prod.fst hturn), hturn]
  have hforall := recoveredFrames_repaired ((splitFrames first).2 ++ span :: (splitFrames second).2)
  obtain ⟨frames, rest, hframes, hfirst, hrest⟩ := exists_append_of_forall₂ hforall
  obtain ⟨frame, frames', hframe, -, rfl⟩ := List.forall₂_cons_left_iff.mp hrest
  have hdropped : frame.isDropped options = false := by
    rw [ToolUseFrame.isDropped, hframe.failed]
    exact hkept
  have hwritten : (repairToolUseResultPairing now options
      (before ++ .assistant assistant :: following)).messages =
        (unframedMessages (splitFrames first).1 ++
          frames.flatMap (ToolUseFrame.output now options)).map OutMessage.message ++
            .assistant assistant :: ((frame.occurrences.filterMap
              (resultMessage now options (isFailed assistant))).map OutMessage.message ++
              (frame.remainder.map OutMessage.kept ++
                frames'.flatMap (ToolUseFrame.output now options)).map OutMessage.message) := by
    rw [messages_repair, repairOutput_eq, hsplit, hframes, List.flatMap_append, List.flatMap_cons,
      ToolUseFrame.output, hdropped, if_neg Bool.false_ne_true, hframe.assistant, hframe.failed]
    simp only [List.map_append, List.map_cons, List.append_assoc, List.cons_append]
    rfl
  have hfront : ((unframedMessages (splitFrames first).1 ++
      frames.flatMap (ToolUseFrame.output now options)).map OutMessage.message).filter
        AgentMessage.isPlain =
          before.filter fun message => message.isPlain && !isDroppedTurn options message := by
    obtain ⟨hunframed, hspans⟩ := splitFrames_wellFormed first
    have hfilter : (unframedMessages (splitFrames first).1 ++
        frames.flatMap (ToolUseFrame.output now options)).filter (fun entry => entry.message.isPlain) =
          (first.filter (isKept options)).map OutMessage.kept := by
      conv_rhs => rw [← splitFrames_entries first]
      rw [List.filter_append, unframedMessages_eq, ← filter_isKept_of_noCalls options hunframed,
        filter_isPlain_frames now options hfirst hspans, filter_isPlain_kept, ← List.map_append,
        ← List.filter_append]
      intro entry hmem
      exact ((Bool.and_eq_true _ _).mp (List.mem_filter.mp hmem).2).1
    have hmessages := congrArg (List.map OutMessage.message) hfilter
    rw [map_message_kept] at hmessages
    rw [List.filter_map]
    refine hmessages.trans ?_
    conv_rhs => rw [← List.zipIdx_map_fst 0 before, List.filter_map]
    rfl
  have hmem : frame ∈ (recoveredFrames
      (splitFrames (before ++ .assistant assistant :: following).zipIdx).2).1 := by
    rw [hsplit, hframes]
    exact List.mem_append_right _ List.mem_cons_self
  refine ⟨_, frame, _, hwritten, hfront, ?_, hmem, hframe⟩
  -- the messages in front of the turn and the turn itself are kept on both sides
  have hall := filter_isPlain_repair now options (before ++ .assistant assistant :: following)
  have hturn : isDroppedTurn options (.assistant assistant) = false := by
    rw [isDroppedTurn, Bool.and_assoc, hkept, Bool.and_false]
  have hresults : (((frame.occurrences.filterMap (resultMessage now options
      (isFailed assistant))).map OutMessage.message).filter AgentMessage.isPlain) = [] := by
    rw [List.filter_map]
    apply List.map_eq_nil_iff.mpr
    apply List.filter_eq_nil_iff.mpr
    intro entry hmem
    exact Bool.eq_false_iff.mp (not_isPlain_of_mem_results now options hmem)
  rw [hwritten, List.filter_append, List.filter_append, hfront, List.filter_cons_of_pos rfl,
    List.filter_append, hresults, List.nil_append,
    List.filter_cons_of_pos (by rw [hturn]; rfl)] at hall
  exact (List.cons.inj (List.append_cancel_left hall)).2

/-- What follows a turn up to the next one with calls is in its frame. -/
theorem countP_le_body {body : List AgentMessage}
    (hbody : ∀ message ∈ body, toolCallsOf message = []) (after : List AgentMessage) (place : ℕ)
    (p : AgentMessage → Bool) : body.countP p ≤
      (splitFrames ((body ++ after).zipIdx place)).1.countP (p ∘ Prod.fst) := by
  have hentries : ∀ entry ∈ body.zipIdx place, toolCallsOf entry.1 = [] :=
    fun entry hmem => hbody entry.1 (List.fst_mem_of_mem_zipIdx hmem)
  rw [List.zipIdx_append, splitFrames_append hentries, List.countP_append, ← List.countP_map,
    List.zipIdx_map_fst]
  exact Nat.le_add_right _ _

/-- A turn with calls gets as many results of tools with an id as follow it, up to the number of its
calls with the id. -/
theorem repairToolUseResultPairing_real (before body after : List AgentMessage)
    (assistant : AssistantMessage) (hcalls : extractToolCallsFromAssistant assistant ≠ [])
    (hbody : ∀ message ∈ body, toolCallsOf message = [])
    (hkept : (isFailed assistant && options.dropErroredAssistantResults) = false) :
    ∃ front results rest,
      (repairToolUseResultPairing now options
        (before ++ .assistant assistant :: (body ++ after))).messages =
          front ++ .assistant assistant :: (results.map AgentMessage.toolResult ++ rest) ∧
      (front.filter AgentMessage.isPlain =
        before.filter fun message => message.isPlain && !isDroppedTurn options message) ∧
      AllAnswered now options (isFailed assistant) (extractToolCallsFromAssistant assistant) results ∧
      ∀ id, min ((extractToolCallsFromAssistant assistant).countP fun call => call.id = id)
          (body.countP (isRealAnswer (extractToolCallsFromAssistant assistant) id)) ≤
        results.countP (isRealResult id) := by
  obtain ⟨front, frame, rest, hwritten, hfront, -, -, hframe⟩ :=
    exists_written_frame now options before (body ++ after) assistant hcalls hkept
  obtain ⟨results, hmap, hanswered, hreal⟩ :=
    allAnswered_results now options (isFailed assistant) hframe.owned
  rw [hframe.calls] at hanswered
  rw [hmap] at hwritten
  refine ⟨front, results, rest, hwritten, hfront, hanswered, fun id => ?_⟩
  have hcount := countP_le_body hbody after (before.length + 1)
    (isRealAnswer (extractToolCallsFromAssistant assistant) id)
  rw [← isRealFor_eq] at hcount
  have hcalls : callCount frame.occurrences id =
      (extractToolCallsFromAssistant assistant).countP fun call => call.id = id := by
    rw [← hframe.calls, List.countP_map]
    rfl
  rw [← hcalls]
  exact (min_le_min_left _ hcount).trans ((hframe.real id).trans (hreal id))

theorem repairToolUseResultPairing_real_sample : ∃ front results rest,
    (repairToolUseResultPairing .negZero ⟨true, none⟩
      ([.toolResult sampleResult] ++ .assistant sampleTurn ::
        ([.other .null, .toolResult sampleResult] ++ [.assistant sampleTurn]))).messages =
          front ++ .assistant sampleTurn :: (results.map AgentMessage.toolResult ++ rest) ∧
      (front.filter AgentMessage.isPlain = [AgentMessage.toolResult sampleResult].filter
        fun message => message.isPlain && !isDroppedTurn ⟨true, none⟩ message) ∧
      AllAnswered .negZero ⟨true, none⟩ (isFailed sampleTurn)
        (extractToolCallsFromAssistant sampleTurn) results ∧
      ∀ id, min ((extractToolCallsFromAssistant sampleTurn).countP fun call => call.id = id)
          ([AgentMessage.other .null, .toolResult sampleResult].countP
            (isRealAnswer (extractToolCallsFromAssistant sampleTurn) id)) ≤
        results.countP (isRealResult id) :=
  repairToolUseResultPairing_real .negZero ⟨true, none⟩ [.toolResult sampleResult]
    [.other .null, .toolResult sampleResult] [.assistant sampleTurn] sampleTurn
    (List.ne_nil_of_length_pos (by decide))
    (fun message hmem => by
      rcases List.mem_pair.mp hmem with rfl | rfl
      · rfl
      · rfl)
    rfl

end Real

end Flashclaw.Transcript
