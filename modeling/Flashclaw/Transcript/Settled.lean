import Flashclaw.Transcript.Paired

/-!
# Repaired transcripts are settled

A repaired transcript is made of messages without calls and of turns with the results of their calls
behind them.  Such a transcript is not changed by another repair.
-/

namespace Flashclaw.Transcript

open Lists Utf16

/-- A turn with calls, the results of its calls, and the messages behind them. -/
structure Turn where
  assistant : AssistantMessage
  answers : List (ToolCallLike × Option ToolResultMessage)
  rest : List AgentMessage

def Turn.results (turn : Turn) : List ToolResultMessage := turn.answers.filterMap Prod.snd

def Turn.body (turn : Turn) : List AgentMessage :=
  turn.results.map AgentMessage.toolResult ++ turn.rest

def Turn.messages (turn : Turn) : List AgentMessage := .assistant turn.assistant :: turn.body

/-- A result that a call keeps as it is. -/
def IsOwn (answer : ToolCallLike × Option ToolResultMessage) : Prop :=
  ∀ result, answer.2 = some result → extractToolResultId result = some answer.1.id ∧
    ∀ index, normalizeToolResultName ⟨result, index, false⟩ answer.1.name = ⟨result, index, false⟩

def AnswersInOrder (answers : List (ToolCallLike × Option ToolResultMessage)) : Prop :=
  answers.Pairwise fun first second =>
    first.1.id = second.1.id → first.2 = none → second.2 = none

/-- A turn as the repair leaves it. -/
structure Turn.Settled (options : ToolUseResultPairingOptions) (turn : Turn) : Prop where
  calls : turn.answers.map Prod.fst = extractToolCallsFromAssistant turn.assistant
  called : extractToolCallsFromAssistant turn.assistant ≠ []
  kept : (isFailed turn.assistant && options.dropErroredAssistantResults) = false
  own : ∀ answer ∈ turn.answers, IsOwn answer
  answered : isFailed turn.assistant = false → ∀ answer ∈ turn.answers, answer.2 ≠ none
  inOrder : AnswersInOrder turn.answers
  rest : ∀ message ∈ turn.rest, message.isPlain = true ∧ toolCallsOf message = []

/-- The calls of a turn whose first result stands at a place. -/
def occurrencesOf (place : ℕ) :
    List (ToolCallLike × Option ToolResultMessage) → List ToolCallOccurrence
  | [] => []
  | (call, none) :: answers => call.occurrence :: occurrencesOf place answers
  | (call, some result) :: answers =>
    ⟨call.id, call.name, some ⟨result, place, false⟩⟩ :: occurrencesOf (place + 1) answers

section Reading

variable {toolCalls : List ToolCallLike} {state : FrameState} {place : ℕ}
  {done todo : List (ToolCallLike × Option ToolResultMessage)}

theorem occurrencesOf_append (place : ℕ) (first second : List (ToolCallLike × Option ToolResultMessage)) :
    occurrencesOf place (first ++ second) =
      occurrencesOf place first ++ occurrencesOf (place + (first.filterMap Prod.snd).length) second := by
  induction first generalizing place with
  | nil => rfl
  | cons answer first ih =>
    obtain ⟨call, _ | result⟩ := answer
    · exact congrArg (_ :: ·) (ih place)
    · have hplace : place + 1 + (first.filterMap Prod.snd).length =
          place + (((call, some result) :: first).filterMap Prod.snd).length := by
        show _ = place + ((first.filterMap Prod.snd).length + 1)
        omega
      rw [List.cons_append, occurrencesOf, ih, hplace]
      rfl

theorem length_occurrencesOf (place : ℕ) (answers : List (ToolCallLike × Option ToolResultMessage)) :
    (occurrencesOf place answers).length = answers.length := by
  induction answers generalizing place with
  | nil => rfl
  | cons answer answers ih =>
    obtain ⟨call, _ | result⟩ := answer
    · exact congrArg Nat.succ (ih place)
    · exact congrArg Nat.succ (ih (place + 1))

/-- The calls with an answer, and the others. -/
theorem mem_occurrencesOf {answers : List (ToolCallLike × Option ToolResultMessage)}
    {occurrence : ToolCallOccurrence} (h : occurrence ∈ occurrencesOf place answers) :
    ∃ answer ∈ answers, occurrence.call = answer.1 ∧
      (occurrence.isUnfilled = true → answer.2 = none) := by
  induction answers generalizing place with
  | nil => cases h
  | cons answer answers ih =>
    obtain ⟨call, _ | result⟩ := answer
    · rcases List.mem_cons.mp h with rfl | h
      · exact ⟨_, List.mem_cons_self, rfl, fun _ => rfl⟩
      · obtain ⟨answer, hmem, hanswer⟩ := ih h
        exact ⟨answer, List.mem_cons_of_mem _ hmem, hanswer⟩
    · rcases List.mem_cons.mp h with rfl | h
      · exact ⟨_, List.mem_cons_self, rfl, fun hunfilled => by cases hunfilled⟩
      · obtain ⟨answer, hmem, hanswer⟩ := ih h
        exact ⟨answer, List.mem_cons_of_mem _ hmem, hanswer⟩

/-- A frame whose results are read in the order of its calls. -/
structure Reading (place : ℕ) (done todo : List (ToolCallLike × Option ToolResultMessage))
    (state : FrameState) : Prop where
  valid : state.Valid
  occurrences : state.occurrences =
    occurrencesOf place done ++ todo.map fun answer => answer.1.occurrence
  remainder : state.remainder = []
  unclaimed : state.unclaimedResults = []
  duplicates : state.droppedDuplicateCount = 0

theorem Reading.skip {call : ToolCallLike} (h : Reading place done ((call, none) :: todo) state) :
    Reading place (done ++ [(call, none)]) todo state := by
  refine ⟨h.valid, ?_, h.remainder, h.unclaimed, h.duplicates⟩
  rw [h.occurrences, occurrencesOf_append, List.append_assoc]
  rfl

theorem legacyResult_eq {message : ToolResultMessage} {id : Utf16}
    (h : extractToolResultId message = some id) (index : ℕ) :
    legacyResult toolCalls message index = ⟨message, index, false⟩ := by
  unfold legacyResult normalizeLegacyToolResultId
  dsimp only
  rw [h]

/-- The next result is for the first call without one. -/
theorem Reading.read {call : ToolCallLike} {result : ToolResultMessage}
    (h : Reading place done ((call, some result) :: todo) state)
    (hown : IsOwn (call, some result))
    (horder : AnswersInOrder (done ++ (call, some result) :: todo)) :
    Reading place (done ++ [(call, some result)]) todo
      (state.read toolCalls (.toolResult result, place + (done.filterMap Prod.snd).length)) := by
  obtain ⟨hid, hname⟩ := hown result rfl
  obtain ⟨hreads, hvalid⟩ := @read_spec toolCalls state h.valid
    (.toolResult result, place + (done.filterMap Prod.snd).length)
  have hlength := length_occurrencesOf place done
  have hget : state.occurrences[done.length]? = some call.occurrence := by
    rw [h.occurrences, List.getElem?_append_right (by omega), hlength, Nat.sub_self]
    rfl
  have hplace : firstPlace state.occurrences call.id ToolCallOccurrence.isUnfilled =
      some done.length := by
    cases hfirst : firstPlace state.occurrences call.id ToolCallOccurrence.isUnfilled with
    | none =>
      have hunfilled := firstPlace_eq_none hfirst call.occurrence (List.mem_of_getElem? hget) rfl
      cases hunfilled
    | some other =>
      obtain ⟨occurrence, hother, hsame, hunfilled⟩ := mem_of_firstPlace hfirst
      rcases Nat.lt_trichotomy other done.length with hlt | heq | hlt
      · -- an earlier call with the id that has no result
        rw [h.occurrences, List.getElem?_append_left (by omega)] at hother
        obtain ⟨answer, hmem, hcall, hnone⟩ := mem_occurrencesOf (List.mem_of_getElem? hother)
        have hnext := (List.pairwise_append.mp horder).2.2 answer hmem _ List.mem_cons_self
          ((congrArg ToolCallLike.id hcall).symm.trans hsame) (hnone hunfilled)
        cases hnext
      · rw [heq]
      · have hfilled := firstPlace_first hfirst hlt hget rfl
        cases hfilled
  have hlegacy := @legacyResult_eq toolCalls result call.id hid (place + (done.filterMap Prod.snd).length)
  generalize state.read toolCalls (.toolResult result, _) = state' at hreads hvalid
  cases hreads with
  | unclaimed message index hnone =>
    rw [hlegacy] at hnone
    have hmem : done.length ∈ places state.occurrences call.id := mem_places.mpr ⟨_, hget, rfl⟩
    rw [hnone call.id hid] at hmem
    cases hmem
  | kept entry hplain => cases hplain
  | claimed message index id state' hclaimed hclaims =>
    rw [hlegacy] at hclaimed hclaims
    obtain rfl := Option.some.inj (hid.symm.trans hclaimed)
    refine ⟨hvalid, ?_, hclaims.remainder.trans h.remainder, hclaims.unclaimed.trans h.unclaimed, ?_⟩
    · rw [hclaims.occurrences, resultPlace, hplace]
      show state.occurrences.modify done.length _ = _
      rw [h.occurrences, List.map_cons, ← hlength, modify_append_cons, occurrencesOf_append, List.append_assoc,
        ToolCallOccurrence.answer]
      show _ ++ ToolCallOccurrence.mk call.id call.name (some (normalizeToolResultName _ call.name)) :: _ = _
      rw [hname]
      rfl
    · rw [hclaims.duplicates, hplace, h.duplicates]
      rfl

/-- All results of a turn are read. -/
theorem Reading.readAll (h : Reading place done todo state)
    (hown : ∀ answer ∈ todo, IsOwn answer) (horder : AnswersInOrder (done ++ todo)) :
    Reading place (done ++ todo) []
      ((((todo.filterMap Prod.snd).map AgentMessage.toolResult).zipIdx
        (place + (done.filterMap Prod.snd).length)).foldl (FrameState.read toolCalls) state) := by
  induction todo generalizing done state with
  | nil =>
    rw [List.append_nil]
    exact h
  | cons answer todo ih =>
    obtain ⟨hfirst, hrest⟩ := List.forall_mem_cons.mp hown
    have hmoved : done ++ answer :: todo = (done ++ [answer]) ++ todo := (List.append_cons _ _ _)
    obtain ⟨call, _ | result⟩ := answer
    · rw [hmoved] at horder ⊢
      have hall := ih h.skip hrest horder
      rw [List.filterMap_append] at hall
      exact (List.append_nil (done.filterMap Prod.snd)) ▸ hall
    · have hnext := @Reading.read toolCalls state place done todo call result h hfirst horder
      rw [hmoved] at horder ⊢
      have hall := ih hnext hrest horder
      rw [List.filterMap_append, List.length_append, ← Nat.add_assoc] at hall
      exact hall

/-- Messages that are no results are left in place. -/
theorem foldl_read_plain {entries : List (AgentMessage × ℕ)}
    (h : ∀ entry ∈ entries, entry.1.isPlain = true) (state : FrameState) :
    entries.foldl (FrameState.read toolCalls) state =
      { state with remainder := state.remainder ++ entries } := by
  induction entries generalizing state with
  | nil => rw [List.append_nil, List.foldl_nil]
  | cons entry entries ih =>
    obtain ⟨hentry, hentries⟩ := List.forall_mem_cons.mp h
    have hread : state.read toolCalls entry =
        { state with remainder := state.remainder ++ [entry] } := by
      obtain ⟨message, index⟩ := entry
      cases message with
      | assistant message => rfl
      | other message => rfl
      | _ => cases hentry
    rw [List.foldl_cons, hread, ih hentries, List.append_assoc]
    rfl

end Reading

/-- The span of a turn that begins at a place. -/
def Turn.span (turn : Turn) (place : ℕ) : FrameSpan :=
  ⟨turn.assistant, place, turn.body.zipIdx (place + 1)⟩

def spansOf (place : ℕ) : List Turn → List FrameSpan
  | [] => []
  | turn :: turns => turn.span place :: spansOf (place + turn.messages.length) turns

section Settled

variable {options : ToolUseResultPairingOptions} {turn : Turn} {turns : List Turn}

theorem Turn.Settled.body_calls (h : turn.Settled options) :
    ∀ message ∈ turn.body, toolCallsOf message = [] := by
  intro message hmem
  rcases List.mem_append.mp hmem with hmem | hmem
  · obtain ⟨result, -, rfl⟩ := List.mem_map.mp hmem
    rfl
  · exact (h.rest message hmem).2

/-- What a frame makes of a settled turn. -/
theorem Turn.Settled.readAll (h : turn.Settled options) (place : ℕ) :
    (turn.span place).readAll.occurrences = occurrencesOf (place + 1) turn.answers ∧
      (turn.span place).readAll.remainder =
        turn.rest.zipIdx (place + 1 + turn.results.length) ∧
      (turn.span place).readAll.unclaimedResults = [] ∧
      (turn.span place).readAll.droppedDuplicateCount = 0 := by
  have hstart : Reading (place + 1) [] turn.answers
      (.start (extractToolCallsFromAssistant turn.assistant)) := by
    refine ⟨valid_start _, ?_, rfl, rfl, rfl⟩
    rw [← h.calls]
    exact List.map_map
  have hread := @Reading.readAll (extractToolCallsFromAssistant turn.assistant) _ _ _ _ hstart h.own
    h.inOrder
  have hplain : ∀ entry ∈ turn.rest.zipIdx (place + 1 + turn.results.length),
      entry.1.isPlain = true :=
    fun entry hmem => (h.rest entry.1 (List.fst_mem_of_mem_zipIdx hmem)).1
  have hall : (turn.span place).readAll = (turn.rest.zipIdx (place + 1 + turn.results.length)).foldl
      (FrameState.read (extractToolCallsFromAssistant turn.assistant))
        ((turn.results.map AgentMessage.toolResult).zipIdx (place + 1) |>.foldl
          (FrameState.read (extractToolCallsFromAssistant turn.assistant))
            (.start (extractToolCallsFromAssistant turn.assistant))) := by
    show (turn.body.zipIdx (place + 1)).foldl _ _ = _
    rw [Turn.body, List.zipIdx_append, List.foldl_append, List.length_map]
    rfl
  rw [hall, foldl_read_plain hplain]
  refine ⟨hread.occurrences.trans (List.append_nil _), ?_, hread.unclaimed, hread.duplicates⟩
  show _ ++ _ = _
  exact (congrArg (· ++ _) hread.remainder).trans (List.nil_append _)

/-- The results of a settled turn are written where they were. -/
theorem filterMap_occurrencesOf (now : Number) {failed : Bool}
    {answers : List (ToolCallLike × Option ToolResultMessage)}
    (h : failed = false → ∀ answer ∈ answers, answer.2 ≠ none) (place : ℕ) :
    (occurrencesOf place answers).filterMap (resultMessage now options failed) =
      (((answers.filterMap Prod.snd).map AgentMessage.toolResult).zipIdx place).map
        OutMessage.kept := by
  induction answers generalizing place with
  | nil => rfl
  | cons answer answers ih =>
    have hrest := fun hfailed => (List.forall_mem_cons.mp (h hfailed)).2
    obtain ⟨call, _ | result⟩ := answer
    · cases failed with
      | true => exact ih hrest place
      | false => exact absurd rfl (List.forall_mem_cons.mp (h rfl)).1
    · exact congrArg (_ :: ·) (ih hrest (place + 1))

theorem Turn.Settled.output (h : turn.Settled options) (now : Number) (place : ℕ) :
    (turn.span place).build.output now options = (turn.messages.zipIdx place).map OutMessage.kept := by
  obtain ⟨hoccurrences, hremainder, -, -⟩ := h.readAll place
  have hdropped : (turn.span place).build.isDropped options = false := h.kept
  rw [ToolUseFrame.output, hdropped, if_neg Bool.false_ne_true]
  show _ :: (turn.span place).readAll.occurrences.filterMap
    (resultMessage now options (isFailed turn.assistant)) ++
      (turn.span place).readAll.remainder.map OutMessage.kept = _
  rw [hoccurrences, hremainder, filterMap_occurrencesOf now h.answered, Turn.messages, Turn.body,
    List.zipIdx_cons, List.zipIdx_append, List.map_cons, List.map_append, List.length_map]
  rfl

theorem Turn.Settled.added (h : turn.Settled options) (now : Number) (place : ℕ) :
    (turn.span place).build.added now options = [] := by
  obtain ⟨hoccurrences, -, -, -⟩ := h.readAll place
  show (if isFailed turn.assistant = true then []
    else ((turn.span place).readAll.occurrences.filter _).map _) = []
  split_ifs with hfailed
  · rfl
  · rw [hoccurrences]
    apply List.map_eq_nil_iff.mpr
    apply List.filter_eq_nil_iff.mpr
    intro occurrence hmem hunfilled
    obtain ⟨answer, hanswer, -, hnone⟩ := mem_occurrencesOf hmem
    exact h.answered (Bool.eq_false_iff.mpr hfailed) answer hanswer (hnone hunfilled)

theorem splitFrames_turns (h : ∀ turn ∈ turns, turn.Settled options) (place : ℕ) :
    splitFrames ((turns.flatMap Turn.messages).zipIdx place) = ([], spansOf place turns) := by
  induction turns generalizing place with
  | nil => rfl
  | cons turn turns ih =>
    obtain ⟨hturn, hturns⟩ := List.forall_mem_cons.mp h
    have hbody : ∀ entry ∈ turn.body.zipIdx (place + 1), toolCallsOf entry.1 = [] :=
      fun entry hmem => hturn.body_calls entry.1 (List.fst_mem_of_mem_zipIdx hmem)
    rw [List.flatMap_cons, Turn.messages, List.cons_append, List.zipIdx_cons,
      splitFrames_turn hturn.called, List.zipIdx_append, splitFrames_append hbody, ih hturns]
    rw [List.append_nil, Nat.add_assoc, Nat.add_comm 1]
    rfl

theorem distribute_self (frames : List ToolUseFrame) :
    distribute frames (frames.flatMap ToolUseFrame.occurrences) = frames := by
  induction frames with
  | nil => rfl
  | cons frame frames ih =>
    rw [distribute, List.flatMap_cons, List.take_left, List.drop_left, ih]

/-- Where all results were claimed, nothing is recovered. -/
theorem recoverFrames_claimed {frames : List ToolUseFrame}
    (h : ∀ frame ∈ frames, frame.unclaimedResults = []) (duplicates : ℕ) :
    (recoverFrames 0 (startRecovery frames duplicates) frames).occurrences =
        frames.flatMap ToolUseFrame.occurrences ∧
      (recoverFrames 0 (startRecovery frames duplicates) frames).droppedDuplicateCount = duplicates ∧
      (recoverFrames 0 (startRecovery frames duplicates) frames).droppedOrphanCount = 0 := by
  have hnone : frames.flatMap ToolUseFrame.unclaimedResults = [] := by
    rw [List.flatMap_eq_nil_iff]
    exact h
  have hrun := @recoverFrames_induction
    (fun seen state => seen = [] →
      state.occurrences = frames.flatMap ToolUseFrame.occurrences ∧
        state.droppedDuplicateCount = duplicates ∧ state.droppedOrphanCount = 0)
    (fun _ => True)
    (fun seen state state' hstate hoccurrences hduplicates horphans hseen => by
      obtain ⟨hbefore, hbefore', hbefore''⟩ := hstate hseen
      exact ⟨hoccurrences.trans hbefore, hduplicates.trans hbefore', horphans.trans hbefore''⟩)
    (fun bound seen state record state' _ _ _ hseen => by cases List.append_ne_nil_of_right_ne_nil _ (List.cons_ne_nil _ _) hseen)
    frames (fun _ _ _ _ => trivial) 0 [] _ (tabled_start frames duplicates) (fun _ => ⟨rfl, rfl, rfl⟩)
  exact hrun hnone

theorem exists_turn {span : FrameSpan} {place : ℕ} (h : span ∈ spansOf place turns) :
    ∃ turn ∈ turns, ∃ place, span = turn.span place := by
  induction turns generalizing place with
  | nil => cases h
  | cons turn turns ih =>
    rcases List.mem_cons.mp h with rfl | h
    · exact ⟨turn, List.mem_cons_self, place, rfl⟩
    · obtain ⟨other, hmem, hspan⟩ := ih h
      exact ⟨other, List.mem_cons_of_mem _ hmem, hspan⟩

theorem recoveredFrames_settled (h : ∀ turn ∈ turns, turn.Settled options) (place : ℕ) :
    (recoveredFrames (spansOf place turns)).1 = (spansOf place turns).map FrameSpan.build ∧
      (recoveredFrames (spansOf place turns)).2.droppedDuplicateCount = 0 ∧
      (recoveredFrames (spansOf place turns)).2.droppedOrphanCount = 0 := by
  have hunclaimed : ∀ frame ∈ (spansOf place turns).map FrameSpan.build,
      frame.unclaimedResults = [] := by
    intro frame hmem
    obtain ⟨span, hspan, rfl⟩ := List.mem_map.mp hmem
    obtain ⟨turn, hturn, other, rfl⟩ := exists_turn hspan
    exact ((h turn hturn).readAll other).2.2.1
  have hduplicates : ((spansOf place turns).map fun span =>
      span.readAll.droppedDuplicateCount).sum = 0 := by
    apply List.sum_eq_zero
    intro count hmem
    obtain ⟨span, hspan, rfl⟩ := List.mem_map.mp hmem
    obtain ⟨turn, hturn, other, rfl⟩ := exists_turn hspan
    exact ((h turn hturn).readAll other).2.2.2
  obtain ⟨hoccurrences, hduplicate, horphan⟩ := recoverFrames_claimed hunclaimed
    ((spansOf place turns).map fun span => span.readAll.droppedDuplicateCount).sum
  refine ⟨?_, hduplicate.trans hduplicates, horphan⟩
  show distribute _ _ = _
  rw [hoccurrences, distribute_self]

theorem flatMap_output_settled (h : ∀ turn ∈ turns, turn.Settled options) (now : Number)
    (place : ℕ) : ((spansOf place turns).map FrameSpan.build).flatMap (ToolUseFrame.output now options) =
      ((turns.flatMap Turn.messages).zipIdx place).map OutMessage.kept := by
  induction turns generalizing place with
  | nil => rfl
  | cons turn turns ih =>
    obtain ⟨hturn, hturns⟩ := List.forall_mem_cons.mp h
    rw [spansOf, List.map_cons, List.flatMap_cons, List.flatMap_cons, hturn.output now place,
      ih hturns, List.zipIdx_append, List.map_append]

theorem repairToolUseResultPairing_eq (now : Number) (options : ToolUseResultPairingOptions)
    (messages : List AgentMessage) : repairToolUseResultPairing now options messages =
      { messages :=
          if isChanged messages (repairOutput now options messages) then
            (repairOutput now options messages).map OutMessage.message
          else messages
        added := (recoveredFrames (splitFrames messages.zipIdx).2).1.flatMap
          (ToolUseFrame.added now options)
        droppedDuplicateCount :=
          (recoveredFrames (splitFrames messages.zipIdx).2).2.droppedDuplicateCount
        droppedOrphanCount := (recoveredFrames (splitFrames messages.zipIdx).2).2.droppedOrphanCount +
          countUnframedResults (splitFrames messages.zipIdx).1
        moved := isChanged messages (repairOutput now options messages) } := rfl

theorem isChanged_kept (messages : List AgentMessage) :
    isChanged messages (messages.zipIdx.map OutMessage.kept) = false := by
  rw [isChanged, Bool.or_eq_false_iff]
  refine ⟨decide_eq_false (not_not_intro ?_), ?_⟩
  · rw [List.length_map, List.length_zipIdx]
  · apply List.any_eq_false.mpr
    intro entry hmem
    obtain ⟨out, place⟩ := entry
    have hget := List.mk_mem_zipIdx_iff_getElem?.mp hmem
    rw [List.getElem?_map, List.getElem?_zipIdx] at hget
    obtain ⟨kept, hkept, rfl⟩ := Option.map_eq_some_iff.mp hget
    obtain ⟨message, -, rfl⟩ := Option.map_eq_some_iff.mp hkept
    simp [OutMessage.kept]

/-- Nothing is done to plain messages and settled turns. -/
theorem repair_settled {plain : List AgentMessage}
    (hplain : ∀ message ∈ plain, message.isPlain = true ∧ toolCallsOf message = [])
    (h : ∀ turn ∈ turns, turn.Settled options) (now : Number) :
    repairToolUseResultPairing now options (plain ++ turns.flatMap Turn.messages) =
      ⟨plain ++ turns.flatMap Turn.messages, [], 0, 0, false⟩ := by
  have hentries : ∀ entry ∈ plain.zipIdx, entry.1.isPlain = true ∧ toolCallsOf entry.1 = [] :=
    fun entry hmem => hplain entry.1 (List.fst_mem_of_mem_zipIdx hmem)
  have hsplit : splitFrames (plain ++ turns.flatMap Turn.messages).zipIdx =
      (plain.zipIdx, spansOf plain.length turns) := by
    rw [List.zipIdx_append, splitFrames_append fun entry hmem => (hentries entry hmem).2,
      splitFrames_turns h, List.append_nil, Nat.zero_add]
  obtain ⟨hframes, hduplicates, horphans⟩ := recoveredFrames_settled h plain.length
  have hout : repairOutput now options (plain ++ turns.flatMap Turn.messages) =
      (plain ++ turns.flatMap Turn.messages).zipIdx.map OutMessage.kept := by
    rw [repairOutput_eq, hsplit, hframes, flatMap_output_settled h, unframedMessages_eq,
      List.filter_eq_self.mpr fun entry hmem => (hentries entry hmem).1, ← List.map_append,
      List.zipIdx_append, Nat.zero_add]
  have hunframed : countUnframedResults plain.zipIdx = 0 := by
    apply List.countP_eq_zero.mpr
    intro entry hmem
    have hresult := not_isResult_of_isPlain (hentries entry hmem).1
    obtain ⟨message, index⟩ := entry
    cases message with
    | toolResult message => cases hresult
    | _ => exact Bool.false_ne_true
  have hadded : ((spansOf plain.length turns).map FrameSpan.build).flatMap
      (ToolUseFrame.added now options) = [] := by
    apply List.flatMap_eq_nil_iff.mpr
    intro frame hmem
    obtain ⟨span, hspan, rfl⟩ := List.mem_map.mp hmem
    obtain ⟨turn, hturn, place, rfl⟩ := exists_turn hspan
    exact (h turn hturn).added now place
  rw [repairToolUseResultPairing_eq, hout, isChanged_kept, hsplit, hframes, hadded, hduplicates,
    horphans, hunframed]
  rfl

end Settled

/-- An id without white space around it, and such a name or none. -/
def ToolCallLike.IsTrimmed (call : ToolCallLike) : Prop :=
  normalizeOptionalString (some call.id) = some call.id ∧
    ∀ name, call.name = some name → normalizeOptionalString (some name) = some name

/-- The id and the name of a result are read as they are. -/
def ToolResultMessage.ReadsBack (result : ToolResultMessage) : Prop :=
  normalizeOptionalString result.toolCallId = result.toolCallId ∧
    normalizeOptionalString result.toolName = result.toolName

/-- The result that is written for a call, in its message. -/
def answerOf (now : Number) (options : ToolUseResultPairingOptions) (failed : Bool)
    (occurrence : ToolCallOccurrence) : ToolCallLike × Option ToolResultMessage :=
  (occurrence.call,
    match occurrence.result with
    | some result => some result.message
    | none => if failed then none else some (missingResult now options occurrence))

section Settling

variable (now : Number) (options : ToolUseResultPairingOptions)

theorem results_answerOf (failed : Bool) (occurrences : List ToolCallOccurrence) :
    ((occurrences.map (answerOf now options failed)).filterMap Prod.snd).map AgentMessage.toolResult =
      (occurrences.filterMap (resultMessage now options failed)).map OutMessage.message := by
  rw [List.filterMap_map]
  induction occurrences with
  | nil => rfl
  | cons occurrence occurrences ih =>
    rw [List.filterMap_cons, List.filterMap_cons, resultMessage, Function.comp_apply, answerOf]
    cases occurrence.result with
    | some result => exact congrArg (_ :: ·) ih
    | none =>
      cases failed with
      | true => exact ih
      | false => exact congrArg (_ :: ·) ih

theorem normalizeToolResultName_message {result : Sourced} {name : Option Utf16}
    (h : normalizeToolResultName result name = result) (index : ℕ) :
    normalizeToolResultName ⟨result.message, index, false⟩ name = ⟨result.message, index, false⟩ := by
  rw [normalizeToolResultName] at h ⊢
  cases hraw : normalizeOptionalString result.message.toolName with
  | some toolName =>
    rw [hraw] at h
    dsimp only at h ⊢
    split_ifs at h ⊢ with hsame
    · rfl
    · exact absurd (congrArg (fun r : Sourced => r.message.toolName) h).symm hsame
  | none =>
    have hnot : ∀ toolName, normalizeOptionalString (some toolName) = some toolName →
        result.withName toolName ≠ result := by
      intro toolName htrimmed heq
      have htool : some toolName = result.message.toolName :=
        congrArg (fun r : Sourced => r.message.toolName) heq
      rw [← htool, htrimmed] at hraw
      cases hraw
    rw [hraw] at h
    dsimp only at h ⊢
    cases hfallback : normalizeOptionalString name with
    | some toolName =>
      rw [hfallback] at h
      exact absurd h (hnot toolName (normalizeOptionalString_eq_some hfallback))
    | none =>
      rw [hfallback] at h
      dsimp only at h ⊢
      split_ifs at h ⊢
      · exact absurd h (hnot UNKNOWN_TOOL (by decide))
      · rfl

theorem readsBack_missingResult {occurrence : ToolCallOccurrence} (h : occurrence.call.IsTrimmed) :
    (missingResult now options occurrence).ReadsBack := by
  obtain ⟨hid, hname⟩ := h
  refine ⟨hid, ?_⟩
  show normalizeOptionalString (some (occurrence.name.getD UNKNOWN_TOOL)) =
    some (occurrence.name.getD UNKNOWN_TOOL)
  cases hsome : occurrence.name with
  | none => decide
  | some name => exact hname name hsome

theorem isOwn_missingResult {occurrence : ToolCallOccurrence}
    (h : (missingResult now options occurrence).ReadsBack) :
    IsOwn (occurrence.call, some (missingResult now options occurrence)) := by
  intro result hresult
  obtain rfl := Option.some.inj hresult
  obtain ⟨hid, hname⟩ := h
  have hid : normalizeOptionalString (some occurrence.id) = some occurrence.id := hid
  refine ⟨?_, fun index => ?_⟩
  · have hnone : normalizeOptionalString none = none := rfl
    rw [extractToolResultId, extractToolResultIds, missingResult, makeMissingToolResult]
    simp only [List.foldl_cons, List.foldl_nil, hid, hnone]
    rfl
  · have htool : normalizeOptionalString
        (⟨missingResult now options occurrence, index, false⟩ : Sourced).message.toolName =
          some (occurrence.name.getD UNKNOWN_TOOL) := hname
    rw [normalizeToolResultName, htool]
    exact if_pos rfl

theorem isOwn_answerOf {occurrences : List ToolCallOccurrence} (failed : Bool) (h : Owned occurrences)
    (hmade : failed = false → ∀ occurrence ∈ occurrences, occurrence.result = none →
      (missingResult now options occurrence).ReadsBack) :
    ∀ answer ∈ occurrences.map (answerOf now options failed), IsOwn answer := by
  intro answer hmem
  obtain ⟨occurrence, hoccurrence, rfl⟩ := List.mem_map.mp hmem
  rw [answerOf]
  cases hpresent : occurrence.result with
  | some result =>
    obtain ⟨hid, hname⟩ := h occurrence hoccurrence result hpresent
    intro message hmessage
    obtain rfl := Option.some.inj hmessage
    exact ⟨hid, normalizeToolResultName_message hname⟩
  | none =>
    cases failed with
    | true => exact fun _ hmessage => by cases hmessage
    | false => exact isOwn_missingResult now options (hmade rfl occurrence hoccurrence hpresent)

theorem answersInOrder_answerOf {occurrences : List ToolCallOccurrence} (failed : Bool)
    (h : InOrder occurrences) : AnswersInOrder (occurrences.map (answerOf now options failed)) := by
  apply List.pairwise_map.mpr
  apply List.pairwise_iff_getElem.mpr
  intro i j hi hj hlt hid hnone
  have hunfilled : occurrences[i].isUnfilled = true ∧ failed = true := by
    rw [answerOf] at hnone
    rw [ToolCallOccurrence.isUnfilled]
    cases hresult : occurrences[i].result with
    | some result =>
      rw [hresult] at hnone
      cases hnone
    | none =>
      rw [hresult] at hnone
      cases failed with
      | true => exact ⟨rfl, rfl⟩
      | false => cases hnone
  have hlater := h i j occurrences[i] occurrences[j] hlt (List.getElem?_eq_getElem hi)
    (List.getElem?_eq_getElem hj) hid hunfilled.1
  rw [answerOf, Option.isNone_iff_eq_none.mp hlater, hunfilled.2]
  rfl

/-- The turn of a frame that is not dropped, before some messages without calls. -/
def turnOf (frame : ToolUseFrame) (rest : List AgentMessage) : Turn where
  assistant := frame.assistant
  answers := frame.occurrences.map (answerOf now options frame.failed)
  rest := frame.remainder.map Prod.fst ++ rest

theorem settled_turnOf {span : FrameSpan} {frame : ToolUseFrame} {rest : List AgentMessage}
    (h : Repaired span frame) (hspan : span.WellFormed)
    (hmade : ∀ result ∈ frame.added now options, result.ReadsBack)
    (hkept : frame.isDropped options = false)
    (hrest : ∀ message ∈ rest, message.isPlain = true ∧ toolCallsOf message = []) :
    (turnOf now options frame rest).Settled options := by
  have hmissing : frame.failed = false → ∀ occurrence ∈ frame.occurrences,
      occurrence.result = none → (missingResult now options occurrence).ReadsBack := by
    intro hfailed occurrence hoccurrence hnone
    apply hmade
    rw [ToolUseFrame.added, hfailed, if_neg Bool.false_ne_true]
    refine List.mem_map_of_mem (List.mem_filter.mpr ⟨hoccurrence, ?_⟩)
    rw [hnone]
    rfl
  refine ⟨?_, ?_, ?_, isOwn_answerOf now options frame.failed h.owned hmissing, ?_,
    answersInOrder_answerOf now options frame.failed h.inOrder, ?_⟩
  · show (frame.occurrences.map (answerOf now options frame.failed)).map Prod.fst =
      extractToolCallsFromAssistant frame.assistant
    rw [List.map_map, h.assistant, ← h.calls]
    rfl
  · show extractToolCallsFromAssistant frame.assistant ≠ []
    rw [h.assistant]
    exact hspan.calls
  · show (isFailed frame.assistant && _) = false
    rw [h.assistant, ← h.failed]
    exact hkept
  · intro hfailed answer hmem
    have hfailed : frame.failed = false := by
      rw [h.failed, ← h.assistant]
      exact hfailed
    obtain ⟨occurrence, -, rfl⟩ := List.mem_map.mp hmem
    rw [answerOf, hfailed]
    cases occurrence.result with
    | some result => exact Option.some_ne_none _
    | none => exact Option.some_ne_none _
  · intro message hmem
    rcases List.mem_append.mp hmem with hmem | hmem
    · obtain ⟨entry, hentry, rfl⟩ := List.mem_map.mp hmem
      rw [h.remainder] at hentry
      obtain ⟨hbody, hplain⟩ := List.mem_filter.mp hentry
      exact ⟨hplain, hspan.body entry hbody⟩
    · exact hrest message hmem

/-- The frames are written as settled turns.  What is behind a dropped turn comes behind the one
before it. -/
theorem exists_settled {spans : List FrameSpan} {frames : List ToolUseFrame}
    (h : List.Forall₂ Repaired spans frames) (hspans : ∀ span ∈ spans, span.WellFormed)
    (hmade : ∀ frame ∈ frames, ∀ result ∈ frame.added now options, result.ReadsBack) :
    ∃ (plain : List AgentMessage) (turns : List Turn),
      (frames.flatMap (ToolUseFrame.output now options)).map OutMessage.message =
        plain ++ turns.flatMap Turn.messages ∧
      (∀ message ∈ plain, message.isPlain = true ∧ toolCallsOf message = []) ∧
      ∀ turn ∈ turns, turn.Settled options := by
  induction h with
  | nil => exact ⟨[], [], rfl, fun _ h => (List.not_mem_nil h).elim, fun _ h => (List.not_mem_nil h).elim⟩
  | @cons span frame spans frames hframe _ ih =>
    obtain ⟨hspan, hspans⟩ := List.forall_mem_cons.mp hspans
    obtain ⟨hadded, hmade⟩ := List.forall_mem_cons.mp hmade
    obtain ⟨plain, turns, hout, hplain, hturns⟩ := ih hspans hmade
    rw [List.flatMap_cons, List.map_append, hout, ToolUseFrame.output, List.map_append, map_message_kept]
    cases hdropped : frame.isDropped options with
    | true =>
      refine ⟨frame.remainder.map Prod.fst ++ plain, turns, ?_, ?_, hturns⟩
      · rw [if_pos rfl, List.append_assoc, List.append_assoc]
        rfl
      · intro message hmem
        rcases List.mem_append.mp hmem with hmem | hmem
        · obtain ⟨entry, hentry, rfl⟩ := List.mem_map.mp hmem
          rw [hframe.remainder] at hentry
          obtain ⟨hbody, hisPlain⟩ := List.mem_filter.mp hentry
          exact ⟨hisPlain, hspan.body entry hbody⟩
        · exact hplain message hmem
    | false =>
      refine ⟨[], turnOf now options frame plain :: turns, ?_, fun _ h => (List.not_mem_nil h).elim, ?_⟩
      · rw [if_neg Bool.false_ne_true, List.flatMap_cons, Turn.messages, Turn.body, Turn.results,
          turnOf, results_answerOf, List.map_cons]
        simp only [List.append_assoc, List.cons_append, List.nil_append]
      · intro turn hmem
        rcases List.mem_cons.mp hmem with rfl | hmem
        · exact settled_turnOf now options hframe hspan hadded hdropped hplain
        · exact hturns turn hmem

/-- Where what was made up is read as it is, a second repair changes nothing. -/
theorem repair_again (now' : Number) (messages : List AgentMessage)
    (h : ∀ result ∈ (repairToolUseResultPairing now options messages).added, result.ReadsBack) :
    repairToolUseResultPairing now' options
        (repairToolUseResultPairing now options messages).messages =
      ⟨(repairToolUseResultPairing now options messages).messages, [], 0, 0, false⟩ := by
  obtain ⟨hunframed, hspans⟩ := splitFrames_wellFormed messages.zipIdx
  have hmade : ∀ frame ∈ (recoveredFrames (splitFrames messages.zipIdx).2).1,
      ∀ result ∈ frame.added now options, result.ReadsBack :=
    fun frame hframe result hresult => h result (List.mem_flatMap.mpr ⟨frame, hframe, hresult⟩)
  obtain ⟨plain, turns, hout, hplain, hturns⟩ :=
    exists_settled now options (recoveredFrames_repaired _) hspans hmade
  have hall : (repairToolUseResultPairing now options messages).messages =
      (((splitFrames messages.zipIdx).1.filter fun entry => entry.1.isPlain).map Prod.fst ++ plain) ++
        turns.flatMap Turn.messages := by
    rw [messages_repair, repairOutput_eq, List.map_append, hout, unframedMessages_eq, map_message_kept,
      List.append_assoc]
  rw [hall]
  apply repair_settled _ hturns
  intro message hmem
  rcases List.mem_append.mp hmem with hmem | hmem
  · obtain ⟨entry, hentry, rfl⟩ := List.mem_map.mp hmem
    obtain ⟨hentry, hisPlain⟩ := List.mem_filter.mp hentry
    exact ⟨hisPlain, hunframed entry hentry⟩
  · exact hplain message hmem

/-- A second repair changes nothing. -/
theorem repairToolUseResultPairing_idem (now' : Number) (messages : List AgentMessage)
    (h : ∀ message ∈ messages, ∀ call ∈ toolCallsOf message, call.IsTrimmed) :
    repairToolUseResultPairing now' options
        (repairToolUseResultPairing now options messages).messages =
      ⟨(repairToolUseResultPairing now options messages).messages, [], 0, 0, false⟩ := by
  apply repair_again
  intro result hresult
  obtain ⟨frame, hframe, hresult⟩ := List.mem_flatMap.mp hresult
  rw [ToolUseFrame.added] at hresult
  split_ifs at hresult
  · cases hresult
  · obtain ⟨occurrence, hoccurrence, rfl⟩ := List.mem_map.mp hresult
    -- the call of the result is one of the transcript
    obtain ⟨span, hspan, hrepaired⟩ := exists_repaired hframe
    have hentry := entries_subset hspan List.mem_cons_self
    have hcall : occurrence.call ∈ extractToolCallsFromAssistant span.assistant := by
      rw [← hrepaired.calls]
      exact List.mem_map_of_mem (List.mem_of_mem_filter hoccurrence)
    exact readsBack_missingResult now options (h _ (List.fst_mem_of_mem_zipIdx hentry) _ hcall)

theorem repairToolUseResultPairing_idem_sample :
    repairToolUseResultPairing .negZero ⟨false, none⟩
        (repairToolUseResultPairing .negZero ⟨false, none⟩ [.assistant sampleTurn]).messages =
      ⟨(repairToolUseResultPairing .negZero ⟨false, none⟩ [.assistant sampleTurn]).messages, [], 0, 0,
        false⟩ :=
  repairToolUseResultPairing_idem .negZero ⟨false, none⟩ .negZero [.assistant sampleTurn]
    fun message hmem call hcall => by
      obtain rfl := List.mem_singleton.mp hmem
      obtain rfl := List.mem_singleton.mp (show call ∈ [⟨ofString "a", some (ofString "read")⟩] from hcall)
      refine ⟨by decide, fun name hname => ?_⟩
      obtain rfl := Option.some.inj hname
      decide

end Settling

end Flashclaw.Transcript
