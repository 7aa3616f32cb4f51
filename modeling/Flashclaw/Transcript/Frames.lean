import Mathlib.Data.List.Forall2
import Flashclaw.Transcript.Slots

/-!
# Frames of a transcript

The spans of a transcript, what holds of the calls of a span once its messages are read, and of the
calls of all spans once results were moved across them.
-/

namespace Flashclaw.Transcript

open Lists Utf16

/-- What a result does to the calls of a frame, and how many results are dropped for it. -/
inductive Fills (occurrences : List ToolCallOccurrence) (id : Utf16) (result : Sourced) :
    List ToolCallOccurrence → ℕ → Prop
  | unfilled (place : ℕ) (occurrence : ToolCallOccurrence)
    (hget : occurrences[place]? = some occurrence) (hid : occurrence.id = id)
    (hunfilled : occurrence.isUnfilled = true)
    (hfirst : ∀ other before, other < place → occurrences[other]? = some before →
      before.id = id → before.isUnfilled = false) :
    Fills occurrences id result (occurrences.modify place (ToolCallOccurrence.answer result)) 0
  | replaced (place : ℕ) (occurrence : ToolCallOccurrence)
    (hget : occurrences[place]? = some occurrence) (hid : occurrence.id = id)
    (hsynthetic : occurrence.isSynthetic = true)
    (hresult : isSyntheticMissingToolResult result.message = false)
    (hfull : ∀ occurrence ∈ occurrences, occurrence.id = id → occurrence.isUnfilled = false) :
    Fills occurrences id result (occurrences.modify place (ToolCallOccurrence.answer result)) 1
  | dropped
    (hfull : ∀ occurrence ∈ occurrences, occurrence.id = id → occurrence.isUnfilled = false)
    (hreal : isSyntheticMissingToolResult result.message = false →
      ∀ occurrence ∈ occurrences, occurrence.id = id → occurrence.isSynthetic = false) :
    Fills occurrences id result occurrences 1

section Fills

variable {occurrences : List ToolCallOccurrence} {id : Utf16} {result : Sourced}
  {p : ToolCallOccurrence → Bool} {place : ℕ}

theorem firstPlace_eq_none (h : firstPlace occurrences id p = none) :
    ∀ occurrence ∈ occurrences, occurrence.id = id → p occurrence = false := by
  intro occurrence hmem hid
  obtain ⟨other, hget⟩ := List.mem_iff_getElem?.mp hmem
  have hempty := List.head?_eq_none_iff.mp h
  have hnot := List.filter_eq_nil_iff.mp hempty other (mem_places.mpr ⟨occurrence, hget, hid⟩)
  rw [holds, hget, Option.any_some] at hnot
  exact Bool.eq_false_iff.mpr hnot

/-- No earlier call with the id passes the test. -/
theorem firstPlace_first (h : firstPlace occurrences id p = some place) {other : ℕ}
    {before : ToolCallOccurrence} (hlt : other < place) (hget : occurrences[other]? = some before)
    (hid : before.id = id) : p before = false := by
  have hsorted : ((places occurrences id).filter (holds occurrences p)).Pairwise (· < ·) :=
    List.pairwise_lt_range.sublist (List.filter_sublist.trans List.filter_sublist)
  obtain ⟨rest, hlist⟩ := List.head?_eq_some_iff.mp h
  rw [Bool.eq_false_iff]
  intro hp
  have hmem : other ∈ (places occurrences id).filter (holds occurrences p) :=
    List.mem_filter.mpr ⟨mem_places.mpr ⟨before, hget, hid⟩, holds_iff.mpr ⟨before, hget, hp⟩⟩
  rw [hlist] at hmem hsorted
  rcases List.mem_cons.mp hmem with rfl | hmem
  · exact Nat.lt_irrefl _ hlt
  · exact Nat.lt_asymm hlt ((List.pairwise_cons.mp hsorted).1 other hmem)

theorem fills_fill (occurrences : List ToolCallOccurrence) (id : Utf16) (result : Sourced) :
    Fills occurrences id result (fill result occurrences (resultPlace occurrences id result))
      (if (firstPlace occurrences id ToolCallOccurrence.isUnfilled).isSome then 0 else 1) := by
  rw [resultPlace]
  cases hunfilled : firstPlace occurrences id ToolCallOccurrence.isUnfilled with
  | some place =>
    obtain ⟨occurrence, hget, hid, hp⟩ := mem_of_firstPlace hunfilled
    exact .unfilled place occurrence hget hid hp fun other before hlt => firstPlace_first hunfilled hlt
  | none =>
    have hfull := firstPlace_eq_none hunfilled
    show Fills occurrences id result (fill result occurrences
      (if isSyntheticMissingToolResult result.message then none
        else firstPlace occurrences id ToolCallOccurrence.isSynthetic)) 1
    split_ifs with hresult
    · exact .dropped hfull fun hreal => by rw [hresult] at hreal; cases hreal
    · cases hsynthetic : firstPlace occurrences id ToolCallOccurrence.isSynthetic with
      | none => exact .dropped hfull fun _ => firstPlace_eq_none hsynthetic
      | some place =>
        obtain ⟨occurrence, hget, hid, hp⟩ := mem_of_firstPlace hsynthetic
        exact .replaced place occurrence hget hid hp (Bool.eq_false_iff.mpr hresult) hfull

end Fills

def ToolCallOccurrence.call (occurrence : ToolCallOccurrence) : ToolCallLike :=
  ⟨occurrence.id, occurrence.name⟩

/-- The results of calls have their ids, and their names where they had none. -/
def Owned (occurrences : List ToolCallOccurrence) : Prop :=
  ∀ occurrence ∈ occurrences, ∀ result, occurrence.result = some result →
    extractToolResultId result.message = some occurrence.id ∧
      normalizeToolResultName result occurrence.name = result

/-- Of the calls with one id, the first ones have results. -/
def InOrder (occurrences : List ToolCallOccurrence) : Prop :=
  ∀ (i j : ℕ) (first second : ToolCallOccurrence), i < j → occurrences[i]? = some first → occurrences[j]? = some second →
    first.id = second.id → first.isUnfilled = true → second.isUnfilled = true

/-- A result with the content of another one.  Only one without an id gets one, that of a call. -/
structure SameContent (calls : List ToolCallLike) (original result : ToolResultMessage) : Prop where
  content : result = { original with
    toolCallId := result.toolCallId
    toolName := result.toolName
    isError := result.isError }
  owner : (result.toolCallId = original.toolCallId ∧ result.isError = original.isError) ∨
    (extractToolResultId original = none ∧ result.isError = true ∧
      ∃ call ∈ calls, result.toolCallId = some call.id)

/-- A result with the content of a message, and the same as it unless it is a copy. -/
def Sourced.IsFrom (calls : List ToolCallLike) (messages : List (AgentMessage × ℕ))
    (result : Sourced) : Prop :=
  ∃ original, (AgentMessage.toolResult original, result.source) ∈ messages ∧
    SameContent calls original result.message ∧ (result.copied = false → result.message = original)

def ToolCallOccurrence.IsFrom (calls : List ToolCallLike) (messages : List (AgentMessage × ℕ))
    (occurrence : ToolCallOccurrence) : Prop :=
  ∀ result, occurrence.result = some result → result.IsFrom calls messages

/-- The places in the transcript of the results of calls. -/
def sources (occurrences : List ToolCallOccurrence) : List ℕ :=
  occurrences.filterMap fun occurrence => occurrence.result.map Sourced.source

section Keeps

variable {occurrences : List ToolCallOccurrence} {id : Utf16} {result : Sourced} {place : ℕ}
  {occurrence : ToolCallOccurrence}

theorem normalizeOptionalString_eq_some {value : Option Utf16} {name : Utf16}
    (h : normalizeOptionalString value = some name) : normalizeOptionalString (some name) = some name := by
  obtain ⟨hmap, hne⟩ := Option.filter_eq_some_iff.mp h
  obtain ⟨raw, -, rfl⟩ := Option.map_eq_some_iff.mp hmap
  exact Option.filter_eq_some_iff.mpr ⟨congrArg some (trim_trim raw), hne⟩

theorem normalizeToolResultName_idem (result : Sourced) (name : Option Utf16) :
    normalizeToolResultName (normalizeToolResultName result name) name =
      normalizeToolResultName result name := by
  have hnamed : ∀ {value : Option Utf16} {toolName : Utf16},
      normalizeOptionalString value = some toolName →
        normalizeToolResultName (result.withName toolName) name = result.withName toolName := by
    intro value toolName h
    have hname : normalizeOptionalString (result.withName toolName).message.toolName = some toolName :=
      normalizeOptionalString_eq_some h
    rw [normalizeToolResultName, hname]
    exact if_pos rfl
  conv_rhs => rw [normalizeToolResultName]
  conv_lhs => rw [normalizeToolResultName.eq_1 result]
  cases hraw : normalizeOptionalString result.message.toolName with
  | some toolName =>
    dsimp only
    split_ifs with hsame
    · rw [normalizeToolResultName, hraw]
      exact if_pos hsame
    · exact hnamed hraw
  | none =>
    cases hfallback : normalizeOptionalString name with
    | some toolName => exact hnamed hfallback
    | none =>
      dsimp only
      split_ifs with hsome
      · exact @hnamed (some UNKNOWN_TOOL) UNKNOWN_TOOL (by decide)
      · rw [normalizeToolResultName, hraw, hfallback]
        exact if_neg hsome

theorem map_call_modify (place : ℕ) (result : Sourced) :
    (occurrences.modify place (ToolCallOccurrence.answer result)).map ToolCallOccurrence.call =
      occurrences.map ToolCallOccurrence.call := by
  apply List.ext_getElem?
  intro other
  rw [List.getElem?_map, List.getElem?_map, List.getElem?_modify]
  split_ifs
  · cases occurrences[other]? <;> rfl
  · cases occurrences[other]? <;> rfl

theorem Owned.modify (h : Owned occurrences) (hget : occurrences[place]? = some occurrence)
    (hid : extractToolResultId result.message = some occurrence.id) :
    Owned (occurrences.modify place (ToolCallOccurrence.answer result)) := by
  intro after hafter present hpresent
  obtain ⟨other, hother⟩ := List.mem_iff_getElem?.mp hafter
  obtain ⟨before, hbefore, hsame, -, rfl | ⟨rfl, rfl⟩⟩ := getElem?_modify_answer hother
  · exact h after (List.mem_of_getElem? hbefore) present hpresent
  · obtain rfl := Option.some.inj (hget.symm.trans hbefore)
    obtain rfl := Option.some.inj hpresent
    exact ⟨extractToolResultId_normalizeToolResultName.trans hid,
      normalizeToolResultName_idem result occurrence.name⟩

/-- A call is answered that had a result, or before which all calls with its id have one. -/
theorem InOrder.modify (h : InOrder occurrences) (hget : occurrences[place]? = some occurrence)
    (hfirst : occurrence.isUnfilled = true → ∀ other before, other < place →
      occurrences[other]? = some before → before.id = occurrence.id → before.isUnfilled = false) :
    InOrder (occurrences.modify place (ToolCallOccurrence.answer result)) := by
  intro i j first second hlt hi hj hid hunfilled
  obtain ⟨first', hi', hfirstId, -, rfl | ⟨rfl, rfl⟩⟩ := getElem?_modify_answer hi
  · obtain ⟨second', hj', hsecondId, -, rfl | ⟨rfl, rfl⟩⟩ := getElem?_modify_answer hj
    · exact h i j first second hlt hi' hj' hid hunfilled
    · obtain rfl := Option.some.inj (hget.symm.trans hj')
      have hsecond := h i place first occurrence hlt hi' hget (hid.trans hsecondId.symm) hunfilled
      rw [hfirst hsecond i first hlt hi' (hid.trans hsecondId.symm)] at hunfilled
      cases hunfilled
  · rw [isUnfilled_answer] at hunfilled
    cases hunfilled

/-- The call that is answered, among the others. -/
theorem exists_split (hget : occurrences[place]? = some occurrence) (result : Sourced) :
    ∃ before after, occurrences = before ++ occurrence :: after ∧
      occurrences.modify place (ToolCallOccurrence.answer result) =
        before ++ occurrence.answer result :: after := by
  obtain ⟨hlt, hget⟩ := List.getElem?_eq_some_iff.mp hget
  obtain ⟨before, found, after, hsplit, hlength, hmodify⟩ :=
    List.exists_of_modify (ToolCallOccurrence.answer result) hlt
  have hfound : found = occurrence := by
    rw [← hget]
    simp only [hsplit, ← hlength, List.getElem_append_right, Nat.le_refl, Nat.sub_self,
      List.getElem_cons_zero]
  exact ⟨before, after, hfound ▸ hsplit, hfound ▸ hmodify⟩

theorem sources_append (first second : List ToolCallOccurrence) :
    sources (first ++ second) = sources first ++ sources second := List.filterMap_append

/-- The source of an answer is new, and that of a result it replaces is gone. -/
theorem sources_modify (hget : occurrences[place]? = some occurrence) (result : Sourced) :
    (sources (occurrences.modify place (ToolCallOccurrence.answer result))).Subperm
        (sources occurrences ++ [result.source]) ∧
      (sources (occurrences.modify place (ToolCallOccurrence.answer result))).length =
        (sources occurrences).length + if occurrence.isUnfilled then 1 else 0 := by
  obtain ⟨before, after, hsplit, hmodify⟩ := exists_split hget result
  have hanswer : sources (occurrence.answer result :: after) = result.source :: sources after := by
    rw [sources, List.filterMap_cons]
    show (normalizeToolResultName result occurrence.name).source :: _ = _
    rw [source_normalizeToolResultName]
    rfl
  rw [hmodify, hsplit, sources_append, sources_append, hanswer]
  cases hresult : occurrence.result with
  | none =>
    have hsources : sources (occurrence :: after) = sources after := by
      rw [sources, List.filterMap_cons, hresult]
      rfl
    rw [hsources, ToolCallOccurrence.isUnfilled, hresult]
    refine ⟨List.Perm.subperm ?_, ?_⟩
    · exact (List.perm_middle).trans (List.perm_append_singleton _ _).symm
    · simp only [List.length_append, List.length_cons, Option.isNone_none, if_true]
      omega
  | some present =>
    have hsources : sources (occurrence :: after) = present.source :: sources after := by
      rw [sources, List.filterMap_cons, hresult]
      rfl
    rw [hsources, ToolCallOccurrence.isUnfilled, hresult]
    refine ⟨?_, ?_⟩
    · have hkept : (sources before ++ sources after).Subperm
          (sources before ++ present.source :: sources after) :=
        ((List.sublist_cons_self _ _).append_left _).subperm
      have hnew := (@List.perm_middle _ result.source (sources before) (sources after)).subperm.trans ((List.subperm_cons result.source).mpr hkept)
      exact hnew.trans (List.perm_append_singleton _ _).symm.subperm
    · simp only [List.length_append, List.length_cons, Option.isNone_some, Bool.false_eq_true,
        if_false, Nat.add_zero]

variable {toolCalls toolCalls' : List ToolCallLike} {messages messages' : List (AgentMessage × ℕ)}

theorem SameContent.refl (toolCalls : List ToolCallLike) (message : ToolResultMessage) :
    SameContent toolCalls message message :=
  ⟨rfl, .inl ⟨rfl, rfl⟩⟩

theorem Sourced.IsFrom.mono (h : result.IsFrom toolCalls messages) (hcalls : toolCalls ⊆ toolCalls')
    (hsub : messages ⊆ messages') : result.IsFrom toolCalls' messages' := by
  obtain ⟨original, hmem, hcontent, hsame⟩ := h
  refine ⟨original, hsub hmem, ⟨hcontent.content, ?_⟩, hsame⟩
  rcases hcontent.owner with howner | ⟨hnone, herror, call, hcall, hid⟩
  · exact .inl howner
  · exact .inr ⟨hnone, herror, call, hcalls hcall, hid⟩

theorem Sourced.IsFrom.normalizeToolResultName (h : result.IsFrom toolCalls messages)
    (name : Option Utf16) : (normalizeToolResultName result name).IsFrom toolCalls messages := by
  obtain heq | ⟨toolName, heq⟩ := normalizeToolResultName_cases result name
  · rw [heq]
    exact h
  · obtain ⟨original, hmem, hcontent, -⟩ := h
    rw [heq]
    refine ⟨original, hmem, ⟨?_, hcontent.owner⟩, fun hcopied => by cases hcopied⟩
    show { result.message with toolName := some toolName } = _
    rw [hcontent.content]
    rfl

theorem isFrom_legacyResult {message : ToolResultMessage} {index : ℕ}
    (h : (AgentMessage.toolResult message, index) ∈ messages) :
    (legacyResult toolCalls message index).IsFrom toolCalls messages := by
  have hsame : (⟨message, index, false⟩ : Sourced).IsFrom toolCalls messages :=
    ⟨message, h, .refl toolCalls message, fun _ => rfl⟩
  unfold legacyResult normalizeLegacyToolResultId
  dsimp only
  cases hid : extractToolResultId message with
  | some id => exact hsame
  | none =>
    obtain _ | ⟨toolCall, _ | ⟨other, rest⟩⟩ := toolCalls
    · exact hsame
    · have hcopy : (⟨{ message with toolCallId := some toolCall.id, isError := true }, index, true⟩ :
          Sourced).IsFrom [toolCall] messages := by
        refine ⟨message, h, ⟨rfl, .inr ⟨hid, rfl, ?_⟩⟩, fun hcopied => by cases hcopied⟩
        exact ⟨toolCall, List.mem_cons_self, rfl⟩
      dsimp only
      split
      · split_ifs
        · exact hsame
        · exact hcopy
      · exact hcopy
    · exact hsame

theorem isFrom_modify (h : ∀ occurrence ∈ occurrences, occurrence.IsFrom toolCalls messages)
    (hresult : result.IsFrom toolCalls messages) :
    ∀ occurrence ∈ occurrences.modify place (ToolCallOccurrence.answer result),
      occurrence.IsFrom toolCalls messages := by
  intro after hafter present hpresent
  obtain ⟨other, hother⟩ := List.mem_iff_getElem?.mp hafter
  obtain ⟨before, hbefore, -, -, rfl | ⟨-, rfl⟩⟩ := getElem?_modify_answer hother
  · exact h after (List.mem_of_getElem? hbefore) present hpresent
  · obtain rfl := Option.some.inj hpresent
    exact hresult.normalizeToolResultName before.name

variable {occurrences' : List ToolCallOccurrence} {dropped : ℕ}

theorem Fills.calls (h : Fills occurrences id result occurrences' dropped) :
    occurrences'.map ToolCallOccurrence.call = occurrences.map ToolCallOccurrence.call := by
  cases h with
  | unfilled place => exact map_call_modify place result
  | replaced place => exact map_call_modify place result
  | dropped => rfl

theorem Fills.owned (h : Fills occurrences id result occurrences' dropped)
    (hid : extractToolResultId result.message = some id) (howned : Owned occurrences) :
    Owned occurrences' := by
  cases h with
  | unfilled place occurrence hget hsame => exact howned.modify hget (hid.trans (congrArg some hsame.symm))
  | replaced place occurrence hget hsame => exact howned.modify hget (hid.trans (congrArg some hsame.symm))
  | dropped => exact howned

theorem Fills.inOrder (h : Fills occurrences id result occurrences' dropped)
    (horder : InOrder occurrences) : InOrder occurrences' := by
  cases h with
  | unfilled place occurrence hget hid hunfilled hfirst =>
    apply horder.modify hget
    intro _ other before hlt hother hsame
    exact hfirst other before hlt hother (hsame.trans hid)
  | replaced place occurrence hget hid hsynthetic hresult hfull =>
    apply horder.modify hget
    intro hunfilled
    rw [hfull occurrence (List.mem_of_getElem? hget) hid] at hunfilled
    cases hunfilled
  | dropped => exact horder

theorem Fills.isFrom (h : Fills occurrences id result occurrences' dropped)
    (hall : ∀ occurrence ∈ occurrences, occurrence.IsFrom toolCalls messages)
    (hresult : result.IsFrom toolCalls messages) :
    ∀ occurrence ∈ occurrences', occurrence.IsFrom toolCalls messages := by
  cases h with
  | unfilled place => exact isFrom_modify hall hresult
  | replaced place => exact isFrom_modify hall hresult
  | dropped => exact hall

theorem Fills.sources (h : Fills occurrences id result occurrences' dropped) :
    (sources occurrences').Subperm (sources occurrences ++ [result.source]) ∧
      (sources occurrences').length + dropped = (sources occurrences).length + 1 := by
  cases h with
  | unfilled place occurrence hget hid hunfilled =>
    obtain ⟨hsubperm, hlength⟩ := sources_modify hget result
    rw [if_pos hunfilled] at hlength
    exact ⟨hsubperm, hlength⟩
  | replaced place occurrence hget hid hsynthetic hresult hfull =>
    obtain ⟨hsubperm, hlength⟩ := sources_modify hget result
    rw [hfull occurrence (List.mem_of_getElem? hget) hid, if_neg Bool.false_ne_true] at hlength
    exact ⟨hsubperm, by rw [hlength]⟩
  | dropped => exact ⟨(List.sublist_append_left _ _).subperm, rfl⟩

end Keeps

def ToolCallOccurrence.isReal (occurrence : ToolCallOccurrence) : Bool :=
  occurrence.result.any fun result => !isSyntheticMissingToolResult result.message

def callCount (occurrences : List ToolCallOccurrence) (id : Utf16) : ℕ :=
  occurrences.countP fun occurrence => occurrence.id = id

def realCount (occurrences : List ToolCallOccurrence) (id : Utf16) : ℕ :=
  occurrences.countP fun occurrence => occurrence.id = id && occurrence.isReal

def answeredCount (occurrences : List ToolCallOccurrence) (id : Utf16) : ℕ :=
  occurrences.countP fun occurrence => occurrence.id = id && !occurrence.isUnfilled

/-- As many calls with an id have results of a tool as can, after a number of such results. -/
structure Placed (occurrences : List ToolCallOccurrence) (id : Utf16) (count : ℕ) : Prop where
  placed : realCount occurrences id = min (callCount occurrences id) count
  unfilled : (∃ occurrence ∈ occurrences, occurrence.id = id ∧ occurrence.isUnfilled = true) →
    realCount occurrences id = count

section Real

variable {occurrences occurrences' : List ToolCallOccurrence} {id : Utf16} {result : Sourced}
  {dropped count : ℕ}

theorem realCount_le (occurrences : List ToolCallOccurrence) (id : Utf16) :
    realCount occurrences id ≤ callCount occurrences id :=
  List.countP_mono_left fun _ _ h => ((Bool.and_eq_true _ _).mp h).1

theorem answeredCount_le (occurrences : List ToolCallOccurrence) (id : Utf16) :
    answeredCount occurrences id ≤ callCount occurrences id :=
  List.countP_mono_left fun _ _ h => ((Bool.and_eq_true _ _).mp h).1

/-- Where as many calls with an id pass a test as there are, all of them do. -/
theorem of_callCount_le {p : ToolCallOccurrence → Bool}
    (h : callCount occurrences id ≤
      occurrences.countP fun occurrence => occurrence.id = id && p occurrence) :
    ∀ occurrence ∈ occurrences, occurrence.id = id → p occurrence = true := by
  have hcount : (occurrences.countP fun occurrence => occurrence.id = id && p occurrence) =
      (occurrences.filter fun occurrence => occurrence.id = id).countP p := by
    rw [List.countP_filter]
    exact List.countP_congr fun occurrence _ => by rw [Bool.and_comm]
  rw [hcount, callCount, List.countP_eq_length_filter] at h
  have hall := List.countP_eq_length.mp (Nat.le_antisymm List.countP_le_length h)
  intro occurrence hmem hid
  exact hall occurrence (List.mem_filter.mpr ⟨hmem, decide_eq_true hid⟩)

theorem callCount_eq_zero (h : places occurrences id = []) : callCount occurrences id = 0 := by
  apply List.countP_eq_zero.mpr
  intro occurrence hmem
  obtain ⟨place, hget⟩ := List.mem_iff_getElem?.mp hmem
  rw [decide_eq_true_eq]
  intro hid
  have hplace := mem_places.mpr ⟨occurrence, hget, hid⟩
  rw [h] at hplace
  exact List.not_mem_nil hplace

theorem callCount_eq_of_calls
    (h : occurrences'.map ToolCallOccurrence.call = occurrences.map ToolCallOccurrence.call)
    (id : Utf16) : callCount occurrences' id = callCount occurrences id := by
  have hcount : ∀ l : List ToolCallOccurrence, callCount l id =
      (l.map ToolCallOccurrence.call).countP fun call => call.id = id := by
    intro l
    rw [callCount, List.countP_map]
    rfl
  rw [hcount, hcount, h]

theorem isReal_answer (occurrence : ToolCallOccurrence) :
    (occurrence.answer result).isReal = !isSyntheticMissingToolResult result.message :=
  congrArg not isSynthetic_normalizeToolResultName

theorem isReal_of_isUnfilled {occurrence : ToolCallOccurrence} (h : occurrence.isUnfilled = true) :
    occurrence.isReal = false := by
  rw [ToolCallOccurrence.isReal, Option.isNone_iff_eq_none.mp h]
  rfl

theorem isReal_of_isSynthetic {occurrence : ToolCallOccurrence} (h : occurrence.isSynthetic = true) :
    occurrence.isReal = false := by
  obtain ⟨present, hpresent, hsynthetic⟩ := (Option.any_eq_true _ _).mp h
  rw [ToolCallOccurrence.isReal, hpresent, Option.any_some, hsynthetic]
  rfl

/-- A call without a result of a tool is answered. -/
theorem realCount_modify {place : ℕ} {occurrence : ToolCallOccurrence}
    (hget : occurrences[place]? = some occurrence) (hreal : occurrence.isReal = false) (id : Utf16) :
    realCount (occurrences.modify place (ToolCallOccurrence.answer result)) id =
      realCount occurrences id +
        if occurrence.id = id ∧ isSyntheticMissingToolResult result.message = false then 1 else 0 := by
  obtain ⟨before, after, hsplit, hmodify⟩ := exists_split hget result
  rw [hmodify, hsplit, realCount, realCount, List.countP_append, List.countP_append,
    List.countP_cons, List.countP_cons, hreal, isReal_answer]
  have hid : (occurrence.answer result).id = occurrence.id := rfl
  rw [hid]
  by_cases hsame : occurrence.id = id
  · cases isSyntheticMissingToolResult result.message <;> simp [hsame, Nat.add_assoc]
  · simp [hsame]

theorem mem_answered {place : ℕ} {p : Prop} (hp : ∀ occurrence ∈ occurrences, occurrence.id = id →
    occurrence.isUnfilled = false) : (∃ occurrence ∈
      occurrences.modify place (ToolCallOccurrence.answer result), occurrence.id = id ∧
        occurrence.isUnfilled = true) → p := by
  rintro ⟨after, hafter, hid, hunfilled⟩
  obtain ⟨other, hother⟩ := List.mem_iff_getElem?.mp hafter
  obtain ⟨before, hbefore, hsame, -, rfl | ⟨-, rfl⟩⟩ := getElem?_modify_answer hother
  · rw [hp after (List.mem_of_getElem? hbefore) hid] at hunfilled
    cases hunfilled
  · rw [isUnfilled_answer] at hunfilled
    cases hunfilled

/-- One more result with an id. -/
theorem Fills.placed (h : Fills occurrences id result occurrences' dropped)
    (hplaced : Placed occurrences id count) : Placed occurrences' id
      (count + if isSyntheticMissingToolResult result.message then 0 else 1) := by
  have hcalls := callCount_eq_of_calls h.calls id
  have hle := realCount_le occurrences' id
  have hbefore := hplaced.placed
  cases h with
  | unfilled place occurrence hget hid hunfilled =>
    have hcount := @realCount_modify occurrences result place occurrence hget
      (isReal_of_isUnfilled hunfilled) id
    have hsame := hplaced.unfilled ⟨occurrence, List.mem_of_getElem? hget, hid, hunfilled⟩
    have hafter : realCount (occurrences.modify place (ToolCallOccurrence.answer result)) id =
        count + if isSyntheticMissingToolResult result.message then 0 else 1 := by
      rw [hcount, hsame]
      cases isSyntheticMissingToolResult result.message <;> simp [hid]
    exact ⟨by rw [hafter] at hle ⊢; exact (min_eq_right hle).symm, fun _ => hafter⟩
  | replaced place occurrence hget hid hsynthetic hresult hfull =>
    have hcount := @realCount_modify occurrences result place occurrence hget
      (isReal_of_isSynthetic hsynthetic) id
    rw [if_pos ⟨hid, hresult⟩] at hcount
    rw [hresult, if_neg Bool.false_ne_true]
    refine ⟨?_, mem_answered hfull⟩
    rw [hcalls, hcount] at hle ⊢
    omega
  | dropped hfull hreal =>
    refine ⟨?_, fun hunfilled => ?_⟩
    · cases hresult : isSyntheticMissingToolResult result.message with
      | true => exact hbefore
      | false =>
        have hall : realCount occurrences id = callCount occurrences id := by
          apply List.countP_congr
          intro occurrence hmem
          rw [Bool.and_eq_true, decide_eq_true_eq]
          refine ⟨fun h => h.1, fun hid => ⟨hid, ?_⟩⟩
          have hunfilled := hfull occurrence hmem hid
          have hsynthetic := hreal hresult occurrence hmem hid
          rw [ToolCallOccurrence.isUnfilled] at hunfilled
          rw [ToolCallOccurrence.isSynthetic] at hsynthetic
          rw [ToolCallOccurrence.isReal]
          cases hpresent : occurrence.result with
          | none =>
            rw [hpresent] at hunfilled
            cases hunfilled
          | some present =>
            rw [hpresent, Option.any_some] at hsynthetic
            rw [Option.any_some, hsynthetic]
            rfl
        rw [if_neg Bool.false_ne_true]
        omega
    · obtain ⟨occurrence, hmem, hid, hunfilled⟩ := hunfilled
      rw [hfull occurrence hmem hid] at hunfilled
      cases hunfilled

/-- The answer of a call with another id. -/
theorem Placed.modify_ne {place : ℕ} {occurrence : ToolCallOccurrence}
    (h : Placed occurrences id count) (hget : occurrences[place]? = some occurrence)
    (hne : occurrence.id ≠ id) :
    Placed (occurrences.modify place (ToolCallOccurrence.answer result)) id count := by
  have hreal : realCount (occurrences.modify place (ToolCallOccurrence.answer result)) id =
      realCount occurrences id := by
    obtain ⟨before, after, hsplit, hmodify⟩ := exists_split hget result
    have hid : (occurrence.answer result).id ≠ id := hne
    rw [hmodify, hsplit]
    simp [realCount, hne, hid]
  refine ⟨?_, fun hunfilled => ?_⟩
  · rw [hreal, callCount_eq_of_calls (map_call_modify place result)]
    exact h.placed
  · rw [hreal]
    apply h.unfilled
    obtain ⟨after, hafter, hid, hunfilled⟩ := hunfilled
    obtain ⟨other, hother⟩ := List.mem_iff_getElem?.mp hafter
    obtain ⟨before, hbefore, -, -, rfl | ⟨rfl, rfl⟩⟩ := getElem?_modify_answer hother
    · exact ⟨after, List.mem_of_getElem? hbefore, hid, hunfilled⟩
    · rw [isUnfilled_answer] at hunfilled
      cases hunfilled

theorem answeredCount_modify {place : ℕ} {occurrence : ToolCallOccurrence}
    (hget : occurrences[place]? = some occurrence) (id : Utf16) :
    answeredCount (occurrences.modify place (ToolCallOccurrence.answer result)) id =
      answeredCount occurrences id +
        if occurrence.id = id ∧ occurrence.isUnfilled = true then 1 else 0 := by
  obtain ⟨before, after, hsplit, hmodify⟩ := exists_split hget result
  have hid : (occurrence.answer result).id = occurrence.id := rfl
  rw [hmodify, hsplit, answeredCount, answeredCount, List.countP_append, List.countP_append,
    List.countP_cons, List.countP_cons, isUnfilled_answer, hid]
  by_cases hsame : occurrence.id = id
  · cases occurrence.isUnfilled <;> simp [hsame, Nat.add_assoc]
  · simp [hsame]

/-- One more result with an id, of a tool or not. -/
theorem Fills.answered (h : Fills occurrences id result occurrences' dropped)
    (hcount : answeredCount occurrences id = min (callCount occurrences id) count) :
    answeredCount occurrences' id = min (callCount occurrences' id) (count + 1) := by
  have hcalls := callCount_eq_of_calls h.calls id
  have hle := answeredCount_le occurrences' id
  have hall : (∀ occurrence ∈ occurrences, occurrence.id = id → occurrence.isUnfilled = false) →
      answeredCount occurrences id = callCount occurrences id := by
    intro hfull
    apply List.countP_congr
    intro occurrence hmem
    rw [Bool.and_eq_true, decide_eq_true_eq, Bool.not_eq_true']
    exact ⟨fun h => h.1, fun hid => ⟨hid, hfull occurrence hmem hid⟩⟩
  cases h with
  | unfilled place occurrence hget hid hunfilled =>
    have hmore := @answeredCount_modify occurrences result place occurrence hget id
    rw [if_pos ⟨hid, hunfilled⟩] at hmore
    omega
  | replaced place occurrence hget hid hsynthetic hresult hfull =>
    have hsame := @answeredCount_modify occurrences result place occurrence hget id
    rw [hfull occurrence (List.mem_of_getElem? hget) hid] at hsame
    have hfilled := hall hfull
    simp only [Bool.false_eq_true, and_false, if_false] at hsame
    omega
  | dropped hfull =>
    have hfilled := hall hfull
    omega

theorem Fills.answered_ne {other : Utf16} (hne : other ≠ id)
    (h : Fills occurrences other result occurrences' dropped) :
    answeredCount occurrences' id = answeredCount occurrences id := by
  have hmodify : ∀ {place occurrence}, occurrences[place]? = some occurrence →
      occurrence.id = other →
        answeredCount (occurrences.modify place (ToolCallOccurrence.answer result)) id =
          answeredCount occurrences id := by
    intro place occurrence hget hid
    rw [answeredCount_modify hget, if_neg fun h => hne (hid.symm.trans h.1)]
    rfl
  cases h with
  | unfilled place occurrence hget hid => exact hmodify hget hid
  | replaced place occurrence hget hid => exact hmodify hget hid
  | dropped => rfl

theorem Fills.placed_ne {other : Utf16} (hne : other ≠ id)
    (h : Fills occurrences other result occurrences' dropped) (hplaced : Placed occurrences id count) :
    Placed occurrences' id count := by
  cases h with
  | unfilled place occurrence hget hid => exact hplaced.modify_ne hget (hid.symm ▸ hne)
  | replaced place occurrence hget hid => exact hplaced.modify_ne hget (hid.symm ▸ hne)
  | dropped => exact hplaced

end Real

def AgentMessage.isResult : AgentMessage → Bool
  | .toolResult _ => true
  | _ => false

/-- The places of the results among messages. -/
def resultPlaces (messages : List (AgentMessage × ℕ)) : List ℕ :=
  (messages.filter fun entry => entry.1.isResult).map Prod.snd

/-- A result of a tool with an id, as a frame sees it. -/
def isRealFor (toolCalls : List ToolCallLike) (id : Utf16) : AgentMessage × ℕ → Bool
  | (.toolResult message, index) =>
    extractToolResultId (legacyResult toolCalls message index).message = some id &&
      !isSyntheticMissingToolResult (legacyResult toolCalls message index).message
  | _ => false

/-- A result with an id, of a tool or not. -/
def isAnswerFor (toolCalls : List ToolCallLike) (id : Utf16) : AgentMessage × ℕ → Bool
  | (.toolResult message, index) =>
    extractToolResultId (legacyResult toolCalls message index).message = some id
  | _ => false

/-- What holds of a frame in which some messages were read. -/
structure FrameRead (toolCalls : List ToolCallLike) (seen : List (AgentMessage × ℕ))
    (state : FrameState) : Prop where
  calls : state.occurrences.map ToolCallOccurrence.call = toolCalls
  owned : Owned state.occurrences
  inOrder : InOrder state.occurrences
  remainder : state.remainder = seen.filter fun entry => entry.1.isPlain
  records : ∀ record ∈ state.unclaimedResults,
    record.id = extractToolResultId record.result.message
  sources : (sources state.occurrences ++
    state.unclaimedResults.map fun record => record.result.source).Subperm (resultPlaces seen)
  count : (Transcript.sources state.occurrences).length + state.unclaimedResults.length +
    state.droppedDuplicateCount = (resultPlaces seen).length
  placed : ∀ id, Placed state.occurrences id (seen.countP (isRealFor toolCalls id))
  isFrom : ∀ occurrence ∈ state.occurrences, occurrence.IsFrom toolCalls seen
  recordFrom : ∀ record ∈ state.unclaimedResults, record.result.IsFrom toolCalls seen

section FrameReads

variable {toolCalls : List ToolCallLike} {state state' : FrameState} {id : Utf16} {result : Sourced}

theorem Claims.fills (h : Claims state id result state') : ∃ dropped,
    Fills state.occurrences id result state'.occurrences dropped ∧
      state'.droppedDuplicateCount = state.droppedDuplicateCount + dropped := by
  have hfills := fills_fill state.occurrences id result
  rw [← h.occurrences] at hfills
  exact ⟨_, hfills, h.duplicates⟩

theorem source_legacyResult (toolCalls : List ToolCallLike) (message : ToolResultMessage)
    (index : ℕ) : (legacyResult toolCalls message index).source = index := by
  unfold legacyResult normalizeLegacyToolResultId
  split
  · split
    · split_ifs <;> rfl
    · rfl
  · rfl

theorem resultPlaces_append (messages : List (AgentMessage × ℕ)) (entry : AgentMessage × ℕ) :
    resultPlaces (messages ++ [entry]) =
      resultPlaces messages ++ if entry.1.isResult then [entry.2] else [] := by
  rw [resultPlaces, List.filter_append, List.map_append, List.filter_singleton]
  cases entry.1.isResult <;> rfl

theorem not_isResult_of_isPlain {message : AgentMessage} (h : message.isPlain = true) :
    message.isResult = false := by
  cases message with
  | toolResult message => cases h
  | _ => rfl

theorem frameRead_start (toolCalls : List ToolCallLike) :
    FrameRead toolCalls [] (.start toolCalls) := by
  have hunfilled : ∀ occurrence ∈ toolCalls.map ToolCallLike.occurrence, occurrence.result = none := by
    intro occurrence hmem
    obtain ⟨toolCall, -, rfl⟩ := List.mem_map.mp hmem
    rfl
  have hsources : sources (toolCalls.map ToolCallLike.occurrence) = [] := by
    apply List.filterMap_eq_nil_iff.mpr
    intro occurrence hmem
    rw [hunfilled occurrence hmem]
    rfl
  have hreal : ∀ id, realCount (toolCalls.map ToolCallLike.occurrence) id = 0 := by
    intro id
    apply List.countP_eq_zero.mpr
    intro occurrence hmem
    rw [ToolCallOccurrence.isReal, hunfilled occurrence hmem]
    simp
  refine ⟨?_, fun occurrence hmem present hpresent => ?_, fun i j first second _ _ hj _ _ => ?_, rfl,
    fun _ h => (List.not_mem_nil h).elim, ?_, ?_, fun id => ⟨?_, fun _ => ?_⟩,
    fun occurrence hmem present hpresent => ?_, fun _ h => (List.not_mem_nil h).elim⟩
  · show (toolCalls.map ToolCallLike.occurrence).map ToolCallOccurrence.call = toolCalls
    rw [List.map_map]
    exact List.map_id toolCalls
  · rw [hunfilled occurrence hmem] at hpresent
    cases hpresent
  · exact Option.isNone_iff_eq_none.mpr (hunfilled second (List.mem_of_getElem? hj))
  · show (sources (toolCalls.map ToolCallLike.occurrence) ++ []).Subperm []
    rw [hsources]
    exact List.Subperm.refl []
  · show (sources (toolCalls.map ToolCallLike.occurrence)).length + 0 + 0 = 0
    rw [hsources]
    rfl
  · rw [List.countP_nil, Nat.min_zero]
    exact hreal id
  · exact hreal id
  · rw [hunfilled occurrence hmem] at hpresent
    cases hpresent

/-- A step that leaves the calls alone. -/
theorem Placed.of_not_real {occurrences : List ToolCallOccurrence} {seen : List (AgentMessage × ℕ)}
    {entry : AgentMessage × ℕ} (h : Placed occurrences id (seen.countP (isRealFor toolCalls id)))
    (hentry : isRealFor toolCalls id entry = false) :
    Placed occurrences id ((seen ++ [entry]).countP (isRealFor toolCalls id)) := by
  rw [List.countP_append, List.countP_singleton, hentry]
  exact h

theorem FrameRead.step {seen : List (AgentMessage × ℕ)} {entry : AgentMessage × ℕ}
    (h : FrameRead toolCalls seen state) (hreads : Reads toolCalls state entry state') :
    FrameRead toolCalls (seen ++ [entry]) state' := by
  have hseen : seen ⊆ seen ++ [entry] := List.subset_append_left _ _
  have hisFrom : ∀ occurrence ∈ state.occurrences, occurrence.IsFrom toolCalls (seen ++ [entry]) :=
    fun occurrence hmem result hresult => (h.isFrom occurrence hmem result hresult).mono (List.Subset.refl _) hseen
  have hrecordFrom : ∀ record ∈ state.unclaimedResults, record.result.IsFrom toolCalls (seen ++ [entry]) :=
    fun record hmem => (h.recordFrom record hmem).mono (List.Subset.refl _) hseen
  cases hreads with
  | invalid value index =>
    refine ⟨h.calls, h.owned, h.inOrder, ?_, h.records, ?_, ?_, fun id => (h.placed id).of_not_real rfl,
      hisFrom, hrecordFrom⟩
    · rw [h.remainder, List.filter_append]
      exact (List.append_nil _).symm
    · rw [resultPlaces_append]
      exact (List.append_nil (resultPlaces seen)).symm ▸ h.sources
    · rw [resultPlaces_append]
      exact (List.append_nil (resultPlaces seen)).symm ▸ h.count
  | kept entry hplain =>
    have hresult := not_isResult_of_isPlain hplain
    refine ⟨h.calls, h.owned, h.inOrder, ?_, h.records, ?_, ?_, fun id => (h.placed id).of_not_real ?_,
      hisFrom, hrecordFrom⟩
    · rw [h.remainder, List.filter_append, List.filter_singleton, hplain]
      rfl
    · rw [resultPlaces_append, hresult]
      exact (List.append_nil (resultPlaces seen)).symm ▸ h.sources
    · rw [resultPlaces_append, hresult]
      exact (List.append_nil (resultPlaces seen)).symm ▸ h.count
    · obtain ⟨message, index⟩ := entry
      cases message with
      | toolResult message => cases hplain
      | _ => rfl
  | unclaimed message index hplaces =>
    refine ⟨h.calls, h.owned, h.inOrder, ?_, fun record hrecord => ?_, ?_, ?_, fun id => ?_, hisFrom,
      fun record hrecord => ?_⟩
    · show state.remainder = _
      rw [h.remainder, List.filter_append]
      exact (List.append_nil _).symm
    · rcases List.mem_append.mp hrecord with hrecord | hrecord
      · exact h.records record hrecord
      · obtain rfl := List.mem_singleton.mp hrecord
        rfl
    · show (Transcript.sources state.occurrences ++ (state.unclaimedResults ++ [_]).map _).Subperm _
      rw [List.map_append, ← List.append_assoc, resultPlaces_append, List.map_singleton,
        source_legacyResult]
      exact (List.subperm_append_right [index]).mpr h.sources
    · show (Transcript.sources state.occurrences).length + (state.unclaimedResults ++ [_]).length +
        state.droppedDuplicateCount = _
      have hcount := h.count
      rw [resultPlaces_append, List.length_append, List.length_append]
      show _ + (_ + 1) + _ = _ + 1
      omega
    · by_cases hreal : isRealFor toolCalls id (.toolResult message, index) = true
      · -- an id that no call of the frame has
        have hid := of_decide_eq_true ((Bool.and_eq_true _ _).mp hreal).1
        have hcalls := callCount_eq_zero (hplaces id hid)
        refine ⟨?_, fun hunfilled => ?_⟩
        · show realCount state.occurrences id = min (callCount state.occurrences id) _
          have hle := realCount_le state.occurrences id
          rw [hcalls] at hle ⊢
          omega
        · obtain ⟨occurrence, hmem, hsame, -⟩ := hunfilled
          exact absurd (decide_eq_true hsame) (List.countP_eq_zero.mp hcalls occurrence hmem)
      · exact (h.placed id).of_not_real (Bool.eq_false_iff.mpr hreal)
    · rcases List.mem_append.mp hrecord with hrecord | hrecord
      · exact hrecordFrom record hrecord
      · obtain rfl := List.mem_singleton.mp hrecord
        exact isFrom_legacyResult List.mem_concat_self
  | claimed message index id state' hid hclaims =>
    obtain ⟨dropped, hfills, hduplicates⟩ := hclaims.fills
    obtain ⟨hsubperm, hlength⟩ := hfills.sources
    rw [source_legacyResult] at hsubperm
    refine ⟨hfills.calls.trans h.calls, hfills.owned hid h.owned, hfills.inOrder h.inOrder, ?_, ?_, ?_,
      ?_, fun other => ?_, hfills.isFrom hisFrom (isFrom_legacyResult List.mem_concat_self), ?_⟩
    · rw [hclaims.remainder, h.remainder, List.filter_append]
      exact (List.append_nil _).symm
    · rw [hclaims.unclaimed]
      exact h.records
    · rw [hclaims.unclaimed, resultPlaces_append]
      have hmoved : ((Transcript.sources state.occurrences ++ [index]) ++
          state.unclaimedResults.map fun record => record.result.source).Subperm
            (resultPlaces seen ++ [index]) := by
        rw [List.append_assoc]
        have hperm : (Transcript.sources state.occurrences ++ ([index] ++
            state.unclaimedResults.map fun record => record.result.source)).Perm
              ((Transcript.sources state.occurrences ++
                state.unclaimedResults.map fun record => record.result.source) ++ [index]) := by
          rw [List.append_assoc]
          exact List.perm_append_comm.append_left _
        exact hperm.subperm.trans ((List.subperm_append_right [index]).mpr h.sources)
      exact ((List.subperm_append_right _).mpr hsubperm).trans hmoved
    · have hcount := h.count
      rw [hclaims.unclaimed, hduplicates, resultPlaces_append, List.length_append]
      show _ + _ + _ = _ + 1
      omega
    · by_cases hsame : other = id
      · subst hsame
        have hplaced := hfills.placed (h.placed other)
        rw [List.countP_append, List.countP_singleton]
        have hreal : isRealFor toolCalls other (.toolResult message, index) =
            !isSyntheticMissingToolResult (legacyResult toolCalls message index).message := by
          rw [isRealFor, hid, decide_eq_true rfl, Bool.true_and]
        rw [hreal]
        cases hsynthetic : isSyntheticMissingToolResult (legacyResult toolCalls message index).message with
        | true =>
          rw [hsynthetic] at hplaced
          exact hplaced
        | false =>
          rw [hsynthetic] at hplaced
          exact hplaced
      · apply (hfills.placed_ne (Ne.symm hsame) (h.placed other)).of_not_real
        rw [isRealFor, hid, Bool.and_eq_false_iff]
        exact .inl (decide_eq_false fun heq => hsame (Option.some.inj heq).symm)
    · rw [hclaims.unclaimed]
      exact hrecordFrom

theorem frameRead_readAll (span : FrameSpan) :
    FrameRead (extractToolCallsFromAssistant span.assistant) span.body span.readAll :=
  readAll_induction span (frameRead_start _) fun _ _ _ _ _ h hreads => h.step hreads

/-- As many calls with an id have a result as can, after all results of the frame with the id. -/
theorem answeredCount_readAll (span : FrameSpan) (id : Utf16) :
    answeredCount span.readAll.occurrences id = min (callCount span.readAll.occurrences id)
      (span.body.countP (isAnswerFor (extractToolCallsFromAssistant span.assistant) id)) := by
  apply @readAll_induction span fun seen state => answeredCount state.occurrences id =
    min (callCount state.occurrences id)
      (seen.countP (isAnswerFor (extractToolCallsFromAssistant span.assistant) id))
  · rw [List.countP_nil, Nat.min_zero]
    apply List.countP_eq_zero.mpr
    intro occurrence hmem
    obtain ⟨toolCall, -, rfl⟩ := List.mem_map.mp hmem
    rw [Bool.and_eq_true]
    exact fun h => by cases h.2
  · intro seen state entry state' _ h hreads
    have hskip : isAnswerFor (extractToolCallsFromAssistant span.assistant) id entry = false →
        (seen ++ [entry]).countP (isAnswerFor (extractToolCallsFromAssistant span.assistant) id) =
          seen.countP (isAnswerFor (extractToolCallsFromAssistant span.assistant) id) := by
      intro hentry
      rw [List.countP_append, List.countP_singleton, hentry]
      rfl
    cases hreads with
    | invalid value index => exact (hskip rfl).symm ▸ h
    | kept entry hplain =>
      have hentry : isAnswerFor (extractToolCallsFromAssistant span.assistant) id entry = false := by
        obtain ⟨message, index⟩ := entry
        cases message with
        | toolResult message => cases hplain
        | _ => rfl
      exact (hskip hentry).symm ▸ h
    | unclaimed message index hplaces =>
      show answeredCount state.occurrences id = min (callCount state.occurrences id) _
      by_cases hanswer : isAnswerFor (extractToolCallsFromAssistant span.assistant) id
          (.toolResult message, index) = true
      · have hcalls := callCount_eq_zero (hplaces id (of_decide_eq_true hanswer))
        rw [h, hcalls, Nat.zero_min, Nat.zero_min]
      · exact (hskip (Bool.eq_false_iff.mpr hanswer)).symm ▸ h
    | claimed message index other state' hid hclaims =>
      obtain ⟨dropped, hfills, -⟩ := hclaims.fills
      by_cases hsame : other = id
      · subst hsame
        have hanswer : isAnswerFor (extractToolCallsFromAssistant span.assistant) other
            (.toolResult message, index) = true := decide_eq_true hid
        rw [List.countP_append, List.countP_singleton, hanswer]
        exact hfills.answered h
      · have hanswer : isAnswerFor (extractToolCallsFromAssistant span.assistant) id
            (.toolResult message, index) = false :=
          decide_eq_false fun heq => hsame (Option.some.inj (hid.symm.trans heq))
        rw [hskip hanswer, hfills.answered_ne hsame, callCount_eq_of_calls hfills.calls]
        exact h

end FrameReads

/-- What the recovery keeps of the calls it began with. -/
structure Kept (initial final : List ToolCallOccurrence) : Prop where
  calls : final.map ToolCallOccurrence.call = initial.map ToolCallOccurrence.call
  owned : Owned final
  filled : ∀ (place : ℕ) (before after : ToolCallOccurrence), initial[place]? = some before →
    final[place]? = some after → before.isUnfilled = false → after.isUnfilled = false
  real : ∀ (place : ℕ) (before after : ToolCallOccurrence), initial[place]? = some before →
    final[place]? = some after → before.isReal = true → after.isReal = true
  first : ∀ (place : ℕ) (before after : ToolCallOccurrence), initial[place]? = some before →
    final[place]? = some after → before.isUnfilled = true → after.isUnfilled = false →
      ∀ (other : ℕ) (earlier : ToolCallOccurrence), other < place →
        final[other]? = some earlier → earlier.id = after.id → earlier.isUnfilled = false

/-- What holds after some results were recovered. -/
structure Recovered (initial : List ToolCallOccurrence) (duplicates : ℕ)
    (seen : List ToolResultRecord) (state : RecoveryState) : Prop where
  kept : Kept initial state.occurrences
  sources : (sources state.occurrences).Subperm
    (sources initial ++ seen.map fun record => record.result.source)
  count : (Transcript.sources state.occurrences).length + state.droppedDuplicateCount +
    state.droppedOrphanCount = (Transcript.sources initial).length + duplicates + seen.length
  isFrom : ∀ calls messages, (∀ occurrence ∈ initial, occurrence.IsFrom calls messages) →
    (∀ record ∈ seen, record.result.IsFrom calls messages) →
      ∀ occurrence ∈ state.occurrences, occurrence.IsFrom calls messages

section Recoveries

variable {initial : List ToolCallOccurrence} {duplicates bound : ℕ} {seen : List ToolResultRecord}
  {state state' : RecoveryState} {record : ToolResultRecord}

theorem not_isReal_of_isCandidate {result : Sourced} {occurrence : ToolCallOccurrence}
    (h : occurrence.isCandidate result = true) : occurrence.isReal = false := by
  rw [ToolCallOccurrence.isCandidate] at h
  rw [ToolCallOccurrence.isReal]
  cases hresult : occurrence.result with
  | none => rfl
  | some present =>
    rw [hresult, Bool.and_eq_true] at h
    rw [Option.any_some, h.1]
    rfl

theorem isCandidate_of_isUnfilled {result : Sourced} {occurrence : ToolCallOccurrence}
    (h : occurrence.isUnfilled = true) : occurrence.isCandidate result = true := by
  rw [ToolCallOccurrence.isCandidate, Option.isNone_iff_eq_none.mp h]

theorem Recovered.step (h : Recovered initial duplicates seen state)
    (hid : record.id = extractToolResultId record.result.message)
    (hrecovers : Recovers bound state record state') :
    Recovered initial duplicates (seen ++ [record]) state' := by
  cases hrecovers with
  | orphan =>
    refine ⟨h.kept, ?_, ?_, fun calls messages hinitial hseen =>
      h.isFrom calls messages hinitial fun record hmem => hseen record (List.mem_append_left _ hmem)⟩
    · rw [List.map_append, ← List.append_assoc]
      exact h.sources.trans (List.sublist_append_left _ _).subperm
    · have hcount := h.count
      rw [List.length_append]
      show (Transcript.sources state.occurrences).length + state.droppedDuplicateCount +
        (state.droppedOrphanCount + 1) = _ + (_ + 1)
      omega
  | moved place occurrence hlt hget hrecord hcandidate honly =>
    obtain ⟨hsubperm, hlength⟩ := sources_modify hget record.result
    refine ⟨⟨(map_call_modify place record.result).trans h.kept.calls,
      h.kept.owned.modify hget (hid.symm.trans hrecord), ?_, ?_, ?_⟩, ?_, ?_,
        fun calls messages hinitial hseen => isFrom_modify (h.isFrom calls messages hinitial fun record hmem =>
          hseen record (List.mem_append_left _ hmem)) (hseen record List.mem_concat_self)⟩
    · intro other before after hbefore hafter hfilled
      obtain ⟨middle, hmiddle, -, -, rfl | ⟨rfl, rfl⟩⟩ := getElem?_modify_answer hafter
      · exact h.kept.filled other before after hbefore hmiddle hfilled
      · rfl
    · intro other before after hbefore hafter hreal
      obtain ⟨middle, hmiddle, -, -, rfl | ⟨rfl, rfl⟩⟩ := getElem?_modify_answer hafter
      · exact h.kept.real other before after hbefore hmiddle hreal
      · obtain rfl := Option.some.inj (hget.symm.trans hmiddle)
        have hwas := h.kept.real place before occurrence hbefore hget hreal
        rw [not_isReal_of_isCandidate hcandidate] at hwas
        cases hwas
    · intro other before after hbefore hafter hunfilled hfilled first earlier hbelow hearlier hsame
      obtain ⟨earlier', hearlier', hid', -, rfl | ⟨rfl, rfl⟩⟩ := getElem?_modify_answer hearlier
      · obtain ⟨middle, hmiddle, hmiddleId, -, rfl | ⟨rfl, rfl⟩⟩ := getElem?_modify_answer hafter
        · exact h.kept.first other before after hbefore hmiddle hunfilled hfilled first earlier hbelow
            hearlier' hsame
        · -- a call before the one that was found, with its id, would have been found too
          obtain rfl := Option.some.inj (hget.symm.trans hmiddle)
          rw [Bool.eq_false_iff]
          intro hopen
          have hfound := honly first earlier (hbelow.trans hlt) hearlier' hsame
            (isCandidate_of_isUnfilled hopen)
          exact hbelow.ne hfound
      · rfl
    · rw [List.map_append, ← List.append_assoc]
      exact hsubperm.trans ((List.subperm_append_right _).mpr h.sources)
    · have hcount := h.count
      show (Transcript.sources _).length + (state.droppedDuplicateCount + _) +
        state.droppedOrphanCount = _
      rw [hlength, List.length_append, List.length_singleton]
      cases occurrence.isUnfilled with
      | true =>
        rw [if_pos rfl, if_pos rfl]
        omega
      | false =>
        rw [if_neg Bool.false_ne_true, if_neg Bool.false_ne_true]
        omega

theorem recovered_start (frames : List ToolUseFrame) (duplicates : ℕ)
    (howned : Owned (frames.flatMap ToolUseFrame.occurrences)) :
    Recovered (frames.flatMap ToolUseFrame.occurrences) duplicates []
      (startRecovery frames duplicates) := by
  have hsame : ∀ (place : ℕ) (before after : ToolCallOccurrence),
      (frames.flatMap ToolUseFrame.occurrences)[place]? = some before →
        (frames.flatMap ToolUseFrame.occurrences)[place]? = some after → before = after :=
    fun place before after hbefore hafter => Option.some.inj (hbefore.symm.trans hafter)
  refine ⟨⟨rfl, howned, ?_, ?_, ?_⟩, ?_, ?_, fun calls messages hinitial _ => hinitial⟩
  · intro place before after hbefore hafter hfilled
    exact hsame place before after hbefore hafter ▸ hfilled
  · intro place before after hbefore hafter hreal
    exact hsame place before after hbefore hafter ▸ hreal
  · intro place before after hbefore hafter hunfilled hfilled
    rw [hsame place before after hbefore hafter, hfilled] at hunfilled
    cases hunfilled
  · rw [List.map_nil, List.append_nil]
    exact List.Subperm.refl _
  · rfl

theorem tabled_start (frames : List ToolUseFrame) (duplicates : ℕ) :
    (startRecovery frames duplicates).Tabled 0 :=
  ⟨fun _ _ h => (List.not_mem_nil h).elim, fun _ => List.nodup_nil,
    fun _ _ h => (Nat.not_lt_zero _ h).elim⟩

/-- The calls after the recovery of all results. -/
theorem recovered_recoverFrames (frames : List ToolUseFrame) (duplicates : ℕ)
    (howned : Owned (frames.flatMap ToolUseFrame.occurrences))
    (hrecords : ∀ frame ∈ frames, ∀ record ∈ frame.unclaimedResults,
      record.id = extractToolResultId record.result.message) :
    Recovered (frames.flatMap ToolUseFrame.occurrences) duplicates
      (frames.flatMap ToolUseFrame.unclaimedResults)
      (recoverFrames 0 (startRecovery frames duplicates) frames) := by
  have hrun := @recoverFrames_induction
    (Recovered (frames.flatMap ToolUseFrame.occurrences) duplicates)
    (fun record => record.id = extractToolResultId record.result.message)
    (fun seen state state' h hoccurrences hduplicates horphans => ?_)
    (fun bound seen state record state' hid h hrecovers => h.step hid hrecovers)
    frames hrecords 0 [] _ (tabled_start frames duplicates) (recovered_start frames duplicates howned)
  · rwa [List.nil_append] at hrun
  · refine ⟨?_, ?_, ?_, ?_⟩
    · rw [hoccurrences]
      exact h.kept
    · rw [hoccurrences]
      exact h.sources
    · rw [hoccurrences, hduplicates, horphans]
      exact h.count
    · rw [hoccurrences]
      exact h.isFrom

/-- What is kept of all calls is kept of the first ones and of the others. -/
theorem Kept.split {before after before' after' : List ToolCallOccurrence}
    (hlength : before'.length = before.length) (h : Kept (before ++ after) (before' ++ after')) :
    Kept before before' ∧ Kept after after' := by
  have hleft : ∀ {first second : List ToolCallOccurrence} {place : ℕ} {occurrence : ToolCallOccurrence},
      first[place]? = some occurrence → (first ++ second)[place]? = some occurrence := by
    intro first second place occurrence hget
    rw [List.getElem?_append_left (List.getElem?_eq_some_iff.mp hget).1]
    exact hget
  have hright : ∀ {first second : List ToolCallOccurrence} {place : ℕ} {occurrence : ToolCallOccurrence},
      second[place]? = some occurrence → first.length = before.length →
        (first ++ second)[before.length + place]? = some occurrence := by
    intro first second place occurrence hget hsame
    rw [← hsame, List.getElem?_append_right (Nat.le_add_right _ _), Nat.add_sub_cancel_left]
    exact hget
  obtain ⟨hcalls, hcalls'⟩ : before'.map ToolCallOccurrence.call = before.map ToolCallOccurrence.call ∧
      after'.map ToolCallOccurrence.call = after.map ToolCallOccurrence.call := by
    have hall := h.calls
    rw [List.map_append, List.map_append] at hall
    exact List.append_inj hall (by rw [List.length_map, List.length_map, hlength])
  refine ⟨⟨hcalls, fun occurrence hmem => h.owned occurrence (List.mem_append_left _ hmem), ?_, ?_, ?_⟩,
    ⟨hcalls', fun occurrence hmem => h.owned occurrence (List.mem_append_right _ hmem), ?_, ?_, ?_⟩⟩
  · intro place first second hfirst hsecond
    exact h.filled place first second (hleft hfirst) (hleft hsecond)
  · intro place first second hfirst hsecond
    exact h.real place first second (hleft hfirst) (hleft hsecond)
  · intro place first second hfirst hsecond hunfilled hfilled other earlier hlt hearlier
    exact h.first place first second (hleft hfirst) (hleft hsecond) hunfilled hfilled other earlier hlt
      (hleft hearlier)
  · intro place first second hfirst hsecond
    exact h.filled _ first second (hright hfirst rfl) (hright hsecond hlength)
  · intro place first second hfirst hsecond
    exact h.real _ first second (hright hfirst rfl) (hright hsecond hlength)
  · intro place first second hfirst hsecond hunfilled hfilled other earlier hlt hearlier
    exact h.first _ first second (hright hfirst rfl) (hright hsecond hlength) hunfilled hfilled
      (before.length + other) earlier (Nat.add_lt_add_left hlt _) (hright hearlier hlength)

theorem Kept.length_eq {final : List ToolCallOccurrence} (h : Kept initial final) :
    final.length = initial.length := by
  have hlength := congrArg List.length h.calls
  rwa [List.length_map, List.length_map] at hlength

/-- The calls of a frame that is left as it was, and others that were kept. -/
theorem distribute_kept (frames : List ToolUseFrame) {final : List ToolCallOccurrence}
    (h : Kept (frames.flatMap ToolUseFrame.occurrences) final) :
    List.Forall₂ (fun frame frame' : ToolUseFrame =>
      frame' = { frame with occurrences := frame'.occurrences } ∧
        Kept frame.occurrences frame'.occurrences) frames (distribute frames final) := by
  induction frames generalizing final with
  | nil => exact .nil
  | cons frame frames ih =>
    have hlength := h.length_eq
    rw [List.flatMap_cons, List.length_append] at hlength
    have htake : (final.take frame.occurrences.length).length = frame.occurrences.length := by
      rw [List.length_take]
      omega
    rw [List.flatMap_cons, ← List.take_append_drop frame.occurrences.length final] at h
    obtain ⟨hframe, hframes⟩ := h.split htake
    exact .cons ⟨rfl, hframe⟩ (ih hframes)

/-- The calls of all frames, after they are given back. -/
theorem flatMap_distribute (frames : List ToolUseFrame) {final : List ToolCallOccurrence}
    (h : final.length = (frames.flatMap ToolUseFrame.occurrences).length) :
    (distribute frames final).flatMap ToolUseFrame.occurrences = final := by
  induction frames generalizing final with
  | nil => exact (List.eq_nil_of_length_eq_zero h).symm
  | cons frame frames ih =>
    rw [List.flatMap_cons, List.length_append] at h
    rw [distribute, List.flatMap_cons, ih (by rw [List.length_drop]; omega)]
    exact List.take_append_drop _ _

/-- The order of the results of a frame is not lost. -/
theorem Kept.inOrder {final : List ToolCallOccurrence} (h : Kept initial final)
    (horder : InOrder initial) : InOrder final := by
  intro i j first second hlt hi hj hid hunfilled
  have hbefore : ∀ {place : ℕ} {after : ToolCallOccurrence}, final[place]? = some after →
      ∃ before, initial[place]? = some before ∧ before.id = after.id := by
    intro place after hafter
    have hcalls := congrArg (fun calls => calls[place]?) h.calls
    simp only [List.getElem?_map, hafter, Option.map_some] at hcalls
    obtain ⟨before, hbefore, hcall⟩ := Option.map_eq_some_iff.mp hcalls.symm
    exact ⟨before, hbefore, congrArg ToolCallLike.id hcall⟩
  obtain ⟨first', hi', hfirst⟩ := hbefore hi
  obtain ⟨second', hj', hsecond⟩ := hbefore hj
  by_contra hfilled
  rw [Bool.not_eq_true] at hfilled
  cases hunfilled' : second'.isUnfilled with
  | true =>
    -- the second call was answered after the first one, which has its id
    rw [h.first j second' second hj' hj hunfilled' hfilled i first hlt hi hid] at hunfilled
    cases hunfilled
  | false =>
    cases hfirst' : first'.isUnfilled with
    | true =>
      have hopen := horder i j first' second' hlt hi' hj' (hfirst.trans (hid.trans hsecond.symm)) hfirst'
      rw [hunfilled'] at hopen
      cases hopen
    | false =>
      rw [h.filled i first' first hi' hi hfirst'] at hunfilled
      cases hunfilled

end Recoveries

def FrameSpan.entries (span : FrameSpan) : List (AgentMessage × ℕ) :=
  (.assistant span.assistant, span.startIndex) :: span.body

section Spans

variable {entries : List (AgentMessage × ℕ)}

theorem splitFrames_entries (entries : List (AgentMessage × ℕ)) :
    (splitFrames entries).1 ++ (splitFrames entries).2.flatMap FrameSpan.entries = entries := by
  induction entries with
  | nil => rfl
  | cons entry entries ih =>
    obtain ⟨message, index⟩ := entry
    have hkept : ((message, index) :: (splitFrames entries).1) ++
        (splitFrames entries).2.flatMap FrameSpan.entries = (message, index) :: entries :=
      congrArg ((message, index) :: ·) ih
    cases message with
    | assistant assistant =>
      rw [splitFrames]
      split_ifs
      · exact hkept
      · exact hkept
    | _ => exact hkept

/-- A turn with calls begins a span. -/
structure FrameSpan.WellFormed (span : FrameSpan) : Prop where
  calls : extractToolCallsFromAssistant span.assistant ≠ []
  body : ∀ entry ∈ span.body, toolCallsOf entry.1 = []

theorem splitFrames_wellFormed (entries : List (AgentMessage × ℕ)) :
    (∀ entry ∈ (splitFrames entries).1, toolCallsOf entry.1 = []) ∧
      ∀ span ∈ (splitFrames entries).2, span.WellFormed := by
  induction entries with
  | nil => exact ⟨fun _ h => (List.not_mem_nil h).elim, fun _ h => (List.not_mem_nil h).elim⟩
  | cons entry entries ih =>
    obtain ⟨message, index⟩ := entry
    obtain ⟨hunframed, hspans⟩ := ih
    have hkept : toolCallsOf message = [] →
        ∀ entry ∈ (message, index) :: (splitFrames entries).1, toolCallsOf entry.1 = [] := by
      intro hnone entry hmem
      rcases List.mem_cons.mp hmem with rfl | hmem
      · exact hnone
      · exact hunframed entry hmem
    cases message with
    | assistant assistant =>
      rw [splitFrames]
      split_ifs with hnone
      · exact ⟨hkept hnone, hspans⟩
      · refine ⟨fun _ h => (List.not_mem_nil h).elim, fun span hmem => ?_⟩
        rcases List.mem_cons.mp hmem with rfl | hmem
        · exact ⟨hnone, hunframed⟩
        · exact hspans span hmem
    | _ => exact ⟨hkept rfl, hspans⟩

theorem splitFrames_cons {entry : AgentMessage × ℕ} (h : toolCallsOf entry.1 = []) :
    splitFrames (entry :: entries) = (entry :: (splitFrames entries).1, (splitFrames entries).2) := by
  obtain ⟨message, index⟩ := entry
  cases message with
  | assistant assistant => exact if_pos h
  | _ => rfl

/-- Messages without calls are in front of the spans of what follows them. -/
theorem splitFrames_append {unframed : List (AgentMessage × ℕ)}
    (h : ∀ entry ∈ unframed, toolCallsOf entry.1 = []) (entries : List (AgentMessage × ℕ)) :
    splitFrames (unframed ++ entries) =
      (unframed ++ (splitFrames entries).1, (splitFrames entries).2) := by
  induction unframed with
  | nil => rfl
  | cons entry unframed ih =>
    obtain ⟨hentry, hrest⟩ := List.forall_mem_cons.mp h
    rw [List.cons_append, splitFrames_cons hentry, ih hrest]
    rfl

theorem splitFrames_turn {assistant : AssistantMessage} {index : ℕ}
    (h : extractToolCallsFromAssistant assistant ≠ []) (entries : List (AgentMessage × ℕ)) :
    splitFrames ((.assistant assistant, index) :: entries) =
      ([], ⟨assistant, index, (splitFrames entries).1⟩ :: (splitFrames entries).2) :=
  if_neg h

/-- The spans of messages that end before a turn with calls stay as they are. -/
theorem splitFrames_append_turns (first : List (AgentMessage × ℕ))
    (h : (splitFrames entries).1 = []) :
    splitFrames (first ++ entries) =
      ((splitFrames first).1, (splitFrames first).2 ++ (splitFrames entries).2) := by
  induction first with
  | nil => exact Prod.ext h rfl
  | cons entry first ih =>
    obtain ⟨message, index⟩ := entry
    have hkept : toolCallsOf message = [] → splitFrames ((message, index) :: first ++ entries) =
        ((splitFrames ((message, index) :: first)).1,
          (splitFrames ((message, index) :: first)).2 ++ (splitFrames entries).2) := by
      intro hnone
      rw [List.cons_append, splitFrames_cons hnone, splitFrames_cons hnone, ih]
    cases message with
    | assistant assistant =>
      by_cases hnone : extractToolCallsFromAssistant assistant = []
      · exact hkept hnone
      · rw [List.cons_append, splitFrames_turn hnone, splitFrames_turn hnone, ih]
        rfl
    | _ => exact hkept rfl

end Spans

/-- What the repair makes of a frame. -/
structure Repaired (span : FrameSpan) (frame : ToolUseFrame) : Prop where
  assistant : frame.assistant = span.assistant
  startIndex : frame.startIndex = span.startIndex
  failed : frame.failed = isFailed span.assistant
  remainder : frame.remainder = span.body.filter fun entry => entry.1.isPlain
  calls : frame.occurrences.map ToolCallOccurrence.call = extractToolCallsFromAssistant span.assistant
  owned : Owned frame.occurrences
  inOrder : InOrder frame.occurrences
  real : ∀ id, min (callCount frame.occurrences id)
      (span.body.countP (isRealFor (extractToolCallsFromAssistant span.assistant) id)) ≤
    realCount frame.occurrences id
  answered : ∀ id, min (callCount frame.occurrences id)
      (span.body.countP (isAnswerFor (extractToolCallsFromAssistant span.assistant) id)) ≤
    answeredCount frame.occurrences id

section RepairedFrames

variable {spans : List FrameSpan}

/-- A test that a call still passes after the recovery is passed by no fewer calls. -/
theorem Kept.countP_le {p : ToolCallOccurrence → Bool}
    (hp : ∀ {initial final : List ToolCallOccurrence}, Kept initial final →
      ∀ (place : ℕ) (before after : ToolCallOccurrence), initial[place]? = some before →
        final[place]? = some after → p before = true → p after = true)
    {initial final : List ToolCallOccurrence} (h : Kept initial final) (id : Utf16) :
    (initial.countP fun occurrence => occurrence.id = id && p occurrence) ≤
      final.countP fun occurrence => occurrence.id = id && p occurrence := by
  induction initial generalizing final with
  | nil => exact Nat.zero_le _
  | cons before initial ih =>
    obtain _ | ⟨after, final⟩ := final
    · exact absurd h.length_eq (Nat.succ_ne_zero _).symm
    · obtain ⟨hfirst, hrest⟩ := @Kept.split [before] initial [after] final rfl h
      have hid : after.id = before.id :=
        congrArg ToolCallLike.id (List.cons.inj hfirst.calls).1
      have hpasses : p before = true → p after = true := hp hfirst 0 before after rfl rfl
      have htail := ih hrest
      rw [List.countP_cons, List.countP_cons, hid]
      cases hbefore : p before with
      | true =>
        rw [hpasses hbefore]
        exact Nat.add_le_add_right htail _
      | false =>
        rw [Bool.and_false, if_neg Bool.false_ne_true]
        exact htail.trans (Nat.le_add_right _ _)

theorem owned_build (spans : List FrameSpan) :
    Owned ((spans.map FrameSpan.build).flatMap ToolUseFrame.occurrences) := by
  intro occurrence hmem
  obtain ⟨frame, hframe, hoccurrence⟩ := List.mem_flatMap.mp hmem
  obtain ⟨span, -, rfl⟩ := List.mem_map.mp hframe
  exact (frameRead_readAll span).owned occurrence hoccurrence

/-- All calls after the recovery. -/
theorem recovered_recoveredFrames (spans : List FrameSpan) :
    Recovered ((spans.map FrameSpan.build).flatMap ToolUseFrame.occurrences)
      (spans.map fun span => span.readAll.droppedDuplicateCount).sum
      ((spans.map FrameSpan.build).flatMap ToolUseFrame.unclaimedResults)
      (recoveredFrames spans).2 := by
  apply recovered_recoverFrames _ _ (owned_build spans)
  intro frame hframe
  obtain ⟨span, -, rfl⟩ := List.mem_map.mp hframe
  exact (frameRead_readAll span).records

theorem recoveredFrames_repaired (spans : List FrameSpan) :
    List.Forall₂ Repaired spans (recoveredFrames spans).1 := by
  have hframes := distribute_kept _ (recovered_recoveredFrames spans).kept
  rw [List.forall₂_map_left_iff] at hframes
  refine hframes.imp fun span frame h => ?_
  obtain ⟨hframe, hkept⟩ := h
  have hread := frameRead_readAll span
  refine ⟨?_, ?_, ?_, ?_, hkept.calls.trans hread.calls, hkept.owned, hkept.inOrder hread.inOrder,
    fun id => ?_, fun id => ?_⟩
  · rw [hframe]
    rfl
  · rw [hframe]
    rfl
  · rw [hframe]
    rfl
  · rw [hframe]
    exact hread.remainder
  · rw [callCount_eq_of_calls hkept.calls]
    exact (hread.placed id).placed.symm.le.trans (Kept.countP_le Kept.real hkept id)
  · rw [callCount_eq_of_calls hkept.calls]
    refine (answeredCount_readAll span id).symm.le.trans (Kept.countP_le ?_ hkept id)
    intro initial final hsame place before after hbefore hafter hfilled
    rw [Bool.not_eq_true'] at hfilled ⊢
    exact hsame.filled place before after hbefore hafter hfilled

theorem flatMap_recoveredFrames (spans : List FrameSpan) :
    (recoveredFrames spans).1.flatMap ToolUseFrame.occurrences =
      (recoveredFrames spans).2.occurrences :=
  flatMap_distribute _ (recovered_recoveredFrames spans).kept.length_eq

theorem exists_repaired {frame : ToolUseFrame} (h : frame ∈ (recoveredFrames spans).1) :
    ∃ span ∈ spans, Repaired span frame :=
  exists_of_mem_forall₂ (recoveredFrames_repaired spans) h

end RepairedFrames

end Flashclaw.Transcript
