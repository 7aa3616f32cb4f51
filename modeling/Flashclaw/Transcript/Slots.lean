import Flashclaw.Lib.Lists
import Flashclaw.Transcript.Repair

/-!
# Places for results

The cursors and tables of `buildToolUseFrames` and `repairToolUseResultPairing` find what a search
through the calls finds: the first one with an id that lacks a result, or the first one whose result
was made up.
-/

namespace Flashclaw.Transcript

open Utf16

section Names

variable {result : Sourced} {name : Option Utf16}

theorem normalizeToolResultName_cases (result : Sourced) (name : Option Utf16) :
    normalizeToolResultName result name = result ∨
      ∃ toolName, normalizeToolResultName result name = result.withName toolName := by
  rw [normalizeToolResultName]
  split
  · split_ifs
    · exact .inl rfl
    · exact .inr ⟨_, rfl⟩
  · split
    · exact .inr ⟨_, rfl⟩
    · split_ifs
      · exact .inr ⟨_, rfl⟩
      · exact .inl rfl

@[simp] theorem source_normalizeToolResultName :
    (normalizeToolResultName result name).source = result.source := by
  obtain h | ⟨toolName, h⟩ := normalizeToolResultName_cases result name <;> rw [h]
  rfl

@[simp] theorem extractToolResultId_normalizeToolResultName :
    extractToolResultId (normalizeToolResultName result name).message =
      extractToolResultId result.message := by
  obtain h | ⟨toolName, h⟩ := normalizeToolResultName_cases result name <;> rw [h]
  rfl

@[simp] theorem isSynthetic_normalizeToolResultName :
    isSyntheticMissingToolResult (normalizeToolResultName result name).message =
      isSyntheticMissingToolResult result.message := by
  obtain h | ⟨toolName, h⟩ := normalizeToolResultName_cases result name <;> rw [h]
  rfl

end Names

/-- The call at a place satisfies a test. -/
def holds (occurrences : List ToolCallOccurrence) (p : ToolCallOccurrence → Bool) (place : ℕ) :
    Bool := occurrences[place]?.any p

/-- The places of the calls with an id. -/
def places (occurrences : List ToolCallOccurrence) (id : Utf16) : List ℕ :=
  (List.range occurrences.length).filter (holds occurrences fun occurrence => occurrence.id = id)

def ToolCallOccurrence.isUnfilled (occurrence : ToolCallOccurrence) : Bool :=
  occurrence.result.isNone

def ToolCallOccurrence.isSynthetic (occurrence : ToolCallOccurrence) : Bool :=
  occurrence.result.any fun result => isSyntheticMissingToolResult result.message

def firstPlace (occurrences : List ToolCallOccurrence) (id : Utf16)
    (p : ToolCallOccurrence → Bool) : Option ℕ :=
  ((places occurrences id).filter (holds occurrences p)).head?

/-- Where a result of a frame goes, without the cursors. -/
def resultPlace (occurrences : List ToolCallOccurrence) (id : Utf16) (result : Sourced) : Option ℕ :=
  match firstPlace occurrences id ToolCallOccurrence.isUnfilled with
  | some place => some place
  | none =>
    if isSyntheticMissingToolResult result.message then none
    else firstPlace occurrences id ToolCallOccurrence.isSynthetic

def fill (result : Sourced) (occurrences : List ToolCallOccurrence) :
    Option ℕ → List ToolCallOccurrence
  | some place => occurrences.modify place (ToolCallOccurrence.answer result)
  | none => occurrences

section Places

variable {occurrences : List ToolCallOccurrence} {p : ToolCallOccurrence → Bool} {place : ℕ}
  {id : Utf16}

theorem holds_iff : holds occurrences p place = true ↔
    ∃ occurrence, occurrences[place]? = some occurrence ∧ p occurrence = true :=
  Option.any_eq_true _ _

theorem mem_places : place ∈ places occurrences id ↔
    ∃ occurrence, occurrences[place]? = some occurrence ∧ occurrence.id = id := by
  rw [places, List.mem_filter, List.mem_range, holds_iff]
  constructor
  · rintro ⟨-, occurrence, hget, hid⟩
    exact ⟨occurrence, hget, of_decide_eq_true hid⟩
  · rintro ⟨occurrence, hget, hid⟩
    exact ⟨(List.getElem?_eq_some_iff.mp hget).1, occurrence, hget, decide_eq_true hid⟩

theorem nodup_places (occurrences : List ToolCallOccurrence) (id : Utf16) :
    (places occurrences id).Nodup := List.nodup_range.filter _

theorem holds_modify (result : Sourced) (other : ℕ) :
    holds (occurrences.modify place (ToolCallOccurrence.answer result)) p other =
      if place = other then holds occurrences (fun o => p (o.answer result)) other
      else holds occurrences p other := by
  rw [holds, List.getElem?_modify]
  split_ifs with h
  · subst h
    rw [holds]
    cases occurrences[place]? <;> rfl
  · rw [holds]
    cases occurrences[other]? <;> rfl

theorem places_modify (result : Sourced) (place : ℕ) (id : Utf16) :
    places (occurrences.modify place (ToolCallOccurrence.answer result)) id =
      places occurrences id := by
  rw [places, places, List.length_modify]
  congr 1
  funext other
  rw [holds_modify]
  split_ifs <;> rfl

theorem mem_of_firstPlace (h : firstPlace occurrences id p = some place) :
    ∃ occurrence, occurrences[place]? = some occurrence ∧ occurrence.id = id ∧
      p occurrence = true := by
  obtain ⟨hmem, hholds⟩ := List.mem_filter.mp (List.mem_of_head? h)
  obtain ⟨occurrence, hget, hid⟩ := mem_places.mp hmem
  obtain ⟨same, hsame, hp⟩ := holds_iff.mp hholds
  obtain rfl := Option.some.inj (hget.symm.trans hsame)
  exact ⟨occurrence, hget, hid, hp⟩

end Places

/-- The cursors of a group stand where a search arrives. -/
structure Tracks (occurrences : List ToolCallOccurrence) (id : Utf16)
    (group : SameIdOccurrenceGroup) : Prop where
  groupPlaces : group.occurrences = places occurrences id
  filled : ∀ place ∈ group.occurrences.take group.nextUnfilledIndex,
    holds occurrences ToolCallOccurrence.isUnfilled place = false
  unfilled : ∀ place ∈ group.occurrences.drop group.nextUnfilledIndex,
    holds occurrences ToolCallOccurrence.isUnfilled place = true
  synthetic : group.syntheticOccurrences.drop group.nextSyntheticIndex =
    (group.occurrences.take group.nextUnfilledIndex).filter
      (holds occurrences ToolCallOccurrence.isSynthetic)
  nextSynthetic : group.nextSyntheticIndex ≤ group.syntheticOccurrences.length

section Tracks

variable {occurrences : List ToolCallOccurrence} {id : Utf16} {group : SameIdOccurrenceGroup}
  {result : Sourced} {place : ℕ}

theorem Tracks.firstPlace_unfilled (h : Tracks occurrences id group) :
    firstPlace occurrences id ToolCallOccurrence.isUnfilled =
      group.occurrences[group.nextUnfilledIndex]? := by
  rw [firstPlace, ← h.groupPlaces, ← List.head?_drop]
  congr 1
  conv_lhs => rw [← List.take_append_drop group.nextUnfilledIndex group.occurrences]
  rw [List.filter_append, List.filter_eq_nil_iff.mpr fun place hplace =>
      (h.filled place hplace).symm ▸ Bool.false_ne_true,
    List.filter_eq_self.mpr h.unfilled, List.nil_append]

/-- Once all calls of a group are answered, the other cursor is at the first made up result. -/
theorem Tracks.firstPlace_synthetic (h : Tracks occurrences id group)
    (hfull : group.occurrences[group.nextUnfilledIndex]? = none) :
    firstPlace occurrences id ToolCallOccurrence.isSynthetic =
      group.syntheticOccurrences[group.nextSyntheticIndex]? := by
  have hlength := List.getElem?_eq_none_iff.mp hfull
  rw [firstPlace, ← h.groupPlaces, ← List.head?_drop, h.synthetic, List.take_of_length_le hlength]

/-- Other groups do not look at the place of a call that is answered. -/
theorem Tracks.modify_ne (h : Tracks occurrences id group)
    (hplace : place ∉ places occurrences id) :
    Tracks (occurrences.modify place (ToolCallOccurrence.answer result)) id group := by
  have hholds : ∀ p, ∀ other ∈ group.occurrences,
      holds (occurrences.modify place (ToolCallOccurrence.answer result)) p other =
        holds occurrences p other := by
    intro p other hother
    rw [holds_modify, if_neg]
    rintro rfl
    exact hplace (h.groupPlaces ▸ hother)
  refine ⟨by rw [places_modify]; exact h.groupPlaces, fun other hother => ?_, fun other hother => ?_, ?_,
    h.nextSynthetic⟩
  · rw [hholds _ _ (List.mem_of_mem_take hother)]
    exact h.filled other hother
  · rw [hholds _ _ (List.mem_of_mem_drop hother)]
    exact h.unfilled other hother
  · rw [h.synthetic]
    exact List.filter_congr fun other hother => (hholds _ _ (List.mem_of_mem_take hother)).symm

theorem isUnfilled_answer (occurrence : ToolCallOccurrence) :
    (occurrence.answer result).isUnfilled = false := rfl

theorem isSynthetic_answer (occurrence : ToolCallOccurrence) :
    (occurrence.answer result).isSynthetic = isSyntheticMissingToolResult result.message :=
  isSynthetic_normalizeToolResultName

/-- The next call of a group is answered. -/
theorem Tracks.advance (h : Tracks occurrences id group)
    (hplace : group.occurrences[group.nextUnfilledIndex]? = some place) :
    Tracks (occurrences.modify place (ToolCallOccurrence.answer result)) id
      { group with
        nextUnfilledIndex := group.nextUnfilledIndex + 1
        syntheticOccurrences :=
          if isSyntheticMissingToolResult result.message then group.syntheticOccurrences ++ [place]
          else group.syntheticOccurrences } := by
  have hnodup : group.occurrences.Nodup := h.groupPlaces ▸ nodup_places occurrences id
  obtain ⟨hlt, hget⟩ := List.getElem?_eq_some_iff.mp hplace
  have htake : group.occurrences.take (group.nextUnfilledIndex + 1) =
      group.occurrences.take group.nextUnfilledIndex ++ [place] := by
    rw [List.take_add_one, hplace]
    rfl
  have hdrop : group.occurrences.drop group.nextUnfilledIndex =
      place :: group.occurrences.drop (group.nextUnfilledIndex + 1) := by
    rw [List.drop_eq_getElem_cons hlt, hget]
  have hsplit := List.take_append_drop group.nextUnfilledIndex group.occurrences
  rw [hdrop] at hsplit
  rw [← hsplit] at hnodup
  -- the place is neither before the cursor nor behind the next one
  have hbefore : place ∉ group.occurrences.take group.nextUnfilledIndex := fun hmem =>
    (List.nodup_append.mp hnodup).2.2 place hmem place List.mem_cons_self rfl
  have hafter : place ∉ group.occurrences.drop (group.nextUnfilledIndex + 1) :=
    (List.nodup_cons.mp (List.nodup_append.mp hnodup).2.1).1
  have hsome : ∃ occurrence, occurrences[place]? = some occurrence := by
    obtain ⟨occurrence, hocc, -⟩ := mem_places.mp (h.groupPlaces ▸ List.mem_of_getElem? hplace)
    exact ⟨occurrence, hocc⟩
  obtain ⟨occurrence, hocc⟩ := hsome
  have hother : ∀ p other, other ≠ place →
      holds (occurrences.modify place (ToolCallOccurrence.answer result)) p other =
        holds occurrences p other :=
    fun p other hne => by rw [holds_modify, if_neg (Ne.symm hne)]
  have hsynthetic : (group.occurrences.take group.nextUnfilledIndex).filter
      (holds (occurrences.modify place (ToolCallOccurrence.answer result))
        ToolCallOccurrence.isSynthetic) =
      group.syntheticOccurrences.drop group.nextSyntheticIndex := by
    rw [h.synthetic]
    exact List.filter_congr fun other hmem => hother _ _ fun heq => hbefore (heq ▸ hmem)
  refine ⟨by rw [places_modify]; exact h.groupPlaces, ?_, ?_, ?_, ?_⟩
  · rw [htake]
    intro other hmem
    rcases List.mem_append.mp hmem with hmem | hmem
    · rw [hother _ _ fun heq => hbefore (heq ▸ hmem)]
      exact h.filled other hmem
    · obtain rfl := List.mem_singleton.mp hmem
      rw [holds_modify, if_pos rfl, holds, hocc]
      rfl
  · intro other hmem
    rw [hother _ _ fun heq => hafter (heq ▸ hmem)]
    apply h.unfilled
    rw [hdrop]
    exact List.mem_cons_of_mem place hmem
  · dsimp only
    -- a made up result puts the place at the end of those that may be replaced
    have hself : holds (occurrences.modify place (ToolCallOccurrence.answer result))
        ToolCallOccurrence.isSynthetic place = isSyntheticMissingToolResult result.message := by
      rw [holds_modify, if_pos rfl, holds, hocc]
      exact isSynthetic_answer occurrence
    rw [htake, List.filter_append, hsynthetic, List.filter_singleton, hself]
    cases isSyntheticMissingToolResult result.message with
    | true => exact List.drop_append_of_le_length h.nextSynthetic
    | false => exact (List.append_nil _).symm
  · dsimp only
    split_ifs
    · rw [List.length_append]
      exact h.nextSynthetic.trans (Nat.le_add_right _ _)
    · exact h.nextSynthetic

/-- A result of a tool replaces the first one of a group that was made up. -/
theorem Tracks.replace (h : Tracks occurrences id group)
    (hfull : group.occurrences[group.nextUnfilledIndex]? = none)
    (hresult : isSyntheticMissingToolResult result.message = false)
    (hplace : group.syntheticOccurrences[group.nextSyntheticIndex]? = some place) :
    Tracks (occurrences.modify place (ToolCallOccurrence.answer result)) id
      { group with nextSyntheticIndex := group.nextSyntheticIndex + 1 } := by
  have hlength := List.getElem?_eq_none_iff.mp hfull
  have hnodup : group.occurrences.Nodup := h.groupPlaces ▸ nodup_places occurrences id
  obtain ⟨hlt, hget⟩ := List.getElem?_eq_some_iff.mp hplace
  have hdrop : group.syntheticOccurrences.drop group.nextSyntheticIndex =
      place :: group.syntheticOccurrences.drop (group.nextSyntheticIndex + 1) := by
    rw [List.drop_eq_getElem_cons hlt, hget]
  have hfilter := h.synthetic
  rw [hdrop, List.take_of_length_le hlength] at hfilter
  refine ⟨by rw [places_modify]; exact h.groupPlaces, fun other hmem => ?_, fun other hmem => ?_, ?_, hlt⟩
  · rw [holds_modify]
    split_ifs
    · rw [holds]
      cases occurrences[other]? <;> rfl
    · exact h.filled other hmem
  · rw [List.drop_eq_nil_of_le hlength] at hmem
    exact (List.not_mem_nil hmem).elim
  · dsimp only
    rw [List.take_of_length_le hlength]
    -- the first of the made up results is no longer one
    have hwithout : group.occurrences.filter
        (holds (occurrences.modify place (ToolCallOccurrence.answer result))
          ToolCallOccurrence.isSynthetic) =
        (group.occurrences.filter (holds occurrences ToolCallOccurrence.isSynthetic)).filter
          (fun other => other ≠ place) := by
      rw [List.filter_filter]
      apply List.filter_congr
      intro other _
      rw [holds_modify]
      by_cases heq : place = other
      · subst heq
        have hfalse : holds occurrences (fun o => (o.answer result).isSynthetic) place = false := by
          rw [holds]
          cases occurrences[place]? with
          | none => rfl
          | some occurrence => exact (isSynthetic_answer occurrence).trans hresult
        rw [if_pos rfl, hfalse]
        simp
      · rw [if_neg heq, decide_eq_true (Ne.symm heq), Bool.true_and]
    have hfirst := hnodup.filter (holds occurrences ToolCallOccurrence.isSynthetic)
    rw [hwithout, ← hfilter, List.filter_cons_of_neg (by simp)]
    rw [← hfilter] at hfirst
    refine (List.filter_eq_self.mpr fun other hmem => ?_).symm
    have hne : other ≠ place := fun heq => (List.nodup_cons.mp hfirst).1 (heq ▸ hmem)
    exact decide_eq_true hne

end Tracks

/-- The groups of a frame track its calls, and there is one for each id of a call. -/
structure FrameState.Valid (state : FrameState) : Prop where
  groups : ∀ id group, state.occurrencesById.get? id = some group →
    Tracks state.occurrences id group
  known : ∀ id, state.occurrencesById.get? id = none → places state.occurrences id = []

def ToolCallLike.occurrence (toolCall : ToolCallLike) : ToolCallOccurrence :=
  ⟨toolCall.id, toolCall.name, none⟩

section Groups

variable {state : FrameState} {group : SameIdOccurrenceGroup} {id : Utf16} {result : Sourced}

theorem places_append_singleton (occurrences : List ToolCallOccurrence)
    (occurrence : ToolCallOccurrence) (id : Utf16) : places (occurrences ++ [occurrence]) id =
      places occurrences id ++ if occurrence.id = id then [occurrences.length] else [] := by
  rw [places, List.length_append, List.length_singleton, List.range_succ, List.filter_append]
  congr 1
  · apply List.filter_congr
    intro place hplace
    rw [holds, List.getElem?_append_left (List.mem_range.mp hplace)]
    rfl
  · rw [List.filter_singleton, holds, List.getElem?_append_right (Nat.le_refl _), Nat.sub_self]
    by_cases heq : occurrence.id = id <;> simp [heq]

theorem groupOccurrences_append (toolCalls : List ToolCallLike) (toolCall : ToolCallLike)
    (position : ℕ) (occurrencesById : JsMap Utf16 SameIdOccurrenceGroup) :
    groupOccurrences position occurrencesById (toolCalls ++ [toolCall]) =
      groupOccurrences (position + toolCalls.length)
        (groupOccurrences position occurrencesById toolCalls) [toolCall] := by
  induction toolCalls generalizing position occurrencesById with
  | nil => rfl
  | cons first toolCalls ih =>
    have hplace : position + (first :: toolCalls).length = position + 1 + toolCalls.length := by
      rw [List.length_cons]
      omega
    rw [List.cons_append, groupOccurrences, ih, hplace]
    rfl

/-- The groups of the calls of a message. -/
theorem get?_groupOccurrences (toolCalls : List ToolCallLike) (id : Utf16) :
    (groupOccurrences 0 .empty toolCalls).get? id =
      if places (toolCalls.map ToolCallLike.occurrence) id = [] then none
      else some ⟨places (toolCalls.map ToolCallLike.occurrence) id, 0, [], 0⟩ := by
  induction toolCalls using List.reverseRecOn generalizing id with
  | nil => rfl
  | append_singleton toolCalls toolCall ih =>
    rw [groupOccurrences_append, groupOccurrences, groupOccurrences, List.map_append,
      List.map_singleton, places_append_singleton, Nat.zero_add, List.length_map, JsMap.get?_set]
    by_cases heq : toolCall.id = id
    · subst heq
      rw [if_pos rfl, ih]
      by_cases hnone : places (toolCalls.map ToolCallLike.occurrence) toolCall.id = []
      · simp [hnone, ToolCallLike.occurrence]
      · simp [hnone, ToolCallLike.occurrence]
    · have hne : (ToolCallLike.occurrence toolCall).id ≠ id := heq
      rw [if_neg heq, ih, if_neg hne, List.append_nil]

theorem valid_start (toolCalls : List ToolCallLike) : (FrameState.start toolCalls).Valid := by
  refine ⟨fun id group hget => ?_, fun id hget => ?_⟩
  · have hgroup := (get?_groupOccurrences toolCalls id).symm.trans hget
    split_ifs at hgroup
    obtain rfl := Option.some.inj hgroup
    refine ⟨rfl, fun place h => (List.not_mem_nil h).elim, fun place hplace => ?_, rfl, Nat.le_refl 0⟩
    obtain ⟨occurrence, hocc, -⟩ := mem_places.mp hplace
    have hunfilled : occurrence.isUnfilled = true := by
      obtain ⟨toolCall, -, rfl⟩ := List.mem_map.mp (List.mem_of_getElem? hocc)
      rfl
    exact holds_iff.mpr ⟨occurrence, hocc, hunfilled⟩
  · have hgroup := (get?_groupOccurrences toolCalls id).symm.trans hget
    split_ifs at hgroup with hempty
    exact hempty

/-- A group that tracks the calls after one of them was answered, among groups that do. -/
theorem FrameState.Valid.set (h : state.Valid) {place : ℕ} {group' : SameIdOccurrenceGroup}
    (hplace : place ∈ places state.occurrences id)
    (hgroup : Tracks (state.occurrences.modify place (ToolCallOccurrence.answer result)) id group')
    {state' : FrameState}
    (hoccurrences : state'.occurrences =
      state.occurrences.modify place (ToolCallOccurrence.answer result))
    (hgroups : state'.occurrencesById = state.occurrencesById.set id group') : state'.Valid := by
  refine ⟨fun other otherGroup hget => ?_, fun other hget => ?_⟩
  · rw [hgroups, JsMap.get?_set] at hget
    rw [hoccurrences]
    split_ifs at hget with heq
    · obtain rfl := Option.some.inj hget
      exact heq ▸ hgroup
    · apply (h.groups other otherGroup hget).modify_ne
      intro hother
      obtain ⟨occurrence, hocc, hid⟩ := mem_places.mp hplace
      obtain ⟨same, hsame, hid'⟩ := mem_places.mp hother
      obtain rfl := Option.some.inj (hocc.symm.trans hsame)
      exact heq (hid.symm.trans hid')
  · rw [hgroups, JsMap.get?_set] at hget
    split_ifs at hget
    rw [hoccurrences, places_modify]
    exact h.known other hget

/-- What `claim` does to a frame. -/
structure Claims (state : FrameState) (id : Utf16) (result : Sourced) (state' : FrameState) :
    Prop where
  occurrences : state'.occurrences =
    fill result state.occurrences (resultPlace state.occurrences id result)
  duplicates : state'.droppedDuplicateCount = state.droppedDuplicateCount +
    if (firstPlace state.occurrences id ToolCallOccurrence.isUnfilled).isSome then 0 else 1
  remainder : state'.remainder = state.remainder
  unclaimed : state'.unclaimedResults = state.unclaimedResults
  valid : state'.Valid

theorem claim_spec (h : state.Valid) (hget : state.occurrencesById.get? id = some group)
    (result : Sourced) : Claims state id result (state.claim group id result) := by
  have htracks := h.groups id group hget
  have hunfilled := htracks.firstPlace_unfilled
  have hmem : ∀ {p place}, firstPlace state.occurrences id p = some place →
      place ∈ places state.occurrences id := by
    intro p place hfirst
    obtain ⟨occurrence, hocc, hid, -⟩ := mem_of_firstPlace hfirst
    exact mem_places.mpr ⟨occurrence, hocc, hid⟩
  rw [FrameState.claim]
  cases hnext : group.occurrences[group.nextUnfilledIndex]? with
  | some unfilled =>
    rw [hnext] at hunfilled
    refine ⟨?_, ?_, rfl, rfl, h.set (hmem hunfilled) (htracks.advance hnext) rfl rfl⟩
    · rw [resultPlace, hunfilled]
      rfl
    · rw [hunfilled]
      rfl
  | none =>
    rw [hnext] at hunfilled
    have hsynthetic := htracks.firstPlace_synthetic hnext
    dsimp only
    split_ifs with hresult
    · refine ⟨?_, ?_, rfl, rfl, ⟨h.groups, h.known⟩⟩
      · rw [resultPlace, hunfilled]
        simp only [hresult, if_true, fill]
      · rw [hunfilled]
        rfl
    · have hplace : resultPlace state.occurrences id result =
          group.syntheticOccurrences[group.nextSyntheticIndex]? := by
        rw [resultPlace, hunfilled, ← hsynthetic]
        simp only [hresult, if_false, Bool.false_eq_true]
      cases hreplaceable : group.syntheticOccurrences[group.nextSyntheticIndex]? with
      | none =>
        rw [hreplaceable] at hplace
        refine ⟨?_, ?_, rfl, rfl, ⟨h.groups, h.known⟩⟩
        · rw [hplace]
          rfl
        · rw [hunfilled]
          rfl
      | some replaceable =>
        rw [hreplaceable] at hplace hsynthetic
        have hreal : isSyntheticMissingToolResult result.message = false :=
          Bool.eq_false_iff.mpr hresult
        refine ⟨?_, ?_, rfl, rfl,
          h.set (hmem hsynthetic) (htracks.replace hnext hreal hreplaceable) rfl rfl⟩
        · rw [hplace]
          rfl
        · rw [hunfilled]
          rfl

end Groups

/-- Messages that are passed on as they are. -/
def AgentMessage.isPlain : AgentMessage → Bool
  | .invalid _ => false
  | .toolResult _ => false
  | _ => true

/-- A result as a frame with these calls sees it. -/
def legacyResult (toolCalls : List ToolCallLike) (message : ToolResultMessage) (index : ℕ) : Sourced :=
  normalizeLegacyToolResultId ⟨message, index, false⟩ toolCalls

/-- All that reading a message can do. -/
inductive Reads (toolCalls : List ToolCallLike) (state : FrameState) :
    AgentMessage × ℕ → FrameState → Prop
  | invalid (value : JsValue) (index : ℕ) : Reads toolCalls state (.invalid value, index) state
  | unclaimed (message : ToolResultMessage) (index : ℕ)
    (h : ∀ id, extractToolResultId (legacyResult toolCalls message index).message = some id →
      places state.occurrences id = []) :
    Reads toolCalls state (.toolResult message, index)
      (state.leaveUnclaimed (legacyResult toolCalls message index)
        (extractToolResultId (legacyResult toolCalls message index).message))
  | claimed (message : ToolResultMessage) (index : ℕ) (id : Utf16) (state' : FrameState)
    (hid : extractToolResultId (legacyResult toolCalls message index).message = some id)
    (h : Claims state id (legacyResult toolCalls message index) state') :
    Reads toolCalls state (.toolResult message, index) state'
  | kept (entry : AgentMessage × ℕ) (h : entry.1.isPlain = true) :
    Reads toolCalls state entry { state with remainder := state.remainder ++ [entry] }

section Read

variable {toolCalls : List ToolCallLike} {state : FrameState}

theorem read_toolResult (message : ToolResultMessage) (index : ℕ) :
    state.read toolCalls (.toolResult message, index) =
      match extractToolResultId (legacyResult toolCalls message index).message with
      | none => state.leaveUnclaimed (legacyResult toolCalls message index) none
      | some id =>
        match state.occurrencesById.get? id with
        | none => state.leaveUnclaimed (legacyResult toolCalls message index) (some id)
        | some group => state.claim group id (legacyResult toolCalls message index) := rfl

theorem read_spec (h : state.Valid) (entry : AgentMessage × ℕ) :
    Reads toolCalls state entry (state.read toolCalls entry) ∧ (state.read toolCalls entry).Valid := by
  obtain ⟨message, index⟩ := entry
  cases message with
  | invalid value => exact ⟨.invalid value index, h⟩
  | assistant message => exact ⟨.kept _ rfl, ⟨h.groups, h.known⟩⟩
  | other message => exact ⟨.kept _ rfl, ⟨h.groups, h.known⟩⟩
  | toolResult message =>
    have hunclaimed := @Reads.unclaimed toolCalls state message index
    rw [read_toolResult]
    cases hid : extractToolResultId (legacyResult toolCalls message index).message with
    | none =>
      rw [hid] at hunclaimed
      exact ⟨hunclaimed (fun _ h => nomatch h), ⟨h.groups, h.known⟩⟩
    | some id =>
      rw [hid] at hunclaimed
      dsimp only
      cases hget : state.occurrencesById.get? id with
      | none =>
        refine ⟨hunclaimed fun id' heq => ?_, ⟨h.groups, h.known⟩⟩
        obtain rfl := Option.some.inj heq
        exact h.known id hget
      | some group =>
        have hclaims := claim_spec h hget (legacyResult toolCalls message index)
        exact ⟨.claimed message index id _ hid hclaims, hclaims.valid⟩

/-- What every reading of a message keeps holds after all of them. -/
theorem readAll_induction (span : FrameSpan)
    {motive : List (AgentMessage × ℕ) → FrameState → Prop}
    (start : motive [] (.start (extractToolCallsFromAssistant span.assistant)))
    (step : ∀ seen state entry state', state.Valid → motive seen state →
      Reads (extractToolCallsFromAssistant span.assistant) state entry state' →
        motive (seen ++ [entry]) state') : motive span.body span.readAll := by
  have hall : ∀ (entries seen : List (AgentMessage × ℕ)) (state : FrameState), state.Valid →
      motive seen state → motive (seen ++ entries)
        (entries.foldl (FrameState.read (extractToolCallsFromAssistant span.assistant)) state) := by
    intro entries
    induction entries with
    | nil =>
      intro seen state _ h
      rw [List.append_nil]
      exact h
    | cons entry entries ih =>
      intro seen state hvalid h
      obtain ⟨hreads, hvalid'⟩ := @read_spec (extractToolCallsFromAssistant span.assistant) state
        hvalid entry
      have hrest := ih (seen ++ [entry]) _ hvalid' (step seen state entry _ hvalid h hreads)
      rw [List.append_assoc] at hrest
      exact hrest
  exact hall span.body [] _ (valid_start _) start

/-- The calls of a frame after a message, found by a search through them. -/
def searchStep (toolCalls : List ToolCallLike) (occurrences : List ToolCallOccurrence) :
    AgentMessage × ℕ → List ToolCallOccurrence
  | (.toolResult message, index) =>
    let result := legacyResult toolCalls message index
    match extractToolResultId result.message with
    | some id => fill result occurrences (resultPlace occurrences id result)
    | none => occurrences
  | _ => occurrences

theorem firstPlace_of_places_eq_nil {occurrences : List ToolCallOccurrence} {id : Utf16}
    (h : places occurrences id = []) (p : ToolCallOccurrence → Bool) :
    firstPlace occurrences id p = none := by
  rw [firstPlace, h]
  rfl

theorem Reads.occurrences {entry : AgentMessage × ℕ} {state' : FrameState}
    (h : Reads toolCalls state entry state') :
    state'.occurrences = searchStep toolCalls state.occurrences entry := by
  cases h with
  | invalid value index => rfl
  | unclaimed message index hnone =>
    show state.occurrences = _
    rw [searchStep]
    cases hid : extractToolResultId (legacyResult toolCalls message index).message with
    | none => rfl
    | some id =>
      -- no call of the frame has the id, so there is no place for the result
      have hplaces := hnone id hid
      dsimp only
      rw [resultPlace, firstPlace_of_places_eq_nil hplaces, firstPlace_of_places_eq_nil hplaces]
      split_ifs <;> rfl
  | claimed message index id state' hid hclaims =>
    rw [hclaims.occurrences, searchStep]
    rw [hid]
  | kept entry hplain =>
    obtain ⟨message, index⟩ := entry
    cases message with
    | toolResult message => cases hplain
    | _ => rfl

/-- The groups and their cursors find the calls that a search through all of them finds. -/
theorem occurrences_readAll (span : FrameSpan) :
    span.readAll.occurrences = span.body.foldl
      (searchStep (extractToolCallsFromAssistant span.assistant))
      ((extractToolCallsFromAssistant span.assistant).map ToolCallLike.occurrence) := by
  apply @readAll_induction span fun seen state => state.occurrences =
    seen.foldl (searchStep (extractToolCallsFromAssistant span.assistant))
      ((extractToolCallsFromAssistant span.assistant).map ToolCallLike.occurrence)
  · rfl
  · intro seen state entry state' _ h hreads
    rw [hreads.occurrences, h, List.foldl_append]
    rfl

end Read

/-- The table has the places below a bound whose calls lack a result of a tool. -/
structure RecoveryState.Tabled (state : RecoveryState) (bound : ℕ) : Prop where
  known : ∀ id, ∀ place ∈ state.unresolvedById.getAll id, place < bound ∧
    ∃ occurrence, state.occurrences[place]? = some occurrence ∧ occurrence.id = id
  nodup : ∀ id, (state.unresolvedById.getAll id).Nodup
  complete : ∀ place occurrence, place < bound → state.occurrences[place]? = some occurrence →
    occurrence.isUnresolved = true → place ∈ state.unresolvedById.getAll occurrence.id

/-- All that the recovery of a result can do. -/
inductive Recovers (bound : ℕ) (state : RecoveryState) (record : ToolResultRecord) :
    RecoveryState → Prop
  | orphan : Recovers bound state record state.dropOrphan
  | moved (place : ℕ) (occurrence : ToolCallOccurrence) (hlt : place < bound)
    (hget : state.occurrences[place]? = some occurrence) (hid : record.id = some occurrence.id)
    (hcandidate : occurrence.isCandidate record.result = true)
    (honly : ∀ other candidate, other < bound → state.occurrences[other]? = some candidate →
      candidate.id = occurrence.id → candidate.isCandidate record.result = true → other = place) :
    Recovers bound state record
      { state with
        occurrences := state.occurrences.modify place (ToolCallOccurrence.answer record.result)
        droppedDuplicateCount :=
          state.droppedDuplicateCount + if occurrence.isUnfilled then 0 else 1 }

section Recovery

variable {state : RecoveryState} {record : ToolResultRecord} {bound : ℕ}

theorem isUnresolved_of_isCandidate {result : Sourced} {occurrence : ToolCallOccurrence}
    (h : occurrence.isCandidate result = true) : occurrence.isUnresolved = true := by
  rw [ToolCallOccurrence.isCandidate] at h
  rw [ToolCallOccurrence.isUnresolved]
  cases hresult : occurrence.result with
  | none => rfl
  | some present =>
    rw [hresult, Bool.and_eq_true] at h
    exact h.1

theorem getElem?_modify_answer {occurrences : List ToolCallOccurrence} {place other : ℕ}
    {result : Sourced} {occurrence : ToolCallOccurrence}
    (h : (occurrences.modify place (ToolCallOccurrence.answer result))[other]? = some occurrence) :
    ∃ before, occurrences[other]? = some before ∧ before.id = occurrence.id ∧
      before.name = occurrence.name ∧
      (occurrence = before ∨ place = other ∧ occurrence = before.answer result) := by
  rw [List.getElem?_modify] at h
  cases hbefore : occurrences[other]? with
  | none =>
    rw [hbefore] at h
    cases h
  | some before =>
    rw [hbefore] at h
    have h : (if place = other then before.answer result else before) = occurrence :=
      Option.some.inj h
    split_ifs at h with heq
    · exact ⟨before, rfl, h ▸ rfl, h ▸ rfl, .inr ⟨heq, h.symm⟩⟩
    · exact ⟨before, rfl, h ▸ rfl, h ▸ rfl, .inl h.symm⟩

theorem addUnresolved_spec (h : state.Tabled bound) :
    (state.addUnresolved bound).Tabled (bound + 1) ∧
      (state.addUnresolved bound).occurrences = state.occurrences ∧
      (state.addUnresolved bound).droppedDuplicateCount = state.droppedDuplicateCount ∧
      (state.addUnresolved bound).droppedOrphanCount = state.droppedOrphanCount := by
  -- The table is unchanged where the place is out of range or has its result already.
  have hkeep : (∀ occurrence, state.occurrences[bound]? = some occurrence →
      occurrence.isUnresolved = false) → state.Tabled (bound + 1) := by
    intro hresolved
    refine ⟨fun id place hplace => ?_, h.nodup, fun place occurrence hlt hget hunresolved => ?_⟩
    · obtain ⟨hlt, hfound⟩ := h.known id place hplace
      exact ⟨Nat.lt_succ_of_lt hlt, hfound⟩
    · rcases Nat.lt_succ_iff_lt_or_eq.mp hlt with hlt | rfl
      · exact h.complete place occurrence hlt hget hunresolved
      · rw [hresolved occurrence hget] at hunresolved
        cases hunresolved
  rw [RecoveryState.addUnresolved]
  cases hget : state.occurrences[bound]? with
  | none =>
    refine ⟨hkeep fun occurrence hsome => ?_, rfl, rfl, rfl⟩
    rw [hget] at hsome
    cases hsome
  | some occurrence =>
    dsimp only
    split_ifs with hunresolved
    · refine ⟨⟨fun id place hplace => ?_, fun id => ?_, fun place other hlt hother hresult => ?_⟩,
        rfl, rfl, rfl⟩
      · rw [JsMap.getAll_push, List.mem_append] at hplace
        rcases hplace with hplace | hplace
        · obtain ⟨hlt, hfound⟩ := h.known id place hplace
          exact ⟨Nat.lt_succ_of_lt hlt, hfound⟩
        · split_ifs at hplace with hid
          · obtain rfl := List.mem_singleton.mp hplace
            exact ⟨Nat.lt_succ_self _, occurrence, hget, hid⟩
          · cases hplace
      · -- The new place is `bound`, and every listed one is below it.
        rw [JsMap.getAll_push]
        split_ifs
        · refine List.nodup_append.mpr ⟨h.nodup id, List.nodup_singleton _, ?_⟩
          intro place hplace other hother
          obtain rfl := List.mem_singleton.mp hother
          exact (h.known id place hplace).1.ne
        · rw [List.append_nil]
          exact h.nodup id
      · rw [JsMap.getAll_push, List.mem_append]
        rcases Nat.lt_succ_iff_lt_or_eq.mp hlt with hlt | rfl
        · exact .inl (h.complete place other hlt hother hresult)
        · obtain rfl := Option.some.inj (hget.symm.trans hother)
          rw [if_pos rfl]
          exact .inr List.mem_cons_self
    · refine ⟨hkeep fun other hother => ?_, rfl, rfl, rfl⟩
      obtain rfl := Option.some.inj (hget.symm.trans hother)
      exact Bool.eq_false_iff.mpr hunresolved

theorem recover_spec (h : state.Tabled bound) (record : ToolResultRecord) :
    Recovers bound state record (state.recover record) ∧ (state.recover record).Tabled bound := by
  have horphan : Recovers bound state record state.dropOrphan ∧ state.dropOrphan.Tabled bound :=
    ⟨.orphan, h.known, h.nodup, h.complete⟩
  rw [RecoveryState.recover]
  cases hid : record.id with
  | none => exact horphan
  | some id =>
    dsimp only
    split
    · rename_i place hcandidates
      have hmem : place ∈ state.candidates record.result id := by
        rw [hcandidates]
        exact List.mem_cons_self
      obtain ⟨htable, hholds⟩ := List.mem_filter.mp hmem
      obtain ⟨hlt, occurrence, hget, rfl⟩ := h.known id place htable
      rw [hget, Option.any_some] at hholds
      have honly : ∀ other candidate, other < bound → state.occurrences[other]? = some candidate →
          candidate.id = occurrence.id → candidate.isCandidate record.result = true →
            other = place := by
        intro other candidate hother hgetOther hsame hcandidate
        have hlisted := h.complete other candidate hother hgetOther
          (isUnresolved_of_isCandidate hcandidate)
        rw [hsame] at hlisted
        have hfound : other ∈ state.candidates record.result occurrence.id := by
          refine List.mem_filter.mpr ⟨hlisted, ?_⟩
          rw [hgetOther]
          exact hcandidate
        rw [hcandidates] at hfound
        exact List.mem_singleton.mp hfound
      have hmoved := @Recovers.moved bound state record place occurrence hlt hget hid hholds honly
      have hcount : (if (state.occurrences[place]?.bind ToolCallOccurrence.result).isSome then
          state.droppedDuplicateCount + 1 else state.droppedDuplicateCount) =
            state.droppedDuplicateCount + if occurrence.isUnfilled then 0 else 1 := by
        rw [hget, Option.bind_some, ToolCallOccurrence.isUnfilled]
        cases occurrence.result <;> rfl
      rw [hcount]
      refine ⟨hmoved, fun id other hother => ?_, h.nodup, fun other after hother hafter hresult => ?_⟩
      · obtain ⟨hlt', before, hbefore, hsame⟩ := h.known id other hother
        refine ⟨hlt', ?_⟩
        rw [List.getElem?_modify, hbefore]
        split_ifs
        · exact ⟨before.answer record.result, rfl, hsame⟩
        · exact ⟨before, rfl, hsame⟩
      · obtain ⟨before, hbefore, hsame, -, rfl | ⟨rfl, -⟩⟩ := getElem?_modify_answer hafter
        · exact h.complete other _ hother hbefore hresult
        · obtain rfl := Option.some.inj (hget.symm.trans hbefore)
          rw [← hsame]
          exact htable
    · exact horphan

theorem addAllUnresolved_spec (count : ℕ) (h : state.Tabled bound) :
    ((List.range' bound count).foldl RecoveryState.addUnresolved state).Tabled (bound + count) ∧
      ((List.range' bound count).foldl RecoveryState.addUnresolved state).occurrences =
        state.occurrences ∧
      ((List.range' bound count).foldl RecoveryState.addUnresolved state).droppedDuplicateCount =
        state.droppedDuplicateCount ∧
      ((List.range' bound count).foldl RecoveryState.addUnresolved state).droppedOrphanCount =
        state.droppedOrphanCount := by
  induction count generalizing bound state with
  | zero => exact ⟨h, rfl, rfl, rfl⟩
  | succ count ih =>
    obtain ⟨htabled, hoccurrences, hduplicates, horphans⟩ := addUnresolved_spec h
    obtain ⟨htabled', hoccurrences', hduplicates', horphans'⟩ := ih htabled
    rw [List.range'_succ, List.foldl_cons]
    refine ⟨?_, hoccurrences'.trans hoccurrences, hduplicates'.trans hduplicates,
      horphans'.trans horphans⟩
    rw [Nat.add_comm count 1, ← Nat.add_assoc]
    exact htabled'

/-- What the recovery of every result keeps holds after all of them. -/
theorem recoverFrames_induction {motive : List ToolResultRecord → RecoveryState → Prop}
    {p : ToolResultRecord → Prop}
    (same : ∀ seen state state', motive seen state → state'.occurrences = state.occurrences →
      state'.droppedDuplicateCount = state.droppedDuplicateCount →
        state'.droppedOrphanCount = state.droppedOrphanCount → motive seen state')
    (step : ∀ bound seen state record state', p record → motive seen state →
      Recovers bound state record state' → motive (seen ++ [record]) state')
    (frames : List ToolUseFrame) (hp : ∀ frame ∈ frames, ∀ record ∈ frame.unclaimedResults, p record)
    {first : ℕ} {seen : List ToolResultRecord} {state : RecoveryState} (htabled : state.Tabled first)
    (h : motive seen state) :
    motive (seen ++ frames.flatMap ToolUseFrame.unclaimedResults)
      (recoverFrames first state frames) := by
  have hrecords : ∀ (records seen : List ToolResultRecord) (bound : ℕ) (state : RecoveryState),
      (∀ record ∈ records, p record) → state.Tabled bound → motive seen state →
        (records.foldl RecoveryState.recover state).Tabled bound ∧
          motive (seen ++ records) (records.foldl RecoveryState.recover state) := by
    intro records
    induction records with
    | nil =>
      intro seen bound state _ htabled h
      rw [List.append_nil]
      exact ⟨htabled, h⟩
    | cons record records ih =>
      intro seen bound state hp htabled h
      obtain ⟨hfirst, hp⟩ := List.forall_mem_cons.mp hp
      obtain ⟨hrecovers, htabled'⟩ := recover_spec htabled record
      have hrest := ih (seen ++ [record]) bound _ hp htabled'
        (step bound seen state record _ hfirst h hrecovers)
      rw [List.append_assoc] at hrest
      exact hrest
  induction frames generalizing first seen state with
  | nil =>
    rw [List.flatMap_nil, List.append_nil]
    exact h
  | cons frame frames ih =>
    obtain ⟨hframe, hp⟩ := List.forall_mem_cons.mp hp
    obtain ⟨htabled', hoccurrences, hduplicates, horphans⟩ :=
      addAllUnresolved_spec frame.occurrences.length htabled
    have hsame := same seen state _ h hoccurrences hduplicates horphans
    obtain ⟨htabled'', hmotive⟩ := hrecords frame.unclaimedResults seen _ _ hframe htabled' hsame
    rw [recoverFrames, List.flatMap_cons, ← List.append_assoc]
    exact ih hp htabled'' hmotive

end Recovery

end Flashclaw.Transcript
