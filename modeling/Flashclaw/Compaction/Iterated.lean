import Flashclaw.Compaction.Summary
import Flashclaw.Compaction.Partition

/-!
# Compaction: the previous summary

Whether the summary of the last compaction reaches the next one.  It is lost
where the cut falls into the first turn since the last compaction: then there
is no history to summarize, and the start of the turn is summarized without it.
-/

namespace Flashclaw.Compaction

open Utf16

/-- The summary before is part of a prompt that the summarizer was given or of the new summary. -/
def CarriesOver (previous : Utf16) (prompts : List Utf16) (summary : Utf16) : Prop :=
  (∃ promptText ∈ prompts, previous <:+: promptText) ∨ previous <:+: summary

/-- Every compaction with the preparation that succeeds carries its previous summary over. -/
def KeepsPrevious (prep : CompactionPreparation) : Prop :=
  ∀ previous, prep.previousSummary = some previous → previous ≠ [] →
    ∀ (σ : Type) (summarizer : Summarizer σ) (customInstructions : Option Utf16) (state : σ)
      (result : CompactionResult) (w : World σ Utf16),
      compact summarizer prep customInstructions ⟨state, []⟩ = (.ok result, w) →
        CarriesOver previous w.log result.summary

/-- The cut falls into the first turn since the last compaction: there is no message before the
turn, and the cut is not where the next one starts. -/
def SplitsFirstTurn (path : List SessionTreeEntry) (startIndex c : ℕ) : Prop :=
  ∃ t, startIndex ≤ t ∧ t < c ∧ startsTurn path t = true ∧
    (∀ i, startIndex ≤ i → i < t → messageAt path i = none) ∧
    (∀ i, t < i → i < c → startsTurn path i = false) ∧
    (startsTurn path c = true → Moves path startIndex c)

/-- The summary of a history without messages, up to the summary of the turn. -/
def noPriorHistory : Utf16 := ofString "No prior history." ++ splitTurnHeading

/-- The file lists at the end of a summary. -/
def fileLists (fileOps : FileOperations) : Utf16 :=
  formatFileOperations (computeFileLists fileOps).1 (computeFileLists fileOps).2

/-- The cut does not fall into the first turn since the last compaction, or the summary of that
compaction happens to stand in the prompt about the turn or in the text around its summary. -/
def SpareFirstTurn (path : List SessionTreeEntry) (settings : CompactionSettings) : Prop :=
  ∀ previous c, lastCompaction path = some previous → previous.summary ≠ [] →
    IsBudgetCut path (boundaryStart path) settings.keepRecentTokens c →
    SplitsFirstTurn path (boundaryStart path) c →
      previous.summary <:+: turnPrefixPrompt (messagesBetween path (boundaryStart path) c) ∨
      previous.summary <:+: noPriorHistory ∨
      previous.summary <:+: fileLists
        (extractFileOperations (messagesBetween path (boundaryStart path) c) (some previous))

section Prompts

variable {σ : Type} {summarizer : Summarizer σ}

theorem runSummarizationCompletion_spec (promptText : Utf16) (errorLabel : String) :
    Traced.Spec (runSummarizationCompletion summarizer promptText errorLabel)
      fun prompts _ => prompts = [promptText] := by
  unfold runSummarizationCompletion
  apply Traced.Spec.bind (p := fun prompts _ => prompts = [promptText])
  · exact Traced.Spec.call fun _ => rfl
  · rintro prompts response rfl
    split
    · exact Traced.Spec.throw rfl
    · split
      · exact Traced.Spec.throw rfl
      · exact Traced.Spec.pure rfl
  · intro prompts e h
    exact h

theorem infix_summaryPrompt (messages : List AgentMessage) (customInstructions : Option Utf16)
    {previous : Utf16} (h : previous ≠ []) :
    previous <:+: summaryPrompt messages customInstructions (some previous) := by
  have ht : isTruthy (some previous) = true := by simpa [isTruthy] using h
  simp only [summaryPrompt, ht, if_true, Option.getD_some]
  apply List.IsInfix.trans _ (List.prefix_append _ _).isInfix
  apply List.IsInfix.trans _ (List.suffix_append _ _).isInfix
  exact List.infix_append _ _ _

/-- No history is summarized before the start of the turn is. -/
def LosesPrevious (prep : CompactionPreparation) : Prop :=
  prep.isSplitTurn = true ∧ prep.turnPrefixMessages ≠ [] ∧ prep.messagesToSummarize = []

theorem compactSummary_spec_of_not_loses {prep : CompactionPreparation} (h : ¬ LosesPrevious prep)
    (customInstructions : Option Utf16) :
    Traced.Spec (compactSummary summarizer prep customInstructions) fun prompts r =>
      ∀ summary, r = .ok summary →
        summaryPrompt prep.messagesToSummarize customInstructions prep.previousSummary ∈ prompts := by
  unfold compactSummary
  split
  · rename_i hsplit
    simp only [Bool.and_eq_true, decide_eq_true_eq, List.length_pos_iff] at hsplit
    have hhistory : prep.messagesToSummarize ≠ [] := fun hnil => h ⟨hsplit.1, hsplit.2, hnil⟩
    rw [if_pos (List.length_pos_iff.mpr hhistory)]
    apply Traced.Spec.bind (runSummarizationCompletion_spec _ _)
    · rintro prompts history rfl
      apply Traced.Spec.bind (runSummarizationCompletion_spec _ _)
      · rintro prompts turn rfl
        exact Traced.Spec.pure fun _ _ => by simp
      · intro prompts e _ summary hok
        cases hok
    · intro prompts e _ summary hok
      cases hok
  · apply (runSummarizationCompletion_spec _ _).mono
    rintro prompts r rfl summary -
    exact List.mem_singleton_self _

theorem compactSummary_spec_of_loses {prep : CompactionPreparation} (h : LosesPrevious prep)
    (customInstructions : Option Utf16) :
    Traced.Spec (compactSummary summarizer prep customInstructions) fun prompts r =>
      ∀ summary, r = .ok summary → prompts = [turnPrefixPrompt prep.turnPrefixMessages] ∧
        ∃ turn, summary = noPriorHistory ++ turn := by
  obtain ⟨hsplit, hne, hnil⟩ := h
  have hpos := List.length_pos_iff.mpr hne
  rw [compactSummary, hsplit, hnil]
  simp only [hpos, decide_true, Bool.and_self, if_true, List.length_nil, lt_irrefl, if_false]
  apply Traced.Spec.bind (p := fun prompts history =>
    prompts = [] ∧ ∀ text, history = .ok text → text = ofString "No prior history.")
  · exact Traced.Spec.pure ⟨rfl, fun text h => (Except.ok.inj h).symm⟩
  · rintro prompts history ⟨rfl, hhistory⟩
    obtain rfl := hhistory history rfl
    apply Traced.Spec.bind (runSummarizationCompletion_spec _ _)
    · rintro prompts turn rfl
      apply Traced.Spec.pure
      intro summary hok
      refine ⟨rfl, turn, ?_⟩
      rw [← Except.ok.inj hok, noPriorHistory]
    · intro prompts e _ summary hok
      cases hok
  · intro prompts e _ summary hok
    cases hok

/-- A compaction prompts for its summary and adds the file lists. -/
theorem compact_eq_ok {prep : CompactionPreparation} {customInstructions : Option Utf16}
    {w w' : World σ Utf16} {result : CompactionResult}
    (h : compact summarizer prep customInstructions w = (.ok result, w')) :
    ∃ summary, compactSummary summarizer prep customInstructions w = (.ok summary, w') ∧
      result.summary = summary ++ fileLists prep.fileOps := by
  unfold compact at h
  split at h
  · cases h
  · cases hrun : compactSummary summarizer prep customInstructions w with
    | mk r w'' =>
      cases r with
      | error e =>
        rw [Results.run_bind_error hrun] at h
        cases h
      | ok summary =>
        rw [Results.run_bind_ok hrun] at h
        obtain ⟨hresult, rfl⟩ := Prod.mk.inj h
        obtain rfl := Except.ok.inj hresult
        exact ⟨summary, rfl, rfl⟩

/-- A summarizer that gives one answer to all prompts. -/
def answering (reply : Utf16) : Summarizer Unit := fun _ =>
  pure ⟨[.text reply], "", "", none, .stop, none, 0⟩

theorem compact_answering {prep : CompactionPreparation} (h : LosesPrevious prep)
    (hid : prep.firstKeptEntryId ≠ "") (reply : Utf16) :
    ∃ result w, compact (answering reply) prep none ⟨(), []⟩ = (.ok result, w) ∧
      w.log = [turnPrefixPrompt prep.turnPrefixMessages] ∧
      result.summary = noPriorHistory ++ (reply ++ fileLists prep.fileOps) := by
  obtain ⟨hsplit, hne, hnil⟩ := h
  have hpos := List.length_pos_iff.mpr hne
  have hrun : compactSummary (answering reply) prep none ⟨(), []⟩ =
      (.ok (noPriorHistory ++ responseText ⟨[.text reply], "", "", none, .stop, none, 0⟩),
        ⟨(), [turnPrefixPrompt prep.turnPrefixMessages]⟩) := by
    rw [compactSummary, hsplit, hnil]
    simp only [hpos, decide_true, Bool.and_self, if_true, List.length_nil, lt_irrefl, if_false]
    rfl
  have hreply : responseText ⟨[.text reply], "", "", none, .stop, none, 0⟩ = reply := by
    simp [responseText, join]
  rw [hreply] at hrun
  rw [compact, if_neg hid, Results.run_bind_ok hrun]
  exact ⟨_, _, rfl, rfl, List.append_assoc _ _ _⟩

end Prompts

/-- Exactly how a preparation can lose its previous summary. -/
theorem keepsPrevious_iff {prep : CompactionPreparation} (hid : prep.firstKeptEntryId ≠ "") :
    KeepsPrevious prep ↔ ∀ previous, prep.previousSummary = some previous → previous ≠ [] →
      LosesPrevious prep → previous <:+: turnPrefixPrompt prep.turnPrefixMessages ∨
        previous <:+: noPriorHistory ∨ previous <:+: fileLists prep.fileOps := by
  constructor
  · intro h previous hprevious hne hloses
    obtain ⟨x, hhead, hlast⟩ := exists_ne_ne previous.head? previous.getLast?
    obtain ⟨result, w, hrun, hlog, hsummary⟩ :=
      compact_answering hloses hid (List.replicate previous.length x)
    obtain ⟨promptText, hm, hinfix⟩ | hinfix :=
      h previous hprevious hne Unit _ none () result w hrun
    · rw [hlog, List.mem_singleton] at hm
      rw [hm] at hinfix
      exact .inl hinfix
    · rw [hsummary] at hinfix
      exact .inr (Lists.infix_append_replicate hhead hlast le_rfl hinfix)
  · intro h previous hprevious hne σ summarizer customInstructions state result w hrun
    obtain ⟨summary, hrun, hsummary⟩ := compact_eq_ok hrun
    by_cases hloses : LosesPrevious prep
    · obtain ⟨prompts, hlog, hspec⟩ :=
        compactSummary_spec_of_loses hloses customInstructions ⟨state, []⟩
      rw [hrun] at hlog hspec
      obtain ⟨rfl, turn, rfl⟩ := hspec summary rfl
      obtain hprompt | hheader | hfiles := h previous hprevious hne hloses
      · exact .inl ⟨_, by rw [hlog]; simp, hprompt⟩
      · right
        rw [hsummary, List.append_assoc]
        exact hheader.trans (List.prefix_append _ _).isInfix
      · right
        rw [hsummary]
        exact hfiles.trans (List.suffix_append _ _).isInfix
    · obtain ⟨prompts, hlog, hspec⟩ :=
        compactSummary_spec_of_not_loses hloses customInstructions ⟨state, []⟩
      rw [hrun] at hlog hspec
      refine .inl ⟨_, ?_, infix_summaryPrompt prep.messagesToSummarize customInstructions hne⟩
      rw [hlog, List.nil_append, ← hprevious]
      exact hspec summary rfl

section Cut

variable {path : List SessionTreeEntry} {settings : CompactionSettings}
  {prep : CompactionPreparation} {r : CutPointResult} {c : ℕ}

theorem messagesBetween_eq_nil_iff {i j : ℕ} :
    messagesBetween path i j = [] ↔ ∀ k, i ≤ k → k < j → messageAt path k = none := by
  rw [List.eq_nil_iff_forall_not_mem]
  constructor
  · intro h k hik hkj
    rw [Option.eq_none_iff_forall_ne_some]
    intro m hm
    exact h m (mem_messagesBetween.mpr ⟨k, hik, hkj, hm⟩)
  · intro h m hm
    obtain ⟨k, hik, hkj, hk⟩ := mem_messagesBetween.mp hm
    rw [h k hik hkj] at hk
    cases hk

theorem exists_messageAt_of_startsTurn {t : ℕ} (h : startsTurn path t = true) :
    ∃ m, messageAt path t = some m := by
  rw [startsTurn_eq, Option.any_eq_true] at h
  obtain ⟨m, hm, -⟩ := h
  exact ⟨m, hm⟩

theorem Prepared.losesPrevious_iff (h : Prepared path settings prep r c) :
    LosesPrevious prep ↔ SplitsFirstTurn path (boundaryStart path) c := by
  constructor
  · rintro ⟨hsplit, -, hnil⟩
    rw [h.isSplitTurn] at hsplit
    obtain ⟨t, ht⟩ := Option.isSome_iff_exists.mp hsplit
    obtain ⟨hnot, hs, hlt, hstarts, hlast⟩ := (h.found.turn t).mp ht
    rw [h.history, ht, Option.getD_some, messagesBetween_eq_nil_iff] at hnil
    refine ⟨t, hs, hlt.trans_le h.found.le, hstarts, hnil, ?_, ?_⟩
    · intro i hti hic
      by_cases hi : i < r.firstKeptEntryIndex
      · exact hlast i hti hi
      · exact h.found.startsTurn_eq_false (not_lt.mp hi) hic
    · intro hc
      obtain heq | hmoved := Nat.eq_or_lt_of_le h.found.le
      · rw [heq, hc] at hnot
        cases hnot
      · exact h.found.lt_iff.mp hmoved
  · rintro ⟨t, hs, hlt, hstarts, hnone, hlast, hmoves⟩
    have hkept : t < r.firstKeptEntryIndex := by
      by_contra hge
      rw [h.found.startsTurn_eq_false (not_lt.mp hge) hlt] at hstarts
      cases hstarts
    have hnot : startsTurn path r.firstKeptEntryIndex = false := by
      obtain heq | hmoved := Nat.eq_or_lt_of_le h.found.le
      · rw [heq]
        by_contra hc
        have hmoved := h.found.lt_iff.mpr (hmoves (by simpa using hc))
        omega
      · exact h.found.startsTurn_eq_false le_rfl hmoved
    have ht : r.turnStartIndex = some t := (h.found.turn t).mpr
      ⟨hnot, hs, hkept, hstarts, fun j htj hj => hlast j htj (hj.trans_le h.found.le)⟩
    obtain ⟨m, hm⟩ := exists_messageAt_of_startsTurn hstarts
    refine ⟨?_, ?_, ?_⟩
    · rw [h.isSplitTurn, ht]
      rfl
    · rw [h.turn, ht, Option.getD_some]
      exact List.ne_nil_of_mem (mem_messagesBetween.mpr ⟨t, le_rfl, hkept, hm⟩)
    · rw [h.history, ht, Option.getD_some, messagesBetween_eq_nil_iff]
      exact hnone

/-- With a history in front of its turn the cut spares the first turn. -/
theorem Prepared.spareFirstTurn (h : Prepared path settings prep r c)
    (hhistory : prep.messagesToSummarize ≠ []) : SpareFirstTurn path settings := by
  intro previous c' _ _ hc' hsplits
  obtain rfl := h.found.budget.unique hc'
  exact absurd (h.losesPrevious_iff.mpr hsplits).2.2 hhistory

/-- Where there is no history, the start of the turn is all that stands before the cut. -/
theorem Prepared.turnPrefixMessages_eq (h : Prepared path settings prep r c)
    (hloses : LosesPrevious prep) :
    prep.turnPrefixMessages = messagesBetween path (boundaryStart path) c := by
  have hpassed : messagesBetween path r.firstKeptEntryIndex c = [] :=
    messagesBetween_eq_nil_iff.mpr fun k => h.found.messageAt_eq_none
  have hsummarized := h.summarized_eq
  rw [hloses.2.2, List.nil_append] at hsummarized
  rw [hsummarized, ← messagesBetween_append h.found.start_le h.found.le, hpassed, List.append_nil]

theorem Prepared.keepsPrevious_iff (h : Prepared path settings prep r c) :
    KeepsPrevious prep ↔ SpareFirstTurn path settings := by
  have hfiles (hloses : LosesPrevious prep) (previous : CompactionEntry)
      (hprevious : lastCompaction path = some previous) :
      fileLists prep.fileOps = fileLists
        (extractFileOperations (messagesBetween path (boundaryStart path) c) (some previous)) := by
    rw [h.fileOps, hprevious, hloses.2.2, List.nil_append, h.turnPrefixMessages_eq hloses]
  rw [Compaction.keepsPrevious_iff h.id_ne]
  constructor
  · intro hkeeps previous c' hprevious hne hc' hsplits
    obtain rfl := h.found.budget.unique hc'
    have hloses := h.losesPrevious_iff.mpr hsplits
    rw [← hfiles hloses previous hprevious, ← h.turnPrefixMessages_eq hloses]
    exact hkeeps previous.summary (by rw [h.previousSummary, hprevious]; rfl) hne hloses
  · intro hspare previous hprevious hne hloses
    rw [h.previousSummary] at hprevious
    obtain ⟨entry, hentry, rfl⟩ := Option.map_eq_some_iff.mp hprevious
    rw [hfiles hloses entry hentry, h.turnPrefixMessages_eq hloses]
    exact hspare entry c hentry hne h.found.budget (h.losesPrevious_iff.mp hloses)

end Cut

/-- A compaction that was made: the summary that the context had before, the prompts that the
summarizer was given, and the new summary. -/
structure Compacted where
  previous : Option Utf16
  prompts : List Utf16
  summary : Utf16

/-- The entry of a compaction. -/
def compactionEntry (id : String) (timestamp : ℤ) (result : CompactionResult) : CompactionEntry :=
  ⟨id, timestamp, result.summary, result.firstKeptEntryId, result.tokensBefore,
    some result.details, false⟩

/-- A session that grows from a path by entries and by compactions where the condition holds. -/
inductive Grows (condition : List SessionTreeEntry → CompactionSettings → Prop)
    (start : List SessionTreeEntry) : List SessionTreeEntry → List Compacted → Prop
  | start : Grows condition start start []
  | append {path : List SessionTreeEntry} {done : List Compacted} {entry : SessionTreeEntry} :
    Grows condition start path done → entry.isCompaction = false →
      Grows condition start (path ++ [entry]) done
  | compact {path : List SessionTreeEntry} {done : List Compacted} {settings : CompactionSettings}
      {prep : CompactionPreparation} {σ : Type} {summarizer : Summarizer σ}
      {customInstructions : Option Utf16} {state : σ} {result : CompactionResult}
      {w : World σ Utf16} (id : String) (timestamp : ℤ) :
    Grows condition start path done → condition path settings →
      prepareCompaction path settings = .ok (some prep) →
      compact summarizer prep customInstructions ⟨state, []⟩ = (.ok result, w) →
      Grows condition start (path ++ [.compaction (compactionEntry id timestamp result)])
        (done ++ [⟨(lastCompaction path).map (·.summary), w.log, result.summary⟩])

/-- Every compaction carries the summary over that the context had before, which is the one of
the compaction before. -/
structure Iterated (done : List Compacted) : Prop where
  carries : ∀ d ∈ done, ∀ previous, d.previous = some previous → previous ≠ [] →
    CarriesOver previous d.prompts d.summary
  chain : done.IsChain fun d d' => d'.previous = some d.summary

/-- A summary that is carried over stays the one of the context until the next compaction. -/
theorem Grows.iterated {start path : List SessionTreeEntry} {done : List Compacted}
    (h : Grows SpareFirstTurn start path done) :
    Iterated done ∧
      ∀ d, done.getLast? = some d → (lastCompaction path).map (·.summary) = some d.summary := by
  induction h with
  | start => exact ⟨⟨List.forall_mem_nil _, List.isChain_nil⟩, fun d hd => by cases hd⟩
  | @append path done entry h hentry ih =>
    refine ⟨ih.1, ?_⟩
    intro d hd
    have hnone : entry.compaction? = none := by simpa [SessionTreeEntry.isCompaction] using hentry
    rw [lastCompaction_concat, hnone, Option.none_or]
    exact ih.2 d hd
  | @compact path done settings prep σ summarizer customInstructions state result w id timestamp
      h hspare hprep hrun ih =>
    obtain ⟨r, c, hprepared⟩ := prepareCompaction_spec hprep
    have hkeeps := hprepared.keepsPrevious_iff.mpr hspare
    refine ⟨⟨?_, ?_⟩, ?_⟩
    · rw [List.forall_mem_append]
      refine ⟨ih.1.carries, ?_⟩
      rw [List.forall_mem_singleton]
      intro previous hprevious hne
      rw [← hprepared.previousSummary] at hprevious
      exact hkeeps previous hprevious hne σ summarizer customInstructions state result w hrun
    · rw [List.isChain_append]
      refine ⟨ih.1.chain, List.isChain_singleton _, ?_⟩
      intro d hd d' hd'
      obtain rfl := Option.some.inj hd'
      exact ih.2 d hd
    · intro d hd
      rw [List.getLast?_concat] at hd
      obtain rfl := Option.some.inj hd
      rw [lastCompaction_concat]
      rfl

/-- A compaction can lose the summary of the last one exactly where the cut falls into the first
turn since then, and a session whose compactions spare it keeps every summary. -/
theorem previous_summary_kept (start : List SessionTreeEntry) (settings : CompactionSettings) :
    (∀ prep : CompactionPreparation, prepareCompaction start settings = .ok (some prep) →
      (KeepsPrevious prep ↔ SpareFirstTurn start settings)) ∧
    ∀ (path : List SessionTreeEntry) (done : List Compacted),
      Grows SpareFirstTurn start path done → Iterated done := by
  constructor
  · intro prep hprep
    obtain ⟨r, c, h⟩ := prepareCompaction_spec hprep
    exact h.keepsPrevious_iff
  · intro path done h
    exact h.iterated.1

/-- Two turns, with a compaction in the first one. -/
def compactedPath : List SessionTreeEntry :=
  [userEntry "a" "look", .compaction ⟨"k", 0, ofString "zebra", "a", 0, none, false⟩,
    assistantEntry "b" "all done", userEntry "c" "and then", assistantEntry "d" "all done"]

/-- The path after a compaction, with one more turn. -/
def continuedPath (result : CompactionResult) : List SessionTreeEntry :=
  compactedPath ++ [.compaction (compactionEntry "l" 0 result)] ++ [userEntry "e" "look"] ++
    [assistantEntry "f" "all done"]

def compactedWith (prep : CompactionPreparation) : Option CompactionResult :=
  (compact (answering (ofString "plan")) prep none ⟨(), []⟩).1.toOption

theorem compact_of_compactedWith {prep : CompactionPreparation} {result : CompactionResult}
    (h : compactedWith prep = some result) :
    ∃ w, compact (answering (ofString "plan")) prep none ⟨(), []⟩ = (.ok result, w) := by
  unfold compactedWith at h
  cases hrun : compact (answering (ofString "plan")) prep none ⟨(), []⟩ with
  | mk outcome w =>
    rw [hrun] at h
    cases outcome with
    | ok result' =>
      obtain rfl := Option.some.inj h
      exact ⟨w, rfl⟩
    | error => cases h

/-- Both compactions split a turn and have a history in front of it. -/
theorem previous_summary_kept_twice :
    ∃ prep path d d', prepareCompaction compactedPath keepTwo = .ok (some prep) ∧
      prep.isSplitTurn = true ∧ prep.previousSummary = some (ofString "zebra") ∧
      (KeepsPrevious prep ↔ SpareFirstTurn compactedPath keepTwo) ∧
      Grows SpareFirstTurn compactedPath path [d, d'] ∧ Iterated [d, d'] := by
  have hboth : (preparedOf compactedPath keepTwo).any (fun prep => prep.isSplitTurn &&
      prep.previousSummary = some (ofString "zebra") && prep.messagesToSummarize.length ≠ 0 &&
      (compactedWith prep).any fun result =>
        (preparedOf (continuedPath result) keepTwo).any fun prep' =>
          prep'.messagesToSummarize.length ≠ 0 && (compactedWith prep').isSome) = true := by
    decide +kernel
  obtain ⟨prep, hprep, hboth⟩ := (Option.any_eq_true _ _).mp hboth
  simp only [Bool.and_eq_true, decide_eq_true_eq] at hboth
  obtain ⟨⟨⟨hsplit, hprevious⟩, hhistory⟩, hboth⟩ := hboth
  obtain ⟨result, hresult, hboth⟩ := (Option.any_eq_true _ _).mp hboth
  obtain ⟨prep', hprep', hboth⟩ := (Option.any_eq_true _ _).mp hboth
  simp only [Bool.and_eq_true, decide_eq_true_eq] at hboth
  obtain ⟨hhistory', hresult'⟩ := hboth
  obtain ⟨result', hresult'⟩ := Option.isSome_iff_exists.mp hresult'
  have hprep := prepareCompaction_of_preparedOf hprep
  have hprep' := prepareCompaction_of_preparedOf hprep'
  obtain ⟨r, c, hprepared⟩ := prepareCompaction_spec hprep
  obtain ⟨r', c', hprepared'⟩ := prepareCompaction_spec hprep'
  obtain ⟨w, hrun⟩ := compact_of_compactedWith hresult
  obtain ⟨w', hrun'⟩ := compact_of_compactedWith hresult'
  have hspare := hprepared.spareFirstTurn (List.ne_nil_of_length_pos (Nat.pos_of_ne_zero hhistory))
  have hspare' := hprepared'.spareFirstTurn (List.ne_nil_of_length_pos (Nat.pos_of_ne_zero hhistory'))
  have hgrows := (@Grows.start SpareFirstTurn compactedPath).compact "l" 0 hspare hprep hrun
  have hasked := @Grows.append SpareFirstTurn compactedPath _ _ (userEntry "e" "look") hgrows rfl
  have hanswered :=
    @Grows.append SpareFirstTurn compactedPath _ _ (assistantEntry "f" "all done") hasked rfl
  have htwice := hanswered.compact "m" 0 hspare' hprep' hrun'
  exact ⟨prep, _, _, _, hprep, hsplit, hprevious,
    (previous_summary_kept compactedPath keepTwo).1 prep hprep, htwice,
    (previous_summary_kept compactedPath keepTwo).2 _ _ htwice⟩

/-- A compaction that cut before a question, and the answer to it. -/
def answeredPath : List SessionTreeEntry :=
  [userEntry "a" "look", .compaction ⟨"k", 0, ofString "zebra", "a", 0, none, false⟩,
    assistantEntry "b" "all done"]

/-- The next compaction keeps the answer and summarizes the question, without the summary. -/
theorem previous_summary_lost :
    ¬ ∀ (path : List SessionTreeEntry) (settings : CompactionSettings)
      (prep : CompactionPreparation), prepareCompaction path settings = .ok (some prep) →
        KeepsPrevious prep := by
  intro h
  obtain ⟨prep, hprep⟩ := Option.isSome_iff_exists.mp
    (by decide +kernel : (preparedOf answeredPath keepTwo).isSome = true)
  have hlost : (preparedOf answeredPath keepTwo).all (fun prep =>
      prep.firstKeptEntryId ≠ "" && prep.previousSummary = some (ofString "zebra") &&
      prep.isSplitTurn && prep.turnPrefixMessages.length ≠ 0 &&
      prep.messagesToSummarize.length = 0 &&
      !decide (ofString "zebra" <:+: turnPrefixPrompt prep.turnPrefixMessages) &&
      !decide (ofString "zebra" <:+: noPriorHistory) &&
      !decide (ofString "zebra" <:+: fileLists prep.fileOps)) = true := by decide +kernel
  rw [hprep] at hlost
  simp only [Option.all_some, Bool.and_eq_true, Bool.not_eq_true', decide_eq_true_eq,
    decide_eq_false_iff_not, ne_eq, List.length_eq_zero_iff] at hlost
  obtain ⟨⟨⟨⟨⟨⟨⟨hid, hprevious⟩, hsplit⟩, hturn⟩, hhistory⟩, hprompt⟩, hheader⟩, hfiles⟩ := hlost
  obtain hp | hp | hp := (keepsPrevious_iff hid).mp
    (h answeredPath keepTwo prep (prepareCompaction_of_preparedOf hprep)) _ hprevious
    (by decide) ⟨hsplit, hturn, hhistory⟩
  · exact hprompt hp
  · exact hheader hp
  · exact hfiles hp

end Flashclaw.Compaction
