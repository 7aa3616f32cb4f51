import Flashclaw.Exec.WindowsStripped

/-!
# The enforced command, analysed again

A command that is built for enforcement is taken apart by the analysis that approved it.
-/

namespace Flashclaw.Exec.Windows

open Utf16 Backtracking

def breaksLine (token : Utf16) : Prop := NEWLINE ∈ token ∨ RETURN ∈ token

theorem breaksLine_cons {c : CodeUnit} {value : Utf16} :
    breaksLine (c :: value) ↔ c = NEWLINE ∨ c = RETURN ∨ breaksLine value := by
  rw [breaksLine, breaksLine, List.mem_cons, List.mem_cons, eq_comm, or_or_or_comm, or_assoc,
    eq_comm (a := RETURN)]

theorem findFrom_bare {value : Utf16} (h : ∀ c ∈ value, isBare c = true) (inDouble : Bool)
    (rest : Utf16) : findFrom inDouble (value ++ rest) = findFrom inDouble rest := by
  induction value with
  | nil => rfl
  | cons c value ih =>
    have hc : isBare c = true := h c List.mem_cons_self
    have hsupported : c ∉ WINDOWS_UNSUPPORTED_TOKENS := by
      intro hmem
      have hvals : WINDOWS_UNSUPPORTED_TOKENS.map Fin.val =
          [38, 124, 60, 62, 59, 94, 40, 41, 37, 33, 96, 10, 13] := by decide
      have hval : c.val ∈ WINDOWS_UNSUPPORTED_TOKENS.map Fin.val := List.mem_map_of_mem hmem
      rw [hvals] at hval
      simp only [List.mem_cons, List.not_mem_nil, or_false] at hval
      have := bare_bounds hc
      omega
    rw [List.cons_append, findFrom, if_neg (bare_ne hc (by decide)),
      if_neg (bare_ne hc (by decide)), if_neg hsupported]
    exact ih fun d hd => h d (List.mem_cons_of_mem c hd)

/-- Between double quotes an escaped token is refused for a line break only. -/
theorem findFrom_quoted {value : Utf16} (hmeta : hasUnsafeMeta value = false)
    (hdouble : DOUBLE ∉ value) (rest : Utf16) :
    (breaksLine value → findFrom true (value ++ DOUBLE :: rest) ≠ none) ∧
      (¬breaksLine value → findFrom true (value ++ DOUBLE :: rest) = findFrom false rest) := by
  induction value with
  | nil =>
    refine ⟨?_, fun _ => rfl⟩
    rintro (h | h) <;> cases h
  | cons c value ih =>
    rw [hasUnsafeMeta, Bool.or_eq_false_iff, Bool.or_eq_false_iff, Bool.or_eq_false_iff] at hmeta
    obtain ⟨⟨⟨hpercent, htick⟩, hdollar⟩, hmeta⟩ := hmeta
    rw [decide_eq_false_iff_not] at hpercent htick
    rw [List.mem_cons, not_or] at hdouble
    obtain ⟨hbreaks, hkeeps⟩ := ih hmeta hdouble.2
    rw [breaksLine_cons, List.cons_append, findFrom, if_neg (Ne.symm hdouble.1)]
    by_cases hvariable : c = unit '$'
    · have hnext : (value ++ DOUBLE :: rest).head?.any isExpansion = false := by
        rw [hvariable, decide_eq_true rfl, Bool.true_and] at hdollar
        cases value with
        | nil => rfl
        | cons d value => exact hdollar
      rw [if_pos hvariable, hnext, if_neg Bool.false_ne_true, hvariable]
      have hline : unit '$' ≠ NEWLINE ∧ unit '$' ≠ RETURN := by decide
      simp only [hline.1, hline.2, false_or]
      exact ⟨hbreaks, hkeeps⟩
    · rw [if_neg hvariable]
      by_cases hline : c = NEWLINE ∨ c = RETURN
      · have hrefused : c ∈ WINDOWS_UNSUPPORTED_TOKENS ∧ c ∈ WINDOWS_ALWAYS_UNSAFE_TOKENS := by
          rcases hline with rfl | rfl <;> decide
        rw [if_pos hrefused.1, if_neg (by simp [hrefused.2])]
        refine ⟨fun _ => ?_, fun h => absurd (or_assoc.mp (.inl hline)) h⟩
        split_ifs
        · exact Option.some_ne_none _
        · exact Option.some_ne_none _
      · have hsafe : c ∉ WINDOWS_ALWAYS_UNSAFE_TOKENS := by
          have hmem : WINDOWS_ALWAYS_UNSAFE_TOKENS = [NEWLINE, RETURN, unit '%', unit '`'] := by
            decide
          rw [hmem]
          simp only [List.mem_cons, List.not_mem_nil, or_false]
          tauto
        have hinside : (true && c ∉ WINDOWS_ALWAYS_UNSAFE_TOKENS) = true := by
          rw [Bool.true_and, decide_eq_true_eq]
          exact hsafe
        rw [if_pos hinside, ite_self, ← or_assoc, or_iff_right hline]
        exact ⟨hbreaks, hkeeps⟩

theorem findFrom_part {token part : Utf16} (h : windowsEscapeArg token = some part)
    (hdouble : DOUBLE ∉ token) (rest : Utf16) :
    (breaksLine token → findFrom false (part ++ rest) ≠ none) ∧
      (¬breaksLine token → findFrom false (part ++ rest) = findFrom false rest) := by
  obtain ⟨hmeta, ⟨-, hbare, rfl⟩ | rfl⟩ := windowsEscapeArg_cases h
  · refine ⟨?_, fun _ => findFrom_bare hbare false rest⟩
    rintro (hmem | hmem)
    · exact absurd rfl (bare_ne (hbare _ hmem) (d := NEWLINE) (by decide))
    · exact absurd rfl (bare_ne (hbare _ hmem) (d := RETURN) (by decide))
  · have hplain : doubled token = token := by
      rw [doubled]
      conv_rhs => rw [← List.flatMap_singleton' token]
      apply List.flatMap_congr
      intro c hc
      rw [if_neg]
      rintro rfl
      exact hdouble hc
    rw [hplain, List.cons_append, findFrom, if_pos rfl, List.append_assoc, List.singleton_append,
      Bool.not_false]
    exact findFrom_quoted hmeta hdouble rest

/-- A text of escaped tokens is refused where one of them has a line break. -/
theorem find_escaped {tokens parts : List Utf16} (h : Escapes tokens parts)
    (hdouble : ∀ token ∈ tokens, DOUBLE ∉ token) :
    findWindowsUnsupportedToken (join (unit ' ') parts) = none ↔
      ∀ token ∈ tokens, ¬breaksLine token := by
  rw [findWindowsUnsupportedToken]
  induction h with
  | nil => exact ⟨fun _ _ hmem => (List.not_mem_nil hmem).elim, fun _ => rfl⟩
  | @cons token part tokens parts hescape hrest ih =>
    rw [List.forall_mem_cons] at hdouble ⊢
    have hih := ih hdouble.2
    have hjoin : ∃ rest, join (unit ' ') (part :: parts) = part ++ rest ∧
        findFrom false rest = findFrom false (join (unit ' ') parts) := by
      cases hrest with
      | nil =>
        refine ⟨[], ?_, rfl⟩
        rw [join_singleton, List.append_nil]
      | cons _ _ =>
        refine ⟨_, join_cons_cons _ _ _ _, ?_⟩
        rw [findFrom, if_neg (by decide), if_neg (by decide), if_neg (by decide)]
    obtain ⟨rest, hjoin, hfind⟩ := hjoin
    obtain ⟨hbreaks, hkeeps⟩ := findFrom_part hescape hdouble.1 rest
    rw [hjoin]
    by_cases hbreak : breaksLine token
    · exact ⟨fun hnone => absurd hnone (hbreaks hbreak), fun hnone => absurd hbreak hnone.1⟩
    · rw [hkeeps hbreak, hfind, hih, and_iff_right hbreak]

/-- Neither the first character nor the last is a blank. -/
def Edged (s : Utf16) : Prop :=
  (∃ c, s.head? = some c ∧ isWhiteSpace c = false) ∧
    ∃ c, s.getLast? = some c ∧ isWhiteSpace c = false

theorem edged_part {token part : Utf16} (h : windowsEscapeArg token = some part) :
    Edged part := by
  obtain ⟨-, ⟨hne, hbare, rfl⟩ | rfl⟩ := windowsEscapeArg_cases h
  · exact ⟨⟨_, List.head?_eq_some_head hne, bare_not_blank (hbare _ (List.head_mem hne))⟩,
      ⟨_, List.getLast?_eq_some_getLast hne, bare_not_blank (hbare _ (List.getLast_mem hne))⟩⟩
  · refine ⟨⟨DOUBLE, rfl, by decide⟩, ⟨DOUBLE, ?_, by decide⟩⟩
    rw [← List.cons_append, List.getLast?_concat]

theorem edged_append {s t : Utf16} (hs : Edged s) (ht : Edged t) (mid : Utf16) :
    Edged (s ++ (mid ++ t)) := by
  obtain ⟨⟨c, hc, hblank⟩, -⟩ := hs
  obtain ⟨-, ⟨d, hd, hblank'⟩⟩ := ht
  refine ⟨⟨c, ?_, hblank⟩, ⟨d, ?_, hblank'⟩⟩
  · rw [List.head?_append, hc]
    rfl
  · rw [← List.append_assoc, List.getLast?_append, hd]
    rfl

theorem edged_join {tokens parts : List Utf16} (h : Escapes tokens parts) (hne : tokens ≠ []) :
    Edged (join (unit ' ') parts) := by
  induction h with
  | nil => exact absurd rfl hne
  | cons hpart hrest ih =>
    cases hrest with
    | nil =>
      rw [join_singleton]
      exact edged_part hpart
    | cons hnext hmore =>
      rw [join_cons_cons]
      exact edged_append (edged_part hpart) (ih (List.cons_ne_nil _ _)) [unit ' ']

theorem trim_eq_self {s : Utf16} (h : Edged s) : trim s = s := by
  obtain ⟨⟨c, hc, hblank⟩, ⟨d, hd, hblank'⟩⟩ := h
  have hstart : trimStart s = s := by
    apply trimStart_eq_self
    intro x hx
    obtain rfl := Option.some.inj (hc.symm.trans hx)
    exact hblank
  rw [trim, hstart, trimEnd, List.rdropWhile_eq_self_iff]
  intro hne
  obtain rfl := Option.some.inj ((List.getLast?_eq_some_getLast hne).symm.trans hd)
  rw [hblank']
  exact Bool.false_ne_true

/-- The call operator is the first wrapper that is taken off. -/
theorem strip_call {s : Utf16} (h : Edged s) :
    stripWindowsShellWrapperOnce (unit '&' :: unit ' ' :: s) = s := by
  obtain ⟨⟨c, hc, hblank⟩, -⟩ := h
  obtain ⟨s, rfl⟩ := List.head?_eq_some_iff.mp hc
  have hmark : Prefers (text "&") ⟨[], unit '&' :: unit ' ' :: c :: s, none⟩
      ⟨[unit '&'], unit ' ' :: c :: s, none⟩ :=
    prefers_seq (prefers_unit (by decide) _ _ _) (prefers_empty _)
  have hblanks : Prefers (.plus space) ⟨[unit '&'], unit ' ' :: c :: s, none⟩
      ⟨[unit ' ', unit '&'], c :: s, none⟩ := by
    apply prefers_plus_unit (x := []) (by decide) (fun _ hd => (List.not_mem_nil hd).elim)
    intro d hd
    obtain rfl := Option.some.inj hd
    exact hblank
  have hall : Prefers (.plus anyUnit) ⟨[unit ' ', unit '&'], c :: s, none⟩
      ⟨s.reverse ++ [c, unit ' ', unit '&'], [], none⟩ := by
    have hread := prefers_plus_unit (p := fun _ => true) (c := c) (x := s) (y := []) rfl
      (fun _ _ => rfl) (fun _ hd => by cases hd) [unit ' ', unit '&'] none
    rwa [List.append_nil] at hread
  have hmatch : Prefers psCall ⟨[], unit '&' :: unit ' ' :: c :: s, none⟩ _ :=
    prefers_seq hmark (prefers_seq hblanks (prefers_seq (prefers_group hall)
      (prefers_seq (prefers_atEnd _ _) (prefers_empty _))))
  have hcall : capture psCall (unit '&' :: unit ' ' :: c :: s) = some (c :: s) := by
    rw [capture_of_prefers hmatch]
    exact congrArg some (List.take_length (l := c :: s))
  rw [stripWindowsShellWrapperOnce, hcall]

theorem strip_enforced {rendered : Utf16} (h : Edged rendered) :
    stripWindowsShellWrapper (trim (unit '&' :: unit ' ' :: rendered)) = stripLoop 4 rendered := by
  have hedged : Edged (unit '&' :: unit ' ' :: rendered) :=
    edged_append (s := [unit '&']) ⟨⟨_, rfl, by decide⟩, ⟨_, rfl, by decide⟩⟩ h [unit ' ']
  rw [stripWindowsShellWrapper, stripLoop, trim_eq_self hedged, trim_eq_self hedged,
    strip_call h, if_neg]
  intro heq
  have hlength := congrArg List.length heq
  rw [List.length_cons, List.length_cons] at hlength
  omega

/-- The command line of the argv is itself one that PowerShell is asked to run. -/
def IsWrapperCall (argv : List Utf16) : Prop :=
  ∃ rendered, renderWindowsQuotedArgv argv = .ok rendered ∧
    stripWindowsShellWrapperOnce rendered ≠ rendered

/-- What an argv may hold so that its command line is that argv again. -/
def Survives (argv : List Utf16) : Prop :=
  (∀ token ∈ argv, DOUBLE ∉ token) ∧ (∀ token ∈ argv, ¬breaksLine token) ∧ ¬IsWrapperCall argv

theorem escapes_of_render {argv : List Utf16} {rendered : Utf16}
    (h : renderWindowsQuotedArgv argv = .ok rendered) :
    ∃ parts, Escapes argv parts ∧ rendered = join (unit ' ') parts := by
  rw [renderWindowsQuotedArgv] at h
  cases hparts : escapeAll argv with
  | error reason =>
    rw [hparts] at h
    cases h
  | ok parts =>
    rw [hparts] at h
    exact ⟨parts, escapes_of_escapeAll hparts, (Except.ok.inj h).symm⟩

theorem planned_ne_nil {segment : ExecCommandSegment} {argv : List Utf16}
    (h : resolvePlannedSegmentArgv segment = some argv) : argv ≠ [] := by
  rw [resolvePlannedSegmentArgv] at h
  split_ifs at h
  all_goals
    dsimp only at h
    split at h
    · cases h
    · obtain rfl := Option.some.inj h
      exact List.cons_ne_nil _ _

theorem rebuilt_of_build {command text : Utf16} {segments : List ExecCommandSegment}
    {platform : Option Utf16} (h : buildEnforcedShellCommand command segments platform = .ok text) :
    segments.length = 1 ∧ rebuildWindowsShellCommandFromSource command
      (fun _ => renderPlannedSegment segments) = .ok text := by
  rw [buildEnforcedShellCommand] at h
  split_ifs at h with hplatform hlength
  · split at h
    · cases h
    · cases h
  · split at h
    · cases h
    · rename_i rebuilt hrebuilt
      obtain rfl := Except.ok.inj h
      exact ⟨not_not.mp hlength, hrebuilt⟩

theorem text_of_rebuilt {command text : Utf16}
    {renderSegment : Utf16 → ℕ → Except Utf16 Utf16}
    (h : rebuildWindowsShellCommandFromSource command renderSegment = .ok text) :
    ∃ rendered, renderSegment (stripWindowsShellWrapper (trim command)) 0 = .ok rendered ∧
      text = unit '&' :: unit ' ' :: rendered := by
  rw [rebuildWindowsShellCommandFromSource] at h
  split_ifs at h
  split at h
  · cases h
  · split at h
    · cases h
    · rename_i rendered hrendered
      exact ⟨rendered, hrendered, (Except.ok.inj h).symm⟩

theorem planned_of_render {segment : ExecCommandSegment} {rendered : Utf16}
    (h : renderPlannedSegment [segment] 0 = .ok rendered) :
    ∃ argv, resolvePlannedSegmentArgv segment = some argv ∧
      renderWindowsQuotedArgv argv = .ok rendered := by
  rw [renderPlannedSegment, List.getElem?_cons_zero] at h
  dsimp only at h
  cases hplan : resolvePlannedSegmentArgv segment with
  | none =>
    rw [hplan] at h
    cases h
  | some argv =>
    rw [hplan] at h
    exact ⟨argv, rfl, h⟩

theorem analyze_iff {resolve : List Utf16 → Option CommandResolution} {command : Utf16}
    {argv : List Utf16} :
    (∃ segment, analyzeWindowsShellCommand resolve command = .ok [segment] ∧
        segment.argv = argv) ↔
      findWindowsUnsupportedToken (stripWindowsShellWrapper (trim command)) = none ∧
        tokenizeWindowsSegment (stripWindowsShellWrapper (trim command)) = some argv := by
  rw [analyzeWindowsShellCommand]
  cases findWindowsUnsupportedToken (stripWindowsShellWrapper (trim command)) with
  | some unsupported =>
    constructor
    · rintro ⟨segment, hok, -⟩
      cases hok
    · rintro ⟨hnone, -⟩
      cases hnone
  | none =>
    cases tokenizeWindowsSegment (stripWindowsShellWrapper (trim command)) with
    | none =>
      constructor
      · rintro ⟨segment, hok, -⟩
        cases hok
      · rintro ⟨-, hsome⟩
        cases hsome
    | some tokens =>
      constructor
      · rintro ⟨segment, hok, rfl⟩
        obtain rfl := List.singleton_inj.mp (Except.ok.inj hok)
        exact ⟨rfl, rfl⟩
      · rintro ⟨-, hsome⟩
        obtain rfl := Option.some.inj hsome
        exact ⟨_, rfl, rfl⟩

theorem analyze_enforced_iff {resolve : List Utf16 → Option CommandResolution}
    {argv : List Utf16} {rendered : Utf16} (hne : argv ≠ [])
    (h : renderWindowsQuotedArgv argv = .ok rendered) :
    (∃ segment, analyzeWindowsShellCommand resolve (unit '&' :: unit ' ' :: rendered) =
        .ok [segment] ∧ segment.argv = argv) ↔ Survives argv := by
  obtain ⟨parts, hescapes, hrendered⟩ := escapes_of_render h
  have hedged : Edged rendered := hrendered ▸ edged_join hescapes hne
  have htokens : tokenizeWindowsSegment rendered = some (argv.map withoutQuotes) :=
    hrendered ▸ tokenize_escaped hescapes hne
  rw [analyze_iff, strip_enforced hedged]
  by_cases hstrip : stripWindowsShellWrapperOnce rendered = rendered
  · have hloop : stripLoop 4 rendered = rendered := by
      rw [stripLoop, trim_eq_self hedged, if_pos hstrip, hstrip]
    have hplain : ¬IsWrapperCall argv := by
      rintro ⟨rendered', h', hchanged⟩
      obtain rfl := Except.ok.inj (h'.symm.trans h)
      exact hchanged hstrip
    rw [hloop, htokens, Option.some_inj, map_withoutQuotes_eq_self_iff, Survives,
      and_iff_left hplain]
    constructor
    · rintro ⟨hfind, hclean⟩
      exact ⟨hclean, (find_escaped hescapes hclean).mp (hrendered ▸ hfind)⟩
    · rintro ⟨hclean, hlines⟩
      exact ⟨hrendered ▸ (find_escaped hescapes hclean).mpr hlines, hclean⟩
  · -- a wrapper that is taken off takes a part of the argv with it
    constructor
    · rintro ⟨-, hagain⟩
      exfalso
      have hsolids := solids_tokens hagain
      have hsolids' := solids_tokens htokens
      have hclean : ((argv.map withoutQuotes).map solids).sum = (argv.map solids).sum := by
        rw [List.map_map]
        refine congrArg List.sum (List.map_congr_left fun token _ => ?_)
        exact solids_withoutQuotes token
      have hless : solids (stripLoop 4 rendered) < solids rendered := by
        rw [stripLoop, trim_eq_self hedged, if_neg hstrip]
        rcases solids_stripOnce rendered with hsame | hless
        · exact absurd hsame hstrip
        · exact (solids_stripLoop 3 _).trans_lt hless
      omega
    · rintro ⟨-, -, hplain⟩
      exact absurd ⟨rendered, h, hstrip⟩ hplain

/-- An escaped argv is tokenized to itself if it has no double quote. A command that is built
for enforcement is analysed as the argv that was approved if, besides, no token has a line
break and the argv is no call of PowerShell with a command. -/
theorem enforced_command_iff (resolve resolve' : List Utf16 → Option CommandResolution) :
    (∀ tokens rendered, tokens ≠ [] → renderWindowsQuotedArgv tokens = .ok rendered →
      (tokenizeWindowsSegment rendered = some tokens ↔ ∀ token ∈ tokens, DOUBLE ∉ token)) ∧
    ∀ (command text : Utf16) (segments : List ExecCommandSegment) (platform : Option Utf16),
      analyzeWindowsShellCommand resolve command = .ok segments →
      buildEnforcedShellCommand command segments platform = .ok text →
      ∃ segment argv, segments = [segment] ∧ resolvePlannedSegmentArgv segment = some argv ∧
        ((∃ again, analyzeWindowsShellCommand resolve' text = .ok [again] ∧
          again.argv = argv) ↔ Survives argv) := by
  constructor
  · intro tokens rendered hne hrender
    obtain ⟨parts, hescapes, rfl⟩ := escapes_of_render hrender
    rw [tokenize_escaped hescapes hne, Option.some_inj, map_withoutQuotes_eq_self_iff]
  · intro command text segments platform _ hbuild
    obtain ⟨hlength, hrebuilt⟩ := rebuilt_of_build hbuild
    obtain ⟨segment, rfl⟩ := List.length_eq_one_iff.mp hlength
    obtain ⟨rendered, hsegment, rfl⟩ := text_of_rebuilt hrebuilt
    obtain ⟨argv, hplan, hrender⟩ := planned_of_render hsegment
    exact ⟨segment, argv, rfl, hplan, analyze_enforced_iff (planned_ne_nil hplan) hrender⟩

theorem enforced_command_iff_sample :
    tokenizeWindowsSegment (ofString "\"a b\" \"\"") = some [ofString "a b", []] ∧
      ∃ again, analyzeWindowsShellCommand (fun _ => none) (ofString "& node \"c d\"") =
        .ok [again] ∧ again.argv = [ofString "node", ofString "c d"] := by
  constructor
  · apply ((enforced_command_iff (fun _ => none) fun _ => none).1 [ofString "a b", []] _ (List.cons_ne_nil _ _) rfl).mpr
    decide
  · obtain ⟨segment, argv, hsegments, hplan, hiff⟩ := (enforced_command_iff (fun _ => none) fun _ => none).2
      (ofString "node 'c d'") (ofString "& node \"c d\"")
      [⟨ofString "node 'c d'", [ofString "node", ofString "c d"], none⟩]
      (some (ofString "win32")) rfl rfl
    obtain rfl := List.singleton_inj.mp hsegments
    obtain rfl := Option.some.inj hplan
    apply hiff.mpr
    refine ⟨by decide, by unfold breaksLine; decide, ?_⟩
    rintro ⟨rendered, hrender, hchanged⟩
    obtain rfl := Except.ok.inj hrender
    exact hchanged rfl

/-- `say "hi"` between single quotes is approved, and loses its quotes when it is enforced. -/
theorem enforced_loses_quotes :
    let argv := [ofString "node", ofString "say \"hi\""]
    let text := ofString "& node \"say \"\"hi\"\"\""
    tokenizeWindowsSegment (ofString "node \"say \"\"hi\"\"\"") ≠ some argv ∧
      renderWindowsQuotedArgv argv = .ok (ofString "node \"say \"\"hi\"\"\"") ∧
      analyzeWindowsShellCommand (fun _ => none) (ofString "node 'say \"hi\"'") =
        .ok [⟨ofString "node 'say \"hi\"'", argv, none⟩] ∧
      buildEnforcedShellCommand (ofString "node 'say \"hi\"'")
        [⟨ofString "node 'say \"hi\"'", argv, none⟩] (some (ofString "win32")) = .ok text ∧
      analyzeWindowsShellCommand (fun _ => none) text =
        .ok [⟨text, [ofString "node", ofString "say hi"], none⟩] :=
  ⟨by decide, rfl, rfl, rfl, rfl⟩

end Flashclaw.Exec.Windows
