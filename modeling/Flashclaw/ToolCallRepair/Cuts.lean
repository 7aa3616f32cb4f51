import Flashclaw.ToolCallRepair.Markers

/-!
# Suppression of XML calls, cut anywhere

A round of the loop that stops keeps its marker, and a parameter that stays open keeps so many
characters that no closing marker is lost.
-/

namespace Flashclaw.ToolCallRepair

open Utf16 Chunks

/-- A round at a text that goes on. -/
def Continues (marker more : Utf16) : BodyStep → BodyStep → Prop
  | .stop (.incomplete state), _ => state = ⟨marker, .body⟩
  | .stop (.complete suffix), .stop (.complete suffix') =>
    trimStart suffix' = trimStart (suffix ++ more)
  | .parameter value, .parameter value' => value' = value ++ more
  | _, _ => False

theorem idxOf_append {c : CodeUnit} {i : ℕ} {name : Utf16} (h : name.idxOf? c = some i)
    (more : Utf16) : (name ++ more).idxOf? c = some i := by
  rw [List.idxOf?_eq_some_iff] at h ⊢
  obtain ⟨hlt, heq, hfirst⟩ := h
  refine ⟨by rw [List.length_append]; omega, ?_, ?_⟩
  · rwa [List.getElem_append_left hlt]
  · intro j hj
    rw [List.getElem_append_left (hj.trans hlt)]
    exact hfirst j hj

theorem le_idxOf_append {c : CodeUnit} {i : ℕ} {name more : Utf16} (h : name.idxOf? c = none)
    (hi : (name ++ more).idxOf? c = some i) : name.length ≤ i := by
  by_contra hlt
  rw [Nat.not_le] at hlt
  obtain ⟨_, heq, _⟩ := List.idxOf?_eq_some_iff.mp hi
  rw [List.getElem_append_left hlt] at heq
  rw [List.idxOf?_eq_none_iff] at h
  exact h (heq ▸ List.getElem_mem hlt)

theorem continues_openStep {marker name : Utf16}
    (hlength : marker.length = PARAMETER_OPEN.length + name.length) (more : Utf16) :
    Continues marker more (openStep marker name) (openStep (marker ++ more) (name ++ more)) := by
  rw [openStep]
  cases hclose : name.idxOf? (unit '>') with
  | some close =>
    have hbound := (List.idxOf?_eq_some_iff.mp hclose).1
    rw [openStep, idxOf_append hclose more]
    dsimp only
    rw [List.take_append_of_le_length hbound.le, List.drop_append_of_le_length hbound]
    split_ifs
    · exact rfl
    · exact rfl
  | none =>
    dsimp only
    split_ifs with hshort
    · exact rfl
    · -- a name that is too long stays so, with or without its end
      have hstop : openStep (marker ++ more) (name ++ more) = .stop (.complete (marker ++ more)) := by
        rw [openStep]
        cases hlater : (name ++ more).idxOf? (unit '>') with
        | none =>
          dsimp only
          rw [if_neg]
          rw [List.length_append]
          omega
        | some close =>
          dsimp only
          have hle := le_idxOf_append hclose hlater
          have hbound := (List.idxOf?_eq_some_iff.mp hlater).1
          rw [if_neg]
          rw [isToolName, Bool.and_eq_true, Bool.and_eq_true, decide_eq_true_eq, decide_eq_true_eq,
            List.length_take, MAX_TOOL_NAME_CHARS]
          rintro ⟨⟨-, hname⟩, -⟩
          omega
      rw [hstop]
      exact rfl

theorem continues_bodyStep (marker more : Utf16) :
    Continues marker more (bodyStep marker) (bodyStep (marker ++ more)) := by
  by_cases hnil : marker = []
  · rw [bodyStep, if_pos hnil, hnil]
    exact rfl
  have hnil' : marker ++ more ≠ [] := fun h => hnil (List.append_eq_nil_iff.mp h).1
  rw [bodyStep, if_neg hnil]
  by_cases hclose : startsWithAsciiMarkerIgnoreCase marker FUNCTION_CLOSE = true
  · rw [if_pos hclose, bodyStep, if_neg hnil', if_pos (starts_append hclose more),
      List.drop_append_of_le_length (length_of_starts hclose)]
    exact trimStart_removedLineEnd_append _ more
  rw [if_neg hclose]
  by_cases hcut : (isAsciiMarkerPrefixIgnoreCase marker FUNCTION_CLOSE ||
      isAsciiMarkerPrefixIgnoreCase marker PARAMETER_OPEN) = true
  · rw [if_pos hcut]
    exact rfl
  rw [if_neg hcut]
  rw [Bool.not_eq_true] at hclose hcut
  rw [Bool.or_eq_false_iff] at hcut
  obtain ⟨hclose', hcut'⟩ := not_starts_append hclose hcut.1 more
  rw [bodyStep, if_neg hnil', hclose', if_neg Bool.false_ne_true, hcut', Bool.false_or]
  by_cases hopen : startsWithAsciiMarkerIgnoreCase marker PARAMETER_OPEN = true
  · have hlength := length_of_starts hopen
    rw [if_pos hopen, not_markerPrefix_of_length (by rw [List.length_append]; omega),
      if_neg Bool.false_ne_true, if_pos (starts_append hopen more),
      List.drop_append_of_le_length hlength]
    apply continues_openStep
    rw [List.length_drop]
    omega
  · rw [if_neg hopen]
    rw [Bool.not_eq_true] at hopen
    obtain ⟨hopen', hcut''⟩ := not_starts_append hopen hcut.2 more
    rw [hopen', hcut'', if_neg Bool.false_ne_true, if_neg Bool.false_ne_true]
    exact rfl

/-- A marker in a text is as long there, and starts with its only `<`. -/
theorem opening_of_starts {marker : Utf16}
    (h : startsWithAsciiMarkerIgnoreCase marker PARAMETER_OPEN = true) :
    ∃ c opening, marker.take PARAMETER_OPEN.length = c :: opening ∧ LESS ∉ opening ∧
      opening.length = 10 := by
  have hmap : (marker.take PARAMETER_OPEN.length).map lowerAscii = PARAMETER_OPEN :=
    of_decide_eq_true h
  cases htake : marker.take PARAMETER_OPEN.length with
  | nil =>
    rw [htake] at hmap
    cases hmap
  | cons c opening =>
    rw [htake] at hmap
    have hrest : opening.map lowerAscii = ofString "parameter=" := (List.cons.inj hmap).2
    refine ⟨c, opening, rfl, ?_, ?_⟩
    · intro hmem
      have hlower : lowerAscii LESS = LESS := by decide
      have hless : LESS ∈ ofString "parameter=" := by
        rw [← hrest, ← hlower]
        exact List.mem_map_of_mem hmem
      exact absurd hless (by decide)
    · have hlength := congrArg List.length hrest
      rw [List.length_map] at hlength
      exact hlength

theorem less_not_name : isXmlishNameChar LESS = false := by decide

theorem less_not_mem_name {name : Utf16} {close : ℕ} (hname : isToolName (name.take close) = true)
    (hclose : name.idxOf? (unit '>') = some close) : LESS ∉ name.take (close + 1) := by
  obtain ⟨hbound, hend, -⟩ := List.idxOf?_eq_some_iff.mp hclose
  rw [List.take_succ_eq_append_getElem hbound, hend, List.mem_append, not_or]
  refine ⟨fun hmem => ?_, by decide⟩
  rw [isToolName, Bool.and_eq_true] at hname
  have hchar := List.all_eq_true.mp hname.2 LESS hmem
  rw [less_not_name] at hchar
  cases hchar

/-- The tag of a parameter has one `<`, and is longer than what is kept. -/
theorem tag_of_parameter {marker value : Utf16} (h : bodyStep marker = .parameter value) :
    ∃ c tag, marker = c :: tag ++ value ∧ LESS ∉ tag ∧ PARAMETER_CLOSE.length - 1 ≤ tag.length := by
  rw [bodyStep] at h
  split_ifs at h with hnil hclose hcut hopen
  rw [openStep] at h
  cases hend : (marker.drop PARAMETER_OPEN.length).idxOf? (unit '>') with
  | none =>
    rw [hend] at h
    dsimp only at h
    split_ifs at h
  | some close =>
    rw [hend] at h
    dsimp only at h
    split_ifs at h with hname
    obtain rfl := BodyStep.parameter.inj h
    obtain ⟨c, opening, htake, hopening, hlength⟩ := opening_of_starts hopen
    have hbound := (List.idxOf?_eq_some_iff.mp hend).1
    refine ⟨c, opening ++ (marker.drop PARAMETER_OPEN.length).take (close + 1), ?_, ?_, ?_⟩
    · rw [← List.cons_append, ← htake, List.append_assoc, List.take_append_drop,
        List.take_append_drop]
    · rw [List.mem_append, not_or]
      exact ⟨hopening, less_not_mem_name hname hend⟩
    · rw [List.length_append, hlength, List.length_take, length_parameterClose]
      omega

theorem lastUnits_subset {n : ℕ} {text : Utf16} {c : CodeUnit} (h : c ∈ lastUnits n text) :
    c ∈ text := List.mem_of_mem_drop h

theorem behindParameter_carry {start rest : Utf16}
    (hstart : LESS ∉ lastUnits (PARAMETER_CLOSE.length - 1) start)
    (h : behindParameter rest = none) (more : Utf16) :
    behindParameter (lastUnits (PARAMETER_CLOSE.length - 1) (start ++ rest) ++ more) =
      behindParameter (rest ++ more) := by
  by_cases hlength : PARAMETER_CLOSE.length - 1 ≤ rest.length
  · rw [lastUnits_append_of_length start hlength, behindParameter_last h]
  · obtain ⟨kept, hkept, hmem⟩ := lastUnits_append_of_le
      (lastUnits (PARAMETER_CLOSE.length - 1) start) (Nat.le_of_lt (Nat.lt_of_not_le hlength))
    rw [lastUnits_append, hkept, List.append_assoc, behindParameter_skip]
    exact fun hless => hstart (hmem LESS hless)

section Loop

variable {text rest : Utf16}

theorem xmlLoop_stop {outcome : Outcome XmlSuppressor CodeUnit}
    (h : bodyStep (skipWhitespace rest) = .stop outcome) : xmlLoop text .body rest = outcome := by
  rw [xmlLoop]
  split
  · rename_i hbody
    cases hbody
  · rename_i body hbody
    obtain rfl := Option.some.inj hbody
    split
    · rename_i outcome' hstep
      exact BodyStep.stop.inj (hstep.symm.trans h)
    · rename_i value hstep
      cases hstep.symm.trans h

theorem xmlLoop_value {value : Utf16}
    (h : bodyStep (skipWhitespace rest) = .parameter value) :
    xmlLoop text .body rest = xmlLoop text .parameter value := by
  rw [xmlLoop]
  split
  · rename_i hbody
    cases hbody
  · rename_i body hbody
    obtain rfl := Option.some.inj hbody
    split
    · rename_i outcome' hstep
      cases hstep.symm.trans h
    · rename_i value' hstep
      rw [BodyStep.parameter.inj (hstep.symm.trans h)]

theorem xmlLoop_open (h : behindParameter rest = none) :
    xmlLoop text .parameter rest =
      .incomplete ⟨lastUnits (PARAMETER_CLOSE.length - 1) text, .parameter⟩ := by
  rw [xmlLoop]
  split
  · rfl
  · rename_i body hbody
    cases hbody.symm.trans h

theorem xmlLoop_behind {body : Utf16} (h : behindParameter rest = some body) :
    xmlLoop text .parameter rest = xmlLoop text .body body := by
  rw [xmlLoop]
  split
  · rename_i hbody
    cases hbody.symm.trans h
  · rename_i body' hbody
    obtain rfl := Option.some.inj (hbody.symm.trans h)
    split
    · rename_i outcome hstep
      rw [xmlLoop_stop hstep]
    · rename_i value hstep
      rw [xmlLoop_value hstep]

theorem xmlLoop_skip : xmlLoop text .body (skipWhitespace rest) = xmlLoop text .body rest := by
  cases h : bodyStep (skipWhitespace rest) with
  | stop outcome =>
    rw [xmlLoop_stop h, xmlLoop_stop]
    rw [skipWhitespace_skipWhitespace, h]
  | parameter value =>
    rw [xmlLoop_value h, xmlLoop_value]
    rw [skipWhitespace_skipWhitespace, h]

theorem length_of_value {value : Utf16} (h : bodyStep (skipWhitespace rest) = .parameter value) :
    value.length < rest.length :=
  (length_of_parameter h).trans_le (List.dropWhile_suffix _).length_le

theorem length_behind {body : Utf16} (h : behindParameter rest = some body) :
    body.length < rest.length := by
  have hlength := length_of_behindParameter h
  rw [length_parameterClose] at hlength
  obtain ⟨close, -, rfl⟩ := Option.map_eq_some_iff.mp h
  rw [List.length_drop, length_parameterClose]
  omega

/-- The text before a position counts for what is kept of it only. -/
theorem xmlLoop_congr (phase : XmlPhase) (start start' : Utf16)
    (h : phase = .parameter → lastUnits (PARAMETER_CLOSE.length - 1) (start ++ rest) =
      lastUnits (PARAMETER_CLOSE.length - 1) (start' ++ rest)) :
    xmlLoop (start ++ rest) phase rest = xmlLoop (start' ++ rest) phase rest := by
  induction hlength : rest.length using Nat.strong_induction_on
    generalizing phase start start' rest with
  | h n ih =>
    cases phase with
    | parameter =>
      cases hbehind : behindParameter rest with
      | none => rw [xmlLoop_open hbehind, xmlLoop_open hbehind, h rfl]
      | some body =>
        obtain ⟨value, hvalue⟩ : ∃ value, rest = value ++ body := by
          obtain ⟨close, -, rfl⟩ := Option.map_eq_some_iff.mp hbehind
          exact ⟨_, (List.take_append_drop _ _).symm⟩
        rw [xmlLoop_behind hbehind, xmlLoop_behind hbehind]
        have hless := length_behind hbehind
        rw [hvalue, ← List.append_assoc, ← List.append_assoc]
        exact ih body.length (hlength ▸ hless) .body _ _ (fun hphase => by cases hphase) rfl
    | body =>
      cases hstep : bodyStep (skipWhitespace rest) with
      | stop outcome => rw [xmlLoop_stop hstep, xmlLoop_stop hstep]
      | parameter value =>
        obtain ⟨c, tag, htag, -, hlong⟩ := tag_of_parameter hstep
        have hrest : rest = rest.takeWhile isWhiteSpace ++ (c :: tag ++ value) := by
          rw [← htag]
          exact (List.takeWhile_append_dropWhile).symm
        have hless := length_of_value hstep
        rw [xmlLoop_value hstep, xmlLoop_value hstep]
        have htext (start : Utf16) :
            start ++ rest = (start ++ rest.takeWhile isWhiteSpace ++ [c]) ++ tag ++ value := by
          conv_lhs => rw [hrest]
          simp only [List.append_assoc, List.cons_append, List.nil_append]
        rw [htext start, htext start']
        apply ih value.length (hlength ▸ hless) .parameter _ _ _ rfl
        intro _
        have hkept : PARAMETER_CLOSE.length - 1 ≤ (tag ++ value).length := by
          rw [List.length_append]
          omega
        rw [List.append_assoc, List.append_assoc _ tag, lastUnits_append_of_length _ hkept,
          lastUnits_append_of_length _ hkept]

theorem xmlLoop_skip_append (more : Utf16) :
    xmlLoop text .body (rest ++ more) = xmlLoop text .body (skipWhitespace rest ++ more) := by
  rw [← xmlLoop_skip, ← @xmlLoop_skip text (skipWhitespace rest ++ more)]
  congr 1
  exact (trimStart_skipWhitespace rest more).symm

theorem bodyStep_append {more : Utf16} (h : skipWhitespace rest ≠ []) :
    Continues (skipWhitespace rest) more (bodyStep (skipWhitespace rest))
      (bodyStep (skipWhitespace (rest ++ more))) := by
  rw [skipWhitespace_append_of_ne_nil h]
  exact continues_bodyStep _ more

theorem skip_ne_nil {step : BodyStep} (h : bodyStep (skipWhitespace rest) = step)
    (hstep : step ≠ .stop (.incomplete ⟨[], .body⟩)) : skipWhitespace rest ≠ [] := by
  intro hnil
  rw [hnil, bodyStep, if_pos rfl] at h
  exact hstep h.symm

theorem suffix_of_behind {body : Utf16} (h : behindParameter rest = some body) :
    ∃ value, rest = value ++ body := by
  obtain ⟨close, -, rfl⟩ := Option.map_eq_some_iff.mp h
  exact ⟨_, (List.take_append_drop _ _).symm⟩

/-- The text of a body is its position and what is before. -/
theorem xmlLoop_body_congr {text text' body : Utf16} (h : ∃ start, text = start ++ body)
    (h' : ∃ start, text' = start ++ body) :
    xmlLoop text .body body = xmlLoop text' .body body := by
  obtain ⟨start, rfl⟩ := h
  obtain ⟨start', rfl⟩ := h'
  exact xmlLoop_congr .body start start' fun hphase => by cases hphase

/-- A text at once, and a text with more behind a cut. -/
theorem xmlLoop_splits (phase : XmlPhase) (start more : Utf16)
    (h : phase = .parameter → LESS ∉ lastUnits (PARAMETER_CLOSE.length - 1) start) :
    Agree trimStart (xmlLoop (start ++ rest ++ more) phase (rest ++ more))
      ((xmlLoop (start ++ rest) phase rest).feed consumeXmlSuppressor more) := by
  induction hlength : rest.length using Nat.strong_induction_on
    generalizing phase start rest with
  | h n ih =>
    cases phase with
    | parameter =>
      cases hbehind : behindParameter rest with
      | none =>
        -- no closing tag yet: the units that are carried over are enough to find one later
        have hcarry := behindParameter_carry (h rfl) hbehind more
        rw [xmlLoop_open hbehind]
        show Agree _ _ (xmlLoop _ .parameter _)
        cases hlater : behindParameter (rest ++ more) with
        | none =>
          rw [xmlLoop_open hlater, xmlLoop_open (hcarry.trans hlater), ← lastUnits_append]
          exact .refl _
        | some body =>
          rw [xmlLoop_behind hlater, xmlLoop_behind (hcarry.trans hlater)]
          obtain ⟨value, hvalue⟩ := suffix_of_behind hlater
          have hstart : ∃ before, start ++ rest ++ more = before ++ body :=
            ⟨start ++ value, by rw [List.append_assoc, hvalue, List.append_assoc]⟩
          rw [xmlLoop_body_congr hstart (suffix_of_behind (hcarry.trans hlater))]
          exact .refl _
      | some body =>
        obtain ⟨value, hvalue⟩ := suffix_of_behind hbehind
        rw [xmlLoop_behind hbehind, xmlLoop_behind (behindParameter_append hbehind more)]
        have hless := length_behind hbehind
        have htext : start ++ rest = start ++ value ++ body := by rw [hvalue, List.append_assoc]
        rw [htext]
        exact ih body.length (hlength ▸ hless) .body _ (fun hphase => by cases hphase) rfl
    | body =>
      cases hstep : bodyStep (skipWhitespace rest) with
      | stop outcome =>
        rw [xmlLoop_stop hstep]
        cases outcome with
        | incomplete state =>
          -- the body is cut in the middle of a tag, and is read again from there
          have hstate := continues_bodyStep (skipWhitespace rest) more
          rw [hstep] at hstate
          obtain rfl : state = ⟨skipWhitespace rest, .body⟩ := hstate
          show Agree _ _ (xmlLoop _ .body _)
          have hsame : xmlLoop (start ++ rest ++ more) .body (skipWhitespace rest ++ more) =
              xmlLoop (skipWhitespace rest ++ more) .body (skipWhitespace rest ++ more) := by
            apply xmlLoop_body_congr ⟨start ++ rest.takeWhile isWhiteSpace, ?_⟩ ⟨[], rfl⟩
            conv_lhs => rw [← List.takeWhile_append_dropWhile (p := isWhiteSpace) (l := rest)]
            simp only [List.append_assoc]
            rfl
          rw [xmlLoop_skip_append, hsame]
          exact .refl _
        | complete suffix =>
          have hne := skip_ne_nil hstep (by rintro ⟨⟩)
          have hcontinues := @bodyStep_append _ more hne
          rw [hstep] at hcontinues
          cases hlater : bodyStep (skipWhitespace (rest ++ more)) with
          | parameter value =>
            rw [hlater] at hcontinues
            exact hcontinues.elim
          | stop outcome' =>
            rw [hlater] at hcontinues
            rw [xmlLoop_stop hlater]
            cases outcome' with
            | incomplete state => exact hcontinues.elim
            | complete suffix' => exact hcontinues
      | parameter value =>
        have hne := skip_ne_nil hstep (by rintro ⟨⟩)
        have hcontinues := @bodyStep_append _ more hne
        rw [hstep] at hcontinues
        cases hlater : bodyStep (skipWhitespace (rest ++ more)) with
        | stop outcome =>
          rw [hlater] at hcontinues
          exact hcontinues.elim
        | parameter value' =>
          rw [hlater] at hcontinues
          obtain rfl : value' = value ++ more := hcontinues
          -- behind the opening tag the carried units hold no `<`
          obtain ⟨c, tag, htag, hless, hlong⟩ := tag_of_parameter hstep
          rw [xmlLoop_value hstep, xmlLoop_value hlater]
          have hrest : rest = rest.takeWhile isWhiteSpace ++ (c :: tag ++ value) := by
            rw [← htag]
            exact (List.takeWhile_append_dropWhile).symm
          have htext : start ++ rest =
              (start ++ rest.takeWhile isWhiteSpace ++ [c]) ++ tag ++ value := by
            conv_lhs => rw [hrest]
            simp only [List.append_assoc, List.cons_append, List.nil_append]
          rw [htext]
          apply ih value.length (hlength ▸ length_of_value hstep) .parameter _ _ rfl
          intro _ hmem
          rw [lastUnits_append_of_length _ hlong] at hmem
          exact hless (lastUnits_subset hmem)

end Loop

/-- An XML suppressor makes the same of a text however it is cut. -/
theorem splits_xml : Splits trimStart (fun _ : XmlSuppressor => True) consumeXmlSuppressor where
  agree suppressor _ a b := by
    rw [consumeXmlSuppressor, ← List.append_assoc]
    exact xmlLoop_splits suppressor.phase [] b fun _ => List.not_mem_nil
  fits _ _ _ _ _ := trivial

end Flashclaw.ToolCallRepair
