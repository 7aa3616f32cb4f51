import Flashclaw.ToolCallRepair.ClosingCuts
import Mathlib.Data.List.Nodup

/-!
# Suppression over the cap, cut anywhere

Where the choice between JSON and XML is open, what decides it is kept until it is whole.
-/

namespace Flashclaw.ToolCallRepair

open Utf16 Chunks

def FitsChoice : Choice → Prop
  | .json suppressor => FitsJson suppressor
  | .xml _ => True

theorem splits_choice : Splits trimStart FitsChoice consumeChoice where
  agree choice h a b := by
    cases choice with
    | json suppressor => exact splits_json.agree_map (fun _ _ => rfl) h a b
    | xml suppressor => exact splits_xml.agree_map (fun _ _ => rfl) trivial a b
  fits choice h a choice' hchoice' := by
    cases choice with
    | json suppressor =>
      obtain ⟨inner, hinner, rfl⟩ := Outcome.of_map hchoice'
      exact splits_json.fits suppressor h a inner hinner
    | xml suppressor =>
      obtain ⟨inner, -, rfl⟩ := Outcome.of_map hchoice'
      exact trivial

structure FitsOpening (suppressor : OpeningSuppressor) : Prop where
  json : FitsJson suppressor.json
  choice : ∀ choice, suppressor.choice = some choice → FitsChoice choice

/-- The choice at the first character that is no blank. -/
def chooseAt (suppressor : OpeningSuppressor) (rest : Utf16) :
    Outcome OpeningSuppressor CodeUnit :=
  if rest = [] then .incomplete suppressor
  else if rest.head? = some (unit '{') then
    (consumeChoice (.json suppressor.json) rest).map fun choice =>
      { suppressor with choice := some choice }
  else if suppressor.allowXml && isAsciiMarkerPrefixIgnoreCase rest PARAMETER_OPEN then
    .incomplete { suppressor with carry := rest }
  else if suppressor.allowXml && startsWithAsciiMarkerIgnoreCase rest PARAMETER_OPEN then
    (consumeChoice (.xml ⟨[], .body⟩) rest).map fun choice =>
      { suppressor with choice := some choice }
  else .complete rest

section Opening

variable {suppressor : OpeningSuppressor}

theorem consumeOpening_none (h : suppressor.choice = none) (chunk : Utf16) :
    consumeOpeningSuppressor suppressor chunk =
      chooseAt { suppressor with carry := [] } (skipWhitespace (suppressor.carry ++ chunk)) := by
  rw [consumeOpeningSuppressor, h]
  rfl

theorem consumeOpening_some {choice : Choice} (h : suppressor.choice = some choice)
    (chunk : Utf16) :
    consumeOpeningSuppressor suppressor chunk =
      (consumeChoice choice chunk).map fun choice => { suppressor with choice := some choice } := by
  rw [consumeOpeningSuppressor, h]

theorem chosen_splits {choice : Choice} (h : FitsChoice choice) (a b : Utf16) :
    Agree trimStart
      ((consumeChoice choice (a ++ b)).map fun choice => { suppressor with choice := some choice })
      (((consumeChoice choice a).map fun choice =>
        { suppressor with choice := some choice }).feed consumeOpeningSuppressor b) :=
  splits_choice.agree_map (fun _ _ => rfl) h a b

theorem chooseAt_splits (hjson : FitsJson suppressor.json) (hcarry : suppressor.carry = [])
    (hnone : suppressor.choice = none) {rest : Utf16} (hne : rest ≠ [])
    (hskip : skipWhitespace rest = rest) (more : Utf16) :
    Agree trimStart (chooseAt suppressor (rest ++ more))
      ((chooseAt suppressor rest).feed consumeOpeningSuppressor more) := by
  have hne' : rest ++ more ≠ [] := fun h => hne (List.append_eq_nil_iff.mp h).1
  have hhead : (rest ++ more).head? = rest.head? := List.head?_append_of_ne_nil _ hne
  rw [chooseAt.eq_def suppressor rest, if_neg hne]
  by_cases hbrace : rest.head? = some (unit '{')
  · rw [if_pos hbrace, chooseAt, if_neg hne', if_pos (hhead.trans hbrace)]
    exact @chosen_splits suppressor (.json suppressor.json) hjson rest more
  rw [if_neg hbrace]
  by_cases hcut : (suppressor.allowXml && isAsciiMarkerPrefixIgnoreCase rest PARAMETER_OPEN) = true
  · -- the marker is kept, and comes before the next chunk
    have hfed := @consumeOpening_none { suppressor with carry := rest } hnone more
    rw [if_pos hcut, Outcome.feed, hfed]
    dsimp only
    rw [skipWhitespace_append_of_ne_nil (hskip.symm ▸ hne), hskip, ← hcarry]
    exact .refl _
  rw [if_neg hcut, chooseAt, if_neg hne', if_neg (hhead.trans_ne hbrace)]
  by_cases hstarts : (suppressor.allowXml &&
      startsWithAsciiMarkerIgnoreCase rest PARAMETER_OPEN) = true
  · obtain ⟨hallow, hmarker⟩ := (Bool.and_eq_true _ _).mp hstarts
    have hwhole : isAsciiMarkerPrefixIgnoreCase (rest ++ more) PARAMETER_OPEN = false :=
      not_markerPrefix_of_length (length_of_starts (starts_append hmarker more))
    have hlater : (suppressor.allowXml &&
        startsWithAsciiMarkerIgnoreCase (rest ++ more) PARAMETER_OPEN) = true :=
      (Bool.and_eq_true _ _).mpr ⟨hallow, starts_append hmarker more⟩
    rw [if_pos hstarts, hwhole, Bool.and_false, if_neg Bool.false_ne_true, if_pos hlater]
    exact @chosen_splits suppressor (.xml ⟨[], .body⟩) trivial rest more
  · rw [if_neg hstarts]
    have hlater : (suppressor.allowXml &&
          isAsciiMarkerPrefixIgnoreCase (rest ++ more) PARAMETER_OPEN) = false ∧
        (suppressor.allowXml &&
          startsWithAsciiMarkerIgnoreCase (rest ++ more) PARAMETER_OPEN) = false := by
      cases hallow : suppressor.allowXml with
      | false => exact ⟨rfl, rfl⟩
      | true =>
        rw [hallow, Bool.true_and, Bool.not_eq_true] at hcut hstarts
        obtain ⟨hnot, hnot'⟩ := not_starts_append hstarts hcut more
        exact ⟨hnot', hnot⟩
    rw [hlater.1, hlater.2, if_neg Bool.false_ne_true, if_neg Bool.false_ne_true]
    exact .refl _

theorem chooseAt_fits (hjson : FitsJson suppressor.json) (hnone : suppressor.choice = none)
    {rest : Utf16} {state : OpeningSuppressor} (h : chooseAt suppressor rest = .incomplete state) :
    FitsOpening state := by
  have hopen : ∀ choice, suppressor.choice = some choice → FitsChoice choice := by
    intro choice hchoice
    rw [hnone] at hchoice
    cases hchoice
  have hchosen : ∀ choice, FitsChoice choice →
      ((consumeChoice choice rest).map fun choice => { suppressor with choice := some choice }) =
        .incomplete state → FitsOpening state := by
    intro choice hfits hstate
    obtain ⟨inner, hinner, rfl⟩ := Outcome.of_map hstate
    refine ⟨hjson, fun choice' hchoice' => ?_⟩
    obtain rfl := Option.some.inj hchoice'
    exact splits_choice.fits choice hfits rest inner hinner
  rw [chooseAt] at h
  split_ifs at h
  · obtain rfl := Outcome.incomplete.inj h
    exact ⟨hjson, hopen⟩
  · exact hchosen (.json suppressor.json) hjson h
  · obtain rfl := Outcome.incomplete.inj h
    exact ⟨hjson, hopen⟩
  · exact hchosen (.xml ⟨[], .body⟩) trivial h

end Opening

theorem splits_opening : Splits trimStart FitsOpening consumeOpeningSuppressor where
  agree suppressor h a b := by
    cases hchoice : suppressor.choice with
    | some choice =>
      rw [consumeOpening_some hchoice, consumeOpening_some hchoice]
      exact chosen_splits (h.choice choice hchoice) a b
    | none =>
      rw [consumeOpening_none hchoice, consumeOpening_none hchoice, ← List.append_assoc]
      by_cases hblank : skipWhitespace (suppressor.carry ++ a) = []
      · rw [hblank, skipWhitespace_append_of_nil hblank]
        show Agree _ _ (consumeOpeningSuppressor { suppressor with carry := [] } b)
        rw [@consumeOpening_none { suppressor with carry := [] } hchoice]
        exact .refl _
      · rw [skipWhitespace_append_of_ne_nil hblank]
        exact @chooseAt_splits { suppressor with carry := [] } h.json rfl hchoice _ hblank
          (skipWhitespace_skipWhitespace _) b
  fits suppressor h a state hstate := by
    cases hchoice : suppressor.choice with
    | some choice =>
      rw [consumeOpening_some hchoice] at hstate
      obtain ⟨inner, hinner, rfl⟩ := Outcome.of_map hstate
      refine ⟨h.json, fun choice' hchoice' => ?_⟩
      obtain rfl := Option.some.inj hchoice'
      exact splits_choice.fits choice (h.choice choice hchoice) a inner hinner
    | none =>
      rw [consumeOpening_none hchoice] at hstate
      exact @chooseAt_fits { suppressor with carry := [] } h.json hchoice _ state hstate

def FitsOverCap : OverCapSuppressor → Prop
  | .json suppressor => FitsJson suppressor
  | .opening suppressor => FitsOpening suppressor
  | .xml _ => True

theorem splits_overCap : Splits trimStart FitsOverCap consumeOverCapSuppressor where
  agree suppressor h a b := by
    cases suppressor with
    | json suppressor => exact splits_json.agree_map (fun _ _ => rfl) h a b
    | opening suppressor => exact splits_opening.agree_map (fun _ _ => rfl) h a b
    | xml suppressor => exact splits_xml.agree_map (fun _ _ => rfl) trivial a b
  fits suppressor h a state hstate := by
    cases suppressor with
    | json suppressor =>
      obtain ⟨inner, hinner, rfl⟩ := Outcome.of_map hstate
      exact splits_json.fits suppressor h a inner hinner
    | opening suppressor =>
      obtain ⟨inner, hinner, rfl⟩ := Outcome.of_map hstate
      exact splits_opening.fits suppressor h a inner hinner
    | xml suppressor =>
      obtain ⟨inner, -, rfl⟩ := Outcome.of_map hstate
      exact trivial

/-- Markers that differ in their first two characters exclude each other. -/
theorem closings_of_starts {markers : List Utf16} (hne : markers ≠ [])
    (hlength : ∀ marker ∈ markers, 2 ≤ marker.length)
    (hstarts : (markers.map (List.take 2)).Nodup) : Closings markers where
  some_marker := hne
  not_empty h := absurd (hlength [] h) (by decide)
  apart m hm m' hm' hprefix := by
    apply List.inj_on_of_nodup_map hstarts hm hm'
    obtain ⟨rest, rfl⟩ := hprefix
    rw [List.take_append_of_le_length (hlength m hm)]

theorem fits_jsonSuppressorOf (value : JsonCandidate) (state : Option JsonState) :
    FitsJson (jsonSuppressorOf value state) := by
  generalize hbracket : ofString "[/" ++ value.name.slice ++ ofString "]" = bracket
  have hlength : 2 ≤ bracket.length := by
    rw [← hbracket, List.length_append, List.length_append]
    exact (Nat.le_add_right _ _).trans (Nat.le_add_right _ _)
  have hstart : bracket.take 2 = ofString "[/" := by
    rw [← hbracket]
    rfl
  show Closings (closingMarkers (jsonSuppressorOf value state))
  rw [jsonSuppressorOf, hbracket, closingMarkers]
  dsimp only
  by_cases hkind : value.syntaxKind = .namedBracket
  · rw [if_pos hkind, Option.filter_some, if_pos]
    · apply closings_of_starts (List.cons_ne_nil _ _)
      · exact List.forall_mem_cons.mpr ⟨hlength, List.forall_mem_singleton.mpr (by decide)⟩
      · rw [List.map_cons, hstart]
        decide
    · apply decide_eq_true
      rintro rfl
      cases hlength
  · rw [if_neg hkind, if_neg hkind]
    apply closings_of_starts (List.cons_ne_nil _ _)
    · exact List.forall_mem_cons.mpr ⟨by decide, List.forall_mem_cons.mpr
        ⟨by decide, List.forall_mem_singleton.mpr hlength⟩⟩
    · rw [List.map_cons, List.map_cons, List.map_singleton, hstart]
      decide

theorem fits_createOverCapSuppressor {text : Utf16} {scan : ScanBranches} {force : Bool}
    {suppressor : OverCapSuppressor}
    (h : createOverCapSuppressor text scan force = some suppressor) :
    FitsOverCap suppressor := by
  rw [createOverCapSuppressor] at h
  split at h
  · obtain rfl := Option.some.inj h
    refine ⟨fits_jsonSuppressorOf _ _, fun choice hchoice => ?_⟩
    cases hchoice
  · split at h
    · obtain rfl := Option.some.inj h
      exact trivial
    · obtain ⟨_, -, hjson⟩ := Option.bind_eq_some_iff.mp h
      obtain ⟨_, hvalue, rfl⟩ := Option.map_eq_some_iff.mp hjson
      obtain ⟨value, -, rfl⟩ := Option.map_eq_some_iff.mp hvalue
      exact fits_jsonSuppressorOf value _

/-- However the text after the cap is cut, the suppression ends at one place. -/
theorem over_cap_cuts (text : Utf16) (scan : ScanBranches) (force : Bool)
    {suppressor : OverCapSuppressor}
    (h : createOverCapSuppressor text scan force = some suppressor) {chunks chunks' : List Utf16}
    (hne : chunks ≠ []) (hne' : chunks' ≠ []) (hsame : chunks.flatten = chunks'.flatten) :
    Agree trimStart (feedAll consumeOverCapSuppressor suppressor chunks)
      (feedAll consumeOverCapSuppressor suppressor chunks') :=
  splits_overCap.agree_of_flatten_eq (fits_createOverCapSuppressor h) hne hne' hsame

/-- The scan of a call `[read]` with the payload `{"a":` so far. -/
def sampleScan : ScanBranches where
  json := .unfinished (some
    { json := some ⟨1, false, false⟩
      name := ⟨ofString "read]\n\x7b\"a\":", ofString "]\n\x7b\"a\":"⟩
      nameComplete := true
      payload := some ⟨ofString "\x7b\"a\":", []⟩
      syntaxKind := .namedBracket })
  matchesJson := true
  matchesXmlish := false
  xmlish := .invalid [] none

def sampleText : Utf16 := ofString "[read]\n\x7b\"a\":"

/-- A string, a brace and a closing marker that are cut. -/
theorem over_cap_cuts_sample :
    (createOverCapSuppressor sampleText sampleScan true).isSome = true ∧
      ∀ suppressor, createOverCapSuppressor sampleText sampleScan true = some suppressor →
        Agree trimStart
          (feedAll consumeOverCapSuppressor suppressor
            [ofString "\"\x7d", ofString "\"\x7d\n[/re", ofString "ad] done"])
          (feedAll consumeOverCapSuppressor suppressor
            [ofString "\"\x7d\"\x7d\n[/read] done"]) :=
  ⟨by decide +kernel, fun _ h => over_cap_cuts sampleText sampleScan true h
    (List.cons_ne_nil _ _) (List.cons_ne_nil _ _) (by decide +kernel)⟩

end Flashclaw.ToolCallRepair
