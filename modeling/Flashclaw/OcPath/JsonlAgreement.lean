import Flashclaw.OcPath.JsonlEdits

/-!
# Editing agrees with resolving

`setJsonlOcPath` against `resolveJsonlOcPath` on the documents of `parseJsonl`.
-/

open Utf16

namespace Jsonl

open OcPath JsoncValue

section Lines

variable (parseJsonc : Utf16 → Option JsoncValue)

/-- The lines of a document are numbered and were read one by one. -/
def ReadLines (lines : List JsonlLine) : Prop :=
  ∀ i l, lines[i]? = some l → ∃ text, LF ∉ text ∧ l = parseLine parseJsonc text i

variable {parseJsonc} {lines : List JsonlLine}

theorem line_parseLine (text : Utf16) (i : ℕ) : (parseLine parseJsonc text i).line = i + 1 := by
  unfold parseLine
  dsimp only
  split
  · rfl
  · split <;> rfl

theorem ReadLines.line_eq (h : ReadLines parseJsonc lines) {i : ℕ} {l : JsonlLine}
    (hi : lines[i]? = some l) : l.line = i + 1 := by
  obtain ⟨text, -, rfl⟩ := h i l hi
  exact line_parseLine text i

/-- A line that holds no value is its own text. -/
theorem text_of_parseLine {text raw : Utf16} {i n : ℕ}
    (h : parseLine parseJsonc text i = .blank n raw ∨
      parseLine parseJsonc text i = .malformed n raw) : raw = text := by
  unfold parseLine at h
  dsimp only at h
  split at h
  · rcases h with h | h
    · exact (JsonlLine.blank.inj h).2.symm
    · cases h
  · split at h
    · rcases h with h | h
      · cases h
      · exact (JsonlLine.malformed.inj h).2.symm
    · rcases h with h | h <;> cases h

theorem readLines_parseJsonl (raw : Utf16) :
    ReadLines parseJsonc (parseJsonl parseJsonc raw).ast.lines := by
  intro i l hi
  unfold parseJsonl at hi
  dsimp only at hi
  split at hi
  · cases hi
  · rw [List.getElem?_mapIdx, Option.map_eq_some_iff] at hi
    obtain ⟨text, htext, rfl⟩ := hi
    exact ⟨text, not_mem_of_mem_splitOn (List.mem_of_getElem? htext), rfl⟩

end Lines

/-- Editor and resolver find a line alike. -/
theorem pickLineIndex_spec (ast : JsonlAst) (addr : Utf16) :
    (pickLineIndex ast addr).bind (ast.lines[·]?) = pickJsonlLine ast addr := by
  unfold pickLineIndex pickJsonlLine
  split
  · exact List.find?_eq_bind_findIdx?_getElem?.symm
  · split
    · rw [List.find?_eq_bind_findIdx?_getElem?]
      cases hidx : ast.lines.reverse.findIdx? JsonlLine.isValue with
      | none => rfl
      | some i =>
        obtain ⟨hlt, -, -⟩ := List.findIdx?_eq_some_iff_getElem.mp hidx
        rw [List.length_reverse] at hlt
        show ast.lines[ast.lines.length - 1 - i]? = ast.lines.reverse[i]?
        rw [List.getElem?_reverse hlt]
    · split
      · rfl
      · exact List.find?_eq_bind_findIdx?_getElem?.symm

/-- A node inside a document: the number of its line and its address there. -/
abbrev Place := ℕ × List ℕ

/-- The value line, or the node inside of one, that was found. -/
def JsonlOcPathMatch.place? : JsonlOcPathMatch → Option Place
  | .line (.value n _ _) => some (n, [])
  | .value _ n _ address => some (n, address)
  | .objectEntry _ n _ address => some (n, address)
  | _ => none

/-- The place that a path resolves to. -/
def resolvedPlace (ast : JsonlAst) (path : OcPath) : Option Place :=
  match resolveJsonlOcPath ast path with
  | .ok (some m) => m.place?
  | _ => none

/-- A line with another node at a place. -/
def replaceInLine (place : Place) (newValue : JsoncValue) : JsonlLine → JsonlLine
  | .value line value raw =>
    .value line (if line = place.1 then value.replaceNode newValue place.2 else value) raw
  | l => l

def replacePlace (lines : List JsonlLine) (place : Place) (newValue : JsoncValue) :
    List JsonlLine := lines.map (replaceInLine place newValue)

/-- The address inside of a value line. -/
def addressIn (read : JsoncValue → Utf16 → Option ℕ) (path : OcPath) (value : JsoncValue) :
    Option (List ℕ) :=
  if path.item = none ∧ path.field = none then some []
  else
    match itemSegments path with
    | .ok segments => value.walk read segments
    | .error _ => none

/-- The value line that a path is about. -/
def targetLine (ast : JsonlAst) (path : OcPath) : Option (ℕ × JsoncValue × Utf16) :=
  match path.sectionSlot.bind (pickJsonlLine ast) with
  | some (.value line value raw) => some (line, value, raw)
  | _ => none

theorem resolvedPlace_eq (ast : JsonlAst) (path : OcPath) :
    resolvedPlace ast path = (targetLine ast path).bind fun target =>
      (addressIn shownChild path target.2.1).map (target.1, ·) := by
  unfold resolvedPlace resolveJsonlOcPath targetLine addressIn
  cases path.sectionSlot with
  | none => rfl
  | some head =>
    dsimp only [Option.bind_some]
    cases pickJsonlLine ast head with
    | none => rfl
    | some l =>
      dsimp only
      by_cases hslots : path.item = none ∧ path.field = none
      · simp only [if_pos hslots]
        cases l <;> rfl
      · simp only [if_neg hslots]
        cases l with
        | value line value raw =>
          cases itemSegments path with
          | error e => rfl
          | ok segments =>
            have haddress := resolveJsoncValueOcPath_address value (segments.map unquoteSeg)
            rw [walk_map] at haddress
            show _ = (value.walk (fun w seg => resolvedChild w (unquoteSeg seg)) segments).map
              (line, ·)
            rw [← haddress]
            cases hm : resolveJsoncValueOcPath value (segments.map unquoteSeg) with
            | none => simp [hm, bind, Except.bind, pure, Except.pure]
            | some m =>
              cases m <;> simp [hm, bind, Except.bind, pure, Except.pure, JsonlOcPathMatch.place?,
                JsoncValueOcPathMatch.address]
        | _ => rfl

/-- What an edit of a document makes of it. -/
theorem setJsonlOcPath_eq_ok {ast edited : JsonlAst} {path : OcPath} {newValue : JsoncValue} :
    setJsonlOcPath ast path newValue = .ok (.ok edited) ↔
      ∃ head i line value raw address, path.sectionSlot = some head ∧
        pickLineIndex ast head = some i ∧ ast.lines[i]? = some (.value line value raw) ∧
        addressIn editedChild path value = some address ∧
        finalize ast i (.value line (value.replaceNode newValue address) raw) path.file =
          .ok (.ok edited) := by
  unfold setJsonlOcPath addressIn
  cases path.sectionSlot with
  | none => simp
  | some head =>
    dsimp only
    cases hpick : pickLineIndex ast head with
    | none => simp [hpick]
    | some i =>
      dsimp only
      cases hline : ast.lines[i]? with
      | none => simp [hpick, hline]
      | some l =>
        cases l with
        | value line value raw =>
          dsimp only
          by_cases hslots : path.item = none ∧ path.field = none
          · simp [hslots, hpick, hline, replaceNode]
          · simp only [if_neg hslots]
            cases itemSegments path with
            | error e => simp
            | ok segments =>
              dsimp only
              rw [replaceAt_eq]
              cases hwalk : value.walk editedChild segments <;> simp [hpick, hline, hwalk]
        | _ => simp [hpick, hline]

/-- A line without the text that its value was read from. -/
def content : JsonlLine → JsonlLine
  | .value line value _ => .value line value []
  | l => l

/-- The lines carry no sentinel in their values. -/
def Unmarked (lines : List JsonlLine) : Prop :=
  ∀ line value raw, .value line value raw ∈ lines → ¬ Marked value

theorem exists_emitLine_iff (guardPath : Utf16) (l : JsonlLine) :
    (∃ text, emitLine guardPath true l = .ok text) ↔
      ∀ line value raw, l = .value line value raw → ¬ Marked value := by
  cases l with
  | value line value raw =>
    refine (exists_renderValue_iff value []).trans ⟨?_, fun h => h line value raw rfl⟩
    rintro h _ _ _ ⟨⟩
    exact h
  | blank line raw =>
    refine ⟨fun _ _ _ _ h => ?_, fun _ => ⟨raw, rfl⟩⟩
    cases h
  | malformed line raw =>
    refine ⟨fun _ _ _ _ h => ?_, fun _ => ⟨raw, rfl⟩⟩
    cases h

/-- The texts of the lines of a document. -/
def Emitted (guardPath : Utf16) : List JsonlLine → List Utf16 → Prop :=
  List.Forall₂ fun l text => emitLine guardPath true l = .ok text

theorem exists_emitted_iff (guardPath : Utf16) (lines : List JsonlLine) :
    (∃ texts, Emitted guardPath lines texts) ↔ Unmarked lines := by
  have h := Results.exists_mapM_iff (f := emitLine guardPath true) (l := lines)
  simp only [Results.mapM_eq_ok_iff] at h
  refine h.trans ?_
  simp only [exists_emitLine_iff]
  constructor
  · intro h line value raw hmem
    exact h _ hmem line value raw rfl
  · rintro h l hl line value raw rfl
    exact h line value raw hl

def endingOf (ast : JsonlAst) : LineEnding := ast.lineEnding.getD .lf

/-- The guard of an edit of a file. -/
def editGuard (file : Utf16) : Utf16 :=
  guardPathOf { mode := .render, fileNameForGuard := some file }

theorem finalize_eq_ok {ast edited : JsonlAst} {i : ℕ} {l : JsonlLine} {file : Utf16} :
    finalize ast i l file = .ok (.ok edited) ↔
      ∃ texts, Emitted (editGuard file) (ast.lines.set i l) texts ∧
        edited = ⟨joinLines (endingOf ast) texts, ast.lines.set i l, ast.lineEnding⟩ := by
  unfold finalize emitJsonl
  dsimp only
  cases hout : (ast.lines.set i l).mapM (emitLine (editGuard file) true) with
  | error e =>
    simp only [editGuard] at hout
    rw [hout]
    constructor
    · intro h
      cases h
    · rintro ⟨texts, htexts, -⟩
      have hok := hout.symm.trans (Results.mapM_eq_ok_iff.mpr htexts)
      cases hok
  | ok texts =>
    have hemitted : Emitted (editGuard file) (ast.lines.set i l) texts :=
      Results.mapM_eq_ok_iff.mp hout
    simp only [editGuard] at hout
    rw [hout]
    constructor
    · intro h
      exact ⟨texts, hemitted, (JsonlEditResult.ok.inj (Except.ok.inj h)).symm⟩
    · rintro ⟨texts', htexts', rfl⟩
      have hok := hout.symm.trans (Results.mapM_eq_ok_iff.mpr htexts')
      obtain rfl := Except.ok.inj hok
      rfl

/-- The parser reads the rendering of a value as the value. -/
def RendersBack (parseJsonc : Utf16 → Option JsoncValue) (value : JsoncValue) : Prop :=
  ∀ guardPath text, renderValue guardPath [] value = .ok text → parseJsonc text = some value

/-- No line but the last keeps a carriage return that a line feed would follow. -/
def EndsClean (ast : JsonlAst) : Prop :=
  endingOf ast = .lf → ∀ l ∈ ast.lines.dropLast, ∀ n raw,
    l = .blank n raw ∨ l = .malformed n raw → raw.getLast? ≠ some CR

section Reread

variable {parseJsonc : Utf16 → Option JsoncValue} {guardPath : Utf16} {lines : List JsonlLine}
  {texts : List Utf16} {i : ℕ} {l : JsonlLine} {text : Utf16}

/-- A line of a document that can be written and read again. -/
def RereadableLine (parseJsonc : Utf16 → Option JsoncValue) (l : JsonlLine) (i : ℕ) : Prop :=
  (∃ value raw, l = .value (i + 1) value raw ∧ RendersBack parseJsonc value) ∨
    (l.isValue = false ∧ ∃ text, LF ∉ text ∧ l = parseLine parseJsonc text i)

/-- The text of a line is read as the line again. -/
theorem parseLine_emitted (hread : RereadableLine parseJsonc l i)
    (h : emitLine guardPath true l = .ok text) :
    content (parseLine parseJsonc text i) = content l ∧ LF ∉ text := by
  obtain ⟨value, raw, rfl, hback⟩ | ⟨hvalue, text', htext', rfl⟩ := hread
  · have hvisible := renderValue_visible value h
    have htrim : (trim text).length ≠ 0 := fun h =>
      hvisible.trim_ne_nil (List.length_eq_zero_iff.mp h)
    refine ⟨?_, hvisible.noBreak⟩
    unfold parseLine
    dsimp only
    rw [if_neg htrim, hback _ text h]
    rfl
  · have htext : text = text' := by
      cases hl : parseLine parseJsonc text' i with
      | value n value raw =>
        rw [hl] at hvalue
        cases hvalue
      | blank n raw =>
        rw [hl] at h
        rw [← Except.ok.inj h]
        exact text_of_parseLine (.inl hl)
      | malformed n raw =>
        rw [hl] at h
        rw [← Except.ok.inj h]
        exact text_of_parseLine (.inr hl)
    rw [htext]
    exact ⟨rfl, htext'⟩

theorem Emitted.exists_text (h : Emitted guardPath lines texts) (hi : lines[i]? = some l) :
    ∃ text, texts[i]? = some text ∧ emitLine guardPath true l = .ok text := by
  obtain ⟨hlt, rfl⟩ := List.getElem?_eq_some_iff.mp hi
  obtain ⟨hlength, hget⟩ := List.forall₂_iff_get.mp h
  refine ⟨_, List.getElem?_eq_getElem (hlength ▸ hlt), ?_⟩
  exact hget i hlt (hlength ▸ hlt)

theorem Emitted.exists_line (h : Emitted guardPath lines texts) (hi : texts[i]? = some text) :
    ∃ l, lines[i]? = some l ∧ emitLine guardPath true l = .ok text := by
  obtain ⟨hlt, rfl⟩ := List.getElem?_eq_some_iff.mp hi
  obtain ⟨hlength, hget⟩ := List.forall₂_iff_get.mp h
  refine ⟨_, List.getElem?_eq_getElem (hlength ▸ hlt), ?_⟩
  exact hget i (hlength ▸ hlt) hlt

/-- Every line can be written and read again. -/
def Rereadable (parseJsonc : Utf16 → Option JsoncValue) (lines : List JsonlLine) : Prop :=
  ∀ i l, lines[i]? = some l → RereadableLine parseJsonc l i

theorem mapIdx_emitted (hread : Rereadable parseJsonc lines)
    (h : Emitted guardPath lines texts) :
    (texts.mapIdx fun i text => parseLine parseJsonc text i).map content = lines.map content := by
  apply List.ext_getElem?
  intro i
  rw [List.getElem?_map, List.getElem?_map, List.getElem?_mapIdx]
  cases hi : lines[i]? with
  | none =>
    have hlength := List.Forall₂.length_eq h
    have : texts[i]? = none := by
      rw [List.getElem?_eq_none_iff] at hi ⊢
      omega
    rw [this]
    rfl
  | some l =>
    obtain ⟨text, htext, hemit⟩ := h.exists_text hi
    rw [htext]
    exact congrArg some (parseLine_emitted (hread i l hi) hemit).1

theorem noBreak_emitted (hread : Rereadable parseJsonc lines)
    (h : Emitted guardPath lines texts) : ∀ text ∈ texts, LF ∉ text := by
  intro text htext
  obtain ⟨i, hi⟩ := List.mem_iff_getElem?.mp htext
  obtain ⟨l, hl, hemit⟩ := h.exists_line hi
  exact (parseLine_emitted (hread i l hl) hemit).2

/-- The carriage returns at the ends of texts are those of lines without values. -/
theorem noReturn_emitted (h : Emitted guardPath lines texts)
    (hclean : ∀ l ∈ lines.dropLast, ∀ n raw, l = .blank n raw ∨ l = .malformed n raw →
      raw.getLast? ≠ some CR) : ∀ text ∈ texts.dropLast, text.getLast? ≠ some CR := by
  intro text htext
  obtain ⟨i, hi⟩ := List.mem_iff_getElem?.mp htext
  rw [List.getElem?_dropLast] at hi
  split at hi
  · rename_i hlt
    obtain ⟨l, hl, hemit⟩ := h.exists_line hi
    have hlength := List.Forall₂.length_eq h
    have hmem : l ∈ lines.dropLast := by
      apply List.mem_of_getElem? (i := i)
      rw [List.getElem?_dropLast, if_pos (by omega)]
      exact hl
    cases l with
    | value n value raw => exact (renderValue_visible value hemit).noReturn
    | blank n raw =>
      obtain rfl := Except.ok.inj hemit
      exact hclean _ hmem n raw (.inl rfl)
    | malformed n raw =>
      obtain rfl := Except.ok.inj hemit
      exact hclean _ hmem n raw (.inr rfl)
  · cases hi

/-- Same lines, but for an empty last one. -/
def SameLines (lines reread : List JsonlLine) : Prop :=
  lines.map content = reread.map content ∨
    ∃ n, lines.map content = reread.map content ++ [.blank n []]

theorem sameLines_parseJsonl {eol : LineEnding} (hread : Rereadable parseJsonc lines)
    (h : Emitted guardPath lines texts) (hjoin : Joinable eol texts)
    (hvalue : ∃ l ∈ lines, l.isValue = true) :
    SameLines lines (parseJsonl parseJsonc (joinLines eol texts)).ast.lines := by
  have hmem : ∃ text ∈ texts, text ≠ [] := by
    obtain ⟨l, hl, hvalue⟩ := hvalue
    obtain ⟨i, hi⟩ := List.mem_iff_getElem?.mp hl
    obtain ⟨text, htext, hemit⟩ := h.exists_text hi
    refine ⟨text, List.mem_of_getElem? htext, ?_⟩
    cases l with
    | value n value raw => exact (renderValue_visible value hemit).ne_nil
    | _ => cases hvalue
  obtain ⟨text, htext, hne⟩ := hmem
  have hkept := mem_keptLines htext hne
  have hbody : (crlfToLf (trimLastBreak (joinLines eol texts))).length ≠ 0 := by
    rw [trimLastBreak_joinLines hjoin, crlfToLf_joinLines hjoin.kept]
    intro hlength
    exact hne (eq_nil_of_joinLines_eq_nil (List.length_eq_zero_iff.mp hlength) text hkept)
  have hlines : (parseJsonl parseJsonc (joinLines eol texts)).ast.lines =
      (keptLines texts).mapIdx fun i text => parseLine parseJsonc text i := by
    unfold parseJsonl
    dsimp only
    rw [if_neg hbody, splitOn_joinLines hjoin (List.ne_nil_of_mem hkept)]
  have hcontent := mapIdx_emitted hread h
  rw [hlines]
  obtain heq | heq := keptLines_or texts
  · left
    rw [← heq]
    exact hcontent.symm
  · right
    refine ⟨(keptLines texts).length + 1, ?_⟩
    rw [← hcontent]
    conv_lhs => rw [heq]
    rw [List.mapIdx_concat, List.map_append]
    rfl

end Reread

/-- A text of one line is a document of one line. -/
theorem parseJsonl_visible {parseJsonc : Utf16 → Option JsoncValue} {text : Utf16}
    {value : JsoncValue} (h : Visible text) (hparse : parseJsonc text = some value) :
    (parseJsonl parseJsonc text).ast = ⟨text, [.value 1 value text], some .lf⟩ := by
  have hjoin : Joinable .lf [text] := by
    refine ⟨fun p hp => ?_, fun _ p hp => ?_⟩
    · rw [List.mem_singleton.mp hp]
      exact h.noBreak
    · cases hp
  have hself : joinLines .lf [text] = text := joinLines_singleton .lf text
  have hkept : keptLines [text] = [text] := if_neg fun h => absurd h.2 (by simp)
  have hsplit := splitOn_joinLines hjoin (by rw [hkept]; simp)
  rw [hself, hkept] at hsplit
  have hbody : (crlfToLf (trimLastBreak text)).length ≠ 0 := by
    have hjoined := trimLastBreak_joinLines hjoin
    rw [hself, hkept, hself] at hjoined
    have hcrlf := crlfToLf_joinLines hjoin
    rw [hself] at hcrlf
    rw [hjoined, hcrlf]
    exact fun hlength => h.ne_nil (List.length_eq_zero_iff.mp hlength)
  have hending : detectLineEnding text = .lf := by
    have hcount := countCrlf_joinLines hjoin
    rw [hself] at hcount
    unfold detectLineEnding
    rw [hcount]
    rfl
  have htrim : (trim text).length ≠ 0 := fun hlength =>
    h.trim_ne_nil (List.length_eq_zero_iff.mp hlength)
  unfold parseJsonl
  dsimp only
  rw [if_neg hbody, hsplit, hending]
  show (⟨text, [parseLine parseJsonc text 0], some .lf⟩ : JsonlAst) = _
  unfold parseLine
  dsimp only
  rw [if_neg htrim, hparse]

/-- Resolver and editor read the segments of a path alike in the line it is about. -/
def ReadsAlike (ast : JsonlAst) (path : OcPath) : Prop :=
  ∀ target segments, targetLine ast path = some target → itemSegments path = .ok segments →
    target.2.1.ReadAlike segments

theorem ReadsAlike.addressIn_eq {ast : JsonlAst} {path : OcPath} (h : ReadsAlike ast path)
    {target : ℕ × JsoncValue × Utf16} (ht : targetLine ast path = some target) :
    addressIn shownChild path target.2.1 = addressIn editedChild path target.2.1 := by
  unfold addressIn
  split
  · rfl
  · cases hsegments : itemSegments path with
    | error e => rfl
    | ok segments => exact (h target segments ht hsegments).walk_eq

section Agreement

variable {parseJsonc : Utf16 → Option JsoncValue} {ast edited : JsonlAst} {path : OcPath}
  {newValue : JsoncValue}

/-- Setting the line with a number is replacing in the lines with that number. -/
theorem set_eq_replacePlace {lines : List JsonlLine} (hlines : ReadLines parseJsonc lines) {i n : ℕ}
    {value : JsoncValue} {raw : Utf16} (hi : lines[i]? = some (.value n value raw))
    (address : List ℕ) : lines.set i (.value n (value.replaceNode newValue address) raw) =
      replacePlace lines (n, address) newValue := by
  have hn : n = i + 1 := hlines.line_eq hi
  have hlt := (List.getElem?_eq_some_iff.mp hi).choose
  apply List.ext_getElem?
  intro j
  unfold replacePlace
  rw [List.getElem?_map, List.getElem?_set]
  by_cases hj : i = j
  · subst hj
    rw [if_pos rfl, if_pos hlt, hi]
    simp [replaceInLine]
  · rw [if_neg hj]
    cases hjl : lines[j]? with
    | none => rfl
    | some l =>
      cases l with
      | value m w text =>
        have hm : m = j + 1 := hlines.line_eq hjl
        have hne : m ≠ n := by omega
        simp [replaceInLine, hne]
      | _ => rfl

/-- An edit that succeeds replaces in the lines and emits them. -/
theorem setJsonlOcPath_iff (hlines : ReadLines parseJsonc ast.lines)
    (hread : ReadsAlike ast path) : setJsonlOcPath ast path newValue = .ok (.ok edited) ↔
      ∃ place, resolvedPlace ast path = some place ∧
        ∃ texts, Emitted (editGuard path.file) (replacePlace ast.lines place newValue) texts ∧
          edited = ⟨joinLines (endingOf ast) texts, replacePlace ast.lines place newValue,
            ast.lineEnding⟩ := by
  rw [setJsonlOcPath_eq_ok]
  constructor
  · rintro ⟨head, i, n, value, raw, address, hhead, hpick, hi, haddress, hfinal⟩
    have htarget : targetLine ast path = some (n, value, raw) := by
      unfold targetLine
      rw [hhead, Option.bind_some, ← pickLineIndex_spec, hpick, Option.bind_some, hi]
    obtain ⟨texts, htexts, rfl⟩ := finalize_eq_ok.mp hfinal
    rw [set_eq_replacePlace hlines hi] at htexts ⊢
    refine ⟨(n, address), ?_, texts, htexts, rfl⟩
    rw [resolvedPlace_eq, htarget, Option.bind_some, hread.addressIn_eq htarget, haddress]
    rfl
  · rintro ⟨place, hplace, texts, htexts, rfl⟩
    rw [resolvedPlace_eq, Option.bind_eq_some_iff] at hplace
    obtain ⟨⟨n, value, raw⟩, htarget, hplace⟩ := hplace
    rw [hread.addressIn_eq htarget, Option.map_eq_some_iff] at hplace
    obtain ⟨address, haddress, rfl⟩ := hplace
    have hline : ∃ head, path.sectionSlot = some head ∧
        pickJsonlLine ast head = some (.value n value raw) := by
      unfold targetLine at htarget
      split at htarget
      · rename_i hbind
        obtain ⟨rfl, rfl, rfl⟩ : _ ∧ _ ∧ _ := by simpa using htarget
        exact Option.bind_eq_some_iff.mp hbind
      · cases htarget
    obtain ⟨head, hhead, hline⟩ := hline
    rw [← pickLineIndex_spec, Option.bind_eq_some_iff] at hline
    obtain ⟨i, hpick, hi⟩ := hline
    refine ⟨head, i, n, value, raw, address, hhead, hpick, hi, haddress, ?_⟩
    rw [finalize_eq_ok, set_eq_replacePlace hlines hi]
    exact ⟨texts, htexts, rfl⟩

theorem isValue_replaceInLine (place : Place) (newValue : JsoncValue) (l : JsonlLine) :
    (replaceInLine place newValue l).isValue = l.isValue := by cases l <;> rfl

theorem replaceInLine_of_not_value {place : Place} {l : JsonlLine} (h : l.isValue = false) :
    replaceInLine place newValue l = l := by
  cases l with
  | value n value raw => cases h
  | _ => rfl

theorem rereadable_replacePlace {lines : List JsonlLine} (hlines : ReadLines parseJsonc lines)
    {place : Place} (hback : ∀ n value raw, .value n value raw ∈ replacePlace lines place newValue →
      RendersBack parseJsonc value) :
    Rereadable parseJsonc (replacePlace lines place newValue) := by
  intro i l hi
  have hmem := List.mem_of_getElem? hi
  unfold replacePlace at hi
  rw [List.getElem?_map, Option.map_eq_some_iff] at hi
  obtain ⟨l', hl', rfl⟩ := hi
  have hline := hlines.line_eq hl'
  cases hvalue : l'.isValue with
  | true =>
    left
    cases l' with
    | value n value raw =>
      refine ⟨_, raw, ?_, hback _ _ _ hmem⟩
      rw [← hline]
      rfl
    | _ => cases hvalue
  | false =>
    right
    rw [replaceInLine_of_not_value hvalue]
    exact ⟨hvalue, hlines i l' hl'⟩

theorem exists_value_of_resolvedPlace {place : Place} (h : resolvedPlace ast path = some place) :
    ∃ l ∈ ast.lines, l.isValue = true := by
  rw [resolvedPlace_eq, Option.bind_eq_some_iff] at h
  obtain ⟨⟨n, value, raw⟩, htarget, -⟩ := h
  unfold targetLine at htarget
  split at htarget
  · rename_i n' value' raw' hbind
    obtain ⟨head, -, hpick⟩ := Option.bind_eq_some_iff.mp hbind
    rw [← pickLineIndex_spec, Option.bind_eq_some_iff] at hpick
    obtain ⟨i, -, hi⟩ := hpick
    exact ⟨_, List.mem_of_getElem? hi, rfl⟩
  · cases htarget

/-- The document that is parsed again has the edited lines and the line ending of the old one. -/
theorem reread_edited (hlines : ReadLines parseJsonc ast.lines) (hclean : EndsClean ast)
    {place : Place} (hplace : resolvedPlace ast path = some place)
    (hback : ∀ n value raw, .value n value raw ∈ replacePlace ast.lines place newValue →
      RendersBack parseJsonc value) {guardPath : Utf16} {texts : List Utf16}
    (htexts : Emitted guardPath (replacePlace ast.lines place newValue) texts) :
    SameLines (replacePlace ast.lines place newValue)
        (parseJsonl parseJsonc (joinLines (endingOf ast) texts)).ast.lines ∧
      (2 ≤ ast.lines.length →
        (parseJsonl parseJsonc (joinLines (endingOf ast) texts)).ast.lineEnding =
          some (endingOf ast)) := by
  have hread := rereadable_replacePlace hlines hback
  have hjoin : Joinable (endingOf ast) texts := by
    refine ⟨noBreak_emitted hread htexts, fun heol => ?_⟩
    apply noReturn_emitted htexts
    intro l hl n raw hkind
    unfold replacePlace at hl
    rw [← List.map_dropLast] at hl
    obtain ⟨l', hl', rfl⟩ := List.mem_map.mp hl
    have hvalue : l'.isValue = false := by
      have hkept := isValue_replaceInLine place newValue l'
      rw [← hkept]
      rcases hkind with h | h
      all_goals rw [h]; rfl
    rw [replaceInLine_of_not_value hvalue] at hkind
    exact hclean heol l' hl' n raw hkind
  have hlength : texts.length = ast.lines.length := by
    rw [← List.Forall₂.length_eq htexts, replacePlace, List.length_map]
  constructor
  · apply sameLines_parseJsonl hread htexts hjoin
    obtain ⟨l, hl, hvalue⟩ := exists_value_of_resolvedPlace hplace
    refine ⟨_, List.mem_map_of_mem hl, ?_⟩
    rw [isValue_replaceInLine, hvalue]
  · intro htwo
    show some (detectLineEnding _) = _
    rw [detectLineEnding_joinLines hjoin (by omega)]

end Agreement

/-- Where the segments are read alike and no carriage return is left before a line feed, an edit
succeeds on the paths that resolve to a place, unless it would write the sentinel; it replaces the
node there, and the document that is parsed again has the edited lines. -/
theorem setJsonlOcPath_agrees (parseJsonc : Utf16 → Option JsoncValue) (raw : Utf16) (path : OcPath)
    (newValue : JsoncValue) (hread : ReadsAlike (parseJsonl parseJsonc raw).ast path)
    (hclean : EndsClean (parseJsonl parseJsonc raw).ast)
    (hback : ∀ edited, setJsonlOcPath (parseJsonl parseJsonc raw).ast path newValue =
      .ok (.ok edited) → ∀ n value text, .value n value text ∈ edited.lines →
        RendersBack parseJsonc value) :
    let ast := (parseJsonl parseJsonc raw).ast
    ((∃ edited, setJsonlOcPath ast path newValue = .ok (.ok edited)) ↔
      ∃ place, resolvedPlace ast path = some place ∧
        Unmarked (replacePlace ast.lines place newValue)) ∧
    ∀ edited, setJsonlOcPath ast path newValue = .ok (.ok edited) →
      ∃ place, resolvedPlace ast path = some place ∧
        edited.lines = replacePlace ast.lines place newValue ∧
        SameLines edited.lines (parseJsonl parseJsonc edited.raw).ast.lines ∧
        (2 ≤ edited.lines.length →
          (parseJsonl parseJsonc edited.raw).ast.lineEnding = ast.lineEnding) := by
  intro ast
  have hlines : ReadLines parseJsonc ast.lines := readLines_parseJsonl raw
  constructor
  · constructor
    · rintro ⟨edited, hedited⟩
      obtain ⟨place, hplace, texts, htexts, -⟩ := (setJsonlOcPath_iff hlines hread).mp hedited
      exact ⟨place, hplace, (exists_emitted_iff _ _).mp ⟨texts, htexts⟩⟩
    · rintro ⟨place, hplace, hunmarked⟩
      obtain ⟨texts, htexts⟩ := (exists_emitted_iff (editGuard path.file) _).mpr hunmarked
      exact ⟨_, (setJsonlOcPath_iff hlines hread).mpr ⟨place, hplace, texts, htexts, rfl⟩⟩
  · intro edited hedited
    have hvalues := hback edited hedited
    obtain ⟨place, hplace, texts, htexts, rfl⟩ := (setJsonlOcPath_iff hlines hread).mp hedited
    obtain ⟨hsame, hending⟩ := reread_edited hlines hclean hplace hvalues htexts
    refine ⟨place, hplace, rfl, hsame, fun htwo => ?_⟩
    rw [replacePlace, List.length_map] at htwo
    exact hending htwo

/-! ### A document of one line

`{"a":"x","b":"y"}`, and the same with a first key `$last`.
-/

/-- An object of two texts, and its rendering. -/
def sampleObject (key first second : String) : JsoncValue :=
  .object [(ofString key, .string (ofString first)), (ofString "b", .string (ofString second))]

def sampleText (key first second : String) : Utf16 :=
  ofString ("\x7b\"" ++ key ++ "\":\"" ++ first ++ "\",\"b\":\"" ++ second ++ "\"\x7d")

/-- A parser of such texts. -/
def sampleParser (s : Utf16) : Option JsoncValue :=
  if s = sampleText "a" "x" "y" then some (sampleObject "a" "x" "y")
  else if s = sampleText "a" "z" "y" then some (sampleObject "a" "z" "y")
  else if s = sampleText "$last" "x" "y" then some (sampleObject "$last" "x" "y")
  else if s = sampleText "$last" "z" "y" then some (sampleObject "$last" "z" "y")
  else none

def samplePath (item : String) : OcPath where
  file := ofString "log.jsonl"
  sectionSlot := some (ofString "L1")
  item := some (ofString item)

def sampleAst (key : String) : JsonlAst :=
  ⟨sampleText key "x" "y", [.value 1 (sampleObject key "x" "y") (sampleText key "x" "y")], some .lf⟩

def parsedSample (key : String) : JsonlAst := (parseJsonl sampleParser (sampleText key "x" "y")).ast

theorem parseJsonl_sample_a : parsedSample "a" = sampleAst "a" := by
  have hvisible : Visible (sampleText "a" "x" "y") := visible_of_all (by decide) (by decide)
  have hparse : sampleParser (sampleText "a" "x" "y") = some (sampleObject "a" "x" "y") := by
    unfold sampleParser
    rw [if_pos rfl]
  exact parseJsonl_visible hvisible hparse

theorem parseJsonl_sample_last : parsedSample "$last" = sampleAst "$last" := by
  have hvisible : Visible (sampleText "$last" "x" "y") := visible_of_all (by decide) (by decide)
  have hparse : sampleParser (sampleText "$last" "x" "y") = some (sampleObject "$last" "x" "y") := by
    unfold sampleParser
    rw [if_neg (by decide +kernel), if_neg (by decide +kernel), if_pos rfl]
  exact parseJsonl_visible hvisible hparse

theorem targetLine_sample (key item : String) : targetLine (sampleAst key) (samplePath item) =
    some (1, sampleObject key "x" "y", sampleText key "x" "y") := rfl

theorem itemSegments_sample : itemSegments (samplePath "a") = .ok [ofString "a"] := rfl

theorem readsAlike_sample : ReadsAlike (sampleAst "a") (samplePath "a") := by
  intro target segments htarget hsegments
  rw [targetLine_sample] at htarget
  rw [itemSegments_sample] at hsegments
  obtain rfl := Option.some.inj htarget
  obtain rfl := Except.ok.inj hsegments
  refine ⟨?_, fun _ _ _ _ => trivial⟩
  rw [← shownChild_iff]
  decide +kernel

theorem rendersBack_sample : RendersBack sampleParser (sampleObject "a" "z" "y") := by
  intro guardPath text htext
  have hrender : renderValue guardPath [] (sampleObject "a" "z" "y") =
    .ok (sampleText "a" "z" "y") := rfl
  rw [hrender] at htext
  obtain rfl := Except.ok.inj htext
  unfold sampleParser
  rw [if_neg (by decide +kernel), if_pos rfl]

theorem edited_sample {edited : JsonlAst} (h : setJsonlOcPath (sampleAst "a") (samplePath "a")
    (.string (ofString "z")) = .ok (.ok edited)) :
    edited.lines = [.value 1 (sampleObject "a" "z" "y") (sampleText "a" "x" "y")] := by
  obtain ⟨head, i, n, value, raw, address, hhead, hpick, hi, haddress, hfinal⟩ :=
    setJsonlOcPath_eq_ok.mp h
  obtain ⟨texts, -, rfl⟩ := finalize_eq_ok.mp hfinal
  obtain rfl : ofString "L1" = head := Option.some.inj hhead
  obtain rfl : 0 = i := Option.some.inj hpick
  obtain ⟨rfl, rfl, rfl⟩ := JsonlLine.value.inj (Option.some.inj hi)
  have hread : addressIn editedChild (samplePath "a") (sampleObject "a" "x" "y") = some [0] := by
    decide +kernel
  rw [hread] at haddress
  obtain rfl := Option.some.inj haddress
  rfl

theorem setJsonlOcPath_agrees_sample :
    let ast := parsedSample "a"
    ((∃ edited, setJsonlOcPath ast (samplePath "a") (.string (ofString "z")) = .ok (.ok edited)) ↔
      ∃ place, resolvedPlace ast (samplePath "a") = some place ∧
        Unmarked (replacePlace ast.lines place (.string (ofString "z")))) ∧
    ∀ edited, setJsonlOcPath ast (samplePath "a") (.string (ofString "z")) = .ok (.ok edited) →
      ∃ place, resolvedPlace ast (samplePath "a") = some place ∧
        edited.lines = replacePlace ast.lines place (.string (ofString "z")) ∧
        SameLines edited.lines (parseJsonl sampleParser edited.raw).ast.lines ∧
        (2 ≤ edited.lines.length →
          (parseJsonl sampleParser edited.raw).ast.lineEnding = ast.lineEnding) := by
  apply setJsonlOcPath_agrees
  · show ReadsAlike (parsedSample "a") _
    rw [parseJsonl_sample_a]
    exact readsAlike_sample
  · show EndsClean (parsedSample "a")
    rw [parseJsonl_sample_a]
    intro _ l hl
    cases hl
  · change ∀ edited, setJsonlOcPath (parsedSample "a") _ _ = _ → _
    rw [parseJsonl_sample_a]
    intro edited hedited n value text hmem
    rw [edited_sample hedited] at hmem
    obtain ⟨-, rfl, -⟩ := JsonlLine.value.inj (List.mem_singleton.mp hmem)
    exact rendersBack_sample

/-- The sentinel is not written where the path resolves; and a quoted position is edited as a key
where it resolves to the last entry. -/
theorem setJsonlOcPath_disagrees :
    (resolvedPlace (parsedSample "a") (samplePath "a") = some (1, [0]) ∧
      ∀ edited, setJsonlOcPath (parsedSample "a") (samplePath "a") (.string REDACTED_SENTINEL) ≠
        .ok (.ok edited)) ∧
    (resolvedPlace (parsedSample "$last") (samplePath "\"$last\"") = some (1, [1]) ∧
      ∃ edited, setJsonlOcPath (parsedSample "$last") (samplePath "\"$last\"")
          (.string (ofString "z")) = .ok (.ok edited) ∧
        edited.lines ≠
          replacePlace (parsedSample "$last").lines (1, [1]) (.string (ofString "z"))) := by
  constructor
  · rw [parseJsonl_sample_a]
    constructor
    · rw [resolvedPlace_eq, targetLine_sample]
      decide +kernel
    · intro edited hedited
      have hmarked : Unmarked (replacePlace (sampleAst "a").lines (1, [0])
          (.string REDACTED_SENTINEL)) := by
        have hlines : ReadLines sampleParser (sampleAst "a").lines := by
          rw [← parseJsonl_sample_a]
          exact readLines_parseJsonl _
        obtain ⟨place, hplace, texts, htexts, -⟩ :=
          (setJsonlOcPath_iff hlines readsAlike_sample).mp hedited
        rw [resolvedPlace_eq, targetLine_sample] at hplace
        have haddress : addressIn shownChild (samplePath "a") (sampleObject "a" "x" "y") =
          some [0] := by decide +kernel
        rw [Option.bind_some, haddress] at hplace
        obtain rfl := Option.some.inj hplace
        exact (exists_emitted_iff _ _).mp ⟨texts, htexts⟩
      apply hmarked 1 _ _ List.mem_cons_self
      exact .entry List.mem_cons_self (.string List.infix_rfl)
  · rw [parseJsonl_sample_last]
    constructor
    · rw [resolvedPlace_eq, targetLine_sample]
      decide +kernel
    · refine ⟨_, rfl, fun h => ?_⟩
      obtain ⟨-, hobject, -⟩ := JsonlLine.value.inj (List.cons.inj h).1
      have hentries := JsoncValue.object.inj hobject
      have hvalue := congrArg Prod.snd (List.cons.inj hentries).1
      exact absurd (JsoncValue.string.inj hvalue) (by decide)

end Jsonl
