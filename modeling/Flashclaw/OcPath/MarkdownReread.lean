import Flashclaw.OcPath.FrontmatterValues

/-!
# Reading a Markdown document again

When the text that `finalize` puts together is parsed into the frontmatter and
the blocks it was made from.
-/

open Utf16

namespace Markdown

open OcPath Jsonl

/-- The lines of a text without a byte order mark. -/
def rawLines (text : Utf16) : List Utf16 := (crlfToLf text).splitOn LF

/-- A line that stays as it is before a line feed. -/
def IsLine (p : Utf16) : Prop := LF ∉ p ∧ p.getLast? ≠ some CR

theorem rawLines_append {p t : Utf16} (h : IsLine p) :
    rawLines (p ++ LF :: t) = p :: rawLines t := by
  unfold rawLines
  rw [(keep_lf h.1 h.2).1, List.splitOn_append_cons_self_of_not_mem h.1]

theorem rawLines_self {p : Utf16} (h : IsLine p) : rawLines p = [p] := by
  unfold rawLines
  rw [(keep_self h.1).1, List.splitOn_eq_singleton h.1]

theorem rawLines_joinLf {parts : List Utf16} (h : ∀ p ∈ parts, IsLine p) (hne : parts ≠ [])
    (rest : List Utf16) : rawLines (joinLf (parts ++ rest)) =
      parts ++ if rest = [] then [] else rawLines (joinLf rest) := by
  induction parts with
  | nil => exact absurd rfl hne
  | cons p parts ih =>
    have hp := h p List.mem_cons_self
    cases parts with
    | nil =>
      cases rest with
      | nil =>
        show rawLines (joinLines .lf [p]) = _
        rw [joinLines_singleton, rawLines_self hp]
        rfl
      | cons q rest =>
        show rawLines (joinLines .lf (p :: q :: rest)) = _
        rw [joinLines_cons_cons, if_neg (List.cons_ne_nil q rest)]
        exact rawLines_append hp
    | cons q parts =>
      show rawLines (joinLines .lf (p :: q :: (parts ++ rest))) = _
      rw [joinLines_cons_cons]
      refine (rawLines_append hp).trans (congrArg (p :: ·) ?_)
      exact ih (fun r hr => h r (List.mem_cons_of_mem p hr)) (List.cons_ne_nil q parts)

/-- The keys that the parser finds. -/
def IsKey (key : Utf16) : Prop := (key.head?.map isKeyStart).getD false = true ∧
  key.all isKeyUnit = true

theorem IsKey.exists_cons {key : Utf16} (h : IsKey key) :
    ∃ c rest, key = c :: rest ∧ isKeyStart c = true := by
  cases key with
  | nil => exact absurd h.1 (by decide)
  | cons c rest => exact ⟨c, rest, rfl, h.1⟩

theorem isKey_of_entryMatch {line : Utf16} {m : Utf16 × Utf16} (h : entryMatch line = some m) :
    IsKey m.1 := by
  unfold entryMatch at h
  dsimp only at h
  split at h
  · rename_i hstart
    split at h
    · split at h
      · obtain ⟨rest, -, rfl⟩ := Option.map_eq_some_iff.mp h
        refine ⟨hstart, ?_⟩
        rw [List.all_eq_true]
        intro c hc
        exact List.mem_takeWhile_imp hc
      · cases h
    · cases h
  · cases h

/-- The line of an entry is read as its key and what its value is read as. -/
theorem entryOf_entryLine {entry : FrontmatterEntry} (h : IsKey entry.key) (offset : ℕ) :
    entryOf offset (entryLine entry) =
      (readBack entry.value).map fun value => ⟨entry.key, value, offset + 2⟩ := by
  have hspan : ∀ rest, (entry.key ++ unit ':' :: rest).takeWhile isKeyUnit = entry.key ∧
      (entry.key ++ unit ':' :: rest).dropWhile isKeyUnit = unit ':' :: rest := by
    intro rest
    have hall := List.all_eq_true.mp h.2
    rw [List.takeWhile_append_of_pos hall, List.dropWhile_append_of_pos hall]
    exact ⟨by rw [List.takeWhile_cons_of_neg (by decide), List.append_nil],
      by rw [List.dropWhile_cons_of_neg (by decide)]⟩
  have hline : entryLine entry =
      entry.key ++ unit ':' :: unit ' ' :: formatFrontmatterValue entry.value := by
    unfold entryLine
    rw [List.append_assoc]
    rfl
  unfold entryOf entryMatch readBack
  rw [hline]
  dsimp only
  rw [(hspan _).1, (hspan _).2, if_pos h.1]
  have hstart (rest : Utf16) : trimStart (unit ':' :: rest) = unit ':' :: rest := rfl
  rw [hstart]
  dsimp only
  rw [if_pos rfl, Option.map_map, Option.map_map]
  rfl

theorem formatFrontmatterValue_isLine (value : Utf16) : LF ∉ formatFrontmatterValue value ∧
    CR ∉ formatFrontmatterValue value := by
  unfold formatFrontmatterValue
  split
  · decide
  · split
    · constructor
      all_goals
        intro h
        exact absurd (quote_printable h) (by decide)
    · rename_i hstructural
      constructor
      all_goals
        intro h
        exact hstructural (List.any_eq_true.mpr ⟨_, h, by decide⟩)

theorem entryLine_isLine {entry : FrontmatterEntry} (h : IsKey entry.key) :
    IsLine (entryLine entry) := by
  have hmem : ∀ c ∈ entryLine entry, c ≠ LF ∧ c ≠ CR := by
    intro c hc
    unfold entryLine at hc
    rcases List.mem_append.mp hc with hc | hc
    · rcases List.mem_append.mp hc with hc | hc
      · have := List.all_eq_true.mp h.2 c hc
        constructor
        all_goals
          rintro rfl
          exact absurd this (by decide)
      · have hall : (ofString ": ").all (fun d => d ≠ LF && d ≠ CR) = true := by decide
        simpa using List.all_eq_true.mp hall c hc
    · obtain ⟨hlf, hcr⟩ := formatFrontmatterValue_isLine entry.value
      constructor
      all_goals
        rintro rfl
        first | exact hlf hc | exact hcr hc
  constructor
  · intro h
    exact (hmem LF h).1 rfl
  · intro h
    exact (hmem CR (List.mem_of_getLast? h)).2 rfl

theorem entryLine_ne_fence {entry : FrontmatterEntry} (h : IsKey entry.key) :
    entryLine entry ≠ FENCE := by
  obtain ⟨c, rest, hkey, hc⟩ := h.exists_cons
  intro hline
  have hhead := congrArg List.head? hline
  unfold entryLine at hhead
  rw [hkey] at hhead
  obtain rfl : c = unit '-' := Option.some.inj hhead
  exact absurd hc (by decide)

theorem fence_isLine : IsLine FENCE := by
  constructor
  · decide
  · decide

/-- Results that are all there. -/
theorem filterMap_id_eq_iff {α : Type} {l : List (Option α)} {l' : List α}
    (h : l.length = l'.length) : l.filterMap id = l' ↔ l = l'.map some := by
  induction l generalizing l' with
  | nil =>
    cases l' with
    | nil => simp
    | cons a l' => cases h
  | cons o l ih =>
    cases l' with
    | nil => cases h
    | cons a l' =>
      have hlength : l.length = l'.length := Nat.succ.inj h
      cases o with
      | none =>
        constructor
        · intro heq
          have hle := List.length_filterMap_le id l
          have hall : (l.filterMap id).length = l'.length + 1 := congrArg List.length heq
          omega
        · intro heq
          cases (List.cons.inj heq).1
      | some b =>
        show b :: l.filterMap id = a :: l' ↔ some b :: l = some a :: l'.map some
        rw [List.cons.injEq, List.cons.injEq, ih hlength, Option.some.injEq]

/-- Every entry stands on the line behind those before it, and its value survives. -/
def EntriesKept (frontmatter : List FrontmatterEntry) : Prop :=
  ∀ i e, frontmatter[i]? = some e → e.line = i + 2 ∧ Survives e.value

theorem mapIdx_entryLine_iff {frontmatter : List FrontmatterEntry}
    (h : ∀ e ∈ frontmatter, IsKey e.key) :
    ((frontmatter.map entryLine).mapIdx entryOf).filterMap id = frontmatter ↔
      EntriesKept frontmatter := by
  rw [filterMap_id_eq_iff (by simp), List.ext_getElem?_iff]
  unfold EntriesKept
  apply forall_congr'
  intro i
  rw [List.getElem?_mapIdx, List.getElem?_map, List.getElem?_map]
  cases hi : frontmatter[i]? with
  | none => simp
  | some e =>
    have hkey := h e (List.mem_of_getElem? hi)
    rw [Option.map_some, Option.map_some, Option.map_some, entryOf_entryLine hkey,
      Option.some.injEq]
    constructor
    · intro heq e' he'
      obtain rfl := Option.some.inj he'
      obtain ⟨value, hvalue, heq⟩ := Option.map_eq_some_iff.mp heq
      have hline := congrArg FrontmatterEntry.line heq
      have hsame := congrArg FrontmatterEntry.value heq
      dsimp only at hline hsame
      refine ⟨hline.symm, ?_⟩
      rw [← readBack_eq_self_iff, hvalue, hsame]
    · intro hkept
      obtain ⟨hline, hsurvives⟩ := hkept e rfl
      rw [(readBack_eq_self_iff _).mpr hsurvives, Option.map_some, ← hline]

/-- The lines behind the frontmatter of a written document. -/
def bodyLines (ast : MdAst) : List Utf16 :=
  if bodyParts true ast = [] then [] else rawLines (joinLf (bodyParts true ast))

theorem splitLines_finalize {ast : MdAst} (hkeys : ∀ e ∈ ast.frontmatter, IsKey e.key)
    (hne : ast.frontmatter ≠ []) : splitLines (finalize ast).raw =
      FENCE :: (ast.frontmatter.map entryLine ++ FENCE :: bodyLines ast) := by
  have hparts : ∀ p ∈ frontmatterParts ast.frontmatter, IsLine p := by
    intro p hp
    unfold frontmatterParts at hp
    rw [if_neg hne] at hp
    rcases List.mem_cons.mp hp with rfl | hp
    · exact fence_isLine
    · rcases List.mem_append.mp hp with hp | hp
      · obtain ⟨e, he, rfl⟩ := List.mem_map.mp hp
        exact entryLine_isLine (hkeys e he)
      · rw [List.mem_singleton.mp hp]
        exact fence_isLine
  have hfm : frontmatterParts ast.frontmatter =
      FENCE :: (ast.frontmatter.map entryLine ++ [FENCE]) := if_neg hne
  have hhead : (finalize ast).raw.head? ≠ some BOM := by
    unfold finalize
    dsimp only
    rw [hfm]
    cases hrest : ast.frontmatter.map entryLine ++ [FENCE] with
    | nil => simp at hrest
    | cons q rest =>
      show (joinLines .lf (FENCE :: q :: (rest ++ _))).head? ≠ _
      rw [joinLines_cons_cons]
      show some (unit '-') ≠ some BOM
      decide
  have hraw := rawLines_joinLf hparts (by rw [hfm]; exact List.cons_ne_nil _ _) (bodyParts true ast)
  unfold splitLines
  dsimp only
  rw [if_neg hhead]
  have hstarted : decide (ast.frontmatter ≠ []) = true := decide_eq_true hne
  show rawLines (finalize ast).raw = _
  unfold finalize
  dsimp only
  rw [hstarted, hraw, hfm]
  unfold bodyLines
  simp

theorem detectFrontmatter_written {frontmatter : List FrontmatterEntry}
    (hkeys : ∀ e ∈ frontmatter, IsKey e.key) (rest : List Utf16) :
    detectFrontmatter (FENCE :: (frontmatter.map entryLine ++ FENCE :: rest)) =
      (some ⟨((frontmatter.map entryLine).mapIdx entryOf).filterMap id, frontmatter.length + 1⟩,
        []) := by
  have hfind : (frontmatter.map entryLine ++ FENCE :: rest).findIdx? (· = FENCE) =
      some frontmatter.length := by
    have hnone : (frontmatter.map entryLine).findIdx? (· = FENCE) = none := by
      rw [List.findIdx?_eq_none_iff]
      intro line hline
      obtain ⟨e, he, rfl⟩ := List.mem_map.mp hline
      exact decide_eq_false (entryLine_ne_fence (hkeys e he))
    rw [List.findIdx?_append, hnone, List.findIdx?_cons]
    simp
  have htake : (frontmatter.map entryLine ++ FENCE :: rest).take frontmatter.length =
      frontmatter.map entryLine := by
    rw [List.take_append_of_le_length (by simp), List.take_of_length_le (by simp)]
  cases hlines : frontmatter.map entryLine ++ FENCE :: rest with
  | nil => simp at hlines
  | cons q lines =>
    rw [hlines] at hfind htake
    unfold detectFrontmatter
    dsimp only
    rw [if_pos rfl, hfind]
    dsimp only
    rw [htake]

variable (host : Host)

/-- The blocks that are read from the lines from a line on. -/
def readBlocks (lines : List Utf16) (line : ℕ) : List AstBlock :=
  (walkBlocks host (host.tokenize (joinLf lines)) lines line).2

/-- The blocks that are read behind the frontmatter of a written document. -/
def rereadBlocks (ast : MdAst) : List AstBlock :=
  readBlocks host (bodyLines ast) (ast.frontmatter.length + 3)

theorem parseMd_finalize {ast : MdAst} (hkeys : ∀ e ∈ ast.frontmatter, IsKey e.key)
    (hne : ast.frontmatter ≠ []) :
    (parseMd host (finalize ast).raw).ast.frontmatter =
        ((ast.frontmatter.map entryLine).mapIdx entryOf).filterMap id ∧
      (parseMd host (finalize ast).raw).ast.blocks = rereadBlocks host ast := by
  have hdrop : (FENCE :: (ast.frontmatter.map entryLine ++ FENCE :: bodyLines ast)).drop
      (ast.frontmatter.length + 2) = bodyLines ast := by
    rw [List.drop_succ_cons, ← List.drop_drop, List.drop_left' (by simp)]
    rfl
  unfold parseMd
  rw [splitLines_finalize hkeys hne]
  dsimp only
  rw [detectFrontmatter_written hkeys]
  refine ⟨rfl, ?_⟩
  show (parseBody host _ (ast.frontmatter.length + 2)).2 = _
  unfold parseBody
  dsimp only
  rw [hdrop]
  rfl

/-- How many lines stand between the fences of lines that open with a fence and close it. -/
def fencedLines : List Utf16 → Option ℕ
  | first :: second :: rest =>
    if first = FENCE then (second :: rest).findIdx? (· = FENCE) else none
  | _ => none

theorem detectFrontmatter_fst (lines : List Utf16) : (detectFrontmatter lines).1 =
    (fencedLines lines).map fun offset =>
      ⟨((lines.tail.take offset).mapIdx entryOf).filterMap id, offset + 1⟩ := by
  match lines with
  | [] => rfl
  | [_] => rfl
  | first :: second :: rest =>
    unfold detectFrontmatter fencedLines
    dsimp only
    split_ifs
    · cases (second :: rest).findIdx? (· = FENCE) <;> rfl
    · rfl

theorem filterMap_entryOf_eq_nil_iff (lines : List Utf16) :
    (lines.mapIdx entryOf).filterMap id = [] ↔ ∀ line ∈ lines, entryMatch line = none := by
  rw [List.filterMap_eq_nil_iff]
  constructor
  · intro h line hline
    obtain ⟨i, hi, rfl⟩ := List.mem_iff_getElem.mp hline
    exact Option.map_eq_none_iff.mp (h _ (List.mem_mapIdx.mpr ⟨i, hi, rfl⟩))
  · intro h entry hentry
    obtain ⟨i, hi, rfl⟩ := List.mem_mapIdx.mp hentry
    exact Option.map_eq_none_iff.mpr (h _ (List.getElem_mem hi))

/-- The lines of a document without entries give the blocks, behind a fence with no entry in it
if they open with one that is closed. -/
def BodyRereads (lines : List Utf16) (blocks : List AstBlock) : Prop :=
  match fencedLines lines with
  | none => readBlocks host lines 1 = blocks
  | some offset =>
    (∀ line ∈ lines.tail.take offset, entryMatch line = none) ∧
      readBlocks host (lines.drop (offset + 2)) (offset + 3) = blocks

theorem bodyRereads_iff (raw : Utf16) (blocks : List AstBlock) :
    BodyRereads host (splitLines raw) blocks ↔
      (parseMd host raw).ast.frontmatter = [] ∧ (parseMd host raw).ast.blocks = blocks := by
  have hentries : (parseMd host raw).ast.frontmatter =
      ((detectFrontmatter (splitLines raw)).1.map (·.entries)).getD [] := rfl
  have hblocks : (parseMd host raw).ast.blocks = (parseBody host (splitLines raw)
      (((detectFrontmatter (splitLines raw)).1.map fun range => range.endLine + 1).getD 0)).2 := rfl
  rw [hentries, hblocks, detectFrontmatter_fst, BodyRereads]
  cases fencedLines (splitLines raw) with
  | none => exact (and_iff_right rfl).symm
  | some offset => exact and_congr (filterMap_entryOf_eq_nil_iff _).symm Iff.rfl

/-- The document that is written is read as the document: behind frontmatter the tokens of the
body give the blocks, and a body without any is read as one. -/
def Rereads (ast : MdAst) : Prop :=
  if ast.frontmatter = [] then
    BodyRereads host (splitLines (joinLf (bodyParts false ast))) ast.blocks
  else EntriesKept ast.frontmatter ∧ rereadBlocks host ast = ast.blocks

theorem rereads_iff {ast : MdAst} (hkeys : ∀ e ∈ ast.frontmatter, IsKey e.key) :
    Rereads host ast ↔ (parseMd host (finalize ast).raw).ast.frontmatter = ast.frontmatter ∧
      (parseMd host (finalize ast).raw).ast.blocks = ast.blocks := by
  unfold Rereads
  by_cases hne : ast.frontmatter = []
  · have hraw : (finalize ast).raw = joinLf (bodyParts false ast) := by
      unfold finalize frontmatterParts
      rw [hne]
      rfl
    rw [if_pos hne, bodyRereads_iff, hraw, hne]
  · obtain ⟨hfrontmatter, hblocks⟩ := parseMd_finalize host hkeys hne
    rw [if_neg hne, hfrontmatter, hblocks, mapIdx_entryLine_iff hkeys]

theorem isKey_parseMd (raw : Utf16) : ∀ e ∈ (parseMd host raw).ast.frontmatter, IsKey e.key := by
  intro e he
  have he : e ∈ ((detectFrontmatter (splitLines raw)).1.map (·.entries)).getD [] := he
  cases hfm : (detectFrontmatter (splitLines raw)).1 with
  | none =>
    rw [hfm] at he
    cases he
  | some range =>
    rw [hfm] at he
    have hentries : ∃ lines, range.entries = ((lines : List Utf16).mapIdx entryOf).filterMap id := by
      unfold detectFrontmatter at hfm
      split at hfm
      · split at hfm
        · split at hfm
          · cases hfm
          · obtain rfl := Option.some.inj hfm
            exact ⟨_, rfl⟩
        · cases hfm
      · cases hfm
    obtain ⟨lines, hlines⟩ := hentries
    have he : e ∈ range.entries := he
    rw [hlines, List.mem_filterMap] at he
    obtain ⟨o, ho, he⟩ := he
    obtain ⟨i, hi⟩ := List.mem_iff_getElem?.mp ho
    rw [List.getElem?_mapIdx, Option.map_eq_some_iff] at hi
    obtain ⟨line, -, hline⟩ := hi
    obtain rfl : o = some e := he
    unfold entryOf at hline
    obtain ⟨m, hm, rfl⟩ := Option.map_eq_some_iff.mp hline
    exact isKey_of_entryMatch hm

/-- Every item has the key, the value and the slug of its text. -/
def ItemsRead (blocks : List AstBlock) : Prop :=
  ∀ block ∈ blocks, ∀ item ∈ block.items, item = itemOf host item.text item.line

theorem itemsRead_extractItems (bodyFileLine : ℕ) (tokens : List Token) :
    ∀ item ∈ extractItems host bodyFileLine tokens, item = itemOf host item.text item.line := by
  induction tokens with
  | nil =>
    intro item hitem
    cases hitem
  | cons t tokens ih =>
    intro item hitem
    unfold extractItems at hitem
    split at hitem
    · rcases List.mem_cons.mp hitem with rfl | hitem
      · rfl
      · exact ih item hitem
    · exact ih item hitem

theorem itemsRead_parseMd (raw : Utf16) : ItemsRead host (parseMd host raw).ast.blocks := by
  have hblocks (tokens : List Token) (lines : List Utf16) (bodyFileLine : ℕ)
      (headings : List Heading) :
      ItemsRead host (blocksOf host tokens lines bodyFileLine headings) := by
    induction headings with
    | nil =>
      intro block hblock
      cases hblock
    | cons heading rest ih =>
      intro block hblock
      rcases List.mem_cons.mp hblock with rfl | hblock
      · exact itemsRead_extractItems host _ _
      · exact ih block hblock
  show ItemsRead host (walkBlocks host _ _ _).2
  unfold walkBlocks
  split
  · intro block hblock
    cases hblock
  · exact hblocks _ _ _ _

end Markdown
