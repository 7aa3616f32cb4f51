import Flashclaw.OcPath.MarkdownReread

/-!
# Edits that survive

Exactly when the document that is parsed from the text of an edit is the document
that the edit returns.
-/

open Utf16

namespace Markdown

open OcPath Jsonl

section Targets

variable (host : Host)

/-- The frontmatter entry that a path is about. -/
def frontmatterTarget (ast : MdAst) (path : OcPath) : Option ℕ :=
  if path.sectionSlot = some FRONTMATTER then
    (path.item <|> path.field).bind fun key => ast.frontmatter.findIdx? fun e => e.key = key
  else none

/-- The block and the item in it that a path is about. -/
def itemTarget (ast : MdAst) (path : OcPath) : Option (ℕ × ℕ) :=
  if path.sectionSlot = some FRONTMATTER then none
  else do
    let sectionName ← path.sectionSlot
    let itemName ← path.item
    let b ← ast.blocks.findIdx? fun block => block.slug = host.toLowerCase sectionName
    let block ← ast.blocks[b]?
    let i ← block.items.findIdx? fun item => item.slug = host.toLowerCase itemName
    return (b, i)

def itemAt (blocks : List AstBlock) (t : ℕ × ℕ) : Option AstItem :=
  blocks[t.1]?.bind fun block => block.items[t.2]?

def kvAt (blocks : List AstBlock) (t : ℕ × ℕ) : Option KeyValue :=
  (itemAt blocks t).bind (·.kv)

/-- The value that a path resolves to. -/
def resolvedText (ast : MdAst) (path : OcPath) : Option Utf16 :=
  match resolveMdOcPath host ast path with
  | some (.frontmatter node) => some node.value
  | some (.itemField _ _ value) => some value
  | _ => none

/-- An edit survives when its text is parsed again: the path resolves to the new value, all else
has its old key and value, and the document is the one that the edit returned. -/
structure Survived (ast edited : MdAst) (path : OcPath) (newValue : Utf16) : Prop where
  resolves : resolvedText host (parseMd host edited.raw).ast path = some newValue
  otherEntries : ∀ i, frontmatterTarget ast path ≠ some i →
    ((parseMd host edited.raw).ast.frontmatter[i]?).map (fun e => (e.key, e.value)) =
      (ast.frontmatter[i]?).map fun e => (e.key, e.value)
  headings : (parseMd host edited.raw).ast.blocks.map (·.heading) = ast.blocks.map (·.heading)
  otherItems : ∀ t, itemTarget host ast path ≠ some t →
    (itemAt (parseMd host edited.raw).ast.blocks t).map (·.kv) = (itemAt ast.blocks t).map (·.kv)
  frontmatter : (parseMd host edited.raw).ast.frontmatter = edited.frontmatter
  blocks : (parseMd host edited.raw).ast.blocks = edited.blocks

/-- Every frontmatter line is an entry whose value survives, the new one too, and the tokens of
the body give the blocks; the value of an item is the one that was there. -/
def Keeps (ast : MdAst) (path : OcPath) (newValue : Utf16) : Prop :=
  match frontmatterTarget ast path with
  | some idx =>
    (∀ i e, ast.frontmatter[i]? = some e → e.line = i + 2 ∧ (i ≠ idx → Survives e.value)) ∧
      Survives newValue ∧ rereadBlocks host ast = ast.blocks
  | none =>
    Rereads host ast ∧
      ((itemTarget host ast path).bind (kvAt ast.blocks)).map (·.value) = some newValue

end Targets

/-- An edit of a frontmatter entry. -/
structure FrontmatterEdit (ast : MdAst) (path : OcPath) (newValue : Utf16) (edited : MdAst)
    (key : Utf16) (idx : ℕ) (existing : FrontmatterEntry) : Prop where
  onFrontmatter : path.sectionSlot = some FRONTMATTER
  keyOf : (path.item <|> path.field) = some key
  found : (ast.frontmatter.findIdx? fun e => e.key = key) = some idx
  existingOf : ast.frontmatter[idx]? = some existing
  result : edited = finalize { ast with
    frontmatter := ast.frontmatter.set idx { existing with value := newValue } }

/-- The block with the new item. -/
def editedBlock (block : AstBlock) (i : ℕ) (item : AstItem) (kv : KeyValue) (newValue : Utf16) :
    AstBlock :=
  let newItems := block.items.set i { item with kv := some ⟨kv.key, newValue⟩ }
  { block with items := newItems, bodyText := rebuildBlockBody block.bodyText newItems block.items }

/-- The section, the item and the field of a path. -/
structure ItemNames where
  sectionName : Utf16
  item : Utf16
  field : Utf16

/-- An edit of the value of an item. -/
structure ItemEdit (host : Host) (ast : MdAst) (path : OcPath) (newValue : Utf16) (edited : MdAst)
    (names : ItemNames) (t : ℕ × ℕ) (block : AstBlock) (item : AstItem) (kv : KeyValue) :
    Prop where
  offFrontmatter : path.sectionSlot ≠ some FRONTMATTER
  sectionIs : path.sectionSlot = some names.sectionName
  itemIs : path.item = some names.item
  fieldIs : path.field = some names.field
  foundBlock : (ast.blocks.findIdx? fun b => b.slug = host.toLowerCase names.sectionName) = some t.1
  blockAt : ast.blocks[t.1]? = some block
  foundItem : (block.items.findIdx? fun i => i.slug = host.toLowerCase names.item) = some t.2
  inBlock : block.items[t.2]? = some item
  kvOf : item.kv = some kv
  sameField : host.toLowerCase kv.key = host.toLowerCase names.field
  result : edited = finalize { ast with
    blocks := ast.blocks.set t.1 (editedBlock block t.2 item kv newValue) }

theorem setFrontmatter_ok {ast edited : MdAst} {path : OcPath} {newValue : Utf16}
    (hfm : path.sectionSlot = some FRONTMATTER)
    (h : setFrontmatter ast path newValue = .ok edited) :
    ∃ key idx existing, FrontmatterEdit ast path newValue edited key idx existing := by
  unfold setFrontmatter at h
  split at h
  · cases h
  · rename_i key hkey
    split at h
    · cases h
    · rename_i idx hidx
      split at h
      · cases h
      · rename_i existing hexisting
        exact ⟨key, idx, existing, hfm, hkey, hidx, hexisting, (MdEditResult.ok.inj h).symm⟩

theorem setItem_ok {host : Host} {ast edited : MdAst} {path : OcPath} {newValue : Utf16}
    {names : ItemNames} (hfm : path.sectionSlot ≠ some FRONTMATTER)
    (hsection : path.sectionSlot = some names.sectionName) (hitem : path.item = some names.item)
    (hfield : path.field = some names.field)
    (h : setItem host ast names.sectionName names.item names.field newValue = .ok edited) :
    ∃ t block item kv, ItemEdit host ast path newValue edited names t block item kv := by
  unfold setItem at h
  cases hb : ast.blocks.findIdx? fun b => b.slug = host.toLowerCase names.sectionName with
  | none =>
    rw [hb] at h
    cases h
  | some b =>
    rw [hb] at h
    dsimp only at h
    cases hblock : ast.blocks[b]? with
    | none =>
      rw [hblock] at h
      cases h
    | some block =>
      rw [hblock] at h
      dsimp only at h
      cases hi : block.items.findIdx? fun i => i.slug = host.toLowerCase names.item with
      | none =>
        rw [hi] at h
        cases h
      | some i =>
        rw [hi] at h
        dsimp only at h
        cases hitemAt : block.items[i]? with
        | none =>
          rw [hitemAt] at h
          cases h
        | some item =>
          rw [hitemAt] at h
          dsimp only at h
          cases hkv : item.kv with
          | none =>
            rw [hkv] at h
            cases h
          | some kv =>
            rw [hkv] at h
            dsimp only at h
            split at h
            · cases h
            · rename_i hkey
              exact ⟨(b, i), block, item, kv, hfm, hsection, hitem, hfield, hb, hblock, hi,
                hitemAt, hkv, not_not.mp hkey, (MdEditResult.ok.inj h).symm⟩

/-- Every edit is one of an entry or one of an item. -/
theorem setMdOcPath_ok {host : Host} {ast edited : MdAst} {path : OcPath} {newValue : Utf16}
    (h : setMdOcPath host ast path newValue = .ok (.ok edited)) :
    (∃ key idx existing, FrontmatterEdit ast path newValue edited key idx existing) ∨
      ∃ names t block item kv, ItemEdit host ast path newValue edited names t block item kv := by
  unfold setMdOcPath at h
  obtain ⟨ocPath, -, h⟩ := Results.bind_eq_ok.mp h
  obtain ⟨-, -, h⟩ := Results.bind_eq_ok.mp h
  split at h
  · rename_i hfm
    exact .inl (setFrontmatter_ok hfm (Except.ok.inj h))
  · rename_i hfm
    right
    split at h
    · rename_i sectionName item field hsection hitem hfield
      have hset : setItem host ast sectionName item field newValue = .ok edited := Except.ok.inj h
      obtain ⟨t, block, found, kv, hedit⟩ := @setItem_ok host ast edited path newValue
        ⟨sectionName, item, field⟩ hfm hsection hitem hfield hset
      exact ⟨_, t, block, found, kv, hedit⟩
    · cases Except.ok.inj h

/-- The frontmatter with a new value in one of its entries. -/
def withEntry (ast : MdAst) (idx : ℕ) (existing : FrontmatterEntry) (newValue : Utf16) : MdAst :=
  { ast with frontmatter := ast.frontmatter.set idx { existing with value := newValue } }

theorem entriesKept_withEntry {ast : MdAst} {idx : ℕ} {existing : FrontmatterEntry}
    {newValue : Utf16} (h : ast.frontmatter[idx]? = some existing) :
    EntriesKept (withEntry ast idx existing newValue).frontmatter ↔
      (∀ i e, ast.frontmatter[i]? = some e → e.line = i + 2 ∧ (i ≠ idx → Survives e.value)) ∧
        Survives newValue := by
  have hlt : idx < ast.frontmatter.length := (List.getElem?_eq_some_iff.mp h).1
  have hset (i : ℕ) : (withEntry ast idx existing newValue).frontmatter[i]? =
      if i = idx then some { existing with value := newValue } else ast.frontmatter[i]? := by
    show (ast.frontmatter.set idx _)[i]? = _
    by_cases hi : i = idx
    · rw [if_pos hi, hi, List.getElem?_set_self hlt]
    · rw [if_neg hi, List.getElem?_set_ne (Ne.symm hi)]
  unfold EntriesKept
  constructor
  · intro hkept
    have hidx := hkept idx { existing with value := newValue } (by rw [hset, if_pos rfl])
    refine ⟨?_, hidx.2⟩
    intro i e he
    by_cases hi : i = idx
    · subst hi
      obtain rfl := Option.some.inj (h.symm.trans he)
      exact ⟨hidx.1, fun hne => absurd rfl hne⟩
    · obtain ⟨hline, hsurvives⟩ := hkept i e (by rw [hset, if_neg hi, he])
      exact ⟨hline, fun _ => hsurvives⟩
  · rintro ⟨hall, hnew⟩ i e he
    rw [hset] at he
    by_cases hi : i = idx
    · rw [if_pos hi] at he
      obtain rfl := Option.some.inj he
      subst hi
      exact ⟨(hall i existing h).1, hnew⟩
    · rw [if_neg hi] at he
      obtain ⟨hline, hsurvives⟩ := hall i e he
      exact ⟨hline, hsurvives hi⟩

theorem find?_set_key {frontmatter : List FrontmatterEntry} {key newValue : Utf16} {idx : ℕ}
    {existing : FrontmatterEntry} (h : frontmatter[idx]? = some existing)
    (hfound : (frontmatter.findIdx? fun e => e.key = key) = some idx) :
    ((frontmatter.set idx { existing with value := newValue }).find? fun e => e.key = key) =
      some { existing with value := newValue } := by
  obtain ⟨hlt, hget⟩ := List.getElem?_eq_some_iff.mp h
  obtain ⟨hidx, hkey, hbefore⟩ := List.findIdx?_eq_some_iff_getElem.mp hfound
  rw [List.find?_eq_some_iff_getElem]
  refine ⟨by simpa [hget] using hkey, idx, by simpa using hlt, List.getElem_set_self _, ?_⟩
  intro j hj
  rw [List.getElem_set_ne (Nat.ne_of_gt hj)]
  simpa using hbefore j hj

theorem FrontmatterEdit.target {ast edited : MdAst} {path : OcPath} {newValue key : Utf16}
    {idx : ℕ} {existing : FrontmatterEntry}
    (h : FrontmatterEdit ast path newValue edited key idx existing) :
    frontmatterTarget ast path = some idx := by
  unfold frontmatterTarget
  rw [if_pos h.onFrontmatter, h.keyOf]
  exact h.found

theorem FrontmatterEdit.survived_iff {host : Host} {ast edited : MdAst} {path : OcPath}
    {newValue key : Utf16} {idx : ℕ} {existing : FrontmatterEntry}
    (hkeys : ∀ e ∈ ast.frontmatter, IsKey e.key)
    (h : FrontmatterEdit ast path newValue edited key idx existing) :
    Survived host ast edited path newValue ↔ Keeps host ast path newValue := by
  have hkeys' : ∀ e ∈ (withEntry ast idx existing newValue).frontmatter, IsKey e.key := by
    intro e he
    rcases List.mem_or_eq_of_mem_set he with he | rfl
    · exact hkeys e he
    · exact hkeys existing (List.mem_of_getElem? h.existingOf)
  have hne : (withEntry ast idx existing newValue).frontmatter ≠ [] := by
    have hlt : idx < ast.frontmatter.length := (List.getElem?_eq_some_iff.mp h.existingOf).1
    apply List.ne_nil_of_length_pos
    show 0 < (ast.frontmatter.set idx _).length
    rw [List.length_set]
    omega
  have hresult : edited = finalize (withEntry ast idx existing newValue) := h.result
  -- Of the entries the block walk reads only how many there are.
  have hblocks : rereadBlocks host (withEntry ast idx existing newValue) =
      rereadBlocks host ast := by
    unfold rereadBlocks
    show (walkBlocks host _ _ ((ast.frontmatter.set idx _).length + 3)).2 = _
    rw [List.length_set]
    rfl
  have hkeeps : Keeps host ast path newValue ↔
      Rereads host (withEntry ast idx existing newValue) := by
    unfold Keeps Rereads
    rw [h.target, if_neg hne, entriesKept_withEntry h.existingOf, hblocks, and_assoc]
    rfl
  rw [hkeeps, rereads_iff host hkeys', hresult]
  constructor
  · intro hsurvived
    exact ⟨hsurvived.frontmatter, hsurvived.blocks⟩
  · rintro ⟨hfrontmatter, hsame⟩
    refine ⟨?_, ?_, ?_, ?_, hfrontmatter, hsame⟩
    · -- The edited entry is the first of its key: the one the resolver finds.
      have hfind : ((withEntry ast idx existing newValue).frontmatter.find?
          fun e => e.key = key) = some { existing with value := newValue } :=
        find?_set_key h.existingOf h.found
      unfold resolvedText resolveMdOcPath
      rw [if_pos h.onFrontmatter, h.keyOf, hfrontmatter]
      dsimp only
      rw [hfind]
      rfl
    · intro i hi
      rw [h.target] at hi
      rw [hfrontmatter]
      show ((ast.frontmatter.set idx _)[i]?).map _ = _
      rw [List.getElem?_set_ne (by rintro rfl; exact hi rfl)]
    · rw [hsame]
      rfl
    · intro t _
      rw [hsame]
      rfl

theorem mem_replaceRuns {p : CodeUnit → Bool} {d c : CodeUnit} {inRun : Bool} {s : Utf16}
    (h : c ∈ replaceRuns p d inRun s) : c = d ∨ c ∈ s ∧ p c = false := by
  induction s generalizing inRun with
  | nil => cases h
  | cons b s ih =>
    have hrest {inRun : Bool} (h : c ∈ replaceRuns p d inRun s) :
        c = d ∨ c ∈ b :: s ∧ p c = false := by
      rcases ih h with rfl | ⟨hmem, hp⟩
      · exact .inl rfl
      · exact .inr ⟨List.mem_cons_of_mem b hmem, hp⟩
    unfold replaceRuns at h
    split at h
    · split at h
      · exact hrest h
      · rcases List.mem_cons.mp h with rfl | h
        · exact .inl rfl
        · exact hrest h
    · rename_i hb
      rcases List.mem_cons.mp h with rfl | h
      · exact .inr ⟨List.mem_cons_self, by simpa using hb⟩
      · exact hrest h

theorem isSlugUnit_slugify (host : Host) {text : Utf16} {c : CodeUnit}
    (h : c ∈ slugify host text) : isSlugUnit c = true := by
  unfold slugify at h
  have h := (List.dropWhile_suffix _).subset ((List.rdropWhile_prefix _ _).subset h)
  rcases mem_replaceRuns h with rfl | ⟨h, -⟩
  · rfl
  · rcases mem_replaceRuns h with rfl | ⟨-, h⟩
    · rfl
    · simpa using h

theorem isPlain_of_span {s : Utf16} {ds : List ℕ} (h : Digits.span s = (ds, [])) :
    s.all isPlain = true := by
  induction s generalizing ds with
  | nil => rfl
  | cons c s ih =>
    unfold Digits.span at h
    cases hc : Digits.digitValue c with
    | none =>
      rw [hc] at h
      cases (Prod.mk.inj h).2
    | some d =>
      rw [hc] at h
      have hrest : Digits.span s = ((Digits.span s).1, []) := Prod.ext rfl (Prod.mk.inj h).2
      rw [List.all_cons, ih hrest, Bool.and_true]
      unfold Digits.digitValue at hc
      split at hc
      · unfold isPlain
        simp only [Bool.and_eq_true, decide_eq_true_eq, Bool.not_eq_true', Bool.and_eq_false_iff,
          decide_eq_false_iff_not]
        omega
      · cases hc

/-- What is an ordinal or a position is no slug. -/
theorem findItem_slug {host : Host} {block : AstBlock} {itemName text : Utf16}
    (h : slugify host text = host.toLowerCase itemName) : findItem host block itemName =
      block.items.find? fun i => i.slug = host.toLowerCase itemName := by
  have hplain (hall : itemName.all isPlain = true) : ∀ c ∈ itemName, isSlugUnit c = true := by
    intro c hc
    rw [host.toLowerCase_plain itemName hall] at h
    exact isSlugUnit_slugify host (h ▸ hc)
  have hordinal : parseOrdinalSeg itemName = none := by
    cases hseg : parseOrdinalSeg itemName with
    | none => rfl
    | some n =>
      exfalso
      cases itemName with
      | nil => cases hseg
      | cons c digits =>
        unfold parseOrdinalSeg at hseg
        dsimp only at hseg
        split at hseg
        · rename_i hc
          split at hseg
          · rename_i d ds hspan
            have hall : (c :: digits).all isPlain = true := by
              rw [List.all_cons, isPlain_of_span hspan, hc]
              rfl
            have := hplain hall c List.mem_cons_self
            rw [hc] at this
            exact absurd this (by decide)
          · cases hseg
        · cases hseg
  have hpositional : isPositionalSeg itemName = false := by
    cases hseg : isPositionalSeg itemName with
    | false => rfl
    | true =>
      exfalso
      unfold isPositionalSeg at hseg
      simp only [Bool.or_eq_true, decide_eq_true_eq] at hseg
      rcases hseg with rfl | rfl
      · exact absurd (hplain (by decide) (unit '$') (by decide)) (by decide)
      · exact absurd (hplain (by decide) (unit '$') (by decide)) (by decide)
  unfold findItem
  rw [hordinal, hpositional]
  rfl

theorem rebuildBlockBody_self (body : Utf16) (items : List AstItem) :
    rebuildBlockBody body items items = body := by
  induction items with
  | nil => rfl
  | cons item items ih =>
    unfold rebuildBlockBody
    cases item.kv with
    | none => exact ih
    | some kv =>
      dsimp only
      rw [if_pos rfl, ih]

theorem editedBlock_self {block : AstBlock} {i : ℕ} {item : AstItem} {kv : KeyValue}
    (h : block.items[i]? = some item) (hkv : item.kv = some kv) :
    editedBlock block i item kv kv.value = block := by
  obtain ⟨hlt, hget⟩ := List.getElem?_eq_some_iff.mp h
  have hitem : ({ item with kv := some ⟨kv.key, kv.value⟩ } : AstItem) = item := by
    cases item
    exact congrArg _ hkv.symm
  have hset : block.items.set i { item with kv := some ⟨kv.key, kv.value⟩ } = block.items := by
    rw [hitem, ← hget, List.set_getElem_self]
  unfold editedBlock
  dsimp only
  rw [hset, rebuildBlockBody_self]

theorem find?_of_findIdx? {α : Type} {l : List α} {p : α → Bool} {i : ℕ} {a : α}
    (h : l.findIdx? p = some i) (ha : l[i]? = some a) : l.find? p = some a := by
  rw [List.find?_eq_bind_findIdx?_getElem?, h]
  exact ha

section ItemEdits

variable {host : Host} {ast edited : MdAst} {path : OcPath} {newValue : Utf16} {names : ItemNames}
  {t : ℕ × ℕ} {block : AstBlock} {item : AstItem} {kv : KeyValue}

theorem ItemEdit.frontmatterTarget_eq
    (h : ItemEdit host ast path newValue edited names t block item kv) :
    frontmatterTarget ast path = none := if_neg h.offFrontmatter

theorem ItemEdit.itemTarget_eq
    (h : ItemEdit host ast path newValue edited names t block item kv) :
    itemTarget host ast path = some t := by
  unfold itemTarget
  rw [if_neg h.offFrontmatter, h.sectionIs, h.itemIs]
  simp only [Option.bind_eq_bind, Option.bind_some, h.foundBlock, h.blockAt, h.foundItem]
  rfl

theorem ItemEdit.kvAt_eq (h : ItemEdit host ast path newValue edited names t block item kv) :
    kvAt ast.blocks t = some kv := by
  unfold kvAt itemAt
  rw [h.blockAt, Option.bind_some, h.inBlock, Option.bind_some, h.kvOf]

/-- The item that is returned has the text it had, so it is read from no text unless its value
is the one that it had. -/
theorem ItemEdit.value_eq (h : ItemEdit host ast path newValue edited names t block item kv)
    (hitems : ItemsRead host ast.blocks) {blocks : List AstBlock} (hread : ItemsRead host blocks)
    (hblocks : blocks = edited.blocks) : kv.value = newValue := by
  have hblock : editedBlock block t.2 item kv newValue ∈ blocks := by
    rw [hblocks, h.result]
    have hlt : t.1 < ast.blocks.length := (List.getElem?_eq_some_iff.mp h.blockAt).1
    exact List.mem_set hlt _
  have hnew : ({ item with kv := some ⟨kv.key, newValue⟩ } : AstItem) ∈
      (editedBlock block t.2 item kv newValue).items := by
    have hlt : t.2 < block.items.length := (List.getElem?_eq_some_iff.mp h.inBlock).1
    exact List.mem_set hlt _
  have hold := hitems block (List.mem_of_getElem? h.blockAt) item (List.mem_of_getElem? h.inBlock)
  have hkv : some (⟨kv.key, newValue⟩ : KeyValue) = (itemOf host item.text item.line).kv :=
    congrArg AstItem.kv (hread _ hblock _ hnew)
  rw [← hold, h.kvOf] at hkv
  exact (congrArg KeyValue.value (Option.some.inj hkv)).symm

theorem ItemEdit.edited_eq (h : ItemEdit host ast path newValue edited names t block item kv)
    (hvalue : kv.value = newValue) : edited = finalize ast := by
  obtain ⟨hlt, hget⟩ := List.getElem?_eq_some_iff.mp h.blockAt
  subst hvalue
  rw [h.result, editedBlock_self h.inBlock h.kvOf, ← hget, List.set_getElem_self]

theorem ItemEdit.resolvedText_eq
    (h : ItemEdit host ast path newValue edited names t block item kv)
    (hitems : ItemsRead host ast.blocks) {read : MdAst} (hread : read.blocks = ast.blocks) :
    resolvedText host read path = some kv.value := by
  have hslug : ∃ text, slugify host text = host.toLowerCase names.item := by
    obtain ⟨hidx, hslug, -⟩ := List.findIdx?_eq_some_iff_getElem.mp h.foundItem
    obtain ⟨_, hget⟩ := List.getElem?_eq_some_iff.mp h.inBlock
    have hold := hitems block (List.mem_of_getElem? h.blockAt) item
      (List.mem_of_getElem? h.inBlock)
    rw [hget, hold] at hslug
    exact ⟨_, of_decide_eq_true hslug⟩
  obtain ⟨text, hslug⟩ := hslug
  unfold resolvedText resolveMdOcPath
  rw [if_neg h.offFrontmatter, h.sectionIs]
  dsimp only
  rw [hread, find?_of_findIdx? h.foundBlock h.blockAt, h.itemIs]
  dsimp only
  rw [findItem_slug hslug, find?_of_findIdx? h.foundItem h.inBlock, h.fieldIs]
  dsimp only
  rw [h.kvOf]
  dsimp only
  rw [if_pos h.sameField]

theorem ItemEdit.survived_iff (hkeys : ∀ e ∈ ast.frontmatter, IsKey e.key)
    (hitems : ItemsRead host ast.blocks)
    (h : ItemEdit host ast path newValue edited names t block item kv) :
    Survived host ast edited path newValue ↔ Keeps host ast path newValue := by
  unfold Keeps
  rw [h.frontmatterTarget_eq, h.itemTarget_eq, Option.bind_some, h.kvAt_eq, rereads_iff host hkeys]
  constructor
  · intro hsurvived
    have hvalue := h.value_eq hitems (itemsRead_parseMd host edited.raw) hsurvived.blocks
    have hfrontmatter := hsurvived.frontmatter
    have hblocks := hsurvived.blocks
    rw [h.edited_eq hvalue] at hfrontmatter hblocks
    exact ⟨⟨hfrontmatter, hblocks⟩, congrArg some hvalue⟩
  · rintro ⟨⟨hfrontmatter, hblocks⟩, hvalue⟩
    have hvalue : kv.value = newValue := Option.some.inj hvalue
    rw [h.edited_eq hvalue]
    refine ⟨?_, ?_, ?_, ?_, hfrontmatter, hblocks⟩
    · rw [← hvalue]
      exact h.resolvedText_eq hitems hblocks
    · intro i _
      rw [hfrontmatter]
    · rw [hblocks]
    · intro t _
      rw [hblocks]

end ItemEdits

/-- The text of an edit is read as the edited document in exactly these cases. -/
theorem setMdOcPath_survives (host : Host) (raw newValue : Utf16) (path : OcPath) (edited : MdAst)
    (h : setMdOcPath host (parseMd host raw).ast path newValue = .ok (.ok edited)) :
    Survived host (parseMd host raw).ast edited path newValue ↔
      Keeps host (parseMd host raw).ast path newValue := by
  have hkeys := isKey_parseMd host raw
  rcases setMdOcPath_ok h with ⟨key, idx, existing, hedit⟩ | ⟨names, t, block, item, kv, hedit⟩
  · exact hedit.survived_iff hkeys
  · exact hedit.survived_iff hkeys (itemsRead_parseMd host raw)

/-- A host without blocks, whose lower case leaves a text as it is. -/
def plainHost : Host := ⟨fun _ => [], id, fun _ _ => rfl⟩

def sampleRaw : Utf16 := ofString "---\nx: a\n---\n"

def samplePath : OcPath :=
  ⟨ofString "note.md", some FRONTMATTER, some (ofString "x"), none, none⟩

def sampleEdited (value : Utf16) : MdAst :=
  finalize { (parseMd plainHost sampleRaw).ast with
    frontmatter := [⟨ofString "x", value, 2⟩] }

theorem sample_sets {value : Utf16} (h : ¬ REDACTED_SENTINEL <:+: value) :
    setMdOcPath plainHost (parseMd plainHost sampleRaw).ast samplePath value =
      .ok (.ok (sampleEdited value)) := by
  have hformat : formatOcPath samplePath = .ok (ofString "oc://note.md/[frontmatter]/x") := rfl
  unfold setMdOcPath
  rw [hformat]
  show (guardSentinel value _ >>= _) = _
  unfold guardSentinel
  rw [if_neg h]
  rfl

theorem setMdOcPath_survives_sample : Survived plainHost (parseMd plainHost sampleRaw).ast
    (sampleEdited (ofString "b c")) samplePath (ofString "b c") := by
  apply (setMdOcPath_survives plainHost sampleRaw (ofString "b c") samplePath _
    (sample_sets (by decide +kernel))).mpr
  show (∀ i e, ([⟨ofString "x", ofString "a", 2⟩] : List FrontmatterEntry)[i]? = some e →
    e.line = i + 2 ∧ (i ≠ 0 → Survives e.value)) ∧ Survives (ofString "b c") ∧ _
  refine ⟨?_, by decide, rfl⟩
  intro i e he
  cases i with
  | zero =>
    obtain rfl := Option.some.inj he
    exact ⟨rfl, fun hne => absurd rfl hne⟩
  | succ i => cases he

/-- A value with quotes and a colon is written with escapes, which the reader leaves in it. -/
theorem setMdOcPath_rereads_escapes :
    setMdOcPath plainHost (parseMd plainHost sampleRaw).ast samplePath (ofString "a \"b\": c") =
        .ok (.ok (sampleEdited (ofString "a \"b\": c"))) ∧
      (∀ c ∈ ofString "a \"b\": c", c ≠ LF ∧ c ≠ CR) ∧
      resolvedText plainHost
          (parseMd plainHost (sampleEdited (ofString "a \"b\": c")).raw).ast samplePath =
        some (ofString "a \\\"b\\\": c") ∧
      ¬ Survived plainHost (parseMd plainHost sampleRaw).ast
          (sampleEdited (ofString "a \"b\": c")) samplePath (ofString "a \"b\": c") := by
  have hread : resolvedText plainHost
      (parseMd plainHost (sampleEdited (ofString "a \"b\": c")).raw).ast samplePath =
        some (ofString "a \\\"b\\\": c") := by
    decide +kernel
  refine ⟨sample_sets (by decide +kernel), ?_, hread, ?_⟩
  · have hall : (ofString "a \"b\": c").all (fun c => c ≠ LF && c ≠ CR) = true := by decide
    intro c hc
    simpa using List.all_eq_true.mp hall c hc
  · intro hsurvived
    have hsame := hread.symm.trans hsurvived.resolves
    exact absurd hsame (by decide)

end Markdown
