import Flashclaw.Lib.Json
import Flashclaw.OcPath.Markdown

/-!
# Edits of Markdown documents

`setMdOcPath` of `edit.ts`: the new entry or item, the substitution in the text of
its block, and the text that is put together again.
-/

open Utf16

namespace Markdown

open OcPath Jsonl

/-- A bullet line up to its value: `\s*-\s*KEY\s*:\s*`, and what follows it. -/
def bulletMatch (key s : Utf16) : Option (Utf16 × Utf16) :=
  let skip (s : Utf16) : Utf16 × Utf16 := (s.takeWhile isWhiteSpace, s.dropWhile isWhiteSpace)
  match (skip s).2 with
  | c :: afterDash =>
    if c = unit '-' then
      let afterBlanks := (skip afterDash).2
      if key.isPrefixOf afterBlanks then
        match (skip (afterBlanks.drop key.length)).2 with
        | d :: afterColon =>
          if d = unit ':' then
            let rest := (skip afterColon).2
            some (s.take (s.length - rest.length), rest)
          else none
        | [] => none
      else none
    else none
  | [] => none

/-- A match of `^(\s*-\s*KEY\s*:\s*).*$` with the flag `m`: before it, its group, the rest of the
line, behind it. -/
structure BulletLine where
  before : Utf16
  group : Utf16
  matched : Utf16
  after : Utf16

def findBullet (key before : Utf16) (atStart : Bool) : Utf16 → Option BulletLine
  | [] => none
  | c :: s =>
    match if atStart then bulletMatch key (c :: s) else none with
    | some (group, rest) =>
      let line := rest.takeWhile fun d => !isLineTerminator d
      some ⟨before, group, group ++ line, rest.drop line.length⟩
    | none => findBullet key (before ++ [c]) (isLineTerminator c) s

/-- `GetSubstitution` for one group: what a replacement text stands for. -/
def substitute (m : BulletLine) : Utf16 → Utf16
  | c :: d :: rest =>
    if c = unit '$' then
      if d = unit '$' then unit '$' :: substitute m rest
      else if d = unit '&' then m.matched ++ substitute m rest
      else if d = unit '\u0060' then m.before ++ substitute m rest
      else if d = unit '\'' then m.after ++ substitute m rest
      else if d = unit '1' then m.group ++ substitute m rest
      else
        match rest with
        | e :: rest =>
          if d = unit '0' ∧ e = unit '1' then m.group ++ substitute m rest
          else c :: substitute m (d :: e :: rest)
        | [] => [c, d]
    else c :: substitute m (d :: rest)
  | s => s

/-- `body.replace(re, "$1" + value)`. -/
def replaceBullet (body key value : Utf16) : Utf16 :=
  match findBullet key [] true body with
  | none => body
  | some m => m.before ++ substitute m (ofString "$1" ++ value) ++ m.after

/-- The body, changed for every item whose value has changed. -/
def rebuildBlockBody (body : Utf16) : List AstItem → List AstItem → Utf16
  | newItem :: newItems, oldItem :: oldItems =>
    match newItem.kv, oldItem.kv with
    | some newKv, some oldKv =>
      if newKv.value = oldKv.value then rebuildBlockBody body newItems oldItems
      else rebuildBlockBody (replaceBullet body oldKv.key newKv.value) newItems oldItems
    | _, _ => rebuildBlockBody body newItems oldItems
  | _, _ => body

/-- The characters for which a frontmatter value is quoted. -/
def isStructural (c : CodeUnit) : Bool := c ∈ ofString ":#&*?|<>=!%@\u0060,[]\x7b\x7d\r\n"

def formatFrontmatterValue (value : Utf16) : Utf16 :=
  if value.length = 0 then ofString "\"\""
  else if value.any isStructural then Json.quote value
  else value

def entryLine (entry : FrontmatterEntry) : Utf16 :=
  entry.key ++ ofString ": " ++ formatFrontmatterValue entry.value

def frontmatterParts (frontmatter : List FrontmatterEntry) : List Utf16 :=
  if frontmatter = [] then [] else FENCE :: (frontmatter.map entryLine ++ [FENCE])

/-- An empty line, unless nothing stands before. -/
def separator (started : Bool) : List Utf16 := if started then [[]] else []

def blockParts (started : Bool) : List AstBlock → List Utf16
  | [] => []
  | block :: blocks =>
    separator started ++ (ofString "## " ++ block.heading) ::
      ((if block.bodyText = [] then [] else [block.bodyText]) ++ blockParts true blocks)

def bodyParts (started : Bool) (ast : MdAst) : List Utf16 :=
  if ast.preamble = [] then blockParts started ast.blocks
  else separator started ++ ast.preamble :: blockParts true ast.blocks

/-- `finalize`: the text of the document. -/
def finalize (ast : MdAst) : MdAst :=
  let parts := frontmatterParts ast.frontmatter ++ bodyParts (ast.frontmatter ≠ []) ast
  { ast with raw := joinLf parts }

inductive EditFailure where
  | unresolved
  | notWritable
  | noItemKv
deriving DecidableEq

inductive MdEditResult where
  | ok (ast : MdAst)
  | failed (reason : EditFailure)
deriving DecidableEq

variable (host : Host)

def setFrontmatter (ast : MdAst) (path : OcPath) (newValue : Utf16) : MdEditResult :=
  match path.item <|> path.field with
  | none => .failed .unresolved
  | some key =>
    match ast.frontmatter.findIdx? fun e => e.key = key with
    | none => .failed .unresolved
    | some idx =>
      match ast.frontmatter[idx]? with
      | none => .failed .unresolved
      | some existing =>
        .ok (finalize { ast with
          frontmatter := ast.frontmatter.set idx { existing with value := newValue } })

def setItem (ast : MdAst) (sectionName itemName field newValue : Utf16) : MdEditResult :=
  match ast.blocks.findIdx? fun b => b.slug = host.toLowerCase sectionName with
  | none => .failed .unresolved
  | some blockIdx =>
    match ast.blocks[blockIdx]? with
    | none => .failed .unresolved
    | some block =>
      match block.items.findIdx? fun i => i.slug = host.toLowerCase itemName with
      | none => .failed .unresolved
      | some itemIdx =>
        match block.items[itemIdx]? with
        | none => .failed .unresolved
        | some item =>
          match item.kv with
          | none => .failed .noItemKv
          | some kv =>
            if host.toLowerCase kv.key ≠ host.toLowerCase field then .failed .unresolved
            else
              let newItems := block.items.set itemIdx { item with kv := some ⟨kv.key, newValue⟩ }
              let newBlock := { block with
                items := newItems
                bodyText := rebuildBlockBody block.bodyText newItems block.items }
              .ok (finalize { ast with blocks := ast.blocks.set blockIdx newBlock })

def setMdOcPath (ast : MdAst) (path : OcPath) (newValue : Utf16) : Except Thrown MdEditResult := do
  let ocPath ← formatOcPath path
  guardSentinel newValue ocPath
  if path.sectionSlot = some FRONTMATTER then
    return setFrontmatter ast path newValue
  match path.sectionSlot, path.item, path.field with
  | some sectionName, some item, some field =>
    return setItem host ast sectionName item field newValue
  | _, _, _ => return .failed .notWritable

end Markdown
