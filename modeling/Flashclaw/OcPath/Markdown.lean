import Flashclaw.OcPath.Format
import Flashclaw.OcPath.JsonlText

/-!
# Markdown documents

`parse.ts`, `slug.ts` and `resolve.ts`: frontmatter, the blocks below second-level
headings, and their list items.  The token stream of `markdown-it` and lower case
are given.
-/

open Utf16

namespace Markdown

open OcPath Jsonl

/-- The token types that the parser looks at. -/
inductive TokenType where
  | headingOpen
  | inline
  | listItemOpen
  | listItemClose
  | bulletListOpen
  | bulletListClose
  | orderedListOpen
  | orderedListClose
  | other
deriving DecidableEq

structure Token where
  type : TokenType
  tag : Utf16
  markup : Utf16
  map : Option (ℕ × ℕ)
  content : Utf16

/-- Of ASCII, and no capital letter. -/
def isPlain (c : CodeUnit) : Bool := c.val < 0x80 && !(0x41 ≤ c.val && c.val ≤ 0x5A)

/-- What the parser calls: the tokens of a text, and `toLowerCase` with its Unicode tables. -/
structure Host where
  tokenize : Utf16 → List Token
  toLowerCase : Utf16 → Utf16
  toLowerCase_plain : ∀ s, s.all isPlain = true → toLowerCase s = s

structure FrontmatterEntry where
  key : Utf16
  value : Utf16
  line : ℕ
deriving DecidableEq

structure KeyValue where
  key : Utf16
  value : Utf16
deriving DecidableEq

structure AstItem where
  text : Utf16
  slug : Utf16
  line : ℕ
  kv : Option KeyValue
deriving DecidableEq

structure AstBlock where
  heading : Utf16
  slug : Utf16
  line : ℕ
  bodyText : Utf16
  items : List AstItem
deriving DecidableEq

structure MdAst where
  raw : Utf16
  frontmatter : List FrontmatterEntry
  preamble : Utf16
  blocks : List AstBlock
deriving DecidableEq

def FENCE : Utf16 := ofString "---"

def BOM : CodeUnit := 0xFEFF

/-- `split(/\r?\n/)` behind the byte order mark. -/
def splitLines (raw : Utf16) : List Utf16 :=
  let withoutBom := if raw.head? = some BOM then raw.tail else raw
  (crlfToLf withoutBom).splitOn LF

def joinLf (lines : List Utf16) : Utf16 := joinLines .lf lines

def isKeyStart (c : CodeUnit) : Bool := isLetter c || c = unit '_'

def isKeyUnit (c : CodeUnit) : Bool :=
  isKeyStart c || (0x30 ≤ c.val && c.val ≤ 0x39) || c = unit '-'

def isLineTerminator (c : CodeUnit) : Bool := c.val ∈ [0x0A, 0x0D, 0x2028, 0x2029]

/-- `\s*(.*)$` -/
def restOfLine (s : Utf16) : Option Utf16 :=
  let s := trimStart s
  if s.any isLineTerminator then none else some s

/-- `^([a-zA-Z_][a-zA-Z0-9_-]*)\s*:\s*(.*)$`; no part of it can match in two ways. -/
def entryMatch (line : Utf16) : Option (Utf16 × Utf16) :=
  let key := line.takeWhile isKeyUnit
  if (key.head?.map isKeyStart).getD false then
    match trimStart (line.dropWhile isKeyUnit) with
    | c :: rest => if c = unit ':' then (restOfLine rest).map (key, ·) else none
    | [] => none
  else none

/-- Quotes of one kind around a value. -/
def inQuotes (value : Utf16) : Bool :=
  2 ≤ value.length && value.head? = value.getLast? &&
    (value.head? = some (unit '"') || value.head? = some (unit '\''))

def unquote (value : Utf16) : Utf16 :=
  if inQuotes value then value.tail.dropLast else value

/-- The entry that a line at an offset behind the fence makes. -/
def entryOf (offset : ℕ) (line : Utf16) : Option FrontmatterEntry :=
  (entryMatch line).map fun m => ⟨m.1, unquote (trim m.2), offset + 2⟩

structure FrontmatterRange where
  entries : List FrontmatterEntry
  endLine : ℕ

structure Diagnostic where
  line : ℕ
  message : Utf16
deriving DecidableEq

def unclosed : Diagnostic := ⟨1, ofString "frontmatter opens with --- but never closes"⟩

/-- The lines between the fences. -/
def detectFrontmatter (lines : List Utf16) : Option FrontmatterRange × List Diagnostic :=
  match lines with
  | first :: second :: rest =>
    if first = FENCE then
      match (second :: rest).findIdx? (· = FENCE) with
      | none => (none, [unclosed])
      | some offset =>
        let entries := (((second :: rest).take offset).mapIdx entryOf).filterMap id
        (some ⟨entries, offset + 1⟩, [])
    else (none, [])
  | _ => (none, [])

/-- One unit in place of each run of such units. -/
def replaceRuns (p : CodeUnit → Bool) (d : CodeUnit) : Bool → Utf16 → Utf16
  | _, [] => []
  | inRun, c :: s =>
    if p c then
      if inRun then replaceRuns p d true s else d :: replaceRuns p d true s
    else c :: replaceRuns p d false s

def isSlugUnit (c : CodeUnit) : Bool :=
  (0x61 ≤ c.val && c.val ≤ 0x7A) || (0x30 ≤ c.val && c.val ≤ 0x39) || c = unit '-'

def HYPHEN : CodeUnit := unit '-'

variable (host : Host)

def slugify (text : Utf16) : Utf16 :=
  let lowered := replaceUnit (unit '_') HYPHEN (host.toLowerCase text)
  let slugged := replaceRuns (fun c => !isSlugUnit c) HYPHEN false lowered
  let collapsed := replaceRuns (· = HYPHEN) HYPHEN false slugged
  (collapsed.dropWhile (· = HYPHEN)).rdropWhile (· = HYPHEN)

/-- `(.+)$` behind blanks, the last of which may be all there is. -/
def valueMatch (s : Utf16) : Option Utf16 :=
  match trimStart s with
  | [] =>
    match s.getLast? with
    | some c => if isLineTerminator c then none else some [c]
    | none => none
  | c :: rest => if (c :: rest).any isLineTerminator then none else some (c :: rest)

/-- `KV_RE`, `^([^:]+?)\s*:\s*(.+)$`: the key is the shortest before blanks and the first colon. -/
def kvMatch (text : Utf16) : Option (Utf16 × Utf16) :=
  match text.takeWhile (· ≠ unit ':'), text.dropWhile (· ≠ unit ':') with
  | c :: key, _ :: rest => (valueMatch rest).map (c :: trimEnd key, ·)
  | _, _ => none

/-- The first inline text of an item, lists inside of it left out. -/
def itemText (nestedDepth : ℤ) (text : Utf16) : List Token → Utf16
  | [] => text
  | x :: tokens =>
    match x.type with
    | .listItemClose => if nestedDepth = 0 then text else itemText nestedDepth text tokens
    | .bulletListOpen => itemText (nestedDepth + 1) text tokens
    | .orderedListOpen => itemText (nestedDepth + 1) text tokens
    | .bulletListClose => itemText (nestedDepth - 1) text tokens
    | .orderedListClose => itemText (nestedDepth - 1) text tokens
    | .inline =>
      if nestedDepth = 0 ∧ text = [] then itemText nestedDepth x.content tokens
      else itemText nestedDepth text tokens
    | _ => itemText nestedDepth text tokens

def itemOf (text : Utf16) (line : ℕ) : AstItem where
  text := text
  slug := slugify host (((kvMatch text).map Prod.fst).getD text)
  line := line
  kv := (kvMatch text).map fun m => ⟨trim m.1, trim m.2⟩

def extractItems (bodyFileLine : ℕ) : List Token → List AstItem
  | [] => []
  | t :: tokens =>
    match t.type, t.map with
    | .listItemOpen, some range =>
      itemOf host (itemText 0 [] tokens) (bodyFileLine + range.1) ::
        extractItems bodyFileLine tokens
    | _, _ => extractItems bodyFileLine tokens

structure Heading where
  tokenIdx : ℕ
  lineIdx : ℕ
  text : Utf16

def isHeading (t : Token) : Bool :=
  t.type = .headingOpen && t.tag = ofString "h2" && t.markup = ofString "##"

def headingsOf (tokens : List Token) : List Heading :=
  (tokens.mapIdx fun i t =>
    match t.map with
    | some range =>
      if isHeading t then
        some ⟨i, range.1, ((tokens[i + 1]?).map (·.content)).getD []⟩
      else none
    | none => none).filterMap id

def blocksOf (tokens : List Token) (bodyLines : List Utf16) (bodyFileLine : ℕ) :
    List Heading → List AstBlock
  | [] => []
  | heading :: rest =>
    let next := rest.head?
    let stop := (next.map (·.lineIdx)).getD bodyLines.length
    let tokenEnd := (next.map (·.tokenIdx)).getD tokens.length
    { heading := heading.text
      slug := slugify host heading.text
      line := bodyFileLine + heading.lineIdx
      bodyText := joinLf ((bodyLines.take stop).drop (heading.lineIdx + 1))
      items := extractItems host bodyFileLine ((tokens.take tokenEnd).drop (heading.tokenIdx + 3)) } ::
      blocksOf tokens bodyLines bodyFileLine rest

def walkBlocks (tokens : List Token) (bodyLines : List Utf16) (bodyFileLine : ℕ) :
    Utf16 × List AstBlock :=
  match headingsOf tokens with
  | [] => (joinLf bodyLines, [])
  | first :: rest =>
    (joinLf (bodyLines.take first.lineIdx),
      blocksOf host tokens bodyLines bodyFileLine (first :: rest))

structure ParseResult where
  ast : MdAst
  diagnostics : List Diagnostic

/-- Preamble and blocks of the lines from an index on. -/
def parseBody (lines : List Utf16) (bodyStartIdx : ℕ) : Utf16 × List AstBlock :=
  let bodyLines := lines.drop bodyStartIdx
  walkBlocks host (host.tokenize (joinLf bodyLines)) bodyLines (bodyStartIdx + 1)

def parseMd (raw : Utf16) : ParseResult :=
  let lines := splitLines raw
  let fm := detectFrontmatter lines
  let bodyStartIdx := (fm.1.map fun range => range.endLine + 1).getD 0
  let body := parseBody host lines bodyStartIdx
  ⟨⟨raw, (fm.1.map (·.entries)).getD [], body.1, body.2⟩, fm.2⟩

/-- `^#(\d+)$` -/
def parseOrdinalSeg (seg : Utf16) : Option ℕ :=
  match seg with
  | c :: digits =>
    if c = unit '#' then
      match Digits.span digits with
      | (d :: ds, []) => some (Digits.value (d :: ds))
      | _ => none
    else none
  | [] => none

/-- `OcPathMatch`. -/
inductive OcPathMatch where
  | root (node : MdAst)
  | frontmatter (node : FrontmatterEntry)
  | block (node : AstBlock)
  | item (node : AstItem) (block : AstBlock)
  | itemField (node : AstItem) (block : AstBlock) (value : Utf16)

def FRONTMATTER : Utf16 := ofString "[frontmatter]"

/-- Ordinals come before positions, and positions before slugs. -/
def findItem (block : AstBlock) (item : Utf16) : Option AstItem :=
  match parseOrdinalSeg item with
  | some n => block.items[n]?
  | none =>
    if isPositionalSeg item then
      if block.items.length = 0 then none
      else if item = POS_FIRST then block.items[0]?
      else block.items[block.items.length - 1]?
    else block.items.find? fun i => i.slug = host.toLowerCase item

def resolveMdOcPath (ast : MdAst) (path : OcPath) : Option OcPathMatch :=
  if path.sectionSlot = some FRONTMATTER then
    match path.item <|> path.field with
    | none => none
    | some key => (ast.frontmatter.find? fun e => e.key = key).map .frontmatter
  else
    match path.sectionSlot with
    | none => some (.root ast)
    | some sectionName =>
      match ast.blocks.find? fun b => b.slug = host.toLowerCase sectionName with
      | none => none
      | some block =>
        match path.item with
        | none => some (.block block)
        | some itemName =>
          match findItem host block itemName with
          | none => none
          | some item =>
            match path.field with
            | none => some (.item item block)
            | some field =>
              match item.kv with
              | none => none
              | some kv =>
                if host.toLowerCase kv.key = host.toLowerCase field then
                  some (.itemField item block kv.value)
                else none

end Markdown
