import Flashclaw.Board.Layout
import Flashclaw.Lib.JsString
import Flashclaw.Lib.Results
import Mathlib.Data.List.Dedup

/-!
# Boards: widget declarations

`boards/board-capabilities.ts`, and of `agents/sandbox-host.ts` what it calls:
`normalizeSandboxHostCsp` on a policy with connect domains only.  `new URL` is
a parameter, `none` where it throws.
-/

namespace Flashclaw.Board

/-- A parsed URL. -/
structure Url where
  protocol : String
  username : String
  password : String
  hostname : String
  pathname : String
  search : String
  hash : String
  origin : String
deriving DecidableEq

def isHexDigit (c : Char) : Bool :=
  ('0' ≤ c && c ≤ '9') || ('A' ≤ c && c ≤ 'F') || ('a' ≤ c && c ≤ 'f')

/-- `/^\[[0-9A-Fa-f:.]+\]$/u`. -/
def isBracketedHost (hostname : String) : Bool :=
  match hostname.toList with
  | '[' :: cs =>
    match cs.reverse with
    | ']' :: inner => inner ≠ [] && inner.all fun c => isHexDigit c || c = ':' || c = '.'
    | _ => false
  | _ => false

/-- `/^[A-Za-z0-9.-]+$/u` on characters. -/
def isDomainHost (cs : List Char) : Bool :=
  cs ≠ [] && cs.all fun c =>
    ('A' ≤ c && c ≤ 'Z') || ('a' ≤ c && c ≤ 'z') || ('0' ≤ c && c ≤ '9') || c = '.' || c = '-'

def hasControlCharacter (value : String) : Bool :=
  value.toList.any fun c => c.toNat ≤ 31 || c.toNat = 127

def boardWidgetToolMaxLength : ℕ := "cron.trigger:".length + 256

def maxDeclaredOrigins : ℕ := 32

def maxDeclaredTools : ℕ := 64

def invalidDeclaration {α : Type} (message : String) : Except BoardValidationError α :=
  .error ⟨.invalidOperation, message⟩

variable (parseUrl : String → Option Url)

def normalizeBoardNetOrigin (value : String) : Except BoardValidationError String :=
  if value ≠ JsString.trim value ∨ JsString.length value = 0 ∨ JsString.length value > 2048 then
    invalidDeclaration ("invalid board widget network origin: " ++ value)
  else
    match parseUrl value with
    | none => invalidDeclaration ("invalid board widget network origin: " ++ value)
    | some parsed =>
      let supportedHostname :=
        isBracketedHost parsed.hostname || isDomainHost parsed.hostname.toList
      if parsed.protocol ≠ "https:" ∨ parsed.username ≠ "" ∨ parsed.password ≠ "" ∨
          parsed.pathname ≠ "/" ∨ parsed.search ≠ "" ∨ parsed.hash ≠ "" ∨ ¬ supportedHostname ∨
          '*' ∈ parsed.hostname.toList ∨ parsed.hostname.toList.getLast? = some '.' then
        invalidDeclaration ("board widget network origin must be an exact HTTPS origin: " ++ value)
      else .ok parsed.origin

def normalizeTool (value : String) : Except BoardValidationError String :=
  let tool := JsString.trim value
  if JsString.length tool = 0 ∨ JsString.length tool > boardWidgetToolMaxLength ∨ tool ≠ value ∨
      hasControlCharacter tool then
    invalidDeclaration ("invalid board widget tool capability: " ++ value)
  else .ok tool

/-- The entries `normalizeDomains` keeps, web sockets allowed. -/
def isAllowedDomain (entry : String) : Bool :=
  if JsString.length entry = 0 ∨ JsString.length entry > 2048 ∨ entry ≠ JsString.trim entry ∨
      hasControlCharacter entry then false
  else
    match parseUrl entry with
    | none => false
    | some parsed =>
      parsed.protocol ∈ ["http:", "https:", "ws:", "wss:"] && parsed.username = "" &&
        parsed.password = "" && parsed.pathname = "/" && parsed.search = "" && parsed.hash = "" &&
        (isBracketedHost parsed.hostname ||
          match parsed.hostname.toList with
          | '*' :: '.' :: cs => isDomainHost cs
          | cs => isDomainHost cs)

def normalizeDomains (value : List String) : Option (List String) :=
  match (value.filter (isAllowedDomain parseUrl)).filterMap fun entry =>
      (parseUrl entry).map (·.origin) with
  | [] => none
  | entries => some entries

/-- `JSON.stringify` of a policy with these connect domains only. -/
def stringifyCsp (connectDomains : List String) : String :=
  "\x7b\"connectDomains\":[" ++ JsString.join "," (connectDomains.map JsString.quote) ++ "]\x7d"

/-- The policy header for these connect domains and no others. -/
def buildSandboxHostContentSecurityPolicy (connectDomains : List String) : String :=
  JsString.join "; "
    ["default-src 'none'", "script-src 'self' 'unsafe-inline'", "style-src 'self' 'unsafe-inline'",
      "img-src 'self' data:", "media-src 'self' data:", "font-src 'self'",
      "connect-src " ++ JsString.join " " connectDomains, "webrtc 'block'", "frame-src 'none'",
      "base-uri 'self'", "object-src 'none'", "form-action 'none'", "frame-ancestors http: https:"]

/-- The connect domains of the normalized policy, `none` for no policy; an error where it throws. -/
def normalizeSandboxHostCsp (connectDomains : List String) : Except Unit (Option (List String)) :=
  match normalizeDomains parseUrl connectDomains with
  | none => .ok none
  | some domains =>
    if (stringifyCsp domains).utf8ByteSize > 5 * 1024 ∨
        (buildSandboxHostContentSecurityPolicy domains).utf8ByteSize > 6 * 1024 then .error ()
    else .ok (some domains)

/-- The declaration of these origins and tools, empty lists left out. -/
def compactDeclared (netOrigins tools : List String) : BoardWidgetDeclared where
  netOrigins := if netOrigins = [] then none else some netOrigins
  tools := if tools = [] then none else some tools

def normalizeBoardWidgetDeclared :
    Option BoardWidgetDeclared → Except BoardValidationError (Option BoardWidgetDeclared)
  | none => .ok none
  | some declared => do
    if (declared.netOrigins.getD []).length > maxDeclaredOrigins then
      invalidDeclaration "board widget cannot declare more than 32 network origins"
    else if (declared.tools.getD []).length > maxDeclaredTools then
      invalidDeclaration "board widget cannot declare more than 64 tools"
    else
      let origins ← (declared.netOrigins.getD []).mapM (normalizeBoardNetOrigin parseUrl)
      let netOrigins := JsString.toSorted origins.dedup
      let tools := JsString.toSorted (← (declared.tools.getD []).mapM normalizeTool).dedup
      match normalizeSandboxHostCsp parseUrl netOrigins with
      | .error () => invalidDeclaration "board widget network origins exceed safe CSP limits"
      | .ok sandboxOrigins =>
        if netOrigins ≠ [] ∧ sandboxOrigins ≠ some netOrigins then
          invalidDeclaration "board widget network origin is not supported by the sandbox host"
        else if netOrigins = [] ∧ tools = [] then return none
        else return some (compactDeclared netOrigins tools)

/-- The origins and tools of a declaration, none where it is absent. -/
def origins (declared : Option BoardWidgetDeclared) : List String :=
  (declared.bind (·.netOrigins)).getD []

def tools (declared : Option BoardWidgetDeclared) : List String :=
  (declared.bind (·.tools)).getD []

def boardDeclarationIsSubset (requested granted : Option BoardWidgetDeclared) : Bool :=
  (origins requested).all (· ∈ origins granted) && (tools requested).all (· ∈ tools granted)

section Normalize

open Results

variable {parseUrl : String → Option Url}

theorem normalizeBoardNetOrigin_eq_ok {value origin : String}
    (h : normalizeBoardNetOrigin parseUrl value = .ok origin) :
    ∃ parsed, parseUrl value = some parsed ∧ parsed.protocol = "https:" ∧
      parsed.origin = origin := by
  unfold normalizeBoardNetOrigin at h
  split_ifs at h
  · cases h
  · split at h
    · cases h
    · rename_i parsed hparsed
      simp only at h
      split_ifs at h with hbad
      · cases h
      · simp only [not_or, ne_eq, not_not] at hbad
        exact ⟨parsed, hparsed, hbad.1, Except.ok.inj h⟩

theorem normalizeTool_eq_ok {value tool : String} (h : normalizeTool value = .ok tool) :
    tool = value := by
  unfold normalizeTool at h
  simp only at h
  split_ifs at h with hbad
  · cases h
  · simp only [not_or, ne_eq, not_not] at hbad
    rw [← Except.ok.inj h]
    exact hbad.2.2.1

/-- A declaration that normalizes, in terms of its normalized origins and tools. -/
theorem normalizeBoardWidgetDeclared_eq_ok {declared normalized : Option BoardWidgetDeclared}
    (h : normalizeBoardWidgetDeclared parseUrl declared = .ok normalized) :
    ∃ os ts, (origins declared).mapM (normalizeBoardNetOrigin parseUrl) = .ok os ∧
      (tools declared).mapM normalizeTool = .ok ts ∧
      normalized = if JsString.toSorted os.dedup = [] ∧ JsString.toSorted ts.dedup = [] then none
        else some (compactDeclared (JsString.toSorted os.dedup) (JsString.toSorted ts.dedup)) := by
  cases declared with
  | none =>
    obtain rfl := Except.ok.inj h
    exact ⟨[], [], rfl, rfl, rfl⟩
  | some declared =>
    unfold normalizeBoardWidgetDeclared at h
    simp only at h
    split_ifs at h
    · cases h
    · cases h
    · obtain ⟨os, hos, h⟩ := bind_eq_ok.mp h
      obtain ⟨ts, hts, h⟩ := bind_eq_ok.mp h
      refine ⟨os, ts, hos, hts, ?_⟩
      split at h
      · cases h
      · rename_i sandboxOrigins _
        by_cases hbad : JsString.toSorted os.dedup ≠ [] ∧
            sandboxOrigins ≠ some (JsString.toSorted os.dedup)
        · rw [if_pos hbad] at h
          cases h
        · rw [if_neg hbad] at h
          split_ifs at h ⊢ <;> exact (Except.ok.inj h).symm

theorem origins_compactDeclared (netOrigins tools : List String) :
    origins (if netOrigins = [] ∧ tools = [] then none else some (compactDeclared netOrigins tools)) =
      netOrigins := by
  by_cases h : netOrigins = []
  · by_cases ht : tools = [] <;> simp [origins, compactDeclared, h, ht]
  · simp [origins, compactDeclared, h]

theorem tools_compactDeclared (netOrigins toolNames : List String) :
    tools (if netOrigins = [] ∧ toolNames = [] then none
      else some (compactDeclared netOrigins toolNames)) = toolNames := by
  by_cases h : toolNames = []
  · by_cases ht : netOrigins = [] <;> simp [tools, compactDeclared, h, ht]
  · simp [tools, compactDeclared, h]

theorem toSorted_dedup_self (l : List String) :
    JsString.toSorted (JsString.toSorted l.dedup).dedup = JsString.toSorted l.dedup := by
  have hn : (JsString.toSorted l.dedup).Nodup :=
    (List.perm_insertionSort JsString.le l.dedup).nodup_iff.mpr l.nodup_dedup
  rw [hn.dedup, JsString.toSorted_toSorted]

/-- An `https:` origin, where it parses, is the origin of what it parses to. -/
def OriginsReparse (parseUrl : String → Option Url) : Prop :=
  ∀ value parsed again, parseUrl value = some parsed → parsed.protocol = "https:" →
    parseUrl parsed.origin = some again → again.origin = parsed.origin

/-- Normalizing a normalized declaration leaves it, where it does not throw. -/
theorem normalizeBoardWidgetDeclared_idem (hurl : OriginsReparse parseUrl)
    {declared once twice : Option BoardWidgetDeclared}
    (h : normalizeBoardWidgetDeclared parseUrl declared = .ok once)
    (h' : normalizeBoardWidgetDeclared parseUrl once = .ok twice) : twice = once := by
  obtain ⟨os, ts, hos, -, rfl⟩ := normalizeBoardWidgetDeclared_eq_ok h
  obtain ⟨os', ts', hos', hts', rfl⟩ := normalizeBoardWidgetDeclared_eq_ok h'
  rw [origins_compactDeclared] at hos'
  rw [tools_compactDeclared] at hts'
  have hos'' : os' = JsString.toSorted os.dedup := by
    refine mapM_eq_ok_self hos' fun o ho o' ho' => ?_
    obtain ⟨value, -, hvalue⟩ :=
      exists_of_mem_mapM hos (List.mem_dedup.mp (JsString.mem_toSorted.mp ho))
    obtain ⟨parsed, hparsed, hprotocol, rfl⟩ := normalizeBoardNetOrigin_eq_ok hvalue
    obtain ⟨again, hagain, -, rfl⟩ := normalizeBoardNetOrigin_eq_ok ho'
    exact hurl value parsed again hparsed hprotocol hagain
  have hts'' : ts' = JsString.toSorted ts.dedup :=
    mapM_eq_ok_self hts' fun t _ t' ht' => normalizeTool_eq_ok ht'
  rw [hos'', hts'', toSorted_dedup_self, toSorted_dedup_self]

/-- Normalization reads the lists of a declaration only. -/
theorem normalizeBoardWidgetDeclared_fields (declared : Option BoardWidgetDeclared) :
    normalizeBoardWidgetDeclared parseUrl
      (some ⟨declared.bind (·.netOrigins), declared.bind (·.tools)⟩) =
        normalizeBoardWidgetDeclared parseUrl declared := by
  cases declared with
  | none => rfl
  | some declared => rfl

/-- The lists of a normalized declaration are not empty. -/
theorem ne_nil_of_normalized {declared normalized : Option BoardWidgetDeclared}
    (h : normalizeBoardWidgetDeclared parseUrl declared = .ok normalized) :
    normalized.bind (·.netOrigins) ≠ some [] ∧ normalized.bind (·.tools) ≠ some [] := by
  obtain ⟨os, ts, -, -, rfl⟩ := normalizeBoardWidgetDeclared_eq_ok h
  split_ifs with hnone
  · simp
  · refine ⟨?_, ?_⟩ <;> simp only [compactDeclared, Option.bind_some] <;> split_ifs with hl <;>
      simp [hl]

end Normalize

end Flashclaw.Board
