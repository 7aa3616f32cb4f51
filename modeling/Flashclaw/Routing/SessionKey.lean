import Flashclaw.Lib.Lists
import Flashclaw.Lib.Utf16Text

/-!
# Session keys

`src/routing/session-key.ts` and `src/routing/account-id.ts`: ids in their canonical forms, and the
key of the session that a conversation goes to.
-/

namespace Flashclaw.Routing

open Utf16

/-- `toLowerCase` of the language, with its Unicode tables. -/
structure Host where
  toLowerCase : Utf16 → Utf16

inductive ChatType where
  | direct
  | group
  | channel
deriving DecidableEq

def ChatType.name : ChatType → Utf16
  | .direct => ofString "direct"
  | .group => ofString "group"
  | .channel => ofString "channel"

structure RoutePeer where
  kind : ChatType
  id : Utf16
deriving DecidableEq

inductive DmScope where
  | main
  | perPeer
  | perChannelPeer
  | perAccountChannelPeer
deriving DecidableEq

def DEFAULT_AGENT_ID : Utf16 := ofString "main"

def DEFAULT_MAIN_KEY : Utf16 := ofString "main"

def DEFAULT_ACCOUNT_ID : Utf16 := ofString "default"

def COLON : CodeUnit := unit ':'

def DASH : CodeUnit := unit '-'

/-- `a || b` of texts. -/
def orElse (a b : Utf16) : Utf16 := if a = [] then b else a

def between (low high : Char) (c : CodeUnit) : Bool := unit low ≤ c && c ≤ unit high

/-- `[a-z0-9]` -/
def isIdStart (c : CodeUnit) : Bool := between 'a' 'z' c || between '0' '9' c

/-- `[a-z0-9_-]` -/
def isIdUnit (c : CodeUnit) : Bool := isIdStart c || c = unit '_' || c = DASH

/-- `VALID_ID_RE`, which does not look at the case. -/
def isValidId (value : Utf16) : Bool :=
  match value with
  | [] => false
  | c :: rest => (isIdStart c || between 'A' 'Z' c) && rest.length ≤ 63 &&
      rest.all fun d => isIdUnit d || between 'A' 'Z' d

/-- `value.replace(INVALID_CHARS_RE, "-")`: one dash for each run of other units. -/
def dashInvalid (inRun : Bool) : Utf16 → Utf16
  | [] => []
  | c :: rest =>
    if isIdUnit c then c :: dashInvalid false rest
    else if inRun then dashInvalid true rest else DASH :: dashInvalid true rest

def stripDashes (value : Utf16) : Utf16 :=
  (value.dropWhile fun c => c = DASH).rdropWhile fun c => c = DASH

section Ids

variable (host : Host)

/-- `normalizeLowercaseStringOrEmpty` -/
def normalizeToken (value : Utf16) : Utf16 :=
  if trim value = [] then [] else host.toLowerCase (trim value)

/-- What is made of an id that is not valid. -/
def safeId (value : Utf16) : Utf16 :=
  (stripDashes (dashInvalid false (normalizeToken host value))).take 64

def normalizeAgentId (value : Utf16) : Utf16 :=
  let trimmed := trim value
  if trimmed = [] then DEFAULT_AGENT_ID
  else if isValidId trimmed then normalizeToken host trimmed
  else orElse (safeId host trimmed) DEFAULT_AGENT_ID

def canonicalizeAccountId (value : Utf16) : Utf16 :=
  if isValidId value then normalizeToken host value else safeId host value

def isBlockedObjectKey (key : Utf16) : Bool :=
  key = ofString "__proto__" || key = ofString "prototype" || key = ofString "constructor"

def normalizeAccountId (value : Option Utf16) : Utf16 :=
  let trimmed := trim (value.getD [])
  if trimmed = [] then DEFAULT_ACCOUNT_ID
  else
    let canonical := canonicalizeAccountId host trimmed
    if canonical = [] || isBlockedObjectKey canonical then DEFAULT_ACCOUNT_ID else canonical

def normalizeMainKey (value : Option Utf16) : Utf16 :=
  orElse (normalizeToken host (value.getD [])) DEFAULT_MAIN_KEY

structure CasePreservingPeerDescriptor where
  channel : Utf16
  peerKinds : List Utf16

/-- The channels whose ids of peers keep their case. -/
def CASE_PRESERVING_PEERS : List CasePreservingPeerDescriptor :=
  [⟨ofString "signal", [ofString "group"]⟩,
    ⟨ofString "matrix", [ofString "channel", ofString "group"]⟩]

def isCasePreservingPeer (channel peerKind : Utf16) : Bool :=
  CASE_PRESERVING_PEERS.any fun descriptor =>
    descriptor.channel = normalizeToken host (normalizeToken host channel) &&
      normalizeToken host (normalizeToken host peerKind) ∈ descriptor.peerKinds

def normalizeSessionPeerId (channel : Utf16) (peerKind : ChatType) (peerId : Option Utf16) : Utf16 :=
  let trimmed := trim (peerId.getD [])
  if trimmed = [] then []
  else if isCasePreservingPeer host channel peerKind.name then trimmed
  else normalizeToken host trimmed

/-- The name of the identity that an id of a peer is linked to. -/
def resolveLinkedPeerId (identityLinks : Option (List (Utf16 × List Utf16)))
    (channel peerId : Utf16) : Option Utf16 :=
  match identityLinks with
  | none => none
  | some links =>
    let peerId := trim peerId
    if peerId = [] then none
    else
      let channel := normalizeToken host channel
      let scopedCandidate :=
        if channel = [] then [] else normalizeToken host (channel ++ COLON :: peerId)
      let candidates := [normalizeToken host peerId, scopedCandidate].filter (· ≠ [])
      if candidates = [] then none
      else
        (links.find? fun link => trim link.1 ≠ [] && link.2.any fun id =>
          normalizeToken host id ≠ [] && normalizeToken host id ∈ candidates).map
            fun link => trim link.1

/-- Parts of a key with colons between them. -/
def keyOf (parts : List Utf16) : Utf16 := join COLON parts

def buildAgentMainSessionKey (agentId : Utf16) (mainKey : Option Utf16) : Utf16 :=
  keyOf [ofString "agent", normalizeAgentId host agentId, normalizeMainKey host mainKey]

structure PeerKeyParams where
  agentId : Utf16
  mainKey : Option Utf16
  channel : Utf16
  accountId : Option Utf16
  peerKind : ChatType
  peerId : Option Utf16
  identityLinks : Option (List (Utf16 × List Utf16))
  dmScope : Option DmScope

/-- The id that the key of a direct conversation carries. -/
def directPeerId (params : PeerKeyParams) : Utf16 :=
  let peerId := trim (params.peerId.getD [])
  let linkedPeerId :=
    if params.dmScope.getD .main = .main then none
    else resolveLinkedPeerId host params.identityLinks params.channel peerId
  normalizeToken host (orElse (linkedPeerId.getD []) peerId)

def keyChannel (channel : Utf16) : Utf16 := orElse (normalizeToken host channel) (ofString "unknown")

def buildAgentPeerSessionKey (params : PeerKeyParams) : Utf16 :=
  let agentId := normalizeAgentId host params.agentId
  let channel := keyChannel host params.channel
  match params.peerKind with
  | .direct =>
    let peerId := directPeerId host params
    if peerId = [] then buildAgentMainSessionKey host params.agentId params.mainKey
    else
      match params.dmScope.getD .main with
      | .perAccountChannelPeer => keyOf [ofString "agent", agentId, channel,
          normalizeAccountId host params.accountId, ChatType.direct.name, peerId]
      | .perChannelPeer => keyOf [ofString "agent", agentId, channel, ChatType.direct.name, peerId]
      | .perPeer => keyOf [ofString "agent", agentId, ChatType.direct.name, peerId]
      | .main => buildAgentMainSessionKey host params.agentId params.mainKey
  | kind =>
    let peerId := orElse (normalizeSessionPeerId host params.channel kind params.peerId)
      (ofString "unknown")
    keyOf [ofString "agent", agentId, channel, kind.name, peerId]

end Ids

/-- The language lowers the letters of ASCII and leaves its other characters. -/
def Host.LowersAscii (host : Host) : Prop :=
  ∀ s : Utf16, (∀ c ∈ s, c.val < 0x80) → host.toLowerCase s = s.map lowerAscii

section Units

variable {host : Host}

theorem isIdUnit_of_mem_dashInvalid {inRun : Bool} {value : Utf16} :
    ∀ c ∈ dashInvalid inRun value, isIdUnit c = true := by
  induction value generalizing inRun with
  | nil => exact fun _ hc => (List.not_mem_nil hc).elim
  | cons c value ih =>
    rw [dashInvalid]
    split_ifs with hc
    · exact List.forall_mem_cons.mpr ⟨hc, ih⟩
    · exact ih
    · exact List.forall_mem_cons.mpr ⟨by decide, ih⟩

theorem isIdUnit_of_mem_safeId (value : Utf16) : ∀ c ∈ safeId host value, isIdUnit c = true := by
  intro c hmem
  have hstripped : c ∈ stripDashes (dashInvalid false (normalizeToken host value)) :=
    List.mem_of_mem_take hmem
  rw [stripDashes] at hstripped
  have hdropped := (List.rdropWhile_prefix _ _).subset hstripped
  exact isIdUnit_of_mem_dashInvalid c ((List.dropWhile_suffix _).subset hdropped)

theorem between_iff {low high : Char} {c : CodeUnit} : between low high c = true ↔
    (unit low).val ≤ c.val ∧ c.val ≤ (unit high).val := by
  rw [between, Bool.and_eq_true, decide_eq_true_eq, decide_eq_true_eq]
  exact Iff.rfl

theorem val_of_isIdUnit {c : CodeUnit} (h : isIdUnit c = true) : c.val = 0x2D ∨ c.val = 0x5F ∨
    (0x30 ≤ c.val ∧ c.val ≤ 0x39) ∨ (0x61 ≤ c.val ∧ c.val ≤ 0x7A) := by
  rw [isIdUnit, isIdStart, Bool.or_eq_true, Bool.or_eq_true, Bool.or_eq_true, between_iff,
    between_iff, decide_eq_true_eq, decide_eq_true_eq] at h
  rcases h with ((h | h) | rfl) | rfl
  · exact .inr (.inr (.inr h))
  · exact .inr (.inr (.inl h))
  · exact .inr (.inl rfl)
  · exact .inl rfl

/-- The units of a valid id. -/
theorem bounds_of_isValidId {value : Utf16} (h : isValidId value = true) :
    ∀ c ∈ value, isIdUnit c = true ∨ between 'A' 'Z' c = true := by
  cases value with
  | nil => exact fun _ hc => (List.not_mem_nil hc).elim
  | cons c rest =>
    rw [isValidId, Bool.and_eq_true, Bool.and_eq_true, Bool.or_eq_true, List.all_eq_true] at h
    refine List.forall_mem_cons.mpr ⟨h.1.1.imp_left fun hstart => ?_, fun d hd => ?_⟩
    · rw [isIdUnit, hstart]
      rfl
    · exact (Bool.or_eq_true _ _).mp (h.2 d hd)

theorem isIdUnit_lowerAscii {c : CodeUnit}
    (h : isIdUnit c = true ∨ between 'A' 'Z' c = true) : isIdUnit (lowerAscii c) = true := by
  by_cases hupper : unit 'A' ≤ c ∧ c ≤ unit 'Z'
  · rw [lowerAscii, if_pos hupper]
    have hlow : 0x41 ≤ c.val := hupper.1
    have hhigh : c.val ≤ 0x5A := hupper.2
    have hval : (c + 0x20 : CodeUnit).val = c.val + 0x20 := by
      rw [Fin.val_add]
      exact Nat.mod_eq_of_lt (show c.val + 0x20 < 0x10000 by omega)
    have hletter : between 'a' 'z' (c + 0x20) = true := by
      refine between_iff.mpr ⟨?_, ?_⟩
      · show 0x61 ≤ (c + 0x20 : CodeUnit).val
        omega
      · show (c + 0x20 : CodeUnit).val ≤ 0x7A
        omega
    rw [isIdUnit, isIdStart, hletter]
    rfl
  · rw [lowerAscii_of_not hupper]
    exact h.resolve_right fun hbetween => hupper (between_iff.mp hbetween)

theorem isIdUnit_of_mem_normalizeToken (hhost : host.LowersAscii) {value : Utf16}
    (h : isValidId value = true) : ∀ c ∈ normalizeToken host value, isIdUnit c = true := by
  rw [normalizeToken]
  split_ifs
  · exact fun _ hc => (List.not_mem_nil hc).elim
  have hunits : ∀ c ∈ trim value, isIdUnit c = true ∨ between 'A' 'Z' c = true :=
    fun c hc => bounds_of_isValidId h c (mem_of_mem_trim hc)
  have hascii : ∀ c ∈ trim value, c.val < 0x80 := by
    intro c hc
    rcases hunits c hc with hunit | hupper
    · have := val_of_isIdUnit hunit
      omega
    · have hle : c.val ≤ 0x5A := (between_iff.mp hupper).2
      omega
  rw [hhost _ hascii]
  intro c hmem
  obtain ⟨d, hd, rfl⟩ := List.mem_map.mp hmem
  exact isIdUnit_lowerAscii (hunits d hd)

theorem isIdUnit_of_mem_normalizeAgentId (hhost : host.LowersAscii) (value : Utf16) :
    ∀ c ∈ normalizeAgentId host value, isIdUnit c = true := by
  rw [normalizeAgentId]
  split_ifs with hempty hvalid
  · exact List.all_eq_true.mp (by decide)
  · exact isIdUnit_of_mem_normalizeToken hhost hvalid
  · rw [orElse]
    split_ifs
    · exact List.all_eq_true.mp (by decide)
    · exact isIdUnit_of_mem_safeId _

theorem isIdUnit_of_mem_normalizeAccountId (hhost : host.LowersAscii) (value : Option Utf16) :
    ∀ c ∈ normalizeAccountId host value, isIdUnit c = true := by
  rw [normalizeAccountId]
  dsimp only
  split_ifs with hempty
  · exact List.all_eq_true.mp (by decide)
  · exact List.all_eq_true.mp (by decide)
  · rw [canonicalizeAccountId]
    split_ifs with hvalid
    · exact isIdUnit_of_mem_normalizeToken hhost hvalid
    · exact isIdUnit_of_mem_safeId _

/-- A unit that ids do not have. -/
theorem not_mem_of_isIdUnit {value : Utf16} {c : CodeUnit}
    (h : ∀ d ∈ value, isIdUnit d = true) (hc : isIdUnit c = false) : c ∉ value :=
  fun hmem => absurd (h c hmem) (by rw [hc]; exact Bool.false_ne_true)

end Units

/-- What the key of a conversation is made of, in a scope with channels. -/
structure Conversation where
  agentId : Utf16
  channel : Utf16
  accountId : Option Utf16
  peerKind : ChatType
  peerId : Utf16

section Separation

variable {host : Host}

def Conversation.key (conversation : Conversation) : Utf16 :=
  keyOf ([ofString "agent", conversation.agentId, conversation.channel] ++
    conversation.accountId.toList ++ [conversation.peerKind.name, conversation.peerId])

/-- The conversation that a key is built for. -/
def conversationOf (host : Host) (params : PeerKeyParams) : Conversation where
  agentId := normalizeAgentId host params.agentId
  channel := keyChannel host params.channel
  accountId :=
    if params.peerKind = .direct ∧ params.dmScope = some .perAccountChannelPeer then
      some (normalizeAccountId host params.accountId)
    else none
  peerKind := params.peerKind
  peerId :=
    if params.peerKind = .direct then directPeerId host params
    else orElse (normalizeSessionPeerId host params.channel params.peerKind params.peerId)
      (ofString "unknown")

/-- The scopes in which each conversation with a peer has its channel in its key. -/
def ChannelScoped (params : PeerKeyParams) : Prop :=
  params.dmScope = some .perChannelPeer ∨ params.dmScope = some .perAccountChannelPeer

theorem buildAgentPeerSessionKey_eq {params : PeerKeyParams} (hscope : ChannelScoped params)
    (hpeer : params.peerKind = .direct → directPeerId host params ≠ []) :
    buildAgentPeerSessionKey host params = (conversationOf host params).key := by
  rw [buildAgentPeerSessionKey, Conversation.key, conversationOf]
  cases hkind : params.peerKind with
  | direct =>
    have hne := hpeer hkind
    dsimp only
    rw [if_neg hne, if_pos rfl]
    rcases hscope with h | h
    · rw [h]
      rfl
    · rw [h]
      rfl
  | group => rfl
  | channel => rfl

theorem keyOf_cons_cons (part next : Utf16) (parts : List Utf16) :
    keyOf (part :: next :: parts) = part ++ COLON :: keyOf (next :: parts) :=
  join_cons_cons COLON part next parts

theorem keyOf_pair (part last : Utf16) : keyOf [part, last] = part ++ COLON :: last := by
  rw [keyOf_cons_cons, keyOf, join_singleton]

theorem colon_not_mem_name (kind : ChatType) : COLON ∉ kind.name := by
  cases kind <;> decide

theorem name_injective : Function.Injective ChatType.name := by
  intro a b h
  cases a <;> cases b <;> first | rfl | exact absurd h (by decide)

/-- Parts without colons, and an account that is not named as a kind of peers. -/
structure Conversation.Separable (conversation : Conversation) : Prop where
  agentId : COLON ∉ conversation.agentId
  channel : COLON ∉ conversation.channel
  accountId : ∀ accountId ∈ conversation.accountId,
    COLON ∉ accountId ∧ ∀ kind : ChatType, accountId ≠ kind.name

/-- The agent and the channel of a key, in front of its other parts. -/
def keyFront (agentId channel rest : Utf16) : Utf16 :=
  ofString "agent" ++ COLON :: (agentId ++ COLON :: (channel ++ COLON :: rest))

theorem key_none (agentId channel : Utf16) (kind : ChatType) (peerId : Utf16) :
    Conversation.key ⟨agentId, channel, none, kind, peerId⟩ =
      keyFront agentId channel (kind.name ++ COLON :: peerId) := by
  show keyOf (ofString "agent" :: agentId :: channel :: kind.name :: [peerId]) = _
  rw [keyOf_cons_cons, keyOf_cons_cons, keyOf_cons_cons, keyOf_pair, keyFront]

theorem key_some (agentId channel accountId : Utf16) (kind : ChatType) (peerId : Utf16) :
    Conversation.key ⟨agentId, channel, some accountId, kind, peerId⟩ =
      keyFront agentId channel (accountId ++ COLON :: (kind.name ++ COLON :: peerId)) := by
  show keyOf (ofString "agent" :: agentId :: channel :: accountId :: kind.name :: [peerId]) = _
  rw [keyOf_cons_cons, keyOf_cons_cons, keyOf_cons_cons, keyOf_cons_cons, keyOf_pair, keyFront]

/-- Four parts of a key that are equal. -/
theorem keyFront_inj {agentId agentId' channel channel' part part' rest rest' : Utf16}
    (hagent : COLON ∉ agentId) (hagent' : COLON ∉ agentId') (hchannel : COLON ∉ channel)
    (hchannel' : COLON ∉ channel') (hpart : COLON ∉ part) (hpart' : COLON ∉ part')
    (h : keyFront agentId channel (part ++ COLON :: rest) =
      keyFront agentId' channel' (part' ++ COLON :: rest')) :
    agentId = agentId' ∧ channel = channel' ∧ part = part' ∧ rest = rest' := by
  obtain ⟨-, h⟩ := Lists.append_cons_inj_first (by decide) (by decide) h
  obtain ⟨heqAgent, h⟩ := Lists.append_cons_inj_first hagent hagent' h
  obtain ⟨heqChannel, h⟩ := Lists.append_cons_inj_first hchannel hchannel' h
  obtain ⟨heqPart, heqRest⟩ := Lists.append_cons_inj_first hpart hpart' h
  exact ⟨heqAgent, heqChannel, heqPart, heqRest⟩

theorem Conversation.key_injective {a b : Conversation} (ha : a.Separable) (hb : b.Separable)
    (h : a.key = b.key) : a = b := by
  obtain ⟨agentId, channel, accountId, kind, peerId⟩ := a
  obtain ⟨agentId', channel', accountId', kind', peerId'⟩ := b
  have hname := colon_not_mem_name kind
  have hname' := colon_not_mem_name kind'
  have hinj := @keyFront_inj agentId agentId' channel channel'
  cases accountId with
  | none =>
    cases accountId' with
    | none =>
      rw [key_none, key_none] at h
      obtain ⟨rfl, rfl, hkind, rfl⟩ :=
        hinj ha.agentId hb.agentId ha.channel hb.channel hname hname' h
      rw [name_injective hkind]
    | some accountId' =>
      rw [key_none, key_some] at h
      obtain ⟨hcolon, hnot⟩ := hb.accountId accountId' rfl
      obtain ⟨-, -, hpart, -⟩ := hinj ha.agentId hb.agentId ha.channel hb.channel hname hcolon h
      exact absurd hpart.symm (hnot kind)
  | some accountId =>
    obtain ⟨hcolon, hnot⟩ := ha.accountId accountId rfl
    cases accountId' with
    | none =>
      rw [key_some, key_none] at h
      obtain ⟨-, -, hpart, -⟩ := hinj ha.agentId hb.agentId ha.channel hb.channel hcolon hname' h
      exact absurd hpart (hnot kind')
    | some accountId' =>
      rw [key_some, key_some] at h
      obtain ⟨hcolon', -⟩ := hb.accountId accountId' rfl
      obtain ⟨rfl, rfl, rfl, hrest⟩ :=
        hinj ha.agentId hb.agentId ha.channel hb.channel hcolon hcolon' h
      obtain ⟨hkind, rfl⟩ := Lists.append_cons_inj_first hname hname' hrest
      rw [name_injective hkind]

/-- Two conversations with a peer share a session only if their agent, channel, account where it
counts, kind and peer are the same: a channel has no colon in its name, and an account that counts
is not named as a kind of peers. -/
theorem sessionKey_eq_iff (hhost : host.LowersAscii) {a b : PeerKeyParams} (ha : ChannelScoped a)
    (hb : ChannelScoped b) (hpeer : ∀ params ∈ [a, b], params.peerKind = .direct →
      directPeerId host params ≠ [])
    (hchannel : ∀ params ∈ [a, b], COLON ∉ keyChannel host params.channel)
    (haccount : ∀ params ∈ [a, b], params.peerKind = .direct →
      params.dmScope = some .perAccountChannelPeer → ∀ kind : ChatType,
        normalizeAccountId host params.accountId ≠ kind.name) :
    buildAgentPeerSessionKey host a = buildAgentPeerSessionKey host b ↔
      conversationOf host a = conversationOf host b := by
  have hseparable : ∀ params ∈ [a, b], (conversationOf host params).Separable := by
    intro params hparams
    refine ⟨not_mem_of_isIdUnit (isIdUnit_of_mem_normalizeAgentId hhost _) (by decide),
      hchannel params hparams, ?_⟩
    intro accountId haccountId
    rw [conversationOf] at haccountId
    dsimp only at haccountId
    split_ifs at haccountId with hcounts
    · obtain rfl := Option.some.inj haccountId
      exact ⟨not_mem_of_isIdUnit (isIdUnit_of_mem_normalizeAccountId hhost _) (by decide),
        haccount params hparams hcounts.1 hcounts.2⟩
    · cases haccountId
  have hfirst : a ∈ [a, b] := List.mem_cons_self
  have hsecond : b ∈ [a, b] := List.mem_cons_of_mem a List.mem_cons_self
  rw [buildAgentPeerSessionKey_eq ha (hpeer a hfirst), buildAgentPeerSessionKey_eq hb (hpeer b hsecond)]
  exact ⟨Conversation.key_injective (hseparable a hfirst) (hseparable b hsecond), fun h => by rw [h]⟩

end Separation

/-- The lower case of a text of ASCII. -/
def asciiHost : Host := ⟨fun s => s.map lowerAscii⟩

def sampleParams (kind : ChatType) (peerId : String) : PeerKeyParams where
  agentId := ofString "Main"
  mainKey := none
  channel := ofString "Telegram"
  accountId := some (ofString "work")
  peerKind := kind
  peerId := some (ofString peerId)
  identityLinks := none
  dmScope := some .perAccountChannelPeer

example : buildAgentPeerSessionKey asciiHost (sampleParams .direct "42") =
    ofString "agent:main:telegram:work:direct:42" := by decide +kernel

theorem sessionKey_eq_iff_sample :
    buildAgentPeerSessionKey asciiHost (sampleParams .direct "A:1") =
        buildAgentPeerSessionKey asciiHost (sampleParams .group "A:1") ↔
      conversationOf asciiHost (sampleParams .direct "A:1") =
        conversationOf asciiHost (sampleParams .group "A:1") :=
  sessionKey_eq_iff (fun _ _ => rfl) (.inr rfl) (.inr rfl) (by decide +kernel) (by decide +kernel)
    (by
      intro params hparams _ _ kind
      have haccount : normalizeAccountId asciiHost params.accountId = ofString "work" := by
        rcases List.mem_pair.mp hparams with rfl | rfl <;> decide +kernel
      rw [haccount]
      cases kind <;> decide)

end Flashclaw.Routing
