import Mathlib.Data.List.Sort
import Flashclaw.Lib.Json
import Flashclaw.Routing.Tiers

/-!
# Routes and their caches

`resolveAgentRoute` in `src/routing/resolve-route.ts`: the agent and the session of a conversation.
Bindings, indexes, agents and routes are cached for a configuration.  Any sequence of calls gets the
routes that calls without caches get.
-/

namespace Flashclaw.Routing

open Utf16

structure AgentEntry where
  id : Option Utf16
  default : Bool

structure AgentsConfig where
  entries : Option (List (Utf16 × AgentEntry))
  list : List AgentEntry

structure SessionConfig where
  dmScope : Option DmScope
  mainKey : Option Utf16
  identityLinks : Option (List (Utf16 × List Utf16))

/-- The parts of configurations, under the references to them.  They are replaced, never changed. -/
structure Heap where
  bindings : ℕ → List AgentBinding
  agents : ℕ → AgentsConfig
  session : ℕ → SessionConfig

/-- The references that a configuration holds. -/
structure OpenClawConfig where
  bindings : ℕ
  agents : ℕ
  session : ℕ
deriving DecidableEq

def listRouteBindings (bindings : List AgentBinding) : List AgentRouteBinding :=
  bindings.filterMap AgentBinding.route?

def listAgentEntries (agents : AgentsConfig) : List AgentEntry :=
  match agents.entries with
  | some entries => entries.map fun entry => { entry.2 with id := entry.2.id.or (some entry.1) }
  | none => agents.list

section Agents

variable (host : Host)

def resolveDefaultAgentId (agents : AgentsConfig) : Utf16 :=
  let entries := listAgentEntries agents
  if entries = [] then DEFAULT_AGENT_ID
  else
    let chosen := ((entries.filter AgentEntry.default).head?.or entries.head?).bind AgentEntry.id
    normalizeAgentId host (orElse (trim (chosen.getD [])) DEFAULT_AGENT_ID)

structure AgentLookup where
  byNormalizedId : JsMap Utf16 Utf16
  fallbackDefaultAgentId : Utf16

/-- What `resolveAgentLookupCache` builds. -/
def buildAgentLookup (agents : AgentsConfig) : AgentLookup where
  byNormalizedId := agents.list.foldl (fun byNormalizedId agent =>
    let rawId := trim (agent.id.getD [])
    if rawId = [] then byNormalizedId
    else byNormalizedId.set (normalizeAgentId host rawId) (normalizeAgentId host rawId)) .empty
  fallbackDefaultAgentId := normalizeAgentId host (resolveDefaultAgentId host agents)

def pickFirstExistingAgentId (lookup : AgentLookup) (agentId : Utf16) : Utf16 :=
  let trimmed := trim agentId
  if trimmed = [] then lookup.fallbackDefaultAgentId
  else if lookup.byNormalizedId.size = 0 then normalizeAgentId host trimmed
  else
    orElse ((lookup.byNormalizedId.get? (normalizeAgentId host trimmed)).getD [])
      lookup.fallbackDefaultAgentId

end Agents

structure ResolveAgentRouteInput where
  channel : Utf16
  accountId : Option Utf16
  peer : Option RoutePeer
  dmScope : Option DmScope
  parentPeer : Option RoutePeer
  guildId : Option Utf16
  teamId : Option Utf16
  memberRoleIds : Option (List Utf16)

inductive MatchedBy where
  | binding (tier : Tier)
  | default

inductive LastRoutePolicy where
  | main
  | session

structure ResolvedAgentRoute where
  agentId : Utf16
  channel : Utf16
  accountId : Utf16
  dmScope : DmScope
  sessionKey : Utf16
  mainSessionKey : Utf16
  lastRoutePolicy : LastRoutePolicy
  matchedBy : MatchedBy

section Route

variable (host : Host)

def normalizePeer (peer : RoutePeer) : RoutePeer :=
  ⟨(normalizeChatType host (some peer.kind.name)).getD peer.kind, normalizeId (some peer.id)⟩

/-- The input of `resolveAgentRoute` in normal form. -/
def routeRequest (session : SessionConfig) (input : ResolveAgentRouteInput) : RouteRequest where
  channel := normalizeToken host input.channel
  accountId := normalizeAccountId host input.accountId
  peer := input.peer.map (normalizePeer host)
  parentPeer := input.parentPeer.map (normalizePeer host)
  guildId := normalizeId input.guildId
  teamId := normalizeId input.teamId
  memberRoleIds := input.memberRoleIds.getD []
  dmScope := (input.dmScope.or session.dmScope).getD .main
  trim_guildId := trim_trim _
  trim_teamId := trim_trim _

structure SessionKeyParams where
  agentId : Utf16
  mainKey : Option Utf16
  channel : Utf16
  accountId : Option Utf16
  peer : Option RoutePeer
  dmScope : Option DmScope
  identityLinks : Option (List (Utf16 × List Utf16))

def buildAgentSessionKey (params : SessionKeyParams) : Utf16 :=
  buildAgentPeerSessionKey host
    { agentId := params.agentId
      mainKey := some (params.mainKey.getD DEFAULT_MAIN_KEY)
      channel := orElse (normalizeToken host params.channel) (ofString "unknown")
      accountId := params.accountId
      peerKind := (params.peer.map RoutePeer.kind).getD .direct
      peerId := params.peer.map fun peer =>
        orElse (normalizeId (some peer.id)) (ofString "unknown")
      dmScope := params.dmScope
      identityLinks := params.identityLinks }

def deriveLastRoutePolicy (sessionKey mainSessionKey : Utf16) : LastRoutePolicy :=
  if sessionKey = mainSessionKey then .main else .session

/-- The agent that a search gives, with what overrides the scope of direct messages. -/
def routeChoice (agents : AgentsConfig) :
    Option (AgentRouteBinding × Tier) → Utf16 × MatchedBy × Option DmScope
  | some (binding, tier) => (binding.agentId, .binding tier, binding.dmScope)
  | none => (resolveDefaultAgentId host agents, .default, none)

/-- `choose` of `resolveAgentRoute`, without the cache of routes. -/
def chooseRoute (lookup : AgentLookup) (session : SessionConfig) (request : RouteRequest)
    (choice : Utf16 × MatchedBy × Option DmScope) : ResolvedAgentRoute :=
  let agentId := pickFirstExistingAgentId host lookup choice.1
  let dmScope := choice.2.2.getD request.dmScope
  let sessionKey := buildAgentSessionKey host
    { agentId := agentId
      mainKey := session.mainKey
      channel := request.channel
      accountId := some request.accountId
      peer := request.peer
      dmScope := some dmScope
      identityLinks := session.identityLinks }
  let mainSessionKey := normalizeToken host (buildAgentMainSessionKey host agentId session.mainKey)
  { agentId := agentId
    channel := request.channel
    accountId := request.accountId
    dmScope := dmScope
    sessionKey := sessionKey
    mainSessionKey := mainSessionKey
    lastRoutePolicy := deriveLastRoutePolicy sessionKey mainSessionKey
    matchedBy := choice.2.1 }

/-- The route for a request, with nothing cached. -/
def freshRoute (heap : Heap) (cfg : OpenClawConfig) (request : RouteRequest) : ResolvedAgentRoute :=
  chooseRoute host (buildAgentLookup host (heap.agents cfg.agents)) (heap.session cfg.session) request
    (routeChoice host (heap.agents cfg.agents)
      (findRoute host (listRouteBindings (heap.bindings cfg.bindings)) request))

end Route

structure AgentLookupCache where
  agentsRef : ℕ
  lookup : AgentLookup

structure EvaluatedBindingsCache where
  bindingsRef : ℕ
  byChannel : JsMap Utf16 EvaluatedBindingsByChannel
  byChannelAccount : JsMap Utf16 (List EvaluatedBinding)
  byChannelAccountIndex : JsMap Utf16 EvaluatedBindingsIndex

structure ResolvedRouteCache where
  bindingsRef : ℕ
  agentsRef : ℕ
  sessionRef : ℕ
  byKey : JsMap Utf16 ResolvedAgentRoute

/-- What is cached for a configuration. -/
structure RouteCaches where
  agentLookup : Option AgentLookupCache
  evaluated : Option EvaluatedBindingsCache
  resolved : Option ResolvedRouteCache

def RouteCaches.empty : RouteCaches := ⟨none, none, none⟩

def MAX_EVALUATED_BINDINGS_CACHE_KEYS : ℕ := 2000

def MAX_RESOLVED_ROUTE_CACHE_KEYS : ℕ := 4000

def TAB : CodeUnit := unit '\t'

def channelAccountKey (channel accountId : Utf16) : Utf16 := channel ++ TAB :: accountId

def formatRouteCachePeer : Option RoutePeer → Utf16
  | none => ofString "-"
  | some peer => if peer.id = [] then ofString "-" else peerKey peer.kind peer.id

def DmScope.name : DmScope → Utf16
  | .main => ofString "main"
  | .perPeer => ofString "per-peer"
  | .perChannelPeer => ofString "per-channel-peer"
  | .perAccountChannelPeer => ofString "per-account-channel-peer"

def routeCacheKeyValue (request : RouteRequest) : JsValue :=
  .array [.string request.channel, .string request.accountId,
    .string (formatRouteCachePeer request.peer), .string (formatRouteCachePeer request.parentPeer),
    .string request.guildId, .string request.teamId,
    .array ((request.memberRoleIds.insertionSort (· ≤ ·)).map JsValue.string),
    .string request.dmScope.name]

def buildResolvedRouteCacheKey (request : RouteRequest) : Utf16 :=
  Json.render (routeCacheKeyValue request)

def EvaluatedBindingsCache.store (cache : EvaluatedBindingsCache) (cacheKey : Utf16)
    (evaluated : List EvaluatedBinding) : EvaluatedBindingsCache :=
  let index := buildEvaluatedBindingsIndex evaluated
  let byChannelAccount := cache.byChannelAccount.set cacheKey evaluated
  if byChannelAccount.size > MAX_EVALUATED_BINDINGS_CACHE_KEYS then
    { cache with
      byChannelAccount := JsMap.empty.set cacheKey evaluated
      byChannelAccountIndex := JsMap.empty.set cacheKey index }
  else
    { cache with
      byChannelAccount := byChannelAccount
      byChannelAccountIndex := cache.byChannelAccountIndex.set cacheKey index }

def ResolvedRouteCache.store (cache : ResolvedRouteCache) (routeCacheKey : Utf16)
    (route : ResolvedAgentRoute) : ResolvedRouteCache :=
  let byKey := cache.byKey.set routeCacheKey route
  { cache with
    byKey :=
      if byKey.size > MAX_RESOLVED_ROUTE_CACHE_KEYS then JsMap.empty.set routeCacheKey route
      else byKey }

section Cached

variable (host : Host) (heap : Heap) (cfg : OpenClawConfig)

def resolveAgentLookupCache (caches : RouteCaches) : AgentLookup × RouteCaches :=
  match caches.agentLookup.filter fun existing => existing.agentsRef = cfg.agents with
  | some existing => (existing.lookup, caches)
  | none =>
    let lookup := buildAgentLookup host (heap.agents cfg.agents)
    (lookup, { caches with agentLookup := some ⟨cfg.agents, lookup⟩ })

/-- The cache of bindings for a configuration, which starts anew with its bindings. -/
def evaluatedBindingsCache (caches : RouteCaches) : EvaluatedBindingsCache :=
  (caches.evaluated.filter fun existing => existing.bindingsRef = cfg.bindings).getD
    ⟨cfg.bindings,
      buildEvaluatedBindingsByChannel host (listRouteBindings (heap.bindings cfg.bindings)),
      .empty, .empty⟩

def getEvaluatedBindingsForChannelAccount (channel accountId : Utf16) (caches : RouteCaches) :
    List EvaluatedBinding × RouteCaches :=
  let cache := evaluatedBindingsCache host heap cfg caches
  let cacheKey := channelAccountKey channel accountId
  match cache.byChannelAccount.get? cacheKey with
  | some hit => (hit, { caches with evaluated := some cache })
  | none =>
    let evaluated := evaluatedBindingsFor cache.byChannel channel accountId
    (evaluated, { caches with evaluated := some (cache.store cacheKey evaluated) })

def getEvaluatedBindingIndexForChannelAccount (channel accountId : Utf16) (caches : RouteCaches) :
    EvaluatedBindingsIndex × RouteCaches :=
  let (bindings, caches) :=
    getEvaluatedBindingsForChannelAccount host heap cfg channel accountId caches
  let cacheKey := channelAccountKey channel accountId
  match caches.evaluated.bind fun existing => existing.byChannelAccountIndex.get? cacheKey with
  | some indexed => (indexed, caches)
  | none =>
    let built := buildEvaluatedBindingsIndex bindings
    (built,
      { caches with
        evaluated := caches.evaluated.map fun existing =>
          { existing with
            byChannelAccountIndex := existing.byChannelAccountIndex.set cacheKey built } })

def resolveRouteCacheForConfig (caches : RouteCaches) : ResolvedRouteCache :=
  (caches.resolved.filter fun existing => existing.bindingsRef = cfg.bindings &&
    existing.agentsRef = cfg.agents && existing.sessionRef = cfg.session).getD
      ⟨cfg.bindings, cfg.agents, cfg.session, .empty⟩

/-- The part of `resolveAgentRoute` after a miss in the cache of routes. -/
def searchRoute (request : RouteRequest) (caches : RouteCaches) : ResolvedAgentRoute × RouteCaches :=
  let (_, caches) := getEvaluatedBindingsForChannelAccount host heap cfg request.channel
    request.accountId caches
  let (index, caches) := getEvaluatedBindingIndexForChannelAccount host heap cfg request.channel
    request.accountId caches
  let matched := searchTiers request fun tier => tier.candidates request index
  let (lookup, caches) := resolveAgentLookupCache host heap cfg caches
  (chooseRoute host lookup (heap.session cfg.session) request
    (routeChoice host (heap.agents cfg.agents) matched), caches)

/-- The cache of routes is for calls that log nothing and link no identities. -/
def resolveAgentRoute (verbose : Bool) (input : ResolveAgentRouteInput) (caches : RouteCaches) :
    ResolvedAgentRoute × RouteCaches :=
  let session := heap.session cfg.session
  let request := routeRequest host session input
  if verbose = false ∧ session.identityLinks = none then
    let routeCache := resolveRouteCacheForConfig cfg caches
    let routeCacheKey := buildResolvedRouteCacheKey request
    let caches := { caches with resolved := some routeCache }
    match routeCache.byKey.get? routeCacheKey with
    | some cachedRoute => (cachedRoute, caches)
    | none =>
      let (route, caches) := searchRoute host heap cfg request caches
      (route,
        { caches with
          resolved := caches.resolved.map fun routeCache => routeCache.store routeCacheKey route })
  else searchRoute host heap cfg request caches

end Cached

/-- A call of `resolveAgentRoute`, with the configuration as it is then. -/
structure RouteCall where
  cfg : OpenClawConfig
  verbose : Bool
  input : ResolveAgentRouteInput

def runRouteCalls (host : Host) (heap : Heap) (caches : RouteCaches) :
    List RouteCall → List ResolvedAgentRoute × RouteCaches
  | [] => ([], caches)
  | call :: calls =>
    let (route, caches) := resolveAgentRoute host heap call.cfg call.verbose call.input caches
    let (routes, caches) := runRouteCalls host heap caches calls
    (route :: routes, caches)

section Keys

variable {host : Host} {a b : RouteRequest}

/-- A peer that has an id. -/
def known (peer : Option RoutePeer) : Option RoutePeer := peer.filter fun peer => peer.id ≠ []

theorem formatRouteCachePeer_known (peer : Option RoutePeer) : formatRouteCachePeer peer =
    ((known peer).map fun peer => peerKey peer.kind peer.id).getD (ofString "-") := by
  cases peer with
  | none => rfl
  | some peer =>
    rw [formatRouteCachePeer, known, Option.filter_some]
    by_cases hempty : peer.id = []
    · rw [if_pos hempty, if_neg (by simpa using hempty)]
      rfl
    · rw [if_neg hempty, if_pos (decide_eq_true hempty)]
      rfl

theorem formatRouteCachePeer_inj {peer peer' : Option RoutePeer}
    (h : formatRouteCachePeer peer = formatRouteCachePeer peer') : known peer = known peer' := by
  have hdash : ∀ (kind : ChatType) (id : Utf16), peerKey kind id ≠ ofString "-" := by
    intro kind id heq
    have hcolon : COLON ∈ ofString "-" := heq ▸ List.mem_append_right _ List.mem_cons_self
    exact absurd hcolon (by decide)
  rw [formatRouteCachePeer_known, formatRouteCachePeer_known] at h
  cases hpeer : known peer with
  | none =>
    cases hpeer' : known peer' with
    | none => rfl
    | some peer' =>
      rw [hpeer, hpeer'] at h
      exact absurd h.symm (hdash _ _)
  | some peer =>
    cases hpeer' : known peer' with
    | none =>
      rw [hpeer, hpeer'] at h
      exact absurd h (hdash _ _)
    | some peer' =>
      rw [hpeer, hpeer'] at h
      obtain ⟨hkind, hid⟩ := peerKey_inj.mp h
      obtain ⟨kind, id⟩ := peer
      obtain ⟨kind', id'⟩ := peer'
      obtain rfl : kind = kind' := hkind
      obtain rfl : id = id' := hid
      rfl

theorem clean_routeCacheKeyValue (request : RouteRequest) :
    Json.clean (routeCacheKeyValue request) = routeCacheKeyValue request := by
  have hroles : Json.cleanElements ((request.memberRoleIds.insertionSort (· ≤ ·)).map JsValue.string) =
      (request.memberRoleIds.insertionSort (· ≤ ·)).map JsValue.string := by
    rw [Json.cleanElements_eq, List.map_map]
    rfl
  show JsValue.array [_, _, _, _, _, _, JsValue.array (Json.cleanElements _), _] = _
  rw [hroles]
  rfl

theorem uniqueKeys_routeCacheKeyValue (request : RouteRequest) :
    Json.UniqueKeys (routeCacheKeyValue request) := by
  refine Json.uniqueKeysElements_iff.mpr ?_
  have hroles : Json.UniqueKeys
      (.array ((request.memberRoleIds.insertionSort (· ≤ ·)).map JsValue.string)) := by
    refine Json.uniqueKeysElements_iff.mpr fun v hv => ?_
    obtain ⟨role, -, rfl⟩ := List.mem_map.mp hv
    exact trivial
  simp only [List.forall_mem_cons]
  exact ⟨trivial, trivial, trivial, trivial, trivial, trivial, hroles, trivial,
    fun _ h => (List.not_mem_nil h).elim⟩

theorem buildResolvedRouteCacheKey_inj
    (h : buildResolvedRouteCacheKey a = buildResolvedRouteCacheKey b) :
    routeCacheKeyValue a = routeCacheKeyValue b := by
  have hparse := congrArg Json.parse h
  rw [buildResolvedRouteCacheKey, buildResolvedRouteCacheKey,
    Json.parse_render _ (uniqueKeys_routeCacheKeyValue a),
    Json.parse_render _ (uniqueKeys_routeCacheKeyValue b), clean_routeCacheKeyValue,
    clean_routeCacheKeyValue] at hparse
  exact Option.some.inj hparse

theorem DmScope.name_injective : Function.Injective DmScope.name := by
  intro a b h
  cases a <;> cases b <;> first | rfl | exact absurd h (by decide)

/-- Requests that get one route. -/
structure RouteRequest.Alike (a b : RouteRequest) : Prop where
  channel : a.channel = b.channel
  accountId : a.accountId = b.accountId
  peer : a.peer = b.peer
  knownParent : a.knownParent = b.knownParent
  guildId : a.guildId = b.guildId
  teamId : a.teamId = b.teamId
  memberRoleIds : a.memberRoleIds.Perm b.memberRoleIds
  dmScope : a.dmScope = b.dmScope

/-- A peer that the keys describe, if there is one. -/
def RouteRequest.Keyed (request : RouteRequest) : Prop :=
  ∀ peer, request.peer = some peer → peer.id ≠ []

def RouteRequest.Identified (request : RouteRequest) : Prop :=
  ∃ peer, request.peer = some peer ∧ peer.id ≠ []

/-- The requests of a kind that have the request's key have its peer. -/
def RouteRequest.Separates (request : RouteRequest) (Q : RouteRequest → Prop) : Prop :=
  ∀ other, Q other → buildResolvedRouteCacheKey request = buildResolvedRouteCacheKey other →
    request.peer = other.peer

theorem RouteRequest.Keyed.known_peer (h : a.Keyed) : known a.peer = a.peer := by
  cases hpeer : a.peer with
  | none => rfl
  | some peer => exact Option.filter_eq_some_iff.mpr ⟨rfl, decide_eq_true (h peer hpeer)⟩

/-- What the keys describe, in parts. -/
theorem routeCacheKey_parts (h : buildResolvedRouteCacheKey a = buildResolvedRouteCacheKey b) :
    a.channel = b.channel ∧ a.accountId = b.accountId ∧ known a.peer = known b.peer ∧
      a.knownParent = b.knownParent ∧ a.guildId = b.guildId ∧ a.teamId = b.teamId ∧
      a.memberRoleIds.Perm b.memberRoleIds ∧ a.dmScope = b.dmScope := by
  have hvalue := buildResolvedRouteCacheKey_inj h
  simp only [routeCacheKeyValue, JsValue.array.injEq, JsValue.string.injEq, List.cons.injEq] at hvalue
  obtain ⟨hchannel, haccount, hpeer, hparent, hguild, hteam, hroles, hscope, -⟩ := hvalue
  have hsorted : a.memberRoleIds.insertionSort (· ≤ ·) = b.memberRoleIds.insertionSort (· ≤ ·) :=
    List.map_injective_iff.mpr (fun _ _ heq => JsValue.string.inj heq) hroles
  refine ⟨hchannel, haccount, formatRouteCachePeer_inj hpeer, formatRouteCachePeer_inj hparent,
    hguild, hteam, ?_, DmScope.name_injective hscope⟩
  exact (List.perm_insertionSort _ a.memberRoleIds).symm.trans
    (hsorted ▸ List.perm_insertionSort _ b.memberRoleIds)

theorem RouteRequest.Keyed.separates (h : a.Keyed) : a.Separates RouteRequest.Keyed := by
  intro other hother hkey
  have heq := (routeCacheKey_parts hkey).2.2.1
  rwa [h.known_peer, hother.known_peer] at heq

/-- A peer without an id has no key of one with an id. -/
theorem separates_identified (a : RouteRequest) : a.Separates RouteRequest.Identified := by
  rintro other ⟨peer, hpeer, hid⟩ hkey
  have heq := (routeCacheKey_parts hkey).2.2.1
  rw [hpeer, known, known, Option.filter_some, if_pos (decide_eq_true hid)] at heq
  rw [hpeer]
  exact (Option.filter_eq_some_iff.mp heq).1

/-- Apart from peers without ids, the key of the cache of routes tells apart what gets different
routes. -/
theorem alike_of_key (hpeer : a.peer = b.peer)
    (h : buildResolvedRouteCacheKey a = buildResolvedRouteCacheKey b) : a.Alike b := by
  obtain ⟨hchannel, haccount, -, hparent, hguild, hteam, hroles, hscope⟩ := routeCacheKey_parts h
  exact ⟨hchannel, haccount, hpeer, hparent, hguild, hteam, hroles, hscope⟩

theorem channelAccountKey_inj {channel channel' accountId accountId' : Utf16}
    (h : TAB ∉ accountId) (h' : TAB ∉ accountId')
    (heq : channelAccountKey channel accountId = channelAccountKey channel' accountId') :
    channel = channel' ∧ accountId = accountId' :=
  Lists.append_cons_inj_last h h' heq

end Keys

section Alike

variable {host : Host} {a b : RouteRequest}

theorem enabled_congr (h : a.Alike b) (tier : Tier) : tier.enabled a = tier.enabled b := by
  have hroles : a.memberRoleIds = [] ↔ b.memberRoleIds = [] := by
    rw [← List.length_eq_zero_iff, ← List.length_eq_zero_iff, h.memberRoleIds.length_eq]
  cases tier <;> simp [Tier.enabled, h.peer, h.knownParent, h.guildId, h.teamId, hroles]

theorem accepts_congr (h : a.Alike b) (tier : Tier) (constraint : NormalizedBindingMatch) :
    tier.accepts a constraint = tier.accepts b constraint := by
  have hpeer : tier.scopePeer a = tier.scopePeer b := by
    cases tier <;> first | exact h.peer | exact h.knownParent
  have hroles : ∀ roles : List Utf16, (roles.any fun role => role ∈ a.memberRoleIds) =
      roles.any fun role => role ∈ b.memberRoleIds := by
    intro roles
    congr 1
    funext role
    exact Bool.decide_congr h.memberRoleIds.mem_iff
  rw [Tier.accepts, Tier.accepts, hpeer, matchesBindingScope, matchesBindingScope,
    routeBindingScopeMatches, routeBindingScopeMatches]
  simp only [RouteRequest.scope, h.guildId, h.teamId, hroles]
  rfl

theorem findRoute_congr (h : a.Alike b) (bindings : List AgentRouteBinding) :
    findRoute host bindings a = findRoute host bindings b := by
  rw [findRoute, findRoute, h.channel, h.accountId]
  rw [searchTiers, searchTiers]
  congr 1
  funext tier
  rw [enabled_congr h tier]
  split_ifs with henabled
  · have hcandidates : ∀ index, tier.candidates a index = tier.candidates b index := by
      intro index
      cases tier with
      | peerParent =>
        obtain ⟨parent, hparent⟩ := Option.isSome_iff_exists.mp henabled
        have hparent' := h.knownParent.trans hparent
        rw [Tier.candidates, Tier.candidates, (Option.filter_eq_some_iff.mp hparent).1,
          (Option.filter_eq_some_iff.mp hparent').1]
      | _ => simp only [Tier.candidates, h.peer, h.guildId, h.teamId]
    rw [hcandidates]
    congr 2
    funext candidate
    exact accepts_congr h tier candidate.constraint
  · rfl

theorem freshRoute_congr (h : a.Alike b) (heap : Heap) (cfg : OpenClawConfig) :
    freshRoute host heap cfg a = freshRoute host heap cfg b := by
  rw [freshRoute, freshRoute, findRoute_congr h]
  simp only [chooseRoute, h.channel, h.accountId, h.peer, h.dmScope]

end Alike

section Valid

variable (host : Host) (heap : Heap) (Q : OpenClawConfig → RouteRequest → Prop)

def bindingsByChannel (bindingsRef : ℕ) : JsMap Utf16 EvaluatedBindingsByChannel :=
  buildEvaluatedBindingsByChannel host (listRouteBindings (heap.bindings bindingsRef))

/-- An entry for a channel and an account is what `f` makes of them. -/
def AccountEntry {α : Type} (f : Utf16 → Utf16 → α) (cacheKey : Utf16) (entry : α) : Prop :=
  ∀ channel accountId, TAB ∉ accountId → channelAccountKey channel accountId = cacheKey →
    entry = f channel accountId

structure EvaluatedBindingsCache.Valid (cache : EvaluatedBindingsCache) : Prop where
  byChannel : cache.byChannel = bindingsByChannel host heap cache.bindingsRef
  lists : cache.byChannelAccount.Answers (AccountEntry (evaluatedBindingsFor cache.byChannel))
  indexes : cache.byChannelAccountIndex.Answers (AccountEntry fun channel accountId =>
    buildEvaluatedBindingsIndex (evaluatedBindingsFor cache.byChannel channel accountId))
  keys : cache.byChannelAccountIndex.keys = cache.byChannelAccount.keys
  size : cache.byChannelAccount.size ≤ MAX_EVALUATED_BINDINGS_CACHE_KEYS

/-- Requests of the kind find the routes that they get without the cache. -/
structure ResolvedRouteCache.Valid (cache : ResolvedRouteCache) : Prop where
  routes : cache.byKey.Answers fun routeCacheKey route =>
    ∀ request : RouteRequest, Q ⟨cache.bindingsRef, cache.agentsRef, cache.sessionRef⟩ request →
      buildResolvedRouteCacheKey request = routeCacheKey →
        route = freshRoute host heap ⟨cache.bindingsRef, cache.agentsRef, cache.sessionRef⟩ request
  size : cache.byKey.size ≤ MAX_RESOLVED_ROUTE_CACHE_KEYS

structure RouteCaches.Valid (caches : RouteCaches) : Prop where
  agentLookup : ∀ cache, caches.agentLookup = some cache →
    cache.lookup = buildAgentLookup host (heap.agents cache.agentsRef)
  evaluated : ∀ cache, caches.evaluated = some cache → cache.Valid host heap
  resolved : ∀ cache, caches.resolved = some cache → cache.Valid host heap Q

end Valid

section Specs

variable {host : Host} {heap : Heap} {Q : OpenClawConfig → RouteRequest → Prop}
  {cfg : OpenClawConfig} {caches : RouteCaches}

theorem valid_empty : RouteCaches.empty.Valid host heap Q where
  agentLookup _ h := nomatch h
  evaluated _ h := nomatch h
  resolved _ h := nomatch h

/-- The part of a configuration that is cached is used while the reference to it stays. -/
theorem evaluatedBindingsCache_spec (h : caches.Valid host heap Q) :
    (evaluatedBindingsCache host heap cfg caches).Valid host heap ∧
      (evaluatedBindingsCache host heap cfg caches).bindingsRef = cfg.bindings := by
  rw [evaluatedBindingsCache]
  cases hfilter : caches.evaluated.filter fun existing => existing.bindingsRef = cfg.bindings with
  | none => exact ⟨⟨rfl, JsMap.answers_empty, JsMap.answers_empty, rfl, Nat.zero_le _⟩, rfl⟩
  | some existing =>
    obtain ⟨hsome, href⟩ := Option.filter_eq_some_iff.mp hfilter
    exact ⟨h.evaluated existing hsome, of_decide_eq_true href⟩

theorem accountEntry {α : Type} {f : Utf16 → Utf16 → α} {channel accountId : Utf16}
    (hkey : TAB ∉ accountId) :
    AccountEntry f (channelAccountKey channel accountId) (f channel accountId) := by
  intro channel' accountId' hkey' heq
  obtain ⟨rfl, rfl⟩ := channelAccountKey_inj hkey' hkey heq
  rfl

theorem EvaluatedBindingsCache.Valid.store {cache : EvaluatedBindingsCache}
    (h : cache.Valid host heap) {channel accountId : Utf16} (hkey : TAB ∉ accountId) :
    (cache.store (channelAccountKey channel accountId)
      (evaluatedBindingsFor cache.byChannel channel accountId)).Valid host heap := by
  rw [EvaluatedBindingsCache.store]
  split_ifs with hsize
  · exact ⟨h.byChannel, JsMap.answers_empty.set (accountEntry hkey),
      JsMap.answers_empty.set (accountEntry hkey), rfl, show 1 ≤ 2000 by decide⟩
  · exact ⟨h.byChannel, h.lists.set (accountEntry hkey), h.indexes.set (accountEntry hkey),
      JsMap.keys_set_congr h.keys _ _ _, Nat.not_lt.mp hsize⟩

theorem mem_keys_store (cache : EvaluatedBindingsCache) (cacheKey : Utf16)
    (evaluated : List EvaluatedBinding) :
    cacheKey ∈ (cache.store cacheKey evaluated).byChannelAccount.keys := by
  rw [← JsMap.isSome_get?, EvaluatedBindingsCache.store]
  split_ifs
  · rw [JsMap.get?_set_self]
    rfl
  · rw [JsMap.get?_set_self]
    rfl

/-- The caches after a read of the bindings of a channel and an account. -/
structure Evaluates (host : Host) (heap : Heap) (cfg : OpenClawConfig) (channel accountId : Utf16)
    (Q : OpenClawConfig → RouteRequest → Prop) (caches caches' : RouteCaches) : Prop where
  valid : caches'.Valid host heap Q
  resolved : caches'.resolved = caches.resolved
  evaluated : ∃ cache, caches'.evaluated = some cache ∧ cache.bindingsRef = cfg.bindings ∧
    channelAccountKey channel accountId ∈ cache.byChannelAccount.keys

theorem getEvaluatedBindingsForChannelAccount_spec (h : caches.Valid host heap Q)
    {channel accountId : Utf16} (hkey : TAB ∉ accountId) :
    Evaluates host heap cfg channel accountId Q caches
      (getEvaluatedBindingsForChannelAccount host heap cfg channel accountId caches).2 := by
  obtain ⟨hvalid, href⟩ := @evaluatedBindingsCache_spec host heap Q cfg caches h
  rw [getEvaluatedBindingsForChannelAccount]
  dsimp only
  split
  · rename_i hit hget
    refine ⟨⟨h.agentLookup, ?_, h.resolved⟩, rfl, _, rfl, href, ?_⟩
    · intro cache hcache
      obtain rfl := Option.some.inj hcache
      exact hvalid
    · exact JsMap.isSome_get?.mp (by rw [hget]; rfl)
  · refine ⟨⟨h.agentLookup, ?_, h.resolved⟩, rfl, _, rfl, ?_, mem_keys_store _ _ _⟩
    · intro cache hcache
      obtain rfl := Option.some.inj hcache
      exact hvalid.store hkey
    · rw [EvaluatedBindingsCache.store]
      split_ifs <;> exact href

theorem getEvaluatedBindingIndexForChannelAccount_spec (h : caches.Valid host heap Q)
    {channel accountId : Utf16} (hkey : TAB ∉ accountId) :
    (getEvaluatedBindingIndexForChannelAccount host heap cfg channel accountId caches).1 =
        buildEvaluatedBindingsIndex
          (evaluatedBindingsFor (bindingsByChannel host heap cfg.bindings) channel accountId) ∧
      Evaluates host heap cfg channel accountId Q caches
        (getEvaluatedBindingIndexForChannelAccount host heap cfg channel accountId caches).2 := by
  have hspec := @getEvaluatedBindingsForChannelAccount_spec host heap Q cfg caches h channel accountId hkey
  rw [getEvaluatedBindingIndexForChannelAccount]
  cases hcall : getEvaluatedBindingsForChannelAccount host heap cfg channel accountId caches with
  | mk bindings caches' =>
    rw [hcall] at hspec
    obtain ⟨cache, hcache, href, hmem⟩ := hspec.evaluated
    have hcache : caches'.evaluated = some cache := hcache
    have hvalid := hspec.valid.evaluated cache hcache
    -- the cache of indexes has the keys of the cache of lists
    rw [← hvalid.keys, ← JsMap.isSome_get?, Option.isSome_iff_exists] at hmem
    obtain ⟨indexed, hget⟩ := hmem
    dsimp only
    rw [hcache, Option.bind_some, hget]
    refine ⟨?_, hspec⟩
    rw [← href, ← hvalid.byChannel]
    exact hvalid.indexes _ _ hget channel accountId hkey rfl

theorem resolveAgentLookupCache_spec (h : caches.Valid host heap Q) :
    (resolveAgentLookupCache host heap cfg caches).1 = buildAgentLookup host (heap.agents cfg.agents) ∧
      (resolveAgentLookupCache host heap cfg caches).2.Valid host heap Q ∧
      (resolveAgentLookupCache host heap cfg caches).2.resolved = caches.resolved := by
  rw [resolveAgentLookupCache]
  cases hfilter : caches.agentLookup.filter fun existing => existing.agentsRef = cfg.agents with
  | none =>
    refine ⟨rfl, ⟨fun cache hcache => ?_, h.evaluated, h.resolved⟩, rfl⟩
    obtain rfl := Option.some.inj hcache
    rfl
  | some existing =>
    obtain ⟨hsome, href⟩ := Option.filter_eq_some_iff.mp hfilter
    refine ⟨?_, h, rfl⟩
    rw [← of_decide_eq_true href]
    exact h.agentLookup existing hsome

theorem searchRoute_spec (h : caches.Valid host heap Q) {request : RouteRequest}
    (hkey : TAB ∉ request.accountId) :
    (searchRoute host heap cfg request caches).1 = freshRoute host heap cfg request ∧
      (searchRoute host heap cfg request caches).2.Valid host heap Q ∧
      (searchRoute host heap cfg request caches).2.resolved = caches.resolved := by
  have hlists := @getEvaluatedBindingsForChannelAccount_spec host heap Q cfg caches h
    request.channel request.accountId hkey
  have hindex := @getEvaluatedBindingIndexForChannelAccount_spec host heap Q cfg _ hlists.valid
    request.channel request.accountId hkey
  have hlookup := @resolveAgentLookupCache_spec host heap Q cfg _ hindex.2.valid
  rw [searchRoute]
  dsimp only
  refine ⟨?_, hlookup.2.1, hlookup.2.2.trans (hindex.2.resolved.trans hlists.resolved)⟩
  rw [hlookup.1, hindex.1]
  rfl

theorem resolveRouteCacheForConfig_spec (h : caches.Valid host heap Q) :
    (resolveRouteCacheForConfig cfg caches).Valid host heap Q ∧
      (⟨(resolveRouteCacheForConfig cfg caches).bindingsRef,
        (resolveRouteCacheForConfig cfg caches).agentsRef,
        (resolveRouteCacheForConfig cfg caches).sessionRef⟩ : OpenClawConfig) = cfg := by
  rw [resolveRouteCacheForConfig]
  cases hfilter : caches.resolved.filter fun existing => existing.bindingsRef = cfg.bindings &&
      existing.agentsRef = cfg.agents && existing.sessionRef = cfg.session with
  | none => exact ⟨⟨JsMap.answers_empty, Nat.zero_le _⟩, rfl⟩
  | some existing =>
    obtain ⟨hsome, hrefs⟩ := Option.filter_eq_some_iff.mp hfilter
    rw [Bool.and_eq_true, Bool.and_eq_true, decide_eq_true_eq, decide_eq_true_eq,
      decide_eq_true_eq] at hrefs
    refine ⟨h.resolved existing hsome, ?_⟩
    rw [Option.getD_some, hrefs.1.1, hrefs.1.2, hrefs.2]

theorem ResolvedRouteCache.Valid.store {cache : ResolvedRouteCache} (h : cache.Valid host heap Q)
    {request : RouteRequest}
    (hseparate : request.Separates (Q ⟨cache.bindingsRef, cache.agentsRef, cache.sessionRef⟩)) :
    (cache.store (buildResolvedRouteCacheKey request) (freshRoute host heap
      ⟨cache.bindingsRef, cache.agentsRef, cache.sessionRef⟩ request)).Valid host heap Q := by
  -- another request with the key is alike, and gets the same route
  have hentry : ∀ other : RouteRequest,
      Q ⟨cache.bindingsRef, cache.agentsRef, cache.sessionRef⟩ other →
        buildResolvedRouteCacheKey other = buildResolvedRouteCacheKey request →
          freshRoute host heap ⟨cache.bindingsRef, cache.agentsRef, cache.sessionRef⟩ request =
            freshRoute host heap ⟨cache.bindingsRef, cache.agentsRef, cache.sessionRef⟩ other :=
    fun other hother hkey =>
      freshRoute_congr (alike_of_key (hseparate other hother hkey.symm) hkey.symm) heap _
  rw [ResolvedRouteCache.store]
  refine ⟨?_, ?_⟩
  · dsimp only
    split_ifs
    · exact JsMap.answers_empty.set hentry
    · exact h.routes.set hentry
  · dsimp only
    split_ifs with hsize
    · exact (show 1 ≤ 4000 by decide)
    · exact Nat.not_lt.mp hsize

/-- A call leaves valid caches, and gets the route that a call without caches gets if its request
is of the kind, as it need not be where the cache of routes is not used. -/
theorem resolveAgentRoute_spec (h : caches.Valid host heap Q) {verbose : Bool}
    {input : ResolveAgentRouteInput}
    (hkey : TAB ∉ (routeRequest host (heap.session cfg.session) input).accountId)
    (hseparate : verbose = false ∧ (heap.session cfg.session).identityLinks = none →
      (routeRequest host (heap.session cfg.session) input).Separates (Q cfg)) :
    ((verbose = false ∧ (heap.session cfg.session).identityLinks = none →
        Q cfg (routeRequest host (heap.session cfg.session) input)) →
      (resolveAgentRoute host heap cfg verbose input caches).1 =
        freshRoute host heap cfg (routeRequest host (heap.session cfg.session) input)) ∧
      (resolveAgentRoute host heap cfg verbose input caches).2.Valid host heap Q := by
  rw [resolveAgentRoute]
  dsimp only
  split_ifs with hcached
  · obtain ⟨hvalid, hrefs⟩ := @resolveRouteCacheForConfig_spec host heap Q cfg caches h
    have hcaches : RouteCaches.Valid host heap Q
        { caches with resolved := some (resolveRouteCacheForConfig cfg caches) } := by
      refine ⟨h.agentLookup, h.evaluated, fun cache hcache => ?_⟩
      obtain rfl := Option.some.inj hcache
      exact hvalid
    split
    · rename_i cachedRoute hget
      refine ⟨fun hrequest => ?_, hcaches⟩
      have hroute := hvalid.routes _ _ hget (routeRequest host (heap.session cfg.session) input)
      rw [hrefs] at hroute
      exact hroute (hrequest hcached) rfl
    · obtain ⟨hroute, hsearched, hresolved⟩ := @searchRoute_spec host heap Q cfg _ hcaches _ hkey
      refine ⟨fun _ => hroute, hsearched.agentLookup, hsearched.evaluated, fun cache hcache => ?_⟩
      rw [hresolved] at hcache
      obtain rfl := Option.some.inj hcache
      rw [hroute]
      -- the route that is stored is the one for the configuration of the cache
      have hstored := @ResolvedRouteCache.Valid.store host heap Q _ hvalid
        (routeRequest host (heap.session cfg.session) input)
      rw [hrefs] at hstored
      exact hstored (hseparate hcached)
  · obtain ⟨hroute, hsearched, -⟩ := @searchRoute_spec host heap Q cfg _ h _ hkey
    exact ⟨fun _ => hroute, hsearched⟩

end Specs

section Runs

variable {host : Host} {heap : Heap} {Q : OpenClawConfig → RouteRequest → Prop}

/-- No cache grows beyond its limit. -/
structure RouteCaches.Bounded (caches : RouteCaches) : Prop where
  evaluated : ∀ cache ∈ caches.evaluated,
    cache.byChannelAccount.size ≤ MAX_EVALUATED_BINDINGS_CACHE_KEYS ∧
      cache.byChannelAccountIndex.size ≤ MAX_EVALUATED_BINDINGS_CACHE_KEYS
  resolved : ∀ cache ∈ caches.resolved, cache.byKey.size ≤ MAX_RESOLVED_ROUTE_CACHE_KEYS

theorem RouteCaches.Valid.bounded {caches : RouteCaches} (h : caches.Valid host heap Q) :
    caches.Bounded := by
  refine ⟨fun cache hcache => ?_, fun cache hcache => (h.resolved cache hcache).size⟩
  have hvalid := h.evaluated cache hcache
  refine ⟨hvalid.size, ?_⟩
  rw [JsMap.size_eq_length_keys, hvalid.keys, ← JsMap.size_eq_length_keys]
  exact hvalid.size

def RouteCall.request (host : Host) (heap : Heap) (call : RouteCall) : RouteRequest :=
  routeRequest host (heap.session call.cfg.session) call.input

/-- The route that a call gets where nothing is cached. -/
def RouteCall.fresh (host : Host) (heap : Heap) (call : RouteCall) : ResolvedAgentRoute :=
  freshRoute host heap call.cfg (routeRequest host (heap.session call.cfg.session) call.input)

/-- The call reads and fills the cache of routes. -/
def RouteCall.UsesCache (heap : Heap) (call : RouteCall) : Prop :=
  call.verbose = false ∧ (heap.session call.cfg.session).identityLinks = none

/-- The peer of the call has an id. -/
def RouteCall.Identified (call : RouteCall) : Prop := ∃ peer ∈ call.input.peer, trim peer.id ≠ []

/-- The peer of the call has an id, if there is one. -/
def RouteCall.Keyed (call : RouteCall) : Prop := ∀ peer ∈ call.input.peer, trim peer.id ≠ []

instance (call : RouteCall) : Decidable call.Identified :=
  inferInstanceAs (Decidable (∃ peer ∈ call.input.peer, trim peer.id ≠ []))

instance (call : RouteCall) : Decidable call.Keyed :=
  inferInstanceAs (Decidable (∀ peer ∈ call.input.peer, trim peer.id ≠ []))

theorem RouteCall.Identified.request {call : RouteCall} (h : call.Identified) :
    (call.request host heap).Identified := by
  obtain ⟨peer, hpeer, hid⟩ := h
  exact ⟨normalizePeer host peer, congrArg (Option.map (normalizePeer host)) hpeer, hid⟩

theorem RouteCall.Keyed.request {call : RouteCall} (h : call.Keyed) :
    (call.request host heap).Keyed := by
  intro peer hsome
  obtain ⟨raw, hraw, rfl⟩ := Option.map_eq_some_iff.mp hsome
  exact h raw hraw

theorem runRouteCalls_spec (hhost : host.LowersAscii) {caches : RouteCaches}
    (h : caches.Valid host heap Q) {calls : List RouteCall}
    (hseparate : ∀ call ∈ calls, call.UsesCache heap →
      (call.request host heap).Separates (Q call.cfg)) :
    List.Forall₂ (fun call route =>
        (call.UsesCache heap → Q call.cfg (call.request host heap)) → route = call.fresh host heap) calls
        (runRouteCalls host heap caches calls).1 ∧
      (runRouteCalls host heap caches calls).2.Valid host heap Q := by
  induction calls generalizing caches with
  | nil => exact ⟨.nil, h⟩
  | cons call calls ih =>
    obtain ⟨hcall, hcalls⟩ := List.forall_mem_cons.mp hseparate
    have hkey : TAB ∉ (call.request host heap).accountId :=
      not_mem_of_isIdUnit (isIdUnit_of_mem_normalizeAccountId hhost _) (by decide)
    obtain ⟨hroute, hvalid⟩ :=
      @resolveAgentRoute_spec host heap Q call.cfg caches h call.verbose call.input hkey hcall
    obtain ⟨hroutes, hrest⟩ := ih hvalid hcalls
    rw [runRouteCalls]
    exact ⟨.cons hroute hroutes, hrest⟩

/-- Whatever was routed before and however the parts of the configuration were replaced, a call
whose peer has an id gets the route that it gets without caches, as does one without a peer if no
call has a peer without an id, and the caches keep within their limits. -/
theorem runRouteCalls_fresh (hhost : host.LowersAscii) (calls : List RouteCall) :
    List.Forall₂ (fun call route => (call.Identified ∨ ∀ other ∈ calls, other.Keyed) →
        route = call.fresh host heap) calls (runRouteCalls host heap .empty calls).1 ∧
      (runRouteCalls host heap .empty calls).2.Bounded := by
  obtain ⟨hroutes, hvalid⟩ := @runRouteCalls_spec host heap (fun _ => RouteRequest.Identified) hhost
    .empty valid_empty calls fun call _ _ => separates_identified _
  refine ⟨?_, hvalid.bounded⟩
  by_cases hkeyed : ∀ call ∈ calls, call.Keyed
  · obtain ⟨hroutes, -⟩ := @runRouteCalls_spec host heap (fun _ => RouteRequest.Keyed) hhost .empty
      valid_empty calls fun call hcall _ => (hkeyed call hcall).request.separates
    refine ((List.forall₂_and_left calls _).mpr ⟨hkeyed, hroutes⟩).imp ?_
    rintro call route ⟨hcall, hroute⟩ -
    exact hroute fun _ => hcall.request
  · refine hroutes.imp fun call route hroute hcall => ?_
    exact hroute fun _ => (hcall.resolve_right hkeyed).request

end Runs

def sampleBinding (agentId peerId : String) : AgentBinding :=
  .route
    { agentId := ofString agentId
      constraint :=
        { channel := some (ofString "Telegram")
          accountId := some (ofString "*")
          peer := some ⟨some (ofString "dm"), some (ofString peerId)⟩
          guildId := none
          teamId := none
          roles := none }
      dmScope := some .perPeer }

/-- The second reference is to bindings that replace the first ones. -/
def sampleHeap : Heap where
  bindings ref := if ref = 0 then [sampleBinding "work" "42"] else [sampleBinding "home" "*"]
  agents _ := ⟨none, []⟩
  session _ := ⟨none, none, none⟩

def sampleCall (bindingsRef : ℕ) (peerId : String) : RouteCall where
  cfg := ⟨bindingsRef, 0, 0⟩
  verbose := false
  input :=
    { channel := ofString "telegram"
      accountId := none
      peer := some ⟨.direct, ofString peerId⟩
      dmScope := none
      parentPeer := none
      guildId := none
      teamId := none
      memberRoleIds := none }

/-- The third call has a peer without an id. -/
def sampleCalls : List RouteCall :=
  [sampleCall 0 "42", sampleCall 0 " 42 ", sampleCall 0 " ", sampleCall 1 "42"]

theorem runRouteCalls_fresh_sample :
    List.Forall₂ (fun call route => (call.Identified ∨ ∀ other ∈ sampleCalls, other.Keyed) →
        route = call.fresh asciiHost sampleHeap) sampleCalls
        (runRouteCalls asciiHost sampleHeap .empty sampleCalls).1 ∧
      (runRouteCalls asciiHost sampleHeap .empty sampleCalls).2.Bounded :=
  runRouteCalls_fresh (fun _ _ => rfl) sampleCalls

end Flashclaw.Routing
