import Flashclaw.Routing.Routes

/-!
# Peers without ids

`formatRouteCachePeer` in `src/routing/resolve-route.ts` writes a peer without an id as it writes no
peer at all, which a session key tells apart.  Where no two such calls meet, a sequence of calls gets
the routes of a plain scan of the tiers.
-/

namespace Flashclaw.Routing

open Utf16

/-- The route of a call by a scan of all bindings, tier by tier. -/
def RouteCall.scanned (host : Host) (heap : Heap) (call : RouteCall) : ResolvedAgentRoute :=
  chooseRoute host (buildAgentLookup host (heap.agents call.cfg.agents)) (heap.session call.cfg.session)
    (call.request host heap)
    (routeChoice host (heap.agents call.cfg.agents)
      (scanRoute host (listRouteBindings (heap.bindings call.cfg.bindings)) (call.request host heap)))

/-- Calls that share an entry of the cache of routes, but not the peer. -/
def RouteCall.Confused (host : Host) (heap : Heap) (a b : RouteCall) : Prop :=
  (a.UsesCache heap ∧ b.UsesCache heap ∧ a.cfg = b.cfg) ∧
    buildResolvedRouteCacheKey (a.request host heap) = buildResolvedRouteCacheKey (b.request host heap) ∧
    (a.request host heap).peer ≠ (b.request host heap).peer

instance (host : Host) (heap : Heap) (a b : RouteCall) : Decidable (a.Confused host heap b) :=
  inferInstanceAs (Decidable (((_ ∧ _ = none) ∧ (_ ∧ _ = none) ∧ _) ∧ _ ∧ _))

section Keys

variable {a b : RouteRequest}

theorem knownParent_eq (request : RouteRequest) : request.knownParent = known request.parentPeer := rfl

/-- Requests have one key when they differ in the order of roles and in peers without ids only. -/
theorem routeCacheKey_eq_iff : buildResolvedRouteCacheKey a = buildResolvedRouteCacheKey b ↔
    a.channel = b.channel ∧ a.accountId = b.accountId ∧ known a.peer = known b.peer ∧
      a.knownParent = b.knownParent ∧ a.guildId = b.guildId ∧ a.teamId = b.teamId ∧
      a.memberRoleIds.Perm b.memberRoleIds ∧ a.dmScope = b.dmScope := by
  constructor
  · exact routeCacheKey_parts
  · rintro ⟨hchannel, haccount, hpeer, hparent, hguild, hteam, hroles, hscope⟩
    have hsorted : a.memberRoleIds.insertionSort (· ≤ ·) = b.memberRoleIds.insertionSort (· ≤ ·) :=
      List.Perm.eq_of_pairwise' (List.pairwise_insertionSort _ _) (List.pairwise_insertionSort _ _)
        (((List.perm_insertionSort _ _).trans hroles).trans (List.perm_insertionSort _ _).symm)
    rw [knownParent_eq, knownParent_eq] at hparent
    rw [buildResolvedRouteCacheKey, buildResolvedRouteCacheKey, routeCacheKeyValue, routeCacheKeyValue,
      formatRouteCachePeer_known, formatRouteCachePeer_known, formatRouteCachePeer_known,
      formatRouteCachePeer_known, hchannel, haccount, hpeer, hparent, hguild, hteam, hsorted, hscope]

/-- Of two peers that one key stands for, neither has an id unless they are the same. -/
theorem known_eq_none (hkey : buildResolvedRouteCacheKey a = buildResolvedRouteCacheKey b)
    (hpeer : a.peer ≠ b.peer) : known a.peer = none ∧ known b.peer = none := by
  have hknown := (routeCacheKey_eq_iff.mp hkey).2.2.1
  rw [← hknown, and_self]
  by_contra hsome
  obtain ⟨peer, hsame⟩ := Option.ne_none_iff_exists'.mp hsome
  have hsame' : known b.peer = some peer := hknown.symm.trans hsame
  exact hpeer ((Option.filter_eq_some_iff.mp hsame).1.trans
    (Option.filter_eq_some_iff.mp hsame').1.symm)

end Keys

section Runs

variable {host : Host} {heap : Heap}

theorem fresh_eq_scanned (call : RouteCall) : call.fresh host heap = call.scanned host heap := by
  rw [RouteCall.fresh, RouteCall.scanned, freshRoute, findRoute,
    searchTiers_indexed (pairwise_evaluatedBindingsFor _ _ _) (normal_evaluatedBindingsFor _ _ _),
    searchTiers_evaluated]
  rfl

/-- The cache of routes after a call, for the configuration of the call. -/
theorem get?_resolveAgentRoute {Q : OpenClawConfig → RouteRequest → Prop} {caches : RouteCaches}
    (h : caches.Valid host heap Q) {call : RouteCall}
    (hkey : TAB ∉ (call.request host heap).accountId) (huses : call.UsesCache heap) :
    (resolveRouteCacheForConfig call.cfg
        (resolveAgentRoute host heap call.cfg call.verbose call.input caches).2).byKey.get?
          (buildResolvedRouteCacheKey (call.request host heap)) =
      some (resolveAgentRoute host heap call.cfg call.verbose call.input caches).1 := by
  obtain ⟨hvalid, hrefs⟩ := @resolveRouteCacheForConfig_spec host heap Q call.cfg caches h
  obtain ⟨hbindings, hagents, hsession⟩ := OpenClawConfig.mk.inj hrefs
  have hread : ∀ {cache : ResolvedRouteCache} {caches' : RouteCaches},
      caches'.resolved = some cache → cache.bindingsRef = call.cfg.bindings →
        cache.agentsRef = call.cfg.agents → cache.sessionRef = call.cfg.session →
          resolveRouteCacheForConfig call.cfg caches' = cache := by
    intro cache caches' hcache hb ha hs
    rw [resolveRouteCacheForConfig, hcache, Option.filter_some, if_pos, Option.getD_some]
    simp [hb, ha, hs]
  have hcached : call.verbose = false ∧ (heap.session call.cfg.session).identityLinks = none := huses
  rw [resolveAgentRoute]
  dsimp only
  rw [if_pos hcached]
  split
  · rename_i cachedRoute hget
    rw [hread rfl hbindings hagents hsession]
    exact hget
  · have hcaches : RouteCaches.Valid host heap Q
        { caches with resolved := some (resolveRouteCacheForConfig call.cfg caches) } := by
      refine ⟨h.agentLookup, h.evaluated, fun cache hcache => ?_⟩
      obtain rfl := Option.some.inj hcache
      exact hvalid
    obtain ⟨-, -, hresolved⟩ := @searchRoute_spec host heap Q call.cfg _ hcaches _ hkey
    rw [RouteCall.request] at hresolved ⊢
    dsimp only at hresolved ⊢
    rw [hresolved, Option.map_some,
      @hread (ResolvedRouteCache.store _ _ _) _ rfl hbindings hagents hsession, ResolvedRouteCache.store]
    -- the route just stored is there even where the cache was cleared for it
    dsimp only
    split_ifs <;> exact JsMap.get?_set_self _ _ _

/-- A call that follows one with its key gets the same route. -/
theorem resolveAgentRoute_again {Q : OpenClawConfig → RouteRequest → Prop} {caches : RouteCaches}
    (h : caches.Valid host heap Q) {a b : RouteCall} (hkey : TAB ∉ (a.request host heap).accountId)
    (huses : a.UsesCache heap) (huses' : b.UsesCache heap) (hcfg : a.cfg = b.cfg)
    (hsame : buildResolvedRouteCacheKey (a.request host heap) =
      buildResolvedRouteCacheKey (b.request host heap)) :
    (resolveAgentRoute host heap b.cfg b.verbose b.input
        (resolveAgentRoute host heap a.cfg a.verbose a.input caches).2).1 =
      (resolveAgentRoute host heap a.cfg a.verbose a.input caches).1 := by
  have hget := get?_resolveAgentRoute h hkey huses
  rw [hsame, hcfg] at hget
  have hcached : b.verbose = false ∧ (heap.session b.cfg.session).identityLinks = none := huses'
  rw [hcfg]
  conv_lhs => rw [resolveAgentRoute]
  dsimp only
  rw [if_pos hcached]
  split
  · rename_i cachedRoute hhit
    exact Option.some.inj (hhit.symm.trans hget)
  · rename_i hmiss
    exact absurd (hmiss.symm.trans hget) (Option.some_ne_none _).symm

/-- Of two confused calls, the second gets the route of the first. -/
theorem runRouteCalls_pair (hhost : host.LowersAscii) {a b : RouteCall} (h : a.Confused host heap b) :
    (runRouteCalls host heap .empty [a, b]).1 = [a.scanned host heap, a.scanned host heap] := by
  obtain ⟨⟨huses, huses', hcfg⟩, hsame, -⟩ := h
  let Q : OpenClawConfig → RouteRequest → Prop := fun _ request => request = a.request host heap
  have hkey : TAB ∉ (a.request host heap).accountId :=
    not_mem_of_isIdUnit (isIdUnit_of_mem_normalizeAccountId hhost _) (by decide)
  have hroute := (@resolveAgentRoute_spec host heap Q a.cfg .empty valid_empty a.verbose a.input
    hkey fun _ other hother _ => congrArg RouteRequest.peer hother.symm).1 fun _ => rfl
  have hagain := resolveAgentRoute_again (@valid_empty host heap Q) hkey huses huses' hcfg hsame
  refine Eq.trans (b := [(resolveAgentRoute host heap a.cfg a.verbose a.input .empty).1,
    (resolveAgentRoute host heap b.cfg b.verbose b.input
      (resolveAgentRoute host heap a.cfg a.verbose a.input .empty).2).1]) rfl ?_
  rw [hagain, hroute]
  exact congrArg (fun route => [route, route]) (fresh_eq_scanned a)

/-- In a sequence in which no two calls are confused, each call gets the route of a plain scan,
peers without ids included.  Where two are, the second gets the route of the first. -/
theorem runRouteCalls_eq_scanned (hhost : host.LowersAscii) :
    (∀ calls : List RouteCall, (∀ a ∈ calls, ∀ b ∈ calls, ¬a.Confused host heap b) →
      (runRouteCalls host heap .empty calls).1 = calls.map (RouteCall.scanned host heap)) ∧
    ∀ a b : RouteCall, a.Confused host heap b →
      (runRouteCalls host heap .empty [a, b]).1 = [a.scanned host heap, a.scanned host heap] := by
  refine ⟨fun calls h => ?_, fun a b h => runRouteCalls_pair hhost h⟩
  -- the cache is right for the requests of the calls that use it
  let Q : OpenClawConfig → RouteRequest → Prop := fun cfg request =>
    ∃ call ∈ calls, call.UsesCache heap ∧ call.cfg = cfg ∧ call.request host heap = request
  obtain ⟨hroutes, -⟩ := @runRouteCalls_spec host heap Q hhost .empty valid_empty calls (by
    rintro call hcall huses - ⟨other, hother, huses', hcfg, rfl⟩ hsame
    by_contra hpeer
    exact h call hcall other hother ⟨⟨huses, huses', hcfg.symm⟩, hsame, hpeer⟩)
  have hall : List.Forall₂ (fun call route => call.scanned host heap = route) calls
      (runRouteCalls host heap .empty calls).1 := by
    refine ((List.forall₂_and_left calls _).mpr ⟨fun call hcall => hcall, hroutes⟩).imp ?_
    rintro call route ⟨hcall, hroute⟩
    rw [hroute fun huses => ⟨call, hcall, huses, rfl, rfl⟩, fresh_eq_scanned]
  have heq := List.forall₂_map_left_iff.mpr hall
  rw [List.forall₂_eq_eq_eq] at heq
  exact heq.symm

end Runs

/-- A call in an account, with a peer or without one. -/
def accountCall (accountId : Option Utf16) (peer : Option RoutePeer) : RouteCall where
  cfg := ⟨0, 0, 0⟩
  verbose := false
  input :=
    { channel := ofString "telegram"
      accountId := accountId
      peer := peer
      dmScope := none
      parentPeer := none
      guildId := none
      teamId := none
      memberRoleIds := none }

/-- A group without an id, twice, and no peer in another account. -/
def separateCalls : List RouteCall :=
  [accountCall none (some ⟨.group, []⟩), accountCall (some (ofString "work")) none,
    accountCall none (some ⟨.group, ofString " "⟩), accountCall none (some ⟨.direct, ofString "42"⟩)]

/-- No peer, and then a group without an id. -/
theorem confused_sample : (accountCall none none).Confused asciiHost sampleHeap
    (accountCall none (some ⟨.group, []⟩)) := by decide +kernel

theorem runRouteCalls_eq_scanned_sample :
    (runRouteCalls asciiHost sampleHeap .empty separateCalls).1 =
        separateCalls.map (RouteCall.scanned asciiHost sampleHeap) ∧
      (runRouteCalls asciiHost sampleHeap .empty
          [accountCall none none, accountCall none (some ⟨.group, []⟩)]).1 =
        [(accountCall none none).scanned asciiHost sampleHeap,
          (accountCall none none).scanned asciiHost sampleHeap] := by
  obtain ⟨hseparate, hconfused⟩ :=
    @runRouteCalls_eq_scanned asciiHost sampleHeap fun _ _ => rfl
  exact ⟨hseparate separateCalls (by decide +kernel), hconfused _ _ confused_sample⟩

theorem runRouteCalls_confused : ¬∀ calls : List RouteCall,
    (runRouteCalls asciiHost sampleHeap .empty calls).1 =
      calls.map (RouteCall.scanned asciiHost sampleHeap) := by
  intro h
  have hroutes := (runRouteCalls_pair (fun _ _ => rfl) confused_sample).symm.trans (h _)
  -- the group has a session of its own
  have hkeys := congrArg (List.map ResolvedAgentRoute.sessionKey) hroutes
  revert hkeys
  decide +kernel

end Flashclaw.Routing
