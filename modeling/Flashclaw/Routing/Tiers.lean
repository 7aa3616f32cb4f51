import Flashclaw.Routing.Bindings

/-!
# The tiers of a route

`src/routing/resolve-route.ts` looks for an agent in eight tiers, from the bindings of one peer to
those of a whole channel.  A tier reads its candidates from an index.  The search through the indexes
finds what a scan of the configuration finds.
-/

namespace Flashclaw.Routing

open Utf16

inductive Tier where
  | peer
  | peerParent
  | peerWildcard
  | guildRoles
  | guild
  | team
  | account
  | channel
deriving DecidableEq

def TIERS : List Tier :=
  [.peer, .peerParent, .peerWildcard, .guildRoles, .guild, .team, .account, .channel]

/-- What is asked for, in normal form. -/
structure RouteRequest where
  channel : Utf16
  accountId : Utf16
  peer : Option RoutePeer
  parentPeer : Option RoutePeer
  guildId : Utf16
  teamId : Utf16
  memberRoleIds : List Utf16
  dmScope : DmScope
  trim_guildId : trim guildId = guildId
  trim_teamId : trim teamId = teamId

structure BindingScope where
  peer : Option RoutePeer
  guildId : Utf16
  teamId : Utf16
  groupSpace : Option Utf16
  memberRoleIds : List Utf16

def scopeIdMatches (constraint : Option Utf16) (exactId groupSpace : Utf16) : Bool :=
  match constraint with
  | none => true
  | some id => id = [] || id = exactId || id = groupSpace

def routeBindingScopeMatches (constraint : NormalizedBindingMatch) (scope : BindingScope) : Bool :=
  let groupSpace := normalizeId scope.groupSpace
  scopeIdMatches constraint.guildId (normalizeId (some scope.guildId)) groupSpace &&
    scopeIdMatches constraint.teamId (normalizeId (some scope.teamId)) groupSpace &&
    match normalizeRouteBindingRoles constraint.roles with
    | none => true
    | some roles => roles.any fun role => role ∈ scope.memberRoleIds

def scopePeerMatches : NormalizedPeerConstraint → Option RoutePeer → Bool
  | .none, _ => true
  | .valid kind id, some peer => peerKindMatches kind peer.kind && peer.id = id
  | .wildcardKind kind, some peer => peerKindMatches kind peer.kind
  | _, _ => false

def matchesBindingScope (constraint : NormalizedBindingMatch) (scope : BindingScope) : Bool :=
  scopePeerMatches constraint.peer scope.peer && routeBindingScopeMatches constraint scope

/-- The parent of a thread, if it has an id. -/
def RouteRequest.knownParent (request : RouteRequest) : Option RoutePeer :=
  request.parentPeer.filter fun parentPeer => parentPeer.id ≠ []

def RouteRequest.scope (request : RouteRequest) (peer : Option RoutePeer) : BindingScope :=
  ⟨peer, request.guildId, request.teamId, none, request.memberRoleIds⟩

namespace Tier

def enabled (request : RouteRequest) : Tier → Bool
  | peer | peerWildcard => request.peer.isSome
  | peerParent => request.knownParent.isSome
  | guildRoles => request.guildId ≠ [] && request.memberRoleIds ≠ []
  | guild => request.guildId ≠ []
  | team => request.teamId ≠ []
  | account | channel => true

def scopePeer (request : RouteRequest) : Tier → Option RoutePeer
  | peerParent => request.knownParent
  | _ => request.peer

def candidates (request : RouteRequest) (index : EvaluatedBindingsIndex) :
    Tier → List EvaluatedBinding
  | peer => collectPeerIndexedBindings index request.peer
  | peerParent => collectPeerIndexedBindings index request.parentPeer
  | peerWildcard => index.byPeerWildcard
  | guildRoles => if request.guildId = [] then [] else index.byGuildWithRoles.getAll request.guildId
  | guild => if request.guildId = [] then [] else index.byGuild.getAll request.guildId
  | team => if request.teamId = [] then [] else index.byTeam.getAll request.teamId
  | account => index.byAccount
  | channel => index.byChannel

def predicate (constraint : NormalizedBindingMatch) : Tier → Bool
  | peer | peerParent =>
    match constraint.peer with
    | .valid _ _ => true
    | _ => false
  | peerWildcard =>
    match constraint.peer with
    | .wildcardKind _ => true
    | _ => false
  | guildRoles => constraint.guildId.isSome && constraint.roles.isSome
  | guild => constraint.guildId.isSome && constraint.roles.isNone
  | team => constraint.teamId.isSome
  | account => constraint.accountPattern ≠ STAR
  | channel => constraint.accountPattern = STAR

/-- A binding is one that a tier looks for. -/
def accepts (request : RouteRequest) (tier : Tier) (constraint : NormalizedBindingMatch) : Bool :=
  tier.predicate constraint && matchesBindingScope constraint (request.scope (tier.scopePeer request))

end Tier

/-- The first binding of the first tier that has one. -/
def searchTiers (request : RouteRequest) (candidates : Tier → List EvaluatedBinding) :
    Option (AgentRouteBinding × Tier) :=
  TIERS.findSome? fun tier =>
    if tier.enabled request then
      ((candidates tier).find? fun candidate => tier.accepts request candidate.constraint).map
        fun matched => (matched.binding, tier)
    else none

/-- The search of `resolveAgentRoute`, through the indexes. -/
def findRoute (host : Host) (bindings : List AgentRouteBinding) (request : RouteRequest) :
    Option (AgentRouteBinding × Tier) :=
  let evaluated := evaluatedBindingsFor (buildEvaluatedBindingsByChannel host bindings)
    request.channel request.accountId
  searchTiers request fun tier => tier.candidates request (buildEvaluatedBindingsIndex evaluated)

/-- A binding of the configuration is for the channel and the account of a request. -/
def concerns (host : Host) (request : RouteRequest) (binding : AgentRouteBinding) : Bool :=
  let pattern := trim (binding.constraint.accountId.getD [])
  let channel := normalizeToken host (binding.constraint.channel.getD [])
  channel ≠ [] && channel = request.channel &&
    (pattern = STAR || resolveAccountPatternKey host pattern = request.accountId)

/-- Each tier reads all bindings, in their order. -/
def scanRoute (host : Host) (bindings : List AgentRouteBinding) (request : RouteRequest) :
    Option (AgentRouteBinding × Tier) :=
  TIERS.findSome? fun tier =>
    if tier.enabled request then
      (bindings.find? fun binding => concerns host request binding &&
        tier.accepts request (normalizeBindingMatch host binding.constraint)).map
          fun matched => (matched, tier)
    else none

/-- Ids and roles that are there are not empty. -/
structure NormalizedBindingMatch.Normal (constraint : NormalizedBindingMatch) : Prop where
  guildId : constraint.guildId ≠ some []
  teamId : constraint.teamId ≠ some []
  roles : constraint.roles ≠ some []

section Normal

variable {host : Host} {request : RouteRequest} {constraint : NormalizedBindingMatch}

theorem constraintId_ne (value : Option Utf16) : constraintId value ≠ some [] := by
  intro h
  rw [constraintId] at h
  split_ifs at h with hempty
  exact hempty (Option.some.inj h)

theorem normalizeRouteBindingRoles_ne (value : Option (List Utf16)) :
    normalizeRouteBindingRoles value ≠ some [] := by
  intro h
  have hne := (Option.filter_eq_some_iff.mp h).2
  exact absurd hne (by decide)

theorem normal_normalizeBindingMatch (binding : AgentBindingMatch) :
    (normalizeBindingMatch host binding).Normal :=
  ⟨constraintId_ne _, constraintId_ne _, normalizeRouteBindingRoles_ne _⟩

/-- A request is in no space of groups, so that an id of a constraint is the id asked for. -/
theorem eq_of_scopeIdMatches {id exactId : Utf16} (hid : some id ≠ some [])
    (h : scopeIdMatches (some id) exactId (normalizeId none) = true) : id = exactId ∧ exactId ≠ [] := by
  have hne : id ≠ [] := fun heq => hid (congrArg some heq)
  rw [scopeIdMatches, Bool.or_eq_true, Bool.or_eq_true, decide_eq_true_eq, decide_eq_true_eq,
    decide_eq_true_eq] at h
  obtain rfl := (h.resolve_right hne).resolve_left hne
  exact ⟨rfl, hne⟩

/-- What a constraint that matches says of its guild, team and roles. -/
theorem routeBindingScopeMatches_scope (hnormal : constraint.Normal) {peer : Option RoutePeer}
    (h : routeBindingScopeMatches constraint (request.scope peer) = true) :
    (∀ guildId, constraint.guildId = some guildId → guildId = request.guildId ∧ request.guildId ≠ []) ∧
      (∀ teamId, constraint.teamId = some teamId → teamId = request.teamId ∧ request.teamId ≠ []) ∧
      (constraint.roles.isSome = true → request.memberRoleIds ≠ []) := by
  rw [routeBindingScopeMatches, Bool.and_eq_true, Bool.and_eq_true] at h
  obtain ⟨⟨hguild, hteam⟩, hroles⟩ := h
  have htrimGuild : normalizeId (some (request.scope peer).guildId) = request.guildId :=
    request.trim_guildId
  have htrimTeam : normalizeId (some (request.scope peer).teamId) = request.teamId :=
    request.trim_teamId
  rw [htrimGuild] at hguild
  rw [htrimTeam] at hteam
  refine ⟨fun guildId hid => ?_, fun teamId hid => ?_, fun hsome hempty => ?_⟩
  · rw [hid] at hguild
    exact eq_of_scopeIdMatches (hid ▸ hnormal.guildId) hguild
  · rw [hid] at hteam
    exact eq_of_scopeIdMatches (hid ▸ hnormal.teamId) hteam
  · obtain ⟨roles, hsome⟩ := Option.isSome_iff_exists.mp hsome
    have hne : roles ≠ [] := fun heq => hnormal.roles (heq ▸ hsome)
    have hkept : normalizeRouteBindingRoles (some roles) = some roles :=
      Option.filter_eq_some_iff.mpr ⟨rfl, decide_eq_true hne⟩
    rw [hsome, hkept] at hroles
    obtain ⟨role, -, hrole⟩ := List.any_eq_true.mp hroles
    have hrole : role ∈ request.memberRoleIds := of_decide_eq_true hrole
    rw [hempty] at hrole
    exact List.not_mem_nil hrole

end Normal

namespace Tier

/-- The tier whose index holds the bindings of a class. -/
def home : BindingClass → Tier
  | .peer _ _ => peer
  | .wildcard => peerWildcard
  | .guildWithRoles _ => guildRoles
  | .guild _ => guild
  | .team _ => team
  | .account => account
  | .channel => channel

/-- The classes of the candidates. -/
def holds (request : RouteRequest) : Tier → BindingClass → Bool
  | peer, bindingClass => request.peer.any fun peer => bindingClass.isPeer peer
  | peerParent, bindingClass => request.parentPeer.any fun peer => bindingClass.isPeer peer
  | peerWildcard, bindingClass => bindingClass = .wildcard
  | guildRoles, bindingClass =>
    request.guildId ≠ [] && bindingClass = .guildWithRoles request.guildId
  | guild, bindingClass => request.guildId ≠ [] && bindingClass = .guild request.guildId
  | team, bindingClass => request.teamId ≠ [] && bindingClass = .team request.teamId
  | account, bindingClass => bindingClass = .account
  | channel, bindingClass => bindingClass = .channel

end Tier

section Candidates

variable {request : RouteRequest} {bindings : List EvaluatedBinding}

theorem collectPeerIndexedBindings_any (hbindings : bindings.Pairwise fun a b => a.order < b.order)
    (peer : Option RoutePeer) :
    collectPeerIndexedBindings (buildEvaluatedBindingsIndex bindings) peer =
      bindings.filter fun binding =>
        peer.any fun peer => binding.constraint.bindingClass.isPeer peer := by
  cases peer with
  | none => exact (List.filter_false bindings).symm
  | some peer => exact collectPeerIndexedBindings_eq hbindings peer

/-- The candidates for an id, if there is one. -/
theorem ite_filter (id : Utf16) (p : EvaluatedBinding → Bool) :
    (if id = [] then [] else bindings.filter p) = bindings.filter fun a => id ≠ [] && p a := by
  split_ifs with h
  · simp [h]
  · simp [h]

theorem candidates_eq (hbindings : bindings.Pairwise fun a b => a.order < b.order) (tier : Tier) :
    tier.candidates request (buildEvaluatedBindingsIndex bindings) =
      bindings.filter fun binding => tier.holds request binding.constraint.bindingClass := by
  cases tier with
  | peer => exact collectPeerIndexedBindings_any hbindings request.peer
  | peerParent => exact collectPeerIndexedBindings_any hbindings request.parentPeer
  | peerWildcard => exact byPeerWildcard_eq bindings
  | guildRoles =>
    rw [Tier.candidates, getAll_byGuildWithRoles]
    exact ite_filter request.guildId _
  | guild =>
    rw [Tier.candidates, getAll_byGuild]
    exact ite_filter request.guildId _
  | team =>
    rw [Tier.candidates, getAll_byTeam]
    exact ite_filter request.teamId _
  | account => exact byAccount_eq bindings
  | channel => exact byChannel_eq bindings

end Candidates

/-- A constraint that names no peers. -/
def NormalizedBindingMatch.Peerless (constraint : NormalizedBindingMatch) : Prop :=
  constraint.peer = .none ∨ constraint.peer = .invalid

/-- What a class says of a constraint. -/
def BindingClass.Describes (constraint : NormalizedBindingMatch) : BindingClass → Prop
  | .peer kind id => constraint.peer = .valid kind id
  | .wildcard => ∃ kind, constraint.peer = .wildcardKind kind
  | .guildWithRoles guildId =>
    constraint.Peerless ∧ constraint.guildId = some guildId ∧ constraint.roles.isSome = true
  | .guild guildId =>
    constraint.Peerless ∧ constraint.guildId = some guildId ∧ constraint.roles = none
  | .team teamId =>
    constraint.Peerless ∧ constraint.guildId = none ∧ constraint.teamId = some teamId
  | .account => constraint.Peerless ∧ constraint.guildId = none ∧ constraint.teamId = none ∧
      constraint.accountPattern ≠ STAR
  | .channel => constraint.Peerless ∧ constraint.guildId = none ∧ constraint.teamId = none ∧
      constraint.accountPattern = STAR

section Home

variable {request : RouteRequest} {constraint : NormalizedBindingMatch}

theorem describes_bindingClass (constraint : NormalizedBindingMatch) :
    constraint.bindingClass.Describes constraint := by
  obtain ⟨accountPattern, peer, guildId, teamId, roles⟩ := constraint
  have hpeerless : ∀ peer : NormalizedPeerConstraint, peer = .none ∨ peer = .invalid →
      BindingClass.Describes ⟨accountPattern, peer, guildId, teamId, roles⟩
        (NormalizedBindingMatch.bindingClass ⟨accountPattern, peer, guildId, teamId, roles⟩) := by
    intro peer hpeer
    have hclass : NormalizedBindingMatch.bindingClass ⟨accountPattern, peer, guildId, teamId, roles⟩ =
        NormalizedBindingMatch.bindingClass ⟨accountPattern, .none, guildId, teamId, roles⟩ := by
      rcases hpeer with rfl | rfl <;> rfl
    rw [hclass]
    cases guildId with
    | some guildId =>
      cases roles with
      | some roles => exact ⟨hpeer, rfl, rfl⟩
      | none => exact ⟨hpeer, rfl, rfl⟩
    | none =>
      cases teamId with
      | some teamId => exact ⟨hpeer, rfl, rfl⟩
      | none =>
        show BindingClass.Describes _ (if accountPattern ≠ STAR then .account else .channel)
        by_cases hstar : accountPattern = STAR
        · rw [if_neg (not_not_intro hstar)]
          exact ⟨hpeer, rfl, rfl, hstar⟩
        · rw [if_pos hstar]
          exact ⟨hpeer, rfl, rfl, hstar⟩
  cases peer with
  | valid kind id => rfl
  | wildcardKind kind => exact ⟨kind, rfl⟩
  | none => exact hpeerless .none (.inl rfl)
  | invalid => exact hpeerless .invalid (.inr rfl)

theorem home_ne_peerParent (bindingClass : BindingClass) : Tier.home bindingClass ≠ .peerParent := by
  cases bindingClass <;> exact Tier.noConfusion

theorem predicate_home (constraint : NormalizedBindingMatch) :
    (Tier.home constraint.bindingClass).predicate constraint = true := by
  have hdescribes := describes_bindingClass constraint
  cases hclass : constraint.bindingClass with
  | peer kind id =>
    rw [hclass] at hdescribes
    have hpeer : constraint.peer = .valid kind id := hdescribes
    rw [Tier.home, Tier.predicate, hpeer]
  | wildcard =>
    rw [hclass] at hdescribes
    obtain ⟨kind, hpeer⟩ := hdescribes
    rw [Tier.home, Tier.predicate, hpeer]
  | guildWithRoles guildId =>
    rw [hclass] at hdescribes
    obtain ⟨-, hguildId, hroles⟩ := hdescribes
    rw [Tier.home, Tier.predicate, hguildId, hroles]
    rfl
  | guild guildId =>
    rw [hclass] at hdescribes
    obtain ⟨-, hguildId, hroles⟩ := hdescribes
    rw [Tier.home, Tier.predicate, hguildId, hroles]
    rfl
  | team teamId =>
    rw [hclass] at hdescribes
    obtain ⟨-, -, hteamId⟩ := hdescribes
    rw [Tier.home, Tier.predicate, hteamId]
    rfl
  | account =>
    rw [hclass] at hdescribes
    exact decide_eq_true hdescribes.2.2.2
  | channel =>
    rw [hclass] at hdescribes
    exact decide_eq_true hdescribes.2.2.2

/-- A tier for the peer of a request takes only what that peer's home tiers come before or are. -/
theorem home_of_predicate {tier : Tier} (htier : tier ≠ .peerParent)
    (h : tier.predicate constraint = true) : Tier.home constraint.bindingClass = tier ∨
      Tier.home constraint.bindingClass ∈ TIERS.takeWhile (· ≠ tier) := by
  have hdescribes := describes_bindingClass constraint
  -- the tiers of peers ask for a constraint on peers
  have hpeerless : ∀ {p : Prop}, constraint.Peerless → tier = .peer ∨ tier = .peerWildcard → p := by
    rintro p (hpeer | hpeer) (rfl | rfl) <;> rw [Tier.predicate, hpeer] at h <;> cases h
  cases hclass : constraint.bindingClass with
  | peer kind id =>
    show Tier.peer = tier ∨ Tier.peer ∈ TIERS.takeWhile (· ≠ tier)
    cases tier <;> decide
  | wildcard =>
    rw [hclass] at hdescribes
    obtain ⟨kind, hpeer⟩ := hdescribes
    show Tier.peerWildcard = tier ∨ Tier.peerWildcard ∈ TIERS.takeWhile (· ≠ tier)
    cases tier with
    | peer =>
      rw [Tier.predicate, hpeer] at h
      cases h
    | peerParent => exact absurd rfl htier
    | _ => decide
  | guildWithRoles guildId =>
    rw [hclass] at hdescribes
    show Tier.guildRoles = tier ∨ Tier.guildRoles ∈ TIERS.takeWhile (· ≠ tier)
    cases tier with
    | peer => exact hpeerless hdescribes.1 (.inl rfl)
    | peerWildcard => exact hpeerless hdescribes.1 (.inr rfl)
    | peerParent => exact absurd rfl htier
    | _ => decide
  | guild guildId =>
    rw [hclass] at hdescribes
    obtain ⟨hpeer, -, hroles⟩ := hdescribes
    show Tier.guild = tier ∨ Tier.guild ∈ TIERS.takeWhile (· ≠ tier)
    cases tier with
    | peer => exact hpeerless hpeer (.inl rfl)
    | peerWildcard => exact hpeerless hpeer (.inr rfl)
    | guildRoles =>
      rw [Tier.predicate, hroles, Bool.and_eq_true] at h
      cases h.2
    | peerParent => exact absurd rfl htier
    | _ => decide
  | team teamId =>
    rw [hclass] at hdescribes
    obtain ⟨hpeer, hguildId, -⟩ := hdescribes
    show Tier.team = tier ∨ Tier.team ∈ TIERS.takeWhile (· ≠ tier)
    cases tier with
    | peer => exact hpeerless hpeer (.inl rfl)
    | peerWildcard => exact hpeerless hpeer (.inr rfl)
    | guildRoles | guild =>
      rw [Tier.predicate, hguildId, Bool.and_eq_true] at h
      cases h.1
    | peerParent => exact absurd rfl htier
    | _ => decide
  | account =>
    rw [hclass] at hdescribes
    obtain ⟨hpeer, hguildId, hteamId, -⟩ := hdescribes
    show Tier.account = tier ∨ Tier.account ∈ TIERS.takeWhile (· ≠ tier)
    cases tier with
    | peer => exact hpeerless hpeer (.inl rfl)
    | peerWildcard => exact hpeerless hpeer (.inr rfl)
    | guildRoles | guild =>
      rw [Tier.predicate, hguildId, Bool.and_eq_true] at h
      cases h.1
    | team =>
      rw [Tier.predicate, hteamId] at h
      cases h
    | peerParent => exact absurd rfl htier
    | _ => decide
  | channel =>
    rw [hclass] at hdescribes
    obtain ⟨hpeer, hguildId, hteamId, hstar⟩ := hdescribes
    show Tier.channel = tier ∨ Tier.channel ∈ TIERS.takeWhile (· ≠ tier)
    cases tier with
    | peer => exact hpeerless hpeer (.inl rfl)
    | peerWildcard => exact hpeerless hpeer (.inr rfl)
    | guildRoles | guild =>
      rw [Tier.predicate, hguildId, Bool.and_eq_true] at h
      cases h.1
    | team =>
      rw [Tier.predicate, hteamId] at h
      cases h
    | account => exact absurd hstar (of_decide_eq_true h)
    | peerParent => exact absurd rfl htier
    | _ => decide

theorem accepts_iff {tier : Tier} : tier.accepts request constraint = true ↔
    tier.predicate constraint = true ∧
      matchesBindingScope constraint (request.scope (tier.scopePeer request)) = true := by
  rw [Tier.accepts, Bool.and_eq_true]

theorem scopePeer_of_ne {tier : Tier} (htier : tier ≠ .peerParent) :
    tier.scopePeer request = request.peer := by
  cases tier <;> first | rfl | exact absurd rfl htier

/-- A constraint on a peer that matches is of the class of that peer. -/
theorem exists_isPeer {kind : ChatType} {id : Utf16} {scopePeer : Option RoutePeer}
    (h : scopePeerMatches (.valid kind id) scopePeer = true) :
    (scopePeer.any fun peer => BindingClass.isPeer peer (.peer kind id)) = true := by
  cases scopePeer with
  | none => cases h
  | some peer =>
    rw [scopePeerMatches, Bool.and_eq_true, decide_eq_true_eq] at h
    show (peerKindMatches kind peer.kind && decide (id = peer.id)) = true
    rw [Bool.and_eq_true, decide_eq_true_eq]
    exact ⟨h.1, h.2.symm⟩

/-- A constraint that matches for the peer of a request is looked for at home, and found there. -/
theorem holds_home (hnormal : constraint.Normal)
    (h : matchesBindingScope constraint (request.scope request.peer) = true) :
    (Tier.home constraint.bindingClass).enabled request = true ∧
      (Tier.home constraint.bindingClass).holds request constraint.bindingClass = true := by
  rw [matchesBindingScope, Bool.and_eq_true] at h
  obtain ⟨hscopePeer, hscope⟩ := h
  obtain ⟨hguild, hteam, hroles⟩ := routeBindingScopeMatches_scope hnormal hscope
  have hdescribes := describes_bindingClass constraint
  cases hclass : constraint.bindingClass with
  | peer kind id =>
    rw [hclass] at hdescribes
    have hpeer : constraint.peer = .valid kind id := hdescribes
    rw [hpeer] at hscopePeer
    have hholds := exists_isPeer hscopePeer
    exact ⟨Option.isSome_of_any hholds, hholds⟩
  | wildcard =>
    rw [hclass] at hdescribes
    obtain ⟨kind, hpeer⟩ := hdescribes
    rw [hpeer] at hscopePeer
    refine ⟨?_, rfl⟩
    show request.peer.isSome = true
    cases hrequest : request.peer with
    | none =>
      have hnone : scopePeerMatches (.wildcardKind kind) request.peer = true := hscopePeer
      rw [hrequest] at hnone
      cases hnone
    | some peer => rfl
  | guildWithRoles guildId =>
    rw [hclass] at hdescribes
    obtain ⟨-, hguildId, hsome⟩ := hdescribes
    obtain ⟨rfl, hne⟩ := hguild guildId hguildId
    simp [Tier.home, Tier.enabled, Tier.holds, hne, hroles hsome]
  | guild guildId =>
    rw [hclass] at hdescribes
    obtain ⟨-, hguildId, -⟩ := hdescribes
    obtain ⟨rfl, hne⟩ := hguild guildId hguildId
    simp [Tier.home, Tier.enabled, Tier.holds, hne]
  | team teamId =>
    rw [hclass] at hdescribes
    obtain ⟨-, -, hteamId⟩ := hdescribes
    obtain ⟨rfl, hne⟩ := hteam teamId hteamId
    simp [Tier.home, Tier.enabled, Tier.holds, hne]
  | account => exact ⟨rfl, rfl⟩
  | channel => exact ⟨rfl, rfl⟩

/-- What a tier accepts is among its candidates, or an earlier tier accepts it. -/
theorem holds_of_accepts (hnormal : constraint.Normal) {tier : Tier}
    (h : tier.accepts request constraint = true) :
    tier.holds request constraint.bindingClass = true ∨
      ∃ earlier ∈ TIERS.takeWhile (· ≠ tier), earlier.enabled request = true ∧
        earlier.accepts request constraint = true := by
  obtain ⟨hpredicate, hmatches⟩ := accepts_iff.mp h
  by_cases htier : tier = .peerParent
  · left
    subst htier
    rw [matchesBindingScope, Bool.and_eq_true] at hmatches
    have hscopePeer : scopePeerMatches constraint.peer request.knownParent = true := hmatches.1
    cases hpeer : constraint.peer with
    | valid kind id =>
      have hclass : constraint.bindingClass = .peer kind id := by
        rw [NormalizedBindingMatch.bindingClass, hpeer]
      rw [hpeer] at hscopePeer
      obtain ⟨parent, hparent, hfound⟩ := (Option.any_eq_true _ _).mp (exists_isPeer hscopePeer)
      rw [hclass, Tier.holds, (Option.filter_eq_some_iff.mp hparent).1]
      exact hfound
    | _ =>
      rw [Tier.predicate, hpeer] at hpredicate
      cases hpredicate
  · rw [scopePeer_of_ne htier] at hmatches
    obtain ⟨henabled, hholds⟩ := holds_home hnormal hmatches
    rcases home_of_predicate htier hpredicate with heq | hearlier
    · left
      rw [← heq]
      exact hholds
    · right
      refine ⟨_, hearlier, henabled, accepts_iff.mpr ⟨predicate_home constraint, ?_⟩⟩
      rw [scopePeer_of_ne (home_ne_peerParent _)]
      exact hmatches

/-- Through the indexes, the search finds what it finds among all bindings. -/
theorem searchTiers_indexed {bindings : List EvaluatedBinding}
    (hbindings : bindings.Pairwise fun a b => a.order < b.order)
    (hnormal : ∀ binding ∈ bindings, binding.constraint.Normal) :
    searchTiers request (fun tier =>
        tier.candidates request (buildEvaluatedBindingsIndex bindings)) =
      searchTiers request fun _ => bindings := by
  apply Lists.findSome?_congr_of_none (by decide)
  intro tier _ hearlier
  dsimp only
  split_ifs with henabled
  · rw [candidates_eq hbindings, Lists.find?_filter_of_imp]
    intro binding hbinding haccepts
    apply (holds_of_accepts (hnormal binding hbinding) haccepts).resolve_right
    rintro ⟨earlier, hmem, henabled, haccepts⟩
    have hnone := hearlier earlier hmem
    rw [if_pos henabled, Option.map_eq_none_iff, List.find?_eq_none] at hnone
    exact hnone binding hbinding haccepts
  · rfl

end Home

section Scan

variable {host : Host}

theorem evaluateBindings_normal (bindings : List AgentRouteBinding) (order : ℕ) :
    ∀ entry ∈ evaluateBindings host order bindings, entry.2.constraint.Normal := by
  induction bindings generalizing order with
  | nil => exact fun _ h => (List.not_mem_nil h).elim
  | cons binding bindings ih =>
    rw [evaluateBindings]
    split_ifs
    · exact ih order
    · exact List.forall_mem_cons.mpr ⟨normal_normalizeBindingMatch binding.constraint, ih (order + 1)⟩

/-- A search by channel and constraint, in the configuration and among what is made of it. -/
theorem find?_evaluateBindings (p : Utf16 → NormalizedBindingMatch → Bool)
    (bindings : List AgentRouteBinding) (order : ℕ) :
    ((evaluateBindings host order bindings).find? fun entry => p entry.1 entry.2.constraint).map
        (fun entry => entry.2.binding) =
      bindings.find? fun binding =>
        normalizeToken host (binding.constraint.channel.getD []) ≠ [] &&
          p (normalizeToken host (binding.constraint.channel.getD []))
            (normalizeBindingMatch host binding.constraint) := by
  induction bindings generalizing order with
  | nil => rfl
  | cons binding bindings ih =>
    rw [evaluateBindings, List.find?_cons]
    split_ifs with hempty
    · rw [ih, hempty]
      simp
    · rw [List.find?_cons, ← ih (order + 1), decide_eq_true hempty, Bool.true_and]
      dsimp only
      cases p (normalizeToken host (binding.constraint.channel.getD []))
        (normalizeBindingMatch host binding.constraint) <;> rfl

/-- The bindings for a channel and an account are in the order of the configuration. -/
theorem pairwise_evaluatedBindingsFor (bindings : List AgentRouteBinding) (channel accountId : Utf16) :
    (evaluatedBindingsFor (buildEvaluatedBindingsByChannel host bindings) channel accountId).Pairwise
      fun a b => a.order < b.order := by
  have hsorted := (@evaluateBindings_orders host bindings 0).1
  rw [evaluatedBindingsFor_eq]
  exact hsorted.sublist (List.filter_sublist.map Prod.snd)

theorem normal_evaluatedBindingsFor (bindings : List AgentRouteBinding) (channel accountId : Utf16) :
    ∀ binding ∈ evaluatedBindingsFor (buildEvaluatedBindingsByChannel host bindings) channel accountId,
      binding.constraint.Normal := by
  rw [evaluatedBindingsFor_eq]
  intro evaluated hevaluated
  obtain ⟨entry, hentry, rfl⟩ := List.mem_map.mp hevaluated
  exact evaluateBindings_normal bindings 0 entry (List.mem_of_mem_filter hentry)

/-- Among the bindings for a channel and an account, a search is the scan of the configuration. -/
theorem searchTiers_evaluated (bindings : List AgentRouteBinding) (request : RouteRequest) :
    searchTiers request (fun _ => evaluatedBindingsFor (buildEvaluatedBindingsByChannel host bindings)
      request.channel request.accountId) = scanRoute host bindings request := by
  rw [evaluatedBindingsFor_eq, searchTiers, scanRoute]
  congr 1
  funext tier
  split_ifs
  · have hfind := @find?_evaluateBindings host (fun channel constraint =>
      (channel = request.channel && (constraint.accountPattern = STAR ||
        resolveAccountPatternKey host constraint.accountPattern = request.accountId)) &&
          tier.accepts request constraint) bindings 0
    have hscan : (bindings.find? fun binding => concerns host request binding &&
        tier.accepts request (normalizeBindingMatch host binding.constraint)) =
          ((evaluateBindings host 0 bindings).find? fun entry =>
            (entry.1 = request.channel && entry.2.forAccount host request.accountId) &&
              tier.accepts request entry.2.constraint).map fun entry => entry.2.binding := by
      refine (Eq.trans ?_ hfind.symm)
      congr 1
      funext binding
      rw [concerns, Bool.and_assoc, Bool.and_assoc, Bool.and_assoc]
      rfl
    rw [List.find?_map, List.find?_filter, Option.map_map, hscan, Option.map_map]
    simp only [Bool.decide_and, Bool.decide_eq_true]
    rfl
  · rfl

/-- The indexed search of a configuration is the scan of it. -/
theorem findRoute_eq_scanRoute (bindings : List AgentRouteBinding) (request : RouteRequest) :
    findRoute host bindings request = scanRoute host bindings request := by
  rw [findRoute, searchTiers_indexed (pairwise_evaluatedBindingsFor bindings _ _)
    (normal_evaluatedBindingsFor bindings _ _)]
  exact searchTiers_evaluated bindings request

end Scan

end Flashclaw.Routing
