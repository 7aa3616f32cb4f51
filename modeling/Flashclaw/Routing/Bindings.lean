import Flashclaw.Lib.JsMap
import Flashclaw.Routing.SessionKey

/-!
# Bindings of agents

`src/routing/resolve-route.ts`, with `src/routing/binding-scope.ts`: the bindings of a
configuration, under their channels and accounts, and in indexes for the tiers of the search.
-/

namespace Flashclaw.Routing

open Utf16

structure AgentBindingPeer where
  kind : Option Utf16
  id : Option Utf16

structure AgentBindingMatch where
  channel : Option Utf16
  accountId : Option Utf16
  peer : Option AgentBindingPeer
  guildId : Option Utf16
  teamId : Option Utf16
  roles : Option (List Utf16)

structure AgentRouteBinding where
  agentId : Utf16
  constraint : AgentBindingMatch
  dmScope : Option DmScope

inductive AgentBinding where
  | route (binding : AgentRouteBinding)
  | acp

def AgentBinding.route? : AgentBinding → Option AgentRouteBinding
  | .route binding => some binding
  | .acp => none

inductive NormalizedPeerConstraint where
  | none
  | invalid
  | wildcardKind (kind : ChatType)
  | valid (kind : ChatType) (id : Utf16)
deriving DecidableEq

structure NormalizedBindingMatch where
  accountPattern : Utf16
  peer : NormalizedPeerConstraint
  guildId : Option Utf16
  teamId : Option Utf16
  roles : Option (List Utf16)

/-- A binding with its place among those that have a channel. -/
structure EvaluatedBinding where
  binding : AgentRouteBinding
  constraint : NormalizedBindingMatch
  order : ℕ

def STAR : Utf16 := ofString "*"

section Normal

variable (host : Host)

def normalizeChatType (raw : Option Utf16) : Option ChatType :=
  let value := normalizeToken host (raw.getD [])
  if value = ofString "direct" ∨ value = ofString "dm" then some .direct
  else if value = ofString "group" then some .group
  else if value = ofString "channel" then some .channel
  else none

/-- `normalizeRouteBindingId` -/
def normalizeId (value : Option Utf16) : Utf16 := trim (value.getD [])

/-- `normalizeId(value) || null` -/
def constraintId (value : Option Utf16) : Option Utf16 :=
  if normalizeId value = [] then none else some (normalizeId value)

def normalizePeerConstraint : Option AgentBindingPeer → NormalizedPeerConstraint
  | none => .none
  | some peer =>
    match normalizeChatType host peer.kind with
    | none => .invalid
    | some kind =>
      let id := normalizeId peer.id
      if id = [] then .invalid else if id = STAR then .wildcardKind kind else .valid kind id

def normalizeRouteBindingRoles (value : Option (List Utf16)) : Option (List Utf16) :=
  value.filter (· ≠ [])

def normalizeBindingMatch (constraint : AgentBindingMatch) : NormalizedBindingMatch where
  accountPattern := trim (constraint.accountId.getD [])
  peer := normalizePeerConstraint host constraint.peer
  guildId := constraintId constraint.guildId
  teamId := constraintId constraint.teamId
  roles := normalizeRouteBindingRoles constraint.roles

def resolveAccountPatternKey (accountPattern : Utf16) : Utf16 :=
  if trim accountPattern = [] then DEFAULT_ACCOUNT_ID
  else normalizeAccountId host (some accountPattern)

/-- The bindings that have a channel, each with it. -/
def evaluateBindings (order : ℕ) : List AgentRouteBinding → List (Utf16 × EvaluatedBinding)
  | [] => []
  | binding :: bindings =>
    let channel := normalizeToken host (binding.constraint.channel.getD [])
    if channel = [] then evaluateBindings order bindings
    else
      (channel, ⟨binding, normalizeBindingMatch host binding.constraint, order⟩) ::
        evaluateBindings (order + 1) bindings

structure EvaluatedBindingsByChannel where
  byAccount : JsMap Utf16 (List EvaluatedBinding)
  byAnyAccount : List EvaluatedBinding

def EvaluatedBindingsByChannel.add (bucket : EvaluatedBindingsByChannel)
    (evaluated : EvaluatedBinding) : EvaluatedBindingsByChannel :=
  if evaluated.constraint.accountPattern = STAR then
    { bucket with byAnyAccount := bucket.byAnyAccount ++ [evaluated] }
  else
    { bucket with
      byAccount := bucket.byAccount.push
        (resolveAccountPatternKey host evaluated.constraint.accountPattern) evaluated }

def channelBucket (byChannel : JsMap Utf16 EvaluatedBindingsByChannel) (channel : Utf16) :
    EvaluatedBindingsByChannel := (byChannel.get? channel).getD ⟨.empty, []⟩

def buildEvaluatedBindingsByChannel (bindings : List AgentRouteBinding) :
    JsMap Utf16 EvaluatedBindingsByChannel :=
  (evaluateBindings host 0 bindings).foldl (fun byChannel entry =>
    byChannel.set entry.1 ((channelBucket byChannel entry.1).add host entry.2)) .empty

def mergeEvaluatedBindingsInSourceOrder :
    List EvaluatedBinding → List EvaluatedBinding → List EvaluatedBinding
  | [], anyAccount => anyAccount
  | accountScoped, [] => accountScoped
  | accountBinding :: accountScoped, anyBinding :: anyAccount =>
    if accountBinding.order ≤ anyBinding.order then
      accountBinding :: mergeEvaluatedBindingsInSourceOrder accountScoped (anyBinding :: anyAccount)
    else
      anyBinding :: mergeEvaluatedBindingsInSourceOrder (accountBinding :: accountScoped) anyAccount

/-- The bindings of a channel and an account, which the cache holds. -/
def evaluatedBindingsFor (byChannel : JsMap Utf16 EvaluatedBindingsByChannel)
    (channel accountId : Utf16) : List EvaluatedBinding :=
  let bucket := channelBucket byChannel channel
  mergeEvaluatedBindingsInSourceOrder (bucket.byAccount.getAll accountId) bucket.byAnyAccount

end Normal

def peerKey (kind : ChatType) (id : Utf16) : Utf16 := kind.name ++ COLON :: id

def peerLookupKeys (kind : ChatType) (id : Utf16) : List Utf16 :=
  match kind with
  | .group => [peerKey .group id, peerKey .channel id]
  | .channel => [peerKey .channel id, peerKey .group id]
  | .direct => [peerKey .direct id]

structure EvaluatedBindingsIndex where
  byPeer : JsMap Utf16 (List EvaluatedBinding)
  byPeerWildcard : List EvaluatedBinding
  byGuildWithRoles : JsMap Utf16 (List EvaluatedBinding)
  byGuild : JsMap Utf16 (List EvaluatedBinding)
  byTeam : JsMap Utf16 (List EvaluatedBinding)
  byAccount : List EvaluatedBinding
  byChannel : List EvaluatedBinding

def EvaluatedBindingsIndex.empty : EvaluatedBindingsIndex :=
  ⟨.empty, [], .empty, .empty, .empty, [], []⟩

/-- The round of `buildEvaluatedBindingsIndex` for one binding. -/
def EvaluatedBindingsIndex.add (index : EvaluatedBindingsIndex) (binding : EvaluatedBinding) :
    EvaluatedBindingsIndex :=
  match binding.constraint.peer with
  | .valid kind id =>
    { index with
      byPeer := (peerLookupKeys kind id).foldl (fun byPeer key => byPeer.push key binding) index.byPeer }
  | .wildcardKind _ => { index with byPeerWildcard := index.byPeerWildcard ++ [binding] }
  | _ =>
    match binding.constraint.guildId, binding.constraint.roles, binding.constraint.teamId with
    | some guildId, some _, _ =>
      { index with byGuildWithRoles := index.byGuildWithRoles.push guildId binding }
    | some guildId, none, _ => { index with byGuild := index.byGuild.push guildId binding }
    | none, _, some teamId => { index with byTeam := index.byTeam.push teamId binding }
    | none, _, none =>
      if binding.constraint.accountPattern ≠ STAR then
        { index with byAccount := index.byAccount ++ [binding] }
      else { index with byChannel := index.byChannel ++ [binding] }

def buildEvaluatedBindingsIndex (bindings : List EvaluatedBinding) : EvaluatedBindingsIndex :=
  bindings.foldl EvaluatedBindingsIndex.add .empty

/-- Bindings are the same when their orders are. -/
def collectUnseen (out : List EvaluatedBinding) (candidate : EvaluatedBinding) :
    List EvaluatedBinding :=
  if out.any fun seen => seen.order = candidate.order then out else out ++ [candidate]

def collectPeerIndexedBindings (index : EvaluatedBindingsIndex) :
    Option RoutePeer → List EvaluatedBinding
  | none => []
  | some peer => (peerLookupKeys peer.kind peer.id).foldl
      (fun out key => (index.byPeer.getAll key).foldl collectUnseen out) []

section Held

variable {host : Host}

/-- A binding is for an account, or for all of them. -/
def EvaluatedBinding.forAccount (host : Host) (accountId : Utf16) (evaluated : EvaluatedBinding) :
    Bool :=
  evaluated.constraint.accountPattern = STAR ||
    resolveAccountPatternKey host evaluated.constraint.accountPattern = accountId

theorem evaluateBindings_orders (bindings : List AgentRouteBinding) (order : ℕ) :
    ((evaluateBindings host order bindings).map Prod.snd).Pairwise (fun a b => a.order < b.order) ∧
      ∀ entry ∈ evaluateBindings host order bindings, order ≤ entry.2.order := by
  induction bindings generalizing order with
  | nil => exact ⟨.nil, fun _ h => (List.not_mem_nil h).elim⟩
  | cons binding bindings ih =>
    rw [evaluateBindings]
    split_ifs
    · exact ih order
    · obtain ⟨hpairwise, hle⟩ := ih (order + 1)
      refine ⟨List.pairwise_cons.mpr ⟨fun evaluated hevaluated => ?_, hpairwise⟩,
        List.forall_mem_cons.mpr ⟨Nat.le_refl _, fun entry hentry => (Nat.le_succ _).trans
          (hle entry hentry)⟩⟩
      obtain ⟨entry, hentry, rfl⟩ := List.mem_map.mp hevaluated
      exact hle entry hentry

theorem channelBucket_set (byChannel : JsMap Utf16 EvaluatedBindingsByChannel)
    (channel channel' : Utf16) (bucket : EvaluatedBindingsByChannel) :
    channelBucket (byChannel.set channel bucket) channel' =
      if channel = channel' then bucket else channelBucket byChannel channel' := by
  rw [channelBucket, JsMap.get?_set]
  split_ifs <;> rfl

theorem merge_nil_left (l : List EvaluatedBinding) :
    mergeEvaluatedBindingsInSourceOrder [] l = l := by
  rw [mergeEvaluatedBindingsInSourceOrder]

theorem merge_nil_right (l : List EvaluatedBinding) :
    mergeEvaluatedBindingsInSourceOrder l [] = l := by
  cases l with
  | nil => exact merge_nil_left []
  | cons a l =>
    rw [mergeEvaluatedBindingsInSourceOrder]
    exact List.cons_ne_nil a l

/-- Two parts of a list in order, merged. -/
theorem merge_filter {l : List EvaluatedBinding} (hl : l.Pairwise fun a b => a.order < b.order)
    {p q : EvaluatedBinding → Bool} (hpq : ∀ a, p a = true → q a = false) :
    mergeEvaluatedBindingsInSourceOrder (l.filter p) (l.filter q) = l.filter fun a => p a || q a := by
  induction l with
  | nil => exact merge_nil_left []
  | cons a l ih =>
    obtain ⟨hfirst, hl⟩ := List.pairwise_cons.mp hl
    have hlt : ∀ {r : EvaluatedBinding → Bool} {b rest}, l.filter r = b :: rest → a.order < b.order :=
      fun hr => hfirst _ (List.mem_of_mem_filter (hr ▸ List.mem_cons_self))
    rw [List.filter_cons, List.filter_cons, List.filter_cons, ← ih hl]
    cases hpa : p a with
    | true =>
      rw [hpq a hpa]
      simp only [Bool.true_or, if_true, Bool.false_eq_true, if_false]
      cases hq : l.filter q with
      | nil => rw [merge_nil_right, merge_nil_right]
      | cons b rest => rw [mergeEvaluatedBindingsInSourceOrder, if_pos (hlt hq).le]
    | false =>
      cases hqa : q a with
      | false => simp only [Bool.or_self, Bool.false_eq_true, if_false]
      | true =>
        simp only [Bool.false_or, if_true, Bool.false_eq_true, if_false]
        cases hp : l.filter p with
        | nil => rw [merge_nil_left, merge_nil_left]
        | cons b rest => rw [mergeEvaluatedBindingsInSourceOrder, if_neg (hlt hp).not_ge]

/-- The bindings of a channel and an account, in the order of the configuration. -/
theorem evaluatedBindingsFor_eq (bindings : List AgentRouteBinding) (channel accountId : Utf16) :
    evaluatedBindingsFor (buildEvaluatedBindingsByChannel host bindings) channel accountId =
      ((evaluateBindings host 0 bindings).filter fun entry =>
        entry.1 = channel && entry.2.forAccount host accountId).map Prod.snd := by
  have hadd : ∀ (byChannel : JsMap Utf16 EvaluatedBindingsByChannel) (entry : Utf16 × EvaluatedBinding),
      channelBucket (byChannel.set entry.1 ((channelBucket byChannel entry.1).add host entry.2)) channel =
        if entry.1 = channel then (channelBucket byChannel channel).add host entry.2
        else channelBucket byChannel channel := by
    intro byChannel entry
    rw [channelBucket_set]
    by_cases hchannel : entry.1 = channel
    · rw [if_pos hchannel, if_pos hchannel, hchannel]
    · rw [if_neg hchannel, if_neg hchannel]
  -- the bindings for any account
  have hany : (channelBucket (buildEvaluatedBindingsByChannel host bindings) channel).byAnyAccount =
      ((evaluateBindings host 0 bindings).filter fun entry =>
        entry.1 = channel && entry.2.constraint.accountPattern = STAR).map Prod.snd := by
    rw [buildEvaluatedBindingsByChannel]
    refine (Lists.foldl_append_filter (f := fun byChannel =>
      (channelBucket byChannel channel).byAnyAccount) (fun byChannel entry => ?_) _ _).trans
        (List.nil_append _)
    rw [hadd]
    by_cases hchannel : entry.1 = channel
    · rw [if_pos hchannel, EvaluatedBindingsByChannel.add]
      by_cases hstar : entry.2.constraint.accountPattern = STAR
      · simp [hchannel, hstar]
      · simp [hstar]
    · simp [hchannel]
  -- those for the account, which are merged with the others by their place in the configuration
  have haccount : (channelBucket (buildEvaluatedBindingsByChannel host bindings)
      channel).byAccount.getAll accountId =
      ((evaluateBindings host 0 bindings).filter fun entry => entry.1 = channel &&
        (entry.2.constraint.accountPattern ≠ STAR &&
          resolveAccountPatternKey host entry.2.constraint.accountPattern = accountId)).map
            Prod.snd := by
    rw [buildEvaluatedBindingsByChannel]
    refine (Lists.foldl_append_filter (f := fun byChannel =>
      (channelBucket byChannel channel).byAccount.getAll accountId)
        (fun byChannel entry => ?_) _ _).trans (List.nil_append _)
    rw [hadd]
    by_cases hchannel : entry.1 = channel
    · rw [if_pos hchannel, EvaluatedBindingsByChannel.add]
      by_cases hstar : entry.2.constraint.accountPattern = STAR
      · simp [hstar]
      · simp [hchannel, hstar, JsMap.getAll_push]
    · simp [hchannel]
  have hfilter : ∀ p : EvaluatedBinding → Bool, ((evaluateBindings host 0 bindings).filter
      fun entry => entry.1 = channel && p entry.2).map Prod.snd =
        (((evaluateBindings host 0 bindings).filter fun entry => entry.1 = channel).map
          Prod.snd).filter p := by
    intro p
    rw [List.filter_map, List.filter_filter]
    congr 1
    exact List.filter_congr fun entry _ => Bool.and_comm _ _
  have hsorted := (@evaluateBindings_orders host bindings 0).1.sublist
    ((List.filter_sublist (p := fun entry => entry.1 = channel)).map Prod.snd)
  rw [evaluatedBindingsFor, hany.trans (hfilter fun evaluated =>
      evaluated.constraint.accountPattern = STAR), haccount.trans (hfilter fun evaluated =>
        evaluated.constraint.accountPattern ≠ STAR &&
          resolveAccountPatternKey host evaluated.constraint.accountPattern = accountId),
    hfilter, merge_filter hsorted]
  · apply List.filter_congr
    intro evaluated _
    rw [EvaluatedBinding.forAccount]
    by_cases hstar : evaluated.constraint.accountPattern = STAR <;> simp [hstar]
  · intro evaluated h
    simp only [Bool.and_eq_true, decide_eq_true_eq] at h
    exact decide_eq_false h.1

end Held

/-- The index that a binding is in. -/
inductive BindingClass where
  | peer (kind : ChatType) (id : Utf16)
  | wildcard
  | guildWithRoles (guildId : Utf16)
  | guild (guildId : Utf16)
  | team (teamId : Utf16)
  | account
  | channel
deriving DecidableEq

def NormalizedBindingMatch.bindingClass (constraint : NormalizedBindingMatch) : BindingClass :=
  match constraint.peer with
  | .valid kind id => .peer kind id
  | .wildcardKind _ => .wildcard
  | _ =>
    match constraint.guildId, constraint.roles, constraint.teamId with
    | some guildId, some _, _ => .guildWithRoles guildId
    | some guildId, none, _ => .guild guildId
    | none, _, some teamId => .team teamId
    | none, _, none => if constraint.accountPattern ≠ STAR then .account else .channel

def EvaluatedBindingsIndex.addTo (index : EvaluatedBindingsIndex) (binding : EvaluatedBinding) :
    BindingClass → EvaluatedBindingsIndex
  | .peer kind id => { index with
      byPeer := (peerLookupKeys kind id).foldl (fun byPeer key => byPeer.push key binding) index.byPeer }
  | .wildcard => { index with byPeerWildcard := index.byPeerWildcard ++ [binding] }
  | .guildWithRoles guildId =>
    { index with byGuildWithRoles := index.byGuildWithRoles.push guildId binding }
  | .guild guildId => { index with byGuild := index.byGuild.push guildId binding }
  | .team teamId => { index with byTeam := index.byTeam.push teamId binding }
  | .account => { index with byAccount := index.byAccount ++ [binding] }
  | .channel => { index with byChannel := index.byChannel ++ [binding] }

theorem add_eq (index : EvaluatedBindingsIndex) (binding : EvaluatedBinding) :
    index.add binding = index.addTo binding binding.constraint.bindingClass := by
  rw [EvaluatedBindingsIndex.add, NormalizedBindingMatch.bindingClass]
  cases binding.constraint.peer with
  | valid kind id => rfl
  | wildcardKind kind => rfl
  | none | invalid =>
    dsimp only
    cases binding.constraint.guildId <;> cases binding.constraint.roles <;>
      cases binding.constraint.teamId <;> first | rfl | (dsimp only; split_ifs <;> rfl)

section Indexed

variable {bindings : List EvaluatedBinding} {kind kind' : ChatType} {id id' : Utf16}

theorem peerKey_inj : peerKey kind id = peerKey kind' id' ↔ kind = kind' ∧ id = id' := by
  constructor
  · intro h
    obtain ⟨hname, rfl⟩ :=
      Lists.append_cons_inj_first (colon_not_mem_name kind) (colon_not_mem_name kind') h
    exact ⟨name_injective hname, rfl⟩
  · rintro ⟨rfl, rfl⟩
    rfl

/-- Groups and channels go by either name. -/
def peerKindMatches (bindingKind scopeKind : ChatType) : Bool :=
  bindingKind = scopeKind || (bindingKind = .group && scopeKind = .channel) ||
    (bindingKind = .channel && scopeKind = .group)

theorem mem_peerLookupKeys : peerKey kind id ∈ peerLookupKeys kind' id' ↔
    peerKindMatches kind' kind = true ∧ id' = id := by
  cases kind <;> cases kind' <;> simp [peerLookupKeys, peerKey_inj, peerKindMatches, eq_comm]

theorem nodup_peerLookupKeys (kind : ChatType) (id : Utf16) : (peerLookupKeys kind id).Nodup := by
  cases kind <;> simp [peerLookupKeys, peerKey_inj]

/-- An element that is pushed under several keys. -/
theorem getAll_foldl_push {keys : List Utf16} (hkeys : keys.Nodup) (binding : EvaluatedBinding)
    (byPeer : JsMap Utf16 (List EvaluatedBinding)) (key : Utf16) :
    (keys.foldl (fun byPeer key => byPeer.push key binding) byPeer).getAll key =
      byPeer.getAll key ++ if key ∈ keys then [binding] else [] := by
  induction keys generalizing byPeer with
  | nil => simp
  | cons first keys ih =>
    obtain ⟨hfirst, hkeys⟩ := List.nodup_cons.mp hkeys
    rw [List.foldl_cons, ih hkeys, JsMap.getAll_push, List.append_assoc]
    by_cases hkey : first = key
    · subst hkey
      simp [hfirst]
    · simp [hkey, Ne.symm hkey]

/-- A field of the index are the bindings of some classes, in order. -/
theorem indexed_filter {f : EvaluatedBindingsIndex → List EvaluatedBinding} (p : BindingClass → Bool)
    (hempty : f .empty = []) (hadd : ∀ index binding bindingClass,
      f (index.addTo binding bindingClass) =
        f index ++ if p bindingClass then [binding] else [])
    (bindings : List EvaluatedBinding) : f (buildEvaluatedBindingsIndex bindings) =
      bindings.filter fun binding => p binding.constraint.bindingClass := by
  have hstep : ∀ (index : EvaluatedBindingsIndex) (binding : EvaluatedBinding),
      f (index.add binding) =
        f index ++ if p binding.constraint.bindingClass then [id binding] else [] := by
    intro index binding
    rw [add_eq]
    exact hadd index binding _
  have hfold := Lists.foldl_append_filter hstep bindings .empty
  rw [hempty, List.nil_append, List.map_id] at hfold
  exact hfold

def BindingClass.hasPeerKey (key : Utf16) : BindingClass → Bool
  | .peer kind id => key ∈ peerLookupKeys kind id
  | _ => false

/-- The class of bindings for a peer. -/
def BindingClass.isPeer (peer : RoutePeer) : BindingClass → Bool
  | .peer kind id => peerKindMatches kind peer.kind && id = peer.id
  | _ => false

theorem getAll_byPeer (bindings : List EvaluatedBinding) (key : Utf16) :
    (buildEvaluatedBindingsIndex bindings).byPeer.getAll key =
      bindings.filter fun binding => binding.constraint.bindingClass.hasPeerKey key := by
  apply indexed_filter (f := fun index => index.byPeer.getAll key) (BindingClass.hasPeerKey key) rfl
  intro index binding bindingClass
  cases bindingClass with
  | peer kind id =>
    rw [EvaluatedBindingsIndex.addTo, getAll_foldl_push (nodup_peerLookupKeys kind id)]
    simp [BindingClass.hasPeerKey]
  | _ => exact (List.append_nil _).symm

theorem byPeerWildcard_eq (bindings : List EvaluatedBinding) :
    (buildEvaluatedBindingsIndex bindings).byPeerWildcard =
      bindings.filter fun binding => binding.constraint.bindingClass = .wildcard := by
  apply indexed_filter (f := EvaluatedBindingsIndex.byPeerWildcard) (fun c => c = .wildcard) rfl
  intro index binding bindingClass
  cases bindingClass <;> simp [EvaluatedBindingsIndex.addTo]

theorem getAll_byGuildWithRoles (bindings : List EvaluatedBinding) (guildId : Utf16) :
    (buildEvaluatedBindingsIndex bindings).byGuildWithRoles.getAll guildId =
      bindings.filter fun binding => binding.constraint.bindingClass = .guildWithRoles guildId := by
  apply indexed_filter (f := fun index => index.byGuildWithRoles.getAll guildId)
    (fun c => c = .guildWithRoles guildId) rfl
  intro index binding bindingClass
  cases bindingClass <;> simp [EvaluatedBindingsIndex.addTo, JsMap.getAll_push]

theorem getAll_byGuild (bindings : List EvaluatedBinding) (guildId : Utf16) :
    (buildEvaluatedBindingsIndex bindings).byGuild.getAll guildId =
      bindings.filter fun binding => binding.constraint.bindingClass = .guild guildId := by
  apply indexed_filter (f := fun index => index.byGuild.getAll guildId)
    (fun c => c = .guild guildId) rfl
  intro index binding bindingClass
  cases bindingClass <;> simp [EvaluatedBindingsIndex.addTo, JsMap.getAll_push]

theorem getAll_byTeam (bindings : List EvaluatedBinding) (teamId : Utf16) :
    (buildEvaluatedBindingsIndex bindings).byTeam.getAll teamId =
      bindings.filter fun binding => binding.constraint.bindingClass = .team teamId := by
  apply indexed_filter (f := fun index => index.byTeam.getAll teamId) (fun c => c = .team teamId) rfl
  intro index binding bindingClass
  cases bindingClass <;> simp [EvaluatedBindingsIndex.addTo, JsMap.getAll_push]

theorem byAccount_eq (bindings : List EvaluatedBinding) :
    (buildEvaluatedBindingsIndex bindings).byAccount =
      bindings.filter fun binding => binding.constraint.bindingClass = .account := by
  apply indexed_filter (f := EvaluatedBindingsIndex.byAccount) (fun c => c = .account) rfl
  intro index binding bindingClass
  cases bindingClass <;> simp [EvaluatedBindingsIndex.addTo]

theorem byChannel_eq (bindings : List EvaluatedBinding) :
    (buildEvaluatedBindingsIndex bindings).byChannel =
      bindings.filter fun binding => binding.constraint.bindingClass = .channel := by
  apply indexed_filter (f := EvaluatedBindingsIndex.byChannel) (fun c => c = .channel) rfl
  intro index binding bindingClass
  cases bindingClass <;> simp [EvaluatedBindingsIndex.addTo]

theorem foldl_collectUnseen {out l : List EvaluatedBinding}
    (h : (out ++ l).Pairwise fun a b => a.order < b.order) : l.foldl collectUnseen out = out ++ l := by
  induction l generalizing out with
  | nil => exact (List.append_nil out).symm
  | cons a l ih =>
    have hunseen : (out.any fun seen => seen.order = a.order) = false := by
      rw [List.any_eq_false]
      intro seen hseen heq
      have := (List.pairwise_append.mp h).2.2 seen hseen a List.mem_cons_self
      have heq : seen.order = a.order := of_decide_eq_true heq
      omega
    rw [List.foldl_cons, collectUnseen, hunseen]
    rw [← List.singleton_append, ← List.append_assoc] at h
    simpa using ih h

theorem foldl_collectUnseen_seen {out l : List EvaluatedBinding} (h : ∀ a ∈ l, a ∈ out) :
    l.foldl collectUnseen out = out := by
  induction l with
  | nil => rfl
  | cons a l ih =>
    obtain ⟨ha, hl⟩ := List.forall_mem_cons.mp h
    have hseen : (out.any fun seen => seen.order = a.order) = true :=
      List.any_eq_true.mpr ⟨a, ha, decide_eq_true rfl⟩
    rw [List.foldl_cons, collectUnseen, if_pos hseen, ih hl]

/-- The bindings that are found for a peer, in order. -/
theorem collectPeerIndexedBindings_eq {bindings : List EvaluatedBinding}
    (hbindings : bindings.Pairwise fun a b => a.order < b.order) (peer : RoutePeer) :
    collectPeerIndexedBindings (buildEvaluatedBindingsIndex bindings) (some peer) =
      bindings.filter fun binding => binding.constraint.bindingClass.isPeer peer := by
  have hkey : ∀ kind, (∀ kind', peerKindMatches kind' kind = peerKindMatches kind' peer.kind) →
      (buildEvaluatedBindingsIndex bindings).byPeer.getAll (peerKey kind peer.id) =
        bindings.filter fun binding => binding.constraint.bindingClass.isPeer peer := by
    intro kind hkind
    rw [getAll_byPeer]
    apply List.filter_congr
    intro binding _
    cases binding.constraint.bindingClass with
    | peer kind' id =>
      rw [BindingClass.hasPeerKey, BindingClass.isPeer, ← hkind kind', Bool.eq_iff_iff,
        decide_eq_true_eq, mem_peerLookupKeys, Bool.and_eq_true, decide_eq_true_eq]
    | _ => rfl
  have hfirst := @foldl_collectUnseen [] _ (hbindings.sublist (List.filter_sublist
    (p := fun binding => binding.constraint.bindingClass.isPeer peer)))
  have hagain := @foldl_collectUnseen_seen (bindings.filter fun binding =>
    binding.constraint.bindingClass.isPeer peer) _ fun a ha => ha
  rw [List.nil_append] at hfirst
  rw [collectPeerIndexedBindings]
  cases hkind : peer.kind with
  | direct =>
    rw [peerLookupKeys, List.foldl_cons, List.foldl_nil, hkey .direct (fun _ => by rw [hkind])]
    exact hfirst
  | group =>
    rw [peerLookupKeys, List.foldl_cons, List.foldl_cons, List.foldl_nil,
      hkey .group (fun _ => by rw [hkind]), hkey .channel (fun kind => by rw [hkind]; cases kind <;> rfl),
      hfirst, hagain]
  | channel =>
    rw [peerLookupKeys, List.foldl_cons, List.foldl_cons, List.foldl_nil,
      hkey .channel (fun _ => by rw [hkind]), hkey .group (fun kind => by rw [hkind]; cases kind <;> rfl),
      hfirst, hagain]

end Indexed

end Flashclaw.Routing
