import Flashclaw.Lib.JsNumber
import Flashclaw.Net.Ip

/-!
# SSRF policy: hostnames, answers and the pinned lookup

`infra/net/ssrf.ts`: the checks of a hostname before it is looked up and of the
addresses that the lookup answers with, and the lookup that connections to the
host are pinned to.
-/

namespace Flashclaw.Net

structure SsrFPolicy where
  allowPrivateNetwork : Bool
  dangerouslyAllowPrivateNetwork : Bool
  allowRfc2544BenchmarkRange : Bool
  allowIpv6UniqueLocalRange : Bool
  allowedHostnames : List String
  hostnameAllowlist : List String

/-- No policy decides as this one. -/
def SsrFPolicy.none : SsrFPolicy := ⟨false, false, false, false, [], []⟩

inductive SsrFError where
  /-- `SsrFBlockedError` -/
  | blocked (message : String)
  | error (message : String)
  /-- What the lookup throws. -/
  | lookup (code : String)
deriving DecidableEq

structure LookupAddress where
  address : String
  family : ℕ
deriving DecidableEq

inductive LookupResult where
  | one (entry : LookupAddress)
  | all (entries : List LookupAddress)

def normalizeLookupResults : LookupResult → List LookupAddress
  | .one entry => [entry]
  | .all entries => entries

section Checks

variable (js : Ipaddr)

def dropTrailingDots (cs : List Char) : List Char := (cs.reverse.dropWhile (· = '.')).reverse

def normalizeHostname (hostname : String) : String :=
  let lowered := js.toLowerCase (JsString.trim hostname)
  stripIpv6Brackets (String.ofList (dropTrailingDots lowered.toList))

/-- `normalizeUniqueStringEntries` of the normalized hostnames. -/
def normalizePolicyHostnames (values : List String) : List String :=
  ((values.map fun value => JsString.trim (normalizeHostname js value)).filter (· ≠ "")).reverse.dedup.reverse

def normalizeHostnameAllowlist (values : List String) : List String :=
  (normalizePolicyHostnames js values).filter fun value => value ≠ "*" && value ≠ "*."

def isPrivateNetworkAllowedByPolicy (policy : SsrFPolicy) : Bool :=
  policy.dangerouslyAllowPrivateNetwork || policy.allowPrivateNetwork

def shouldSkipPrivateNetworkChecks (hostname : String) (policy : SsrFPolicy) : Bool :=
  isPrivateNetworkAllowedByPolicy policy ||
    (normalizePolicyHostnames js policy.allowedHostnames).contains hostname

def endsWith (s suffix : String) : Bool := suffix.toList.isSuffixOf s.toList

def isHostnameAllowedByPattern (hostname pattern : String) : Bool :=
  if JsString.startsWith pattern "*." then
    let suffix := String.ofList (pattern.toList.drop 2)
    if suffix = "" || hostname = suffix then false else endsWith hostname ("." ++ suffix)
  else hostname = pattern

def matchesHostnameAllowlist (hostname : String) (allowlist : List String) : Bool :=
  allowlist = [] || allowlist.any (isHostnameAllowedByPattern hostname)

def looksLikeUnsupportedIpv4Literal (address : String) : Bool :=
  let parts := splitDots address
  if 4 < parts.length then false
  else if parts.any (· = []) then true
  else parts.all fun part => isDecimalPart part || startsHexPart part

def isPrivateIpAddress (address : String) (policy : SsrFPolicy) : Bool :=
  let normalized := normalizeHostname js address
  if normalized = "" then false
  else
    match parseCanonicalIpAddress js normalized with
    | some (.ipv4 ip) => isBlockedSpecialUseIpv4Address js policy.allowRfc2544BenchmarkRange ip
    | some (.ipv6 ip) =>
      isBlockedSpecialUseIpv6Address js policy.allowIpv6UniqueLocalRange ip ||
        (extractEmbeddedIpv4FromIpv6 js ip).any
          (isBlockedSpecialUseIpv4Address js policy.allowRfc2544BenchmarkRange)
    | none =>
      (normalized.toList.contains ':' && (parseLooseIpAddress js normalized).isNone) ||
        (!isCanonicalDottedDecimalIPv4 js normalized && isLegacyIpv4Literal js normalized) ||
        looksLikeUnsupportedIpv4Literal normalized

def BLOCKED_HOSTNAMES : List String :=
  ["localhost", "localhost.localdomain", "metadata.google.internal"]

def isBlockedHostnameNormalized (normalized : String) : Bool :=
  BLOCKED_HOSTNAMES.contains normalized || endsWith normalized ".localhost" ||
    endsWith normalized ".local" || endsWith normalized ".internal"

def isBlockedHostnameOrIp (hostname : String) (policy : SsrFPolicy) : Bool :=
  let normalized := normalizeHostname js hostname
  if normalized = "" then false
  else isBlockedHostnameNormalized normalized || isPrivateIpAddress js normalized policy

def BLOCKED_HOST_OR_IP_MESSAGE : String :=
  "Blocked hostname or private/internal/special-use IP address"

def BLOCKED_RESOLVED_IP_MESSAGE : String :=
  "Blocked: resolves to private/internal/special-use IP address"

def assertAllowedHostOrIpOrThrow (hostnameOrIp : String) (policy : SsrFPolicy) :
    Except SsrFError Unit :=
  if isBlockedHostnameOrIp js hostnameOrIp policy then
    .error (.blocked BLOCKED_HOST_OR_IP_MESSAGE)
  else .ok ()

/-- The normalized hostname, and whether the checks of private networks are skipped. -/
def resolveHostnamePolicyChecks (hostname : String) (policy : SsrFPolicy) :
    Except SsrFError (String × Bool) :=
  let normalized := normalizeHostname js hostname
  if normalized = "" then .error (.error "Invalid hostname")
  else
    let hostnameAllowlist := normalizeHostnameAllowlist js policy.hostnameAllowlist
    let skipPrivateNetworkChecks := shouldSkipPrivateNetworkChecks js normalized policy
    if !matchesHostnameAllowlist normalized hostnameAllowlist then
      .error (.blocked ("Blocked hostname (not in allowlist): " ++ hostname))
    else do
      if !skipPrivateNetworkChecks then assertAllowedHostOrIpOrThrow js normalized policy
      return (normalized, skipPrivateNetworkChecks)

def assertAllowedResolvedAddressesOrThrow (results : List LookupAddress) (policy : SsrFPolicy) :
    Except SsrFError Unit :=
  if results.any fun entry => isBlockedHostnameOrIp js entry.address policy then
    .error (.blocked BLOCKED_RESOLVED_IP_MESSAGE)
  else .ok ()

def isLoopbackIpAddressIncludingEmbeddedIpv4 (address : String) : Bool :=
  isLoopbackIpAddress js address ||
    match parseCanonicalIpAddress js address with
    | some (.ipv6 ip) => (extractEmbeddedIpv4FromIpv6 js ip).any (js.range4 · = .loopback)
    | _ => false

def isUnspecifiedIpAddressIncludingEmbeddedIpv4 (address : String) : Bool :=
  match parseCanonicalIpAddress js address with
  | none => false
  | some (.ipv4 ip) => js.range4 ip = .unspecified
  | some (.ipv6 ip) =>
    if js.range6 ip = .unspecified then true
    else if js.range6 ip = .loopback then false
    else (extractEmbeddedIpv4FromIpv6 js ip).any (js.range4 · = .unspecified)

def isExplicitLoopbackHostname (hostname : String) : Bool :=
  hostname = "localhost" || hostname = "localhost.localdomain" || endsWith hostname ".localhost" ||
    isLoopbackIpAddressIncludingEmbeddedIpv4 js hostname

def isBlockedForTrustedHostname (isLoopbackAllowed : Bool) (address : String) : Bool :=
  isUnspecifiedIpAddressIncludingEmbeddedIpv4 js address ||
    (!isLoopbackAllowed && isLoopbackIpAddressIncludingEmbeddedIpv4 js address) ||
    isLinkLocalIpAddress js address || isCloudMetadataIpAddress js address

def assertAllowedTrustedHostnameResolvedAddressesOrThrow (results : List LookupAddress)
    (hostname : String) : Except SsrFError Unit :=
  if results.any fun entry =>
      isBlockedForTrustedHostname js (isExplicitLoopbackHostname js hostname) entry.address then
    .error (.blocked BLOCKED_RESOLVED_IP_MESSAGE)
  else .ok ()

/-- The addresses seen, those of family 4 and the others. -/
def dedupeStep (acc : List String × List String × List String) (entry : LookupAddress) :
    List String × List String × List String :=
  if acc.1.contains entry.address then acc
  else if entry.family = 4 then
    (acc.1 ++ [entry.address], acc.2.1 ++ [entry.address], acc.2.2)
  else (acc.1 ++ [entry.address], acc.2.1, acc.2.2 ++ [entry.address])

/-- The addresses once each, those of family 4 first. -/
def dedupeAndPreferIpv4 (results : List LookupAddress) : List String :=
  let all := results.foldl dedupeStep ([], [], [])
  all.2.1 ++ all.2.2

/-- What `createPinnedLookup` closes over. -/
structure PinnedLookup where
  normalizedHost : String
  records : List LookupAddress

def recordOf (address : String) : LookupAddress where
  address := address
  family := if address.toList.contains ':' then 6 else 4

def createPinnedLookup (hostname : String) (addresses : List String) :
    Except SsrFError PinnedLookup :=
  if addresses = [] then
    .error (.error ("Pinned lookup requires at least one address for " ++ hostname))
  else .ok ⟨normalizeHostname js hostname, addresses.map recordOf⟩

structure PinnedHostname where
  hostname : String
  addresses : List String
  lookup : PinnedLookup

/-- The re-check of the answers, with the exemptions that the hostname has. -/
def assertAllowedAnswersOrThrow (normalized : String) (skipPrivateNetworkChecks : Bool)
    (results : List LookupAddress) (policy : SsrFPolicy) : Except SsrFError Unit :=
  if !skipPrivateNetworkChecks then assertAllowedResolvedAddressesOrThrow js results policy
  else if !isPrivateNetworkAllowedByPolicy policy then
    assertAllowedTrustedHostnameResolvedAddressesOrThrow js results normalized
  else .ok ()

def resolvePinnedHostnameWithPolicy (hostname : String)
    (lookupFn : String → Except SsrFError LookupResult) (policy : SsrFPolicy) :
    Except SsrFError PinnedHostname := do
  let (normalized, skipPrivateNetworkChecks) ← resolveHostnamePolicyChecks js hostname policy
  let result ← lookupFn normalized
  let results := normalizeLookupResults result
  if results = [] then .error (.error ("Unable to resolve hostname: " ++ hostname))
  else
    assertAllowedAnswersOrThrow js normalized skipPrivateNetworkChecks results policy
    let addresses := dedupeAndPreferIpv4 results
    if addresses = [] then .error (.error ("Unable to resolve hostname: " ++ hostname))
    else
      let lookup ← createPinnedLookup js normalized addresses
      return ⟨normalized, addresses, lookup⟩

/-- The `options` of a lookup: left out for the callback, left out, a family, or a record. -/
inductive LookupOptions where
  | callback
  | missing
  | family (n : JsNumber)
  | record (all : Bool) (family : Option JsNumber)
deriving DecidableEq

structure LookupRequest where
  host : String
  options : LookupOptions
  /-- A callback comes with the request. -/
  callback : Bool

inductive LookupAnswer where
  /-- Nobody is told. -/
  | nothing
  /-- The fallback lookup is asked for the host. -/
  | fallback
  | all (records : List LookupAddress)
  | one (record : LookupAddress)

def LookupOptions.requestedFamily : LookupOptions → JsNumber
  | .family n => n
  | .record _ (some n) => n
  | _ => .ofNat 0

def LookupOptions.all : LookupOptions → Bool
  | .record all _ => all
  | _ => false

/-- The records of family 4, or all when there are none. -/
def PinnedLookup.automaticRecords (pinned : PinnedLookup) : List LookupAddress :=
  let ipv4Records := pinned.records.filter fun entry => entry.family = 4
  if ipv4Records ≠ [] then ipv4Records else pinned.records

def PinnedLookup.candidates (pinned : PinnedLookup) (requestedFamily : JsNumber) :
    List LookupAddress :=
  if requestedFamily = .ofNat 4 ∨ requestedFamily = .ofNat 6 then
    pinned.records.filter fun entry => requestedFamily = .ofNat entry.family
  else pinned.automaticRecords

/-- The records that a lookup may answer with. -/
def usableRecords (pinned : PinnedLookup) (options : LookupOptions) : List LookupAddress :=
  if pinned.candidates options.requestedFamily ≠ [] then pinned.candidates options.requestedFamily
  else pinned.automaticRecords

/-- One lookup, and the index after it. -/
def pinnedLookup (pinned : PinnedLookup) (index : ℕ) (request : LookupRequest) :
    LookupAnswer × ℕ :=
  if request.options ≠ .callback ∧ request.callback = false then (.nothing, index)
  else
    let normalized := normalizeHostname js request.host
    if normalized = "" ∨ normalized ≠ pinned.normalizedHost then (.fallback, index)
    else
      let usable := usableRecords pinned request.options
      if request.options.all then (.all usable, index)
      else
        match usable[index % usable.length]? with
        | none => (.nothing, index)
        | some chosen => (.one chosen, index + 1)

/-- The answers of a sequence of lookups. -/
def pinnedLookups (pinned : PinnedLookup) : ℕ → List LookupRequest → List LookupAnswer
  | _, [] => []
  | index, request :: requests =>
    (pinnedLookup js pinned index request).1 ::
      pinnedLookups pinned (pinnedLookup js pinned index request).2 requests

end Checks

end Flashclaw.Net
