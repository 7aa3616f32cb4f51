import Flashclaw.Lib.Results
import Flashclaw.Net.Ssrf

/-!
# SSRF policy: what pinned addresses are

Every pinned address is outside of the ranges that its host's policy blocks, in
every encoding of an IPv4 address that it has, but for an ISATAP identifier
under a 6to4 or Teredo prefix: there the prefix decides which address is
decoded.
-/

namespace Flashclaw.Net

/-- The IPv4 addresses that an IPv6 address stands for, one for each encoding it is in. -/
inductive Embeds (ip : IPv6) : IPv4 → Prop
  | mapped (h : ip.isMapped = true) : Embeds ip ip.lastIpv4
  | compatible (h : ip.isCompatible = true) (hne : ¬ (ip.p6 = 0 ∧ (ip.p7 = 0 ∨ ip.p7 = 1))) :
      Embeds ip ip.lastIpv4
  | isatap (h : ip.isIsatap = true) : Embeds ip ip.lastIpv4
  | sixToFour (h : ip.isSixToFour = true) : Embeds ip (decodeIpv4FromHextets ip.p1 ip.p2)
  | teredo (h : ip.isTeredo = true) :
      Embeds ip (decodeIpv4FromHextets (ip.p6 ^^^ 0xffff) (ip.p7 ^^^ 0xffff))
  | nat64 (h : ip.isNat64 = true) : Embeds ip ip.lastIpv4
  | translated (h : ip.isTranslated = true) : Embeds ip ip.lastIpv4

/-- The address is blocked in none of its encodings. -/
def Clear (blocked4 : IPv4 → Bool) (blocked6 : IPv6 → Bool) : ParsedIpAddress → Prop
  | .ipv4 ip => blocked4 ip = false
  | .ipv6 ip => blocked6 ip = false ∧ ∀ v, Embeds ip v → blocked4 v = false

section Blocked

variable (js : Ipaddr)

/-- What a host that is trusted by its name may not resolve to. -/
def blockedIfTrusted4 (isLoopbackAllowed : Bool) (ip : IPv4) : Bool :=
  js.range4 ip = .unspecified || (!isLoopbackAllowed && js.range4 ip = .loopback) ||
    js.range4 ip = .linkLocal || ip = ⟨100, 100, 100, 200⟩

/-- The metadata address of IPv6. -/
def metadataIpv6 : IPv6 := ⟨0xfd00, 0xec2, 0, 0, 0, 0, 0, 0x254, none⟩

def blockedIfTrusted6 (isLoopbackAllowed : Bool) (ip : IPv6) : Bool :=
  js.range6 ip = .unspecified || (!isLoopbackAllowed && js.range6 ip = .loopback) ||
    js.range6 ip = .linkLocal ||
    { ip with zoneId := none } = metadataIpv6

/-- The policy of a host that was looked up blocks the IPv4 address. -/
def blocked4 (policy : SsrFPolicy) (hostname : String) : IPv4 → Bool :=
  if shouldSkipPrivateNetworkChecks js hostname policy then
    blockedIfTrusted4 js (isExplicitLoopbackHostname js hostname)
  else isBlockedSpecialUseIpv4Address js policy.allowRfc2544BenchmarkRange

def blocked6 (policy : SsrFPolicy) (hostname : String) : IPv6 → Bool :=
  if shouldSkipPrivateNetworkChecks js hostname policy then
    blockedIfTrusted6 js (isExplicitLoopbackHostname js hostname)
  else isBlockedSpecialUseIpv6Address js policy.allowIpv6UniqueLocalRange

/-- A text that lookups answer with: an address, as it is normalized. -/
structure IsAnswer (address : String) : Prop where
  normalized : normalizeHostname js address = address
  ne_empty : address ≠ ""
  parses : (parseCanonicalIpAddress js address).isSome = true

end Blocked

/-- An ISATAP identifier under a prefix that decides which address is decoded. -/
def IPv6.isHidden (ip : IPv6) : Bool := (ip.isSixToFour || ip.isTeredo) && ip.isIsatap

/-- With a zone the metadata address is not written as the one that is refused. -/
def IPv6.isZonedMetadata (ip : IPv6) : Bool :=
  ip.zoneId.isSome && { ip with zoneId := none } = metadataIpv6

section Encodings

variable {js : Ipaddr}

/-- What an address embeds is decoded, but for hidden ISATAP identifiers. -/
theorem extract_of_embeds (hjs : js.Lawful) {ip : IPv6} {v : IPv4} (h : Embeds ip v) :
    extractEmbeddedIpv4FromIpv6 js ip = some v ∨ ip.isHidden = true ∧ v = ip.lastIpv4 := by
  unfold extractEmbeddedIpv4FromIpv6
  cases h with
  | mapped h =>
    rw [(hjs.mapped ip).mpr h]
    exact .inl rfl
  | translated h =>
    rw [(hjs.translated ip).mpr h]
    exact .inl rfl
  | nat64 h =>
    rw [(hjs.nat64 ip).mpr h]
    exact .inl rfl
  | sixToFour h =>
    rw [(hjs.sixToFour ip).mpr h]
    exact .inl rfl
  | teredo h =>
    rw [(hjs.teredo ip).mpr h]
    exact .inl rfl
  | compatible h _ =>
    -- No tunnel range starts with the six zero words of a compatible address.
    left
    split
    · rfl
    · rfl
    · rfl
    · rename_i hrange
      have hfront := (hjs.sixToFour ip).mp hrange
      simp only [IPv6.isSixToFour, IPv6.isCompatible, Bool.and_eq_true, decide_eq_true_eq]
        at hfront h
      rw [hfront] at h
      exact absurd h.1.1.1.1.1 (by decide)
    · rename_i hrange
      have hfront := (hjs.teredo ip).mp hrange
      simp only [IPv6.isTeredo, IPv6.isCompatible, Bool.and_eq_true, decide_eq_true_eq]
        at hfront h
      rw [hfront.1] at h
      exact absurd h.1.1.1.1.1 (by decide)
    · rw [h]
      rfl
  -- The interface id is looked at last, so a 6to4 or Teredo front hides it.
  | isatap h =>
    split
    · exact .inl rfl
    · exact .inl rfl
    · exact .inl rfl
    · rename_i hrange
      right
      simp only [IPv6.isHidden, (hjs.sixToFour ip).mp hrange, h, Bool.true_or, Bool.and_self,
        and_self]
    · rename_i hrange
      right
      simp only [IPv6.isHidden, (hjs.teredo ip).mp hrange, h, Bool.or_true, Bool.and_self, and_self]
    · rw [h, Bool.or_true]
      exact .inl rfl

/-- An address that is checked and whose decoded address is checked is clear, if its hidden
identifier is. -/
theorem clear_iff (hjs : js.Lawful) {ip : IPv6} {blocked4 : IPv4 → Bool} {blocked6 : IPv6 → Bool}
    (hblocked : blocked6 ip = false)
    (hextract : ∀ v, Embeds ip v → extractEmbeddedIpv4FromIpv6 js ip = some v →
      blocked4 v = false) :
    Clear blocked4 blocked6 (.ipv6 ip) ↔ (ip.isHidden = true → blocked4 ip.lastIpv4 = false) := by
  constructor
  · rintro ⟨-, h⟩ hhidden
    apply h
    simp only [IPv6.isHidden, Bool.and_eq_true] at hhidden
    exact .isatap hhidden.2
  · intro h
    refine ⟨hblocked, ?_⟩
    intro v hv
    obtain hsome | ⟨hhidden, rfl⟩ := extract_of_embeds hjs hv
    · exact hextract v hv hsome
    · exact h hhidden

theorem not_embeds_of_loopback (hjs : js.Lawful) {ip : IPv6} {v : IPv4}
    (hrange : js.range6 ip = .loopback) : ¬ Embeds ip v := by
  obtain ⟨hcompatible, h6, h7⟩ := (hjs.loopback ip).mp hrange
  simp only [IPv6.isCompatible, Bool.and_eq_true, decide_eq_true_eq] at hcompatible
  obtain ⟨⟨⟨⟨⟨h0, h1⟩, h2⟩, h3⟩, h4⟩, h5⟩ := hcompatible
  intro h
  cases h with
  | compatible _ hne => exact hne ⟨h6, .inr h7⟩
  | mapped h => simp [IPv6.isMapped, h5] at h
  | isatap h => simp [IPv6.isIsatap, h5] at h
  | sixToFour h => simp [IPv6.isSixToFour, h0] at h
  | teredo h => simp [IPv6.isTeredo, h0] at h
  | nat64 h => simp [IPv6.isNat64, h0] at h
  | translated h => simp [IPv6.isTranslated, h4] at h

end Encodings

section Checked

variable {js : Ipaddr} {policy : SsrFPolicy} {address : String} {parsed : ParsedIpAddress}

/-- An address that has been checked: as it is, and as the address that is decoded from it. -/
def Checked (js : Ipaddr) (blocked4 : IPv4 → Bool) (blocked6 : IPv6 → Bool) :
    ParsedIpAddress → Prop
  | .ipv4 ip => blocked4 ip = false
  | .ipv6 ip => blocked6 ip = false ∧
    ∀ v, Embeds ip v → extractEmbeddedIpv4FromIpv6 js ip = some v → blocked4 v = false

theorem any_eq_false {value : Option IPv4} {p : IPv4 → Bool} (h : value.any p = false) {v : IPv4}
    (hv : value = some v) : p v = false := by
  rw [hv] at h
  exact h

theorem parseLoose_of_canonical (hjs : js.Lawful)
    (h : parseCanonicalIpAddress js address = some parsed) :
    parseLooseIpAddress js address = some parsed := by
  obtain ⟨normalized, hnormalized, hparse⟩ := Option.bind_eq_some_iff.mp h
  rw [parseLooseIpAddress, hnormalized, Option.bind_some]
  split at hparse
  · cases hparse
  · rename_i hne
    rw [if_neg hne]
    split at hparse
    · rename_i hcanonical
      have hvalid : js.isValid normalized = true := by
        obtain h4 | h6 := Bool.or_eq_true_iff.mp hcanonical
        · exact hjs.isValid_ipv4 _ h4
        · exact hjs.isValid_ipv6 _ h6
      rw [if_pos hvalid]
      exact hparse
    · cases hparse

/-- What is left of addresses that look private. -/
theorem checked_of_not_blocked (haddress : IsAnswer js address)
    (h : isBlockedHostnameOrIp js address policy = false)
    (hparse : parseCanonicalIpAddress js address = some parsed) :
    Checked js (isBlockedSpecialUseIpv4Address js policy.allowRfc2544BenchmarkRange)
      (isBlockedSpecialUseIpv6Address js policy.allowIpv6UniqueLocalRange) parsed := by
  simp only [isBlockedHostnameOrIp, isPrivateIpAddress, haddress.normalized, haddress.ne_empty,
    if_false, Bool.or_eq_false_iff, hparse] at h
  cases parsed with
  | ipv4 ip => exact h.2
  | ipv6 ip =>
    obtain ⟨h6, h4⟩ := Bool.or_eq_false_iff.mp h.2
    exact ⟨h6, fun v _ hv => any_eq_false h4 hv⟩

theorem contains_metadata4 (hjs : js.Lawful) (ip : IPv4) :
    CLOUD_METADATA_IP_ADDRESSES.contains (js.toString (.ipv4 ip)) =
      decide (ip = ⟨100, 100, 100, 200⟩) := by
  rw [Bool.eq_iff_iff, decide_eq_true_eq, ← hjs.toString4 ip]
  simp [CLOUD_METADATA_IP_ADDRESSES, hjs.toString4_ne ip]

theorem contains_metadata6 (hjs : js.Lawful) (ip : IPv6) :
    CLOUD_METADATA_IP_ADDRESSES.contains (js.toString (.ipv6 ip)) =
      decide (ip = metadataIpv6) := by
  rw [Bool.eq_iff_iff, decide_eq_true_eq, metadataIpv6, ← hjs.toString6 ip]
  simp [CLOUD_METADATA_IP_ADDRESSES, hjs.toString6_ne ip]

theorem unzoned_ne_metadata {ip : IPv6} (hzone : ip.isZonedMetadata = false)
    (hne : ip ≠ metadataIpv6) : { ip with zoneId := none } ≠ metadataIpv6 := by
  intro heq
  simp only [IPv6.isZonedMetadata, heq, decide_true, Bool.and_true, Option.isSome_eq_false_iff,
    Option.isNone_iff_eq_none] at hzone
  apply hne
  rw [← heq, ← hzone]

/-- What is left of addresses that a trusted host may not resolve to. -/
theorem checked_of_trusted (hjs : js.Lawful) {isLoopbackAllowed : Bool}
    (h : isBlockedForTrustedHostname js isLoopbackAllowed address = false)
    (hparse : parseCanonicalIpAddress js address = some parsed)
    (hzone : ∀ ip, parsed = .ipv6 ip → ip.isZonedMetadata = false) :
    Checked js (blockedIfTrusted4 js isLoopbackAllowed) (blockedIfTrusted6 js isLoopbackAllowed)
      parsed := by
  have hloose := parseLoose_of_canonical hjs hparse
  simp only [isBlockedForTrustedHostname, Bool.or_eq_false_iff,
    isUnspecifiedIpAddressIncludingEmbeddedIpv4, isLoopbackIpAddressIncludingEmbeddedIpv4,
    isLoopbackIpAddress, isLinkLocalIpAddress, isCloudMetadataIpAddress, hparse, hloose,
    Option.any_some] at h
  obtain ⟨⟨⟨hunspecified, hloopback⟩, hlinkLocal⟩, hmetadata⟩ := h
  cases parsed with
  | ipv4 ip =>
    simp only [normalizeIpv4MappedAddress, contains_metadata4 hjs, Option.any_none,
      Bool.or_false] at hunspecified hloopback hlinkLocal hmetadata
    simp only [Checked, blockedIfTrusted4, hunspecified, hloopback, hlinkLocal, hmetadata,
      Bool.or_self]
  | ipv6 ip =>
    dsimp only at hunspecified hloopback
    have hmetadata6 (hne : ip ≠ metadataIpv6) : { ip with zoneId := none } ≠ metadataIpv6 :=
      unzoned_ne_metadata (hzone ip rfl) hne
    have hrange : js.range6 ip ≠ .unspecified := by
      intro heq
      rw [if_pos heq] at hunspecified
      cases hunspecified
    have hunspecified4 (v : IPv4) (hv : Embeds ip v)
        (hsome : extractEmbeddedIpv4FromIpv6 js ip = some v) :
        decide (js.range4 v = .unspecified) = false := by
      -- `::1` is a loopback address and embeds none
      rw [if_neg hrange, if_neg fun heq => not_embeds_of_loopback hjs heq hv] at hunspecified
      exact any_eq_false hunspecified hsome
    by_cases hmapped : js.range6 ip = .ipv4Mapped
    · have hextract : extractEmbeddedIpv4FromIpv6 js ip = some ip.lastIpv4 := by
        rw [extractEmbeddedIpv4FromIpv6, hmapped]
      simp only [normalizeIpv4MappedAddress, hmapped, if_true, hextract, Option.any_some,
        Option.any_none, contains_metadata4 hjs] at hloopback hlinkLocal hmetadata
      constructor
      · have hbits := (hjs.mapped ip).mp hmapped
        have hne : ip ≠ metadataIpv6 := by
          rintro rfl
          exact absurd hbits (by decide)
        simp only [blockedIfTrusted6, hmapped, hmetadata6 hne, reduceCtorEq, decide_false,
          Bool.and_false, Bool.or_self]
      · intro v hv hsome
        have hunspecified' := hunspecified4 v hv hsome
        obtain rfl := Option.some.inj (hextract.symm.trans hsome)
        rw [Bool.or_self] at hloopback
        simp only [blockedIfTrusted4, hunspecified', hloopback, hlinkLocal, hmetadata.2,
          Bool.or_self]
    · simp only [normalizeIpv4MappedAddress, hmapped, if_false, contains_metadata6 hjs,
        contains_metadata4 hjs, Bool.or_eq_false_iff] at hloopback hlinkLocal hmetadata
      constructor
      · have hne := of_decide_eq_false hmetadata.2
        simp only [blockedIfTrusted6, hmetadata6 hne, hlinkLocal.2, hrange, decide_false,
          Bool.false_or, Bool.or_false]
        rw [Bool.and_or_distrib_left, Bool.or_eq_false_iff] at hloopback
        exact hloopback.1
      · intro v hv hsome
        have hunspecified' := hunspecified4 v hv hsome
        have hlinkLocal' := any_eq_false hlinkLocal.1 hsome
        have hmetadata' := any_eq_false hmetadata.1 hsome
        have hloopback' : (!isLoopbackAllowed && decide (js.range4 v = .loopback)) = false := by
          rw [Bool.and_or_distrib_left, Bool.or_eq_false_iff, hsome] at hloopback
          exact hloopback.2
        simp only [blockedIfTrusted4, hunspecified', hloopback', hlinkLocal', hmetadata',
          Bool.or_self]

end Checked

end Flashclaw.Net
