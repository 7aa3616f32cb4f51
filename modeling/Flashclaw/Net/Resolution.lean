import Flashclaw.Net.Pinned

/-!
# SSRF policy: resolutions and the lookups of their connections

What is known of a resolution that succeeds, and what its lookup answers.
-/

namespace Flashclaw.Net

theorem mem_foldl_dedupeStep (results : List LookupAddress)
    (acc : List String × List String × List String)
    (hacc : ∀ a, a ∈ acc.1 ↔ a ∈ acc.2.1 ++ acc.2.2) (a : String) :
    a ∈ (results.foldl dedupeStep acc).2.1 ++ (results.foldl dedupeStep acc).2.2 ↔
      a ∈ acc.1 ∨ ∃ e ∈ results, e.address = a := by
  induction results generalizing acc with
  | nil => simpa using (hacc a).symm
  | cons entry results ih =>
    rw [List.foldl_cons, ih (dedupeStep acc entry)]
    · have hseen : a ∈ (dedupeStep acc entry).1 ↔ a ∈ acc.1 ∨ entry.address = a := by
        unfold dedupeStep
        split
        · rename_i hmem
          rw [List.contains_iff_mem] at hmem
          constructor
          · exact .inl
          · rintro (h | rfl)
            · exact h
            · exact hmem
        · split <;> simp only [List.mem_append, List.mem_singleton, eq_comm]
      rw [hseen, or_assoc, List.exists_mem_cons_iff]
    · intro b
      have hb := hacc b
      unfold dedupeStep
      split
      · exact hb
      · split
        · simp only [List.mem_append, hb]
          tauto
        · simp only [List.mem_append, hb]
          tauto

theorem mem_dedupeAndPreferIpv4 {results : List LookupAddress} {a : String} :
    a ∈ dedupeAndPreferIpv4 results ↔ ∃ e ∈ results, e.address = a := by
  have h := mem_foldl_dedupeStep results ([], [], []) (by simp) a
  simpa only [dedupeAndPreferIpv4, List.not_mem_nil, false_or] using h

section Resolution

variable {js : Ipaddr} {policy : SsrFPolicy} {hostname : String} {results : List LookupAddress}
  {lookupFn : String → Except SsrFError LookupResult} {result : LookupResult}
  {pinned : PinnedHostname}

/-- The checks that the answers for a host have passed. -/
def AnswersAllowed (js : Ipaddr) (policy : SsrFPolicy) (normalized : String)
    (results : List LookupAddress) : Prop :=
  if shouldSkipPrivateNetworkChecks js normalized policy then
    ∀ e ∈ results,
      isBlockedForTrustedHostname js (isExplicitLoopbackHostname js normalized) e.address = false
  else ∀ e ∈ results, isBlockedHostnameOrIp js e.address policy = false

theorem resolveHostnamePolicyChecks_ok {checked : String × Bool}
    (h : resolveHostnamePolicyChecks js hostname policy = .ok checked) :
    checked = (normalizeHostname js hostname,
      shouldSkipPrivateNetworkChecks js (normalizeHostname js hostname) policy) := by
  unfold resolveHostnamePolicyChecks at h
  dsimp only at h
  split at h
  · cases h
  · split at h
    · cases h
    · split at h
      · cases hassert : assertAllowedHostOrIpOrThrow js (normalizeHostname js hostname) policy with
        | error e =>
          rw [hassert] at h
          cases h
        | ok u =>
          rw [hassert] at h
          exact (Except.ok.inj h).symm
      · exact (Except.ok.inj h).symm

/-- What is known of a resolution that succeeds. -/
structure Resolved (js : Ipaddr) (policy : SsrFPolicy) (normalized : String)
    (results : List LookupAddress) (pinned : PinnedHostname) : Prop where
  hostname : pinned.hostname = normalized
  addresses : pinned.addresses = dedupeAndPreferIpv4 results
  nonempty : pinned.addresses ≠ []
  lookup : pinned.lookup = ⟨normalizeHostname js normalized, pinned.addresses.map recordOf⟩
  allowed : AnswersAllowed js policy normalized results

theorem all_of_any_eq_false {p : LookupAddress → Bool} (h : results.any p = false) :
    ∀ e ∈ results, p e = false := by
  intro e he
  rw [List.any_eq_false] at h
  exact Bool.eq_false_iff.mpr (h e he)

theorem answersAllowed_of_ok {normalized : String}
    (hprivate : isPrivateNetworkAllowedByPolicy policy = false)
    (h : assertAllowedAnswersOrThrow js normalized
      (shouldSkipPrivateNetworkChecks js normalized policy) results policy = .ok ()) :
    AnswersAllowed js policy normalized results := by
  unfold assertAllowedAnswersOrThrow at h
  unfold AnswersAllowed
  cases hskip : shouldSkipPrivateNetworkChecks js normalized policy with
  | true =>
    simp only [hskip, hprivate, Bool.not_true, Bool.not_false, Bool.false_eq_true, if_false, if_true,
      assertAllowedTrustedHostnameResolvedAddressesOrThrow] at h ⊢
    split at h
    · cases h
    · rename_i hany
      exact all_of_any_eq_false (Bool.eq_false_iff.mpr hany)
  | false =>
    simp only [hskip, Bool.not_false, Bool.false_eq_true, if_false, if_true,
      assertAllowedResolvedAddressesOrThrow] at h ⊢
    split at h
    · cases h
    · rename_i hany
      exact all_of_any_eq_false (Bool.eq_false_iff.mpr hany)

theorem resolved_of_ok (hprivate : isPrivateNetworkAllowedByPolicy policy = false)
    (hlookup : lookupFn (normalizeHostname js hostname) = .ok result)
    (h : resolvePinnedHostnameWithPolicy js hostname lookupFn policy = .ok pinned) :
    Resolved js policy (normalizeHostname js hostname) (normalizeLookupResults result) pinned := by
  obtain ⟨checked, hchecks, h⟩ := Results.bind_eq_ok.mp h
  obtain rfl := resolveHostnamePolicyChecks_ok hchecks
  obtain ⟨result', hresult, h⟩ := Results.bind_eq_ok.mp h
  obtain rfl := Except.ok.inj (hlookup.symm.trans hresult)
  dsimp only at h
  split at h
  · cases h
  · obtain ⟨u, hassert, h⟩ := Results.bind_eq_ok.mp h
    split at h
    · cases h
    · rename_i hne
      obtain ⟨lookup, hcreate, h⟩ := Results.bind_eq_ok.mp h
      obtain rfl := Except.ok.inj h
      rw [createPinnedLookup, if_neg hne] at hcreate
      obtain rfl := Except.ok.inj hcreate
      exact ⟨rfl, rfl, hne, rfl, answersAllowed_of_ok hprivate hassert⟩

/-- The answer is of pinned addresses for their host, and of none for others. -/
def AnswersPinned (js : Ipaddr) (pinned : PinnedHostname) (request : LookupRequest) :
    LookupAnswer → Prop
  | .nothing => request.options ≠ .callback ∧ request.callback = false
  | .fallback => normalizeHostname js request.host ≠ normalizeHostname js pinned.hostname
  | .all records =>
    normalizeHostname js request.host = normalizeHostname js pinned.hostname ∧
      ∀ r ∈ records, r.address ∈ pinned.addresses
  | .one record =>
    normalizeHostname js request.host = normalizeHostname js pinned.hostname ∧
      record.address ∈ pinned.addresses

theorem mem_automaticRecords {lookup : PinnedLookup} {r : LookupAddress}
    (h : r ∈ lookup.automaticRecords) : r ∈ lookup.records := by
  unfold PinnedLookup.automaticRecords at h
  dsimp only at h
  split at h
  · exact List.mem_of_mem_filter h
  · exact h

theorem mem_candidates {lookup : PinnedLookup} {family : JsNumber} {r : LookupAddress}
    (h : r ∈ lookup.candidates family) : r ∈ lookup.records := by
  unfold PinnedLookup.candidates at h
  split at h
  · exact List.mem_of_mem_filter h
  · exact mem_automaticRecords h

theorem mem_usableRecords {lookup : PinnedLookup} {options : LookupOptions} {r : LookupAddress}
    (h : r ∈ usableRecords lookup options) : r ∈ lookup.records := by
  unfold usableRecords at h
  split at h
  · exact mem_candidates h
  · exact mem_automaticRecords h

theorem usableRecords_ne_nil {lookup : PinnedLookup} (h : lookup.records ≠ [])
    (options : LookupOptions) : usableRecords lookup options ≠ [] := by
  unfold usableRecords
  split
  · assumption
  · unfold PinnedLookup.automaticRecords
    dsimp only
    split
    · assumption
    · exact h

section Lookup

variable {normalized : String} (hresolved : Resolved js policy normalized results pinned)
include hresolved

theorem address_of_mem_usable {options : LookupOptions} {r : LookupAddress}
    (h : r ∈ usableRecords pinned.lookup options) : r.address ∈ pinned.addresses := by
  have hmem := mem_usableRecords h
  rw [hresolved.lookup] at hmem
  obtain ⟨address, haddress, rfl⟩ := List.mem_map.mp hmem
  exact haddress

/-- One lookup, from any index. -/
theorem answersPinned_pinnedLookup (hhost : normalizeHostname js pinned.hostname ≠ "") (index : ℕ)
    (request : LookupRequest) :
    AnswersPinned js pinned request (pinnedLookup js pinned.lookup index request).1 := by
  have hnormalized : pinned.lookup.normalizedHost = normalizeHostname js pinned.hostname := by
    rw [hresolved.lookup, hresolved.hostname]
  have hrecords : pinned.lookup.records ≠ [] := by
    rw [hresolved.lookup]
    simpa using hresolved.nonempty
  unfold pinnedLookup
  dsimp only
  split
  · assumption
  · split
    · rename_i h
      rw [hnormalized] at h
      rcases h with h | h
      · show _ ≠ _
        rw [h]
        exact hhost.symm
      · exact h
    · rename_i h
      rw [not_or, not_not, hnormalized] at h
      split
      · exact ⟨h.2, fun r hr => address_of_mem_usable hresolved hr⟩
      · have hlt : index % (usableRecords pinned.lookup request.options).length <
            (usableRecords pinned.lookup request.options).length :=
          Nat.mod_lt _ (List.length_pos_of_ne_nil (usableRecords_ne_nil hrecords _))
        rw [List.getElem?_eq_getElem hlt]
        exact ⟨h.2, address_of_mem_usable hresolved (List.getElem_mem hlt)⟩

theorem answersPinned_pinnedLookups (hhost : normalizeHostname js pinned.hostname ≠ "")
    (requests : List LookupRequest) (index : ℕ) :
    List.Forall₂ (AnswersPinned js pinned) requests
      (pinnedLookups js pinned.lookup index requests) := by
  induction requests generalizing index with
  | nil => exact .nil
  | cons request requests ih =>
    exact .cons (answersPinned_pinnedLookup hresolved hhost index request) (ih _)

/-- A host that normalizes to nothing is always looked up elsewhere. -/
theorem lookups_iff :
    (∀ requests, List.Forall₂ (AnswersPinned js pinned) requests
      (pinnedLookups js pinned.lookup 0 requests)) ↔
      normalizeHostname js normalized ≠ "" := by
  rw [← hresolved.hostname]
  constructor
  · intro h hempty
    have hone := h [⟨pinned.hostname, .callback, true⟩]
    cases hone with
    | cons hanswer _ =>
      simp only [pinnedLookup, hempty, ne_eq, not_true_eq_false, false_and, if_false, true_or,
        if_true] at hanswer
      exact hanswer rfl
  · intro hhost requests
    exact answersPinned_pinnedLookups hresolved hhost requests 0

end Lookup

/-- Nothing in the address is out of sight of the checks that its host gets: no hidden
identifier of a blocked address, and for trusted hosts no zone on the metadata address. -/
def InSight (js : Ipaddr) (policy : SsrFPolicy) (normalized : String) (ip : IPv6) : Prop :=
  (ip.isHidden = true → blocked4 js policy normalized ip.lastIpv4 = false) ∧
    (shouldSkipPrivateNetworkChecks js normalized policy = true → ip.isZonedMetadata = false)

theorem zonedMetadata_of_clear {ip : IPv6} {allowed : Bool}
    (h : blockedIfTrusted6 js allowed ip = false) : ip.isZonedMetadata = false := by
  simp only [blockedIfTrusted6, Bool.or_eq_false_iff] at h
  simp only [IPv6.isZonedMetadata, h.2, Bool.and_false]

section Answer

variable {normalized : String} {e : LookupAddress} {parsed : ParsedIpAddress}

/-- What the checks leave of an answer. -/
theorem checked_of_allowed (hjs : js.Lawful) (hanswer : IsAnswer js e.address) (he : e ∈ results)
    (hallowed : AnswersAllowed js policy normalized results)
    (hparse : parseCanonicalIpAddress js e.address = some parsed)
    (hzone : shouldSkipPrivateNetworkChecks js normalized policy = true →
      ∀ ip, parsed = .ipv6 ip → ip.isZonedMetadata = false) :
    Checked js (blocked4 js policy normalized) (blocked6 js policy normalized) parsed := by
  unfold AnswersAllowed at hallowed
  unfold blocked4 blocked6
  cases hskip : shouldSkipPrivateNetworkChecks js normalized policy with
  | true =>
    simp only [hskip, if_true] at hallowed ⊢
    exact checked_of_trusted hjs (hallowed e he) hparse (hzone hskip)
  | false =>
    simp only [hskip, Bool.false_eq_true, if_false] at hallowed ⊢
    exact checked_of_not_blocked hanswer (hallowed e he) hparse

/-- An answer that passed its checks is clear when it is in their sight. -/
theorem clear_iff_inSight (hjs : js.Lawful) (hanswer : IsAnswer js e.address) (he : e ∈ results)
    (hallowed : AnswersAllowed js policy normalized results)
    (hparse : parseCanonicalIpAddress js e.address = some parsed) :
    Clear (blocked4 js policy normalized) (blocked6 js policy normalized) parsed ↔
      ∀ ip, parsed = .ipv6 ip → InSight js policy normalized ip := by
  have hchecked := checked_of_allowed hjs hanswer he hallowed hparse
  cases parsed with
  | ipv4 ip =>
    constructor
    · rintro - _ ⟨⟩
    · intro _
      apply hchecked
      rintro - _ ⟨⟩
  | ipv6 ip =>
    constructor
    · rintro hclear _ ⟨⟩
      have hzone (hskip : shouldSkipPrivateNetworkChecks js normalized policy = true) :
          ip.isZonedMetadata = false := by
        have h6 := hclear.1
        simp only [blocked6, hskip, if_true] at h6
        exact zonedMetadata_of_clear h6
      have hc := hchecked fun hskip _ heq => ParsedIpAddress.ipv6.inj heq ▸ hzone hskip
      exact ⟨(clear_iff hjs hc.1 hc.2).mp hclear, hzone⟩
    · intro h
      have hc := hchecked fun hskip _ heq => ParsedIpAddress.ipv6.inj heq ▸ (h ip rfl).2 hskip
      exact (clear_iff hjs hc.1 hc.2).mpr (h ip rfl).1

end Answer

/-- The addresses of a resolution are clear, and its lookup answers for its host with them. -/
structure Pins (js : Ipaddr) (policy : SsrFPolicy) (pinned : PinnedHostname) : Prop where
  clear : ∀ a ∈ pinned.addresses, ∃ parsed, parseCanonicalIpAddress js a = some parsed ∧
    Clear (blocked4 js policy pinned.hostname) (blocked6 js policy pinned.hostname) parsed
  lookups : ∀ requests, List.Forall₂ (AnswersPinned js pinned) requests
    (pinnedLookups js pinned.lookup 0 requests)

/-- A resolution pins its host exactly when every answer is in sight of the checks and the
normalized hostname is still there when it is normalized again. -/
theorem pins_iff (hjs : js.Lawful) (hprivate : isPrivateNetworkAllowedByPolicy policy = false)
    (hlookup : lookupFn (normalizeHostname js hostname) = .ok result)
    (hanswers : ∀ e ∈ normalizeLookupResults result, IsAnswer js e.address)
    (h : resolvePinnedHostnameWithPolicy js hostname lookupFn policy = .ok pinned) :
    Pins js policy pinned ↔
      (∀ e ∈ normalizeLookupResults result, ∀ ip,
        parseCanonicalIpAddress js e.address = some (.ipv6 ip) →
          InSight js policy (normalizeHostname js hostname) ip) ∧
      normalizeHostname js (normalizeHostname js hostname) ≠ "" := by
  have hresolved := resolved_of_ok hprivate hlookup h
  rw [← lookups_iff hresolved]
  constructor
  · rintro ⟨hclear, hlookups⟩
    refine ⟨?_, hlookups⟩
    intro e he ip hparse
    have hmem : e.address ∈ pinned.addresses := by
      rw [hresolved.addresses, mem_dedupeAndPreferIpv4]
      exact ⟨e, he, rfl⟩
    obtain ⟨parsed, hparsed, hc⟩ := hclear e.address hmem
    obtain rfl := Option.some.inj (hparse.symm.trans hparsed)
    rw [hresolved.hostname] at hc
    exact (clear_iff_inSight hjs (hanswers e he) he hresolved.allowed hparse).mp hc ip rfl
  · rintro ⟨hsight, hlookups⟩
    refine ⟨?_, hlookups⟩
    intro a ha
    rw [hresolved.addresses, mem_dedupeAndPreferIpv4] at ha
    obtain ⟨e, he, rfl⟩ := ha
    obtain ⟨parsed, hparse⟩ := Option.isSome_iff_exists.mp (hanswers e he).parses
    refine ⟨parsed, hparse, ?_⟩
    rw [hresolved.hostname, clear_iff_inSight hjs (hanswers e he) he hresolved.allowed hparse]
    rintro ip rfl
    exact hsight e he ip hparse

end Resolution

/-- Where its answers matter below, `ipaddr.js` answers as this does. -/
def sampleIpaddr : Ipaddr where
  isValidFourPartDecimal s := s = "8.8.8.8"
  isValidIPv6 s := s = "2002:808:808::5efe:a00:1"
  isValid s := s = "8.8.8.8" || s = "2002:808:808::5efe:a00:1"
  parse s :=
    if s = "8.8.8.8" then .ipv4 ⟨8, 8, 8, 8⟩
    else .ipv6 ⟨0x2002, 0x808, 0x808, 0, 0, 0x5efe, 0xa00, 1, none⟩
  toString
    | .ipv4 ip => if ip = ⟨100, 100, 100, 200⟩ then "100.100.100.200" else "8.8.8.8"
    | .ipv6 ip => if ip = metadataIpv6 then "fd00:ec2::254" else "2002:808:808::5efe:a00:1"
  range4 ip := if ip.a = 10 then .privateUse else .unicast
  range6 ip :=
    if ip.isCompatible && ip.p6 = 0 && ip.p7 = 0 then .unspecified
    else if ip.isCompatible && ip.p6 = 0 && ip.p7 = 1 then .loopback
    else if ip.isMapped then .ipv4Mapped
    else if ip.isTranslated then .rfc6145
    else if ip.isNat64 then .rfc6052
    else if ip.isSixToFour then .sixToFour
    else if ip.isTeredo then .teredo
    else .unicast
  toLowerCase s := String.ofList (s.toList.map Char.toLower)

theorem sampleIpaddr_lawful : sampleIpaddr.Lawful where
  isValid_ipv4 s h := by
    simp only [sampleIpaddr, decide_eq_true_eq] at h
    simp [sampleIpaddr, h]
  isValid_ipv6 s h := by
    simp only [sampleIpaddr, decide_eq_true_eq] at h
    simp [sampleIpaddr, h]
  unspecified ip := by
    simp only [sampleIpaddr]
    grind
  loopback ip := by
    simp only [sampleIpaddr]
    grind
  mapped ip := by
    simp only [sampleIpaddr, IPv6.isMapped, IPv6.isCompatible]
    grind
  translated ip := by
    simp only [sampleIpaddr, IPv6.isMapped, IPv6.isCompatible, IPv6.isTranslated]
    grind
  nat64 ip := by
    simp only [sampleIpaddr, IPv6.isMapped, IPv6.isCompatible, IPv6.isTranslated, IPv6.isNat64]
    grind
  sixToFour ip := by
    simp only [sampleIpaddr, IPv6.isMapped, IPv6.isCompatible, IPv6.isTranslated, IPv6.isNat64,
      IPv6.isSixToFour]
    grind
  teredo ip := by
    simp only [sampleIpaddr, IPv6.isMapped, IPv6.isCompatible, IPv6.isTranslated, IPv6.isNat64,
      IPv6.isSixToFour, IPv6.isTeredo]
    grind
  toString4 ip := by
    simp only [sampleIpaddr]
    split
    · simp_all
    · simp_all
  toString4_ne ip := by
    simp only [sampleIpaddr]
    split <;> decide
  toString6 ip := by
    show (if ip = metadataIpv6 then _ else _) = _ ↔ ip = metadataIpv6
    by_cases h : ip = metadataIpv6
    · simp only [h, if_true]
    · simp only [h, if_false, iff_false]
      decide
  toString6_ne ip := by
    simp only [sampleIpaddr]
    split <;> decide

def sampleAnswer : LookupAddress := ⟨"2002:808:808::5efe:a00:1", 6⟩

def sampleLookup (_ : String) : Except SsrFError LookupResult := .ok (.all [sampleAnswer])

def samplePinned : PinnedHostname :=
  ⟨"example.com", ["2002:808:808::5efe:a00:1"], ⟨"example.com", [sampleAnswer]⟩⟩

theorem sampleAnswer_isAnswer : IsAnswer sampleIpaddr sampleAnswer.address where
  normalized := by rfl
  ne_empty := by decide
  parses := by rfl

theorem pins_iff_sample :
    Pins sampleIpaddr .none samplePinned ↔
      (∀ e ∈ [sampleAnswer], ∀ ip,
        parseCanonicalIpAddress sampleIpaddr e.address = some (.ipv6 ip) →
          InSight sampleIpaddr .none (normalizeHostname sampleIpaddr "example.com") ip) ∧
      normalizeHostname sampleIpaddr (normalizeHostname sampleIpaddr "example.com") ≠ "" := by
  have hlookup : sampleLookup (normalizeHostname sampleIpaddr "example.com") =
      .ok (.all [sampleAnswer]) := rfl
  have hanswers : ∀ e ∈ normalizeLookupResults (.all [sampleAnswer]),
      IsAnswer sampleIpaddr e.address := by
    intro e he
    rw [List.mem_singleton.mp he]
    exact sampleAnswer_isAnswer
  have hresolve : resolvePinnedHostnameWithPolicy sampleIpaddr "example.com" sampleLookup .none =
      .ok samplePinned := rfl
  exact pins_iff sampleIpaddr_lawful rfl hlookup hanswers hresolve

/-- The prefix is that of `8.8.8.8`, the identifier that of `10.0.0.1`. -/
theorem sample_not_pinned :
    sampleIpaddr.Lawful ∧
    resolvePinnedHostnameWithPolicy sampleIpaddr "example.com" sampleLookup .none =
      .ok samplePinned ∧
    IsAnswer sampleIpaddr sampleAnswer.address ∧ ¬ Pins sampleIpaddr .none samplePinned := by
  refine ⟨sampleIpaddr_lawful, rfl, sampleAnswer_isAnswer, ?_⟩
  intro h
  obtain ⟨parsed, hparse, hclear⟩ := h.clear "2002:808:808::5efe:a00:1" List.mem_cons_self
  have hparsed : parseCanonicalIpAddress sampleIpaddr "2002:808:808::5efe:a00:1" =
      some (.ipv6 ⟨0x2002, 0x808, 0x808, 0, 0, 0x5efe, 0xa00, 1, none⟩) := rfl
  obtain rfl := Option.some.inj (hparsed.symm.trans hparse)
  have hblocked := hclear.2 _ (.isatap rfl)
  exact absurd hblocked (by decide +kernel)

end Flashclaw.Net
