import Flashclaw.Lib.JsString

/-!
# Network policy: addresses

`packages/net-policy/src/ip.ts`.  The parser and the range tables of `ipaddr.js`
are a parameter, with the laws that the policy relies on.
-/

namespace Flashclaw.Net

structure IPv4 where
  a : BitVec 8
  b : BitVec 8
  c : BitVec 8
  d : BitVec 8
deriving DecidableEq

/-- The eight hextets and the zone. -/
structure IPv6 where
  p0 : BitVec 16
  p1 : BitVec 16
  p2 : BitVec 16
  p3 : BitVec 16
  p4 : BitVec 16
  p5 : BitVec 16
  p6 : BitVec 16
  p7 : BitVec 16
  zoneId : Option String
deriving DecidableEq

inductive ParsedIpAddress where
  | ipv4 (address : IPv4)
  | ipv6 (address : IPv6)
deriving DecidableEq

inductive Ipv4Range where
  | unicast
  | unspecified
  | broadcast
  | multicast
  | linkLocal
  | loopback
  | carrierGradeNat
  | privateUse
  | reserved
  | as112
  | amt
deriving DecidableEq

inductive Ipv6Range where
  | unicast
  | unspecified
  | linkLocal
  | multicast
  | loopback
  | uniqueLocal
  | ipv4Mapped
  | discard
  | rfc6145
  | rfc6052
  | sixToFour
  | teredo
  | benchmarking
  | orchid2
  | reserved
  | other (name : String)
deriving DecidableEq

/-- `ipaddr.js`, and `toLowerCase` of the language with its Unicode tables. -/
structure Ipaddr where
  isValidFourPartDecimal : String → Bool
  isValidIPv6 : String → Bool
  isValid : String → Bool
  parse : String → ParsedIpAddress
  toString : ParsedIpAddress → String
  range4 : IPv4 → Ipv4Range
  range6 : IPv6 → Ipv6Range
  toLowerCase : String → String

/-- `high` and `low` as four octets. -/
def decodeIpv4FromHextets (high low : BitVec 16) : IPv4 where
  a := (high >>> 8).setWidth 8
  b := high.setWidth 8
  c := (low >>> 8).setWidth 8
  d := low.setWidth 8

/-- `::ffff:0:0/96` -/
def IPv6.isMapped (ip : IPv6) : Bool :=
  ip.p0 = 0 && ip.p1 = 0 && ip.p2 = 0 && ip.p3 = 0 && ip.p4 = 0 && ip.p5 = 0xffff#16

/-- `::/96` -/
def IPv6.isCompatible (ip : IPv6) : Bool :=
  ip.p0 = 0 && ip.p1 = 0 && ip.p2 = 0 && ip.p3 = 0 && ip.p4 = 0 && ip.p5 = 0

/-- An interface identifier `0:5efe` or `200:5efe`, or with the bits that mark a group. -/
def IPv6.isIsatap (ip : IPv6) : Bool := ip.p4 &&& 0xfcff#16 = 0 && ip.p5 = 0x5efe#16

/-- `2002::/16` -/
def IPv6.isSixToFour (ip : IPv6) : Bool := ip.p0 = 0x2002#16

/-- `2001::/32` -/
def IPv6.isTeredo (ip : IPv6) : Bool := ip.p0 = 0x2001#16 && ip.p1 = 0

/-- `64:ff9b::/96` -/
def IPv6.isNat64 (ip : IPv6) : Bool :=
  ip.p0 = 0x64#16 && ip.p1 = 0xff9b#16 && ip.p2 = 0 && ip.p3 = 0 && ip.p4 = 0 && ip.p5 = 0

/-- `::ffff:0:0:0/96` -/
def IPv6.isTranslated (ip : IPv6) : Bool :=
  ip.p0 = 0 && ip.p1 = 0 && ip.p2 = 0 && ip.p3 = 0 && ip.p4 = 0xffff#16 && ip.p5 = 0

/-- The last two hextets are an IPv4 address. -/
def IPv6.lastIpv4 (ip : IPv6) : IPv4 := decodeIpv4FromHextets ip.p6 ip.p7

/-- What `ipaddr.js` does with the addresses that the policy looks at. -/
structure Ipaddr.Lawful (js : Ipaddr) : Prop where
  isValid_ipv4 : ∀ s, js.isValidFourPartDecimal s = true → js.isValid s = true
  isValid_ipv6 : ∀ s, js.isValidIPv6 s = true → js.isValid s = true
  unspecified : ∀ ip, js.range6 ip = .unspecified ↔ ip.isCompatible = true ∧ ip.p6 = 0 ∧ ip.p7 = 0
  loopback : ∀ ip, js.range6 ip = .loopback ↔ ip.isCompatible = true ∧ ip.p6 = 0 ∧ ip.p7 = 1
  mapped : ∀ ip, js.range6 ip = .ipv4Mapped ↔ ip.isMapped = true
  translated : ∀ ip, js.range6 ip = .rfc6145 ↔ ip.isTranslated = true
  nat64 : ∀ ip, js.range6 ip = .rfc6052 ↔ ip.isNat64 = true
  sixToFour : ∀ ip, js.range6 ip = .sixToFour ↔ ip.isSixToFour = true
  teredo : ∀ ip, js.range6 ip = .teredo ↔ ip.isTeredo = true
  toString4 : ∀ ip, js.toString (.ipv4 ip) = "100.100.100.200" ↔ ip = ⟨100, 100, 100, 200⟩
  toString4_ne : ∀ ip, js.toString (.ipv4 ip) ≠ "fd00:ec2::254"
  toString6 : ∀ ip, js.toString (.ipv6 ip) = "fd00:ec2::254" ↔
    ip = ⟨0xfd00, 0xec2, 0, 0, 0, 0, 0, 0x254, none⟩
  toString6_ne : ∀ ip, js.toString (.ipv6 ip) ≠ "100.100.100.200"

section Ipaddr

variable (js : Ipaddr)

def BLOCKED_IPV4_SPECIAL_USE_RANGES : List Ipv4Range :=
  [.unspecified, .broadcast, .multicast, .linkLocal, .loopback, .carrierGradeNat, .privateUse,
    .reserved]

def BLOCKED_IPV6_SPECIAL_USE_RANGES : List Ipv6Range :=
  [.unspecified, .loopback, .linkLocal, .uniqueLocal, .multicast, .reserved, .benchmarking,
    .discard, .orchid2]

def CLOUD_METADATA_IP_ADDRESSES : List String := ["100.100.100.200", "fd00:ec2::254"]

/-- `198.18.0.0/15` -/
def IPv4.isRfc2544Benchmark (ip : IPv4) : Bool := ip.a = 198 && ip.b >>> 1 = 9

def stripIpv6Brackets (value : String) : String :=
  if value.toList.head? = some '[' ∧ value.toList.getLast? = some ']' then
    String.ofList value.toList.tail.dropLast
  else value

def normalizeIpParseInput (raw : String) : Option String :=
  if JsString.trim raw = "" then none else some (stripIpv6Brackets (JsString.trim raw))

def parseCanonicalIpAddress (raw : String) : Option ParsedIpAddress :=
  (normalizeIpParseInput raw).bind fun normalized =>
    if normalized = "" then none
    else if js.isValidFourPartDecimal normalized || js.isValidIPv6 normalized then
      some (js.parse normalized)
    else none

def parseLooseIpAddress (raw : String) : Option ParsedIpAddress :=
  (normalizeIpParseInput raw).bind fun normalized =>
    if normalized = "" then none
    else if js.isValid normalized then some (js.parse normalized)
    else none

def isCanonicalDottedDecimalIPv4 (raw : String) : Bool :=
  (normalizeIpParseInput raw).any js.isValidFourPartDecimal

/-- The parts of a string between dots. -/
def splitDots (s : String) : List (List Char) := s.toList.splitOn '.'

def isDecimalPart (part : List Char) : Bool := part ≠ [] && part.all Char.isDigit

/-- `/^0x/i` -/
def startsHexPart : List Char → Bool
  | '0' :: x :: _ => x = 'x' || x = 'X'
  | _ => false

def isHexDigit (c : Char) : Bool :=
  c.isDigit || ('a' ≤ c && c ≤ 'f') || ('A' ≤ c && c ≤ 'F')

def isNumericIpv4LiteralPart (part : List Char) : Bool :=
  isDecimalPart part || (startsHexPart part && part.drop 2 ≠ [] && (part.drop 2).all isHexDigit)

def isLegacyIpv4Literal (raw : String) : Bool :=
  match normalizeIpParseInput raw with
  | none => false
  | some normalized =>
    if normalized = "" || normalized.toList.contains ':' then false
    else if isCanonicalDottedDecimalIPv4 js normalized then false
    else if 4 < (splitDots normalized).length then false
    else if (splitDots normalized).any (· = []) then false
    else (splitDots normalized).all isNumericIpv4LiteralPart

/-- `address.isIPv4MappedAddress` and `address.toIPv4Address`. -/
def normalizeIpv4MappedAddress : ParsedIpAddress → ParsedIpAddress
  | .ipv4 ip => .ipv4 ip
  | .ipv6 ip => if js.range6 ip = .ipv4Mapped then .ipv4 ip.lastIpv4 else .ipv6 ip

def extractEmbeddedIpv4FromIpv6 (ip : IPv6) : Option IPv4 :=
  match js.range6 ip with
  | .ipv4Mapped => some ip.lastIpv4
  | .rfc6145 => some ip.lastIpv4
  | .rfc6052 => some ip.lastIpv4
  | .sixToFour => some (decodeIpv4FromHextets ip.p1 ip.p2)
  | .teredo => some (decodeIpv4FromHextets (ip.p6 ^^^ 0xffff) (ip.p7 ^^^ 0xffff))
  | _ => if ip.isCompatible || ip.isIsatap then some ip.lastIpv4 else none

/-- `normalized.range() === "loopback"` -/
def isLoopbackIpAddress (raw : String) : Bool :=
  (parseCanonicalIpAddress js raw).any fun parsed =>
    match normalizeIpv4MappedAddress js parsed with
    | .ipv4 ip => js.range4 ip = .loopback
    | .ipv6 ip => js.range6 ip = .loopback

def isLinkLocalIpAddress (raw : String) : Bool :=
  (parseLooseIpAddress js raw).any fun parsed =>
    match normalizeIpv4MappedAddress js parsed with
    | .ipv4 ip => js.range4 ip = .linkLocal
    | .ipv6 ip =>
      (extractEmbeddedIpv4FromIpv6 js ip).any (js.range4 · = .linkLocal) ||
        js.range6 ip = .linkLocal

def isCloudMetadataIpAddress (raw : String) : Bool :=
  (parseLooseIpAddress js raw).any fun parsed =>
    let normalized := normalizeIpv4MappedAddress js parsed
    let embedded := match normalized with
      | .ipv4 _ => none
      | .ipv6 ip => extractEmbeddedIpv4FromIpv6 js ip
    embedded.any (fun ip => CLOUD_METADATA_IP_ADDRESSES.contains (js.toString (.ipv4 ip))) ||
      CLOUD_METADATA_IP_ADDRESSES.contains (js.toString normalized)

def isBlockedSpecialUseIpv4Address (allowRfc2544BenchmarkRange : Bool) (ip : IPv4) : Bool :=
  if ip.isRfc2544Benchmark && allowRfc2544BenchmarkRange then false
  else BLOCKED_IPV4_SPECIAL_USE_RANGES.contains (js.range4 ip) || ip.isRfc2544Benchmark

def isBlockedSpecialUseIpv6Address (allowUniqueLocalRange : Bool) (ip : IPv6) : Bool :=
  if js.range6 ip = .uniqueLocal && allowUniqueLocalRange then false
  else
    BLOCKED_IPV6_SPECIAL_USE_RANGES.contains (js.range6 ip) || ip.p0 &&& 0xffc0#16 = 0xfec0#16

end Ipaddr

end Flashclaw.Net
