import Flashclaw.Lib.Lists
import Flashclaw.Net.Ip
import Mathlib.Data.Set.Basic
import Mathlib.Tactic.Ring

/-!
# Network policy: addresses in blocks

`isIpInCidr`. Both sides are brought to IPv4 where they are IPv4 addresses
mapped to IPv6; the length of the prefix stays the one that was written.
-/

namespace Flashclaw.Net

/-- What `isIpInCidr` uses of `ipaddr.js` besides. `parseCIDR` is `none` where it throws. -/
structure IpaddrCidr extends Ipaddr where
  parseCIDR : String → Option (ParsedIpAddress × ℕ)
  match4 : IPv4 → IPv4 × ℕ → Bool
  match6 : IPv6 → IPv6 × ℕ → Bool

inductive Kind where
  | ipv4
  | ipv6
deriving DecidableEq

def ParsedIpAddress.kind : ParsedIpAddress → Kind
  | .ipv4 _ => .ipv4
  | .ipv6 _ => .ipv6

/-- The addresses of a block are asked for an address of their own family only. -/
def matchComparable (js : IpaddrCidr) : ParsedIpAddress → ParsedIpAddress → ℕ → Bool
  | .ipv4 comparableIp, .ipv4 comparableBase, prefixLength =>
    js.match4 comparableIp (comparableBase, prefixLength)
  | .ipv6 comparableIp, .ipv6 comparableBase, prefixLength =>
    js.match6 comparableIp (comparableBase, prefixLength)
  | _, _, _ => false

def isIpInCidr (js : IpaddrCidr) (ip cidr : String) : Bool :=
  match parseCanonicalIpAddress js.toIpaddr ip with
  | none => false
  | some normalizedIp =>
    let candidate := JsString.trim cidr
    if candidate = "" then false
    else
      let comparableIp := normalizeIpv4MappedAddress js.toIpaddr normalizedIp
      if candidate.toList.contains '/' then
        match js.parseCIDR candidate with
        | none => false
        | some (baseAddress, prefixLength) =>
          matchComparable js comparableIp (normalizeIpv4MappedAddress js.toIpaddr baseAddress)
            prefixLength
      else
        match parseCanonicalIpAddress js.toIpaddr candidate with
        | none => false
        | some exact =>
          let comparableExact := normalizeIpv4MappedAddress js.toIpaddr exact
          comparableIp.kind = comparableExact.kind &&
            js.toString comparableIp = js.toString comparableExact

/-- Two numbers of `w` bits share their first `n` bits. -/
def SamePrefix (w n x y : ℕ) : Prop := x / 2 ^ (w - n) = y / 2 ^ (w - n)

instance (w n x y : ℕ) : Decidable (SamePrefix w n x y) := inferInstanceAs (Decidable (_ = _))

def IPv4.toNat (ip : IPv4) : ℕ :=
  ((ip.a.toNat * 0x100 + ip.b.toNat) * 0x100 + ip.c.toNat) * 0x100 + ip.d.toNat

def IPv6.toNat (ip : IPv6) : ℕ :=
  ((((((ip.p0.toNat * 0x10000 + ip.p1.toNat) * 0x10000 + ip.p2.toNat) * 0x10000 + ip.p3.toNat) *
    0x10000 + ip.p4.toNat) * 0x10000 + ip.p5.toNat) * 0x10000 + ip.p6.toNat) * 0x10000 +
    ip.p7.toNat

/-- `::ffff:a.b.c.d` -/
def IPv4.mapped (ip : IPv4) : IPv6 where
  p0 := 0
  p1 := 0
  p2 := 0
  p3 := 0
  p4 := 0
  p5 := 0xffff
  p6 := BitVec.ofNat 16 (ip.a.toNat * 0x100 + ip.b.toNat)
  p7 := BitVec.ofNat 16 (ip.c.toNat * 0x100 + ip.d.toNat)
  zoneId := none

section Numbers

theorem SamePrefix.refl (w n x : ℕ) : SamePrefix w n x x := rfl

theorem SamePrefix.mono {w m n x y : ℕ} (hmn : m ≤ n) (h : SamePrefix w n x y) :
    SamePrefix w m x y := by
  unfold SamePrefix at h ⊢
  have hsplit : 2 ^ (w - m) = 2 ^ (w - n) * 2 ^ (w - m - (w - n)) := by
    rw [← pow_add]
    congr 1
    omega
  rw [hsplit, ← Nat.div_div_eq_div_mul, ← Nat.div_div_eq_div_mul, h]

/-- All bits and more are all bits. -/
theorem samePrefix_of_le {w n x y : ℕ} (h : w ≤ n) : SamePrefix w n x y ↔ x = y := by
  unfold SamePrefix
  rw [Nat.sub_eq_zero_of_le h, pow_zero, Nat.div_one, Nat.div_one]

/-- A common start of `c` bits adds nothing to what is compared. -/
theorem samePrefix_add {w c k m x y : ℕ} (hk : k ≤ w) :
    SamePrefix (c + w) (c + k) (m * 2 ^ w + x) (m * 2 ^ w + y) ↔ SamePrefix w k x y := by
  unfold SamePrefix
  have hpow : m * 2 ^ w = m * 2 ^ k * 2 ^ (w - k) := by
    rw [mul_assoc, ← pow_add]
    congr 2
    omega
  have hshift : c + w - (c + k) = w - k := by omega
  have hpos : 0 < 2 ^ (w - k) := Nat.two_pow_pos _
  rw [hshift, hpow, Nat.add_comm, Nat.add_mul_div_right _ _ hpos, Nat.add_comm (m * 2 ^ k * _) y,
    Nat.add_mul_div_right _ _ hpos]
  omega

theorem IPv4.toNat_lt (ip : IPv4) : ip.toNat < 2 ^ 32 := by
  have := ip.a.isLt
  have := ip.b.isLt
  have := ip.c.isLt
  have := ip.d.isLt
  unfold IPv4.toNat
  omega

theorem IPv4.toNat_injective {x y : IPv4} (h : x.toNat = y.toNat) : x = y := by
  obtain ⟨a, b, c, d⟩ := x
  obtain ⟨a', b', c', d'⟩ := y
  have := a.isLt
  have := b.isLt
  have := c.isLt
  have := d.isLt
  have := a'.isLt
  have := b'.isLt
  have := c'.isLt
  have := d'.isLt
  simp only [IPv4.toNat] at h
  rw [IPv4.mk.injEq]
  refine ⟨?_, ?_, ?_, ?_⟩
  all_goals
    apply BitVec.eq_of_toNat_eq
    omega

theorem IPv4.toNat_inj {x y : IPv4} : x.toNat = y.toNat ↔ x = y :=
  ⟨IPv4.toNat_injective, congrArg IPv4.toNat⟩

theorem toNat_decodeIpv4FromHextets (high low : BitVec 16) :
    (decodeIpv4FromHextets high low).toNat = high.toNat * 0x10000 + low.toNat := by
  have := high.isLt
  have := low.isLt
  simp only [decodeIpv4FromHextets, IPv4.toNat, BitVec.toNat_setWidth, BitVec.toNat_ushiftRight,
    Nat.shiftRight_eq_div_pow]
  omega

/-- A mapped address is the address with the mark of mapped addresses before it. -/
theorem IPv6.toNat_of_isMapped {ip : IPv6} (h : ip.isMapped = true) :
    ip.toNat = 0xffff * 2 ^ 32 + ip.lastIpv4.toNat := by
  simp only [IPv6.isMapped, Bool.and_eq_true, decide_eq_true_eq] at h
  obtain ⟨⟨⟨⟨⟨h0, h1⟩, h2⟩, h3⟩, h4⟩, h5⟩ := h
  rw [IPv6.lastIpv4, toNat_decodeIpv4FromHextets, IPv6.toNat, h0, h1, h2, h3, h4, h5]
  simp only [BitVec.ofNat_eq_ofNat, BitVec.toNat_ofNat]
  omega

theorem IPv4.isMapped_mapped (ip : IPv4) : ip.mapped.isMapped = true := by
  simp [IPv6.isMapped, IPv4.mapped]

theorem IPv4.lastIpv4_mapped (ip : IPv4) : ip.mapped.lastIpv4 = ip := by
  apply IPv4.toNat_injective
  rw [IPv6.lastIpv4, toNat_decodeIpv4FromHextets]
  have := ip.a.isLt
  have := ip.b.isLt
  have := ip.c.isLt
  have := ip.d.isLt
  simp only [IPv4.mapped, BitVec.toNat_ofNat, IPv4.toNat]
  omega

end Numbers

/-- An exact address, or a block: a base as it was written and the length of its prefix. -/
inductive Cidr where
  | exact (address : ParsedIpAddress)
  | block (base : ParsedIpAddress) (prefixLength : ℕ)

/-- The addresses of the family that a range is written in. -/
def Cidr.denotes : Cidr → Set ParsedIpAddress
  | .exact address => {x | x = address}
  | .block (.ipv4 base) n => {x | ∃ ip, x = .ipv4 ip ∧ SamePrefix 32 n ip.toNat base.toNat}
  | .block (.ipv6 base) n => {x | ∃ ip, x = .ipv6 ip ∧ SamePrefix 128 n ip.toNat base.toNat}

/-- What a text denotes, as `ipaddr.js` reads it. -/
def readCidr (js : IpaddrCidr) (cidr : String) : Option Cidr :=
  let candidate := JsString.trim cidr
  if candidate = "" then none
  else if candidate.toList.contains '/' then
    (js.parseCIDR candidate).map fun parsed => .block parsed.1 parsed.2
  else (parseCanonicalIpAddress js.toIpaddr candidate).map .exact

/-- An address is in a range when it is the same as one of its addresses, where an IPv4 address
and the IPv6 address it is mapped to are the same. -/
def Cidr.Contains (js : IpaddrCidr) (range : Cidr) (ip : ParsedIpAddress) : Prop :=
  ∃ x ∈ range.denotes,
    normalizeIpv4MappedAddress js.toIpaddr x = normalizeIpv4MappedAddress js.toIpaddr ip

/-- What `ipaddr.js` does with the addresses and blocks that `isIpInCidr` compares. -/
structure IpaddrCidr.Lawful (js : IpaddrCidr) : Prop where
  parse4 : ∀ s, js.isValidFourPartDecimal s = true → ∃ ip, js.parse s = .ipv4 ip
  mapped : ∀ ip, js.range6 ip = .ipv4Mapped ↔ ip.isMapped = true
  toString4 : ∀ a b, js.toString (.ipv4 a) = js.toString (.ipv4 b) → a = b
  toString6 : ∀ s t a b, js.isValidIPv6 s = true → js.isValidIPv6 t = true →
    js.parse s = .ipv6 a → js.parse t = .ipv6 b →
    js.toString (.ipv6 a) = js.toString (.ipv6 b) → a = b
  match4 : ∀ ip base n, js.match4 ip (base, n) = true ↔ SamePrefix 32 n ip.toNat base.toNat
  match6 : ∀ ip base n, js.match6 ip (base, n) = true ↔ SamePrefix 128 n ip.toNat base.toNat

/-- Where `isIpInCidr` decides as a block that was written for IPv6 says, by what its base and the
address are compared as. -/
def BlockHolds (base : IPv6) (n : ℕ) : ParsedIpAddress → ParsedIpAddress → Prop
  | .ipv6 _, .ipv6 _ => True
  | .ipv6 _, .ipv4 _ => ¬ SamePrefix 128 n (IPv4.mapped ⟨0, 0, 0, 0⟩).toNat base.toNat
  | .ipv4 _, .ipv6 address => ¬ SamePrefix 128 n address.toNat base.toNat
  | .ipv4 mapped, .ipv4 address =>
    if n ≤ 96 then SamePrefix 32 n address.toNat mapped.toNat
    else address = mapped ∨ ¬ SamePrefix 32 (n - 96) address.toNat mapped.toNat

/-- Where `isIpInCidr` decides as the range says. A prefix that was written for IPv6 is compared
with the bits of an IPv4 address, and the families of the two sides have to agree. -/
def Cidr.HoldsFor (js : IpaddrCidr) : Cidr → ParsedIpAddress → Prop
  | .exact _, _ => True
  | .block (.ipv4 _) _, _ => True
  | .block (.ipv6 base) n, ip =>
    BlockHolds base n (normalizeIpv4MappedAddress js.toIpaddr (.ipv6 base))
      (normalizeIpv4MappedAddress js.toIpaddr ip)

section Contains

variable {js : IpaddrCidr}

theorem normalize_mapped (hjs : js.Lawful) {ip : IPv6} (h : ip.isMapped = true) :
    normalizeIpv4MappedAddress js.toIpaddr (.ipv6 ip) = .ipv4 ip.lastIpv4 := by
  rw [normalizeIpv4MappedAddress, if_pos ((hjs.mapped ip).mpr h)]

theorem normalize_plain (hjs : js.Lawful) {ip : IPv6} (h : ¬ ip.isMapped = true) :
    normalizeIpv4MappedAddress js.toIpaddr (.ipv6 ip) = .ipv6 ip := by
  rw [normalizeIpv4MappedAddress, if_neg fun hrange => h ((hjs.mapped ip).mp hrange)]

theorem normalize_eq_ipv6 {x : ParsedIpAddress} {ip : IPv6}
    (h : normalizeIpv4MappedAddress js.toIpaddr x = .ipv6 ip) : x = .ipv6 ip := by
  cases x with
  | ipv4 v => cases h
  | ipv6 v =>
    rw [normalizeIpv4MappedAddress] at h
    split_ifs at h
    exact h

theorem isMapped_of_normalize (hjs : js.Lawful) {ip : IPv6} {v : IPv4}
    (h : normalizeIpv4MappedAddress js.toIpaddr (.ipv6 ip) = .ipv4 v) :
    ip.isMapped = true ∧ ip.lastIpv4 = v := by
  by_cases hmapped : ip.isMapped = true
  · rw [normalize_mapped hjs hmapped] at h
    exact ⟨hmapped, ParsedIpAddress.ipv4.inj h⟩
  · rw [normalize_plain hjs hmapped] at h
    cases h

theorem contains_exact {address ip : ParsedIpAddress} :
    (Cidr.exact address).Contains js ip ↔
      normalizeIpv4MappedAddress js.toIpaddr ip =
        normalizeIpv4MappedAddress js.toIpaddr address := by
  constructor
  · rintro ⟨x, rfl, h⟩
    exact h.symm
  · intro h
    exact ⟨address, rfl, h.symm⟩

theorem contains_block4 {base : IPv4} {n : ℕ} {ip : ParsedIpAddress} :
    (Cidr.block (.ipv4 base) n).Contains js ip ↔
      ∃ v, normalizeIpv4MappedAddress js.toIpaddr ip = .ipv4 v ∧
        SamePrefix 32 n v.toNat base.toNat := by
  constructor
  · rintro ⟨x, ⟨v, rfl, hprefix⟩, h⟩
    exact ⟨v, h.symm, hprefix⟩
  · rintro ⟨v, h, hprefix⟩
    exact ⟨.ipv4 v, ⟨v, rfl, hprefix⟩, h.symm⟩

theorem contains_block6_of_ipv6 {base address : IPv6} {n : ℕ} {ip : ParsedIpAddress}
    (h : normalizeIpv4MappedAddress js.toIpaddr ip = .ipv6 address) :
    (Cidr.block (.ipv6 base) n).Contains js ip ↔ SamePrefix 128 n address.toNat base.toNat := by
  constructor
  · rintro ⟨x, ⟨v, rfl, hprefix⟩, hx⟩
    obtain rfl := ParsedIpAddress.ipv6.inj (normalize_eq_ipv6 (hx.trans h))
    exact hprefix
  · intro hprefix
    exact ⟨.ipv6 address, ⟨address, rfl, hprefix⟩, by rw [← normalize_eq_ipv6 h]⟩

theorem contains_block6_of_ipv4 (hjs : js.Lawful) {base : IPv6} {v : IPv4} {n : ℕ}
    {ip : ParsedIpAddress} (h : normalizeIpv4MappedAddress js.toIpaddr ip = .ipv4 v) :
    (Cidr.block (.ipv6 base) n).Contains js ip ↔
      SamePrefix 128 n (0xffff * 2 ^ 32 + v.toNat) base.toNat := by
  constructor
  · rintro ⟨x, ⟨w, rfl, hprefix⟩, hx⟩
    obtain ⟨hmapped, rfl⟩ := isMapped_of_normalize hjs (hx.trans h)
    rw [← IPv6.toNat_of_isMapped hmapped]
    exact hprefix
  · intro hprefix
    have hmapped := IPv4.isMapped_mapped v
    refine ⟨.ipv6 v.mapped, ⟨v.mapped, rfl, ?_⟩, ?_⟩
    · rw [IPv6.toNat_of_isMapped hmapped, IPv4.lastIpv4_mapped]
      exact hprefix
    · rw [normalize_mapped hjs hmapped, IPv4.lastIpv4_mapped, h]

end Contains

section InCidr

variable {js : IpaddrCidr} {ip cidr : String} {address : ParsedIpAddress}

theorem exists_parse_of_canonical (hjs : js.Lawful) {a : IPv6}
    (h : parseCanonicalIpAddress js.toIpaddr ip = some (.ipv6 a)) :
    ∃ s, js.isValidIPv6 s = true ∧ js.parse s = .ipv6 a := by
  obtain ⟨s, -, hs⟩ := Option.bind_eq_some_iff.mp h
  split_ifs at hs with hempty hvalid
  have hparse : js.parse s = .ipv6 a := Option.some.inj hs
  rcases Bool.or_eq_true_iff.mp hvalid with h4 | h6
  · obtain ⟨v, hv⟩ := hjs.parse4 s h4
    rw [hparse] at hv
    cases hv
  · exact ⟨s, h6, hparse⟩

/-- Addresses that are compared as texts are compared. -/
theorem exact_iff (hjs : js.Lawful) {text : String} {other : ParsedIpAddress}
    (hip : parseCanonicalIpAddress js.toIpaddr ip = some address)
    (hother : parseCanonicalIpAddress js.toIpaddr text = some other) :
    ((normalizeIpv4MappedAddress js.toIpaddr address).kind =
        (normalizeIpv4MappedAddress js.toIpaddr other).kind ∧
      js.toString (normalizeIpv4MappedAddress js.toIpaddr address) =
        js.toString (normalizeIpv4MappedAddress js.toIpaddr other)) ↔
      normalizeIpv4MappedAddress js.toIpaddr address =
        normalizeIpv4MappedAddress js.toIpaddr other := by
  constructor
  · rintro ⟨hkind, htext⟩
    cases hx : normalizeIpv4MappedAddress js.toIpaddr address with
    | ipv4 a =>
      cases hy : normalizeIpv4MappedAddress js.toIpaddr other with
      | ipv4 b =>
        rw [hx, hy] at htext
        rw [hjs.toString4 a b htext]
      | ipv6 b =>
        rw [hx, hy] at hkind
        cases hkind
    | ipv6 a =>
      cases hy : normalizeIpv4MappedAddress js.toIpaddr other with
      | ipv4 b =>
        rw [hx, hy] at hkind
        cases hkind
      | ipv6 b =>
        rw [hx, hy] at htext
        rw [normalize_eq_ipv6 hx] at hip
        rw [normalize_eq_ipv6 hy] at hother
        obtain ⟨s, hs, hparse⟩ := exists_parse_of_canonical hjs hip
        obtain ⟨t, ht, hparse'⟩ := exists_parse_of_canonical hjs hother
        rw [hjs.toString6 s t a b hs ht hparse hparse' htext]
  · intro h
    rw [h]
    exact ⟨rfl, rfl⟩

/-- The first bits of two mapped addresses. -/
theorem samePrefix_mapped {n v base : ℕ} (hv : v < 2 ^ 32) (hbase : base < 2 ^ 32) :
    SamePrefix 128 n (0xffff * 2 ^ 32 + v) (0xffff * 2 ^ 32 + base) ↔
      n ≤ 96 ∨ SamePrefix 32 (n - 96) v base := by
  rcases le_or_gt n 96 with hn | hn
  · have hmark : SamePrefix 128 96 (0xffff * 2 ^ 32 + v) (0xffff * 2 ^ 32 + base) := by
      unfold SamePrefix
      omega
    exact iff_of_true (hmark.mono hn) (.inl hn)
  · obtain ⟨k, rfl⟩ := Nat.exists_eq_add_of_le hn.le
    rw [Nat.add_sub_cancel_left, or_iff_right (not_le.mpr hn)]
    rcases le_or_gt k 32 with hk | hk
    · exact samePrefix_add hk
    · rw [samePrefix_of_le (by omega), samePrefix_of_le hk.le]
      omega

/-- A mapped block with a prefix of `n` bits, asked for an IPv4 address. -/
theorem mapped_iff {n v base : ℕ} (hv : v < 2 ^ 32) (hbase : base < 2 ^ 32) :
    ((SamePrefix 32 n v base ↔
      SamePrefix 128 n (0xffff * 2 ^ 32 + v) (0xffff * 2 ^ 32 + base)) ↔
      if n ≤ 96 then SamePrefix 32 n v base else v = base ∨ ¬ SamePrefix 32 (n - 96) v base) := by
  rw [samePrefix_mapped hv hbase]
  split_ifs with hn
  · simp [hn]
  · rw [or_iff_right hn, samePrefix_of_le (by omega : 32 ≤ n)]
    have hrefl : v = base → SamePrefix 32 (n - 96) v base := by
      rintro rfl
      exact .refl 32 (n - 96) v
    tauto

/-- Of the IPv4 addresses a block that is not mapped contains all or none. -/
theorem plain_iff {base : IPv6} (h : ¬ base.isMapped = true) {n v : ℕ} (hv : v < 2 ^ 32) :
    SamePrefix 128 n (0xffff * 2 ^ 32 + v) base.toNat ↔
      SamePrefix 128 n (IPv4.mapped ⟨0, 0, 0, 0⟩).toNat base.toNat := by
  have hzero : (IPv4.mapped ⟨0, 0, 0, 0⟩).toNat = 0xffff * 2 ^ 32 + 0 := by decide
  rw [hzero]
  rcases le_or_gt n 96 with hn | hn
  · have hshared := (samePrefix_mapped (n := n) hv (by omega : 0 < 2 ^ 32)).mpr (.inl hn)
    unfold SamePrefix at hshared ⊢
    rw [hshared]
  · have hnone : ∀ w, w < 2 ^ 32 → ¬ SamePrefix 128 n (0xffff * 2 ^ 32 + w) base.toNat := by
      intro w hw hprefix
      apply h
      have hmark := hprefix.mono hn.le
      unfold SamePrefix IPv6.toNat at hmark
      have := base.p0.isLt
      have := base.p1.isLt
      have := base.p2.isLt
      have := base.p3.isLt
      have := base.p4.isLt
      have := base.p5.isLt
      have := base.p6.isLt
      have := base.p7.isLt
      have hparts : base.p0.toNat = 0 ∧ base.p1.toNat = 0 ∧ base.p2.toNat = 0 ∧
          base.p3.toNat = 0 ∧ base.p4.toNat = 0 ∧ base.p5.toNat = 0xffff := by omega
      obtain ⟨h0, h1, h2, h3, h4, h5⟩ := hparts
      simp only [IPv6.isMapped, Bool.and_eq_true, decide_eq_true_eq]
      refine ⟨⟨⟨⟨⟨?_, ?_⟩, ?_⟩, ?_⟩, ?_⟩, ?_⟩ <;> exact BitVec.eq_of_toNat_eq ‹_›
    exact iff_of_false (hnone v hv) (hnone 0 (by omega))

theorem block_iff (hjs : js.Lawful) (base : ParsedIpAddress) (n : ℕ) (address : ParsedIpAddress) :
    (matchComparable js (normalizeIpv4MappedAddress js.toIpaddr address)
        (normalizeIpv4MappedAddress js.toIpaddr base) n = true ↔
      (Cidr.block base n).Contains js address) ↔ (Cidr.block base n).HoldsFor js address := by
  cases base with
  | ipv4 base =>
    rw [contains_block4]
    refine iff_of_true ?_ trivial
    cases normalizeIpv4MappedAddress js.toIpaddr address with
    | ipv4 v => simp [matchComparable, normalizeIpv4MappedAddress, hjs.match4]
    | ipv6 v => simp [matchComparable, normalizeIpv4MappedAddress]
  | ipv6 base =>
    show _ ↔ BlockHolds base n (normalizeIpv4MappedAddress js.toIpaddr (.ipv6 base))
      (normalizeIpv4MappedAddress js.toIpaddr address)
    by_cases hmapped : base.isMapped = true
    · rw [normalize_mapped hjs hmapped]
      cases haddress : normalizeIpv4MappedAddress js.toIpaddr address with
      | ipv4 v =>
        rw [contains_block6_of_ipv4 hjs haddress, IPv6.toNat_of_isMapped hmapped, matchComparable,
          hjs.match4, mapped_iff v.toNat_lt base.lastIpv4.toNat_lt, BlockHolds,
          IPv4.toNat_inj]
      | ipv6 v =>
        rw [contains_block6_of_ipv6 haddress]
        simp [matchComparable, BlockHolds]
    · rw [normalize_plain hjs hmapped]
      cases haddress : normalizeIpv4MappedAddress js.toIpaddr address with
      | ipv4 v =>
        rw [contains_block6_of_ipv4 hjs haddress, plain_iff hmapped v.toNat_lt]
        simp [matchComparable, BlockHolds]
      | ipv6 v =>
        rw [contains_block6_of_ipv6 haddress]
        simp [matchComparable, BlockHolds, hjs.match6]

/-- `isIpInCidr` decides whether an address is in a range, but for prefixes that were written for
another family. -/
theorem isIpInCidr_iff_contains (hjs : js.Lawful) {range : Cidr}
    (hip : parseCanonicalIpAddress js.toIpaddr ip = some address)
    (hcidr : readCidr js cidr = some range) :
    (isIpInCidr js ip cidr = true ↔ range.Contains js address) ↔ range.HoldsFor js address := by
  unfold readCidr at hcidr
  simp only at hcidr
  unfold isIpInCidr
  rw [hip]
  simp only
  split_ifs at hcidr with hempty hblock
  · rw [if_neg hempty, if_pos hblock]
    obtain ⟨⟨base, n⟩, hparse, rfl⟩ := Option.map_eq_some_iff.mp hcidr
    rw [hparse]
    exact block_iff hjs base n address
  · rw [if_neg hempty, if_neg hblock]
    obtain ⟨other, hother, rfl⟩ := Option.map_eq_some_iff.mp hcidr
    rw [hother, contains_exact]
    simp only [Bool.and_eq_true, decide_eq_true_eq]
    exact iff_of_true (exact_iff hjs hip hother) trivial

end InCidr

/-- The decimal digits of an octet. -/
def octetText (octet : BitVec 8) : List Char := Nat.toDigits 10 octet.toNat

def dottedText (ip : IPv4) : List Char :=
  octetText ip.a ++ '.' :: (octetText ip.b ++ '.' :: (octetText ip.c ++ '.' :: octetText ip.d))

/-- The number that decimal digits write. -/
def readDecimal (digits : List Char) : ℕ := digits.foldl (fun n c => 10 * n + (c.toNat - 48)) 0

theorem octetText_spec (octet : BitVec 8) :
    readDecimal (octetText octet) = octet.toNat ∧ '.' ∉ octetText octet := by
  have h : ∀ n : Fin 256, readDecimal (Nat.toDigits 10 n.val) = n.val ∧
      '.' ∉ Nat.toDigits 10 n.val := by decide +kernel
  exact h ⟨octet.toNat, octet.isLt⟩

theorem octetText_injective {x y : BitVec 8} (h : octetText x = octetText y) : x = y := by
  apply BitVec.eq_of_toNat_eq
  rw [← (octetText_spec x).1, h, (octetText_spec y).1]

theorem dottedText_injective {x y : IPv4} (h : dottedText x = dottedText y) : x = y := by
  have hdot := fun octet => (octetText_spec octet).2
  obtain ⟨ha, h⟩ := Lists.append_cons_inj_first (hdot x.a) (hdot y.a) h
  obtain ⟨hb, h⟩ := Lists.append_cons_inj_first (hdot x.b) (hdot y.b) h
  obtain ⟨hc, hd⟩ := Lists.append_cons_inj_first (hdot x.c) (hdot y.c) h
  obtain ⟨a, b, c, d⟩ := x
  obtain ⟨a', b', c', d'⟩ := y
  rw [IPv4.mk.injEq]
  exact ⟨octetText_injective ha, octetText_injective hb, octetText_injective hc,
    octetText_injective hd⟩

/-- `::ffff:10.0.0.0` -/
def sampleBase : IPv6 := IPv4.mapped ⟨10, 0, 0, 0⟩

/-- For the texts below, `ipaddr.js` answers as this does. -/
def sampleIpaddrCidr : IpaddrCidr where
  isValidFourPartDecimal s := s = "10.0.0.5"
  isValidIPv6 _ := false
  isValid s := s = "10.0.0.5"
  parse _ := .ipv4 ⟨10, 0, 0, 5⟩
  toString
    | .ipv4 ip => String.ofList (dottedText ip)
    | .ipv6 _ => ""
  range4 ip := if ip.a = 10 then .privateUse else .unicast
  range6 ip := if ip.isMapped then .ipv4Mapped else .unicast
  toLowerCase s := String.ofList (s.toList.map Char.toLower)
  parseCIDR s := if s = "::ffff:10.0.0.0/104" then some (.ipv6 sampleBase, 104) else none
  match4 ip base := SamePrefix 32 base.2 ip.toNat base.1.toNat
  match6 ip base := SamePrefix 128 base.2 ip.toNat base.1.toNat

theorem sampleIpaddrCidr_lawful : sampleIpaddrCidr.Lawful where
  parse4 _ _ := ⟨_, rfl⟩
  mapped ip := by
    show (if ip.isMapped = true then Ipv6Range.ipv4Mapped else .unicast) = .ipv4Mapped ↔ _
    split_ifs with h <;> simp [h]
  toString4 a b h := dottedText_injective (String.ofList_injective h)
  toString6 s _ _ _ h := by cases h
  match4 ip base n := by simp [sampleIpaddrCidr]
  match6 ip base n := by simp [sampleIpaddrCidr]

theorem isIpInCidr_iff_contains_sample :
    sampleIpaddrCidr.Lawful ∧
    parseCanonicalIpAddress sampleIpaddrCidr.toIpaddr "10.0.0.5" = some (.ipv4 ⟨10, 0, 0, 5⟩) ∧
    readCidr sampleIpaddrCidr "::ffff:10.0.0.0/104" = some (.block (.ipv6 sampleBase) 104) ∧
    ((isIpInCidr sampleIpaddrCidr "10.0.0.5" "::ffff:10.0.0.0/104" = true ↔
      (Cidr.block (.ipv6 sampleBase) 104).Contains sampleIpaddrCidr (.ipv4 ⟨10, 0, 0, 5⟩)) ↔
      (Cidr.block (.ipv6 sampleBase) 104).HoldsFor sampleIpaddrCidr (.ipv4 ⟨10, 0, 0, 5⟩)) := by
  have hip : parseCanonicalIpAddress sampleIpaddrCidr.toIpaddr "10.0.0.5" =
      some (.ipv4 ⟨10, 0, 0, 5⟩) := by decide
  have hcidr : readCidr sampleIpaddrCidr "::ffff:10.0.0.0/104" =
      some (.block (.ipv6 sampleBase) 104) := by rfl
  exact ⟨sampleIpaddrCidr_lawful, hip, hcidr,
    isIpInCidr_iff_contains sampleIpaddrCidr_lawful hip hcidr⟩

/-- `10.0.0.5` lies in `::ffff:10.0.0.0/104`, which is `10.0.0.0/8`. -/
theorem mapped_block_refuses :
    ¬ ∀ (js : IpaddrCidr) (ip cidr : String) (address : ParsedIpAddress) (range : Cidr),
      js.Lawful → parseCanonicalIpAddress js.toIpaddr ip = some address →
      readCidr js cidr = some range →
      (isIpInCidr js ip cidr = true ↔ range.Contains js address) := by
  intro h
  have hcidr : readCidr sampleIpaddrCidr "::ffff:10.0.0.0/104" =
      some (.block (.ipv6 sampleBase) 104) := by rfl
  have hsample := h sampleIpaddrCidr "10.0.0.5" "::ffff:10.0.0.0/104" (.ipv4 ⟨10, 0, 0, 5⟩) _
    sampleIpaddrCidr_lawful (by decide) hcidr
  have hcontains : (Cidr.block (.ipv6 sampleBase) 104).Contains sampleIpaddrCidr
      (.ipv4 ⟨10, 0, 0, 5⟩) := by
    refine ⟨.ipv6 (IPv4.mapped ⟨10, 0, 0, 5⟩), ⟨_, rfl, by decide⟩, by decide⟩
  have hrefused : isIpInCidr sampleIpaddrCidr "10.0.0.5" "::ffff:10.0.0.0/104" = false := by
    decide
  rw [hrefused] at hsample
  exact absurd (hsample.mpr hcontains) (by decide)

end Flashclaw.Net
