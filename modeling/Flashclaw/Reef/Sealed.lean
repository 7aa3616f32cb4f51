import Mathlib.Data.List.TakeWhile
import Flashclaw.Reef.Chain
import Flashclaw.Reef.Replay

/-!
# Reef: sealed envelopes open

The limits of the sender leave room for those of the receiver: 32 KiB of
plaintext are 43712 characters of ciphertext, and the other fields need less
than 500.
-/

namespace Flashclaw.Reef

open Utf16 Json Results

section Texts

/-- A text that JSON writes as it is. -/
def IsLiteralText (s : Utf16) : Prop := ∀ c ∈ s, isLiteral c = true

instance (s : Utf16) : Decidable (IsLiteralText s) :=
  List.decidableBAll _ s

theorem isLiteral_of_inRange {first last : Char} {c : CodeUnit} (h : inRange first last c = true)
    (hfirst : 0x5D ≤ (unit first).val ∧ (unit last).val < 0x7F ∨
      0x23 ≤ (unit first).val ∧ (unit last).val < 0x5C) : isLiteral c = true := by
  simp only [inRange, Bool.and_eq_true, decide_eq_true_eq, Fin.le_def] at h
  simp only [isLiteral, Bool.and_eq_true, decide_eq_true_eq]
  omega

theorem isLiteral_of_isDigit {c : CodeUnit} (h : isDigit c = true) : isLiteral c = true :=
  isLiteral_of_inRange h (.inr (by decide))

theorem isLiteral_of_isCrockford {c : CodeUnit} (h : isCrockford c = true) :
    isLiteral c = true := by
  simp only [isCrockford, Bool.or_eq_true, decide_eq_true_eq] at h
  rcases h with ((((((h | h) | rfl) | rfl) | rfl) | rfl) | h) | h
  · exact isLiteral_of_isDigit h
  · exact isLiteral_of_inRange h (.inr (by decide))
  · decide
  · decide
  · decide
  · decide
  · exact isLiteral_of_inRange h (.inr (by decide))
  · exact isLiteral_of_inRange h (.inr (by decide))

theorem isLiteral_of_isHandleStart {c : CodeUnit} (h : isHandleStart c = true) :
    isLiteral c = true := by
  simp only [isHandleStart, Bool.or_eq_true] at h
  rcases h with (h | h) | h
  · exact isLiteral_of_inRange h (.inl (by decide))
  · exact isLiteral_of_inRange h (.inr (by decide))
  · exact isLiteral_of_isDigit h

theorem isLiteral_of_isHandlePart {c : CodeUnit} (h : isHandlePart c = true) :
    isLiteral c = true := by
  simp only [isHandlePart, Bool.or_eq_true, decide_eq_true_eq] at h
  rcases h with (h | rfl) | rfl
  · exact isLiteral_of_isHandleStart h
  · decide
  · decide

theorem isLiteralText_base64 (value : Bytes) : IsLiteralText (base64 value) := by
  have hdigits : ∀ n < 64, isLiteral (base64Digit n) = true := by decide +kernel
  have hdigit : ∀ n, isLiteral (base64Digit (n % 64)) = true := fun n =>
    hdigits _ (Nat.mod_lt n (by norm_num))
  have hpadding : isLiteral (unit '=') = true := by decide
  unfold IsLiteralText
  induction value using base64.induct with
  | case1 => simp [base64]
  | case2 a => simp [base64, hdigit, hpadding]
  | case3 a b => simp [base64, hdigit, hpadding]
  | case4 a b c value ih =>
    simp only [base64, List.forall_mem_cons]
    exact ⟨hdigit _, hdigit _, hdigit _, hdigit _, ih⟩

theorem isLiteralText_isUlid {id : Utf16} (h : isUlid id = true) :
    id.length = 26 ∧ IsLiteralText id := by
  simp only [isUlid, Bool.and_eq_true, decide_eq_true_eq, List.all_eq_true] at h
  exact ⟨h.1.1, fun c hc => isLiteral_of_isCrockford (h.2 c hc)⟩

theorem isLiteralText_isHandle {handle : Utf16} (h : isHandle handle = true) :
    handle.length ≤ 63 ∧ IsLiteralText handle := by
  simp only [isHandle, Bool.and_eq_true, decide_eq_true_eq, List.all_eq_true] at h
  obtain ⟨⟨⟨-, hstart⟩, hrest⟩, hlength⟩ := h
  refine ⟨hlength, fun c hc => ?_⟩
  rw [← List.take_append_drop 1 handle, List.mem_append] at hc
  rcases hc with hc | hc
  · exact isLiteral_of_isHandleStart (hstart c hc)
  · exact isLiteral_of_isHandlePart (hrest c hc)

/-- The digits of a safe integer are at most sixteen. -/
theorem length_isEpoch {epoch : Utf16} (h : isEpoch epoch = true)
    (hsafe : isSafeInteger (digitsNumber epoch) = true) :
    epoch.length ≤ 16 ∧ IsLiteralText epoch := by
  simp only [isEpoch, Bool.and_eq_true, decide_eq_true_eq, List.all_eq_true] at h
  obtain ⟨⟨hne, hstart⟩, hdigits⟩ := h
  refine ⟨?_, fun c hc => isLiteral_of_isDigit (hdigits c hc)⟩
  obtain ⟨c, rest, rfl⟩ := List.exists_cons_of_ne_nil hne
  have hc := hstart c (by simp)
  simp only [inRange, Bool.and_eq_true, Fin.le_def, decide_eq_true_eq] at hc
  have hone : (unit '1').val = 0x31 := rfl
  have hfirst : 1 ≤ c.val - 0x30 := by omega
  -- the first digit alone makes the number as large as its length tells
  have hlow : 10 ^ rest.length ≤ Digits.value ((c :: rest).map fun c => c.val - 0x30) := by
    rw [List.map_cons, ← List.singleton_append, Digits.value_append, List.length_map]
    calc 10 ^ rest.length ≤ (c.val - 0x30) * 10 ^ rest.length := Nat.le_mul_of_pos_left _ hfirst
      _ ≤ _ := by simp [Digits.value]
  have hhigh : Digits.value ((c :: rest).map fun c => c.val - 0x30) < 2 ^ 53 := by
    unfold digitsNumber at hsafe
    cases hnumber : Number.ofRat (Digits.value ((c :: rest).map fun c => c.val - 0x30)) with
    | finite d =>
      rw [hnumber] at hsafe
      simp only [isSafeInteger, Bool.and_eq_true, decide_eq_true_eq] at hsafe
      exact Number.lt_of_ofRat_eq_finite hnumber (abs_lt.mp hsafe.2).2
    | negZero =>
      unfold Number.ofRat at hnumber
      split_ifs at hnumber
    | nan =>
      rw [hnumber] at hsafe
      cases hsafe
    | infinity =>
      rw [hnumber] at hsafe
      cases hsafe
    | negInfinity =>
      rw [hnumber] at hsafe
      cases hsafe
  have hpow : 10 ^ rest.length < 10 ^ 16 := (hlow.trans_lt hhigh).trans (by norm_num)
  have := (Nat.pow_lt_pow_iff_right (by norm_num)).mp hpow
  rw [List.length_cons]
  omega

/-- A name with its key epoch has at most eighty characters. -/
theorem length_of_parseHandleEpoch {value : Utf16} {parsed : HandleEpoch}
    (h : parseHandleEpoch value = .ok parsed) : value.length ≤ 80 ∧ IsLiteralText value := by
  unfold parseHandleEpoch at h
  simp only at h
  split_ifs at h with hmatch hsafe
  obtain ⟨hhandle, hhash, hepoch⟩ := hmatch
  obtain ⟨hhandleLength, hhandleText⟩ := isLiteralText_isHandle hhandle
  obtain ⟨hepochLength, hepochText⟩ := length_isEpoch hepoch hsafe
  have hrest : value.dropWhile (· ≠ unit '#') ≠ [] := by
    rw [ne_eq, List.dropWhile_eq_nil_iff]
    intro hall
    simpa using hall _ hhash
  have hhead := List.head_dropWhile_not (fun c => decide (c ≠ unit '#')) hrest
  have hsplit : value = value.takeWhile (· ≠ unit '#') ++
      unit '#' :: (value.dropWhile (· ≠ unit '#')).tail := by
    conv_lhs => rw [← List.takeWhile_append_dropWhile (p := (· ≠ unit '#')) (l := value)]
    rw [← List.cons_head_tail hrest]
    simp only [decide_eq_false_iff_not, not_not] at hhead
    rw [hhead, List.tail_cons]
  constructor
  · rw [hsplit, List.length_append, List.length_cons]
    omega
  · rw [hsplit]
    intro c hc
    rcases List.mem_append.mp hc with hc | hc
    · exact hhandleText c hc
    · rcases List.mem_cons.mp hc with rfl | hc
      · decide
      · exact hepochText c hc

end Texts

section Sizes

/-- A member of a record as canonical JSON has it. -/
def memberText (f : Utf16 × JsValue) : Utf16 := renderMember (f.1, normalForm f.2)

/-- A text of ASCII. -/
def IsAscii (s : Utf16) : Prop := ∀ c ∈ s, c.val < 0x80

theorem isAscii_of_isLiteralText {s : Utf16} (h : IsLiteralText s) : IsAscii s := by
  intro c hc
  have := h c hc
  simp only [isLiteral, Bool.and_eq_true, decide_eq_true_eq] at this
  omega

/-- The canonical bytes of a record of ASCII are its members, its commas and its braces. -/
theorem length_canonicalBytes {fields : List (Utf16 × JsValue)} (hplain : IsPlain (.object fields))
    (hfields : fields ≠ [])
    (h : ∀ f ∈ fields, isDefined f.2 = true ∧ IsAscii (memberText f)) :
    ∃ bytes, canonicalBytes (.object fields) = .ok bytes ∧
      bytes.length = (fields.map fun f => (memberText f).length).sum + fields.length + 1 := by
  have hsorted : (sortedFields fields).Perm fields := by
    unfold sortedFields
    rw [List.filter_eq_self.mpr fun f hf => (h f hf).1]
    exact List.perm_insertionSort keyLe fields
  have htext : render (normalForm (.object fields)) = unit '\x7b' ::
      (Json.join (unit ',') ((sortedFields fields).map memberText) ++ [unit '\x7d']) := by
    have hdefined : ∀ f ∈ (sortedFields fields).map fun g => (g.1, normalForm g.2),
        isDefined f.2 = true := by
      intro f hf
      obtain ⟨g, hg, rfl⟩ := List.mem_map.mp hf
      rw [isDefined_normalForm]
      exact (h g (hsorted.mem_iff.mp hg)).1
    rw [normalForm, sorted_normalFields, render, renderFields_eq,
      List.filter_eq_self.mpr hdefined, List.map_map]
    rfl
  have hascii : IsAscii (render (normalForm (.object fields))) := by
    rw [htext]
    intro c hc
    rcases List.mem_cons.mp hc with rfl | hc
    · decide
    rcases List.mem_append.mp hc with hc | hc
    · rcases mem_join hc with rfl | ⟨s, hs, hc⟩
      · decide
      · obtain ⟨f, hf, rfl⟩ := List.mem_map.mp hs
        exact (h f (hsorted.mem_iff.mp hf)).2 c hc
    · rw [List.mem_singleton.mp hc]
      decide
  refine ⟨utf8 (render (normalForm (.object fields))), ?_, ?_⟩
  · unfold canonicalBytes
    rw [canonicalJson_eq _ hplain]
    rfl
  · have hlength : 0 < fields.length := List.length_pos_iff.mpr hfields
    have hsum := (hsorted.map fun f => (memberText f).length).sum_eq
    unfold utf8
    rw [Utf8.length_encode_of_ascii hascii, htext, List.length_cons, List.length_append,
      Json.length_join, List.map_map, List.length_map, hsorted.length_eq]
    have hcomp : ((sortedFields fields).map (List.length ∘ memberText)).sum =
        (fields.map fun f => (memberText f).length).sum := hsum
    rw [hcomp, List.length_singleton]
    omega

theorem memberText_string {key s : Utf16} (hkey : IsLiteralText key) (hs : IsLiteralText s) :
    (memberText (key, .string s)).length = key.length + s.length + 5 ∧
      IsAscii (memberText (key, .string s)) := by
  have htext : memberText (key, .string s) =
      (unit '"' :: (key ++ [unit '"'])) ++ unit ':' :: unit '"' :: (s ++ [unit '"']) := by
    show quote key ++ unit ':' :: quote s = _
    rw [quote_of_isLiteral hkey, quote_of_isLiteral hs]
  constructor
  · rw [htext]
    simp
    omega
  · intro c hc
    rw [htext] at hc
    simp only [List.mem_append, List.mem_cons, List.not_mem_nil, or_false] at hc
    rcases hc with (rfl | hc | rfl) | rfl | rfl | hc | rfl
    · decide
    · exact isAscii_of_isLiteralText hkey c hc
    · decide
    · decide
    · decide
    · exact isAscii_of_isLiteralText hs c hc
    · decide

/-- The text of a timestamp. -/
theorem exists_timestampText {ts : Number} (h : isTimestamp ts = true) :
    ∃ ds : List ℕ, (∀ d ∈ ds, d < 10) ∧ ds.length ≤ 17 ∧
      render (normalForm (.number ts)) = Digits.toText ds := by
  have hzero : render (normalForm (.number (.finite .zero))) = Digits.toText [0] := by decide
  cases ts with
  | nan => cases h
  | infinity => cases h
  | negInfinity => cases h
  | negZero => exact ⟨[0], by simp, by simp, hzero⟩
  | finite d =>
    simp only [isTimestamp, Bool.and_eq_true, decide_eq_true_eq] at h
    obtain ⟨⟨hint, hnonneg⟩, hlt⟩ := h
    have hnum := Rat.eq_num_of_isInt hint
    have hnumNonneg : 0 ≤ d.value.num := Rat.num_nonneg.mpr hnonneg
    have hcast : ((d.value.num.toNat : ℕ) : ℚ) = d.value := by
      conv_rhs => rw [hnum]
      exact_mod_cast Int.toNat_of_nonneg hnumNonneg
    have hsmall : d.value.num.toNat < 2 ^ 53 := by
      rw [← hcast] at hlt
      exact_mod_cast hlt
    have hd : d = .ofNat d.value.num.toNat hsmall := Double.ext hcast.symm
    obtain ⟨ds, hds, hlength, htext⟩ := Number.toText_ofNat hsmall
    refine ⟨ds, hds, hlength, ?_⟩
    rw [← htext, ← hd]
    rfl

theorem isLiteral_digit {d : ℕ} (h : d < 10) : isLiteral (Fin.ofNat 0x10000 (0x30 + d)) = true := by
  interval_cases d <;> decide

theorem memberText_number {key : Utf16} {ts : Number} (hkey : IsLiteralText key)
    (h : isTimestamp ts = true) :
    (memberText (key, .number ts)).length ≤ key.length + 20 ∧
      IsAscii (memberText (key, .number ts)) := by
  obtain ⟨ds, hds, hlength, htext⟩ := exists_timestampText h
  have hmember : memberText (key, .number ts) =
      (unit '"' :: (key ++ [unit '"'])) ++ unit ':' :: Digits.toText ds := by
    show quote key ++ unit ':' :: render (normalForm (.number ts)) = _
    rw [quote_of_isLiteral hkey, htext]
  have hdigits : IsLiteralText (Digits.toText ds) := by
    intro c hc
    obtain ⟨d, hd, rfl⟩ := List.mem_map.mp hc
    exact isLiteral_digit (hds d hd)
  have hdigitsLength : (Digits.toText ds).length = ds.length := List.length_map ..
  constructor
  · rw [hmember]
    simp only [List.length_append, List.length_cons, List.length_nil, hdigitsLength]
    omega
  · intro c hc
    rw [hmember] at hc
    simp only [List.mem_append, List.mem_cons, List.not_mem_nil, or_false] at hc
    rcases hc with (rfl | hc | rfl) | rfl | hc
    · decide
    · exact isAscii_of_isLiteralText hkey c hc
    · decide
    · decide
    · exact isAscii_of_isLiteralText hdigits c hc

/-- The parts of an envelope as it is sealed. -/
structure IsSealed (e : Envelope) : Prop where
  v : e.v = .ofRat 1
  id : isUlid e.id = true
  source : ∃ parsed, parseHandleEpoch e.source = .ok parsed
  destination : ∃ parsed, parseHandleEpoch e.destination = .ok parsed
  ts : isTimestamp e.ts = true
  epk : ∃ bytes, e.epk = base64 bytes ∧ bytes.length = 32
  n : ∃ bytes, e.n = base64 bytes ∧ bytes.length = 12
  ct : ∃ bytes, e.ct = base64 bytes ∧ bytes.length ≤ maxPlaintextBytes + 16
  sig : ∃ bytes, e.sig = base64 bytes ∧ bytes.length = 64

theorem isTimestamp_ofNat {n : ℕ} (h : n < 2 ^ 53) : isTimestamp (.finite (.ofNat n h)) = true := by
  have hvalue : (Double.ofNat n h).value = n := rfl
  have hlt : (n : ℚ) < 2 ^ 53 := by exact_mod_cast h
  simp [isTimestamp, hvalue, Rat.isInt, hlt]

theorem isTimestamp_one : isTimestamp (.ofRat 1) = true := by
  have hone : Number.ofRat 1 = .finite (.ofNat 1 (by norm_num)) := by
    exact_mod_cast Number.ofRat_natCast (n := 1) (by norm_num)
  rw [hone]
  exact isTimestamp_ofNat _

theorem isFinite_of_isTimestamp {ts : Number} (h : isTimestamp ts = true) : isFinite ts = true := by
  cases ts with
  | negZero => rfl
  | finite d => rfl
  | nan => cases h
  | infinity => cases h
  | negInfinity => cases h

theorem isSafeInteger_of_isTimestamp {ts : Number} (h : isTimestamp ts = true) :
    isSafeInteger ts = true := by
  cases ts with
  | negZero => rfl
  | finite d =>
    simp only [isTimestamp, isSafeInteger, Bool.and_eq_true, decide_eq_true_eq] at h ⊢
    exact ⟨h.1.1, abs_lt.mpr ⟨lt_of_lt_of_le (by norm_num) h.1.2, h.2⟩⟩
  | nan => cases h
  | infinity => cases h
  | negInfinity => cases h

/-- The number of characters of base64. -/
theorem length_of_base64 {text : Utf16} {n : ℕ} (h : ∃ bytes, text = base64 bytes ∧ bytes.length ≤ n) :
    text.length ≤ (n + 2) / 3 * 4 ∧ IsLiteralText text := by
  obtain ⟨bytes, rfl, hlength⟩ := h
  refine ⟨?_, isLiteralText_base64 bytes⟩
  rw [length_base64]
  have : (bytes.length + 2) / 3 ≤ (n + 2) / 3 := Nat.div_le_div_right (by omega)
  omega

theorem IsSealed.lengths {e : Envelope} (h : IsSealed e) :
    (e.id.length = 26 ∧ IsLiteralText e.id) ∧ (e.source.length ≤ 80 ∧ IsLiteralText e.source) ∧
      (e.destination.length ≤ 80 ∧ IsLiteralText e.destination) ∧
      (e.epk.length ≤ 44 ∧ IsLiteralText e.epk) ∧ (e.n.length ≤ 16 ∧ IsLiteralText e.n) ∧
      (e.ct.length ≤ 43712 ∧ IsLiteralText e.ct) ∧ (e.sig.length ≤ 88 ∧ IsLiteralText e.sig) := by
  obtain ⟨source, hsource⟩ := h.source
  obtain ⟨destination, hdestination⟩ := h.destination
  have hepk := length_of_base64 (h.epk.imp fun bytes hb => ⟨hb.1, hb.2.le⟩)
  have hn := length_of_base64 (h.n.imp fun bytes hb => ⟨hb.1, hb.2.le⟩)
  have hsig := length_of_base64 (h.sig.imp fun bytes hb => ⟨hb.1, hb.2.le⟩)
  have hct := length_of_base64 h.ct
  have hmax : maxPlaintextBytes = 32768 := rfl
  rw [hmax] at hct
  exact ⟨isLiteralText_isUlid h.id, length_of_parseHandleEpoch hsource,
    length_of_parseHandleEpoch hdestination, ⟨by omega, hepk.2⟩, ⟨by omega, hn.2⟩,
    ⟨by omega, hct.2⟩, ⟨by omega, hsig.2⟩⟩

/-- The bytes of an envelope as it is sealed are within the limit. -/
theorem IsSealed.length_canonicalBytes {e : Envelope} (h : IsSealed e) :
    ∃ bytes, canonicalBytes e.value = .ok bytes ∧ bytes.length ≤ maxEnvelopeBytes := by
  obtain ⟨hid, hsource, hdestination, hepk, hn, hct, hsig⟩ := h.lengths
  have hkeys : envelopeKeys.Nodup := by decide
  have hliteral : ∀ key ∈ envelopeKeys, IsLiteralText key := by decide
  have hplain : IsPlain e.value :=
    ⟨hkeys, .inr (by rw [h.v]; exact isFinite_of_isTimestamp isTimestamp_one), .inr trivial,
      .inr trivial, .inr trivial, .inr (isFinite_of_isTimestamp h.ts), .inr trivial, .inr trivial,
      .inr trivial, .inr trivial, trivial⟩
  have hv' := memberText_number (hliteral (ofString "v") (by simp [envelopeKeys]))
    (show isTimestamp e.v = true by rw [h.v]; exact isTimestamp_one)
  have hts' := memberText_number (hliteral (ofString "ts") (by simp [envelopeKeys])) h.ts
  have hid' := memberText_string (hliteral (ofString "id") (by simp [envelopeKeys])) hid.2
  have hsource' := memberText_string (hliteral (ofString "from") (by simp [envelopeKeys])) hsource.2
  have hdestination' :=
    memberText_string (hliteral (ofString "to") (by simp [envelopeKeys])) hdestination.2
  have hepk' := memberText_string (hliteral (ofString "epk") (by simp [envelopeKeys])) hepk.2
  have hn' := memberText_string (hliteral (ofString "n") (by simp [envelopeKeys])) hn.2
  have hct' := memberText_string (hliteral (ofString "ct") (by simp [envelopeKeys])) hct.2
  have hsig' := memberText_string (hliteral (ofString "sig") (by simp [envelopeKeys])) hsig.2
  obtain ⟨bytes, hbytes, hlength⟩ := Reef.length_canonicalBytes hplain (List.cons_ne_nil _ _) (by
    simp only [UnsignedEnvelope.fields, List.cons_append, List.nil_append, List.forall_mem_cons,
      List.not_mem_nil]
    exact ⟨⟨rfl, hv'.2⟩, ⟨rfl, hid'.2⟩, ⟨rfl, hsource'.2⟩, ⟨rfl, hdestination'.2⟩, ⟨rfl, hts'.2⟩,
      ⟨rfl, hepk'.2⟩, ⟨rfl, hn'.2⟩, ⟨rfl, hct'.2⟩, ⟨rfl, hsig'.2⟩,
      fun _ hmem => hmem.elim⟩)
  refine ⟨bytes, hbytes, ?_⟩
  have hnames : (ofString "v").length + (ofString "id").length + (ofString "from").length +
      (ofString "to").length + (ofString "ts").length + (ofString "epk").length +
      (ofString "n").length + (ofString "ct").length + (ofString "sig").length = 20 := by decide
  simp only [UnsignedEnvelope.fields, List.cons_append, List.nil_append, List.map_cons,
    List.map_nil, List.sum_cons, List.sum_nil, List.length_cons, List.length_nil] at hlength
  unfold maxEnvelopeBytes
  omega

end Sizes

section Accepted

theorem readEnvelope_value (e : Envelope) :
    readEnvelope (e.fields ++ [(ofString "sig", .string e.sig)]) = some e := by
  rfl

theorem isExactObject_value (e : Envelope) :
    isExactObject (e.fields ++ [(ofString "sig", .string e.sig)]) envelopeKeys = true := by
  have hkeys : envelopeKeys.all (· ∈ envelopeKeys) = true := by decide
  have hself : isExactObject (e.fields ++ [(ofString "sig", .string e.sig)]) envelopeKeys =
      (envelopeKeys.all (· ∈ envelopeKeys) && envelopeKeys.all fun key =>
        key ∈ envelopeKeys || key ∈ [ofString "replyTo", ofString "thread"]) := rfl
  rw [hself]
  decide

theorem IsSealed.decodesTexts {e : Envelope} (h : IsSealed e) : decodesTexts e = true := by
  obtain ⟨epk, hepk, hepkLength⟩ := h.epk
  obtain ⟨n, hn, hnLength⟩ := h.n
  obtain ⟨sig, hsig, hsigLength⟩ := h.sig
  obtain ⟨ct, hct, -⟩ := h.ct
  unfold Reef.decodesTexts
  rw [hepk, hn, hsig, hct, fromBase64_base64, fromBase64_base64, fromBase64_base64,
    fromBase64_base64]
  simp [Except.toOption, hepkLength, hnLength, hsigLength]

/-- An envelope as it is sealed passes every check of the receiver. -/
theorem IsSealed.validateEnvelope {e : Envelope} (h : IsSealed e) :
    validateEnvelope e.value = .ok e := by
  obtain ⟨hid, hsource, hdestination, hepk, hn, hct, hsig⟩ := h.lengths
  obtain ⟨bytes, hbytes, hlength⟩ := h.length_canonicalBytes
  have hmax : maxCiphertextBase64 = 44752 := rfl
  unfold Envelope.value Reef.validateEnvelope
  simp only
  rw [isExactObject_value, if_neg (by simp), readEnvelope_value]
  simp only
  unfold validateSizes
  rw [if_neg (by simp [isSafeInteger_of_isTimestamp h.ts]), if_neg (by simp [hid.1]),
    if_neg (by omega), if_neg (by simp [h.decodesTexts]), hbytes]
  show (if maxEnvelopeBytes < bytes.length then _ else _) = _
  rw [if_neg (by omega)]

theorem validateEnvelopeMetadata_eq_ok {id source destination : Utf16} {ts : Number} :
    validateEnvelopeMetadata id source destination ts = .ok () ↔
      isUlid id = true ∧ isTimestamp ts = true ∧
        (∃ parsed, parseHandleEpoch source = .ok parsed) ∧
        ∃ parsed, parseHandleEpoch destination = .ok parsed := by
  unfold validateEnvelopeMetadata
  by_cases h : isUlid id = true ∧ isTimestamp ts = true
  · rw [if_neg (not_not.mpr h)]
    cases parseHandleEpoch source with
    | error e => simp
    | ok parsed =>
      cases parseHandleEpoch destination with
      | error e => simp
      | ok parsed' => simp [h]
  · rw [if_pos h]
    simp only [reduceCtorEq, false_iff]
    tauto

end Accepted

section Body

theorem field_normal {fields : List (Utf16 × JsValue)} (h : (fields.map Prod.fst).Nodup)
    (key : Utf16) :
    field ((normalFields fields).insertionSort keyLe) key = normalForm (field fields key) := by
  by_cases hu : field fields key = .undefined
  · rw [hu]
    by_contra hne
    have hmem := mem_of_field_ne hne
    exact ((mem_normalFields_iff h).mp hmem).1 hu
  · exact field_eq_of_mem (nodup_normalFields h)
      ((mem_normalFields_iff h (e := (key, normalForm (field fields key)))).mpr ⟨hu, rfl⟩)

theorem asString_normalForm (v : JsValue) : asString (normalForm v) = asString v := by
  cases v <;> rfl

theorem asOptionalString_normalForm (v : JsValue) :
    asOptionalString (normalForm v) = asOptionalString v := by
  cases v <;> rfl

/-- What `validateMessageBody` accepts. -/
theorem validateMessageBody_eq_ok {body : JsValue} {message : MessageBody}
    (h : validateMessageBody body = .ok message) :
    ∃ fields, body = .object fields ∧ isExactObject fields bodyKeys = true ∧
      readBody fields = some message := by
  cases body with
  | object fields =>
    simp only [validateMessageBody] at h
    split_ifs at h with hexact
    cases hread : readBody fields with
    | none =>
      rw [hread] at h
      cases h
    | some message' =>
      rw [hread] at h
      simp only at h
      split_ifs at h
      obtain ⟨_, -, h⟩ := bind_eq_ok.mp h
      obtain ⟨_, -, h⟩ := bind_eq_ok.mp h
      obtain ⟨_, -, h⟩ := bind_eq_ok.mp h
      obtain rfl := Except.ok.inj h
      exact ⟨fields, rfl, hexact, hread⟩
  | undefined => cases h
  | null => cases h
  | boolean b => cases h
  | number n => cases h
  | string s => cases h
  | array elements => cases h

/-- A body only depends on its keys and fields. -/
theorem validateMessageBody_congr {fields fields' : List (Utf16 × JsValue)}
    (hexact : isExactObject fields bodyKeys = isExactObject fields' bodyKeys)
    (hread : readBody fields = readBody fields') :
    validateMessageBody (.object fields) = validateMessageBody (.object fields') := by
  simp only [validateMessageBody, hexact, hread]

theorem readBody_eq_some {fields : List (Utf16 × JsValue)} {message : MessageBody}
    (h : readBody fields = some message) :
    (∃ s, field fields (ofString "text") = .string s) ∧
      ∀ key ∈ bodyKeys, field fields key = .undefined ∨ ∃ s, field fields key = .string s := by
  have hoptional : ∀ v s, asOptionalString v = some s → v = .undefined ∨ ∃ t, v = .string t := by
    intro v s hv
    cases v with
    | undefined => exact .inl rfl
    | string t => exact .inr ⟨t, rfl⟩
    | _ => cases hv
  have hstring : ∀ v s, asString v = some s → ∃ t, v = .string t := by
    intro v s hv
    cases v with
    | string t => exact ⟨t, rfl⟩
    | _ => cases hv
  unfold readBody at h
  obtain ⟨text, htext, h⟩ := Option.bind_eq_some_iff.mp h
  obtain ⟨replyTo, hreplyTo, h⟩ := Option.bind_eq_some_iff.mp h
  obtain ⟨thread, hthread, -⟩ := Option.bind_eq_some_iff.mp h
  refine ⟨hstring _ _ htext, ?_⟩
  simp only [bodyKeys, List.forall_mem_cons, List.not_mem_nil]
  exact ⟨.inr (hstring _ _ htext), hoptional _ _ hreplyTo, hoptional _ _ hthread,
    fun _ hmem => hmem.elim⟩

theorem mem_bodyKeys {fields : List (Utf16 × JsValue)} (h : isExactObject fields bodyKeys = true) :
    ∀ f ∈ fields, f.1 ∈ bodyKeys := by
  intro f hf
  simp only [isExactObject, Bool.and_eq_true, List.all_eq_true, decide_eq_true_eq] at h
  exact h.1 _ (List.mem_map_of_mem hf)

/-- A body is built from strings. -/
theorem isPlain_body {fields : List (Utf16 × JsValue)} (hkeys : (fields.map Prod.fst).Nodup)
    (hexact : isExactObject fields bodyKeys = true) {message : MessageBody}
    (hread : readBody fields = some message) : IsPlain (.object fields) := by
  refine ⟨hkeys, isPlainFields_iff.mpr fun f hf => ?_⟩
  rcases (readBody_eq_some hread).2 _ (mem_bodyKeys hexact f hf) with h | ⟨s, h⟩
  · rw [field_eq_of_mem hkeys hf] at h
    exact .inl h
  · rw [field_eq_of_mem hkeys hf] at h
    rw [h]
    exact .inr trivial

/-- The normal form of a body is a body with the same message. -/
theorem validateMessageBody_normalForm {body : JsValue} (hkeys : UniqueKeys body)
    {message : MessageBody} (h : validateMessageBody body = .ok message) :
    IsPlain body ∧ validateMessageBody (normalForm body) = .ok message := by
  obtain ⟨fields, rfl, hexact, hread⟩ := validateMessageBody_eq_ok h
  have hnodup : (fields.map Prod.fst).Nodup := hkeys.1
  refine ⟨isPlain_body hnodup hexact hread, ?_⟩
  rw [normalForm, ← h]
  apply validateMessageBody_congr
  · rw [hexact]
    obtain ⟨text, htext⟩ := (readBody_eq_some hread).1
    have hmem : ofString "text" ∈
        ((normalFields fields).insertionSort keyLe).map Prod.fst := by
      have hdefined : field fields (ofString "text") ≠ .undefined := by rw [htext]; simp
      exact List.mem_map_of_mem ((mem_normalFields_iff hnodup
        (e := (ofString "text", normalForm (field fields (ofString "text"))))).mpr ⟨hdefined, rfl⟩)
    simp only [isExactObject, Bool.and_eq_true, List.all_eq_true, decide_eq_true_eq]
    constructor
    · intro key hkey
      obtain ⟨f, hf, rfl⟩ := List.mem_map.mp hkey
      obtain ⟨g, hg, -, rfl⟩ := mem_normalFields.mp hf
      exact mem_bodyKeys hexact g hg
    · have hoptional : ∀ key ∈ [ofString "replyTo", ofString "thread"],
          (decide (key ∈ ((normalFields fields).insertionSort keyLe).map Prod.fst) ||
            decide (key ∈ [ofString "replyTo", ofString "thread"])) = true := by
        intro key hkey
        rw [decide_eq_true hkey, Bool.or_true]
      exact List.forall_mem_cons.mpr ⟨by rw [decide_eq_true hmem, Bool.true_or], hoptional⟩
  · unfold readBody
    rw [field_normal hnodup, field_normal hnodup, field_normal hnodup, asString_normalForm,
      asOptionalString_normalForm, asOptionalString_normalForm]

/-- The bytes of a body read back as its normal form. -/
theorem parse_canonicalBytes {body : JsValue} (hkeys : UniqueKeys body) {message : MessageBody}
    (h : validateMessageBody body = .ok message) {plaintext : Bytes}
    (hplaintext : canonicalBytes body = .ok plaintext) :
    ∃ text, decodeUtf8 plaintext = .ok text ∧ Json.parse text = some (normalForm body) := by
  obtain ⟨hplain, -⟩ := validateMessageBody_normalForm hkeys h
  unfold canonicalBytes at hplaintext
  rw [canonicalJson_eq body hplain] at hplaintext
  obtain rfl := Except.ok.inj hplaintext
  have hstart : ¬ Utf8.StartsWithMark (render (normalForm body)) := by
    obtain ⟨fields, rfl, -, -⟩ := validateMessageBody_eq_ok h
    rw [normalForm, render]
    unfold Utf8.StartsWithMark
    rw [List.head?_cons]
    decide
  have hself := (decodedText_eq_self_iff _).mpr ⟨isWellFormed_render (normalForm body), hstart⟩
  refine ⟨_, decodeUtf8_utf8 _, ?_⟩
  rw [hself, parse_render _ (uniqueKeys_normalForm body hplain), clean_normalForm body hplain]

end Body

section Opened

/-- The primitives do what they are for. -/
structure EnvelopeCrypto.Correct (crypto : EnvelopeCrypto) : Prop where
  gcm : GcmCorrect crypto.toAuditCrypto
  keygen : ∀ seed, seed.length = 32 →
    ∃ secretKey publicKey, crypto.keygen seed = .ok (secretKey, publicKey) ∧ publicKey.length = 32
  agree : ∀ seed seed' secretKey publicKey secretKey' publicKey',
    crypto.keygen seed = .ok (secretKey, publicKey) →
    crypto.keygen seed' = .ok (secretKey', publicKey') →
    ∃ shared, crypto.getSharedSecret secretKey publicKey' = .ok shared ∧
      crypto.getSharedSecret secretKey' publicKey = .ok shared
  sign : ∀ seed secretKey publicKey message,
    crypto.signingKeygen seed = .ok (secretKey, publicKey) →
    ∃ signature, crypto.sign message secretKey = .ok signature ∧ signature.length = 64 ∧
      crypto.verify signature message publicKey = .ok true

/-- The keys are those of one sender and of one recipient. -/
structure MatchingKeys (crypto : EnvelopeCrypto)
    (senderSecret senderPublic recipientSecret recipientPublic : Utf16) : Prop where
  sender : ∃ seed secretKey publicKey, crypto.signingKeygen seed = .ok (secretKey, publicKey) ∧
    decodeKey senderSecret = .ok secretKey ∧ decodeKey senderPublic = .ok publicKey
  recipient : ∃ seed secretKey publicKey, crypto.keygen seed = .ok (secretKey, publicKey) ∧
    decodeKey recipientSecret = .ok secretKey ∧ decodeKey recipientPublic = .ok publicKey

theorem exists_canonicalBytes_unsigned {e : Envelope} (h : IsSealed e) :
    ∃ bytes, canonicalBytes e.toUnsignedEnvelope.value = .ok bytes := by
  have hkeys : (e.fields.map Prod.fst).Nodup := by
    show [ofString "v", ofString "id", ofString "from", ofString "to", ofString "ts",
      ofString "epk", ofString "n", ofString "ct"].Nodup
    decide
  have hplain : IsPlain e.toUnsignedEnvelope.value :=
    ⟨hkeys, .inr (by rw [h.v]; exact isFinite_of_isTimestamp isTimestamp_one), .inr trivial,
      .inr trivial, .inr trivial, .inr (isFinite_of_isTimestamp h.ts), .inr trivial, .inr trivial,
      .inr trivial, trivial⟩
  unfold canonicalBytes
  rw [canonicalJson_eq _ hplain]
  exact ⟨_, rfl⟩

theorem decodeKey_ne_nil {value : Utf16} {key : Bytes} (h : decodeKey value = .ok key) :
    value ≠ [] := by
  rintro rfl
  cases h

variable {crypto : EnvelopeCrypto}

/-- What `sealEnvelope` returns. -/
theorem exists_sealEnvelope (hcrypto : crypto.Correct) {options : SealOptions}
    {message : MessageBody} {plaintext senderKey recipientKey : Bytes}
    (hid : isUlid options.id = true)
    (hsource : ∃ parsed, parseHandleEpoch options.source = .ok parsed)
    (hdestination : ∃ parsed, parseHandleEpoch options.destination = .ok parsed)
    (hts : isTimestamp options.ts = true) (hbody : validateMessageBody options.body = .ok message)
    (hplaintext : canonicalBytes options.body = .ok plaintext)
    (hsize : plaintext.length ≤ maxPlaintextBytes)
    (hrng : ∀ n length, (options.rng n length).length = length)
    (hsign : ∀ text, ∃ signature, crypto.sign text senderKey = .ok signature ∧
      signature.length = 64)
    (hsender : decodeKey options.senderSigningSecretKey = .ok senderKey)
    (hrecipient : decodeKey options.recipientEncryptionPublicKey = .ok recipientKey)
    (hshared : ∀ seed secretKey publicKey, crypto.keygen seed = .ok (secretKey, publicKey) →
      ∃ shared, crypto.getSharedSecret secretKey recipientKey = .ok shared) :
    ∃ envelope secretKey publicKey shared text signature,
      sealEnvelope crypto options = .ok envelope ∧ IsSealed envelope ∧
      envelope.id = options.id ∧ envelope.source = options.source ∧
      envelope.destination = options.destination ∧ envelope.ts = options.ts ∧
      crypto.keygen (options.rng 0 32) = .ok (secretKey, publicKey) ∧
      crypto.getSharedSecret secretKey recipientKey = .ok shared ∧
      canonicalBytes envelope.toUnsignedEnvelope.value = .ok text ∧
      envelope.epk = base64 publicKey ∧ envelope.n = base64 (options.rng 1 12) ∧
      envelope.ct = base64 (crypto.encrypt (crypto.hkdf shared hkdfInfo 32) (options.rng 1 12)
        plaintext) ∧ crypto.sign text senderKey = .ok signature ∧
      envelope.sig = base64 signature := by
  obtain ⟨secretKey, publicKey, hkeygen, hpublic⟩ := hcrypto.keygen _ (hrng 0 32)
  obtain ⟨shared, hshared⟩ := hshared _ _ _ hkeygen
  have hmetadata := validateEnvelopeMetadata_eq_ok.mpr ⟨hid, hts, hsource, hdestination⟩
  let unsigned : UnsignedEnvelope :=
    { v := .ofRat 1, id := options.id, source := options.source,
      destination := options.destination, ts := options.ts, epk := base64 publicKey,
      n := base64 (options.rng 1 12),
      ct := base64 (crypto.encrypt (crypto.hkdf shared hkdfInfo 32) (options.rng 1 12) plaintext) }
  have hsealed : ∀ signature : Bytes, signature.length = 64 →
      IsSealed { unsigned with sig := base64 signature } := fun signature hlength =>
    ⟨rfl, hid, hsource, hdestination, hts, ⟨_, rfl, hpublic⟩, ⟨_, rfl, hrng 1 12⟩,
      ⟨_, rfl, by rw [hcrypto.gcm.length]; omega⟩, ⟨_, rfl, hlength⟩⟩
  obtain ⟨_, -, hany⟩ := hsign []
  obtain ⟨text, htext⟩ := exists_canonicalBytes_unsigned (hsealed _ hany)
  obtain ⟨signature, hsign, hlength⟩ := hsign text
  refine ⟨{ unsigned with sig := base64 signature }, secretKey, publicKey, shared, text, signature,
    ?_, hsealed _ hlength, rfl, rfl, rfl, rfl, hkeygen, hshared, htext, rfl, rfl, rfl, hsign, rfl⟩
  unfold sealEnvelope
  rw [hmetadata, hbody, hplaintext, hkeygen, hrecipient]
  simp only [bind, Except.bind, lift, Except.mapError]
  rw [if_neg (by omega), hshared]
  simp only [hrng, ne_eq, not_true, if_false]
  rw [show canonicalBytes unsigned.value = .ok text from htext, hsender]
  simp only [hsign]
  rfl

/-- The checks before the claim pass. -/
theorem IsSealed.checkEnvelope {options : OpenOptions} {envelope : Envelope} {publicKey : Utf16}
    (hsealed : IsSealed envelope) (henvelope : options.envelope = envelope.value)
    (hself : options.self = envelope.destination)
    (hpublic : options.senderSigningPublicKey = some publicKey) (hne : publicKey ≠ [])
    (hsignature : validSignature crypto envelope publicKey = true) :
    ∃ peer hash, Reef.checkEnvelope crypto options = .ok (envelope, peer, hash) := by
  obtain ⟨source, hsource⟩ := hsealed.source
  obtain ⟨bytes, hbytes, -⟩ := hsealed.length_canonicalBytes
  have hmetadata := validateEnvelopeMetadata_eq_ok.mpr
    ⟨hsealed.id, hsealed.ts, hsealed.source, hsealed.destination⟩
  refine ⟨source.handle, hex (crypto.sha256 bytes), ?_⟩
  unfold Reef.checkEnvelope envelopeHash
  rw [henvelope, hsealed.validateEnvelope, hpublic]
  simp only [bind, Except.bind, Option.elim]
  rw [if_neg hne, if_neg (by simp [hsignature]), if_neg (by simp [hsealed.v]), hmetadata,
    hsource, hbytes, hself]
  simp only [ne_eq, not_true, if_false]
  rfl

/-- The signature of the sender is accepted. -/
theorem validSignature_eq_true {envelope : Envelope} {publicKey : Utf16} {text key sig : Bytes}
    (hsig : envelope.sig = base64 sig)
    (htext : canonicalBytes envelope.toUnsignedEnvelope.value = .ok text)
    (hkey : decodeKey publicKey = .ok key) (hverify : crypto.verify sig text key = .ok true) :
    validSignature crypto envelope publicKey = true := by
  unfold validSignature
  rw [hsig, fromBase64_base64, htext, hkey]
  simp only [bind, Except.bind, lift, Except.mapError]
  rw [hverify]
  rfl

/-- What was sealed is decrypted and parsed. -/
theorem openNew_eq_ok (hgcm : GcmCorrect crypto.toAuditCrypto) {options : OpenOptions}
    {envelope : Envelope} {body : JsValue} {message : MessageBody}
    {secretKey publicKey shared nonce plaintext : Bytes} (hkeys : UniqueKeys body)
    (hbody : validateMessageBody body = .ok message)
    (hplaintext : canonicalBytes body = .ok plaintext)
    (hsize : plaintext.length ≤ maxPlaintextBytes)
    (hwindow : isExpired options envelope.ts = false)
    (hsecret : decodeKey options.recipientEncryptionSecretKey = .ok secretKey)
    (hshared : crypto.getSharedSecret secretKey publicKey = .ok shared)
    (hepk : envelope.epk = base64 publicKey) (hn : envelope.n = base64 nonce)
    (hct : envelope.ct =
      base64 (crypto.encrypt (crypto.hkdf shared hkdfInfo 32) nonce plaintext)) :
    openNew crypto options envelope = .ok (normalForm body) := by
  obtain ⟨text, htext, hparse⟩ := parse_canonicalBytes hkeys hbody hplaintext
  obtain ⟨-, hnormal⟩ := validateMessageBody_normalForm hkeys hbody
  unfold openNew
  rw [hwindow, hsecret, hepk, hn, hct, fromBase64_base64, fromBase64_base64, fromBase64_base64]
  simp only [Bool.false_eq_true, if_false, bind, Except.bind, lift, Except.mapError, hshared,
    hgcm.decrypt]
  rw [if_neg (by omega), htext]
  simp only [hparse, Option.elim, hnormal]
  rfl

/-- A message that the sender may seal, and a recipient whose keys and window fit it. -/
structure Fits (crypto : EnvelopeCrypto) (sealing : SealOptions) (opening : OpenOptions)
    (message : MessageBody) (plaintext : Bytes) (publicKey : Utf16) : Prop where
  id : isUlid sealing.id = true
  source : ∃ parsed, parseHandleEpoch sealing.source = .ok parsed
  destination : ∃ parsed, parseHandleEpoch sealing.destination = .ok parsed
  ts : isTimestamp sealing.ts = true
  keys : UniqueKeys sealing.body
  body : validateMessageBody sealing.body = .ok message
  bytes : canonicalBytes sealing.body = .ok plaintext
  size : plaintext.length ≤ maxPlaintextBytes
  rng : ∀ n length, (sealing.rng n length).length = length
  self : opening.self = sealing.destination
  sender : opening.senderSigningPublicKey = some publicKey
  matching : MatchingKeys crypto sealing.senderSigningSecretKey publicKey
    opening.recipientEncryptionSecretKey sealing.recipientEncryptionPublicKey
  window : isExpired opening sealing.ts = false

/-- The envelope of a message that fits passes the checks of the receiver and opens. -/
theorem Fits.open (hcrypto : crypto.Correct) {sealing : SealOptions} {opening : OpenOptions}
    {message : MessageBody} {plaintext : Bytes} {publicKey : Utf16}
    (h : Fits crypto sealing opening message plaintext publicKey) :
    ∃ envelope peer hash, sealEnvelope crypto sealing = .ok envelope ∧ IsSealed envelope ∧
      envelope.id = sealing.id ∧ envelope.source = sealing.source ∧
      checkEnvelope crypto { opening with envelope := envelope.value } =
        .ok (envelope, peer, hash) ∧
      openNew crypto { opening with envelope := envelope.value } envelope =
        .ok (normalForm sealing.body) := by
  obtain ⟨seed, senderSecret, senderPublic, hsigningKeygen, hsenderSecret, hsenderPublic⟩ :=
    h.matching.sender
  obtain ⟨seed', recipientSecret, recipientPublic, hkeygen', hrecipientSecret, hrecipientPublic⟩ :=
    h.matching.recipient
  obtain ⟨envelope, secretKey, epk, shared, text, signature, hseal, hsealed, hid', hsource',
    hdestination', hts', hkeygen, hshared, htext, hepk, hn, hct, hsign, hsig⟩ :=
    exists_sealEnvelope hcrypto h.id h.source h.destination h.ts h.body h.bytes h.size h.rng
      (fun text => (hcrypto.sign _ _ _ text hsigningKeygen).imp fun _ h => ⟨h.1, h.2.1⟩)
      hsenderSecret hrecipientPublic
      (fun seed secretKey publicKey hkeygen =>
        (hcrypto.agree _ _ _ _ _ _ hkeygen hkeygen').imp fun shared h => h.1)
  obtain ⟨signature', hsign', -, hverify⟩ := hcrypto.sign _ _ _ text hsigningKeygen
  obtain rfl : signature' = signature := Except.ok.inj (hsign'.symm.trans hsign)
  have hsignature : validSignature crypto envelope publicKey = true :=
    validSignature_eq_true hsig htext hsenderPublic hverify
  obtain ⟨peer, hash, hcheck⟩ : ∃ peer hash,
      checkEnvelope crypto { opening with envelope := envelope.value } =
        .ok (envelope, peer, hash) :=
    hsealed.checkEnvelope rfl (h.self.trans hdestination'.symm) h.sender
      (decodeKey_ne_nil hsenderPublic) hsignature
  -- the recipient finds the secret that the sender shared with its public key
  obtain ⟨shared', hours, htheirs⟩ := hcrypto.agree _ _ _ _ _ _ hkeygen hkeygen'
  obtain rfl : shared' = shared := Except.ok.inj (hours.symm.trans hshared)
  refine ⟨envelope, peer, hash, hseal, hsealed, hid', hsource', hcheck, ?_⟩
  exact openNew_eq_ok hcrypto.gcm h.keys h.body h.bytes h.size (by rw [hts']; exact h.window)
    hrecipientSecret htheirs hepk hn hct

theorem openClaimed_eq_new {σ : Type} {store : ReplayStore σ} {state : σ}
    (hfresh : IsFresh store state) {opening : OpenOptions} {envelope : Envelope}
    {peer hash : Utf16} {body : JsValue}
    (hcheck : checkEnvelope crypto opening = .ok (envelope, peer, hash))
    (hopen : openNew crypto opening envelope = .ok body) :
    ∃ state', openClaimed crypto store opening state = (.ok (.new body hash), state') := by
  obtain ⟨state', hclaim⟩ := hfresh peer envelope.id hash
  refine ⟨state', ?_⟩
  unfold openClaimed
  rw [hcheck, run_bind_ok (run_liftExcept _)]
  simp only
  rw [run_bind_ok hclaim]
  simp only [hopen]
  rfl

/-- A sealed envelope passes the checks of the receiver and opens to the body that was sealed, in
key order and without undefined fields. -/
theorem openClaimed_sealEnvelope (hcrypto : crypto.Correct) {σ : Type} (store : ReplayStore σ)
    (state : σ) (hfresh : IsFresh store state) (sealing : SealOptions) (opening : OpenOptions)
    (message : MessageBody) (plaintext : Bytes) (publicKey : Utf16)
    (hid : isUlid sealing.id = true)
    (hsource : ∃ parsed, parseHandleEpoch sealing.source = .ok parsed)
    (hdestination : ∃ parsed, parseHandleEpoch sealing.destination = .ok parsed)
    (hts : isTimestamp sealing.ts = true) (hkeys : UniqueKeys sealing.body)
    (hbody : validateMessageBody sealing.body = .ok message)
    (hplaintext : canonicalBytes sealing.body = .ok plaintext)
    (hsize : plaintext.length ≤ maxPlaintextBytes)
    (hrng : ∀ n length, (sealing.rng n length).length = length)
    (hself : opening.self = sealing.destination)
    (hpublic : opening.senderSigningPublicKey = some publicKey)
    (hmatching : MatchingKeys crypto sealing.senderSigningSecretKey publicKey
      opening.recipientEncryptionSecretKey sealing.recipientEncryptionPublicKey)
    (hwindow : isExpired opening sealing.ts = false) :
    ∃ envelope, sealEnvelope crypto sealing = .ok envelope ∧
      validateEnvelope envelope.value = .ok envelope ∧
      (∃ hash state', openClaimed crypto store { opening with envelope := envelope.value } state =
        (.ok (.new (normalForm sealing.body) hash), state')) ∧
      validateMessageBody (normalForm sealing.body) = .ok message := by
  have hfits : Fits crypto sealing opening message plaintext publicKey :=
    ⟨hid, hsource, hdestination, hts, hkeys, hbody, hplaintext, hsize, hrng, hself, hpublic,
      hmatching, hwindow⟩
  obtain ⟨envelope, peer, hash, hseal, hsealed, -, -, hcheck, hopen⟩ := hfits.open hcrypto
  refine ⟨envelope, hseal, hsealed.validateEnvelope, ?_,
    (validateMessageBody_normalForm hkeys hbody).2⟩
  obtain ⟨state', hopened⟩ := openClaimed_eq_new hfresh hcheck hopen
  exact ⟨hash, state', hopened⟩

end Opened

/-- Keys that are their seeds and signatures that are the key and the digest. -/
def sampleEnvelopeCrypto : EnvelopeCrypto where
  toAuditCrypto := sampleCrypto
  keygen seed :=
    if seed.length = 32 then .ok (seed, seed) else .error ⟨"Error", "invalid seed"⟩
  getSharedSecret secretKey publicKey := .ok (List.zipWith (· + ·) secretKey publicKey)
  hkdf shared info length := (shared ++ info ++ List.replicate length 0).take length
  signingKeygen seed :=
    if seed.length = 32 then .ok (seed, seed) else .error ⟨"Error", "invalid seed"⟩
  sign message secretKey := .ok (secretKey ++ sampleCrypto.sha256 message)
  verify signature message publicKey :=
    .ok (decide (signature = publicKey ++ sampleCrypto.sha256 message))

theorem sampleKeygen_eq_ok {seed secretKey publicKey : Bytes}
    (h : (if seed.length = 32 then .ok (seed, seed) else .error ⟨"Error", "invalid seed"⟩ :
      Except JsError (Bytes × Bytes)) = .ok (secretKey, publicKey)) :
    seed.length = 32 ∧ secretKey = seed ∧ publicKey = seed := by
  split_ifs at h with hseed
  obtain ⟨rfl, rfl⟩ := Prod.mk.inj (Except.ok.inj h)
  exact ⟨hseed, rfl, rfl⟩

theorem sampleEnvelopeCrypto_correct : sampleEnvelopeCrypto.Correct where
  gcm := sampleCrypto_gcm
  keygen seed h := ⟨seed, seed, if_pos h, h⟩
  agree seed seed' secretKey publicKey secretKey' publicKey' h h' := by
    obtain ⟨-, rfl, rfl⟩ := sampleKeygen_eq_ok h
    obtain ⟨-, rfl, rfl⟩ := sampleKeygen_eq_ok h'
    refine ⟨_, rfl, congrArg Except.ok (List.zipWith_comm_of_comm fun a b => ?_)⟩
    exact Fin.ext (congrArg (· % 0x100) (Nat.add_comm a.val b.val))
  sign seed secretKey publicKey message h := by
    obtain ⟨hseed, rfl, rfl⟩ := sampleKeygen_eq_ok h
    refine ⟨_, rfl, ?_, congrArg Except.ok (decide_eq_true rfl)⟩
    show (publicKey ++ sampleDigest).length = 64
    rw [List.length_append, hseed]
    rfl

def sampleKeyText : Utf16 := List.replicate 43 (unit 'A')

def sampleSealing : SealOptions where
  id := ofString "01ARZ3NDEKTSV4RRFFQ69G5FAV"
  source := ofString "alice#1"
  destination := ofString "bob#2"
  body := .object [(ofString "thread", .undefined), (ofString "text", .string (ofString "hi"))]
  senderSigningSecretKey := sampleKeyText
  recipientEncryptionPublicKey := sampleKeyText
  ts := .finite .zero
  rng _ length := List.replicate length 0

def sampleOpening : OpenOptions where
  envelope := .null
  self := ofString "bob#2"
  recipientEncryptionSecretKey := sampleKeyText
  senderSigningPublicKey := some sampleKeyText
  now := 0
  maxAgeSeconds := 30 * 24 * 60 * 60
  maxFutureSkewSeconds := 300

theorem exists_parseHandleEpoch (handle epoch : Utf16) (hhandle : isHandle handle = true)
    (hepoch : isEpoch epoch = true) (hhash : unit '#' ∉ handle)
    (hsafe : Digits.value (epoch.map fun c => c.val - 0x30) < 2 ^ 53) :
    ∃ parsed, parseHandleEpoch (handle ++ unit '#' :: epoch) = .ok parsed := by
  have hall : ∀ c ∈ handle, decide (c ≠ unit '#') = true := fun c hc =>
    decide_eq_true fun h => hhash (h ▸ hc)
  have htake : (handle ++ unit '#' :: epoch).takeWhile (· ≠ unit '#') = handle := by
    rw [List.takeWhile_append_of_pos hall]
    simp
  have hdrop : (handle ++ unit '#' :: epoch).dropWhile (· ≠ unit '#') = unit '#' :: epoch := by
    rw [List.dropWhile_append_of_pos hall]
    simp
  have hnumber : isSafeInteger (digitsNumber epoch) = true := by
    unfold digitsNumber
    rw [Number.ofRat_natCast hsafe]
    exact isSafeInteger_of_isTimestamp (isTimestamp_ofNat hsafe)
  unfold parseHandleEpoch
  simp only [htake, hdrop, List.tail_cons]
  rw [if_neg (by simp [hhandle, hepoch]), if_neg (by simp [hnumber])]
  exact ⟨_, rfl⟩

theorem decodeKey_sampleKeyText : decodeKey sampleKeyText = .ok sampleKey := by
  rfl

theorem isPlain_sampleBody : IsPlain sampleSealing.body :=
  ⟨by decide, .inl rfl, .inr trivial, trivial⟩

theorem fits_sample : Fits sampleEnvelopeCrypto sampleSealing sampleOpening
    ⟨ofString "hi", none, none⟩ (utf8 (render (normalForm sampleSealing.body))) sampleKeyText where
  id := by decide
  source := exists_parseHandleEpoch (ofString "alice") (ofString "1") (by decide) (by decide)
    (by decide) (by decide)
  destination := exists_parseHandleEpoch (ofString "bob") (ofString "2") (by decide) (by decide)
    (by decide) (by decide)
  ts := by decide
  keys := ⟨by decide, trivial, trivial, trivial⟩
  body := rfl
  bytes := by
    unfold canonicalBytes
    rw [canonicalJson_eq _ isPlain_sampleBody]
    rfl
  size := by decide
  rng _ _ := List.length_replicate
  self := rfl
  sender := rfl
  matching :=
    ⟨⟨sampleKey, sampleKey, sampleKey, rfl, decodeKey_sampleKeyText, decodeKey_sampleKeyText⟩,
      ⟨sampleKey, sampleKey, sampleKey, rfl, decodeKey_sampleKeyText, decodeKey_sampleKeyText⟩⟩
  window := by decide

theorem openClaimed_sealEnvelope_sample :
    ∃ envelope, sealEnvelope sampleEnvelopeCrypto sampleSealing = .ok envelope ∧
      validateEnvelope envelope.value = .ok envelope ∧
      (∃ hash state', openClaimed sampleEnvelopeCrypto memoryReplayStore
        { sampleOpening with envelope := envelope.value } .empty =
          (.ok (.new (normalForm sampleSealing.body) hash), state')) ∧
      validateMessageBody (normalForm sampleSealing.body) = .ok ⟨ofString "hi", none, none⟩ :=
  have h := fits_sample
  openClaimed_sealEnvelope sampleEnvelopeCrypto_correct memoryReplayStore .empty
    isFresh_memoryReplayStore sampleSealing sampleOpening _ _ sampleKeyText h.id h.source
    h.destination h.ts h.keys h.body h.bytes h.size h.rng h.self h.sender h.matching h.window

end Flashclaw.Reef
