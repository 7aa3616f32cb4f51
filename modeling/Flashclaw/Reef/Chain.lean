import Flashclaw.Reef.Restore

/-!
# Reef: audit chains are tamper-evident

A chain is determined by its length and its last hash, as far as SHA-256 does
not collide on what the chain hashes.
-/

namespace Flashclaw.Reef

open Utf16 Json Results

section Hex

theorem hexDigit_facts : ∀ n < 16, hexDigitValue (hexDigit n) = some n := by decide

theorem length_hex (value : Bytes) : (hex value).length = 2 * value.length := by
  induction value with
  | nil => rfl
  | cons b value ih =>
    rw [hex, List.flatMap_cons, List.length_append, List.length_cons, ← hex, ih]
    simp
    omega

theorem hexBytes_hex (value : Bytes) : hexBytes (hex value) = value := by
  induction value with
  | nil => rfl
  | cons b value ih =>
    have hb := b.isLt
    show Utf8.byte _ :: hexBytes (hex value) = _
    rw [ih, hexDigit_facts _ (by omega), hexDigit_facts _ (by omega)]
    apply List.cons_eq_cons.mpr ⟨Fin.ext ?_, rfl⟩
    rw [Utf8.val_byte] <;> simp only [Option.getD_some] <;> omega

theorem fromHex_hex {value : Bytes} (h : value.length = 32) : fromHex (hex value) = .ok value := by
  unfold fromHex
  rw [if_pos, hexBytes_hex]
  refine ⟨by rw [length_hex, h], List.all_eq_true.mpr fun c hc => ?_⟩
  obtain ⟨b, -, hc⟩ := List.mem_flatMap.mp hc
  have hb := b.isLt
  rcases List.mem_pair.mp hc with rfl | rfl
  · rw [hexDigit_facts _ (by omega)]
    rfl
  · rw [hexDigit_facts _ (by omega)]
    rfl

theorem previousBytes_hex {value : Bytes} (h : value.length = 32) :
    previousBytes (hex value) = .ok value := by
  unfold previousBytes
  rw [if_neg, fromHex_hex h]
  apply List.ne_nil_of_length_pos
  rw [length_hex]
  omega

end Hex

section Plain

theorem isPlain_of_canonicalJson {v : JsValue} (hv : UniqueKeys v) {text : Utf16}
    (h : canonicalJson v = .ok text) : IsPlain v := by
  induction v using valueInduction generalizing text with
  | undefined => cases h
  | null => trivial
  | boolean b => trivial
  | string s => trivial
  | number n =>
    rw [canonicalJson] at h
    split_ifs at h with hn
    exact hn
  | array elements ih =>
    rw [UniqueKeys, uniqueKeysElements_iff] at hv
    rw [canonicalJson, canonicalElements_eq] at h
    obtain ⟨texts, htexts, -⟩ := bind_eq_ok.mp h
    rw [IsPlain, isPlainElements_iff]
    intro v hmem
    obtain ⟨text, htext⟩ := ok_of_mem_mapM htexts (List.mem_map_of_mem hmem)
    exact ih v hmem (hv v hmem) htext
  | object fields ih =>
    rw [UniqueKeys, uniqueKeysFields_iff] at hv
    rw [canonicalJson, sorted_canonicalFields] at h
    obtain ⟨texts, htexts, -⟩ := bind_eq_ok.mp h
    rw [IsPlain, isPlainFields_iff]
    refine ⟨hv.1, fun f hf => or_iff_not_imp_left.mpr fun hne => ?_⟩
    have hsorted : f ∈ sortedFields fields := by
      rw [sortedFields, List.mem_insertionSort]
      exact List.mem_filter.mpr ⟨hf, isDefined_iff.mpr hne⟩
    obtain ⟨text, htext⟩ := ok_of_mem_mapM htexts (List.mem_map_of_mem hsorted)
    obtain ⟨text, htext, -⟩ := map_eq_ok.mp htext
    exact ih f hf (hv.2 f hf) htext

variable {crypto : AuditCrypto} {key : Bytes} {rng : ℕ → Bytes}

/-- A property that an object has by its keys and its fields, and an array by its elements. -/
structure Hereditary (P : JsValue → Prop) : Prop where
  string : ∀ s, P (.string s)
  array : ∀ l, P (.array l) ↔ ∀ v ∈ l, P v
  object : ∀ fields : List (Utf16 × JsValue), P (.object fields) ↔
    (fields.map Prod.fst).Nodup ∧ ∀ f ∈ fields, f.2 = .undefined ∨ P f.2

theorem hereditary_isPlain : Hereditary IsPlain where
  string _ := trivial
  array l := by rw [IsPlain, isPlainElements_iff]
  object fields := by rw [IsPlain, isPlainFields_iff]

theorem hereditary_uniqueKeys : Hereditary UniqueKeys where
  string _ := trivial
  array l := by rw [UniqueKeys, uniqueKeysElements_iff]
  object fields := by
    rw [UniqueKeys, uniqueKeysFields_iff]
    refine and_congr_right fun _ => forall₂_congr fun f _ => ⟨.inr, fun h => ?_⟩
    rcases h with h | h
    · rw [h]
      trivial
    · exact h

theorem Hereditary.of_encryptText {P : JsValue → Prop} (hP : Hereditary P) {draws draws' : ℕ}
    {text : Utf16} {w : JsValue}
    (h : encryptText crypto key rng draws text = .ok (w, draws')) : P w := by
  unfold encryptText at h
  simp only at h
  split_ifs at h
  obtain ⟨rfl, -⟩ := Prod.mk.inj (Except.ok.inj h)
  rw [hP.object, List.forall_mem_singleton]
  exact ⟨List.nodup_singleton _, .inr (hP.string _)⟩

theorem Hereditary.of_encryptElements {P : JsValue → Prop} {elements output : List JsValue}
    (h : ∀ v ∈ elements, ∀ draws w draws',
      encryptSensitive crypto key rng draws v = .ok (w, draws') → P w)
    {draws draws' : ℕ}
    (houtput : encryptElements crypto key rng draws elements = .ok (output, draws')) :
    ∀ w ∈ output, P w := by
  induction elements generalizing draws draws' output with
  | nil =>
    obtain ⟨rfl, -⟩ := Prod.mk.inj (Except.ok.inj houtput)
    simp
  | cons v l ih =>
    obtain ⟨⟨first, draws₁⟩, hfirst, houtput⟩ := bind_eq_ok.mp houtput
    obtain ⟨⟨rest, draws₂⟩, hrest, houtput⟩ := bind_eq_ok.mp houtput
    obtain ⟨rfl, -⟩ := Prod.mk.inj (Except.ok.inj houtput)
    rw [List.forall_mem_cons]
    exact ⟨h v List.mem_cons_self _ _ _ hfirst,
      ih (fun w hw => h w (List.mem_cons_of_mem v hw)) hrest⟩

theorem Hereditary.of_encryptField {P : JsValue → Prop} (hP : Hereditary P) {name : Utf16}
    {child : JsValue}
    (h : P child → ∀ draws w draws',
      encryptSensitive crypto key rng draws child = .ok (w, draws') → P w)
    (hchild : child = .undefined ∨ P child) {draws draws' : ℕ} {first : JsValue}
    (hfirst : encryptField crypto key rng draws name child = .ok (first, draws')) :
    first = .undefined ∨ P first := by
  cases child with
  | string text =>
    unfold encryptField at hfirst
    split_ifs at hfirst
    · exact .inr (hP.of_encryptText hfirst)
    · obtain ⟨rfl, -⟩ := Prod.mk.inj (Except.ok.inj hfirst)
      exact .inr (hP.string text)
  | undefined =>
    obtain ⟨rfl, -⟩ := Prod.mk.inj (Except.ok.inj hfirst)
    exact .inl rfl
  | array elements => exact .inr (h (hchild.resolve_left (by simp)) _ _ _ hfirst)
  | object fields => exact .inr (h (hchild.resolve_left (by simp)) _ _ _ hfirst)
  | null => exact .inr (h (hchild.resolve_left (by simp)) _ _ _ hfirst)
  | boolean b => exact .inr (h (hchild.resolve_left (by simp)) _ _ _ hfirst)
  | number n => exact .inr (h (hchild.resolve_left (by simp)) _ _ _ hfirst)

theorem Hereditary.of_encryptFields {P : JsValue → Prop} (hP : Hereditary P)
    {fields output : List (Utf16 × JsValue)}
    (h : ∀ f ∈ fields, P f.2 → ∀ draws w draws',
      encryptSensitive crypto key rng draws f.2 = .ok (w, draws') → P w)
    (hfields : ∀ f ∈ fields, f.2 = .undefined ∨ P f.2) {draws draws' : ℕ}
    (houtput : encryptFields crypto key rng draws fields = .ok (output, draws')) :
    (output.map Prod.fst).Sublist (fields.map Prod.fst) ∧
      ∀ f ∈ output, f.2 = .undefined ∨ P f.2 := by
  induction fields generalizing draws draws' output with
  | nil =>
    obtain ⟨rfl, -⟩ := Prod.mk.inj (Except.ok.inj houtput)
    simp
  | cons f l ih =>
    obtain ⟨name, child⟩ := f
    rw [encryptFields_cons] at houtput
    obtain ⟨⟨first, draws₁⟩, hfirst, houtput⟩ := bind_eq_ok.mp houtput
    obtain ⟨⟨rest, draws₂⟩, hrest, houtput⟩ := bind_eq_ok.mp houtput
    obtain ⟨rfl, -⟩ := Prod.mk.inj (Except.ok.inj houtput)
    obtain ⟨hkeys, hplain⟩ := ih (fun g hg => h g (List.mem_cons_of_mem _ hg))
      (fun g hg => hfields g (List.mem_cons_of_mem _ hg)) hrest
    unfold assignField
    split_ifs
    · exact ⟨hkeys.cons name, hplain⟩
    · refine ⟨hkeys.cons_cons name, List.forall_mem_cons.mpr ⟨?_, hplain⟩⟩
      exact hP.of_encryptField (h _ List.mem_cons_self) (hfields _ List.mem_cons_self) hfirst

theorem Hereditary.of_encryptSensitive {P : JsValue → Prop} (hP : Hereditary P) {v w : JsValue}
    (hv : P v) {draws draws' : ℕ}
    (h : encryptSensitive crypto key rng draws v = .ok (w, draws')) : P w := by
  induction v using valueInduction generalizing draws w draws' with
  | array elements ih =>
    obtain ⟨⟨output, draws₁⟩, houtput, h⟩ := bind_eq_ok.mp h
    obtain ⟨rfl, -⟩ := Prod.mk.inj (Except.ok.inj h)
    rw [hP.array] at hv ⊢
    exact Hereditary.of_encryptElements (fun v hmem _ _ _ => ih v hmem (hv v hmem)) houtput
  | object fields ih =>
    obtain ⟨⟨output, draws₁⟩, houtput, h⟩ := bind_eq_ok.mp h
    obtain ⟨rfl, -⟩ := Prod.mk.inj (Except.ok.inj h)
    rw [hP.object] at hv ⊢
    obtain ⟨hkeys, hplain⟩ :=
      hP.of_encryptFields (fun f hf hplain _ _ _ => ih f hf hplain) hv.2 houtput
    exact ⟨hv.1.sublist hkeys, hplain⟩
  | _ =>
    obtain ⟨rfl, -⟩ := Prod.mk.inj (Except.ok.inj h)
    exact hv

end Plain

variable {crypto : AuditCrypto}

/-- Entries that continue a chain from the hash `previous` and lead it to the hash `last`. -/
def Chained (crypto : AuditCrypto) (previous : Utf16) (seq : ℕ) : List AuditEntry → Utf16 → Prop
  | [], last => last = previous
  | entry :: entries, last =>
    entry.event.seq = seq + 1 ∧ entry.prevHash = previous ∧
      hashEntry crypto previous entry.event = .ok entry.entryHash ∧
      Chained crypto entry.entryHash (seq + 1) entries last

theorem verifyChainSegment_eq_true {previous : Utf16} {seq : ℕ} {head : Option Utf16}
    {entries : List AuditEntry} :
    verifyChainSegment crypto previous seq head entries = .ok true ↔
      ∃ last, Chained crypto previous seq entries last ∧ (head = none ∨ head = some last) := by
  induction entries generalizing previous seq with
  | nil => simp [verifyChainSegment, Chained]
  | cons entry entries ih =>
    rw [verifyChainSegment]
    simp only [Chained]
    split_ifs with hlink
    · constructor
      · intro h
        cases h
      · rintro ⟨last, ⟨hseq, hprev, -⟩, -⟩
        rcases hlink with hlink | hlink
        · exact absurd hseq hlink
        · exact absurd hprev hlink
    · obtain ⟨hseq, hprev⟩ := not_or.mp hlink
      rw [not_not] at hseq hprev
      rw [bind_eq_ok]
      constructor
      · rintro ⟨hash, hhash, h⟩
        split_ifs at h with hne
        · cases h
        · obtain ⟨last, hlast, hhead⟩ := ih.mp h
          rw [not_not] at hne
          exact ⟨last, ⟨hseq, hprev, hne ▸ hhash, hlast⟩, hhead⟩
      · rintro ⟨last, ⟨-, -, hhash, hlast⟩, hhead⟩
        exact ⟨_, hhash, by rw [if_neg (not_not.mpr rfl)]; exact ih.mpr ⟨last, hlast, hhead⟩⟩

theorem chained_append_singleton {previous last : Utf16} {seq : ℕ} {entries : List AuditEntry}
    {entry : AuditEntry} :
    Chained crypto previous seq (entries ++ [entry]) last ↔
      Chained crypto previous seq entries entry.prevHash ∧
        entry.event.seq = seq + entries.length + 1 ∧
        hashEntry crypto entry.prevHash entry.event = .ok entry.entryHash ∧
        last = entry.entryHash := by
  induction entries generalizing previous seq with
  | nil =>
    simp only [List.nil_append, Chained, List.length_nil, Nat.add_zero]
    constructor
    · rintro ⟨hseq, hprev, hhash, hlast⟩
      exact ⟨hprev, hseq, hprev ▸ hhash, hlast⟩
    · rintro ⟨hprev, hseq, hhash, hlast⟩
      exact ⟨hseq, hprev, hprev ▸ hhash, hlast⟩
  | cons first entries ih =>
    simp only [List.cons_append, Chained, List.length_cons, ih]
    rw [show seq + 1 + entries.length + 1 = seq + (entries.length + 1) + 1 by omega]
    tauto

/-- The hash of a chain is empty at its start and 32 bytes later on. -/
theorem last_of_chained (hsha : ∀ bytes, (crypto.sha256 bytes).length = 32) {last : Utf16}
    {entries : List AuditEntry} (h : Chained crypto [] 0 entries last) :
    entries = [] ∧ last = [] ∨ entries ≠ [] ∧ ∃ bytes, bytes.length = 32 ∧ last = hex bytes := by
  rcases List.eq_nil_or_concat entries with rfl | ⟨entries, entry, rfl⟩
  · exact .inl ⟨rfl, h⟩
  · rw [List.concat_eq_append] at h ⊢
    obtain ⟨-, -, hhash, rfl⟩ := chained_append_singleton.mp h
    obtain ⟨bytes, -, hbytes⟩ := map_eq_ok.mp hhash
    exact .inr ⟨by simp, _, hsha bytes, hbytes.symm⟩

/-- What a chain hashes splits into the last hash and the event. -/
theorem hashInput_of_chained (hsha : ∀ bytes, (crypto.sha256 bytes).length = 32) {last : Utf16}
    {entries : List AuditEntry} (h : Chained crypto [] 0 entries last) (event : AuditEvent)
    {bytes : Bytes} (hbytes : hashInput last event = .ok bytes) :
    ∃ before eventBytes, bytes = before ++ eventBytes ∧ last = hex before ∧
      before.length = (if entries = [] then 0 else 32) ∧
      canonicalBytes event.value = .ok eventBytes := by
  obtain ⟨before, hbefore, hbytes⟩ := bind_eq_ok.mp hbytes
  obtain ⟨eventBytes, hevent, hbytes⟩ := bind_eq_ok.mp hbytes
  obtain rfl := Except.ok.inj hbytes
  rcases last_of_chained hsha h with ⟨hnil, rfl⟩ | ⟨hnil, hash, hlength, rfl⟩
  · obtain rfl := Except.ok.inj hbefore
    exact ⟨[], eventBytes, rfl, rfl, by rw [if_pos hnil]; rfl, hevent⟩
  · rw [previousBytes_hex hlength] at hbefore
    obtain rfl := Except.ok.inj hbefore
    exact ⟨hash, eventBytes, rfl, rfl, by rw [if_neg hnil, hlength], hevent⟩

/-- SHA-256 does not collide on what two entries of a list hash. -/
def CollisionFree (crypto : AuditCrypto) (entries : List AuditEntry) : Prop :=
  ∀ e ∈ entries, ∀ e' ∈ entries, ∀ bytes bytes', hashInput e.prevHash e.event = .ok bytes →
    hashInput e'.prevHash e'.event = .ok bytes' → crypto.sha256 bytes = crypto.sha256 bytes' →
    bytes = bytes'

/-- Two chains of one length with one last hash have the same events. -/
theorem same_of_chained (hsha : ∀ bytes, (crypto.sha256 bytes).length = 32)
    {l l' : List AuditEntry} {last : Utf16} (hl : Chained crypto [] 0 l last)
    (hl' : Chained crypto [] 0 l' last) (hlength : l.length = l'.length)
    (hfree : CollisionFree crypto (l ++ l')) (hkeys : ∀ e ∈ l ++ l', UniqueKeys e.event.payload) :
    List.Forall₂ (fun e e' => Same e.event.value e'.event.value) l l' := by
  -- from the last entry back: one hash of both, so one text of both events and one hash before
  induction l using List.reverseRecOn generalizing l' last with
  | nil =>
    obtain rfl := List.length_eq_zero_iff.mp hlength.symm
    exact .nil
  | append_singleton l e ih =>
    rcases List.eq_nil_or_concat l' with rfl | ⟨l', e', rfl⟩
    · simp at hlength
    rw [List.concat_eq_append] at hl' hlength hfree hkeys ⊢
    have hlength : l.length = l'.length := by simpa using hlength
    obtain ⟨hbefore, hseq, hhash, rfl⟩ := chained_append_singleton.mp hl
    obtain ⟨hbefore', hseq', hhash', hlast⟩ := chained_append_singleton.mp hl'
    obtain ⟨bytes, hbytes, hsum⟩ := map_eq_ok.mp hhash
    obtain ⟨bytes', hbytes', hsum'⟩ := map_eq_ok.mp hhash'
    have hsame : crypto.sha256 bytes = crypto.sha256 bytes' := by
      rw [← hexBytes_hex (crypto.sha256 bytes), ← hexBytes_hex (crypto.sha256 bytes'), hsum, hsum',
        hlast]
    have heq : bytes = bytes' :=
      hfree e (by simp) e' (by simp) bytes bytes' hbytes hbytes' hsame
    obtain ⟨before, event, rfl, hprev, hshort, hevent⟩ := hashInput_of_chained hsha hbefore _ hbytes
    obtain ⟨before', event', rfl, hprev', hshort', hevent'⟩ :=
      hashInput_of_chained hsha hbefore' _ hbytes'
    have hempty : l = [] ↔ l' = [] := by
      rw [← List.length_eq_zero_iff, ← List.length_eq_zero_iff, hlength]
    obtain ⟨rfl, rfl⟩ := List.append_inj heq (by rw [hshort, hshort', if_congr hempty rfl rfl])
    have hplain : ∀ e'' ∈ l ++ [e] ++ (l' ++ [e']), canonicalBytes e''.event.value = .ok event →
        IsPlain e''.event.value := by
      intro e'' hmem htext
      obtain ⟨text, htext, -⟩ := map_eq_ok.mp htext
      exact isPlain_of_canonicalJson (uniqueKeys_value (hkeys e'' hmem)) htext
    have hvalue : Same e.event.value e'.event.value :=
      same_of_canonicalBytes_eq (hplain e (by simp) hevent) (hplain e' (by simp) hevent')
        (hevent.trans hevent'.symm)
    have hrest := ih hbefore (by rw [hprev, ← hprev']; exact hbefore') hlength
      (fun a ha b hb => hfree a (by simp at ha ⊢; tauto) b (by simp at hb ⊢; tauto))
      (fun a ha => hkeys a (by simp at ha ⊢; tauto))
    exact List.rel_append hrest (.cons hvalue .nil)

/-- The entries that successive calls create from the empty head on, and the head they leave. -/
inductive Created (crypto : AuditCrypto) : List AuditEntry → AuditHead → Prop
  | empty : Created crypto [] ⟨[], 0⟩
  | append {entries : List AuditEntry} {head : AuditHead} {entry : AuditEntry}
      (type : Utf16) (payload : JsValue) (ts : Number) (auditKey : Bytes) (rng : ℕ → Bytes)
      (before : Created crypto entries head)
      (created : createAuditEntry crypto type payload ts auditKey head rng = .ok entry) :
      Created crypto (entries ++ [entry]) ⟨entry.entryHash, entry.event.seq⟩

/-- What `createAuditEntry` returns. -/
theorem createAuditEntry_eq_ok {type : Utf16} {payload : JsValue} {ts : Number} {auditKey : Bytes}
    {head : AuditHead} {rng : ℕ → Bytes} {entry : AuditEntry}
    (h : createAuditEntry crypto type payload ts auditKey head rng = .ok entry) :
    validateAuditKey auditKey = .ok () ∧
      ∃ encrypted draws, encryptSensitive crypto auditKey rng 0 payload = .ok (encrypted, draws) ∧
        entry.event = ⟨head.seq + 1, ts, type, encrypted⟩ ∧ entry.prevHash = head.hash ∧
        hashEntry crypto head.hash entry.event = .ok entry.entryHash := by
  unfold createAuditEntry at h
  split_ifs at h
  obtain ⟨_, hkey, h⟩ := bind_eq_ok.mp h
  obtain ⟨⟨encrypted, draws⟩, hencrypted, h⟩ := bind_eq_ok.mp h
  obtain ⟨hash, hhash, h⟩ := bind_eq_ok.mp h
  obtain rfl := Except.ok.inj h
  exact ⟨hkey, encrypted, draws, hencrypted, rfl, rfl, hhash⟩

theorem chained_of_created {entries : List AuditEntry} {head : AuditHead}
    (h : Created crypto entries head) :
    Chained crypto [] 0 entries head.hash ∧ head.seq = entries.length := by
  induction h with
  | empty => exact ⟨rfl, rfl⟩
  | append type payload ts auditKey rng before created ih =>
    obtain ⟨-, encrypted, draws, -, hevent, hprev, hhash⟩ := createAuditEntry_eq_ok created
    have hseq := congrArg AuditEvent.seq hevent
    simp only at hseq
    rw [chained_append_singleton, List.length_append, List.length_singleton, hprev, hseq, ih.2]
    exact ⟨⟨ih.1, by omega, hhash, rfl⟩, rfl⟩

/-- A chain as it was created verifies. -/
theorem verifyChain_of_created {entries : List AuditEntry} {head : AuditHead}
    (h : Created crypto entries head) {expected : Option Utf16} {length : Option ℕ}
    (hexpected : expected = none ∨ expected = some head.hash)
    (hlength : length = none ∨ length = some entries.length) :
    verifyChain crypto entries expected length = .ok true := by
  unfold verifyChain
  rw [if_neg (by tauto)]
  exact verifyChainSegment_eq_true.mpr ⟨head.hash, (chained_of_created h).1, hexpected⟩

theorem chained_of_verifyChain {entries : List AuditEntry} {head : Utf16} {length : ℕ}
    (h : verifyChain crypto entries (some head) (some length) = .ok true) :
    Chained crypto [] 0 entries head ∧ entries.length = length := by
  unfold verifyChain at h
  split_ifs at h with hlength
  · cases h
  obtain ⟨last, hlast, hhead⟩ := verifyChainSegment_eq_true.mp h
  obtain rfl : head = last := by simpa using hhead
  refine ⟨hlast, ?_⟩
  simp only [ne_eq, reduceCtorEq, not_false_eq_true, true_and, not_not] at hlength
  exact (Option.some.inj hlength).symm

/-- The payload of a created entry comes back if and only if it is restorable. -/
theorem decryptAuditText_created_iff (hgcm : GcmCorrect crypto) {type : Utf16} {payload : JsValue}
    (henc : NoEnc payload) {ts : Number} {auditKey : Bytes} {head : AuditHead} {rng : ℕ → Bytes}
    {entry : AuditEntry}
    (h : createAuditEntry crypto type payload ts auditKey head rng = .ok entry) :
    decryptAuditText crypto entry auditKey =
      .ok { entry with event := { entry.event with payload } } ↔ Restorable payload := by
  obtain ⟨hkey, encrypted, draws, hencrypted, hevent, -, -⟩ := createAuditEntry_eq_ok h
  rw [← decryptSensitive_eq_self_iff hgcm henc hencrypted]
  unfold decryptAuditText
  rw [hkey, hevent, bind_eq_ok]
  constructor
  · rintro ⟨_, -, h⟩
    obtain ⟨decrypted, hdecrypted, h⟩ := bind_eq_ok.mp h
    have hpayload := congrArg (fun entry : AuditEntry => entry.event.payload) (Except.ok.inj h)
    rw [hdecrypted]
    exact congrArg Except.ok hpayload
  · intro h
    exact ⟨(), rfl, bind_eq_ok.mpr ⟨payload, h, rfl⟩⟩

/-- A valid event is created. -/
theorem exists_createAuditEntry {type : Utf16} {payload : JsValue} {ts : Number} {auditKey : Bytes}
    {head : AuditHead} {rng : ℕ → Bytes} (htype : type ≠ []) (hts : isTimestamp ts = true)
    (hkey : auditKey.length = 32) (hpayload : IsPlain payload)
    (hrng : ∀ n, (rng n).length = 12)
    (hhash : head.hash = [] ∨ ∃ bytes, fromHex head.hash = .ok bytes)
    (hseq : head.seq + 1 < 2 ^ 53) :
    ∃ entry, createAuditEntry crypto type payload ts auditKey head rng = .ok entry := by
  obtain ⟨⟨encrypted, draws⟩, hencrypted⟩ :
      ∃ w, encryptSensitive crypto auditKey rng 0 payload = .ok w :=
    exists_encryptSensitive hrng payload 0
  have hfinite : isFinite ts = true := by
    cases ts with
    | negZero => rfl
    | finite d => rfl
    | nan => cases hts
    | infinity => cases hts
    | negInfinity => cases hts
  have hnames : [ofString "seq", ofString "ts", ofString "type", ofString "payload"].Nodup := by
    decide
  have hseqFinite : isFinite (.ofRat (head.seq + 1 : ℕ)) = true := by
    rw [Number.ofRat_natCast hseq]
    rfl
  have hplain : IsPlain (AuditEvent.value ⟨head.seq + 1, ts, type, encrypted⟩) :=
    ⟨hnames, .inr hseqFinite, .inr hfinite, .inr trivial,
      .inr (hereditary_isPlain.of_encryptSensitive hpayload hencrypted), trivial⟩
  obtain ⟨before, hbefore⟩ : ∃ bytes, previousBytes head.hash = .ok bytes := by
    unfold previousBytes
    split_ifs with hnil
    · exact ⟨_, rfl⟩
    · exact hhash.resolve_left hnil
  have hevent : ∃ bytes, hashInput head.hash ⟨head.seq + 1, ts, type, encrypted⟩ = .ok bytes := by
    unfold hashInput canonicalBytes
    rw [hbefore, canonicalJson_eq _ hplain]
    exact ⟨_, rfl⟩
  obtain ⟨bytes, hbytes⟩ := hevent
  refine ⟨⟨⟨head.seq + 1, ts, type, encrypted⟩, head.hash, hex (crypto.sha256 bytes)⟩, ?_⟩
  unfold createAuditEntry validateAuditKey hashEntry
  rw [if_neg (by simp [htype, hts]), if_pos hkey, hencrypted]
  simp only [bind, Except.bind, hbytes]
  rfl

/-- A chain verifies as it was created, no other verifies in its place, and its payloads come back
as far as they are restorable. -/
theorem auditChains (hgcm : GcmCorrect crypto) (hsha : ∀ bytes, (crypto.sha256 bytes).length = 32) :
    (∀ entries head, Created crypto entries head → ∀ expected length,
      expected = none ∨ expected = some head.hash → length = none ∨ length = some entries.length →
      verifyChain crypto entries expected length = .ok true) ∧
    (∀ entries entries' head length, CollisionFree crypto (entries ++ entries') →
      (∀ e ∈ entries ++ entries', UniqueKeys e.event.payload) →
      verifyChain crypto entries (some head) (some length) = .ok true →
      verifyChain crypto entries' (some head) (some length) = .ok true →
      List.Forall₂ (fun e e' => Same e.event.value e'.event.value) entries entries') ∧
    (∀ type payload ts auditKey head rng entry, NoEnc payload →
      createAuditEntry crypto type payload ts auditKey head rng = .ok entry →
      (decryptAuditText crypto entry auditKey =
        .ok { entry with event := { entry.event with payload } } ↔ Restorable payload)) := by
  refine ⟨fun entries head h expected length hexpected hlength =>
    verifyChain_of_created h hexpected hlength, ?_,
    fun type payload ts auditKey head rng entry henc h => decryptAuditText_created_iff hgcm henc h⟩
  intro entries entries' head length hfree hkeys h h'
  obtain ⟨hchain, hlength⟩ := chained_of_verifyChain h
  obtain ⟨hchain', hlength'⟩ := chained_of_verifyChain h'
  exact same_of_chained hsha hchain hchain' (hlength.trans hlength'.symm) hfree hkeys

def sampleKey : Bytes := List.replicate 32 0

def sampleNonce (_ : ℕ) : Bytes := List.replicate 12 0

/-- What AES-GCM makes of `hi` with the sample key and nonce. -/
def sampleCiphertext : Bytes :=
  [166, 206, 173, 20, 92, 239, 62, 158, 235, 40, 248, 218, 2, 57, 174, 245, 56, 229]

/-- The SHA-256 digest of the entry with the text `hi`. -/
def sampleDigest : Bytes :=
  [54, 160, 187, 19, 222, 103, 98, 189, 91, 167, 171, 171, 10, 188, 244, 187, 225, 249, 236, 151,
    239, 103, 117, 169, 145, 36, 230, 137, 168, 113, 89, 39]

def sampleCrypto : AuditCrypto where
  sha256 _ := sampleDigest
  encrypt _ _ plaintext :=
    if plaintext = utf8 (ofString "hi") then sampleCiphertext
    else plaintext ++ List.replicate 16 0
  decrypt _ _ ciphertext :=
    if ciphertext = sampleCiphertext then .ok (utf8 (ofString "hi"))
    else .ok (ciphertext.take (ciphertext.length - 16))

theorem sampleCrypto_encrypt (key nonce plaintext : Bytes) :
    sampleCrypto.encrypt key nonce plaintext =
      if plaintext = utf8 (ofString "hi") then sampleCiphertext
      else plaintext ++ List.replicate 16 0 :=
  rfl

theorem sampleCrypto_decrypt (key nonce ciphertext : Bytes) :
    sampleCrypto.decrypt key nonce ciphertext =
      if ciphertext = sampleCiphertext then .ok (utf8 (ofString "hi"))
      else .ok (ciphertext.take (ciphertext.length - 16)) :=
  rfl

theorem sampleCrypto_gcm : GcmCorrect sampleCrypto where
  decrypt key nonce plaintext := by
    rw [sampleCrypto_encrypt, sampleCrypto_decrypt]
    by_cases hp : plaintext = utf8 (ofString "hi")
    · rw [if_pos hp, if_pos rfl, hp]
    · have hne : plaintext ++ List.replicate 16 (0 : Byte) ≠ sampleCiphertext := by
        intro h
        have hlast := congrArg List.getLast? h
        rw [List.getLast?_append] at hlast
        simp [sampleCiphertext] at hlast
      rw [if_neg hp, if_neg hne]
      simp
  length key nonce plaintext := by
    rw [sampleCrypto_encrypt]
    by_cases hp : plaintext = utf8 (ofString "hi")
    · rw [if_pos hp, hp]
      rfl
    · rw [if_neg hp]
      simp

def samplePayload (text : Utf16) : JsValue := .object [(ofString "text", .string text)]

theorem exists_sampleEntry (text : Utf16) :
    ∃ entry, createAuditEntry sampleCrypto (ofString "read") (samplePayload text) (.finite .zero)
      sampleKey ⟨[], 0⟩ sampleNonce = .ok entry := by
  have htype : ofString "read" ≠ [] := by decide
  have hts : isTimestamp (.finite .zero) = true := by decide
  exact exists_createAuditEntry htype hts rfl
    ⟨List.nodup_singleton _, .inr trivial, trivial⟩ (fun _ => rfl) (.inl rfl) (by norm_num)

theorem noEnc_samplePayload (text : Utf16) : NoEnc (samplePayload text) := by
  unfold NoEnc samplePayload
  rw [everyField_object, List.forall_mem_singleton]
  refine ⟨fun _ fields h => ?_, trivial⟩
  cases h

/-- The SHA-256 digest of the second such entry, behind the digest of the first one. -/
def secondDigest : Bytes :=
  [229, 176, 213, 88, 97, 212, 114, 41, 190, 94, 177, 183, 27, 164, 185, 223, 24, 104, 47, 34, 8,
    170, 204, 212, 75, 168, 159, 99, 213, 242, 119, 22]

/-- SHA-256 as it is on two entries with the text `hi`. -/
def chainCrypto : AuditCrypto :=
  { sampleCrypto with
    sha256 := fun bytes => if bytes.take 32 = sampleDigest then secondDigest else sampleDigest }

theorem chainCrypto_sha256 (bytes : Bytes) : chainCrypto.sha256 bytes =
    if bytes.take 32 = sampleDigest then secondDigest else sampleDigest := rfl

theorem chainCrypto_length (bytes : Bytes) : (chainCrypto.sha256 bytes).length = 32 := by
  rw [chainCrypto_sha256]
  split_ifs <;> rfl

/-- The entry with a field more that is not defined. -/
def withNote (entry : AuditEntry) : AuditEntry :=
  { entry with
    event :=
      { entry.event with
        payload :=
          match entry.event.payload with
          | .object fields => .object (fields ++ [(ofString "note", .undefined)])
          | payload => payload } }

/-- An entry that `createAuditEntry` makes of the text `hi`. -/
def IsSampleEntry (head : AuditHead) (entry : AuditEntry) : Prop :=
  createAuditEntry chainCrypto (ofString "read") (samplePayload (ofString "hi")) (.finite .zero)
    sampleKey head sampleNonce = .ok entry

theorem exists_isSampleEntry {head : AuditHead}
    (hhash : head.hash = [] ∨ ∃ bytes, fromHex head.hash = .ok bytes) (hseq : head.seq + 1 < 2 ^ 53) :
    ∃ entry, IsSampleEntry head entry :=
  exists_createAuditEntry (by decide) (by decide) rfl
    ⟨List.nodup_singleton _, .inr trivial, trivial⟩ (fun _ => rfl) hhash hseq

/-- What such an entry hashes. -/
theorem IsSampleEntry.spec {head : AuditHead} {entry : AuditEntry} (h : IsSampleEntry head entry) :
    UniqueKeys entry.event.payload ∧ UniqueKeys (withNote entry).event.payload ∧
      withNote entry ≠ entry ∧ entry.prevHash = head.hash ∧ entry.event.seq = head.seq + 1 ∧
      hashEntry chainCrypto head.hash entry.event = .ok entry.entryHash ∧
      ∀ previous, hashInput previous (withNote entry).event = hashInput previous entry.event := by
  obtain ⟨-, encrypted, draws, hencrypted, hevent, hprev, hhash⟩ := createAuditEntry_eq_ok h
  obtain ⟨rfl, -⟩ := Prod.mk.inj (Except.ok.inj hencrypted)
  obtain ⟨event, prevHash, entryHash⟩ := entry
  obtain rfl : event = _ := hevent
  refine ⟨⟨List.nodup_singleton _, ⟨List.nodup_singleton _, trivial, trivial⟩, trivial⟩, ?_, ?_,
    hprev, rfl, hhash, fun _ => rfl⟩
  · exact ⟨by decide, ⟨List.nodup_singleton _, trivial, trivial⟩, trivial, trivial⟩
  · intro heq
    have hfields := congrArg (fun e : AuditEntry => e.event.payload) heq
    exact absurd (congrArg List.length (JsValue.object.inj hfields)) (by decide)

/-- What an entry hashes starts with the digest before it, and the text of a first one with a brace. -/
theorem head_of_hashInput {event : AuditEvent} {bytes : Bytes} (h : hashInput [] event = .ok bytes) :
    bytes.head? = some 123 := by
  obtain ⟨before, hbefore, h⟩ := bind_eq_ok.mp h
  obtain ⟨eventBytes, hevent, h⟩ := bind_eq_ok.mp h
  obtain rfl := Except.ok.inj hbefore
  obtain rfl := Except.ok.inj h
  obtain ⟨text, htext, rfl⟩ := map_eq_ok.mp hevent
  rw [AuditEvent.value, canonicalJson] at htext
  obtain ⟨entries, -, htext⟩ := bind_eq_ok.mp htext
  obtain rfl := Except.ok.inj htext
  rw [List.nil_append, utf8, Utf8.encode_cons_ascii (by decide)]
  rfl

theorem take_of_hashInput {digest bytes : Bytes} (hlength : digest.length = 32) {event : AuditEvent}
    (h : hashInput (hex digest) event = .ok bytes) : bytes.take 32 = digest := by
  obtain ⟨before, hbefore, h⟩ := bind_eq_ok.mp h
  obtain ⟨eventBytes, -, h⟩ := bind_eq_ok.mp h
  rw [previousBytes_hex hlength] at hbefore
  obtain rfl := Except.ok.inj hbefore
  obtain rfl := Except.ok.inj h
  exact List.take_left' hlength

/-- A chain of two entries verifies, also with a field more that is not defined, and comes back. -/
theorem auditChains_sample :
    ∃ first second, IsSampleEntry ⟨[], 0⟩ first ∧
      IsSampleEntry ⟨first.entryHash, first.event.seq⟩ second ∧
      verifyChain chainCrypto [first, second] (some second.entryHash) (some 2) = .ok true ∧
      withNote first ≠ first ∧
      List.Forall₂ (fun e e' => Same e.event.value e'.event.value) [first, second]
        [withNote first, second] ∧
      decryptAuditText chainCrypto second sampleKey =
        .ok { second with
          event := { second.event with payload := samplePayload (ofString "hi") } } := by
  have hgcm : GcmCorrect chainCrypto := ⟨sampleCrypto_gcm.decrypt, sampleCrypto_gcm.length⟩
  obtain ⟨hverify, htamper, hrestore⟩ := auditChains hgcm chainCrypto_length
  obtain ⟨first, hfirst⟩ := @exists_isSampleEntry ⟨[], 0⟩ (.inl rfl) (by norm_num)
  obtain ⟨hkeys₁, hkeysNote, hne, hprev₁, hseq₁, hhash₁, hnote⟩ := hfirst.spec
  obtain ⟨bytes₁, hbytes₁, hsum₁⟩ := map_eq_ok.mp hhash₁
  have hsha₁ : chainCrypto.sha256 bytes₁ = sampleDigest := by
    rw [chainCrypto_sha256, if_neg]
    intro htake
    have hhead := congrArg List.head? htake
    rw [List.head?_take, if_neg (by decide), head_of_hashInput hbytes₁] at hhead
    cases hhead
  rw [hsha₁] at hsum₁
  obtain ⟨second, hsecond⟩ := @exists_isSampleEntry ⟨first.entryHash, first.event.seq⟩
    (.inr ⟨_, hsum₁ ▸ fromHex_hex rfl⟩) (by rw [hseq₁]; norm_num)
  obtain ⟨hkeys₂, -, -, hprev₂, hseq₂, hhash₂, -⟩ := hsecond.spec
  obtain ⟨bytes₂, hbytes₂, -⟩ := map_eq_ok.mp hhash₂
  have hsha₂ : chainCrypto.sha256 bytes₂ = secondDigest := by
    rw [chainCrypto_sha256, if_pos]
    exact take_of_hashInput rfl (hsum₁ ▸ hbytes₂)
  have hchain := hverify [first, second] _ (.append _ _ _ _ _ (.append _ _ _ _ _ .empty hfirst)
    hsecond) (some second.entryHash) (some 2) (.inr rfl) (.inr rfl)
  have hchain' : verifyChain chainCrypto [withNote first, second] (some second.entryHash) (some 2) =
      .ok true := by
    obtain ⟨⟨-, -, -, hrest⟩, -⟩ := chained_of_verifyChain hchain
    apply verifyChainSegment_eq_true.mpr
    refine ⟨second.entryHash, ⟨hseq₁, hprev₁, ?_, hrest⟩, .inr rfl⟩
    rw [hashEntry, hnote]
    exact hhash₁
  have hinputs : ∀ e ∈ [first, second] ++ [withNote first, second], ∀ bytes,
      hashInput e.prevHash e.event = .ok bytes → bytes = bytes₁ ∨ bytes = bytes₂ := by
    intro e he bytes hbytes
    simp only [List.cons_append, List.nil_append, List.mem_cons, List.not_mem_nil, or_false] at he
    have hof : ∀ {head expected}, hashInput head e.event = .ok expected → e.prevHash = head →
        bytes = expected := by
      intro head expected hexpected hhead
      rw [hhead, hexpected] at hbytes
      exact (Except.ok.inj hbytes).symm
    rcases he with rfl | rfl | rfl | rfl
    · exact .inl (hof hbytes₁ hprev₁)
    · exact .inr (hof hbytes₂ hprev₂)
    · exact .inl (hof ((hnote []).trans hbytes₁) hprev₁)
    · exact .inr (hof hbytes₂ hprev₂)
  refine ⟨first, second, hfirst, hsecond, hchain, hne,
    htamper [first, second] [withNote first, second] second.entryHash 2 ?_ ?_ hchain hchain', ?_⟩
  · intro e he e' he' bytes bytes' hb hb' hsame
    rcases hinputs e he bytes hb with rfl | rfl
    · rcases hinputs e' he' bytes' hb' with rfl | rfl
      · rfl
      · exact absurd (hsha₁.symm.trans (hsame.trans hsha₂)) (by decide)
    · rcases hinputs e' he' bytes' hb' with rfl | rfl
      · exact absurd (hsha₂.symm.trans (hsame.trans hsha₁)) (by decide)
      · rfl
  · simp only [List.cons_append, List.nil_append, List.forall_mem_cons]
    exact ⟨hkeys₁, hkeys₂, hkeysNote, hkeys₂, List.forall_mem_nil _⟩
  · apply (hrestore _ _ _ _ _ _ _ (noEnc_samplePayload _) hsecond).mpr
    unfold Restorable NoProto TextsSurvive samplePayload
    rw [everyField_object, everyField_object, List.forall_mem_singleton, List.forall_mem_singleton]
    refine ⟨⟨?_, trivial⟩, ⟨?_, trivial⟩⟩
    · show ofString "text" ≠ ofString "__proto__"
      decide
    · intro _ text htext
      obtain rfl := JsValue.string.inj htext
      decide

/-- A text that starts with a byte order mark comes back without it. -/
theorem decryptAuditText_differs :
    GcmCorrect sampleCrypto ∧ NoEnc (samplePayload (0xFEFF :: ofString "hi")) ∧
      IsPlain (samplePayload (0xFEFF :: ofString "hi")) ∧
      ∃ entry, createAuditEntry sampleCrypto (ofString "read")
          (samplePayload (0xFEFF :: ofString "hi")) (.finite .zero) sampleKey ⟨[], 0⟩ sampleNonce =
            .ok entry ∧ CollisionFree sampleCrypto [entry] ∧
        decryptAuditText sampleCrypto entry sampleKey ≠
          .ok { entry with
            event := { entry.event with payload := samplePayload (0xFEFF :: ofString "hi") } } := by
  refine ⟨sampleCrypto_gcm, noEnc_samplePayload _, ⟨List.nodup_singleton _, .inr trivial, trivial⟩,
    ?_⟩
  obtain ⟨entry, h⟩ := exists_sampleEntry (0xFEFF :: ofString "hi")
  refine ⟨entry, h, ?_, ?_⟩
  · intro e he e' he' bytes bytes' hb hb' _
    rw [List.mem_singleton] at he he'
    subst he he'
    exact Except.ok.inj (hb.symm.trans hb')
  · intro hsame
    have hback := (decryptAuditText_created_iff sampleCrypto_gcm (noEnc_samplePayload _) h).mp hsame
    have htexts := hback.2
    unfold TextsSurvive samplePayload at htexts
    rw [everyField_object, List.forall_mem_singleton] at htexts
    exact (htexts.1 rfl _ rfl).2 rfl

end Flashclaw.Reef
