import Flashclaw.Reef.Chain
import Flashclaw.Reef.Envelope
import Flashclaw.Reef.LogStore

/-!
# Reef: the audit log in a file

`JsonlAuditStore` of `protocol/node.ts`.
-/

namespace Flashclaw.Reef

open Utf16 Json Results

def AuditEntry.fields (entry : AuditEntry) : List (Utf16 × JsValue) :=
  [(ofString "event", entry.event.value), (ofString "prevHash", .string entry.prevHash),
    (ofString "entryHash", .string entry.entryHash)]

/-- The whole number that a number is. -/
def asWhole : Number → Option ℕ
  | .negZero => some 0
  | .finite d => if d.value.isInt ∧ 0 ≤ d.value then some d.value.num.toNat else none
  | _ => none

/-- The event that a value is, where its fields have their types. -/
def asEvent : JsValue → Option AuditEvent
  | .object fields => do
    let seq ← asNumber (field fields (ofString "seq")) >>= asWhole
    let ts ← asNumber (field fields (ofString "ts"))
    let type ← asString (field fields (ofString "type"))
    return ⟨seq, ts, type, field fields (ofString "payload")⟩
  | _ => none

/-- The entry that a line is. -/
def readAuditEntry : JsValue → Option AuditEntry
  | .object fields => do
    let event ← asEvent (field fields (ofString "event"))
    let prevHash ← asString (field fields (ofString "prevHash"))
    let entryHash ← asString (field fields (ofString "entryHash"))
    return ⟨event, prevHash, entryHash⟩
  | _ => none

/-- `#entries` and `#head`. -/
structure AuditLog where
  entries : List AuditEntry
  head : AuditHead

/-- A call of `appendEvent`, with the nonces that `rng` returns. -/
structure AppendEvent where
  type : Utf16
  payload : {v : JsValue // UniqueKeys v}
  ts : Number
  rng : ℕ → Bytes

/-- The head that a load takes from the entries. -/
def lastHead (entries : List AuditEntry) : AuditHead :=
  entries.getLast?.elim ⟨[], 0⟩ fun last => ⟨last.entryHash, last.event.seq⟩

namespace JsonlAudit

variable (crypto : AuditCrypto) (auditKey : Bytes)

/-- `#load`, from the records it reads. -/
def rebuild (records : List JsValue) : Except JsError AuditLog := do
  let entries ← (records.mapM readAuditEntry).elim (.error ⟨"TypeError", "not an audit entry"⟩) .ok
  let verified ← verifyChain crypto entries none none
  if ¬ verified then .error ⟨"Error", "invalid audit chain"⟩
  else
    return ⟨entries, lastHead entries⟩

end JsonlAudit

section Clean

theorem isDefined_clean (v : JsValue) : isDefined (clean v) = true := by
  cases v with
  | number n => cases n <;> rfl
  | _ => rfl

/-- What JSON keeps of a plain value is the same value. -/
theorem same_clean (v : JsValue) (h : IsPlain v) : IsPlain (clean v) ∧ Same v (clean v) := by
  unfold Same
  induction v using valueInduction with
  | undefined => exact h.elim
  | null => exact ⟨trivial, rfl⟩
  | boolean b => exact ⟨trivial, rfl⟩
  | string s => exact ⟨trivial, rfl⟩
  | number n =>
    cases n with
    | nan => cases h
    | infinity => cases h
    | negInfinity => cases h
    | negZero => exact ⟨rfl, rfl⟩
    | finite d => exact ⟨rfl, rfl⟩
  | array elements ih =>
    rw [IsPlain, isPlainElements_iff] at h
    rw [clean, cleanElements_eq, IsPlain, isPlainElements_iff, normalForm, normalForm,
      normalElements_eq, normalElements_eq, List.map_map]
    constructor
    · intro w hw
      obtain ⟨v, hv, rfl⟩ := List.mem_map.mp hw
      exact (ih v hv (h v hv)).1
    · congr 1
      exact List.map_congr_left fun v hv => (ih v hv (h v hv)).2
  | object fields ih =>
    rw [IsPlain, isPlainFields_iff] at h
    -- An undefined field is dropped on both sides; every other one is plain.
    have hfield : ∀ f ∈ fields.filter (isDefined ·.2), IsPlain (clean f.2) ∧
        normalForm f.2 = normalForm (clean f.2) := by
      intro f hf
      obtain ⟨hmem, hdefined⟩ := List.mem_filter.mp hf
      exact ih f hmem ((h.2 f hmem).resolve_left (isDefined_iff.mp hdefined))
    rw [clean, cleanFields_eq, IsPlain, isPlainFields_iff, normalForm, normalForm,
      normalFields_eq, normalFields_eq, List.map_map]
    refine ⟨⟨h.1.sublist (List.filter_sublist.map _), ?_⟩, ?_⟩
    · intro g hg
      obtain ⟨f, hf, rfl⟩ := List.mem_map.mp hg
      exact .inr (hfield f hf).1
    · have hdefined : ∀ g ∈ (fields.filter (isDefined ·.2)).map fun f => (f.1, clean f.2),
          isDefined g.2 = true := by
        intro g hg
        obtain ⟨f, -, rfl⟩ := List.mem_map.mp hg
        exact isDefined_clean f.2
      rw [List.filter_eq_self.mpr hdefined, List.map_map]
      have hmap : (fields.filter (isDefined ·.2)).map (fun f => (f.1, normalForm f.2)) =
          (fields.filter (isDefined ·.2)).map
            ((fun f => (f.1, normalForm f.2)) ∘ fun f => (f.1, clean f.2)) := by
        apply List.map_congr_left
        intro f hf
        show (f.1, normalForm f.2) = (f.1, normalForm (clean f.2))
        rw [(hfield f hf).2]
      rw [hmap]

end Clean

/-- Entries with one place in the chain, whose events are the same values. -/
structure SameEntry (e e' : AuditEntry) : Prop where
  prevHash : e'.prevHash = e.prevHash
  entryHash : e'.entryHash = e.entryHash
  seq : e'.event.seq = e.event.seq
  plain : IsPlain e'.event.value
  value : Same e.event.value e'.event.value

section Entries

variable {crypto : AuditCrypto}

theorem canonicalBytes_congr {v w : JsValue} (hv : IsPlain v) (hw : IsPlain w) (h : Same v w) :
    canonicalBytes v = canonicalBytes w := by
  unfold canonicalBytes
  rw [canonicalJson_eq v hv, canonicalJson_eq w hw, h]

/-- Events that are the same values have one hash. -/
theorem hashEntry_congr {previous : Utf16} {event event' : AuditEvent} (h : IsPlain event.value)
    (h' : IsPlain event'.value) (hsame : Same event.value event'.value) :
    hashEntry crypto previous event = hashEntry crypto previous event' := by
  unfold hashEntry hashInput
  rw [canonicalBytes_congr h h' hsame]

theorem isPlain_of_hashEntry {previous : Utf16} {event : AuditEvent} {hash : Utf16}
    (hkeys : UniqueKeys event.payload) (h : hashEntry crypto previous event = .ok hash) :
    IsPlain event.value := by
  obtain ⟨bytes, hbytes, -⟩ := map_eq_ok.mp h
  obtain ⟨_, -, hbytes⟩ := bind_eq_ok.mp hbytes
  obtain ⟨_, hevent, -⟩ := bind_eq_ok.mp hbytes
  obtain ⟨text, htext, -⟩ := map_eq_ok.mp hevent
  exact isPlain_of_canonicalJson (uniqueKeys_value hkeys) htext

/-- A payload as it is read. -/
def readPayload : JsValue → JsValue
  | .undefined => .undefined
  | v => clean v

/-- A timestamp as it is read. -/
def readTimestamp : Number → Number
  | .negZero => .finite .zero
  | n => n

def AuditEntry.asRead (entry : AuditEntry) : AuditEntry :=
  { entry with
    event := { entry.event with
      ts := readTimestamp entry.event.ts, payload := readPayload entry.event.payload } }

theorem asWhole_ofNat {n : ℕ} (h : n < 2 ^ 53) : asWhole (.finite (.ofNat n h)) = some n := by
  have hvalue : (Double.ofNat n h).value = n := rfl
  unfold asWhole
  simp only [hvalue]
  rw [if_pos ⟨by simp [Rat.isInt], Nat.cast_nonneg n⟩]
  simp

/-- An entry is read as JSON keeps it. -/
theorem readAuditEntry_clean {entry : AuditEntry} (hseq : entry.event.seq < 2 ^ 53)
    (hts : isTimestamp entry.event.ts = true) :
    readAuditEntry (clean (.object entry.fields)) = some entry.asRead := by
  obtain ⟨⟨seq, ts, type, payload⟩, prevHash, entryHash⟩ := entry
  have hnumber : clean (.number (.ofRat seq)) = .number (.finite (.ofNat seq hseq)) := by
    rw [Number.ofRat_natCast hseq]
    rfl
  have htsRead : cleanNumber ts = .number (readTimestamp ts) := by
    cases ts with
    | negZero => rfl
    | finite d => rfl
    | nan => cases hts
    | infinity => cases hts
    | negInfinity => cases hts
  have hevent : asEvent (clean (AuditEvent.value ⟨seq, ts, type, payload⟩)) =
      some ⟨seq, readTimestamp ts, type, readPayload payload⟩ := by
    have hshape : clean (AuditEvent.value ⟨seq, ts, type, payload⟩) =
        .object ((ofString "seq", clean (.number (.ofRat seq))) :: (ofString "ts", cleanNumber ts) ::
          (ofString "type", .string type) :: cleanFields [(ofString "payload", payload)]) := rfl
    rw [hshape, hnumber, htsRead]
    cases payload <;>
      (show (asWhole (.finite (.ofNat seq hseq))).bind
          (fun seq => some (AuditEvent.mk seq (readTimestamp ts) type _)) = _
       rw [asWhole_ofNat]
       rfl)
  show (asEvent (clean (AuditEvent.value ⟨seq, ts, type, payload⟩))).bind
    (fun event => some (AuditEntry.mk event prevHash entryHash)) = _
  rw [hevent]
  rfl

theorem normalFields_append (l l' : List (Utf16 × JsValue)) :
    normalFields (l ++ l') = normalFields l ++ normalFields l' := by
  simp only [normalFields_eq, List.filter_append, List.map_append]

/-- An entry as it is read is the same entry. -/
theorem sameEntry_asRead {entry : AuditEntry} (h : IsPlain entry.event.value) :
    SameEntry entry entry.asRead := by
  obtain ⟨⟨seq, ts, type, payload⟩, prevHash, entryHash⟩ := entry
  obtain ⟨hnames, hseq, hts, htype, hpayload, -⟩ := h
  have htsSame : isFinite (readTimestamp ts) = true ∧
      normalForm (.number ts) = normalForm (.number (readTimestamp ts)) := by
    have hfinite := hts.resolve_left (by simp)
    cases ts with
    | negZero => exact ⟨rfl, rfl⟩
    | finite d => exact ⟨rfl, rfl⟩
    | nan => cases hfinite
    | infinity => cases hfinite
    | negInfinity => cases hfinite
  have hpayloadSame : (readPayload payload = .undefined ∨ IsPlain (readPayload payload)) ∧
      normalFields [(ofString "payload", payload)] =
        normalFields [(ofString "payload", readPayload payload)] := by
    rcases hpayload with rfl | hpayload
    · exact ⟨.inl rfl, rfl⟩
    · obtain ⟨hplain, hsame⟩ := same_clean payload hpayload
      have hread : readPayload payload = clean payload := by
        cases payload with
        | undefined => exact hpayload.elim
        | _ => rfl
      rw [hread]
      refine ⟨.inr hplain, ?_⟩
      have hdefined : isDefined payload = true := by
        cases payload with
        | undefined => exact hpayload.elim
        | _ => rfl
      rw [normalFields_eq, normalFields_eq, List.filter_singleton, List.filter_singleton, hdefined,
        isDefined_clean]
      show [(_, normalForm payload)] = [(_, normalForm (clean payload))]
      rw [hsame]
  refine ⟨rfl, rfl, rfl, ⟨hnames, hseq, .inr htsSame.1, htype, hpayloadSame.1, trivial⟩, ?_⟩
  have htsFields : normalFields [(ofString "ts", JsValue.number ts)] =
      normalFields [(ofString "ts", JsValue.number (readTimestamp ts))] := by
    show [(_, normalForm (.number ts))] = [(_, normalForm (.number (readTimestamp ts)))]
    rw [htsSame.2]
  have hsplit : ∀ (ts : Number) (payload : JsValue),
      (AuditEvent.value ⟨seq, ts, type, payload⟩) = .object
        ([(ofString "seq", .number (.ofRat seq))] ++ ([(ofString "ts", .number ts)] ++
          ([(ofString "type", .string type)] ++ [(ofString "payload", payload)]))) := fun _ _ => rfl
  show normalForm (AuditEvent.value ⟨seq, ts, type, payload⟩) =
    normalForm (AuditEvent.value ⟨seq, readTimestamp ts, type, readPayload payload⟩)
  rw [hsplit, hsplit, normalForm, normalForm]
  simp only [normalFields_append]
  rw [htsFields, hpayloadSame.2]

end Entries

theorem isTimestamp_of_created {crypto : AuditCrypto} {type : Utf16} {payload : JsValue}
    {ts : Number} {auditKey : Bytes} {head : AuditHead} {rng : ℕ → Bytes} {entry : AuditEntry}
    (h : createAuditEntry crypto type payload ts auditKey head rng = .ok entry) :
    isTimestamp ts = true := by
  unfold createAuditEntry at h
  split_ifs at h with hvalid
  by_contra hts
  exact hvalid (.inr hts)

/-- What `createAuditEntry` returns has fields with distinct names. -/
theorem uniqueKeys_created {crypto : AuditCrypto} {type : Utf16} {payload : JsValue}
    (hkeys : UniqueKeys payload) {ts : Number} {auditKey : Bytes} {head : AuditHead}
    {rng : ℕ → Bytes} {entry : AuditEntry}
    (h : createAuditEntry crypto type payload ts auditKey head rng = .ok entry) :
    UniqueKeys entry.event.payload ∧ UniqueKeys (.object entry.fields) := by
  obtain ⟨-, encrypted, draws, hencrypted, hevent, -, -⟩ := createAuditEntry_eq_ok h
  have hpayload : UniqueKeys entry.event.payload := by
    rw [hevent]
    exact hereditary_uniqueKeys.of_encryptSensitive hkeys hencrypted
  have hnames : [ofString "event", ofString "prevHash", ofString "entryHash"].Nodup := by decide
  exact ⟨hpayload, hnames, uniqueKeys_value hpayload, trivial, trivial, trivial⟩

/-- `appendEvent` on a loaded store: the record it appends and the memory after it. -/
def JsonlAudit.perform (crypto : AuditCrypto) (auditKey : Bytes) (log : AuditLog)
    (call : AppendEvent) : Option (LogRecord × AuditLog) :=
  match h : createAuditEntry crypto call.type call.payload.val call.ts auditKey log.head call.rng with
  | .error _ => none
  | .ok entry =>
    some (⟨entry.fields, (uniqueKeys_created call.payload.property h).2⟩,
      ⟨log.entries ++ [entry], ⟨entry.entryHash, entry.event.seq⟩⟩)

/-- `JsonlAuditStore`. -/
def jsonlAuditStore (crypto : AuditCrypto) (auditKey : Bytes) : LogStore AuditLog AppendEvent where
  start := ⟨[], ⟨[], 0⟩⟩
  rebuild records := (JsonlAudit.rebuild crypto records).toOption
  perform := JsonlAudit.perform crypto auditKey

/-- The log after a crash has the same entries and the same head. -/
def RecoveredLog (m m' : AuditLog) : Prop :=
  m'.head = m.head ∧ List.Forall₂ SameEntry m.entries m'.entries

/-- The lines are read as a chain that leads to the head. -/
structure JsonlAudit.Agrees (crypto : AuditCrypto) (records : List JsValue) (m : AuditLog) :
    Prop where
  read : ∃ entries, records.mapM readAuditEntry = some entries ∧
    List.Forall₂ SameEntry m.entries entries ∧ Chained crypto [] 0 entries m.head.hash
  seq : m.head.seq = m.entries.length
  head : lastHead m.entries = m.head

section Laws

variable {crypto : AuditCrypto} {auditKey : Bytes}

theorem perform_eq_some {m m' : AuditLog} {call : AppendEvent} {record : LogRecord}
    (h : JsonlAudit.perform crypto auditKey m call = some (record, m')) :
    ∃ entry, createAuditEntry crypto call.type call.payload.val call.ts auditKey m.head call.rng =
        .ok entry ∧ record.fields = entry.fields ∧
      m' = ⟨m.entries ++ [entry], ⟨entry.entryHash, entry.event.seq⟩⟩ := by
  unfold JsonlAudit.perform at h
  split at h
  · cases h
  · rename_i entry hentry
    obtain ⟨rfl, rfl⟩ := Prod.mk.inj (Option.some.inj h)
    exact ⟨entry, hentry, rfl, rfl⟩

theorem lastHead_concat (entries : List AuditEntry) (e : AuditEntry) :
    lastHead (entries ++ [e]) = ⟨e.entryHash, e.event.seq⟩ := by
  unfold lastHead
  rw [List.getLast?_concat]
  rfl

theorem lastHead_congr {l l' : List AuditEntry} (h : List.Forall₂ SameEntry l l') :
    lastHead l' = lastHead l := by
  unfold lastHead
  rw [List.getLast?_eq_head?_reverse, List.getLast?_eq_head?_reverse]
  have hreverse := List.forall₂_reverse_iff.mpr h
  generalize l.reverse = k, l'.reverse = k' at hreverse ⊢
  cases hreverse with
  | nil => rfl
  | cons hsame _ =>
    show AuditHead.mk _ _ = AuditHead.mk _ _
    rw [hsame.entryHash, hsame.seq]

theorem sameEntry_self {l l' : List AuditEntry} (h : List.Forall₂ SameEntry l l') :
    List.Forall₂ SameEntry l' l' := by
  induction h with
  | nil => exact .nil
  | cons hsame _ ih => exact .cons ⟨rfl, rfl, rfl, hsame.plain, rfl⟩ ih

theorem jsonlAuditStore_lawful (crypto : AuditCrypto) (auditKey : Bytes) :
    (jsonlAuditStore crypto auditKey).Lawful (JsonlAudit.Agrees crypto) RecoveredLog
      fun m _ => m.head.seq + 1 < 2 ^ 53 where
  start := ⟨⟨[], rfl, .nil, rfl⟩, rfl, rfl⟩
  rebuild := by
    rintro records m ⟨⟨entries, hread, hsame, hchain⟩, hseq, hhead⟩
    have hlast : lastHead entries = m.head := (lastHead_congr hsame).trans hhead
    refine ⟨⟨entries, m.head⟩, ?_, ⟨rfl, hsame⟩,
      ⟨entries, hread, sameEntry_self hsame, hchain⟩, hseq.trans hsame.length_eq, hlast⟩
    have hverify : verifyChain crypto entries none none = .ok true := by
      unfold verifyChain
      rw [if_neg (by simp)]
      exact verifyChainSegment_eq_true.mpr ⟨m.head.hash, hchain, .inl rfl⟩
    have hok : JsonlAudit.rebuild crypto records = .ok ⟨entries, lastHead entries⟩ := by
      unfold JsonlAudit.rebuild
      rw [hread]
      exact bind_eq_ok.mpr ⟨entries, rfl, bind_eq_ok.mpr ⟨true, hverify, rfl⟩⟩
    show (JsonlAudit.rebuild crypto records).toOption = _
    rw [hok, hlast]
    rfl
  perform := by
    rintro records m call record m' ⟨⟨entries, hread, hsame, hchain⟩, hseq, hhead⟩ hbound hop
    obtain ⟨entry, hentry, hfields, rfl⟩ := perform_eq_some hop
    obtain ⟨-, encrypted, draws, -, hevent, hprev, hhash⟩ := createAuditEntry_eq_ok hentry
    have hentrySeq : entry.event.seq = m.head.seq + 1 := by rw [hevent]
    have hts : isTimestamp entry.event.ts = true := by
      rw [hevent]
      exact isTimestamp_of_created hentry
    have hplain := isPlain_of_hashEntry (uniqueKeys_created call.payload.property hentry).1 hhash
    have hsameEntry := sameEntry_asRead hplain
    have hrecord : readAuditEntry record.read = some entry.asRead := by
      unfold LogRecord.read LogRecord.value
      rw [hfields]
      exact readAuditEntry_clean (by rw [hentrySeq]; exact hbound) hts
    refine ⟨⟨entries ++ [entry.asRead], ?_, ?_, ?_⟩, ?_, lastHead_concat _ _⟩
    · rw [List.mapM_append, hread]
      simp [hrecord]
    · exact List.rel_append hsame (.cons hsameEntry .nil)
    · rw [chained_append_singleton]
      have hlength := hsame.length_eq
      refine ⟨?_, ?_, ?_, rfl⟩
      · rw [hsameEntry.prevHash, hprev]
        exact hchain
      · rw [hsameEntry.seq, hentrySeq]
        omega
      · rw [hsameEntry.prevHash, hprev, ← hashEntry_congr hplain hsameEntry.plain hsameEntry.value,
          hhash, hsameEntry.entryHash]
    · show entry.event.seq = (m.entries ++ [entry]).length
      rw [List.length_append, List.length_singleton, hentrySeq, hseq]

end Laws

end Flashclaw.Reef
