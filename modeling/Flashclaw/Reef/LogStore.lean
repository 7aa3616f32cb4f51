import Flashclaw.Lib.Transition
import Flashclaw.Reef.Jsonl

/-!
# Reef: stores that keep a log

What `FileReplayStore` and `JsonlAuditStore` share: a file of records, a memory
that the first operation loads from it, operations that append a record before
the memory changes, and crashes that cut an append after any of its bytes.
-/

namespace Flashclaw.Reef

open Utf16

/-- A store by what it makes of the records it reads and by what its operations append. -/
structure LogStore (σ Op : Type) where
  start : σ
  /-- The memory that `#load` builds, if it does not throw. -/
  rebuild : List JsValue → Option σ
  /-- The record an operation appends and the memory after it, if it appends one. -/
  perform : σ → Op → Option (LogRecord × σ)

/-- An append of which some bytes were written. -/
structure Append where
  record : LogRecord
  written : ℕ

namespace Append

/-- The JSON of the record was fully written. -/
def isWhole (append : Append) : Bool := (utf8 append.record.text).length ≤ append.written

/-- The append completed. -/
def isComplete (append : Append) : Bool := (utf8 append.record.line).length ≤ append.written

end Append

structure LogState (σ : Type) where
  file : Bytes
  /-- None while the store is not loaded. -/
  memory : Option σ
  /-- The appends until now. -/
  history : List Append
  /-- The memory as it is or was before the crash, with a record whose JSON the crash left whole. -/
  latest : σ

inductive LogLabel (Op : Type) where
  | call (op : Op)
  /-- The process crashes after some bytes of the line of an operation are written. -/
  | cut (op : Op) (written : ℕ)
  /-- The process ends between two operations. -/
  | reopen

namespace LogStore

variable {σ Op : Type} (store : LogStore σ Op)

/-- `#load`: the state it leaves, and the memory if it does not throw. -/
def load (s : LogState σ) : LogState σ × Option σ :=
  match s.memory with
  | some m => (s, some m)
  | none =>
    match readJsonl s.file with
    | .error _ => (s, none)
    | .ok (records, file) =>
      match store.rebuild records with
      | none => ({ s with file }, none)
      | some m => ({ s with file, memory := some m, latest := m }, some m)

/-- The memory an operation finds, the record it appends and the memory after it. -/
def appends (s : LogState σ) (op : Op) : Option (σ × LogRecord × σ) :=
  (store.load s).2.bind fun m => (store.perform m op).map fun r => (m, r)

def step (s : LogState σ) : LogLabel Op → Option (LogState σ)
  | .call op =>
    let loaded := (store.load s).1
    match store.appends s op with
    | none => some loaded
    | some (_, record, m) =>
      some ⟨appendDurably loaded.file record.line, some m,
        loaded.history ++ [⟨record, (utf8 record.line).length⟩], m⟩
  | .cut op written =>
    let loaded := (store.load s).1
    match store.appends s op with
    | none => none
    | some (before, record, m) =>
      if written ≤ (utf8 record.line).length then
        some ⟨loaded.file ++ (utf8 record.line).take written, none,
          loaded.history ++ [⟨record, written⟩],
          if Append.isWhole ⟨record, written⟩ then m else before⟩
      else none
  | .reopen => some { s with memory := none }

/-- The store and its crashes, from a file without records on. -/
def system : TransitionSystem (LogState σ) (LogLabel Op) where
  start := ⟨[], none, [], store.start⟩
  step := store.step

/-- The records are those whose append completed, and with them some whose JSON was written. -/
def Survives (history : List Append) (records : List JsValue) : Prop :=
  ∃ kept : List Append, (history.filter Append.isComplete).Sublist kept ∧
    kept.Sublist (history.filter Append.isWhole) ∧ records = kept.map fun a => a.record.read

/-- The next load succeeds with the records that survive, and recovers the memory. -/
def Intact (Recovered : σ → σ → Prop) (s : LogState σ) : Prop :=
  ∃ records file m, readJsonl s.file = .ok (records, file) ∧ Survives s.history records ∧
    store.rebuild records = some m ∧ Recovered s.latest m

/-- An empty file, or one that ends in a newline. -/
def isTerminated (file : Bytes) : Bool := file.getLast?.all (· = 0x0A)

/-- No record is appended to a file that does not end in a newline, and none is appended by an
operation that `admits` leaves out. -/
def Protected (admits : σ → Op → Prop) (s : LogState σ) : LogLabel Op → Prop
  | .call op => ∀ m record m', store.appends s op = some (m, record, m') →
    isTerminated (store.load s).1.file = true ∧ admits m op
  | .cut op written => ∀ m record m', store.appends s op = some (m, record, m') → 0 < written →
    isTerminated (store.load s).1.file = true ∧ admits m op
  | .reopen => True

/-- What the memory and the records have in common, and what operations keep of it. -/
structure Lawful (Agrees : List JsValue → σ → Prop) (Recovered : σ → σ → Prop)
    (admits : σ → Op → Prop) : Prop where
  start : Agrees [] store.start
  rebuild : ∀ records m, Agrees records m →
    ∃ m', store.rebuild records = some m' ∧ Recovered m m' ∧ Agrees records m'
  perform : ∀ records m op record m', Agrees records m → admits m op →
    store.perform m op = some (record, m') → Agrees (records ++ [record.read]) m'

/-- The file holds the records, the last one maybe without its newline. -/
inductive Holds : List LogRecord → Bytes → Prop
  | whole (records : List LogRecord) : Holds records (logBytes records)
  | unterminated (records : List LogRecord) (record : LogRecord) :
      Holds (records ++ [record]) (logBytes records ++ utf8 record.text)

/-- The records whose JSON was fully written. -/
def whole (history : List Append) : List LogRecord := (history.filter Append.isWhole).map Append.record

structure Inv (Agrees : List JsValue → σ → Prop) (s : LogState σ) : Prop where
  file : Holds (whole s.history) s.file ∨ s.memory = none ∧ ∃ (record : LogRecord) (written : ℕ),
    written < (utf8 record.text).length ∧
      s.file = logBytes (whole s.history) ++ (utf8 record.text).take written
  agrees : Agrees ((whole s.history).map LogRecord.read) s.latest
  memory : ∀ m, s.memory = some m → m = s.latest

section Files

theorem Holds.readJsonl {records : List LogRecord} {file : Bytes} (h : Holds records file) :
    Reef.readJsonl file = .ok (records.map LogRecord.read, file) := by
  cases h with
  | whole => exact readJsonl_whole records
  | unterminated records record => exact readJsonl_unterminated records record

theorem newline_not_mem_utf8_text (record : LogRecord) : (0x0A : Byte) ∉ utf8 record.text := by
  intro h
  exact newline_not_mem_text record (Utf8.mem_of_mem_encode (by decide) h)

theorem utf8_text_ne_nil (record : LogRecord) : utf8 record.text ≠ [] := by
  intro h
  have hdecode := Utf8.decodeLossy_encode (Json.isWellFormed_render record.value)
  rw [show Utf8.encode (Json.render record.value) = [] from h] at hdecode
  exact text_ne_nil record hdecode.symm

/-- A file that ends in a newline holds whole lines. -/
theorem Holds.eq_logBytes {records : List LogRecord} {file : Bytes} (h : Holds records file)
    (hterminated : isTerminated file = true) : file = logBytes records := by
  cases h with
  | whole => rfl
  | unterminated records record =>
    exfalso
    obtain ⟨b, hb⟩ := Option.ne_none_iff_exists'.mp
      (mt List.getLast?_eq_none_iff.mp (utf8_text_ne_nil record))
    unfold isTerminated at hterminated
    rw [List.getLast?_append, hb] at hterminated
    simp only [Option.some_or, Option.all_some, decide_eq_true_eq] at hterminated
    rw [hterminated] at hb
    exact newline_not_mem_utf8_text record (List.mem_of_getLast? hb)

end Files

section Loads

variable {store} {Agrees : List JsValue → σ → Prop} {Recovered : σ → σ → Prop}
  {admits : σ → Op → Prop} {s : LogState σ}

/-- What is read is what was fully written. -/
theorem Inv.readJsonl (h : Inv Agrees s) :
    ∃ file, Reef.readJsonl s.file = .ok ((whole s.history).map LogRecord.read, file) ∧
      Holds (whole s.history) file := by
  rcases h.file with hholds | ⟨-, record, written, hwritten, hfile⟩
  · exact ⟨s.file, hholds.readJsonl, hholds⟩
  · rw [hfile]
    exact ⟨_, readJsonl_torn _ record hwritten, .whole _⟩

/-- What a load gives. -/
structure Loads (store : LogStore σ Op) (Agrees : List JsValue → σ → Prop) (s : LogState σ)
    (m : σ) : Prop where
  memory : (store.load s).2 = some m
  inv : Inv Agrees (store.load s).1
  history : (store.load s).1.history = s.history
  latest : (store.load s).1.latest = m
  holds : Holds (whole s.history) (store.load s).1.file

theorem Inv.loads (law : store.Lawful Agrees Recovered admits) (h : Inv Agrees s) :
    ∃ m, Loads store Agrees s m ∧ (s.memory = none → Recovered s.latest m) ∧
      ∀ m', s.memory = some m' → m' = m := by
  cases hmemory : s.memory with
  | some m =>
    have hload : store.load s = (s, some m) := by
      unfold load
      rw [hmemory]
    have hholds : Holds (whole s.history) s.file := by
      rcases h.file with hholds | ⟨hnone, -⟩
      · exact hholds
      · rw [hmemory] at hnone
        cases hnone
    have hlatest := h.memory m hmemory
    refine ⟨m, ⟨?_, ?_, ?_, ?_, ?_⟩, ?_, fun m' hm' => (Option.some.inj hm').symm⟩
    · rw [hload]
    · rw [hload]
      exact h
    · rw [hload]
    · rw [hload]
      exact hlatest.symm
    · rw [hload]
      exact hholds
    · intro hnone
      cases hnone
  | none =>
    obtain ⟨file, hread, hholds⟩ := h.readJsonl
    obtain ⟨m, hrebuild, hrecovered, hagrees⟩ := law.rebuild _ _ h.agrees
    have hload : store.load s = ({ s with file, memory := some m, latest := m }, some m) := by
      unfold load
      rw [hmemory]
      simp only [hread, hrebuild]
    refine ⟨m, ⟨?_, ?_, ?_, ?_, ?_⟩, fun _ => hrecovered, fun m' hm' => by cases hm'⟩
    · rw [hload]
    · rw [hload]
      exact ⟨.inl hholds, hagrees, fun m' hm' => (Option.some.inj hm').symm⟩
    · rw [hload]
    · rw [hload]
    · rw [hload]
      exact hholds

/-- In a state that satisfies the invariant the next load gives what it should. -/
theorem Inv.intact (law : store.Lawful Agrees Recovered admits) (h : Inv Agrees s) :
    store.Intact Recovered s := by
  obtain ⟨file, hread, -⟩ := h.readJsonl
  obtain ⟨m, hrebuild, hrecovered, -⟩ := law.rebuild _ _ h.agrees
  refine ⟨_, file, m, hread, ⟨s.history.filter Append.isWhole, ?_, List.Sublist.refl _, ?_⟩,
    hrebuild, hrecovered⟩
  · apply List.monotone_filter_right
    intro a ha
    have hlength : (utf8 a.record.line).length = (utf8 a.record.text).length + 1 := by
      rw [utf8_line, List.length_append, List.length_singleton]
    simp only [Append.isComplete, Append.isWhole, decide_eq_true_eq] at ha ⊢
    omega
  · rw [whole, List.map_map]
    rfl

theorem inv_start (law : store.Lawful Agrees Recovered admits) :
    Inv Agrees store.system.start :=
  ⟨.inl (.whole []), law.start, fun _ h => by cases h⟩

theorem whole_concat (history : List Append) (append : Append) :
    whole (history ++ [append]) =
      whole history ++ if append.isWhole then [append.record] else [] := by
  unfold whole
  rw [List.filter_append, List.map_append]
  congr 1
  split_ifs with h
  · rw [List.filter_singleton, h]
    rfl
  · rw [List.filter_singleton, Bool.eq_false_of_not_eq_true h]
    rfl

/-- What an admitted append makes of the file and the records. -/
structure Appends (store : LogStore σ Op) (Agrees : List JsValue → σ → Prop) (s : LogState σ)
    (record : LogRecord) (m m' : σ) : Prop where
  loads : Loads store Agrees s m
  file : (store.load s).1.file = logBytes (whole s.history)
  agrees : Agrees ((whole s.history ++ [record]).map LogRecord.read) m'

theorem Inv.appends (law : store.Lawful Agrees Recovered admits) (h : Inv Agrees s) {op : Op}
    {m m' : σ} {record : LogRecord} (happends : store.appends s op = some (m, record, m'))
    (hok : isTerminated (store.load s).1.file = true ∧ admits m op) :
    Appends store Agrees s record m m' := by
  obtain ⟨m₀, hloads, -, -⟩ := h.loads law
  unfold LogStore.appends at happends
  rw [hloads.memory, Option.bind_some, Option.map_eq_some_iff] at happends
  obtain ⟨⟨record', m₁⟩, hperform, heq⟩ := happends
  obtain ⟨rfl, rfl, rfl⟩ : m₀ = m ∧ record' = record ∧ m₁ = m' := by simpa using heq
  refine ⟨hloads, hloads.holds.eq_logBytes hok.1, ?_⟩
  have hagrees := hloads.inv.agrees
  rw [hloads.history, hloads.latest] at hagrees
  rw [List.map_append]
  exact law.perform _ _ _ _ _ hagrees hok.2 hperform

/-- An append that was cut after some bytes. -/
theorem holds_cut (records : List LogRecord) (record : LogRecord) {written : ℕ}
    (h : written ≤ (utf8 record.line).length)
    (hwhole : Append.isWhole ⟨record, written⟩ = true) :
    Holds (records ++ [record]) (logBytes records ++ (utf8 record.line).take written) := by
  have hlength : (utf8 record.line).length = (utf8 record.text).length + 1 := by
    rw [utf8_line, List.length_append, List.length_singleton]
  simp only [Append.isWhole, decide_eq_true_eq] at hwhole
  rcases Nat.lt_or_ge written ((utf8 record.text).length + 1) with hlt | hge
  · obtain rfl : written = (utf8 record.text).length := by omega
    rw [utf8_line, List.take_left]
    exact .unterminated records record
  · obtain rfl : written = (utf8 record.line).length := by omega
    rw [List.take_length, ← logBytes_concat]
    exact .whole _

theorem take_utf8_line (record : LogRecord) {written : ℕ}
    (h : written < (utf8 record.text).length) :
    (utf8 record.line).take written = (utf8 record.text).take written := by
  rw [utf8_line, List.take_append_of_le_length h.le]

/-- Every protected step keeps the invariant. -/
theorem Inv.step (law : store.Lawful Agrees Recovered admits) (h : Inv Agrees s)
    {l : LogLabel Op} {s' : LogState σ} (hok : store.Protected admits s l)
    (hs : store.step s l = some s') : Inv Agrees s' := by
  obtain ⟨m₀, hloads, -, -⟩ := h.loads law
  cases l with
  | reopen =>
    obtain rfl := Option.some.inj hs
    refine ⟨h.file.imp_right fun hfile => ⟨rfl, hfile.2⟩, h.agrees, ?_⟩
    intro m hm
    cases hm
  | call op =>
    unfold LogStore.step at hs
    simp only at hs
    cases happends : store.appends s op with
    | none =>
      rw [happends] at hs
      obtain rfl := Option.some.inj hs
      exact hloads.inv
    | some r =>
      obtain ⟨m, record, m'⟩ := r
      have happend := h.appends law happends (hok m record m' happends)
      rw [happends] at hs
      obtain rfl := Option.some.inj hs
      -- a call appends the whole line, its line feed included
      have hwhole : Append.isWhole ⟨record, (utf8 record.line).length⟩ = true := by
        simp only [Append.isWhole, decide_eq_true_eq]
        rw [utf8_line, List.length_append]
        exact Nat.le_add_right _ _
      refine ⟨?_, ?_, ?_⟩
      · left
        rw [whole_concat, if_pos hwhole, hloads.history, happend.file]
        have hcut := holds_cut (whole s.history) record le_rfl hwhole
        rw [List.take_length] at hcut
        exact hcut
      · rw [whole_concat, if_pos hwhole, hloads.history]
        exact happend.agrees
      · intro m'' hm''
        exact (Option.some.inj hm'').symm
  | cut op written =>
    unfold LogStore.step at hs
    simp only at hs
    cases happends : store.appends s op with
    | none =>
      rw [happends] at hs
      cases hs
    | some r =>
      obtain ⟨m, record, m'⟩ := r
      rw [happends] at hs
      simp only at hs
      -- a crash behind the text of the record leaves a record, one before its end a torn line
      split_ifs at hs with hwritten hwhole
      · obtain rfl := Option.some.inj hs
        have hpos : 0 < written := by
          simp only [Append.isWhole, decide_eq_true_eq] at hwhole
          exact (List.length_pos_iff.mpr (utf8_text_ne_nil record)).trans_le hwhole
        have happend := h.appends law happends (hok m record m' happends hpos)
        refine ⟨.inl ?_, ?_, ?_⟩
        · rw [whole_concat, if_pos hwhole, hloads.history, happend.file]
          exact holds_cut _ record hwritten hwhole
        · rw [whole_concat, if_pos hwhole, hloads.history]
          exact happend.agrees
        · intro m'' hm''
          cases hm''
      · obtain rfl := Option.some.inj hs
        have hshort : written < (utf8 record.text).length := by
          simpa [Append.isWhole] using hwhole
        have hhistory : whole ((store.load s).1.history ++ [⟨record, written⟩]) =
            whole s.history := by
          rw [whole_concat, if_neg hwhole, hloads.history, List.append_nil]
        -- nothing was recorded, so the memory agrees with the file as it did before
        have hm : m = m₀ := by
          unfold LogStore.appends at happends
          rw [hloads.memory, Option.bind_some, Option.map_eq_some_iff] at happends
          obtain ⟨_, -, heq⟩ := happends
          exact (congrArg Prod.fst heq).symm
        refine ⟨?_, ?_, ?_⟩
        · rw [hhistory, take_utf8_line record hshort]
          rcases Nat.eq_zero_or_pos written with rfl | hpos
          · left
            rw [List.take_zero, List.append_nil]
            exact hloads.holds
          · have happend := h.appends law happends (hok m record m' happends hpos)
            exact .inr ⟨rfl, record, written, hshort, by rw [happend.file]⟩
        · rw [hhistory]
          have hagrees := hloads.inv.agrees
          rw [hloads.history, hloads.latest] at hagrees
          rw [hm]
          exact hagrees
        · intro m'' hm''
          cases hm''

/-- In a run of protected steps every load gives what it should. -/
theorem intact_of_run (law : store.Lawful Agrees Recovered admits) {ls : List (LogLabel Op)}
    (run : store.system.Run (store.Protected admits) ls s) :
    Inv Agrees s ∧ store.Intact Recovered s := by
  have hinv : Inv Agrees s :=
    run.invariant (inv_start law) fun _ _ _ h hok hs => h.step law hok hs
  exact ⟨hinv, hinv.intact law⟩

/-- What holds of the latest memory holds of it later, if operations and loads keep it. -/
theorem Inv.step_latest (law : store.Lawful Agrees Recovered admits) (h : Inv Agrees s)
    {Keeps : σ → σ → Prop} (hrefl : ∀ m, Keeps m m)
    (htrans : ∀ a b c, Keeps a b → Keeps b c → Keeps a c)
    (hrecovered : ∀ m m', Recovered m m' → Keeps m m')
    (hperform : ∀ m op record m', store.perform m op = some (record, m') → Keeps m m')
    {l : LogLabel Op} {s' : LogState σ} (hs : store.step s l = some s') :
    Keeps s.latest s'.latest := by
  obtain ⟨m₀, hloads, hnone, hsome⟩ := h.loads law
  -- loading recovers what the memory was, as far as the store promises
  have hload : Keeps s.latest m₀ := by
    cases hmemory : s.memory with
    | none => exact hrecovered _ _ (hnone hmemory)
    | some m =>
      rw [← hsome m hmemory, h.memory m hmemory]
      exact hrefl _
  have happend : ∀ op m record m', store.appends s op = some (m, record, m') →
      m = m₀ ∧ Keeps m m' := by
    intro op m record m' happends
    unfold LogStore.appends at happends
    rw [hloads.memory, Option.bind_some, Option.map_eq_some_iff] at happends
    obtain ⟨⟨record', m₁⟩, hop, heq⟩ := happends
    obtain ⟨rfl, rfl, rfl⟩ : m₀ = m ∧ record' = record ∧ m₁ = m' := by simpa using heq
    exact ⟨rfl, hperform _ _ _ _ hop⟩
  cases l with
  | reopen =>
    obtain rfl := Option.some.inj hs
    exact hrefl _
  | call op =>
    unfold LogStore.step at hs
    simp only at hs
    cases happends : store.appends s op with
    | none =>
      rw [happends] at hs
      obtain rfl := Option.some.inj hs
      rw [hloads.latest]
      exact hload
    | some r =>
      obtain ⟨m, record, m'⟩ := r
      rw [happends] at hs
      obtain rfl := Option.some.inj hs
      obtain ⟨rfl, hkeeps⟩ := happend op m record m' happends
      exact htrans _ _ _ hload hkeeps
  | cut op written =>
    unfold LogStore.step at hs
    simp only at hs
    cases happends : store.appends s op with
    | none =>
      rw [happends] at hs
      cases hs
    | some r =>
      obtain ⟨m, record, m'⟩ := r
      obtain ⟨rfl, hkeeps⟩ := happend op m record m' happends
      rw [happends] at hs
      simp only at hs
      -- the record was written, or was not
      split_ifs at hs
      · obtain rfl := Option.some.inj hs
        exact htrans _ _ _ hload hkeeps
      · obtain rfl := Option.some.inj hs
        exact hload

end Loads

end LogStore

end Flashclaw.Reef
