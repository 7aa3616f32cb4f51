import Flashclaw.Lib.JsonPrefix
import Flashclaw.Lib.Utf8Lossy
import Flashclaw.Reef.Encoding

/-!
# Reef: files of JSON lines

`appendDurably`, `readJsonl` and `truncateDurably` of `protocol/node.ts`.  A file
that does not exist is an empty one: `readJsonl` makes the same of both.
-/

namespace Flashclaw.Reef

open Utf16 Json

/-- `appendDurably`. -/
def appendDurably (file : Bytes) (contents : Utf16) : Bytes := file ++ utf8 contents

/-- `truncateDurably`, which fills with zeros up to a length the file does not have. -/
def truncateDurably (file : Bytes) (length : ℕ) : Bytes :=
  file.take length ++ List.replicate (length - file.length) 0

/-- `contents.split("\n")`. -/
def splitLines : Utf16 → List Utf16
  | [] => [[]]
  | c :: s =>
    if c = unit '\n' then [] :: splitLines s
    else
      match splitLines s with
      | [] => [[c]]
      | line :: lines => (c :: line) :: lines

/-- The index of the last line with characters, looked for from the end. -/
def finalNonempty (lines : List Utf16) : Option ℕ :=
  (List.range lines.length).reverse.find? fun index => 0 < (lines.getD index []).length

def syntaxError : JsError := ⟨"SyntaxError", "Invalid JSON"⟩

/-- The loop of `readJsonl` from a line on: the records, and where it truncates the contents. -/
def readLines (final : Option ℕ) : ℕ → ℕ → List Utf16 → Except JsError (List JsValue × Option ℕ)
  | _, _, [] => .ok ([], none)
  | index, characterOffset, line :: lines =>
    let next := characterOffset + line.length + if lines = [] then 0 else 1
    if line.length = 0 then readLines final (index + 1) next lines
    else
      match Json.parse line with
      | some record =>
        (readLines final (index + 1) next lines).map fun r => (record :: r.1, r.2)
      | none => if some index ≠ final then .error syntaxError else .ok ([], some characterOffset)

/-- `readJsonl`: the records, and the file it leaves. -/
def readJsonl (file : Bytes) : Except JsError (List JsValue × Bytes) :=
  let contents := Utf8.decodeLossy file
  let lines := splitLines contents
  (readLines (finalNonempty lines) 0 0 lines).map fun r =>
    (r.1, r.2.elim file fun lineStart =>
      truncateDurably file (utf8 (contents.take lineStart)).length)

/-- A record is an object. -/
structure LogRecord where
  fields : List (Utf16 × JsValue)
  uniqueKeys : UniqueKeys (.object fields)

namespace LogRecord

def value (record : LogRecord) : JsValue := .object record.fields

/-- `JSON.stringify(record)`. -/
def text (record : LogRecord) : Utf16 := render record.value

/-- What is appended for a record. -/
def line (record : LogRecord) : Utf16 := record.text ++ [unit '\n']

/-- The record as it is read. -/
def read (record : LogRecord) : JsValue := clean record.value

end LogRecord

/-- The file of records whose lines are whole. -/
def logBytes (records : List LogRecord) : Bytes := records.flatMap fun record => utf8 record.line

section Lines

theorem splitLines_of_not_mem {s : Utf16} (h : unit '\n' ∉ s) : splitLines s = [s] := by
  induction s with
  | nil => rfl
  | cons c s ih =>
    rw [List.mem_cons, not_or] at h
    rw [splitLines, if_neg (Ne.symm h.1), ih h.2]

theorem splitLines_append {s : Utf16} (h : unit '\n' ∉ s) (rest : Utf16) :
    splitLines (s ++ unit '\n' :: rest) = s :: splitLines rest := by
  induction s with
  | nil => rfl
  | cons c s ih =>
    rw [List.mem_cons, not_or] at h
    rw [List.cons_append, splitLines, if_neg (Ne.symm h.1), ih h.2]

/-- The last line, if it has characters, is the final one. -/
theorem finalNonempty_concat (lines : List Utf16) {s : Utf16} (hs : s ≠ []) :
    finalNonempty (lines ++ [s]) = some lines.length := by
  unfold finalNonempty
  rw [List.length_append, List.length_singleton, List.range_succ, List.reverse_append,
    List.reverse_singleton, List.singleton_append, List.find?_cons]
  simp [List.length_pos_iff.mpr hs]

theorem newline_not_mem_text (record : LogRecord) : unit '\n' ∉ record.text :=
  newline_not_mem_render _

theorem text_ne_nil (record : LogRecord) : record.text ≠ [] := by
  unfold LogRecord.text LogRecord.value
  rw [render]
  simp

def logText (records : List LogRecord) : Utf16 := records.flatMap LogRecord.line

theorem splitLines_logText (records : List LogRecord) (rest : Utf16) :
    splitLines (logText records ++ rest) = records.map LogRecord.text ++ splitLines rest := by
  induction records with
  | nil => rfl
  | cons record records ih =>
    have hline : logText (record :: records) ++ rest =
        record.text ++ unit '\n' :: (logText records ++ rest) := by
      simp [logText, LogRecord.line]
    rw [hline, splitLines_append (newline_not_mem_text record), ih]
    rfl

/-- Lines of records are read as they are. -/
theorem readLines_logText (final : Option ℕ) (records : List LogRecord) {lines : List Utf16}
    (hlines : lines ≠ []) (index characterOffset : ℕ) :
    readLines final index characterOffset (records.map LogRecord.text ++ lines) =
      (readLines final (index + records.length) (characterOffset + (logText records).length)
        lines).map fun r => (records.map LogRecord.read ++ r.1, r.2) := by
  induction records generalizing index characterOffset with
  | nil =>
    show readLines final index characterOffset lines = (readLines final index characterOffset
      lines).map fun r => (r.1, r.2)
    cases readLines final index characterOffset lines <;> rfl
  | cons record records ih =>
    have hmore : records.map LogRecord.text ++ lines ≠ [] := by simp [hlines]
    have hparse : Json.parse record.text = some record.read := parse_render _ record.uniqueKeys
    have hlength : (logText (record :: records)).length =
        record.text.length + 1 + (logText records).length := by
      simp [logText, LogRecord.line]
      omega
    rw [List.map_cons, List.cons_append, readLines, if_neg hmore,
      if_neg (by simpa using text_ne_nil record), hparse]
    simp only
    rw [ih, hlength, List.length_cons, Nat.add_right_comm index, ← Nat.add_assoc index,
      ← Nat.add_assoc characterOffset, ← Nat.add_assoc characterOffset]
    cases readLines final (index + records.length + 1) _ lines <;> rfl

end Lines

section Bytes

theorem isWellFormed_line (record : LogRecord) : isWellFormed record.line = true :=
  isWellFormed_append (isWellFormed_render _) (by decide)

theorem isWellFormed_logText (records : List LogRecord) : isWellFormed (logText records) = true := by
  induction records with
  | nil => rfl
  | cons record records ih => exact isWellFormed_append (isWellFormed_line record) ih

theorem logBytes_eq (records : List LogRecord) : logBytes records = utf8 (logText records) := by
  induction records with
  | nil => rfl
  | cons record records ih =>
    show utf8 record.line ++ logBytes records = utf8 (record.line ++ logText records)
    rw [ih]
    exact (Utf8.encode_append (isWellFormed_line record) _).symm

theorem logBytes_append (records records' : List LogRecord) :
    logBytes (records ++ records') = logBytes records ++ logBytes records' :=
  List.flatMap_append ..

theorem logBytes_concat (records : List LogRecord) (record : LogRecord) :
    logBytes (records ++ [record]) = logBytes records ++ utf8 record.line := by
  rw [logBytes_append]
  simp [logBytes]

theorem utf8_line (record : LogRecord) : utf8 record.line = utf8 record.text ++ [0x0A] :=
  Utf8.encode_append (isWellFormed_render _) _

theorem decodeLossy_logBytes (records : List LogRecord) (bytes : Bytes) :
    Utf8.decodeLossy (logBytes records ++ bytes) = logText records ++ Utf8.decodeLossy bytes := by
  rw [logBytes_eq]
  exact Utf8.decodeLossy_encode_append (isWellFormed_logText records) bytes

theorem truncateDurably_append (file rest : Bytes) :
    truncateDurably (file ++ rest) file.length = file := by
  unfold truncateDurably
  rw [List.take_left, List.length_append, Nat.sub_eq_zero_of_le (Nat.le_add_right _ _)]
  exact List.append_nil file

end Bytes

section Reading

/-- What the loop makes of a last line that is not followed by a newline. -/
theorem readJsonl_logBytes (records : List LogRecord) {bytes : Bytes} {s : Utf16}
    (hs : Utf8.decodeLossy bytes = s) (hline : unit '\n' ∉ s) :
    readJsonl (logBytes records ++ bytes) =
      (readLines (finalNonempty (records.map LogRecord.text ++ [s])) records.length
        (logText records).length [s]).map fun r =>
          (records.map LogRecord.read ++ r.1, r.2.elim (logBytes records ++ bytes) fun lineStart =>
            truncateDurably (logBytes records ++ bytes)
              (utf8 ((logText records ++ s).take lineStart)).length) := by
  unfold readJsonl
  simp only
  rw [decodeLossy_logBytes, hs, splitLines_logText, splitLines_of_not_mem hline,
    readLines_logText _ _ (by simp), Nat.zero_add, Nat.zero_add]
  cases readLines (finalNonempty (records.map LogRecord.text ++ [s])) records.length
    (logText records).length [s] <;> rfl

/-- A file of whole lines is read as the records are. -/
theorem readJsonl_whole (records : List LogRecord) :
    readJsonl (logBytes records) = .ok (records.map LogRecord.read, logBytes records) := by
  have hdecode : Utf8.decodeLossy [] = [] := rfl
  have h := readJsonl_logBytes records hdecode List.not_mem_nil
  rw [List.append_nil] at h
  rw [h]
  simp [readLines, Except.map]

/-- A last record without its newline is read like the others. -/
theorem readJsonl_unterminated (records : List LogRecord) (record : LogRecord) :
    readJsonl (logBytes records ++ utf8 record.text) =
      .ok ((records ++ [record]).map LogRecord.read, logBytes records ++ utf8 record.text) := by
  have hdecode : Utf8.decodeLossy (utf8 record.text) = record.text :=
    Utf8.decodeLossy_encode (isWellFormed_render _)
  rw [readJsonl_logBytes records hdecode (newline_not_mem_text record)]
  have hparse : Json.parse record.text = some record.read := parse_render _ record.uniqueKeys
  rw [readLines, if_neg (by simpa using text_ne_nil record), hparse]
  simp [readLines, Except.map]

/-- A last line that is no JSON text is cut off. -/
theorem readJsonl_unparsable (records : List LogRecord) {bytes : Bytes} {s : Utf16}
    (hs : Utf8.decodeLossy bytes = s) (hline : unit '\n' ∉ s) (hne : s ≠ [])
    (hparse : Json.parse s = none) :
    readJsonl (logBytes records ++ bytes) =
      .ok (records.map LogRecord.read, logBytes records) := by
  rw [readJsonl_logBytes records hs hline, finalNonempty_concat _ hne, readLines,
    if_neg (by simpa using hne), hparse, List.length_map]
  simp only [ne_eq, not_true, if_false, Except.map, List.append_nil, Option.elim]
  rw [List.take_left, ← logBytes_eq, truncateDurably_append]

/-- A last record of which a part was written is cut off. -/
theorem readJsonl_torn (records : List LogRecord) (record : LogRecord) {written : ℕ}
    (h : written < (utf8 record.text).length) :
    readJsonl (logBytes records ++ (utf8 record.text).take written) =
      .ok (records.map LogRecord.read, logBytes records) := by
  obtain ⟨t, ht, hcases⟩ := Utf8.decodeLossy_start (isWellFormed_render record.value)
    (List.take_prefix written (utf8 record.text))
  have hline : unit '\n' ∉ t := fun hmem => newline_not_mem_text record (ht.subset hmem)
  rcases hcases with ⟨hdecode, hwhole, hempty⟩ | ⟨-, hdecode⟩
  · have hproper : t ≠ record.text := by
      intro heq
      have hlength := congrArg List.length (hwhole heq)
      rw [List.length_take, min_eq_left h.le] at hlength
      exact h.ne hlength
    by_cases hnil : t = []
    · rw [hempty hnil, List.append_nil]
      exact readJsonl_whole records
    · exact readJsonl_unparsable records hdecode hline hnil
        (parse_start record.uniqueKeys ht hproper)
  · apply readJsonl_unparsable records hdecode
    · rw [List.mem_append, not_or]
      exact ⟨hline, by decide⟩
    · simp
    · exact parse_start_replacement ht

end Reading

end Flashclaw.Reef
