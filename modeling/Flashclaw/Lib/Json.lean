import Flashclaw.Lib.Decimal

/-!
# JSON

`JSON.stringify` and `JSON.parse` on values without methods.  An object is the
list of its own fields; nothing here depends on their order.
-/

open Utf16

/-- The values without functions, symbols and big integers. -/
inductive JsValue where
  | undefined
  | null
  | boolean (b : Bool)
  | number (n : Number)
  | string (s : Utf16)
  | array (elements : List JsValue)
  | object (fields : List (Utf16 × JsValue))

namespace Json

def hexDigit (n : ℕ) : CodeUnit := unit (Nat.digitChar n)

/-- `UnicodeEscape`. -/
def unicodeEscape (c : CodeUnit) : Utf16 :=
  [unit '\\', unit 'u', hexDigit (c.val / 0x1000), hexDigit (c.val / 0x100 % 0x10),
    hexDigit (c.val / 0x10 % 0x10), hexDigit (c.val % 0x10)]

/-- The letter of a code unit that has an escape of its own. -/
def escapeLetter (c : CodeUnit) : Option CodeUnit :=
  if c.val = 0x22 then some (unit '"')
  else if c.val = 0x5C then some (unit '\\')
  else if c.val = 0x08 then some (unit 'b')
  else if c.val = 0x0C then some (unit 'f')
  else if c.val = 0x0A then some (unit 'n')
  else if c.val = 0x0D then some (unit 'r')
  else if c.val = 0x09 then some (unit 't')
  else none

/-- A code unit that is not a surrogate, in `QuoteJSONString`. -/
def quoteUnit (c : CodeUnit) : Utf16 :=
  match escapeLetter c with
  | some letter => [unit '\\', letter]
  | none => if c.val < 0x20 ∨ isSurrogate c then unicodeEscape c else [c]

def quoteUnits : Utf16 → Utf16
  | [] => []
  | [c] => quoteUnit c
  | c :: d :: rest =>
    if isHighSurrogate c ∧ isLowSurrogate d then c :: d :: quoteUnits rest
    else quoteUnit c ++ quoteUnits (d :: rest)

/-- `QuoteJSONString`. -/
def quote (s : Utf16) : Utf16 := unit '"' :: (quoteUnits s ++ [unit '"'])

def hexValue (c : CodeUnit) : Option ℕ :=
  if 0x30 ≤ c.val ∧ c.val < 0x3A then some (c.val - 0x30)
  else if 0x61 ≤ c.val ∧ c.val < 0x67 then some (c.val - 0x61 + 10)
  else if 0x41 ≤ c.val ∧ c.val < 0x47 then some (c.val - 0x41 + 10)
  else none

/-- What a letter after a backslash stands for. -/
def unescape (letter : CodeUnit) : Option CodeUnit :=
  if letter = unit '"' then some 0x22
  else if letter = unit '\\' then some 0x5C
  else if letter = unit '/' then some 0x2F
  else if letter = unit 'b' then some 0x08
  else if letter = unit 'f' then some 0x0C
  else if letter = unit 'n' then some 0x0A
  else if letter = unit 'r' then some 0x0D
  else if letter = unit 't' then some 0x09
  else none

/-- The characters of a string up to the closing quote, and what follows it. -/
def readChars : Utf16 → Option (Utf16 × Utf16)
  | [] => none
  | c :: rest =>
    if c = unit '"' then some ([], rest)
    else if c = unit '\\' then
      match rest with
      | [] => none
      | letter :: rest =>
        if letter = unit 'u' then
          match rest with
          | a :: b :: c :: d :: rest => do
            let a ← hexValue a
            let b ← hexValue b
            let c ← hexValue c
            let d ← hexValue d
            let (s, rest) ← readChars rest
            return (Fin.ofNat 0x10000 (a * 0x1000 + b * 0x100 + c * 0x10 + d) :: s, rest)
          | _ => none
        else do
          let unescaped ← unescape letter
          let (s, rest) ← readChars rest
          return (unescaped :: s, rest)
    else if c.val < 0x20 then none
    else do
      let (s, rest) ← readChars rest
      return (c :: s, rest)

theorem hexValue_hexDigit {n : ℕ} (h : n < 0x10) : hexValue (hexDigit n) = some n := by
  interval_cases n <;> rfl

theorem readChars_unicodeEscape (c : CodeUnit) (s : Utf16) :
    readChars (unicodeEscape c ++ s) = (readChars s).map fun r => (c :: r.1, r.2) := by
  have hc := c.isLt
  have hvalue : Fin.ofNat 0x10000 (c.val / 0x1000 * 0x1000 + c.val / 0x100 % 0x10 * 0x100 +
      c.val / 0x10 % 0x10 * 0x10 + c.val % 0x10) = c := by
    apply Fin.ext
    show (_ % 0x10000 : ℕ) = c.val
    omega
  show readChars (unit '\\' :: unit 'u' :: hexDigit _ :: hexDigit _ :: hexDigit _ :: hexDigit _ ::
    s) = _
  rw [readChars]
  simp only [show unit '\\' ≠ unit '"' by decide, if_false, if_true]
  rw [hexValue_hexDigit (by omega), hexValue_hexDigit (by omega), hexValue_hexDigit (by omega),
    hexValue_hexDigit (by omega)]
  simp only [Option.bind_eq_bind, Option.bind_some, hvalue]
  cases readChars s <;> rfl

theorem readChars_escape {letter c : CodeUnit} (hu : letter ≠ unit 'u')
    (h : unescape letter = some c) (s : Utf16) :
    readChars (unit '\\' :: letter :: s) = (readChars s).map fun r => (c :: r.1, r.2) := by
  rw [readChars.eq_def]
  simp only [show unit '\\' ≠ unit '"' by decide, if_false, if_true, if_neg hu, h]
  cases readChars s <;> rfl

/-- A code unit that stands for itself. -/
theorem readChars_cons {c : CodeUnit} (hq : c ≠ unit '"') (hb : c ≠ unit '\\') (hc : 0x20 ≤ c.val)
    (s : Utf16) : readChars (c :: s) = (readChars s).map fun r => (c :: r.1, r.2) := by
  rw [readChars.eq_def]
  simp only [if_neg hq, if_neg hb, if_neg (not_lt.mpr hc)]
  cases readChars s <;> rfl

theorem unescape_of_escapeLetter {c letter : CodeUnit} (h : escapeLetter c = some letter) :
    unescape letter = some c ∧ letter ≠ unit 'u' := by
  unfold escapeLetter at h
  split_ifs at h with h1 h2 h3 h4 h5 h6 h7 <;> obtain rfl := Option.some.inj h
  · exact ⟨congrArg some (Fin.ext h1.symm), by decide⟩
  · exact ⟨congrArg some (Fin.ext h2.symm), by decide⟩
  · exact ⟨congrArg some (Fin.ext h3.symm), by decide⟩
  · exact ⟨congrArg some (Fin.ext h4.symm), by decide⟩
  · exact ⟨congrArg some (Fin.ext h5.symm), by decide⟩
  · exact ⟨congrArg some (Fin.ext h6.symm), by decide⟩
  · exact ⟨congrArg some (Fin.ext h7.symm), by decide⟩

theorem ne_of_escapeLetter {c : CodeUnit} (h : escapeLetter c = none) :
    c ≠ unit '"' ∧ c ≠ unit '\\' := by
  constructor <;>
    (rintro rfl
     revert h
     decide)

theorem readChars_quoteUnit (c : CodeUnit) (s : Utf16) :
    readChars (quoteUnit c ++ s) = (readChars s).map fun r => (c :: r.1, r.2) := by
  unfold quoteUnit
  cases h : escapeLetter c with
  | some letter =>
    obtain ⟨hletter, hu⟩ := unescape_of_escapeLetter h
    exact readChars_escape hu hletter s
  | none =>
    obtain ⟨hq, hb⟩ := ne_of_escapeLetter h
    simp only
    split_ifs with hc
    · exact readChars_unicodeEscape c s
    · exact readChars_cons hq hb (by omega) s

theorem readChars_surrogate {c : CodeUnit} (h : isSurrogate c = true) (s : Utf16) :
    readChars (c :: s) = (readChars s).map fun r => (c :: r.1, r.2) := by
  have hc : 0xD800 ≤ c.val := by
    simp only [isSurrogate, Bool.and_eq_true, decide_eq_true_eq] at h
    exact h.1
  apply readChars_cons
  · rintro rfl
    exact absurd hc (by decide)
  · rintro rfl
    exact absurd hc (by decide)
  · omega

theorem quoteUnits_cons {c : CodeUnit} {s : Utf16} (h : ∀ d rest, s = d :: rest →
    ¬ (isHighSurrogate c = true ∧ isLowSurrogate d = true)) :
    quoteUnits (c :: s) = quoteUnit c ++ quoteUnits s := by
  cases s with
  | nil => simp [quoteUnits]
  | cons d s => rw [quoteUnits, if_neg (h d s rfl)]

/-- The quoted text of a string reads back as it. -/
theorem readChars_quoteUnits (s rest : Utf16) :
    readChars (quoteUnits s ++ unit '"' :: rest) = some (s, rest) := by
  induction s using pointInduction with
  | nil =>
    show readChars (unit '"' :: rest) = _
    rw [readChars.eq_def]
    simp only [if_true]
  | pair c d s hc hd ih =>
    rw [quoteUnits, if_pos ⟨hc, hd⟩, List.cons_append, List.cons_append,
      readChars_surrogate (isSurrogate_iff.mpr (.inl hc)),
      readChars_surrogate (isSurrogate_iff.mpr (.inr hd)), ih]
    rfl
  | unit c s h ih =>
    rw [quoteUnits_cons h, List.append_assoc, readChars_quoteUnit, ih]
    rfl

def join (separator : CodeUnit) : List Utf16 → Utf16
  | [] => []
  | [s] => s
  | s :: l => s ++ separator :: join separator l

def renderNumber : Number → Utf16
  | .finite d => (Number.finite d).toText
  | .negZero => Number.negZero.toText
  | _ => ofString "null"

mutual

/-- `JSON.stringify` of a value, `undefined` as it is in an array. -/
def render : JsValue → Utf16
  | .undefined => ofString "null"
  | .null => ofString "null"
  | .boolean b => ofString (if b then "true" else "false")
  | .number n => renderNumber n
  | .string s => quote s
  | .array elements => unit '[' :: (join (unit ',') (renderElements elements) ++ [unit ']'])
  | .object fields => unit '\x7b' :: (join (unit ',') (renderFields fields) ++ [unit '\x7d'])

def renderElements : List JsValue → List Utf16
  | [] => []
  | v :: elements => render v :: renderElements elements

/-- The fields of an object but the undefined ones. -/
def renderFields : List (Utf16 × JsValue) → List Utf16
  | [] => []
  | (_, .undefined) :: fields => renderFields fields
  | (key, v) :: fields => (quote key ++ unit ':' :: render v) :: renderFields fields

end

/-- A field set by `CreateDataProperty`. -/
def setField (fields : List (Utf16 × JsValue)) (field : Utf16 × JsValue) :
    List (Utf16 × JsValue) :=
  if field.1 ∈ fields.map Prod.fst then
    fields.map fun f => if f.1 = field.1 then field else f
  else fields ++ [field]

/-- The object of a list of members: of members with one key the last counts. -/
def fromMembers (members : List (Utf16 × JsValue)) : JsValue :=
  .object (members.foldl setField [])

def isSpace (c : CodeUnit) : Bool :=
  c = 0x20 || c = 0x09 || c = 0x0A || c = 0x0D

def skipSpace (s : Utf16) : Utf16 := s.dropWhile isSpace

/-- What follows a keyword. -/
def readWord (word : String) (s : Utf16) : Option Utf16 :=
  if ofString word <+: s then some (s.drop (ofString word).length) else none

/-- A value that starts neither a string nor an array nor an object. -/
def readScalar (s : Utf16) : Option (JsValue × Utf16) :=
  ((readWord "null" s).map (JsValue.null, ·)).or <|
    ((readWord "true" s).map (JsValue.boolean true, ·)).or <|
    ((readWord "false" s).map (JsValue.boolean false, ·)).or <|
    (Number.read s).map fun r => (.number r.1, r.2)

/-- A key with its colon, and what follows. -/
def readKey (s : Utf16) : Option (Utf16 × Utf16) :=
  match skipSpace s with
  | [] => none
  | c :: rest =>
    if c = unit '"' then
      match readChars rest with
      | none => none
      | some (key, rest) =>
        match skipSpace rest with
        | [] => none
        | c :: rest => if c = unit ':' then some (key, rest) else none
    else none

mutual

/-- A value, and what follows it; the fuel bounds the calls under each other. -/
def readValue : ℕ → Utf16 → Option (JsValue × Utf16)
  | 0, _ => none
  | fuel + 1, s =>
    match skipSpace s with
    | [] => none
    | c :: rest =>
      if c = unit '"' then (readChars rest).map fun r => (.string r.1, r.2)
      else if c = unit '[' then
        match skipSpace rest with
        | [] => none
        | d :: after =>
          if d = unit ']' then some (.array [], after)
          else (readElements fuel rest).map fun r => (.array r.1, r.2)
      else if c = unit '\x7b' then
        match skipSpace rest with
        | [] => none
        | d :: after =>
          if d = unit '\x7d' then some (.object [], after)
          else (readMembers fuel rest).map fun r => (fromMembers r.1, r.2)
      else readScalar (c :: rest)

/-- The elements of an array up to its end. -/
def readElements : ℕ → Utf16 → Option (List JsValue × Utf16)
  | 0, _ => none
  | fuel + 1, s =>
    match readValue fuel s with
    | none => none
    | some (v, rest) =>
      match skipSpace rest with
      | [] => none
      | c :: rest =>
        if c = unit ',' then (readElements fuel rest).map fun r => (v :: r.1, r.2)
        else if c = unit ']' then some ([v], rest)
        else none

/-- The members of an object up to its end. -/
def readMembers : ℕ → Utf16 → Option (List (Utf16 × JsValue) × Utf16)
  | 0, _ => none
  | fuel + 1, s =>
    match readKey s with
    | none => none
    | some (key, rest) =>
      match readValue fuel rest with
      | none => none
      | some (v, rest) =>
        match skipSpace rest with
        | [] => none
        | c :: rest =>
          if c = unit ',' then (readMembers fuel rest).map fun r => ((key, v) :: r.1, r.2)
          else if c = unit '\x7d' then some ([(key, v)], rest)
          else none

end

/-- `JSON.parse`. -/
def parse (s : Utf16) : Option JsValue :=
  match readValue (2 * s.length + 2) s with
  | none => none
  | some (v, rest) => if skipSpace rest = [] then some v else none

theorem valueInduction {motive : JsValue → Prop} (undefined : motive .undefined)
    (null : motive .null) (boolean : ∀ b, motive (.boolean b)) (number : ∀ n, motive (.number n))
    (string : ∀ s, motive (.string s))
    (array : ∀ elements, (∀ v ∈ elements, motive v) → motive (.array elements))
    (object : ∀ fields : List (Utf16 × JsValue), (∀ f ∈ fields, motive f.2) →
      motive (.object fields)) (v : JsValue) : motive v := by
  refine JsValue.rec (motive_1 := motive) (motive_2 := fun l => ∀ v ∈ l, motive v)
    (motive_3 := fun l => ∀ f ∈ l, motive f.2) (motive_4 := fun f => motive f.2)
    undefined null boolean number string array object ?_ ?_ ?_ ?_ ?_ v
  · intro v hv
    cases hv
  · intro v l hv hl w hw
    rcases List.mem_cons.mp hw with rfl | hw
    · exact hv
    · exact hl w hw
  · intro f hf
    cases hf
  · intro f l hf hl g hg
    rcases List.mem_cons.mp hg with rfl | hg
    · exact hf
    · exact hl g hg
  · intro key v hv
    exact hv

def isDefined : JsValue → Bool
  | .undefined => false
  | _ => true

theorem renderElements_eq (l : List JsValue) : renderElements l = l.map render := by
  induction l with
  | nil => rfl
  | cons v l ih => rw [renderElements, ih, List.map_cons]

/-- A member of an object as text. -/
def renderMember (field : Utf16 × JsValue) : Utf16 := quote field.1 ++ unit ':' :: render field.2

theorem renderFields_eq (fields : List (Utf16 × JsValue)) :
    renderFields fields = (fields.filter (isDefined ·.2)).map renderMember := by
  induction fields with
  | nil => rfl
  | cons f fields ih =>
    obtain ⟨key, v⟩ := f
    cases v <;> simp [renderFields, ih, isDefined, renderMember]

def cleanNumber : Number → JsValue
  | .finite d => .number (.finite d)
  | .negZero => .number (.finite .zero)
  | _ => .null

mutual

/-- What JSON keeps of a value. -/
def clean : JsValue → JsValue
  | .undefined => .null
  | .null => .null
  | .boolean b => .boolean b
  | .number n => cleanNumber n
  | .string s => .string s
  | .array elements => .array (cleanElements elements)
  | .object fields => .object (cleanFields fields)

def cleanElements : List JsValue → List JsValue
  | [] => []
  | v :: elements => clean v :: cleanElements elements

def cleanFields : List (Utf16 × JsValue) → List (Utf16 × JsValue)
  | [] => []
  | (_, .undefined) :: fields => cleanFields fields
  | (key, v) :: fields => (key, clean v) :: cleanFields fields

end

theorem cleanElements_eq (l : List JsValue) : cleanElements l = l.map clean := by
  induction l with
  | nil => rfl
  | cons v l ih => rw [cleanElements, ih, List.map_cons]

theorem cleanFields_eq (fields : List (Utf16 × JsValue)) :
    cleanFields fields =
      (fields.filter (isDefined ·.2)).map fun f => (f.1, clean f.2) := by
  induction fields with
  | nil => rfl
  | cons f fields ih =>
    obtain ⟨key, v⟩ := f
    cases v <;> simp [cleanFields, ih, isDefined]

mutual

/-- No object has two fields with one key. -/
def UniqueKeys : JsValue → Prop
  | .array elements => UniqueKeysElements elements
  | .object fields => (fields.map Prod.fst).Nodup ∧ UniqueKeysFields fields
  | _ => True

def UniqueKeysElements : List JsValue → Prop
  | [] => True
  | v :: elements => UniqueKeys v ∧ UniqueKeysElements elements

def UniqueKeysFields : List (Utf16 × JsValue) → Prop
  | [] => True
  | (_, v) :: fields => UniqueKeys v ∧ UniqueKeysFields fields

end

theorem uniqueKeysElements_iff {l : List JsValue} :
    UniqueKeysElements l ↔ ∀ v ∈ l, UniqueKeys v := by
  induction l with
  | nil => simp [UniqueKeysElements]
  | cons v l ih => simp [UniqueKeysElements, ih]

theorem uniqueKeysFields_iff {fields : List (Utf16 × JsValue)} :
    UniqueKeysFields fields ↔ ∀ f ∈ fields, UniqueKeys f.2 := by
  induction fields with
  | nil => simp [UniqueKeysFields]
  | cons f fields ih =>
    rw [UniqueKeysFields, ih]
    simp

section Texts

theorem foldl_setField {members fields : List (Utf16 × JsValue)}
    (h : ((fields ++ members).map Prod.fst).Nodup) :
    members.foldl setField fields = fields ++ members := by
  induction members generalizing fields with
  | nil => simp
  | cons m members ih =>
    have hm : m.1 ∉ fields.map Prod.fst := by
      rw [List.map_append, List.map_cons] at h
      intro hmem
      exact (List.nodup_append.mp h).2.2 m.1 hmem m.1 List.mem_cons_self rfl
    rw [List.foldl_cons, setField, if_neg hm, ih (by simpa using h)]
    simp

theorem fromMembers_eq {members : List (Utf16 × JsValue)} (h : (members.map Prod.fst).Nodup) :
    fromMembers members = .object members := by
  rw [fromMembers, foldl_setField (by simpa using h), List.nil_append]

theorem skipSpace_cons {c : CodeUnit} (h : isSpace c = false) (s : Utf16) :
    skipSpace (c :: s) = c :: s := by
  unfold skipSpace
  rw [List.dropWhile_cons, if_neg (by simp [h])]

theorem readKey_quote (key rest : Utf16) :
    readKey (quote key ++ unit ':' :: rest) = some (key, rest) := by
  show readKey (unit '"' :: ((quoteUnits key ++ [unit '"']) ++ unit ':' :: rest)) = _
  unfold readKey
  rw [skipSpace_cons (by decide), List.append_assoc]
  simp only [if_true, List.singleton_append, readChars_quoteUnits]
  rw [skipSpace_cons (by decide)]
  simp only [if_true]

theorem endsNumber_cons {c : CodeUnit} (h : c = unit ',' ∨ c = unit ']' ∨ c = unit '\x7d')
    (s : Utf16) : Number.EndsNumber (c :: s) := by
  intro d rest hd
  obtain ⟨rfl, -⟩ := List.cons.inj hd
  rcases h with rfl | rfl | rfl <;> decide

theorem endsNumber_nil : Number.EndsNumber [] := fun _ _ h => by cases h

end Texts

section RoundTrip

theorem readWord_append (word : String) (rest : Utf16) :
    readWord word (ofString word ++ rest) = some rest := by
  unfold readWord
  rw [if_pos (List.prefix_append _ _), List.drop_left]

/-- A text that starts with another character than the word. -/
theorem readWord_eq_none {word : String} {c d : CodeUnit} {w s : Utf16}
    (hw : ofString word = d :: w) (hne : c ≠ d) : readWord word (c :: s) = none := by
  unfold readWord
  rw [hw, if_neg]
  intro h
  exact hne (List.cons_prefix_cons.mp h).1.symm

/-- The characters a number starts with. -/
def StartsNumber (c : CodeUnit) : Prop := c = unit '-' ∨ ∃ n, Digits.digitValue c = some n

theorem StartsNumber.val {c : CodeUnit} (h : StartsNumber c) :
    c.val = 0x2D ∨ 0x30 ≤ c.val ∧ c.val < 0x3A := by
  rcases h with rfl | ⟨n, hn⟩
  · exact .inl rfl
  · unfold Digits.digitValue at hn
    split_ifs at hn with hc
    exact .inr hc

theorem StartsNumber.ne {c d : CodeUnit} (h : StartsNumber c)
    (hd : d.val ≠ 0x2D ∧ (d.val < 0x30 ∨ 0x3A ≤ d.val)) : c ≠ d := by
  rintro rfl
  have := h.val
  omega

theorem readScalar_number {c : CodeUnit} (hc : StartsNumber c) (s : Utf16) :
    readScalar (c :: s) = (Number.read (c :: s)).map fun r => (.number r.1, r.2) := by
  unfold readScalar
  rw [readWord_eq_none (d := unit 'n') rfl (hc.ne (by decide)),
    readWord_eq_none (d := unit 't') rfl (hc.ne (by decide)),
    readWord_eq_none (d := unit 'f') rfl (hc.ne (by decide))]
  rfl

theorem readScalar_null (rest : Utf16) :
    readScalar (ofString "null" ++ rest) = some (.null, rest) := by
  unfold readScalar
  rw [readWord_append]
  rfl

theorem readScalar_boolean (b : Bool) (rest : Utf16) :
    readScalar (ofString (if b then "true" else "false") ++ rest) = some (.boolean b, rest) := by
  unfold readScalar
  cases b with
  | true =>
    have hnull : readWord "null" (ofString "true" ++ rest) = none :=
      readWord_eq_none (c := unit 't') (d := unit 'n') rfl (by decide)
    rw [if_pos rfl, hnull, readWord_append]
    rfl
  | false =>
    have hnull : readWord "null" (ofString "false" ++ rest) = none :=
      readWord_eq_none (c := unit 'f') (d := unit 'n') rfl (by decide)
    have htrue : readWord "true" (ofString "false" ++ rest) = none :=
      readWord_eq_none (c := unit 'f') (d := unit 't') rfl (by decide)
    rw [if_neg (by decide), hnull, htrue, readWord_append]
    rfl

/-- A text that starts a scalar. -/
def StartsScalar (c : CodeUnit) : Prop :=
  isSpace c = false ∧ c ≠ unit '"' ∧ c ≠ unit '[' ∧ c ≠ unit ']' ∧ c ≠ unit '\x7b'

instance (c : CodeUnit) : Decidable (StartsScalar c) := inferInstanceAs (Decidable (_ ∧ _))

theorem StartsNumber.startsScalar {c : CodeUnit} (h : StartsNumber c) : StartsScalar c := by
  refine ⟨?_, h.ne (by decide), h.ne (by decide), h.ne (by decide), h.ne (by decide)⟩
  unfold isSpace
  simp only [Bool.or_eq_false_iff, decide_eq_false_iff_not]
  exact ⟨⟨⟨h.ne (by decide), h.ne (by decide)⟩, h.ne (by decide)⟩, h.ne (by decide)⟩

theorem readValue_scalar {c : CodeUnit} (hc : StartsScalar c) (fuel : ℕ) (s : Utf16) :
    readValue (fuel + 1) (c :: s) = readScalar (c :: s) := by
  obtain ⟨hspace, hquote, harray, -, hobject⟩ := hc
  rw [readValue, skipSpace_cons hspace]
  simp only [if_neg hquote, if_neg harray, if_neg hobject]

/-- The text of a value that is no string, array or object reads back as what JSON keeps. -/
theorem readValue_word (word : String) {v : JsValue} {c : CodeUnit} {w : Utf16}
    (hw : ofString word = c :: w) (hc : StartsScalar c)
    (h : ∀ rest, readScalar (ofString word ++ rest) = some (v, rest)) {fuel : ℕ} (hf : 0 < fuel)
    (rest : Utf16) : readValue fuel (ofString word ++ rest) = some (v, rest) := by
  obtain ⟨fuel, rfl⟩ := Nat.exists_eq_succ_of_ne_zero hf.ne'
  rw [← h rest, hw, List.cons_append]
  exact readValue_scalar hc fuel _

theorem readValue_finite (d : Double) {fuel : ℕ} (hf : 0 < fuel) {rest : Utf16}
    (hr : Number.EndsNumber rest) :
    readValue fuel ((Number.finite d).toText ++ rest) = some (.number (.finite d), rest) := by
  obtain ⟨fuel, rfl⟩ := Nat.exists_eq_succ_of_ne_zero hf.ne'
  have hread := Number.read_toText_append d hr
  obtain ⟨c, s, hcs, hc⟩ := Number.exists_toText_finite_eq_cons d
  rw [hcs, List.cons_append] at hread ⊢
  have hc : StartsNumber c := hc
  rw [readValue_scalar hc.startsScalar, readScalar_number hc, hread]
  rfl

theorem render_negZero : render (.number .negZero) = render (.number (.finite .zero)) := by
  show ofString "0" = Number.toText (.finite .zero)
  unfold Number.toText
  simp [Double.zero, Double.neg]

theorem readValue_number (n : Number) {fuel : ℕ} (hf : 0 < fuel) {rest : Utf16}
    (hr : Number.EndsNumber rest) :
    readValue fuel (renderNumber n ++ rest) = some (cleanNumber n, rest) := by
  have hnull := readValue_word "null" (c := unit 'n') rfl (by decide) readScalar_null hf
    rest
  cases n with
  | nan => exact hnull
  | infinity => exact hnull
  | negInfinity => exact hnull
  | negZero =>
    show readValue fuel (render (.number .negZero) ++ rest) = _
    rw [render_negZero]
    exact readValue_finite .zero hf hr
  | finite d => exact readValue_finite d hf hr

/-- The text of a value starts with a character that starts a value. -/
theorem exists_render_eq_cons (v : JsValue) :
    ∃ c s, render v = c :: s ∧ isSpace c = false ∧ c ≠ unit ']' := by
  have hnull : ∃ c s, ofString "null" = c :: s ∧ isSpace c = false ∧ c ≠ unit ']' :=
    ⟨unit 'n', _, rfl, by decide, by decide⟩
  cases v with
  | undefined => exact hnull
  | null => exact hnull
  | boolean b => cases b <;> exact ⟨_, _, rfl, by decide, by decide⟩
  | number n =>
    cases n with
    | nan => exact hnull
    | infinity => exact hnull
    | negInfinity => exact hnull
    | negZero => exact ⟨unit '0', [], rfl, by decide, by decide⟩
    | finite d =>
      obtain ⟨c, s, hcs, hc⟩ := Number.exists_toText_finite_eq_cons d
      obtain ⟨hspace, -, -, hclose, -⟩ := StartsNumber.startsScalar hc
      exact ⟨c, s, hcs, hspace, hclose⟩
  | string s => exact ⟨unit '"', _, rfl, by decide, by decide⟩
  | array elements => exact ⟨unit '[', _, rfl, by decide, by decide⟩
  | object fields => exact ⟨unit '\x7b', _, rfl, by decide, by decide⟩

/-- With enough fuel the text of the value reads back as what JSON keeps of it. -/
def ReadsBack (v : JsValue) : Prop :=
  ∀ fuel rest, 2 * (render v).length + 1 ≤ fuel → Number.EndsNumber rest →
    readValue fuel (render v ++ rest) = some (clean v, rest)

theorem readElements_join {v : JsValue} {l : List JsValue} (h : ∀ w ∈ v :: l, ReadsBack w)
    (fuel : ℕ) (hf : 2 * (join (unit ',') ((v :: l).map render)).length + 2 ≤ fuel)
    (rest : Utf16) :
    readElements fuel (join (unit ',') ((v :: l).map render) ++ unit ']' :: rest) =
      some ((v :: l).map clean, rest) := by
  obtain ⟨fuel, rfl⟩ := Nat.exists_eq_succ_of_ne_zero (by omega : fuel ≠ 0)
  induction l generalizing v fuel with
  | nil =>
    have hv := h v List.mem_cons_self fuel (unit ']' :: rest)
      (by simp only [List.map_cons, List.map_nil, join] at hf; omega)
      (endsNumber_cons (by simp) rest)
    show readElements (fuel + 1) (render v ++ unit ']' :: rest) = _
    rw [readElements, hv]
    simp only
    rw [skipSpace_cons (by decide)]
    simp [show unit ']' ≠ unit ',' by decide]
  | cons w l ih =>
    have hjoin : join (unit ',') ((v :: w :: l).map render) =
        render v ++ unit ',' :: join (unit ',') ((w :: l).map render) := rfl
    rw [hjoin, List.length_append, List.length_cons] at hf
    obtain ⟨fuel, rfl⟩ := Nat.exists_eq_succ_of_ne_zero (by omega : fuel ≠ 0)
    have hv := h v List.mem_cons_self (fuel + 1)
      (unit ',' :: (join (unit ',') ((w :: l).map render) ++ unit ']' :: rest)) (by omega)
      (endsNumber_cons (by simp) _)
    rw [hjoin, List.append_assoc, List.cons_append, readElements, hv]
    simp only
    rw [skipSpace_cons (by decide)]
    simp only [if_true]
    rw [ih (fun u hu => h u (List.mem_cons_of_mem v hu)) fuel (by omega)]
    rfl

theorem readMembers_join {f : Utf16 × JsValue} {fields : List (Utf16 × JsValue)}
    (h : ∀ g ∈ f :: fields, ReadsBack g.2) (fuel : ℕ)
    (hf : 2 * (join (unit ',') ((f :: fields).map renderMember)).length + 2 ≤ fuel)
    (rest : Utf16) :
    readMembers fuel (join (unit ',') ((f :: fields).map renderMember) ++ unit '\x7d' :: rest) =
      some ((f :: fields).map fun g => (g.1, clean g.2), rest) := by
  obtain ⟨fuel, rfl⟩ := Nat.exists_eq_succ_of_ne_zero (by omega : fuel ≠ 0)
  have hmember : ∀ (g : Utf16 × JsValue) s, renderMember g ++ s =
      quote g.1 ++ unit ':' :: (render g.2 ++ s) := by
    intro g s
    unfold renderMember
    simp
  have hlength : ∀ g : Utf16 × JsValue, (render g.2).length ≤ (renderMember g).length := by
    intro g
    unfold renderMember
    simp
    omega
  induction fields generalizing f fuel with
  | nil =>
    have hf' := hlength f
    simp only [List.map_cons, List.map_nil, join] at hf
    have hv := h f List.mem_cons_self fuel (unit '\x7d' :: rest) (by omega)
      (endsNumber_cons (by simp) rest)
    show readMembers (fuel + 1) (renderMember f ++ unit '\x7d' :: rest) = _
    rw [hmember, readMembers, readKey_quote]
    simp only [hv]
    rw [skipSpace_cons (by decide)]
    simp [show unit '\x7d' ≠ unit ',' by decide]
  | cons g fields ih =>
    have hf' := hlength f
    have hjoin : join (unit ',') ((f :: g :: fields).map renderMember) =
        renderMember f ++ unit ',' :: join (unit ',') ((g :: fields).map renderMember) := rfl
    rw [hjoin, List.length_append, List.length_cons] at hf
    obtain ⟨fuel, rfl⟩ := Nat.exists_eq_succ_of_ne_zero (by omega : fuel ≠ 0)
    have hv := h f List.mem_cons_self (fuel + 1)
      (unit ',' :: (join (unit ',') ((g :: fields).map renderMember) ++ unit '\x7d' :: rest))
      (by omega) (endsNumber_cons (by simp) _)
    rw [hjoin, List.append_assoc, List.cons_append, hmember, readMembers, readKey_quote]
    simp only [hv]
    rw [skipSpace_cons (by decide)]
    simp only [if_true]
    rw [ih (fun u hu => h u (List.mem_cons_of_mem f hu)) fuel (by omega)]
    rfl

theorem exists_join_eq_cons (v : JsValue) (l : List JsValue) (rest : Utf16) :
    ∃ c s, join (unit ',') ((v :: l).map render) ++ rest = c :: s ∧ isSpace c = false ∧
      c ≠ unit ']' := by
  obtain ⟨c, s, hcs, hspace, hclose⟩ := exists_render_eq_cons v
  cases l with
  | nil =>
    refine ⟨c, s ++ rest, ?_, hspace, hclose⟩
    show render v ++ rest = _
    rw [hcs, List.cons_append]
  | cons w l =>
    refine ⟨c, s ++ (unit ',' :: join (unit ',') ((w :: l).map render) ++ rest), ?_, hspace,
      hclose⟩
    show (render v ++ unit ',' :: join (unit ',') ((w :: l).map render)) ++ rest = _
    rw [hcs, List.append_assoc, List.cons_append]

theorem exists_joinMembers_eq_cons (f : Utf16 × JsValue) (l : List (Utf16 × JsValue))
    (rest : Utf16) :
    ∃ s, join (unit ',') ((f :: l).map renderMember) ++ rest = unit '"' :: s := by
  cases l with
  | nil => exact ⟨_, rfl⟩
  | cons g l => exact ⟨_, rfl⟩

/-- The text of a value reads back as what JSON keeps of it. -/
theorem readsBack (v : JsValue) (h : UniqueKeys v) : ReadsBack v := by
  induction v using valueInduction with
  | undefined =>
    intro fuel rest hf hr
    exact readValue_word "null" (c := unit 'n') rfl (by decide) readScalar_null
      (by omega) rest
  | null =>
    intro fuel rest hf hr
    exact readValue_word "null" (c := unit 'n') rfl (by decide) readScalar_null
      (by omega) rest
  | boolean b =>
    intro fuel rest hf hr
    cases b with
    | true =>
      exact readValue_word "true" (c := unit 't') rfl (by decide)
        (readScalar_boolean true) (by omega) rest
    | false =>
      exact readValue_word "false" (c := unit 'f') rfl (by decide)
        (readScalar_boolean false) (by omega) rest
  | number n =>
    intro fuel rest hf hr
    exact readValue_number n (by omega) hr
  | string s =>
    intro fuel rest hf hr
    obtain ⟨fuel, rfl⟩ := Nat.exists_eq_succ_of_ne_zero (by omega : fuel ≠ 0)
    show readValue (fuel + 1) (unit '"' :: ((quoteUnits s ++ [unit '"']) ++ rest)) = _
    rw [readValue, skipSpace_cons (by decide), List.append_assoc]
    simp only [if_true, List.singleton_append, readChars_quoteUnits]
    rfl
  | array elements ih =>
    intro fuel rest hf hr
    obtain ⟨fuel, rfl⟩ := Nat.exists_eq_succ_of_ne_zero (by omega : fuel ≠ 0)
    rw [UniqueKeys, uniqueKeysElements_iff] at h
    rw [render, renderElements_eq] at hf ⊢
    rw [clean, cleanElements_eq, List.cons_append, List.append_assoc, List.singleton_append,
      readValue, skipSpace_cons (by decide)]
    simp only [show unit '[' ≠ unit '"' by decide, if_false, if_true]
    cases elements with
    | nil =>
      show (match skipSpace (unit ']' :: rest) with | [] => none | d :: after => _) = _
      rw [skipSpace_cons (by decide)]
      rfl
    | cons v l =>
      -- the elements are read back one by one, as the commas between them separate them
      have hread := readElements_join (v := v) (l := l)
        (fun w hw => ih w hw (h w hw)) fuel
        (by simp only [List.length_cons, List.length_append, List.length_nil] at hf; omega) rest
      obtain ⟨c, s, hcs, hspace, hclose⟩ := exists_join_eq_cons v l (unit ']' :: rest)
      rw [hcs] at hread ⊢
      rw [skipSpace_cons hspace]
      simp only [if_neg hclose, hread, Option.map_some]
  | object fields ih =>
    intro fuel rest hf hr
    obtain ⟨fuel, rfl⟩ := Nat.exists_eq_succ_of_ne_zero (by omega : fuel ≠ 0)
    rw [UniqueKeys, uniqueKeysFields_iff] at h
    rw [render, renderFields_eq] at hf ⊢
    rw [clean, cleanFields_eq, List.cons_append, List.append_assoc, List.singleton_append,
      readValue, skipSpace_cons (by decide)]
    simp only [show unit '\x7b' ≠ unit '"' by decide, show unit '\x7b' ≠ unit '[' by decide,
      if_false, if_true]
    -- fields without a value are not written, and no key is written twice
    have hkeys : ((fields.filter (isDefined ·.2)).map Prod.fst).Nodup :=
      h.1.sublist (List.filter_sublist.map _)
    have hback : ∀ g ∈ fields.filter (isDefined ·.2), ReadsBack g.2 := fun g hg =>
      ih g (List.mem_of_mem_filter hg) (h.2 g (List.mem_of_mem_filter hg))
    cases hkept : fields.filter (isDefined ·.2) with
    | nil =>
      show (match skipSpace (unit '\x7d' :: rest) with | [] => none | d :: after => _) = _
      rw [skipSpace_cons (by decide)]
      rfl
    | cons f l =>
      rw [hkept] at hf hback hkeys
      have hread := readMembers_join hback fuel
        (by simp only [List.length_cons, List.length_append, List.length_nil] at hf; omega) rest
      obtain ⟨s, hs⟩ := exists_joinMembers_eq_cons f l (unit '\x7d' :: rest)
      rw [hs] at hread ⊢
      rw [skipSpace_cons (by decide)]
      simp only [if_neg (show unit '"' ≠ unit '\x7d' by decide), hread, Option.map_some]
      rw [fromMembers_eq (by simpa [List.map_map, Function.comp_def] using hkeys)]

/-- `JSON.parse` of `JSON.stringify`. -/
theorem parse_render (v : JsValue) (h : UniqueKeys v) : parse (render v) = some (clean v) := by
  have hread := readsBack v h (2 * (render v).length + 2) [] (by omega) endsNumber_nil
  rw [List.append_nil] at hread
  unfold parse
  rw [hread]
  rfl

end RoundTrip

section WellFormed

theorem isSurrogate_of_escapeLetter {c letter : CodeUnit} (h : escapeLetter c = some letter) :
    isSurrogate letter = false := by
  unfold escapeLetter at h
  split_ifs at h <;> (obtain rfl := Option.some.inj h; rfl)

theorem isWellFormed_quoteUnit (c : CodeUnit) : isWellFormed (quoteUnit c) = true := by
  unfold quoteUnit
  cases h : escapeLetter c with
  | some letter =>
    apply isWellFormed_of_forall
    simp only [List.forall_mem_cons, List.not_mem_nil, false_imp_iff, implies_true, and_true]
    exact ⟨rfl, isSurrogate_of_escapeLetter h⟩
  | none =>
    apply isWellFormed_of_forall
    simp only
    split_ifs with hc
    · have hhex : ∀ n, n < 0x10 → isSurrogate (hexDigit n) = false := by
        intro n hn
        interval_cases n <;> rfl
      have := c.isLt
      unfold unicodeEscape
      simp only [List.forall_mem_cons, List.not_mem_nil, false_imp_iff, implies_true, and_true]
      exact ⟨rfl, rfl, hhex _ (by omega), hhex _ (by omega), hhex _ (by omega), hhex _ (by omega)⟩
    · intro d hd
      rw [List.mem_singleton.mp hd]
      exact Bool.eq_false_iff.mpr fun h => hc (.inr h)

/-- Lone surrogates are escaped. -/
theorem isWellFormed_quoteUnits (s : Utf16) : isWellFormed (quoteUnits s) = true := by
  induction s using pointInduction with
  | nil => rfl
  | pair c d s hc hd ih =>
    rw [quoteUnits, if_pos ⟨hc, hd⟩, isWellFormed, if_pos (by simp [hc, hd])]
    exact ih
  | unit c s h ih =>
    rw [quoteUnits_cons h]
    exact isWellFormed_append (isWellFormed_quoteUnit c) ih

theorem isWellFormed_cons_append {c : CodeUnit} (hc : isSurrogate c = false) {s t : Utf16}
    (hs : isWellFormed s = true) (ht : isWellFormed t = true) :
    isWellFormed (s ++ c :: t) = true := by
  apply isWellFormed_append hs
  apply isWellFormed_append (s := [c]) _ ht
  simp [isWellFormed, hc]

theorem isWellFormed_join {separator : CodeUnit} (hseparator : isSurrogate separator = false)
    {l : List Utf16} (h : ∀ s ∈ l, isWellFormed s = true) :
    isWellFormed (join separator l) = true := by
  induction l with
  | nil => rfl
  | cons s l ih =>
    have hs := h s List.mem_cons_self
    have hl := ih fun t ht => h t (List.mem_cons_of_mem s ht)
    cases l with
    | nil => exact hs
    | cons t l => exact isWellFormed_cons_append hseparator hs hl

theorem isWellFormed_quote (s : Utf16) : isWellFormed (quote s) = true :=
  isWellFormed_cons_append (s := []) rfl rfl
    (isWellFormed_append (isWellFormed_quoteUnits s) (by decide))

/-- JSON texts have no lone surrogates. -/
theorem isWellFormed_render (v : JsValue) : isWellFormed (render v) = true := by
  induction v using valueInduction with
  | undefined => decide
  | null => decide
  | boolean b => cases b <;> decide
  | number n =>
    show isWellFormed (renderNumber n) = true
    cases n with
    | nan => decide
    | infinity => decide
    | negInfinity => decide
    | negZero => exact Number.isWellFormed_toText .negZero
    | finite d => exact Number.isWellFormed_toText (.finite d)
  | string s => exact isWellFormed_quote s
  | array elements ih =>
    rw [render, renderElements_eq]
    refine isWellFormed_cons_append (s := []) rfl rfl (isWellFormed_append ?_ (by decide))
    apply isWellFormed_join rfl
    intro s hs
    obtain ⟨v, hv, rfl⟩ := List.mem_map.mp hs
    exact ih v hv
  | object fields ih =>
    rw [render, renderFields_eq]
    refine isWellFormed_cons_append (s := []) rfl rfl (isWellFormed_append ?_ (by decide))
    apply isWellFormed_join rfl
    intro s hs
    obtain ⟨f, hf, rfl⟩ := List.mem_map.mp hs
    exact isWellFormed_cons_append rfl (isWellFormed_quote f.1)
      (ih f (List.mem_of_mem_filter hf))

end WellFormed

section Literal

/-- A code unit of ASCII that JSON writes as it is. -/
def isLiteral (c : CodeUnit) : Bool :=
  0x20 ≤ c.val && c.val < 0x7F && c.val ≠ 0x22 && c.val ≠ 0x5C

theorem quoteUnit_of_isLiteral {c : CodeUnit} (h : isLiteral c = true) : quoteUnit c = [c] := by
  unfold isLiteral at h
  simp only [Bool.and_eq_true, decide_eq_true_eq] at h
  obtain ⟨⟨⟨hlow, hhigh⟩, hquote⟩, hslash⟩ := h
  unfold quoteUnit escapeLetter
  rw [if_neg hquote, if_neg hslash, if_neg (by omega), if_neg (by omega), if_neg (by omega),
    if_neg (by omega), if_neg (by omega)]
  simp only
  rw [if_neg]
  unfold isSurrogate
  simp only [Bool.and_eq_true, decide_eq_true_eq]
  omega

theorem quote_of_isLiteral {s : Utf16} (h : ∀ c ∈ s, isLiteral c = true) :
    quote s = unit '"' :: (s ++ [unit '"']) := by
  have hunits : quoteUnits s = s := by
    induction s using quoteUnits.induct with
    | case1 => rfl
    | case2 c => exact quoteUnit_of_isLiteral (h c List.mem_cons_self)
    | case3 c d rest hpair ih =>
      rw [quoteUnits, if_pos hpair, ih fun e he => h e (by simp [he])]
    | case4 c d rest hpair ih =>
      rw [quoteUnits, if_neg hpair, quoteUnit_of_isLiteral (h c List.mem_cons_self),
        ih fun e he => h e (List.mem_cons_of_mem c he)]
      rfl
  unfold quote
  rw [hunits]

/-- Separators add to the length of the parts. -/
theorem length_join (separator : CodeUnit) (l : List Utf16) :
    (join separator l).length = (l.map List.length).sum + (l.length - 1) := by
  induction l with
  | nil => rfl
  | cons s l ih =>
    cases l with
    | nil => simp [join]
    | cons t l =>
      show (s ++ separator :: join separator (t :: l)).length = _
      rw [List.length_append, List.length_cons, ih]
      simp
      omega

theorem mem_join {separator c : CodeUnit} {l : List Utf16} (h : c ∈ join separator l) :
    c = separator ∨ ∃ s ∈ l, c ∈ s := by
  induction l with
  | nil => cases h
  | cons s l ih =>
    cases l with
    | nil => exact .inr ⟨s, List.mem_cons_self, h⟩
    | cons t l =>
      change c ∈ s ++ separator :: join separator (t :: l) at h
      rw [List.mem_append, List.mem_cons] at h
      rcases h with h | h | h
      · exact .inr ⟨s, List.mem_cons_self, h⟩
      · exact .inl h
      · exact (ih h).imp_right fun ⟨u, hu, hc⟩ => ⟨u, List.mem_cons_of_mem s hu, hc⟩

end Literal

end Json
