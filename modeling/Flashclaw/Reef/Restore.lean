import Flashclaw.Reef.Audit

/-!
# Reef: audit texts are restored

What decrypting makes of an encrypted payload.  A text comes back through
UTF-8, and a field `__proto__` does not come back.
-/

namespace Flashclaw.Reef

open Utf16 Json Results

section EveryField

mutual

/-- A property of every field of every record in a value. -/
def EveryField (p : Utf16 → JsValue → Prop) : JsValue → Prop
  | .array elements => EveryFieldElements p elements
  | .object fields => EveryFieldFields p fields
  | _ => True

def EveryFieldElements (p : Utf16 → JsValue → Prop) : List JsValue → Prop
  | [] => True
  | child :: elements => EveryField p child ∧ EveryFieldElements p elements

def EveryFieldFields (p : Utf16 → JsValue → Prop) : List (Utf16 × JsValue) → Prop
  | [] => True
  | (name, child) :: fields => (p name child ∧ EveryField p child) ∧ EveryFieldFields p fields

end

variable {p q : Utf16 → JsValue → Prop}

theorem everyField_array {l : List JsValue} :
    EveryField p (.array l) ↔ ∀ v ∈ l, EveryField p v := by
  rw [EveryField]
  induction l with
  | nil => simp [EveryFieldElements]
  | cons v l ih => simp [EveryFieldElements, ih]

theorem everyField_object {fields : List (Utf16 × JsValue)} :
    EveryField p (.object fields) ↔ ∀ f ∈ fields, p f.1 f.2 ∧ EveryField p f.2 := by
  rw [EveryField]
  induction fields with
  | nil => simp [EveryFieldFields]
  | cons f fields ih =>
    rw [EveryFieldFields, ih]
    simp

theorem EveryField.and {v : JsValue} (hp : EveryField p v) (hq : EveryField q v) :
    EveryField (fun name child => p name child ∧ q name child) v := by
  induction v using valueInduction with
  | undefined => trivial
  | null => trivial
  | boolean b => trivial
  | number n => trivial
  | string s => trivial
  | array elements ih =>
    rw [everyField_array] at hp hq ⊢
    exact fun v hv => ih v hv (hp v hv) (hq v hv)
  | object fields ih =>
    rw [everyField_object] at hp hq ⊢
    exact fun f hf => ⟨⟨(hp f hf).1, (hq f hf).1⟩, ih f hf (hp f hf).2 (hq f hf).2⟩

theorem EveryField.mono {v : JsValue} (h : ∀ name child, p name child → q name child)
    (hp : EveryField p v) : EveryField q v := by
  induction v using valueInduction with
  | undefined => trivial
  | null => trivial
  | boolean b => trivial
  | number n => trivial
  | string s => trivial
  | array elements ih =>
    rw [everyField_array] at hp ⊢
    exact fun v hv => ih v hv (hp v hv)
  | object fields ih =>
    rw [everyField_object] at hp ⊢
    exact fun f hf => ⟨h _ _ (hp f hf).1, ih f hf (hp f hf).2⟩

end EveryField

/-- No field is called `__proto__`. -/
def NoProto : JsValue → Prop := EveryField fun name _ => name ≠ ofString "__proto__"

/-- No sensitive field is a record `{ enc }` itself. -/
def NoEnc : JsValue → Prop :=
  EveryField fun name child => isSensitive name = true → ∀ fields, child = .object fields →
    encText fields = none

/-- Every sensitive text survives UTF-8. -/
def TextsSurvive : JsValue → Prop :=
  EveryField fun name child => isSensitive name = true → ∀ text, child = .string text →
    isWellFormed text = true ∧ ¬ Utf8.StartsWithMark text

/-- What encryption and decryption keep. -/
def Restorable (v : JsValue) : Prop := NoProto v ∧ TextsSurvive v

/-- What UTF-8 makes of a text. -/
def decodedText (text : Utf16) : Utf16 :=
  if Utf8.StartsWithMark text then Utf8.toWellFormed text.tail else Utf8.toWellFormed text

theorem decodeUtf8_utf8 (text : Utf16) : decodeUtf8 (utf8 text) = .ok (decodedText text) := by
  unfold decodeUtf8 utf8
  rw [Utf8.decode_encode]
  rfl

theorem decodedText_eq_self_iff (text : Utf16) :
    decodedText text = text ↔ isWellFormed text = true ∧ ¬ Utf8.StartsWithMark text := by
  rw [← Utf8.decode_encode_eq_self_iff, Utf8.decode_encode, Option.some.injEq]
  rfl

/-- A field with its text as it comes back. -/
def throughText (name : Utf16) : JsValue → JsValue
  | .string text => .string (if isSensitive name then decodedText text else text)
  | child => child

mutual

/-- A value with its sensitive texts as they come back. -/
def through : JsValue → JsValue
  | .array elements => .array (throughElements elements)
  | .object fields => .object (throughFields fields)
  | v => v

def throughElements : List JsValue → List JsValue
  | [] => []
  | child :: elements => through child :: throughElements elements

def throughFields : List (Utf16 × JsValue) → List (Utf16 × JsValue)
  | [] => []
  | (name, child) :: fields => (name, throughText name (through child)) :: throughFields fields

end

theorem throughElements_eq (l : List JsValue) : throughElements l = l.map through := by
  induction l with
  | nil => rfl
  | cons v l ih => rw [throughElements, ih, List.map_cons]

theorem throughFields_eq (fields : List (Utf16 × JsValue)) :
    throughFields fields = fields.map fun f => (f.1, throughText f.1 (through f.2)) := by
  induction fields with
  | nil => rfl
  | cons f fields ih => rw [throughFields, ih, List.map_cons]

theorem map_eq_self_iff {α : Type*} {f : α → α} {l : List α} :
    l.map f = l ↔ ∀ a ∈ l, f a = a := by
  induction l with
  | nil => simp
  | cons a l ih => simp [ih]

theorem through_eq_self_iff (v : JsValue) : through v = v ↔ TextsSurvive v := by
  unfold TextsSurvive
  induction v using valueInduction with
  | undefined => exact iff_of_true rfl trivial
  | null => exact iff_of_true rfl trivial
  | boolean b => exact iff_of_true rfl trivial
  | number n => exact iff_of_true rfl trivial
  | string s => exact iff_of_true rfl trivial
  | array elements ih =>
    rw [through, throughElements_eq, JsValue.array.injEq, map_eq_self_iff, everyField_array]
    exact forall₂_congr ih
  | object fields ih =>
    rw [through, throughFields_eq, JsValue.object.injEq, map_eq_self_iff, everyField_object]
    refine forall₂_congr fun f hf => ?_
    obtain ⟨name, child⟩ := f
    rw [← ih _ hf, Prod.mk.injEq]
    simp only [true_and]
    cases child with
    | string text =>
      simp only [through, throughText, JsValue.string.injEq, and_true]
      cases isSensitive name with
      | true => simp [decodedText_eq_self_iff]
      | false => simp
    | array elements => simp [through, throughText]
    | object fields => simp [through, throughText]
    | undefined => simp [through, throughText]
    | null => simp [through, throughText]
    | boolean b => simp [through, throughText]
    | number n => simp [through, throughText]

variable {crypto : AuditCrypto} {key : Bytes} {rng : ℕ → Bytes}

/-- AES-GCM decrypts what it encrypted, which a tag of 16 bytes lengthens. -/
structure GcmCorrect (crypto : AuditCrypto) : Prop where
  decrypt : ∀ key nonce plaintext,
    crypto.decrypt key nonce (crypto.encrypt key nonce plaintext) = .ok plaintext
  length : ∀ key nonce plaintext,
    (crypto.encrypt key nonce plaintext).length = plaintext.length + 16

section Encrypt

/-- The value of one field, encrypted. -/
def encryptField (crypto : AuditCrypto) (key : Bytes) (rng : ℕ → Bytes) (draws : ℕ)
    (name : Utf16) : JsValue → Except JsError (JsValue × ℕ)
  | .string text =>
    if isSensitive name then encryptText crypto key rng draws text
    else .ok (.string text, draws)
  | child => encryptSensitive crypto key rng draws child

theorem encryptFields_cons (draws : ℕ) (name : Utf16) (child : JsValue)
    (fields : List (Utf16 × JsValue)) :
    encryptFields crypto key rng draws ((name, child) :: fields) = do
      let (first, draws) ← encryptField crypto key rng draws name child
      let (output, draws) ← encryptFields crypto key rng draws fields
      return (assignField name first output, draws) := by
  cases child with
  | string text =>
    rw [encryptFields, encryptField]
    cases isSensitive name <;> rfl
  | _ => rfl

/-- What is encrypted has as many nonces as it needs. -/
theorem exists_encryptSensitive (hrng : ∀ n, (rng n).length = 12) (v : JsValue) (draws : ℕ) :
    ∃ w, encryptSensitive crypto key rng draws v = .ok w := by
  induction v using valueInduction generalizing draws with
  | undefined => exact ⟨_, rfl⟩
  | null => exact ⟨_, rfl⟩
  | boolean b => exact ⟨_, rfl⟩
  | number n => exact ⟨_, rfl⟩
  | string s => exact ⟨_, rfl⟩
  | array elements ih =>
    have hall : ∀ draws, ∃ w, encryptElements crypto key rng draws elements = .ok w := by
      induction elements with
      | nil => exact fun draws => ⟨_, rfl⟩
      | cons v l ihl =>
        intro draws
        obtain ⟨⟨first, draws'⟩, hfirst⟩ := ih v List.mem_cons_self draws
        obtain ⟨⟨output, draws''⟩, hrest⟩ :=
          ihl (fun w hw => ih w (List.mem_cons_of_mem v hw)) draws'
        exact ⟨_, bind_eq_ok.mpr ⟨_, hfirst, bind_eq_ok.mpr ⟨_, hrest, rfl⟩⟩⟩
    obtain ⟨w, hw⟩ := hall draws
    exact ⟨_, bind_eq_ok.mpr ⟨w, hw, rfl⟩⟩
  | object fields ih =>
    have hall : ∀ draws, ∃ w, encryptFields crypto key rng draws fields = .ok w := by
      induction fields with
      | nil => exact fun draws => ⟨_, rfl⟩
      | cons f l ihl =>
        intro draws
        obtain ⟨name, child⟩ := f
        obtain ⟨⟨first, draws'⟩, hfirst⟩ :
            ∃ w, encryptField crypto key rng draws name child = .ok w := by
          have hchild := ih (name, child) List.mem_cons_self draws
          cases child with
          | string text =>
            unfold encryptField encryptText
            simp only [hrng, ne_eq, not_true, if_false]
            split_ifs <;> exact ⟨_, rfl⟩
          | _ => exact hchild
        obtain ⟨⟨output, draws''⟩, hrest⟩ :=
          ihl (fun w hw => ih w (List.mem_cons_of_mem _ hw)) draws'
        rw [encryptFields_cons]
        exact ⟨_, bind_eq_ok.mpr ⟨_, hfirst, bind_eq_ok.mpr ⟨_, hrest, rfl⟩⟩⟩
    obtain ⟨w, hw⟩ := hall draws
    exact ⟨_, bind_eq_ok.mpr ⟨w, hw, rfl⟩⟩

end Encrypt

section Restore

/-- Decrypting an encrypted text gives what UTF-8 makes of it. -/
theorem decryptText_encryptText (hgcm : GcmCorrect crypto) {draws draws' : ℕ} {text : Utf16}
    {v : JsValue} (h : encryptText crypto key rng draws text = .ok (v, draws')) :
    decryptSensitive crypto key true v = .ok (.string (decodedText text)) := by
  unfold encryptText at h
  simp only at h
  split_ifs at h with hnonce
  obtain ⟨rfl, -⟩ := Prod.mk.inj (Except.ok.inj h)
  have hlength : (rng draws).length = 12 := not_not.mp hnonce
  have htake : (rng draws ++ crypto.encrypt key (rng draws) (utf8 text)).take 12 = rng draws :=
    List.take_left' hlength
  have hdrop : (rng draws ++ crypto.encrypt key (rng draws) (utf8 text)).drop 12 =
      crypto.encrypt key (rng draws) (utf8 text) := List.drop_left' hlength
  have hlong : ¬ (rng draws ++ crypto.encrypt key (rng draws) (utf8 text)).length < 28 := by
    rw [List.length_append, hlength, hgcm.length]
    omega
  show decryptText crypto key _ = _
  unfold decryptText
  rw [fromBase64_base64]
  simp only [bind, Except.bind, if_neg hlong, htake, hdrop, hgcm.decrypt, decodeUtf8_utf8]
  rfl

theorem encText_cons_cons (f g : Utf16 × JsValue) (fields : List (Utf16 × JsValue)) :
    encText (f :: g :: fields) = none := by
  obtain ⟨name, child⟩ := f
  cases child <;> rfl

/-- An encrypted record is `{ enc }` only if it was so. -/
theorem encText_encryptFields {fields output : List (Utf16 × JsValue)} {draws draws' : ℕ}
    (hproto : ∀ f ∈ fields, f.1 ≠ ofString "__proto__")
    (h : encryptFields crypto key rng draws fields = .ok (output, draws')) {text : Utf16}
    (henc : encText output = some text) : encText fields = some text := by
  -- the encrypted record has one field, so the record has, and that holds a text
  cases fields with
  | nil =>
    obtain ⟨rfl, -⟩ := Prod.mk.inj (Except.ok.inj h)
    cases henc
  | cons f fields =>
    obtain ⟨name, child⟩ := f
    rw [encryptFields_cons] at h
    obtain ⟨⟨first, draws₁⟩, hfirst, h⟩ := bind_eq_ok.mp h
    obtain ⟨⟨rest, draws₂⟩, hrest, h⟩ := bind_eq_ok.mp h
    obtain ⟨rfl, -⟩ := Prod.mk.inj (Except.ok.inj h)
    have hname := hproto _ List.mem_cons_self
    rw [assignField, if_neg hname] at henc
    cases rest with
    | cons g rest =>
      rw [encText_cons_cons] at henc
      cases henc
    | nil =>
      have hnil : fields = [] := by
        cases fields with
        | nil => rfl
        | cons g fields =>
          rw [encryptFields_cons] at hrest
          obtain ⟨⟨first', draws₃⟩, -, hrest⟩ := bind_eq_ok.mp hrest
          obtain ⟨⟨rest', draws₄⟩, -, hrest⟩ := bind_eq_ok.mp hrest
          have hnext := hproto g (by simp)
          have hcons := (Prod.mk.inj (Except.ok.inj hrest)).1
          rw [assignField, if_neg hnext] at hcons
          cases hcons
      subst hnil
      cases child with
      | string original =>
        unfold encryptField at hfirst
        split_ifs at hfirst with hsensitive
        · unfold encryptText at hfirst
          simp only at hfirst
          split_ifs at hfirst
          obtain ⟨rfl, -⟩ := Prod.mk.inj (Except.ok.inj hfirst)
          cases henc
        · obtain ⟨rfl, -⟩ := Prod.mk.inj (Except.ok.inj hfirst)
          exact henc
      | array elements =>
        obtain ⟨w, -, hw⟩ := bind_eq_ok.mp hfirst
        obtain ⟨rfl, -⟩ := Prod.mk.inj (Except.ok.inj hw)
        cases henc
      | object fields =>
        obtain ⟨w, -, hw⟩ := bind_eq_ok.mp hfirst
        obtain ⟨rfl, -⟩ := Prod.mk.inj (Except.ok.inj hw)
        cases henc
      | undefined =>
        obtain ⟨rfl, -⟩ := Prod.mk.inj (Except.ok.inj hfirst)
        cases henc
      | null =>
        obtain ⟨rfl, -⟩ := Prod.mk.inj (Except.ok.inj hfirst)
        cases henc
      | boolean b =>
        obtain ⟨rfl, -⟩ := Prod.mk.inj (Except.ok.inj hfirst)
        cases henc
      | number n =>
        obtain ⟨rfl, -⟩ := Prod.mk.inj (Except.ok.inj hfirst)
        cases henc

/-- The value that is decrypted, in a sensitive field or not, comes back through UTF-8. -/
def Restores (crypto : AuditCrypto) (key : Bytes) (rng : ℕ → Bytes) (v : JsValue) : Prop :=
  ∀ sensitive, (sensitive = true → ∀ fields, v = .object fields → encText fields = none) →
    ∀ draws w draws', encryptSensitive crypto key rng draws v = .ok (w, draws') →
      decryptSensitive crypto key sensitive w = .ok (through v)

theorem restores_scalar {v : JsValue}
    (he : ∀ draws, encryptSensitive crypto key rng draws v = .ok (v, draws))
    (hd : ∀ sensitive, decryptSensitive crypto key sensitive v = .ok v) (ht : through v = v) :
    Restores crypto key rng v := by
  intro sensitive _ draws w draws' h
  rw [he] at h
  obtain ⟨rfl, -⟩ := Prod.mk.inj (Except.ok.inj h)
  rw [hd, ht]

theorem restores_field (hgcm : GcmCorrect crypto) {name : Utf16} {child : JsValue}
    (hchild : Restores crypto key rng child)
    (henc : isSensitive name = true → ∀ fields, child = .object fields → encText fields = none)
    {draws draws' : ℕ} {first : JsValue}
    (h : encryptField crypto key rng draws name child = .ok (first, draws')) :
    decryptSensitive crypto key (isSensitive name) first =
      .ok (throughText name (through child)) := by
  cases child with
  | string text =>
    unfold encryptField at h
    show _ = Except.ok (JsValue.string (if isSensitive name then decodedText text else text))
    split_ifs at h ⊢ with hsensitive
    · rw [hsensitive]
      exact decryptText_encryptText hgcm h
    · obtain ⟨rfl, -⟩ := Prod.mk.inj (Except.ok.inj h)
      rfl
  | array elements => exact hchild _ henc _ _ _ h
  | object fields => exact hchild _ henc _ _ _ h
  | undefined => exact hchild _ henc _ _ _ h
  | null => exact hchild _ henc _ _ _ h
  | boolean b => exact hchild _ henc _ _ _ h
  | number n => exact hchild _ henc _ _ _ h

theorem restores_elements {elements : List JsValue}
    (h : ∀ v ∈ elements, Restores crypto key rng v) {draws draws' : ℕ} {output : List JsValue}
    (houtput : encryptElements crypto key rng draws elements = .ok (output, draws')) :
    decryptElements crypto key output = .ok (throughElements elements) := by
  induction elements generalizing draws draws' output with
  | nil =>
    obtain ⟨rfl, -⟩ := Prod.mk.inj (Except.ok.inj houtput)
    rfl
  | cons v l ih =>
    obtain ⟨⟨first, draws₁⟩, hfirst, houtput⟩ := bind_eq_ok.mp houtput
    obtain ⟨⟨rest, draws₂⟩, hrest, houtput⟩ := bind_eq_ok.mp houtput
    obtain ⟨rfl, -⟩ := Prod.mk.inj (Except.ok.inj houtput)
    have hv := h v List.mem_cons_self false (by simp) _ _ _ hfirst
    have hl := ih (fun w hw => h w (List.mem_cons_of_mem v hw)) hrest
    rw [decryptElements, hv, hl]
    rfl

theorem restores_fields (hgcm : GcmCorrect crypto) {fields : List (Utf16 × JsValue)}
    (hproto : ∀ f ∈ fields, f.1 ≠ ofString "__proto__")
    (henc : ∀ f ∈ fields, isSensitive f.1 = true → ∀ own, f.2 = .object own → encText own = none)
    (h : ∀ f ∈ fields, Restores crypto key rng f.2) {draws draws' : ℕ}
    {output : List (Utf16 × JsValue)}
    (houtput : encryptFields crypto key rng draws fields = .ok (output, draws')) :
    decryptFields crypto key output = .ok (throughFields fields) := by
  induction fields generalizing draws draws' output with
  | nil =>
    obtain ⟨rfl, -⟩ := Prod.mk.inj (Except.ok.inj houtput)
    rfl
  | cons f l ih =>
    obtain ⟨name, child⟩ := f
    rw [encryptFields_cons] at houtput
    obtain ⟨⟨first, draws₁⟩, hfirst, houtput⟩ := bind_eq_ok.mp houtput
    obtain ⟨⟨rest, draws₂⟩, hrest, houtput⟩ := bind_eq_ok.mp houtput
    obtain ⟨rfl, -⟩ := Prod.mk.inj (Except.ok.inj houtput)
    have hname := hproto _ List.mem_cons_self
    have hv := restores_field hgcm (h _ List.mem_cons_self) (henc _ List.mem_cons_self) hfirst
    have hl := ih (fun g hg => hproto g (List.mem_cons_of_mem _ hg))
      (fun g hg => henc g (List.mem_cons_of_mem _ hg))
      (fun g hg => h g (List.mem_cons_of_mem _ hg)) hrest
    rw [assignField, if_neg hname, decryptFields, hv, hl]
    rfl

/-- Decrypting an encrypted value gives it through UTF-8. -/
theorem restores (hgcm : GcmCorrect crypto) (v : JsValue) (hproto : NoProto v) (henc : NoEnc v) :
    Restores crypto key rng v := by
  unfold NoProto at hproto
  unfold NoEnc at henc
  induction v using valueInduction with
  | undefined => exact restores_scalar (fun _ => rfl) (fun _ => rfl) rfl
  | null => exact restores_scalar (fun _ => rfl) (fun _ => rfl) rfl
  | boolean b => exact restores_scalar (fun _ => rfl) (fun _ => rfl) rfl
  | number n => exact restores_scalar (fun _ => rfl) (fun _ => rfl) rfl
  | string s => exact restores_scalar (fun _ => rfl) (fun _ => rfl) rfl
  | array elements ih =>
    rw [everyField_array] at hproto henc
    intro sensitive _ draws w draws' h
    obtain ⟨⟨output, draws₁⟩, houtput, h⟩ := bind_eq_ok.mp h
    obtain ⟨rfl, -⟩ := Prod.mk.inj (Except.ok.inj h)
    have hall := restores_elements (fun v hv => ih v hv (hproto v hv) (henc v hv)) houtput
    rw [decryptSensitive, hall, through]
    rfl
  | object fields ih =>
    rw [everyField_object] at hproto henc
    intro sensitive hsensitive draws w draws' h
    obtain ⟨⟨output, draws₁⟩, houtput, h⟩ := bind_eq_ok.mp h
    obtain ⟨rfl, -⟩ := Prod.mk.inj (Except.ok.inj h)
    have hnone : (if sensitive then encText output else none) = none := by
      cases sensitive with
      | false => rfl
      | true =>
        rw [if_pos rfl]
        by_contra hsome
        obtain ⟨text, htext⟩ := Option.ne_none_iff_exists'.mp hsome
        have := encText_encryptFields (fun f hf => (hproto f hf).1) houtput htext
        rw [hsensitive rfl fields rfl] at this
        cases this
    have hall := restores_fields hgcm (fun f hf => (hproto f hf).1) (fun f hf => (henc f hf).1)
      (fun f hf => ih f hf (hproto f hf).2 (henc f hf).2) houtput
    rw [decryptSensitive, hnone, hall, through]
    rfl

theorem noProto_encryptElements {elements output : List JsValue}
    (h : ∀ v ∈ elements, ∀ draws w draws',
      encryptSensitive crypto key rng draws v = .ok (w, draws') → NoProto w)
    {draws draws' : ℕ}
    (houtput : encryptElements crypto key rng draws elements = .ok (output, draws')) :
    ∀ w ∈ output, NoProto w := by
  induction elements generalizing draws draws' output with
  | nil =>
    obtain ⟨rfl, -⟩ := Prod.mk.inj (Except.ok.inj houtput)
    simp
  | cons v l ih =>
    obtain ⟨⟨first, draws₁⟩, hfirst, houtput⟩ := bind_eq_ok.mp houtput
    obtain ⟨⟨rest, draws₂⟩, hrest, houtput⟩ := bind_eq_ok.mp houtput
    obtain ⟨rfl, -⟩ := Prod.mk.inj (Except.ok.inj houtput)
    rw [List.forall_mem_cons]
    exact ⟨h v List.mem_cons_self _ _ _ hfirst,
      ih (fun w hw => h w (List.mem_cons_of_mem v hw)) hrest⟩

theorem noProto_encryptField {name : Utf16} {child : JsValue}
    (h : ∀ draws w draws', encryptSensitive crypto key rng draws child = .ok (w, draws') →
      NoProto w) {draws draws' : ℕ} {first : JsValue}
    (hfirst : encryptField crypto key rng draws name child = .ok (first, draws')) :
    NoProto first := by
  cases child with
  | string text =>
    unfold encryptField at hfirst
    split_ifs at hfirst
    · unfold encryptText at hfirst
      simp only at hfirst
      split_ifs at hfirst
      obtain ⟨rfl, -⟩ := Prod.mk.inj (Except.ok.inj hfirst)
      unfold NoProto
      rw [everyField_object, List.forall_mem_singleton]
      have henc : ofString "enc" ≠ ofString "__proto__" := by decide
      exact ⟨henc, trivial⟩
    · obtain ⟨rfl, -⟩ := Prod.mk.inj (Except.ok.inj hfirst)
      trivial
  | array elements => exact h _ _ _ hfirst
  | object fields => exact h _ _ _ hfirst
  | undefined => exact h _ _ _ hfirst
  | null => exact h _ _ _ hfirst
  | boolean b => exact h _ _ _ hfirst
  | number n => exact h _ _ _ hfirst

theorem noProto_encryptFields {fields output : List (Utf16 × JsValue)}
    (h : ∀ f ∈ fields, ∀ draws w draws',
      encryptSensitive crypto key rng draws f.2 = .ok (w, draws') → NoProto w)
    {draws draws' : ℕ}
    (houtput : encryptFields crypto key rng draws fields = .ok (output, draws')) :
    ∀ f ∈ output, f.1 ≠ ofString "__proto__" ∧ NoProto f.2 := by
  induction fields generalizing draws draws' output with
  | nil =>
    obtain ⟨rfl, -⟩ := Prod.mk.inj (Except.ok.inj houtput)
    simp
  | cons f l ih =>
    obtain ⟨name, child⟩ := f
    rw [encryptFields_cons] at houtput
    obtain ⟨⟨first, draws₁⟩, hfirst, houtput⟩ := bind_eq_ok.mp houtput
    obtain ⟨⟨rest, draws₂⟩, hrest, houtput⟩ := bind_eq_ok.mp houtput
    obtain ⟨rfl, -⟩ := Prod.mk.inj (Except.ok.inj houtput)
    have hl := ih (fun g hg => h g (List.mem_cons_of_mem _ hg)) hrest
    unfold assignField
    split_ifs with hname
    · exact hl
    · rw [List.forall_mem_cons]
      exact ⟨⟨hname, noProto_encryptField (h _ List.mem_cons_self) hfirst⟩, hl⟩

/-- An encrypted value has no field `__proto__`. -/
theorem noProto_encryptSensitive {v w : JsValue} {draws draws' : ℕ}
    (h : encryptSensitive crypto key rng draws v = .ok (w, draws')) : NoProto w := by
  induction v using valueInduction generalizing draws w draws' with
  | array elements ih =>
    obtain ⟨⟨output, draws₁⟩, houtput, h⟩ := bind_eq_ok.mp h
    obtain ⟨rfl, -⟩ := Prod.mk.inj (Except.ok.inj h)
    apply everyField_array.mpr
    exact noProto_encryptElements (fun v hv _ _ _ => ih v hv) houtput
  | object fields ih =>
    obtain ⟨⟨output, draws₁⟩, houtput, h⟩ := bind_eq_ok.mp h
    obtain ⟨rfl, -⟩ := Prod.mk.inj (Except.ok.inj h)
    apply everyField_object.mpr
    exact noProto_encryptFields (fun f hf _ _ _ => ih f hf) houtput
  | _ =>
    obtain ⟨rfl, -⟩ := Prod.mk.inj (Except.ok.inj h)
    trivial

theorem noProto_decryptText {text : Utf16} {v : JsValue} (h : decryptText crypto key text = .ok v) :
    NoProto v := by
  obtain ⟨combined, -, h⟩ := bind_eq_ok.mp h
  split_ifs at h
  obtain ⟨plaintext, -, h⟩ := bind_eq_ok.mp h
  obtain ⟨decoded, -, h⟩ := bind_eq_ok.mp h
  obtain rfl := Except.ok.inj h
  trivial

theorem noProto_decryptElements {elements output : List JsValue}
    (h : ∀ v ∈ elements, ∀ sensitive w, decryptSensitive crypto key sensitive v = .ok w →
      NoProto w)
    (houtput : decryptElements crypto key elements = .ok output) : ∀ w ∈ output, NoProto w := by
  induction elements generalizing output with
  | nil =>
    obtain rfl := Except.ok.inj houtput
    simp
  | cons v l ih =>
    obtain ⟨first, hfirst, houtput⟩ := bind_eq_ok.mp houtput
    obtain ⟨rest, hrest, houtput⟩ := bind_eq_ok.mp houtput
    obtain rfl := Except.ok.inj houtput
    rw [List.forall_mem_cons]
    exact ⟨h v List.mem_cons_self _ _ hfirst,
      ih (fun w hw => h w (List.mem_cons_of_mem v hw)) hrest⟩

theorem noProto_decryptFields {fields output : List (Utf16 × JsValue)}
    (hproto : ∀ f ∈ fields, f.1 ≠ ofString "__proto__")
    (h : ∀ f ∈ fields, ∀ sensitive w, decryptSensitive crypto key sensitive f.2 = .ok w →
      NoProto w)
    (houtput : decryptFields crypto key fields = .ok output) :
    ∀ f ∈ output, f.1 ≠ ofString "__proto__" ∧ NoProto f.2 := by
  induction fields generalizing output with
  | nil =>
    obtain rfl := Except.ok.inj houtput
    simp
  | cons f l ih =>
    obtain ⟨name, child⟩ := f
    obtain ⟨first, hfirst, houtput⟩ := bind_eq_ok.mp houtput
    obtain ⟨rest, hrest, houtput⟩ := bind_eq_ok.mp houtput
    obtain rfl := Except.ok.inj houtput
    rw [List.forall_mem_cons]
    exact ⟨⟨hproto (name, child) List.mem_cons_self, h _ List.mem_cons_self _ _ hfirst⟩,
      ih (fun g hg => hproto g (List.mem_cons_of_mem _ hg))
        (fun g hg => h g (List.mem_cons_of_mem _ hg)) hrest⟩

/-- Decrypting brings no field `__proto__`. -/
theorem noProto_decryptSensitive {v : JsValue} (hv : NoProto v) {sensitive : Bool} {w : JsValue}
    (h : decryptSensitive crypto key sensitive v = .ok w) : NoProto w := by
  induction v using valueInduction generalizing sensitive w with
  | array elements ih =>
    have helements := everyField_array.mp hv
    rw [decryptSensitive] at h
    obtain ⟨output, houtput, rfl⟩ := map_eq_ok.mp h
    apply everyField_array.mpr
    exact noProto_decryptElements (fun v hv _ _ => ih v hv (helements v hv)) houtput
  | object fields ih =>
    have hfields := everyField_object.mp hv
    rw [decryptSensitive] at h
    split at h
    · exact noProto_decryptText h
    · obtain ⟨output, houtput, rfl⟩ := map_eq_ok.mp h
      apply everyField_object.mpr
      exact noProto_decryptFields (fun f hf => (hfields f hf).1)
        (fun f hf _ _ => ih f hf (hfields f hf).2) houtput
  | _ =>
    obtain rfl := Except.ok.inj h
    trivial

/-- A payload comes back as it was if and only if it is restorable. -/
theorem decryptSensitive_eq_self_iff (hgcm : GcmCorrect crypto) {v w : JsValue} (henc : NoEnc v)
    {draws draws' : ℕ} (h : encryptSensitive crypto key rng draws v = .ok (w, draws')) :
    decryptSensitive crypto key false w = .ok v ↔ Restorable v := by
  have hback : NoProto v → decryptSensitive crypto key false w = .ok (through v) :=
    fun hproto => restores hgcm v hproto henc false (by simp) _ _ _ h
  constructor
  · intro hsame
    have hproto : NoProto v := noProto_decryptSensitive (noProto_encryptSensitive h) hsame
    rw [hback hproto] at hsame
    exact ⟨hproto, (through_eq_self_iff v).mp (Except.ok.inj hsame)⟩
  · rintro ⟨hproto, htexts⟩
    rw [hback hproto, (through_eq_self_iff v).mpr htexts]

end Restore

end Flashclaw.Reef
