import Flashclaw.OcPath.JsonlText

/-!
# Rendered values

Which values are rendered, and that their texts are lines: no blanks in front
and no control characters.
-/

open Utf16

namespace Jsonl

open OcPath JsoncValue

/-- Some string of the value carries the sentinel. -/
inductive Marked : JsoncValue → Prop
  | string {s : Utf16} (h : REDACTED_SENTINEL <:+: s) : Marked (.string s)
  | entry {entries : List (Utf16 × JsoncValue)} {e : Utf16 × JsoncValue} (he : e ∈ entries)
      (h : Marked e.2) : Marked (.object entries)
  | item {items : List JsoncValue} {v : JsoncValue} (hv : v ∈ items) (h : Marked v) :
      Marked (.array items)

/-- Starts with no blank and holds no control character. -/
structure Visible (text : Utf16) : Prop where
  starts : ∃ c rest, text = c :: rest ∧ isWhiteSpace c = false
  printable : ∀ c ∈ text, 0x20 ≤ c.val

theorem Visible.trim_ne_nil {text : Utf16} (h : Visible text) : trim text ≠ [] := by
  obtain ⟨c, rest, rfl, hc⟩ := h.starts
  have hhead := head?_trim (s := c :: rest) rfl hc
  intro hnil
  rw [hnil] at hhead
  cases hhead

theorem Visible.ne_nil {text : Utf16} (h : Visible text) : text ≠ [] := by
  obtain ⟨c, rest, rfl, -⟩ := h.starts
  exact List.cons_ne_nil c rest

theorem Visible.noBreak {text : Utf16} (h : Visible text) : LF ∉ text := fun hmem =>
  absurd (h.printable LF hmem) (by decide)

theorem Visible.noReturn {text : Utf16} (h : Visible text) : text.getLast? ≠ some CR := fun hlast =>
  absurd (h.printable CR (List.mem_of_getLast? hlast)) (by decide)

/-- What escapes are made of. -/
def IsPrintable (c : CodeUnit) : Prop := 0x20 ≤ c.val ∧ c.val < 0x80

instance (c : CodeUnit) : Decidable (IsPrintable c) := inferInstanceAs (Decidable (_ ∧ _))

theorem hexDigit_printable (n : ℕ) : IsPrintable (Json.hexDigit n) := by
  by_cases h : n < 16
  · interval_cases n <;> decide
  · have : Nat.digitChar n = '*' := by
      unfold Nat.digitChar
      simp only [show n ≠ 0 by omega, show n ≠ 1 by omega, show n ≠ 2 by omega,
        show n ≠ 3 by omega, show n ≠ 4 by omega, show n ≠ 5 by omega, show n ≠ 6 by omega,
        show n ≠ 7 by omega, show n ≠ 8 by omega, show n ≠ 9 by omega, show n ≠ 10 by omega,
        show n ≠ 11 by omega, show n ≠ 12 by omega, show n ≠ 13 by omega, show n ≠ 14 by omega,
        show n ≠ 15 by omega, if_false]
    rw [Json.hexDigit, this]
    decide

theorem unicodeEscape_printable {c d : CodeUnit} (h : d ∈ Json.unicodeEscape c) :
    IsPrintable d := by
  simp only [Json.unicodeEscape, List.mem_cons, List.not_mem_nil, or_false] at h
  rcases h with rfl | rfl | rfl | rfl | rfl | rfl
  · decide
  · decide
  all_goals exact hexDigit_printable _

theorem escapeLetter_printable {c letter : CodeUnit} (h : Json.escapeLetter c = some letter) :
    IsPrintable letter := by
  unfold Json.escapeLetter at h
  split_ifs at h <;>
  · obtain rfl := Option.some.inj h
    decide

/-- A unit is quoted as itself or by an escape. -/
theorem quoteUnit_cases {c d : CodeUnit} (h : d ∈ Json.quoteUnit c) :
    (d = c ∧ 0x20 ≤ c.val) ∨ IsPrintable d := by
  unfold Json.quoteUnit at h
  cases hletter : Json.escapeLetter c with
  | some letter =>
    rw [hletter] at h
    right
    rcases List.mem_cons.mp h with rfl | h
    · decide
    · obtain rfl := List.mem_singleton.mp h
      exact escapeLetter_printable hletter
  | none =>
    rw [hletter] at h
    dsimp only at h
    split_ifs at h with hescape
    · exact .inr (unicodeEscape_printable h)
    · obtain rfl := List.mem_singleton.mp h
      exact .inl ⟨rfl, by omega⟩

theorem quoteUnit_printable {c d : CodeUnit} (h : d ∈ Json.quoteUnit c) : 0x20 ≤ d.val := by
  obtain ⟨rfl, hd⟩ | hd := quoteUnit_cases h
  · exact hd
  · exact hd.1

theorem quoteUnits_printable {s : Utf16} {d : CodeUnit} (h : d ∈ Json.quoteUnits s) :
    0x20 ≤ d.val := by
  induction s using pointInduction with
  | nil => cases h
  | pair c e rest hc he ih =>
    rw [Json.quoteUnits, if_pos ⟨hc, he⟩] at h
    simp only [isHighSurrogate, isLowSurrogate, Bool.and_eq_true, decide_eq_true_eq] at hc he
    rcases List.mem_cons.mp h with rfl | h
    · omega
    · rcases List.mem_cons.mp h with rfl | h
      · omega
      · exact ih h
  | unit c rest hsep ih =>
    rw [Json.quoteUnits_cons hsep] at h
    rcases List.mem_append.mp h with h | h
    · exact quoteUnit_printable h
    · exact ih h

theorem quote_printable {s : Utf16} {d : CodeUnit} (h : d ∈ Json.quote s) : 0x20 ≤ d.val := by
  rcases List.mem_cons.mp h with rfl | h
  · decide
  · rcases List.mem_append.mp h with h | h
    · exact quoteUnits_printable h
    · obtain rfl := List.mem_singleton.mp h
      decide

theorem visible_cons {c : CodeUnit} {rest : Utf16} (hc : isWhiteSpace c = false)
    (hprint : 0x20 ≤ c.val) (h : ∀ d ∈ rest, 0x20 ≤ d.val) : Visible (c :: rest) where
  starts := ⟨c, rest, rfl, hc⟩
  printable d hd := by
    rcases List.mem_cons.mp hd with rfl | hd
    · exact hprint
    · exact h d hd

theorem visible_quote (s : Utf16) : Visible (Json.quote s) :=
  visible_cons (by decide) (by decide) fun _ hd => quote_printable (List.mem_cons_of_mem _ hd)

theorem visible_of_isNumberUnit {text : Utf16} (hne : text ≠ [])
    (h : ∀ c ∈ text, Number.IsNumberUnit c) : Visible text := by
  cases text with
  | nil => exact absurd rfl hne
  | cons c rest =>
    have hc := h c List.mem_cons_self
    unfold Number.IsNumberUnit at hc
    apply visible_cons
    · unfold isWhiteSpace
      simp only [List.mem_cons, List.not_mem_nil, or_false, Bool.or_eq_false_iff,
        decide_eq_false_iff_not, Bool.and_eq_false_iff]
      omega
    · omega
    · intro d hd
      have := h d (List.mem_cons_of_mem c hd)
      unfold Number.IsNumberUnit at this
      omega

theorem visible_of_all {c : CodeUnit} {rest : Utf16} (hc : isWhiteSpace c = false)
    (h : (c :: rest).all (fun d => 0x20 ≤ d.val) = true) : Visible (c :: rest) :=
  ⟨⟨c, rest, rfl, hc⟩, fun d hd => by simpa using List.all_eq_true.mp h d hd⟩

theorem visible_toText (n : Number) : Visible n.toText := by
  cases n with
  | finite d =>
    obtain ⟨c, rest, htext, -⟩ := Number.exists_toText_finite_eq_cons d
    apply visible_of_isNumberUnit
    · rw [htext]
      exact List.cons_ne_nil c rest
    · exact Number.isNumberUnit_toText d
  | _ => exact visible_of_all (by decide) (by decide)

theorem visible_join {c d : CodeUnit} {parts : List Utf16} (hc : isWhiteSpace c = false)
    (hc' : 0x20 ≤ c.val) (hd : 0x20 ≤ d.val) (h : ∀ p ∈ parts, Visible p) :
    Visible (c :: (Json.join (unit ',') parts ++ [d])) := by
  apply visible_cons hc hc'
  intro x hx
  rcases List.mem_append.mp hx with hx | hx
  · obtain rfl | ⟨p, hp, hxp⟩ := Json.mem_join hx
    · decide
    · exact (h p hp).printable x hxp
  · obtain rfl := List.mem_singleton.mp hx
    exact hd

theorem renderEntries_visible {guardPath : Utf16} {walked : List Utf16}
    {entries : List (Utf16 × JsoncValue)} {parts : List Utf16}
    (h : renderEntries guardPath walked entries = .ok parts)
    (ih : ∀ e ∈ entries, ∀ walked text, renderValue guardPath walked e.2 = .ok text →
      Visible text) : ∀ p ∈ parts, Visible p := by
  induction entries generalizing parts with
  | nil =>
    obtain rfl := Except.ok.inj h
    intro p hp
    cases hp
  | cons e entries ihs =>
    rw [renderEntries] at h
    obtain ⟨text, htext, h⟩ := Results.bind_eq_ok.mp h
    obtain ⟨rest, hrest, h⟩ := Results.bind_eq_ok.mp h
    obtain rfl := Except.ok.inj h
    intro p hp
    rcases List.mem_cons.mp hp with rfl | hp
    · have hvalue := ih e List.mem_cons_self _ text htext
      apply visible_cons (by decide) (by decide)
      intro d hd
      have hd : d ∈ (Json.quoteUnits e.1 ++ [unit '"']) ++ unit ':' :: text := hd
      rcases List.mem_append.mp hd with hd | hd
      · exact quote_printable (List.mem_cons_of_mem _ hd)
      · rcases List.mem_cons.mp hd with rfl | hd
        · decide
        · exact hvalue.printable d hd
    · exact ihs hrest (fun e he => ih e (List.mem_cons_of_mem _ he)) p hp

theorem renderItems_visible {guardPath : Utf16} {walked : List Utf16} {i : ℕ}
    {items : List JsoncValue} {parts : List Utf16}
    (h : renderItems guardPath walked i items = .ok parts)
    (ih : ∀ v ∈ items, ∀ walked text, renderValue guardPath walked v = .ok text → Visible text) :
    ∀ p ∈ parts, Visible p := by
  induction items generalizing i parts with
  | nil =>
    obtain rfl := Except.ok.inj h
    intro p hp
    cases hp
  | cons v items ihs =>
    rw [renderItems] at h
    obtain ⟨text, htext, h⟩ := Results.bind_eq_ok.mp h
    obtain ⟨rest, hrest, h⟩ := Results.bind_eq_ok.mp h
    obtain rfl := Except.ok.inj h
    intro p hp
    rcases List.mem_cons.mp hp with rfl | hp
    · exact ih v List.mem_cons_self _ p htext
    · exact ihs hrest (fun v hv => ih v (List.mem_cons_of_mem _ hv)) p hp

theorem renderValue_visible (v : JsoncValue) {guardPath : Utf16} :
    ∀ {walked : List Utf16} {text : Utf16}, renderValue guardPath walked v = .ok text →
      Visible text := by
  induction v using valueInduction with
  | object entries ih =>
    intro walked text h
    rw [renderValue] at h
    obtain ⟨parts, hparts, h⟩ := Results.bind_eq_ok.mp h
    obtain rfl := Except.ok.inj h
    apply visible_join (by decide) (by decide) (by decide)
    exact renderEntries_visible hparts fun e he _ _ => ih e he
  | array items ih =>
    intro walked text h
    rw [renderValue] at h
    obtain ⟨parts, hparts, h⟩ := Results.bind_eq_ok.mp h
    obtain rfl := Except.ok.inj h
    apply visible_join (by decide) (by decide) (by decide)
    exact renderItems_visible hparts fun v hv _ _ => ih v hv
  | string s =>
    intro walked text h
    rw [renderValue] at h
    split at h
    · cases h
    · obtain rfl := Except.ok.inj h
      exact visible_quote s
  | number n =>
    intro walked text h
    obtain rfl := Except.ok.inj h
    exact visible_toText n
  | boolean b =>
    intro walked text h
    obtain rfl := Except.ok.inj h
    cases b
    all_goals exact visible_of_all (by decide) (by decide)
  | null =>
    intro walked text h
    obtain rfl := Except.ok.inj h
    exact visible_of_all (by decide) (by decide)

theorem exists_renderEntries_iff {guardPath : Utf16} (walked : List Utf16)
    {entries : List (Utf16 × JsoncValue)} (ih : ∀ e ∈ entries, ∀ walked,
      (∃ text, renderValue guardPath walked e.2 = .ok text) ↔ ¬ Marked e.2) :
    (∃ parts, renderEntries guardPath walked entries = .ok parts) ↔
      ∀ e ∈ entries, ¬ Marked e.2 := by
  induction entries with
  | nil =>
    constructor
    · intro _ e he
      cases he
    · intro _
      exact ⟨[], rfl⟩
  | cons e entries ihs =>
    have hhead := ih e List.mem_cons_self (walked ++ [e.1])
    have htail := ihs fun e he => ih e (List.mem_cons_of_mem _ he)
    rw [List.forall_mem_cons, ← hhead, ← htail, renderEntries]
    constructor
    · rintro ⟨parts, h⟩
      obtain ⟨text, htext, h⟩ := Results.bind_eq_ok.mp h
      obtain ⟨rest, hrest, h⟩ := Results.bind_eq_ok.mp h
      exact ⟨⟨text, htext⟩, ⟨rest, hrest⟩⟩
    · rintro ⟨⟨text, htext⟩, ⟨rest, hrest⟩⟩
      exact ⟨_, Results.bind_eq_ok.mpr ⟨text, htext, Results.bind_eq_ok.mpr ⟨rest, hrest, rfl⟩⟩⟩

theorem exists_renderItems_iff {guardPath : Utf16} (walked : List Utf16) (i : ℕ)
    {items : List JsoncValue} (ih : ∀ v ∈ items, ∀ walked,
      (∃ text, renderValue guardPath walked v = .ok text) ↔ ¬ Marked v) :
    (∃ parts, renderItems guardPath walked i items = .ok parts) ↔ ∀ v ∈ items, ¬ Marked v := by
  induction items generalizing i with
  | nil =>
    constructor
    · intro _ v hv
      cases hv
    · intro _
      exact ⟨[], rfl⟩
  | cons v items ihs =>
    have hhead := ih v List.mem_cons_self (walked ++ [OcPath.natText i])
    have htail := ihs (i + 1) fun v hv => ih v (List.mem_cons_of_mem _ hv)
    rw [List.forall_mem_cons, ← hhead, ← htail, renderItems]
    constructor
    · rintro ⟨parts, h⟩
      obtain ⟨text, htext, h⟩ := Results.bind_eq_ok.mp h
      obtain ⟨rest, hrest, h⟩ := Results.bind_eq_ok.mp h
      exact ⟨⟨text, htext⟩, ⟨rest, hrest⟩⟩
    · rintro ⟨⟨text, htext⟩, ⟨rest, hrest⟩⟩
      exact ⟨_, Results.bind_eq_ok.mpr ⟨text, htext, Results.bind_eq_ok.mpr ⟨rest, hrest, rfl⟩⟩⟩

/-- The sentinel alone stops the rendering. -/
theorem exists_renderValue_iff (v : JsoncValue) {guardPath : Utf16} :
    ∀ walked, (∃ text, renderValue guardPath walked v = .ok text) ↔ ¬ Marked v := by
  induction v using valueInduction with
  | object entries ih =>
    intro walked
    have hentries := exists_renderEntries_iff walked ih
    rw [renderValue]
    constructor
    · rintro ⟨text, h⟩ ⟨⟩
      rename_i e hmarked he
      obtain ⟨parts, hparts, -⟩ := Results.bind_eq_ok.mp h
      exact hentries.mp ⟨parts, hparts⟩ e he hmarked
    · intro h
      obtain ⟨parts, hparts⟩ := hentries.mpr fun e he hmarked => h (.entry he hmarked)
      exact ⟨_, Results.bind_eq_ok.mpr ⟨parts, hparts, rfl⟩⟩
  | array items ih =>
    intro walked
    have hitems := exists_renderItems_iff walked 0 ih
    rw [renderValue]
    constructor
    · rintro ⟨text, h⟩ ⟨⟩
      rename_i v hmarked hv
      obtain ⟨parts, hparts, -⟩ := Results.bind_eq_ok.mp h
      exact hitems.mp ⟨parts, hparts⟩ v hv hmarked
    · intro h
      obtain ⟨parts, hparts⟩ := hitems.mpr fun v hv hmarked => h (.item hv hmarked)
      exact ⟨_, Results.bind_eq_ok.mpr ⟨parts, hparts, rfl⟩⟩
  | string s =>
    intro walked
    rw [renderValue]
    by_cases hs : REDACTED_SENTINEL <:+: s
    · rw [if_pos hs]
      constructor
      · rintro ⟨text, ⟨⟩⟩
      · intro h
        exact absurd (.string hs) h
    · rw [if_neg hs]
      constructor
      · rintro - ⟨h⟩
        exact hs h
      · intro _
        exact ⟨_, rfl⟩
  | number n => exact fun _ => ⟨fun _ h => (by cases h), fun _ => ⟨_, rfl⟩⟩
  | boolean b => exact fun _ => ⟨fun _ h => (by cases h), fun _ => ⟨_, rfl⟩⟩
  | null => exact fun _ => ⟨fun _ h => (by cases h), fun _ => ⟨_, rfl⟩⟩

end Jsonl
