import Flashclaw.Exec.WindowsShell

/-!
# An escaped argv, read back

A double quote in a token is written twice, which the tokenizer reads as the end of a
quotation and the start of the next.
-/

namespace Flashclaw.Exec.Windows

open Utf16

/-- `value.replace(/"/g, '""')` -/
def doubled (value : Utf16) : Utf16 :=
  value.flatMap fun c => if c = DOUBLE then [DOUBLE, DOUBLE] else [c]

/-- What the tokenizer reads of a token that was escaped. -/
def withoutQuotes (token : Utf16) : Utf16 := token.filter fun c => c ≠ DOUBLE

theorem withoutQuotes_eq_self_iff {token : Utf16} :
    withoutQuotes token = token ↔ DOUBLE ∉ token := by
  rw [withoutQuotes, List.filter_eq_self]
  constructor
  · intro h hmem
    simpa using h DOUBLE hmem
  · rintro h c hc
    rw [decide_eq_true_eq]
    rintro rfl
    exact h hc

def Escapes (tokens parts : List Utf16) : Prop :=
  List.Forall₂ (fun token part => windowsEscapeArg token = some part) tokens parts

/-- An escaped token is the token itself, or its doubled text between double quotes. -/
theorem windowsEscapeArg_cases {token part : Utf16} (h : windowsEscapeArg token = some part) :
    hasUnsafeMeta token = false ∧
      (token ≠ [] ∧ (∀ c ∈ token, isBare c = true) ∧ part = token ∨
        part = DOUBLE :: (doubled token ++ [DOUBLE])) := by
  rw [windowsEscapeArg] at h
  split_ifs at h with hnil hmeta hbare
  · rw [hnil]
    exact ⟨rfl, .inr (Option.some.inj h).symm⟩
  · exact ⟨Bool.eq_false_iff.mpr hmeta,
      .inl ⟨hnil, List.all_eq_true.mp hbare, (Option.some.inj h).symm⟩⟩
  · exact ⟨Bool.eq_false_iff.mpr hmeta, .inr (Option.some.inj h).symm⟩

theorem escapes_of_escapeAll {tokens parts : List Utf16} (h : escapeAll tokens = .ok parts) :
    Escapes tokens parts := by
  induction tokens generalizing parts with
  | nil =>
    obtain rfl := Except.ok.inj h
    exact .nil
  | cons token tokens ih =>
    rw [escapeAll] at h
    cases hpart : windowsEscapeArg token with
    | none =>
      rw [hpart] at h
      cases h
    | some part =>
      cases hrest : escapeAll tokens with
      | error reason =>
        rw [hpart, hrest] at h
        cases h
      | ok rest =>
        rw [hpart, hrest] at h
        obtain rfl := Except.ok.inj h
        exact .cons hpart (ih hrest)

theorem letter_bounds {c : CodeUnit} (h : isLetter c = true) :
    (65 ≤ c.val ∧ c.val ≤ 90) ∨ (97 ≤ c.val ∧ c.val ≤ 122) := by
  simp only [isLetter, Bool.or_eq_true, Bool.and_eq_true, decide_eq_true_eq, Fin.le_def] at h
  rcases h with h | h
  · exact .inr h
  · exact .inl h

theorem bare_bounds {c : CodeUnit} (h : isBare c = true) :
    (65 ≤ c.val ∧ c.val ≤ 90) ∨ (97 ≤ c.val ∧ c.val ≤ 122) ∨ (45 ≤ c.val ∧ c.val ≤ 58) ∨
      c.val = 95 ∨ c.val = 126 ∨ c.val = 92 ∨ c.val = 61 := by
  rw [isBare, Bool.or_eq_true, Bool.or_eq_true] at h
  rcases h with (h | h) | h
  · have := letter_bounds h
    omega
  · simp only [isDigit, Bool.and_eq_true, decide_eq_true_eq, Fin.le_def] at h
    have : 48 ≤ c.val ∧ c.val ≤ 57 := h
    omega
  · rw [decide_eq_true_eq] at h
    have : c.val ∈ (ofString "_./:~\\=-").map Fin.val := List.mem_map_of_mem h
    have hvals : (ofString "_./:~\\=-").map Fin.val = [95, 46, 47, 58, 126, 92, 61, 45] := by decide
    rw [hvals] at this
    simp only [List.mem_cons, List.not_mem_nil, or_false] at this
    omega

theorem not_blank {c : CodeUnit} (hlow : 33 ≤ c.val) (hhigh : c.val ≤ 126) :
    isWhiteSpace c = false := by
  rw [isWhiteSpace]
  simp only [List.mem_cons, List.not_mem_nil, or_false, Bool.or_eq_false_iff,
    Bool.and_eq_false_iff, decide_eq_false_iff_not]
  omega

theorem bare_not_blank {c : CodeUnit} (h : isBare c = true) : isWhiteSpace c = false := by
  have := bare_bounds h
  apply not_blank <;> omega

theorem bare_ne {c d : CodeUnit} (h : isBare c = true) (hd : isBare d = false) : c ≠ d := by
  rintro rfl
  rw [h] at hd
  cases hd

namespace Tokenizer

/-- Two single quotes are one character inside single quotes only. -/
theorem readAll_cons {t : Tokenizer} (h : t.inSingle = false) (ch : CodeUnit) (rest : Utf16) :
    readAll (ch :: rest) t = readAll rest (t.read ch) := by
  cases rest with
  | nil => rfl
  | cons next rest =>
    rw [readAll, if_neg]
    rintro ⟨-, -, hsingle, -⟩
    rw [h] at hsingle
    cases hsingle

theorem readAll_bare {value : Utf16} (h : ∀ c ∈ value, isBare c = true) (rest : Utf16)
    (tokens : List Utf16) (buf : Utf16) (wasQuoted : Bool) :
    readAll (value ++ rest) ⟨tokens, buf, false, false, wasQuoted⟩ =
      readAll rest ⟨tokens, buf ++ value, false, false, wasQuoted⟩ := by
  induction value generalizing buf with
  | nil => rw [List.nil_append, List.append_nil]
  | cons c value ih =>
    have hc : isBare c = true := h c List.mem_cons_self
    have hdouble : c ≠ DOUBLE := bare_ne hc (by decide)
    have hsingle : c ≠ SINGLE := bare_ne hc (by decide)
    have hread : read ⟨tokens, buf, false, false, wasQuoted⟩ c =
        ⟨tokens, buf ++ [c], false, false, wasQuoted⟩ := by
      simp [read, hdouble, hsingle, bare_not_blank hc]
    rw [List.cons_append, readAll_cons rfl, hread,
      ih fun d hd => h d (List.mem_cons_of_mem c hd), List.append_assoc, List.singleton_append]

/-- Between double quotes a character is itself, and a double quote twice is nothing. -/
theorem readAll_doubled (value rest : Utf16) (tokens : List Utf16) (buf : Utf16) :
    readAll (doubled value ++ rest) ⟨tokens, buf, true, false, true⟩ =
      readAll rest ⟨tokens, buf ++ withoutQuotes value, true, false, true⟩ := by
  induction value generalizing buf with
  | nil =>
    rw [withoutQuotes, List.filter_nil, List.append_nil, doubled, List.flatMap_nil,
      List.nil_append]
  | cons c value ih =>
    rw [doubled, List.flatMap_cons, List.append_assoc]
    change readAll (_ ++ (doubled value ++ rest)) _ = _
    by_cases hc : c = DOUBLE
    · have hwithout : withoutQuotes (c :: value) = withoutQuotes value := by
        simp [withoutQuotes, hc]
      rw [if_pos hc, List.cons_append, List.singleton_append, readAll_cons rfl, readAll_cons rfl,
        hwithout, ← ih buf]
      rfl
    · have hwithout : withoutQuotes (c :: value) = c :: withoutQuotes value := by
        simp [withoutQuotes, hc]
      have hread : read ⟨tokens, buf, true, false, true⟩ c =
          ⟨tokens, buf ++ [c], true, false, true⟩ := by
        simp [read, hc]
      rw [if_neg hc, List.singleton_append, readAll_cons rfl, hread, ih, hwithout,
        List.append_assoc, List.singleton_append]

/-- A token that was escaped is complete where its text ends. -/
theorem readAll_part {token part : Utf16} (h : windowsEscapeArg token = some part)
    (rest : Utf16) (tokens : List Utf16) :
    ∃ t : Tokenizer, readAll (part ++ rest) ⟨tokens, [], false, false, false⟩ = readAll rest t ∧
      t.inDouble = false ∧ t.inSingle = false ∧
      t.pushToken = ⟨tokens ++ [withoutQuotes token], [], false, false, false⟩ := by
  obtain ⟨-, ⟨hne, hbare, rfl⟩ | rfl⟩ := windowsEscapeArg_cases h
  · refine ⟨⟨tokens, part, false, false, false⟩, ?_, rfl, rfl, ?_⟩
    · rw [readAll_bare hbare, List.nil_append]
    · have hclean : withoutQuotes part = part := by
        apply withoutQuotes_eq_self_iff.mpr
        intro hmem
        exact absurd rfl (bare_ne (hbare DOUBLE hmem) (d := DOUBLE) (by decide))
      have hlength : 0 < part.length := List.length_pos_of_ne_nil hne
      simp [pushToken, hclean, hlength]
  · refine ⟨⟨tokens, withoutQuotes token, false, false, true⟩, ?_, rfl, rfl, ?_⟩
    · rw [List.cons_append, readAll_cons rfl, List.append_assoc]
      have hopen : read ⟨tokens, [], false, false, false⟩ DOUBLE =
          ⟨tokens, [], true, false, true⟩ := rfl
      rw [hopen, readAll_doubled, List.nil_append, List.singleton_append, readAll_cons rfl]
      rfl
    · simp [pushToken]

theorem readAll_join {tokens parts : List Utf16} (h : Escapes tokens parts) (hne : tokens ≠ [])
    (read : List Utf16) :
    ∃ t : Tokenizer, readAll (join (unit ' ') parts) ⟨read, [], false, false, false⟩ = t ∧
      t.inDouble = false ∧ t.inSingle = false ∧
      t.pushToken.tokens = read ++ tokens.map withoutQuotes := by
  induction h generalizing read with
  | nil => exact absurd rfl hne
  | @cons token part tokens parts hpart hrest ih =>
    cases hrest with
    | nil =>
      obtain ⟨t, ht, hdouble, hsingle, hpush⟩ := readAll_part hpart [] read
      rw [List.append_nil] at ht
      refine ⟨t, ?_, hdouble, hsingle, ?_⟩
      · rw [join_singleton, ht]
        rfl
      · rw [hpush, List.map_singleton]
    | @cons next part' tokens parts hpart' hrest =>
      obtain ⟨t, ht, hdouble, hsingle, hpush⟩ :=
        readAll_part hpart (unit ' ' :: join (unit ' ') (part' :: parts)) read
      obtain ⟨u, hu, hdouble', hsingle', hpush'⟩ :=
        ih (List.cons_ne_nil _ _) (read ++ [withoutQuotes token])
      refine ⟨u, ?_, hdouble', hsingle', ?_⟩
      · -- the blank between two parts ends the token
        have hblank : t.read (unit ' ') = t.pushToken := by
          simp [Tokenizer.read, hdouble, hsingle, show unit ' ' ≠ DOUBLE by decide,
            show unit ' ' ≠ SINGLE by decide, show isWhiteSpace (unit ' ') = true by decide]
        rw [join_cons_cons, ht, readAll_cons hsingle, hblank, hpush, hu]
      · rw [hpush', List.append_assoc]
        rfl

end Tokenizer

/-- The tokenizer reads an escaped argv back without its double quotes. -/
theorem tokenize_escaped {tokens parts : List Utf16} (h : Escapes tokens parts)
    (hne : tokens ≠ []) :
    tokenizeWindowsSegment (join (unit ' ') parts) = some (tokens.map withoutQuotes) := by
  obtain ⟨t, ht, hdouble, hsingle, hpush⟩ := Tokenizer.readAll_join h hne []
  have hlength : 0 < (tokens.map withoutQuotes).length := by
    rw [List.length_map]
    exact List.length_pos_of_ne_nil hne
  rw [List.nil_append] at hpush
  rw [tokenizeWindowsSegment, Tokenizer.start, ht, hdouble, hsingle, hpush]
  simp only [Bool.or_self, Bool.false_eq_true, if_false, if_pos hlength]

theorem map_withoutQuotes_eq_self_iff {tokens : List Utf16} :
    tokens.map withoutQuotes = tokens ↔ ∀ token ∈ tokens, DOUBLE ∉ token := by
  have hid : tokens.map withoutQuotes = tokens ↔ tokens.map withoutQuotes = tokens.map id := by
    rw [List.map_id]
  rw [hid, List.map_inj_left]
  exact forall₂_congr fun token _ => withoutQuotes_eq_self_iff

end Flashclaw.Exec.Windows
