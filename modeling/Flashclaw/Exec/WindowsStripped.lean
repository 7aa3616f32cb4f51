import Flashclaw.Exec.WindowsTokens

/-!
# What a wrapper takes away

Tokens keep every character that is no quote and no blank, and so does the text behind a
wrapper, less the wrapper. A command that was stripped has fewer of them in its tokens.
-/

namespace Flashclaw.Exec.Windows

open Utf16 Backtracking

def isSolid (c : CodeUnit) : Bool := c ≠ DOUBLE && c ≠ SINGLE && !isWhiteSpace c

def solids (s : Utf16) : ℕ := s.countP isSolid

theorem isSolid_iff {c : CodeUnit} :
    isSolid c = true ↔ c ≠ DOUBLE ∧ c ≠ SINGLE ∧ isWhiteSpace c = false := by
  rw [isSolid, Bool.and_eq_true, Bool.and_eq_true, decide_eq_true_eq, decide_eq_true_eq,
    Bool.not_eq_true', and_assoc]

theorem solids_append (s t : Utf16) : solids (s ++ t) = solids s + solids t := List.countP_append

theorem solids_cons (c : CodeUnit) (s : Utf16) : solids (c :: s) = solids s + solids [c] :=
  List.countP_cons.trans (by simp [solids, List.countP_singleton])

theorem solids_of_not_solid {c : CodeUnit} (h : isSolid c = false) : solids [c] = 0 := by
  rw [solids, List.countP_singleton, h]
  rfl

theorem solids_le_of_infix {s t : Utf16} (h : s <:+: t) : solids s ≤ solids t :=
  h.sublist.countP_le

theorem blank_not_solid {c : CodeUnit} (h : isWhiteSpace c = true) : isSolid c = false := by
  rw [isSolid, h]
  exact Bool.and_false _

theorem solids_dropWhile (s : Utf16) : solids (s.dropWhile isWhiteSpace) = solids s := by
  induction s with
  | nil => rfl
  | cons c s ih =>
    rw [List.dropWhile_cons]
    split
    · rename_i hblank
      rw [ih, solids_cons, solids_of_not_solid (blank_not_solid hblank), Nat.add_zero]
    · rfl

theorem solids_reverse (s : Utf16) : solids s.reverse = solids s := List.countP_reverse

theorem solids_trim (s : Utf16) : solids (trim s) = solids s := by
  rw [trim, trimEnd, List.rdropWhile, solids_reverse, solids_dropWhile, solids_reverse, trimStart,
    solids_dropWhile]

theorem solids_undouble {quote : CodeUnit} (h : isSolid quote = false) (s : Utf16) :
    solids (undouble quote s) = solids s := by
  induction s using undouble.induct quote with
  | case1 => rfl
  | case2 c => rfl
  | case3 c d rest hquotes ih =>
    obtain ⟨rfl, rfl⟩ := hquotes
    rw [undouble, if_pos ⟨rfl, rfl⟩, solids_cons, solids_cons d (d :: rest), solids_cons d rest,
      solids_of_not_solid h, ih, Nat.add_zero]
  | case4 c d rest hquotes ih =>
    rw [undouble, if_neg hquotes, solids_cons, solids_cons c (d :: rest), ih]

theorem solids_withoutQuotes (token : Utf16) : solids (withoutQuotes token) = solids token := by
  rw [solids, withoutQuotes, List.countP_filter]
  apply List.countP_congr
  intro c _
  rw [Bool.and_eq_true, decide_eq_true_eq, and_iff_left_iff_imp]
  exact fun h => (isSolid_iff.mp h).1

namespace Tokenizer

def solids (t : Tokenizer) : ℕ := (t.tokens.map Windows.solids).sum + Windows.solids t.buf

theorem solids_pushToken (t : Tokenizer) : t.pushToken.solids = t.solids := by
  rw [pushToken]
  split
  · simp [solids, Windows.solids]
  · rfl

theorem solids_read (t : Tokenizer) (ch : CodeUnit) :
    (t.read ch).solids = t.solids + Windows.solids [ch] := by
  rw [read]
  split_ifs with hdouble hsingle hblank
  · rw [hdouble.1, solids_of_not_solid (by decide)]
    rfl
  · rw [hsingle.1, solids_of_not_solid (by decide)]
    rfl
  · rw [Bool.and_eq_true] at hblank
    rw [solids_pushToken, solids_of_not_solid (blank_not_solid hblank.2), Nat.add_zero]
  · rw [solids, solids_append, ← Nat.add_assoc]
    rfl

/-- No character but quotes and blanks is lost, and none is new. -/
theorem solids_readAll (s : Utf16) (t : Tokenizer) :
    (readAll s t).solids = t.solids + Windows.solids s := by
  induction s, t using readAll.induct with
  | case1 t => rfl
  | case2 ch t => exact solids_read t ch
  | case3 ch next rest t hescape ih =>
    rw [readAll, if_pos hescape, ih]
    obtain ⟨rfl, -, -, rfl⟩ := hescape
    have hquote : Windows.solids [SINGLE] = 0 := solids_of_not_solid (by decide)
    rw [solids, solids, solids_append, solids_cons SINGLE (SINGLE :: rest),
      solids_cons SINGLE rest, hquote]
    rfl
  | case4 ch next rest t hescape ih =>
    rw [readAll, if_neg hescape, ih, solids_read, solids_cons ch (next :: rest)]
    omega

theorem buf_pushToken (t : Tokenizer) : t.pushToken.buf = [] := by
  rw [pushToken]
  split_ifs with h
  · rfl
  · rw [Bool.or_eq_true, not_or, decide_eq_true_eq, Nat.not_lt, Nat.le_zero] at h
    exact List.length_eq_zero_iff.mp h.1

end Tokenizer

theorem solids_tokens {segment : Utf16} {argv : List Utf16}
    (h : tokenizeWindowsSegment segment = some argv) :
    (argv.map solids).sum = solids segment := by
  have hread := Tokenizer.solids_readAll segment .start
  rw [← Tokenizer.solids_pushToken, Tokenizer.solids, Tokenizer.buf_pushToken] at hread
  rw [tokenizeWindowsSegment] at h
  split_ifs at h
  obtain rfl := Option.some.inj h
  have hstart : Tokenizer.start.solids = 0 := rfl
  have hnil : solids [] = 0 := rfl
  omega

theorem solid_of_sameLetter {c d : CodeUnit} (hc : isSolid c = true) (h : sameLetter c d = true) :
    isSolid d = true := by
  rw [sameLetter, Bool.or_eq_true, Bool.and_eq_true, Bool.and_eq_true, decide_eq_true_eq] at h
  rcases h with rfl | ⟨⟨-, hletter⟩, -⟩
  · exact hc
  · have hbare : isBare d = true := by
      rw [isBare, hletter]
      rfl
    exact isSolid_iff.mpr ⟨bare_ne hbare (by decide), bare_ne hbare (by decide),
      bare_not_blank hbare⟩

theorem captured_text (s : String) (p : Position) : ∀ t ∈ run (text s) p,
    t.captured = p.captured := by
  have htext : text s = .seqs (((ofString s).map sameLetter).map .unit) := by
    rw [text, List.map_map]
    rfl
  rw [htext]
  exact captured_units _ p

/-- A text is not empty where it has a first character, which may be in either case. -/
theorem reads_text {s : String} {c : CodeUnit} {cs : Utf16} (hs : ofString s = c :: cs)
    (hc : isSolid c = true) {p t : Position} (h : t ∈ run (text s) p) :
    ∃ d x, isSolid d = true ∧ p.rest = d :: x ++ t.rest := by
  rw [text, hs] at h
  obtain ⟨d, x, hd, hreads⟩ := reads_unit_seq h
  exact ⟨d, x, solid_of_sameLetter hc hd, hreads.1⟩

/-- What a wrapper is around is the less by the start of the wrapper. -/
theorem solids_capture {r q : Pattern} {command inner : Utf16}
    (h : capture (.seq r q) command = some inner)
    (hnone : ∀ t ∈ run r ⟨[], command, none⟩, t.captured = none)
    (hreads : ∀ t ∈ run r ⟨[], command, none⟩,
      ∃ d x, isSolid d = true ∧ command = d :: x ++ t.rest) :
    solids inner < solids command := by
  obtain ⟨t, ht, hinfix⟩ := capture_seq h hnone
  obtain ⟨d, x, hd, hcommand⟩ := hreads t ht
  have hle := solids_le_of_infix hinfix
  have hone : solids [d] = 1 := by
    rw [solids, List.countP_singleton, if_pos hd]
  rw [hcommand, solids_append, solids_cons, hone]
  omega

theorem solids_psCall {command inner : Utf16} (h : capture psCall command = some inner) :
    solids inner < solids command :=
  solids_capture h (captured_text "&" _) fun _ ht =>
    reads_text (s := "&") rfl (by decide) ht

theorem solids_psInvoke {r : Pattern} {command inner : Utf16}
    (h : capture (psInvoke r) command = some inner) : solids inner < solids command := by
  apply solids_capture h
  · intro t ht
    rcases List.mem_append.mp ht with ht | ht
    · exact captured_text _ _ t ht
    · exact captured_text _ _ t ht
  · intro t ht
    rcases List.mem_append.mp ht with ht | ht
    · exact reads_text (s := "powershell") rfl (by decide) ht
    · exact reads_text (s := "pwsh") rfl (by decide) ht

theorem solids_stripOnce (command : Utf16) :
    stripWindowsShellWrapperOnce command = command ∨
      solids (stripWindowsShellWrapperOnce command) < solids command := by
  rw [stripWindowsShellWrapperOnce]
  cases hcall : capture psCall command with
  | some inner => exact .inr (solids_psCall hcall)
  | none =>
    cases hdouble : capture (psInvokeQuoted DOUBLE) command with
    | some inner =>
      show _ ∨ solids (undouble DOUBLE inner) < _
      rw [solids_undouble (by decide)]
      exact .inr (solids_psInvoke hdouble)
    | none =>
      cases hsingle : capture (psInvokeQuoted SINGLE) command with
      | some inner =>
        show _ ∨ solids (undouble SINGLE inner) < _
        rw [solids_undouble (by decide)]
        exact .inr (solids_psInvoke hsingle)
      | none =>
        cases hplain : capture psInvokeNoQuote command with
        | some inner => exact .inr (solids_psInvoke hplain)
        | none => exact .inl rfl

theorem solids_stripLoop (n : ℕ) (s : Utf16) : solids (stripLoop n s) ≤ solids s := by
  induction n generalizing s with
  | zero => exact Nat.le_refl _
  | succ n ih =>
    have hround : solids (stripWindowsShellWrapperOnce (trim s)) ≤ solids s := by
      have htrim := solids_trim s
      rcases solids_stripOnce (trim s) with hsame | hless
      · rw [hsame, htrim]
      · omega
    rw [stripLoop]
    split
    · exact hround
    · exact (ih _).trans hround

end Flashclaw.Exec.Windows
