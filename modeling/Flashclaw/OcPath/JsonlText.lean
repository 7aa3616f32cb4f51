import Flashclaw.OcPath.Jsonl

/-!
# Texts of lines

What the parser makes of lines that were joined by a line ending: the ending it
detects, and the lines, the last of them left out when it is empty.
-/

open Utf16

namespace Jsonl

/-- Lines that a line ending separates: no line feed in them, and no carriage return that would
make a line feed another ending. -/
structure Joinable (eol : LineEnding) (parts : List Utf16) : Prop where
  noBreak : ∀ p ∈ parts, LF ∉ p
  noReturn : eol = .lf → ∀ p ∈ parts.dropLast, p.getLast? ≠ some CR

def joinLines (eol : LineEnding) (parts : List Utf16) : Utf16 := eol.text.intercalate parts

/-- The lines of a text of lines that the parser finds again. -/
def keptLines (parts : List Utf16) : List Utf16 :=
  if parts.getLast? = some [] ∧ 2 ≤ parts.length then parts.dropLast else parts

theorem Joinable.tail {eol : LineEnding} {p q : Utf16} {parts : List Utf16}
    (h : Joinable eol (p :: q :: parts)) : Joinable eol (q :: parts) where
  noBreak r hr := h.noBreak r (List.mem_cons_of_mem p hr)
  noReturn heol r hr := h.noReturn heol r (List.mem_cons_of_mem p hr)

theorem Joinable.head_lf {p q : Utf16} {parts : List Utf16}
    (h : Joinable .lf (p :: q :: parts)) : p.getLast? ≠ some CR :=
  h.noReturn rfl p List.mem_cons_self

theorem joinLines_cons_cons (eol : LineEnding) (p q : Utf16) (parts : List Utf16) :
    joinLines eol (p :: q :: parts) = p ++ (eol.text ++ joinLines eol (q :: parts)) := by
  show eol.text.intercalate _ = _
  rw [List.intercalate_cons_cons, List.append_assoc]
  rfl

theorem joinLines_singleton (eol : LineEnding) (p : Utf16) : joinLines eol [p] = p :=
  List.intercalate_singleton

theorem joinLines_concat (eol : LineEnding) {init : List Utf16} (h : init ≠ []) (last : Utf16) :
    joinLines eol (init ++ [last]) = joinLines eol init ++ (eol.text ++ last) := by
  induction init with
  | nil => exact absurd rfl h
  | cons p init ih =>
    cases init with
    | nil =>
      show joinLines eol [p, last] = _
      rw [joinLines_cons_cons, joinLines_singleton, joinLines_singleton]
    | cons q init =>
      show joinLines eol (p :: q :: (init ++ [last])) = _
      rw [joinLines_cons_cons, joinLines_cons_cons]
      have := ih (List.cons_ne_nil q init)
      rw [List.cons_append] at this
      rw [this]
      simp only [List.append_assoc]

theorem lf_ne_cr : LF ≠ CR := by decide

theorem crlfToLf_cons {c : CodeUnit} {s : Utf16} (h : c = CR → s.head? ≠ some LF) :
    crlfToLf (c :: s) = c :: crlfToLf s := by
  cases s with
  | nil => rfl
  | cons d s =>
    rw [crlfToLf, if_neg]
    rintro ⟨hc, rfl⟩
    exact h hc rfl

theorem countCrlf_cons {c : CodeUnit} {s : Utf16} (h : c = CR → s.head? ≠ some LF) :
    countCrlf (c :: s) = countCrlf s := by
  cases s with
  | nil => rfl
  | cons d s =>
    rw [countCrlf, if_neg]
    rintro ⟨hc, rfl⟩
    exact h hc rfl

/-- Units before which no line feed stands are kept. -/
theorem keep_append {p t : Utf16} (hp : LF ∉ p)
    (hend : p.getLast? = some CR → t.head? ≠ some LF) :
    crlfToLf (p ++ t) = p ++ crlfToLf t ∧ countCrlf (p ++ t) = countCrlf t := by
  induction p with
  | nil => exact ⟨rfl, rfl⟩
  | cons c p ih =>
    have hhead : c = CR → (p ++ t).head? ≠ some LF := by
      intro hc
      cases p with
      | nil =>
        subst hc
        exact hend rfl
      | cons d p =>
        intro h
        obtain rfl := Option.some.inj h
        exact hp (by simp)
    have hend' : p.getLast? = some CR → t.head? ≠ some LF := by
      intro h
      apply hend
      cases p with
      | nil => cases h
      | cons d p => exact h
    obtain ⟨htext, hcount⟩ := ih (fun h => hp (List.mem_cons_of_mem c h)) hend'
    rw [List.cons_append, crlfToLf_cons hhead, countCrlf_cons hhead, htext, hcount]
    exact ⟨rfl, rfl⟩

theorem keep_self {p : Utf16} (hp : LF ∉ p) : crlfToLf p = p ∧ countCrlf p = 0 := by
  have h := keep_append (t := []) hp fun _ => by simp
  rw [List.append_nil] at h
  exact ⟨h.1.trans (List.append_nil p), h.2⟩

theorem keep_crlf {p t : Utf16} (hp : LF ∉ p) :
    crlfToLf (p ++ CR :: LF :: t) = p ++ LF :: crlfToLf t ∧
      countCrlf (p ++ CR :: LF :: t) = countCrlf t + 1 := by
  obtain ⟨htext, hcount⟩ := keep_append (t := CR :: LF :: t) hp fun _ => by
    show some CR ≠ some LF
    decide
  rw [htext, hcount, crlfToLf, countCrlf, if_pos ⟨rfl, rfl⟩, if_pos ⟨rfl, rfl⟩]
  exact ⟨rfl, rfl⟩

theorem keep_lf {p t : Utf16} (hp : LF ∉ p) (hend : p.getLast? ≠ some CR) :
    crlfToLf (p ++ LF :: t) = p ++ LF :: crlfToLf t ∧
      countCrlf (p ++ LF :: t) = countCrlf t := by
  obtain ⟨htext, hcount⟩ := keep_append (t := LF :: t) hp fun h => absurd h hend
  have hne : LF = CR → t.head? ≠ some LF := fun h => absurd h lf_ne_cr
  rw [htext, hcount, crlfToLf_cons hne, countCrlf_cons hne]
  exact ⟨rfl, rfl⟩

theorem crlfToLf_joinLines {eol : LineEnding} {parts : List Utf16} (h : Joinable eol parts) :
    crlfToLf (joinLines eol parts) = joinLines .lf parts := by
  induction parts with
  | nil => rfl
  | cons p parts ih =>
    cases parts with
    | nil =>
      rw [joinLines_singleton, joinLines_singleton]
      exact (keep_self (h.noBreak p List.mem_cons_self)).1
    | cons q parts =>
      have hp := h.noBreak p List.mem_cons_self
      rw [joinLines_cons_cons, joinLines_cons_cons, ← ih h.tail]
      cases eol with
      | crlf => exact (keep_crlf hp).1
      | lf => exact (keep_lf hp h.head_lf).1

theorem countCrlf_joinLines {eol : LineEnding} {parts : List Utf16} (h : Joinable eol parts) :
    countCrlf (joinLines eol parts) = if eol = .crlf then parts.length - 1 else 0 := by
  induction parts with
  | nil => cases eol <;> rfl
  | cons p parts ih =>
    have hp := h.noBreak p List.mem_cons_self
    cases parts with
    | nil =>
      rw [joinLines_singleton, (keep_self hp).2]
      simp
    | cons q parts =>
      have ih := ih h.tail
      rw [joinLines_cons_cons]
      cases eol with
      | crlf =>
        refine (keep_crlf (t := joinLines .crlf (q :: parts)) hp).2.trans ?_
        rw [ih]
        simp
      | lf => exact (keep_lf hp h.head_lf).2.trans ih

theorem count_joinLines {eol : LineEnding} {parts : List Utf16} (h : Joinable eol parts) :
    (joinLines eol parts).count LF = parts.length - 1 := by
  induction parts with
  | nil => cases eol <;> rfl
  | cons p parts ih =>
    have hp := List.count_eq_zero_of_not_mem (h.noBreak p List.mem_cons_self)
    cases parts with
    | nil => rw [joinLines_singleton, hp]; rfl
    | cons q parts =>
      have heol : eol.text.count LF = 1 := by cases eol <;> decide
      rw [joinLines_cons_cons, List.count_append, List.count_append, hp, heol, ih h.tail]
      simp
      omega

/-- A text of two lines or more shows its line ending. -/
theorem detectLineEnding_joinLines {eol : LineEnding} {parts : List Utf16}
    (h : Joinable eol parts) (hlength : 2 ≤ parts.length) :
    detectLineEnding (joinLines eol parts) = eol := by
  unfold detectLineEnding
  rw [countCrlf_joinLines h, count_joinLines h]
  cases eol with
  | crlf =>
    have : 0 < parts.length - 1 ∧ parts.length - 1 ≤ (parts.length - 1) * 2 := by omega
    simp [this]
  | lf => rfl

theorem not_suffix_of_getLast? {s t : Utf16} {c : CodeUnit} (hs : s.getLast? = some c)
    (ht : t.getLast? ≠ some c) : ¬ s <:+ t := by
  rintro ⟨u, rfl⟩
  apply ht
  rw [List.getLast?_append, hs]
  rfl

theorem trimLastBreak_of_getLast? {s : Utf16} (h : s.getLast? ≠ some LF) : trimLastBreak s = s := by
  unfold trimLastBreak
  rw [if_neg (not_suffix_of_getLast? rfl h), if_neg (not_suffix_of_getLast? rfl h)]

theorem trimLastBreak_crlf (s : Utf16) : trimLastBreak (s ++ [CR, LF]) = s := by
  unfold trimLastBreak
  rw [if_pos (List.suffix_append s _), List.dropLast_append_of_ne_nil (by simp)]
  show (s ++ [CR]).dropLast = s
  rw [List.dropLast_concat]

theorem trimLastBreak_lf {s : Utf16} (h : s.getLast? ≠ some CR) : trimLastBreak (s ++ [LF]) = s := by
  have hnot : ¬ [CR, LF] <:+ s ++ [LF] := by
    rintro ⟨u, hu⟩
    have hu' : (u ++ [CR]) ++ [LF] = s ++ [LF] := by
      rw [← hu]
      simp
    apply h
    rw [← List.append_cancel_right hu']
    simp
  unfold trimLastBreak
  rw [if_neg hnot, if_pos (List.suffix_append s _), List.dropLast_concat]

theorem getLast?_joinLines_lf {parts : List Utf16} (h : ∀ p ∈ parts, p.getLast? ≠ some CR) :
    (joinLines .lf parts).getLast? ≠ some CR := by
  induction parts with
  | nil => simp [joinLines]
  | cons p parts ih =>
    cases parts with
    | nil =>
      rw [joinLines_singleton]
      exact h p List.mem_cons_self
    | cons q parts =>
      rw [joinLines_cons_cons, List.getLast?_append, List.getLast?_append]
      have := ih fun r hr => h r (List.mem_cons_of_mem p hr)
      cases hlast : (joinLines .lf (q :: parts)).getLast? with
      | none => exact fun h => lf_ne_cr (Option.some.inj h)
      | some c =>
        rw [hlast] at this
        exact this

/-- The parser takes an empty last line for the end of the one before it. -/
theorem trimLastBreak_joinLines {eol : LineEnding} {parts : List Utf16} (h : Joinable eol parts) :
    trimLastBreak (joinLines eol parts) = joinLines eol (keptLines parts) := by
  obtain rfl | ⟨init, last, rfl⟩ := parts.eq_nil_or_concat'
  · rfl
  · have hlast := h.noBreak last (by simp)
    unfold keptLines
    rw [List.getLast?_concat, List.length_append, List.dropLast_concat]
    by_cases hempty : last = []
    · subst hempty
      cases init with
      | nil =>
        rw [if_neg (by simp), List.nil_append, joinLines_singleton]
        rfl
      | cons p init =>
        rw [if_pos ⟨rfl, by simp⟩, joinLines_concat eol (List.cons_ne_nil p init), List.append_nil]
        cases eol with
        | crlf => exact trimLastBreak_crlf _
        | lf =>
          apply trimLastBreak_lf
          apply getLast?_joinLines_lf
          intro q hq
          apply h.noReturn rfl
          rw [List.dropLast_concat]
          exact hq
    · rw [if_neg fun h => hempty (Option.some.inj h.1)]
      apply trimLastBreak_of_getLast?
      have hend : last.getLast? ≠ some LF := fun h => hlast (List.mem_of_getLast? h)
      obtain ⟨c, hc⟩ := Option.ne_none_iff_exists'.mp
        (fun h => hempty (List.getLast?_eq_none_iff.mp h))
      cases init with
      | nil =>
        rw [List.nil_append, joinLines_singleton]
        exact hend
      | cons p init =>
        rw [joinLines_concat eol (List.cons_ne_nil p init), List.getLast?_append,
          List.getLast?_append, hc]
        rw [hc] at hend
        exact hend

theorem Joinable.kept {eol : LineEnding} {parts : List Utf16} (h : Joinable eol parts) :
    Joinable eol (keptLines parts) := by
  unfold keptLines
  split
  · refine ⟨fun p hp => h.noBreak p (List.mem_of_mem_dropLast hp), fun heol p hp => ?_⟩
    exact h.noReturn heol p (List.mem_of_mem_dropLast hp)
  · exact h

theorem eq_nil_of_joinLines_eq_nil {eol : LineEnding} {parts : List Utf16}
    (h : joinLines eol parts = []) : ∀ p ∈ parts, p = [] := by
  induction parts with
  | nil => exact List.forall_mem_nil _
  | cons p parts ih =>
    rw [List.forall_mem_cons]
    cases parts with
    | nil =>
      rw [joinLines_singleton] at h
      exact ⟨h, List.forall_mem_nil _⟩
    | cons q parts =>
      rw [joinLines_cons_cons, List.append_eq_nil_iff, List.append_eq_nil_iff] at h
      exact ⟨h.1, ih h.2.2⟩

theorem mem_keptLines {parts : List Utf16} {p : Utf16} (h : p ∈ parts) (hp : p ≠ []) :
    p ∈ keptLines parts := by
  unfold keptLines
  split
  · rename_i hlast
    rw [← List.dropLast_append_getLast? [] hlast.1] at h
    rcases List.mem_append.mp h with h | h
    · exact h
    · exact absurd (List.mem_singleton.mp h) hp
  · exact h

/-- All lines are kept, or all but an empty last one. -/
theorem keptLines_or (parts : List Utf16) :
    parts = keptLines parts ∨ parts = keptLines parts ++ [[]] := by
  unfold keptLines
  split
  · rename_i hlast
    exact .inr (List.dropLast_append_getLast? [] hlast.1).symm
  · exact .inl rfl

/-- Joined lines are read again, but for an empty last one. -/
theorem splitOn_joinLines {eol : LineEnding} {parts : List Utf16} (h : Joinable eol parts)
    (hne : keptLines parts ≠ []) :
    (crlfToLf (trimLastBreak (joinLines eol parts))).splitOn LF = keptLines parts := by
  rw [trimLastBreak_joinLines h, crlfToLf_joinLines h.kept]
  exact List.splitOn_intercalate LF h.kept.noBreak hne

end Jsonl
