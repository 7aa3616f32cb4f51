import Mathlib.Data.List.DropRight
import Flashclaw.Lib.Utf16

/-!
# Operations of UTF-16 strings
-/

namespace Utf16

/-- The units of white space and line ends, which `trim` takes off. -/
def isWhiteSpace (c : CodeUnit) : Bool :=
  c.val ∈ [0x09, 0x0A, 0x0B, 0x0C, 0x0D, 0x20, 0xA0, 0x1680, 0x2028, 0x2029, 0x202F, 0x205F,
    0x3000, 0xFEFF] || (0x2000 ≤ c.val && c.val ≤ 0x200A)

def trimStart (s : Utf16) : Utf16 := s.dropWhile isWhiteSpace

def trimEnd (s : Utf16) : Utf16 := s.rdropWhile isWhiteSpace

def trim (s : Utf16) : Utf16 := trimEnd (trimStart s)

def replaceUnit (c d : CodeUnit) (s : Utf16) : Utf16 := s.map fun x => if x = c then d else x

def join (sep : CodeUnit) (parts : List Utf16) : Utf16 := [sep].intercalate parts

/-- The first code units up to a limit, without half a surrogate pair at the end. -/
def truncateUtf16Safe (input : Utf16) (limit : ℕ) : Utf16 :=
  if input.length ≤ limit then input
  else
    match (input.take limit).getLast?, input[limit]? with
    | some last, some next =>
      if isHighSurrogate last && isLowSurrogate next then input.take (limit - 1)
      else input.take limit
    | _, _ => input.take limit

theorem trimEnd_isPrefixOf (s : Utf16) : trimEnd s <+: s := List.rdropWhile_prefix _ _

theorem trim_sublist (s : Utf16) : (trim s).Sublist s :=
  (trimEnd_isPrefixOf _).sublist.trans (List.dropWhile_suffix _).sublist

theorem mem_of_mem_trim {s : Utf16} {c : CodeUnit} (h : c ∈ trim s) : c ∈ s :=
  (trim_sublist s).subset h

theorem trimStart_eq_self {s : Utf16} (h : ∀ c, s.head? = some c → isWhiteSpace c = false) :
    trimStart s = s := by
  cases s with
  | nil => rfl
  | cons c s =>
    rw [trimStart, List.dropWhile_cons, h c rfl]
    rfl

theorem head?_trimStart {s : Utf16} {c : CodeUnit} (h : (trimStart s).head? = some c) :
    isWhiteSpace c = false := by
  induction s with
  | nil => cases h
  | cons d s ih =>
    rw [trimStart, List.dropWhile_cons] at h
    split at h
    · exact ih h
    · rename_i hd
      obtain rfl := Option.some.inj h
      exact Bool.eq_false_iff.mpr hd

/-- A text that starts with no blank keeps its first unit. -/
theorem head?_trim {s : Utf16} {c : CodeUnit} (h : s.head? = some c)
    (hc : isWhiteSpace c = false) : (trim s).head? = some c := by
  have hstart : trimStart s = s := by
    apply trimStart_eq_self
    intro d hd
    obtain rfl := Option.some.inj (h.symm.trans hd)
    exact hc
  rw [trim, hstart]
  obtain ⟨rest, rfl⟩ := List.head?_eq_some_iff.mp h
  obtain ⟨tail, htail⟩ := trimEnd_isPrefixOf (c :: rest)
  cases hend : trimEnd (c :: rest) with
  | nil =>
    have := (List.rdropWhile_eq_nil_iff.mp hend) c List.mem_cons_self
    rw [hc] at this
    cases this
  | cons d kept =>
    rw [hend] at htail
    obtain ⟨rfl, -⟩ := List.cons.inj htail
    rfl

/-- What is trimmed away as a whole is blank. -/
theorem blank_of_trim {s : Utf16} (h : trim s = []) : ∀ c ∈ s, isWhiteSpace c = true := by
  have hrest : ∀ c ∈ trimStart s, isWhiteSpace c = true := List.rdropWhile_eq_nil_iff.mp h
  intro c hc
  rw [← List.takeWhile_append_dropWhile (p := isWhiteSpace) (l := s)] at hc
  rcases List.mem_append.mp hc with hc | hc
  · exact List.mem_takeWhile_imp hc
  · exact hrest c hc

theorem trim_trim (s : Utf16) : trim (trim s) = trim s := by
  have hstart : trimStart (trim s) = trim s := by
    apply trimStart_eq_self
    intro c hc
    obtain ⟨rest, hrest⟩ := List.head?_eq_some_iff.mp hc
    obtain ⟨tail, htail⟩ := trimEnd_isPrefixOf (trimStart s)
    rw [trim] at hrest
    rw [hrest] at htail
    apply head?_trimStart (s := s)
    rw [← htail]
    rfl
  rw [trim, hstart, trim, trimEnd, trimEnd, List.rdropWhile_idempotent]

section Lines

/-- The parts between separators hold none. -/
theorem not_mem_of_mem_splitOn {c : CodeUnit} {s p : Utf16} (h : p ∈ s.splitOn c) : c ∉ p := by
  induction s generalizing p with
  | nil =>
    rw [List.splitOn_nil] at h
    obtain rfl := List.mem_singleton.mp h
    exact List.not_mem_nil
  | cons d s ih =>
    rw [List.splitOn_cons_eq_if_modifyHead] at h
    split at h
    · rcases List.mem_cons.mp h with rfl | h
      · exact List.not_mem_nil
      · exact ih h
    · rename_i hd
      obtain ⟨q, parts, hparts⟩ := List.exists_cons_of_ne_nil (List.splitOn_ne_nil c s)
      rw [hparts] at h ih
      rcases List.mem_cons.mp h with rfl | h
      · rw [List.mem_cons, not_or]
        exact ⟨fun hc => hd (by simp [hc]), ih List.mem_cons_self⟩
      · exact ih (List.mem_cons_of_mem q h)

theorem join_cons_cons (sep : CodeUnit) (p q : Utf16) (parts : List Utf16) :
    join sep (p :: q :: parts) = p ++ sep :: join sep (q :: parts) := by
  unfold join
  rw [List.intercalate_cons_cons, List.append_assoc, List.singleton_append]

theorem join_singleton (sep : CodeUnit) (p : Utf16) : join sep [p] = p := List.intercalate_singleton

theorem join_splitOn (sep : CodeUnit) (s : Utf16) : join sep (s.splitOn sep) = s :=
  List.intercalate_splitOn sep

theorem length_join (sep : CodeUnit) (parts : List Utf16) :
    (join sep parts).length = (parts.map List.length).sum + (parts.length - 1) := by
  induction parts with
  | nil => rfl
  | cons p parts ih =>
    cases parts with
    | nil => simp [join_singleton]
    | cons q parts =>
      rw [join_cons_cons, List.length_append, List.length_cons, ih]
      simp
      omega

end Lines

/-- The lower case of a letter of ASCII. -/
def lowerAscii (c : CodeUnit) : CodeUnit :=
  if unit 'A' ≤ c ∧ c ≤ unit 'Z' then c + 0x20 else c

theorem lowerAscii_of_not {c : CodeUnit} (h : ¬(unit 'A' ≤ c ∧ c ≤ unit 'Z')) :
    lowerAscii c = c := if_neg h

end Utf16
