import Flashclaw.Lib.Utf16

/-!
# Regular expressions

The part of the syntax that stands between `^` and `$` and has characters, `.`
and `[^/]`, each once or with `*`: its source text, its reader and its matches.
-/

namespace RegExp

open Utf16

inductive Atom where
  | char (c : CodeUnit)
  /-- `.` -/
  | any
  /-- `[^/]` -/
  | notSlash
deriving DecidableEq

/-- An atom once, or any number of times. -/
structure Term where
  atom : Atom
  star : Bool
deriving DecidableEq

def isSyntaxCharacter (c : CodeUnit) : Bool := c ∈ ofString "^$\\.*+?()[]\x7b\x7d|"

/-- `\` before characters that have a meaning of their own. -/
def escape (c : CodeUnit) : Utf16 := if isSyntaxCharacter c then [unit '\\', c] else [c]

def Atom.source : Atom → Utf16
  | .char c => escape c
  | .any => [unit '.']
  | .notSlash => ofString "[^/]"

def Term.source (t : Term) : Utf16 := t.atom.source ++ if t.star then [unit '*'] else []

def source (ts : List Term) : Utf16 := ts.flatMap Term.source

/-- The terms between `^` and `$`. -/
def anchored (ts : List Term) : Utf16 := unit '^' :: source ts ++ [unit '$']

/-- The characters of a text, each once. -/
def literal (s : Utf16) : List Term := s.map fun c => ⟨.char c, false⟩

theorem source_literal (s : Utf16) : source (literal s) = s.flatMap escape := by
  rw [source, literal, List.flatMap_map]
  congr 1
  funext c
  simp only [Term.source, Atom.source, Bool.false_eq_true, if_false, List.append_nil]

section Matches

variable (canonicalize : CodeUnit → CodeUnit)

def isLineTerminator (c : CodeUnit) : Bool := c.val ∈ [0x0A, 0x0D, 0x2028, 0x2029]

def Atom.accepts : Atom → CodeUnit → Bool
  | .char c, d => canonicalize c = canonicalize d
  | .any, d => !isLineTerminator d
  | .notSlash, d => canonicalize d ≠ canonicalize (unit '/')

def matchOne (p : CodeUnit → Bool) (rest : Utf16 → Bool) : Utf16 → Bool
  | [] => false
  | d :: s => p d && rest s

def matchStar (p : CodeUnit → Bool) (rest : Utf16 → Bool) : Utf16 → Bool
  | [] => rest []
  | d :: s => rest (d :: s) || (p d && matchStar p rest s)

/-- The whole text is of the terms. -/
def accepts : List Term → Utf16 → Bool
  | [] => List.isEmpty
  | t :: ts =>
    if t.star then matchStar (t.atom.accepts canonicalize) (accepts ts)
    else matchOne (t.atom.accepts canonicalize) (accepts ts)

variable {canonicalize}

theorem matchStar_self {p : CodeUnit → Bool} {rest : Utf16 → Bool} {s : Utf16}
    (h : rest s = true) : matchStar p rest s = true := by
  cases s with
  | nil => exact h
  | cons d s =>
    show (_ || _) = true
    rw [h, Bool.true_or]

theorem matchStar_cons {p : CodeUnit → Bool} {rest : Utf16 → Bool} {d : CodeUnit} {s : Utf16}
    (hd : p d = true) (h : matchStar p rest s = true) : matchStar p rest (d :: s) = true := by
  show (_ || _) = true
  rw [hd, h, Bool.and_self, Bool.or_true]

theorem accepts_cons_star {a : Atom} {ts : List Term} {s : Utf16}
    (h : accepts canonicalize ts s = true) : accepts canonicalize (⟨a, true⟩ :: ts) s = true :=
  matchStar_self h

theorem accepts_cons {a : Atom} {ts : List Term} {d : CodeUnit} {s : Utf16}
    (hd : a.accepts canonicalize d = true) (h : accepts canonicalize ts s = true) :
    accepts canonicalize (⟨a, false⟩ :: ts) (d :: s) = true := by
  show (_ && _) = true
  rw [hd, h, Bool.and_self]

/-- A literal accepts its text, and what differs from it only in case. -/
theorem accepts_literal {s t : Utf16} :
    accepts canonicalize (literal s) t = true ↔ s.map canonicalize = t.map canonicalize := by
  induction s generalizing t with
  | nil =>
    show t.isEmpty = true ↔ _
    rw [List.isEmpty_iff, List.map_nil, eq_comm (b := List.map _ _), List.map_eq_nil_iff]
  | cons c s ih =>
    cases t with
    | nil => exact ⟨fun h => (by cases h), fun h => (by cases h)⟩
    | cons d t =>
      show (decide _ && accepts canonicalize (literal s) t) = true ↔ _
      rw [Bool.and_eq_true, decide_eq_true_eq, ih, List.map_cons, List.map_cons, List.cons.injEq]

end Matches

def readAtom : Utf16 → Option (Atom × Utf16)
  | [] => none
  | c :: rest =>
    if c = unit '.' then some (.any, rest)
    else if c = unit '[' then
      if rest.take 3 = ofString "^/]" then some (.notSlash, rest.drop 3) else none
    else if c = unit '\\' then
      match rest with
      | [] => none
      | d :: rest => if isSyntaxCharacter d then some (.char d, rest) else none
    else if isSyntaxCharacter c then none
    else some (.char c, rest)

/-- The terms up to `$`; every term takes one of the steps. -/
def readTerms : ℕ → Utf16 → Option (List Term)
  | 0, _ => none
  | steps + 1, s =>
    if s = [unit '$'] then some []
    else
      match readAtom s with
      | none => none
      | some (a, rest) =>
        if rest.head? = some (unit '*') then (readTerms steps rest.tail).map (⟨a, true⟩ :: ·)
        else (readTerms steps rest).map (⟨a, false⟩ :: ·)

def read (s : Utf16) : Option (List Term) :=
  if s.head? = some (unit '^') then readTerms s.length s.tail else none

theorem readAtom_source (a : Atom) (rest : Utf16) : readAtom (a.source ++ rest) = some (a, rest) := by
  cases a with
  | any => rfl
  | notSlash => rfl
  | char c =>
    show readAtom (escape c ++ rest) = _
    unfold escape
    split
    · rename_i hc
      show (if isSyntaxCharacter c then some (Atom.char c, rest) else none) = _
      rw [if_pos hc]
    · rename_i hc
      have hne (d : CodeUnit) (hd : isSyntaxCharacter d = true) : c ≠ d := by
        rintro rfl
        exact hc hd
      rw [List.singleton_append, readAtom.eq_def]
      dsimp only
      rw [if_neg (hne _ (by decide)), if_neg (hne _ (by decide)), if_neg (hne _ (by decide)),
        if_neg hc]

/-- No term starts like the end or like a star. -/
theorem head_source {ts : List Term} {c : CodeUnit} {rest : Utf16}
    (h : source ts ++ [unit '$'] = c :: rest) :
    c ≠ unit '*' ∧ (c = unit '$' → ts = []) := by
  cases ts with
  | nil =>
    obtain ⟨rfl, -⟩ := List.cons.inj h
    exact ⟨by decide, fun _ => rfl⟩
  | cons t ts =>
    have hhead : ∃ d s, t.atom.source = d :: s ∧ d ≠ unit '*' ∧ d ≠ unit '$' := by
      cases t.atom with
      | any => exact ⟨_, _, rfl, by decide, by decide⟩
      | notSlash => exact ⟨_, _, rfl, by decide, by decide⟩
      | char c =>
        show ∃ d s, escape c = d :: s ∧ _
        unfold escape
        split
        · exact ⟨_, _, rfl, by decide, by decide⟩
        · rename_i hc
          refine ⟨_, _, rfl, ?_, ?_⟩
          · rintro rfl
            exact hc (by decide)
          · rintro rfl
            exact hc (by decide)
    obtain ⟨d, s, hsource, hstar, hend⟩ := hhead
    simp only [source, List.flatMap_cons, Term.source, hsource, List.cons_append,
      List.cons.injEq] at h
    obtain ⟨rfl, -⟩ := h
    exact ⟨hstar, fun h => absurd h hend⟩

theorem readTerms_source (ts : List Term) (steps : ℕ) (h : ts.length < steps) :
    readTerms steps (source ts ++ [unit '$']) = some ts := by
  induction ts generalizing steps with
  | nil =>
    obtain ⟨steps, rfl⟩ : ∃ n, steps = n + 1 := ⟨steps - 1, by omega⟩
    rfl
  | cons t ts ih =>
    obtain ⟨steps, rfl⟩ : ∃ n, steps = n + 1 := ⟨steps - 1, by omega⟩
    rw [List.length_cons] at h
    have ih := ih steps (by omega)
    have hne : source (t :: ts) ++ [unit '$'] ≠ [unit '$'] := by
      intro heq
      cases (head_source heq).2 rfl
    rw [readTerms, if_neg hne]
    obtain ⟨a, star⟩ := t
    have hsplit : source (⟨a, star⟩ :: ts) ++ [unit '$'] =
        a.source ++ ((if star then [unit '*'] else []) ++ (source ts ++ [unit '$'])) := by
      simp only [source, List.flatMap_cons, Term.source, List.append_assoc]
    rw [hsplit, readAtom_source]
    cases star with
    | true =>
      simp only [if_true, List.singleton_append, List.head?_cons, List.tail_cons, ih,
        Option.map_some]
    | false =>
      simp only [Bool.false_eq_true, if_false, List.nil_append]
      have hhead : (source ts ++ [unit '$']).head? ≠ some (unit '*') := by
        intro heq
        obtain ⟨rest, hrest⟩ := List.head?_eq_some_iff.mp heq
        exact (head_source hrest).1 rfl
      rw [if_neg hhead, ih, Option.map_some]

theorem length_le_source (ts : List Term) : ts.length ≤ (source ts).length := by
  induction ts with
  | nil => exact Nat.zero_le _
  | cons t ts ih =>
    have hpos : 0 < t.source.length := by
      rw [Term.source, List.length_append]
      cases t.atom with
      | any => exact Nat.lt_add_right _ Nat.one_pos
      | notSlash => exact Nat.lt_add_right _ (by decide)
      | char c =>
        apply Nat.lt_add_right
        show 0 < (escape c).length
        unfold escape
        split
        · exact Nat.two_pos
        · exact Nat.one_pos
    rw [source, List.flatMap_cons, List.length_append, List.length_cons]
    rw [source] at ih
    omega

/-- What is written is read. -/
theorem read_anchored (ts : List Term) : read (anchored ts) = some ts := by
  have hlength := length_le_source ts
  have hlong : ts.length < (anchored ts).length := by
    simp only [anchored, List.cons_append, List.length_cons, List.length_append, List.length_nil]
    omega
  have hhead : (anchored ts).head? = some (unit '^') := rfl
  rw [read, if_pos hhead]
  exact readTerms_source ts _ hlong

end RegExp
