import Flashclaw.Lib.Utf16
import Mathlib.Data.List.Infix

/-!
# Regular expressions by backtracking

What a pattern finds, in the order in which it tries: alternatives from the left,
repetitions as long as they can be. One group is captured.
-/

namespace Backtracking

open Utf16

inductive Pattern where
  | empty
  | unit (p : CodeUnit → Bool)
  | seq (r s : Pattern)
  | alt (r s : Pattern)
  | star (r : Pattern)
  | group (r : Pattern)
  /-- `(?!r)` -/
  | notAhead (r : Pattern)
  /-- `\b` -/
  | boundary
  /-- `$` -/
  | atEnd

/-- Where a match has come to: what it has read, the last unit first, what is left, and the
group. -/
structure Position where
  read : Utf16
  rest : Utf16
  captured : Option Utf16

namespace Pattern

/-- `r+` -/
def plus (r : Pattern) : Pattern := .seq r (.star r)

/-- `r?` -/
def optional (r : Pattern) : Pattern := .alt r .empty

def seqs : List Pattern → Pattern
  | [] => .empty
  | r :: rs => .seq r (seqs rs)

def alts : List Pattern → Pattern
  | [] => .notAhead .empty
  | [r] => r
  | r :: rs => .alt r (alts rs)

end Pattern

/-- `[A-Za-z0-9_]` -/
def isWord (c : CodeUnit) : Bool :=
  (unit 'a' ≤ c && c ≤ unit 'z') || (unit 'A' ≤ c && c ≤ unit 'Z') ||
    (unit '0' ≤ c && c ≤ unit '9') || c = unit '_'

/-- The rounds of a star. A round that reads nothing is none. -/
def repeated (round : Position → List Position) : ℕ → Position → List Position
  | 0, s => [s]
  | n + 1, s =>
    ((round s).filter fun t => t.rest.length < s.rest.length).flatMap (repeated round n) ++ [s]

/-- All matches from a position on, the preferred one first. -/
def run : Pattern → Position → List Position
  | .empty, s => [s]
  | .unit p, s =>
    match s.rest with
    | [] => []
    | c :: rest => if p c then [⟨c :: s.read, rest, s.captured⟩] else []
  | .seq r t, s => (run r s).flatMap (run t)
  | .alt r t, s => run r s ++ run t s
  | .star r, s => repeated (run r) s.rest.length s
  | .group r, s => (run r s).map fun t =>
      { t with captured := some (s.rest.take (s.rest.length - t.rest.length)) }
  | .notAhead r, s => if (run r s).isEmpty then [s] else []
  | .boundary, s => if s.read.head?.any isWord = s.rest.head?.any isWord then [] else [s]
  | .atEnd, s => if s.rest = [] then [s] else []

/-- The group of the match at the start of a text. -/
def capture (r : Pattern) (text : Utf16) : Option Utf16 :=
  (run r ⟨[], text, none⟩).head?.bind Position.captured

theorem run_unit (p : CodeUnit → Bool) (c : CodeUnit) (read rest : Utf16)
    (captured : Option Utf16) :
    run (.unit p) ⟨read, c :: rest, captured⟩ =
      if p c then [⟨c :: read, rest, captured⟩] else [] := rfl

section Reads

/-- What was read on the way from one position to another, and the group inside. -/
def Reads (s : Position) (read : Utf16) (t : Position) : Prop :=
  s.rest = read ++ t.rest ∧ (t.captured = s.captured ∨ ∃ c, t.captured = some c ∧ c <:+: read)

theorem Reads.refl (s : Position) : Reads s [] s := ⟨rfl, .inl rfl⟩

theorem Reads.trans {s t u : Position} {x y : Utf16} (h : Reads s x t) (h' : Reads t y u) :
    Reads s (x ++ y) u := by
  obtain ⟨hrest, hcaptured⟩ := h
  obtain ⟨hrest', hcaptured'⟩ := h'
  refine ⟨by rw [hrest, hrest', List.append_assoc], ?_⟩
  rcases hcaptured' with hsame | ⟨c, hc, hinfix⟩
  · rcases hcaptured with hsame' | ⟨c, hc, hinfix⟩
    · exact .inl (hsame.trans hsame')
    · exact .inr ⟨c, hsame.trans hc, hinfix.trans List.infix_append_left⟩
  · exact .inr ⟨c, hc, hinfix.trans List.infix_append_right⟩

theorem reads_repeated {round : Position → List Position}
    (h : ∀ s, ∀ t ∈ round s, ∃ x, Reads s x t) (n : ℕ) :
    ∀ s, ∀ t ∈ repeated round n s, ∃ x, Reads s x t := by
  induction n with
  | zero =>
    intro s t ht
    rw [List.mem_singleton.mp ht]
    exact ⟨[], .refl s⟩
  | succ n ih =>
    intro s t ht
    rcases List.mem_append.mp ht with ht | ht
    · obtain ⟨u, hu, ht⟩ := List.mem_flatMap.mp ht
      obtain ⟨x, hx⟩ := h s u (List.mem_of_mem_filter hu)
      obtain ⟨y, hy⟩ := ih u t ht
      exact ⟨x ++ y, hx.trans hy⟩
    · rw [List.mem_singleton.mp ht]
      exact ⟨[], .refl s⟩

/-- A match reads a piece of the text, and captures a piece of that. -/
theorem reads_run (r : Pattern) : ∀ s, ∀ t ∈ run r s, ∃ x, Reads s x t := by
  induction r with
  | empty =>
    intro s t ht
    rw [List.mem_singleton.mp ht]
    exact ⟨[], .refl s⟩
  | unit p =>
    intro s t ht
    rw [run] at ht
    cases hrest : s.rest with
    | nil =>
      rw [hrest] at ht
      cases ht
    | cons c rest =>
      simp only [hrest] at ht
      split_ifs at ht
      · rw [List.mem_singleton.mp ht]
        exact ⟨[c], hrest, .inl rfl⟩
      · cases ht
  | seq r q ihr ihq =>
    intro s t ht
    obtain ⟨u, hu, ht⟩ := List.mem_flatMap.mp ht
    obtain ⟨x, hx⟩ := ihr s u hu
    obtain ⟨y, hy⟩ := ihq u t ht
    exact ⟨x ++ y, hx.trans hy⟩
  | alt r q ihr ihq =>
    intro s t ht
    rcases List.mem_append.mp ht with ht | ht
    · exact ihr s t ht
    · exact ihq s t ht
  | star r ih =>
    intro s t ht
    exact reads_repeated ih _ s t ht
  | group r ih =>
    intro s t ht
    obtain ⟨u, hu, rfl⟩ := List.mem_map.mp ht
    obtain ⟨x, hrest, -⟩ := ih s u hu
    -- the group captures what it read
    refine ⟨x, hrest, .inr ⟨_, rfl, ?_⟩⟩
    rw [hrest, List.length_append, Nat.add_sub_cancel, List.take_left]
  | notAhead r ih =>
    intro s t ht
    rw [run] at ht
    split_ifs at ht
    · rw [List.mem_singleton.mp ht]
      exact ⟨[], .refl s⟩
    · cases ht
  | boundary =>
    intro s t ht
    rw [run] at ht
    split_ifs at ht
    · cases ht
    · rw [List.mem_singleton.mp ht]
      exact ⟨[], .refl s⟩
  | atEnd =>
    intro s t ht
    rw [run] at ht
    split_ifs at ht
    · rw [List.mem_singleton.mp ht]
      exact ⟨[], .refl s⟩
    · cases ht

theorem reads_unit {p : CodeUnit → Bool} {s t : Position} (h : t ∈ run (.unit p) s) :
    ∃ c, p c = true ∧ s.rest = c :: t.rest ∧ t.captured = s.captured := by
  rw [run] at h
  cases hrest : s.rest with
  | nil =>
    rw [hrest] at h
    cases h
  | cons c rest =>
    simp only [hrest] at h
    split_ifs at h with hc
    · rw [List.mem_singleton.mp h]
      exact ⟨c, hc, rfl, rfl⟩
    · cases h

/-- A match of units in a row starts with the first of them. -/
theorem reads_unit_seq {p : CodeUnit → Bool} {r : Pattern} {s t : Position}
    (h : t ∈ run (.seq (.unit p) r) s) : ∃ c x, p c = true ∧ Reads s (c :: x) t := by
  obtain ⟨u, hu, ht⟩ := List.mem_flatMap.mp h
  obtain ⟨c, hc, hrest, hsame⟩ := reads_unit hu
  obtain ⟨x, hx⟩ := reads_run r u t ht
  have hfirst : Reads s [c] u := ⟨hrest, .inl hsame⟩
  exact ⟨c, x, hc, hfirst.trans hx⟩

/-- A group behind a part that has none is a piece of what follows that part. -/
theorem capture_seq {r q : Pattern} {text c : Utf16} (h : capture (.seq r q) text = some c)
    (hnone : ∀ t ∈ run r ⟨[], text, none⟩, t.captured = none) :
    ∃ t ∈ run r ⟨[], text, none⟩, c <:+: t.rest := by
  obtain ⟨t, ht, hc⟩ := Option.bind_eq_some_iff.mp h
  obtain ⟨u, hu, ht⟩ := List.mem_flatMap.mp (List.mem_of_mem_head? ht)
  obtain ⟨x, hrest, hcaptured⟩ := reads_run q u t ht
  refine ⟨u, hu, ?_⟩
  rcases hcaptured with hsame | ⟨c', hc', hinfix⟩
  · rw [hsame, hnone u hu] at hc
    cases hc
  · obtain rfl := Option.some.inj (hc'.symm.trans hc)
    rw [hrest]
    exact hinfix.trans List.infix_append_left

/-- No group in a pattern of units in a row. -/
theorem captured_units (ps : List (CodeUnit → Bool)) : ∀ s, ∀ t ∈ run (.seqs (ps.map .unit)) s,
    t.captured = s.captured := by
  induction ps with
  | nil =>
    intro s t ht
    rw [List.mem_singleton.mp ht]
  | cons p ps ih =>
    intro s t ht
    obtain ⟨u, hu, ht⟩ := List.mem_flatMap.mp ht
    obtain ⟨c, -, -, hsame⟩ := reads_unit hu
    exact (ih u t ht).trans hsame

end Reads

section Prefers

/-- The match that is tried first. -/
def Prefers (r : Pattern) (s t : Position) : Prop := ∃ others, run r s = t :: others

theorem capture_of_prefers {r : Pattern} {text : Utf16} {t : Position}
    (h : Prefers r ⟨[], text, none⟩ t) : capture r text = t.captured := by
  obtain ⟨others, hothers⟩ := h
  rw [capture, hothers]
  rfl

theorem prefers_empty (s : Position) : Prefers .empty s s := ⟨[], rfl⟩

theorem prefers_unit {p : CodeUnit → Bool} {c : CodeUnit} (hc : p c = true) (read rest : Utf16)
    (captured : Option Utf16) :
    Prefers (.unit p) ⟨read, c :: rest, captured⟩ ⟨c :: read, rest, captured⟩ :=
  ⟨[], by rw [run_unit, if_pos hc]⟩

theorem prefers_seq {r q : Pattern} {s t u : Position} (hr : Prefers r s t)
    (hq : Prefers q t u) : Prefers (.seq r q) s u := by
  obtain ⟨others, hothers⟩ := hr
  obtain ⟨more, hmore⟩ := hq
  refine ⟨more ++ others.flatMap (run q), ?_⟩
  rw [run, hothers, List.flatMap_cons, hmore, List.cons_append]

theorem prefers_group {r : Pattern} {s t : Position} (h : Prefers r s t) :
    Prefers (.group r) s
      { t with captured := some (s.rest.take (s.rest.length - t.rest.length)) } := by
  obtain ⟨others, hothers⟩ := h
  rw [Prefers, run, hothers, List.map_cons]
  exact ⟨_, rfl⟩

theorem prefers_atEnd (read : Utf16) (captured : Option Utf16) :
    Prefers .atEnd ⟨read, [], captured⟩ ⟨read, [], captured⟩ := ⟨[], rfl⟩

theorem repeated_unit {p : CodeUnit → Bool} {x y : Utf16} (hx : ∀ c ∈ x, p c = true)
    (hy : ∀ c, y.head? = some c → p c = false) {n : ℕ} (hn : x.length ≤ n) (read : Utf16)
    (captured : Option Utf16) :
    ∃ others, repeated (run (.unit p)) n ⟨read, x ++ y, captured⟩ =
      ⟨x.reverse ++ read, y, captured⟩ :: others := by
  induction x generalizing n read with
  | nil =>
    cases n with
    | zero => exact ⟨[], rfl⟩
    | succ n =>
      have hround : run (.unit p) ⟨read, y, captured⟩ = [] := by
        cases y with
        | nil => rfl
        | cons c y =>
          rw [run_unit, if_neg]
          rw [hy c rfl]
          exact Bool.false_ne_true
      refine ⟨[], ?_⟩
      rw [List.nil_append, repeated, hround]
      rfl
  | cons c x ih =>
    obtain ⟨m, rfl⟩ : ∃ m, n = m + 1 := Nat.exists_eq_add_of_le' (by
      rw [List.length_cons] at hn
      omega)
    obtain ⟨others, hothers⟩ := ih (fun d hd => hx d (List.mem_cons_of_mem c hd))
      (Nat.le_of_succ_le_succ hn) (c :: read)
    have hround : run (.unit p) ⟨read, c :: (x ++ y), captured⟩ =
        [⟨c :: read, x ++ y, captured⟩] := by
      rw [run_unit, if_pos (hx c List.mem_cons_self)]
    refine ⟨others ++ [⟨read, c :: (x ++ y), captured⟩], ?_⟩
    rw [List.cons_append, repeated, hround, List.filter_cons_of_pos, List.filter_nil,
      List.flatMap_singleton, hothers, List.reverse_cons, List.append_assoc]
    · rfl
    · rw [decide_eq_true_eq]
      exact Nat.lt_succ_self _

/-- A star of units reads all that it can. -/
theorem prefers_star_unit {p : CodeUnit → Bool} {x y : Utf16} (hx : ∀ c ∈ x, p c = true)
    (hy : ∀ c, y.head? = some c → p c = false) (read : Utf16) (captured : Option Utf16) :
    Prefers (.star (.unit p)) ⟨read, x ++ y, captured⟩ ⟨x.reverse ++ read, y, captured⟩ :=
  repeated_unit hx hy (by
    rw [List.length_append]
    omega) read captured

theorem prefers_plus_unit {p : CodeUnit → Bool} {c : CodeUnit} {x y : Utf16} (hc : p c = true)
    (hx : ∀ d ∈ x, p d = true) (hy : ∀ d, y.head? = some d → p d = false) (read : Utf16)
    (captured : Option Utf16) :
    Prefers (.plus (.unit p)) ⟨read, c :: (x ++ y), captured⟩
      ⟨x.reverse ++ c :: read, y, captured⟩ :=
  prefers_seq (prefers_unit hc read _ captured) (prefers_star_unit hx hy _ captured)

end Prefers

end Backtracking
