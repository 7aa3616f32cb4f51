import Mathlib.Data.List.TakeWhile
import Flashclaw.Lib.Json

/-!
# Starts of JSON texts

What the reader makes of a text does not change when more follows, and ends where
the value does.  So no proper start of the text of an object is a JSON text.
-/

namespace Digits

open Utf16

theorem span_append_of_ne {s rest : Utf16} {ds : List ℕ} (h : span s = (ds, rest))
    (hrest : rest ≠ []) (t : Utf16) : span (s ++ t) = (ds, rest ++ t) := by
  induction s generalizing ds with
  | nil =>
    obtain ⟨-, rfl⟩ := Prod.mk.inj h
    exact absurd rfl hrest
  | cons c s ih =>
    rw [List.cons_append, span]
    rw [span] at h
    cases hc : digitValue c with
    | none =>
      rw [hc] at h
      obtain ⟨rfl, rfl⟩ := Prod.mk.inj h
      rfl
    | some d =>
      rw [hc] at h
      obtain ⟨rfl, hspan⟩ := Prod.mk.inj h
      simp only [ih (Prod.ext rfl hspan)]

theorem suffix_of_span {s rest : Utf16} {ds : List ℕ} (h : span s = (ds, rest)) : rest <:+ s := by
  induction s generalizing ds with
  | nil =>
    obtain ⟨-, rfl⟩ := Prod.mk.inj h
    exact List.suffix_rfl
  | cons c s ih =>
    rw [span] at h
    cases hc : digitValue c with
    | none =>
      rw [hc] at h
      obtain ⟨-, rfl⟩ := Prod.mk.inj h
      exact List.suffix_rfl
    | some d =>
      rw [hc] at h
      obtain ⟨-, hspan⟩ := Prod.mk.inj h
      exact (ih (Prod.ext rfl hspan)).trans (List.suffix_cons c s)

end Digits

namespace Number

open Utf16 Digits

theorem readWhole_eq_some {s rest : Utf16} {ds : List ℕ} (h : readWhole s = some (ds, rest)) :
    span s = (ds, rest) := by
  unfold readWhole at h
  split at h
  · cases h
  · cases h
  · exact Option.some.inj h

theorem readWhole_append_of_ne {s rest : Utf16} {ds : List ℕ} (h : readWhole s = some (ds, rest))
    (hrest : rest ≠ []) (t : Utf16) : readWhole (s ++ t) = some (ds, rest ++ t) := by
  have hspan := readWhole_eq_some h
  have happend := span_append_of_ne hspan hrest t
  unfold readWhole at h ⊢
  rw [hspan] at h
  rw [happend]
  cases ds with
  | nil => cases h
  | cons d ds =>
    cases ds with
    | nil => cases d <;> rfl
    | cons e ds =>
      cases d with
      | zero => cases h
      | succ d => rfl

theorem readFraction_append_of_ne {s rest : Utf16} {ds : List ℕ}
    (h : readFraction s = some (ds, rest)) (hrest : rest ≠ []) (t : Utf16) :
    readFraction (s ++ t) = some (ds, rest ++ t) := by
  cases s with
  | nil =>
    obtain ⟨-, rfl⟩ := Prod.mk.inj (Option.some.inj h)
    exact absurd rfl hrest
  | cons c s =>
    simp only [readFraction, List.cons_append] at h ⊢
    split_ifs at h ⊢ with hpoint
    · cases hspan : span s with
      | mk ds' rest' =>
        rw [hspan] at h
        cases ds' with
        | nil => cases h
        | cons d ds' =>
          obtain ⟨rfl, rfl⟩ := Prod.mk.inj (Option.some.inj h)
          rw [span_append_of_ne hspan hrest]
    · obtain ⟨rfl, rfl⟩ := Prod.mk.inj (Option.some.inj h)
      rfl

theorem readPower_append_of_ne {negative : Bool} {s rest : Utf16} {e : Option ℤ}
    (h : readPower negative s = some (e, rest)) (hrest : rest ≠ []) (t : Utf16) :
    readPower negative (s ++ t) = some (e, rest ++ t) := by
  unfold readPower at h ⊢
  cases hspan : span s with
  | mk ds rest' =>
    rw [hspan] at h
    cases ds with
    | nil => cases h
    | cons d ds =>
      obtain ⟨rfl, rfl⟩ := Prod.mk.inj (Option.some.inj h)
      rw [span_append_of_ne hspan hrest]

theorem readExponent_append_of_ne {s rest : Utf16} {e : Option ℤ}
    (h : readExponent s = some (e, rest)) (hrest : rest ≠ []) (t : Utf16) :
    readExponent (s ++ t) = some (e, rest ++ t) := by
  cases s with
  | nil =>
    obtain ⟨-, rfl⟩ := Prod.mk.inj (Option.some.inj h)
    exact absurd rfl hrest
  | cons c s =>
    simp only [readExponent, List.cons_append] at h ⊢
    split_ifs at h ⊢ with hexponent
    · cases s with
      | nil => cases h
      | cons sign s =>
        simp only [List.cons_append] at h ⊢
        split_ifs at h ⊢
        · exact readPower_append_of_ne h hrest t
        · exact readPower_append_of_ne h hrest t
        · exact readPower_append_of_ne h hrest t
    · obtain ⟨rfl, rfl⟩ := Prod.mk.inj (Option.some.inj h)
      rfl

theorem suffix_of_readFraction {s rest : Utf16} {ds : List ℕ}
    (h : readFraction s = some (ds, rest)) : rest <:+ s := by
  cases s with
  | nil =>
    obtain ⟨-, rfl⟩ := Prod.mk.inj (Option.some.inj h)
    exact List.suffix_rfl
  | cons c s =>
    simp only [readFraction] at h
    split_ifs at h with hpoint
    · cases hspan : span s with
      | mk ds' rest' =>
        rw [hspan] at h
        cases ds' with
        | nil => cases h
        | cons d ds' =>
          obtain ⟨-, rfl⟩ := Prod.mk.inj (Option.some.inj h)
          exact (suffix_of_span hspan).trans (List.suffix_cons c s)
    · obtain ⟨-, rfl⟩ := Prod.mk.inj (Option.some.inj h)
      exact List.suffix_rfl

theorem suffix_of_readPower {negative : Bool} {s rest : Utf16} {e : Option ℤ}
    (h : readPower negative s = some (e, rest)) : rest <:+ s := by
  unfold readPower at h
  cases hspan : span s with
  | mk ds rest' =>
    rw [hspan] at h
    cases ds with
    | nil => cases h
    | cons d ds =>
      obtain ⟨-, rfl⟩ := Prod.mk.inj (Option.some.inj h)
      exact suffix_of_span hspan

theorem suffix_of_readExponent {s rest : Utf16} {e : Option ℤ}
    (h : readExponent s = some (e, rest)) : rest <:+ s := by
  cases s with
  | nil =>
    obtain ⟨-, rfl⟩ := Prod.mk.inj (Option.some.inj h)
    exact List.suffix_rfl
  | cons c s =>
    simp only [readExponent] at h
    split_ifs at h with hexponent
    · cases s with
      | nil => cases h
      | cons sign s =>
        have hcons : s <:+ c :: sign :: s := (List.suffix_cons sign s).trans (List.suffix_cons c _)
        simp only at h
        split_ifs at h
        · exact (suffix_of_readPower h).trans hcons
        · exact (suffix_of_readPower h).trans hcons
        · exact (suffix_of_readPower h).trans (List.suffix_cons c _)
    · obtain ⟨-, rfl⟩ := Prod.mk.inj (Option.some.inj h)
      exact List.suffix_rfl

/-- The parts that a literal is read in. -/
theorem readLiteral_eq_some {s rest : Utf16} {l : Literal} :
    readLiteral s = some (l, rest) ↔ ∃ s₁ s₂, readWhole s = some (l.whole, s₁) ∧
      readFraction s₁ = some (l.fraction, s₂) ∧ readExponent s₂ = some (l.exponent, rest) := by
  unfold readLiteral
  constructor
  · intro h
    obtain ⟨⟨whole, s₁⟩, hwhole, h⟩ := Option.bind_eq_some_iff.mp h
    obtain ⟨⟨fraction, s₂⟩, hfraction, h⟩ := Option.bind_eq_some_iff.mp h
    obtain ⟨⟨exponent, s₃⟩, hexponent, h⟩ := Option.bind_eq_some_iff.mp h
    obtain ⟨rfl, rfl⟩ := Prod.mk.inj (Option.some.inj h)
    exact ⟨s₁, s₂, hwhole, hfraction, hexponent⟩
  · rintro ⟨s₁, s₂, hwhole, hfraction, hexponent⟩
    rw [hwhole]
    simp only [Option.bind_eq_bind, Option.bind_some, hfraction, hexponent]
    rfl

theorem suffix_of_readLiteral {s rest : Utf16} {l : Literal}
    (h : readLiteral s = some (l, rest)) : rest <:+ s := by
  obtain ⟨s₁, s₂, hwhole, hfraction, hexponent⟩ := readLiteral_eq_some.mp h
  exact (suffix_of_readExponent hexponent).trans
    ((suffix_of_readFraction hfraction).trans (suffix_of_span (readWhole_eq_some hwhole)))

theorem readLiteral_append_of_ne {s rest : Utf16} {l : Literal}
    (h : readLiteral s = some (l, rest)) (hrest : rest ≠ []) (t : Utf16) :
    readLiteral (s ++ t) = some (l, rest ++ t) := by
  obtain ⟨s₁, s₂, hwhole, hfraction, hexponent⟩ := readLiteral_eq_some.mp h
  have hs₂ : s₂ ≠ [] := fun hs => hrest (List.suffix_nil.mp (hs ▸ suffix_of_readExponent hexponent))
  have hs₁ : s₁ ≠ [] := fun hs => hs₂ (List.suffix_nil.mp (hs ▸ suffix_of_readFraction hfraction))
  exact readLiteral_eq_some.mpr ⟨_, _, readWhole_append_of_ne hwhole hs₁ t,
    readFraction_append_of_ne hfraction hs₂ t, readExponent_append_of_ne hexponent hrest t⟩

theorem read_append_of_ne {s rest : Utf16} {n : Number} (h : Number.read s = some (n, rest))
    (hrest : rest ≠ []) (t : Utf16) : Number.read (s ++ t) = some (n, rest ++ t) := by
  cases s with
  | nil => cases h
  | cons c s =>
    simp only [Number.read, List.cons_append] at h ⊢
    split_ifs at h ⊢
    · obtain ⟨⟨l, s'⟩, hl, heq⟩ := Option.map_eq_some_iff.mp h
      obtain ⟨rfl, rfl⟩ := Prod.mk.inj heq
      rw [readLiteral_append_of_ne hl hrest]
      rfl
    · obtain ⟨⟨l, s'⟩, hl, heq⟩ := Option.map_eq_some_iff.mp h
      obtain ⟨rfl, rfl⟩ := Prod.mk.inj heq
      have happend := readLiteral_append_of_ne hl hrest t
      rw [List.cons_append] at happend
      rw [happend]
      rfl

theorem suffix_of_read {s rest : Utf16} {n : Number} (h : Number.read s = some (n, rest)) :
    rest <:+ s := by
  cases s with
  | nil => cases h
  | cons c s =>
    simp only [Number.read] at h
    split_ifs at h
    · obtain ⟨⟨l, s'⟩, hl, heq⟩ := Option.map_eq_some_iff.mp h
      obtain ⟨-, rfl⟩ := Prod.mk.inj heq
      exact (suffix_of_readLiteral hl).trans (List.suffix_cons c s)
    · obtain ⟨⟨l, s'⟩, hl, heq⟩ := Option.map_eq_some_iff.mp h
      obtain ⟨-, rfl⟩ := Prod.mk.inj heq
      exact suffix_of_readLiteral hl

end Number

namespace Json

open Utf16

section Strings

theorem skipSpace_append {s rest : Utf16} {c : CodeUnit} (h : skipSpace s = c :: rest)
    (t : Utf16) : skipSpace (s ++ t) = c :: (rest ++ t) := by
  unfold skipSpace at *
  induction s with
  | nil => cases h
  | cons d s ih =>
    rw [List.cons_append, List.dropWhile_cons]
    rw [List.dropWhile_cons] at h
    split_ifs at h ⊢ with hspace
    · exact ih h
    · obtain ⟨rfl, rfl⟩ := List.cons.inj h
      rfl

theorem suffix_of_skipSpace {s rest : Utf16} (h : skipSpace s = rest) : rest <:+ s :=
  h ▸ List.dropWhile_suffix _

/-- What follows the first character that is no space. -/
theorem cons_suffix_of_skipSpace {s rest : Utf16} {c : CodeUnit} (h : skipSpace s = c :: rest) :
    rest <:+ s :=
  (List.suffix_cons c rest).trans (suffix_of_skipSpace h)

theorem readChars_append {s rest value : Utf16} (h : readChars s = some (value, rest))
    (t : Utf16) : readChars (s ++ t) = some (value, rest ++ t) := by
  fun_induction readChars s generalizing value with
  | case1 => cases h
  | case2 rest' =>
    obtain ⟨rfl, rfl⟩ := Prod.mk.inj (Option.some.inj h)
    rw [List.cons_append, readChars.eq_def]
    simp only [if_true]
  | case3 => cases h
  | case4 a b c d s hne ih =>
    obtain ⟨a', ha, h⟩ := Option.bind_eq_some_iff.mp h
    obtain ⟨b', hb, h⟩ := Option.bind_eq_some_iff.mp h
    obtain ⟨c', hc, h⟩ := Option.bind_eq_some_iff.mp h
    obtain ⟨d', hd, h⟩ := Option.bind_eq_some_iff.mp h
    obtain ⟨⟨value', rest'⟩, hs, h⟩ := Option.bind_eq_some_iff.mp h
    obtain ⟨rfl, rfl⟩ := Prod.mk.inj (Option.some.inj h)
    simp only [List.cons_append]
    rw [readChars.eq_def]
    simp only [if_neg hne, if_true, ha, hb, hc, hd, ih hs, Option.bind_eq_bind, Option.bind_some]
    rfl
  | case5 => cases h
  | case6 letter s hu hne ih =>
    obtain ⟨unescaped, hletter, h⟩ := Option.bind_eq_some_iff.mp h
    obtain ⟨⟨value', rest'⟩, hs, h⟩ := Option.bind_eq_some_iff.mp h
    obtain ⟨rfl, rfl⟩ := Prod.mk.inj (Option.some.inj h)
    simp only [List.cons_append]
    rw [readChars.eq_def]
    simp only [if_neg hne, if_true, if_neg hu, hletter, ih hs, Option.bind_eq_bind,
      Option.bind_some]
    rfl
  | case7 => cases h
  | case8 c s hq hb hc ih =>
    obtain ⟨⟨value', rest'⟩, hs, h⟩ := Option.bind_eq_some_iff.mp h
    obtain ⟨rfl, rfl⟩ := Prod.mk.inj (Option.some.inj h)
    rw [List.cons_append, readChars_cons hq hb (not_lt.mp hc), ih hs]
    rfl

theorem suffix_of_readChars {s rest value : Utf16} (h : readChars s = some (value, rest)) :
    rest <:+ s := by
  fun_induction readChars s generalizing value with
  | case1 => cases h
  | case2 rest' =>
    obtain ⟨-, rfl⟩ := Prod.mk.inj (Option.some.inj h)
    exact List.suffix_cons _ _
  | case3 => cases h
  | case4 a b c d s hne ih =>
    obtain ⟨_, _, h⟩ := Option.bind_eq_some_iff.mp h
    obtain ⟨_, _, h⟩ := Option.bind_eq_some_iff.mp h
    obtain ⟨_, _, h⟩ := Option.bind_eq_some_iff.mp h
    obtain ⟨_, _, h⟩ := Option.bind_eq_some_iff.mp h
    obtain ⟨⟨value', rest'⟩, hs, h⟩ := Option.bind_eq_some_iff.mp h
    obtain ⟨-, rfl⟩ := Prod.mk.inj (Option.some.inj h)
    exact (ih hs).trans (List.suffix_append [_, _, a, b, c, d] s)
  | case5 => cases h
  | case6 letter s hu hne ih =>
    obtain ⟨_, _, h⟩ := Option.bind_eq_some_iff.mp h
    obtain ⟨⟨value', rest'⟩, hs, h⟩ := Option.bind_eq_some_iff.mp h
    obtain ⟨-, rfl⟩ := Prod.mk.inj (Option.some.inj h)
    exact (ih hs).trans (List.suffix_append [_, letter] s)
  | case7 => cases h
  | case8 c s hq hb hc ih =>
    obtain ⟨⟨value', rest'⟩, hs, h⟩ := Option.bind_eq_some_iff.mp h
    obtain ⟨-, rfl⟩ := Prod.mk.inj (Option.some.inj h)
    exact (ih hs).trans (List.suffix_cons c s)

/-- The parts that a key is read in. -/
theorem readKey_eq_some {s key rest : Utf16} : readKey s = some (key, rest) ↔
    ∃ s₁ s₂, skipSpace s = unit '"' :: s₁ ∧ readChars s₁ = some (key, s₂) ∧
      skipSpace s₂ = unit ':' :: rest := by
  unfold readKey
  cases hs : skipSpace s with
  | nil => simp
  | cons c s₁ =>
    simp only
    split_ifs with hc
    · subst hc
      cases hchars : readChars s₁ with
      | none => simp [hchars]
      | some result =>
        obtain ⟨key', s₂⟩ := result
        simp only
        cases hs₂ : skipSpace s₂ with
        | nil => simp [hchars, hs₂]
        | cons d s₃ =>
          simp only
          split_ifs with hd
          · simp [hchars, hs₂, hd]
          · simp [hchars, hs₂, hd]
    · simp [hc]

theorem readKey_append {s key rest : Utf16} (h : readKey s = some (key, rest)) (t : Utf16) :
    readKey (s ++ t) = some (key, rest ++ t) := by
  obtain ⟨s₁, s₂, hs, hchars, hrest⟩ := readKey_eq_some.mp h
  exact readKey_eq_some.mpr ⟨_, _, skipSpace_append hs t, readChars_append hchars t,
    skipSpace_append hrest t⟩

theorem suffix_of_readKey {s key rest : Utf16} (h : readKey s = some (key, rest)) : rest <:+ s := by
  obtain ⟨s₁, s₂, hs, hchars, hrest⟩ := readKey_eq_some.mp h
  exact (cons_suffix_of_skipSpace hrest).trans
    ((suffix_of_readChars hchars).trans (cons_suffix_of_skipSpace hs))

end Strings

section Values

theorem readWord_eq_some {word : String} {s rest : Utf16} :
    readWord word s = some rest ↔ s = ofString word ++ rest := by
  unfold readWord
  constructor
  · intro h
    split_ifs at h with hprefix
    obtain ⟨rest', rfl⟩ := hprefix
    rw [List.drop_left] at h
    rw [Option.some.inj h]
  · rintro rfl
    rw [if_pos (List.prefix_append _ _), List.drop_left]

theorem startsNumber_of_read {c : CodeUnit} {s rest : Utf16} {n : Number}
    (h : Number.read (c :: s) = some (n, rest)) : StartsNumber c := by
  simp only [Number.read] at h
  split_ifs at h with hminus
  · exact .inl hminus
  · right
    obtain ⟨⟨l, s'⟩, hl, -⟩ := Option.map_eq_some_iff.mp h
    obtain ⟨s₁, -, hwhole, -, -⟩ := Number.readLiteral_eq_some.mp hl
    cases hc : Digits.digitValue c with
    | some d => exact ⟨d, rfl⟩
    | none =>
      unfold Number.readWhole Digits.span at hwhole
      simp only [hc] at hwhole
      cases hwhole

theorem readScalar_append {s rest : Utf16} {v : JsValue} (h : readScalar s = some (v, rest))
    (hrest : rest ≠ []) (t : Utf16) : readScalar (s ++ t) = some (v, rest ++ t) := by
  unfold readScalar at h
  simp only [Option.or_eq_some_iff, Option.map_eq_some_iff, Prod.mk.injEq] at h
  rcases h with ⟨s', hs, rfl, rfl⟩ | ⟨-, ⟨s', hs, rfl, rfl⟩ | ⟨-, ⟨s', hs, rfl, rfl⟩ |
    ⟨-, ⟨n, s'⟩, hs, rfl, rfl⟩⟩⟩
  · rw [readWord_eq_some.mp hs, List.append_assoc]
    exact readScalar_null _
  · rw [readWord_eq_some.mp hs, List.append_assoc]
    exact readScalar_boolean true _
  · rw [readWord_eq_some.mp hs, List.append_assoc]
    exact readScalar_boolean false _
  · cases s with
    | nil => cases hs
    | cons c s =>
      have happend := Number.read_append_of_ne hs hrest t
      rw [List.cons_append] at happend ⊢
      rw [readScalar_number (startsNumber_of_read hs), happend]
      rfl

theorem suffix_of_readScalar {s rest : Utf16} {v : JsValue}
    (h : readScalar s = some (v, rest)) : rest <:+ s := by
  unfold readScalar at h
  simp only [Option.or_eq_some_iff, Option.map_eq_some_iff, Prod.mk.injEq] at h
  rcases h with ⟨s', hs, -, rfl⟩ | ⟨-, ⟨s', hs, -, rfl⟩ | ⟨-, ⟨s', hs, -, rfl⟩ |
    ⟨-, ⟨n, s'⟩, hs, -, rfl⟩⟩⟩
  · exact ⟨_, (readWord_eq_some.mp hs).symm⟩
  · exact ⟨_, (readWord_eq_some.mp hs).symm⟩
  · exact ⟨_, (readWord_eq_some.mp hs).symm⟩
  · exact Number.suffix_of_read hs

/-- The parts that the elements of an array are read in. -/
theorem readElements_eq_some {fuel : ℕ} {s rest : Utf16} {l : List JsValue} :
    readElements (fuel + 1) s = some (l, rest) ↔
      ∃ v s₁ c s₂, readValue fuel s = some (v, s₁) ∧ skipSpace s₁ = c :: s₂ ∧
        (c = unit ',' ∧ (∃ l', readElements fuel s₂ = some (l', rest) ∧ l = v :: l') ∨
          c = unit ']' ∧ l = [v] ∧ rest = s₂) := by
  rw [readElements]
  cases hvalue : readValue fuel s with
  | none => simp
  | some result =>
    obtain ⟨v, s₁⟩ := result
    simp only
    cases hs₁ : skipSpace s₁ with
    | nil => simp [hs₁]
    | cons c s₂ =>
      have hne : unit ',' ≠ unit ']' := by decide
      simp only
      split_ifs with hcomma hclose
      · subst hcomma
        simp [hs₁, hne, Prod.ext_iff, eq_comm]
      · subst hclose
        simp [hs₁, hne.symm, eq_comm]
      · simp only [false_iff]
        rintro ⟨v', s₁', c', s₂', heq, hs₁', hc⟩
        obtain ⟨rfl, rfl⟩ := Prod.mk.inj (Option.some.inj heq)
        obtain ⟨rfl, rfl⟩ := List.cons.inj (hs₁.symm.trans hs₁')
        rcases hc with ⟨hc, -⟩ | ⟨hc, -⟩
        · exact hcomma hc
        · exact hclose hc

/-- The parts that the members of an object are read in. -/
theorem readMembers_eq_some {fuel : ℕ} {s rest : Utf16} {l : List (Utf16 × JsValue)} :
    readMembers (fuel + 1) s = some (l, rest) ↔
      ∃ key s₀ v s₁ c s₂, readKey s = some (key, s₀) ∧ readValue fuel s₀ = some (v, s₁) ∧
        skipSpace s₁ = c :: s₂ ∧
        (c = unit ',' ∧ (∃ l', readMembers fuel s₂ = some (l', rest) ∧ l = (key, v) :: l') ∨
          c = unit '\x7d' ∧ l = [(key, v)] ∧ rest = s₂) := by
  rw [readMembers]
  cases hkey : readKey s with
  | none => simp
  | some result =>
  obtain ⟨key, s₀⟩ := result
  simp only
  cases hvalue : readValue fuel s₀ with
  | none => simp [hvalue]
  | some result =>
    obtain ⟨v, s₁⟩ := result
    simp only
    cases hs₁ : skipSpace s₁ with
    | nil => simp [hvalue, hs₁]
    | cons c s₂ =>
      have hne : unit ',' ≠ unit '\x7d' := by decide
      simp only
      split_ifs with hcomma hclose
      · subst hcomma
        simp [hvalue, hs₁, hne, Prod.ext_iff, eq_comm]
      · subst hclose
        simp [hvalue, hs₁, hne.symm, eq_comm]
      · simp only [false_iff]
        rintro ⟨key', s₀', v', s₁', c', s₂', heqKey, heq, hs₁', hc⟩
        obtain ⟨rfl, rfl⟩ := Prod.mk.inj (Option.some.inj heqKey)
        obtain ⟨rfl, rfl⟩ := Prod.mk.inj (Option.some.inj (hvalue.symm.trans heq))
        obtain ⟨rfl, rfl⟩ := List.cons.inj (hs₁.symm.trans hs₁')
        rcases hc with ⟨hc, -⟩ | ⟨hc, -⟩
        · exact hcomma hc
        · exact hclose hc

theorem not_object_of_readScalar {s rest : Utf16} {v : JsValue}
    (h : readScalar s = some (v, rest)) (fields : List (Utf16 × JsValue)) : v ≠ .object fields := by
  rintro rfl
  unfold readScalar at h
  simp [Option.or_eq_some_iff] at h

/-- What the reader does with `fuel` calls, it does with more of them and with more text. -/
theorem readValue_append (fuel : ℕ) :
    (∀ s v rest, readValue fuel s = some (v, rest) → rest ≠ [] ∨ (∃ fields, v = .object fields) →
      ∀ fuel', fuel ≤ fuel' → ∀ t, readValue fuel' (s ++ t) = some (v, rest ++ t)) ∧
    (∀ s l rest, readElements fuel s = some (l, rest) → ∀ fuel', fuel ≤ fuel' → ∀ t,
      readElements fuel' (s ++ t) = some (l, rest ++ t)) ∧
    (∀ s l rest, readMembers fuel s = some (l, rest) → ∀ fuel', fuel ≤ fuel' → ∀ t,
      readMembers fuel' (s ++ t) = some (l, rest ++ t)) := by
  induction fuel with
  | zero =>
    refine ⟨fun s v rest h => ?_, fun s l rest h => ?_, fun s l rest h => ?_⟩
    · cases h
    · cases h
    · cases h
  | succ fuel ih =>
    obtain ⟨ihValue, ihElements, ihMembers⟩ := ih
    refine ⟨fun s v rest h hend fuel' hf t => ?_, fun s l rest h fuel' hf t => ?_,
      fun s l rest h fuel' hf t => ?_⟩
    -- more fuel than was needed does no harm
    all_goals obtain ⟨fuel', rfl⟩ : ∃ k, fuel' = k + 1 := ⟨fuel' - 1, by omega⟩
    · rw [readValue] at h ⊢
      cases hs : skipSpace s with
      | nil =>
        rw [hs] at h
        cases h
      | cons c s₁ =>
        rw [hs] at h
        rw [skipSpace_append hs]
        simp only at h ⊢
        split_ifs at h ⊢ with hquote harray hobject
        · obtain ⟨⟨value, s₂⟩, hchars, heq⟩ := Option.map_eq_some_iff.mp h
          obtain ⟨rfl, rfl⟩ := Prod.mk.inj heq
          rw [readChars_append hchars]
          rfl
        · cases hs₁ : skipSpace s₁ with
          | nil =>
            rw [hs₁] at h
            cases h
          | cons d s₂ =>
            rw [hs₁] at h
            rw [skipSpace_append hs₁]
            simp only at h ⊢
            split_ifs at h ⊢
            · obtain ⟨rfl, rfl⟩ := Prod.mk.inj (Option.some.inj h)
              rfl
            · obtain ⟨⟨l, s₃⟩, hl, heq⟩ := Option.map_eq_some_iff.mp h
              obtain ⟨rfl, rfl⟩ := Prod.mk.inj heq
              rw [ihElements _ _ _ hl fuel' (by omega)]
              rfl
        · cases hs₁ : skipSpace s₁ with
          | nil =>
            rw [hs₁] at h
            cases h
          | cons d s₂ =>
            rw [hs₁] at h
            rw [skipSpace_append hs₁]
            simp only at h ⊢
            split_ifs at h ⊢
            · obtain ⟨rfl, rfl⟩ := Prod.mk.inj (Option.some.inj h)
              rfl
            · obtain ⟨⟨l, s₃⟩, hl, heq⟩ := Option.map_eq_some_iff.mp h
              obtain ⟨rfl, rfl⟩ := Prod.mk.inj heq
              rw [ihMembers _ _ _ hl fuel' (by omega)]
              rfl
        · -- a number at the end of the text could go on, so something must follow it
          apply readScalar_append h
          apply hend.resolve_right
          rintro ⟨fields, hfields⟩
          exact not_object_of_readScalar h fields hfields
    · obtain ⟨v, s₁, c, s₂, hvalue, hs₁, hcases⟩ := readElements_eq_some.mp h
      have hs₁ne : s₁ ≠ [] := by
        rintro rfl
        cases hs₁
      refine readElements_eq_some.mpr ⟨v, s₁ ++ t, c, s₂ ++ t,
        ihValue _ _ _ hvalue (.inl hs₁ne) fuel' (by omega) t, skipSpace_append hs₁ t, ?_⟩
      rcases hcases with ⟨hc, l', hl', rfl⟩ | ⟨hc, rfl, rfl⟩
      · exact .inl ⟨hc, l', ihElements _ _ _ hl' fuel' (by omega) t, rfl⟩
      · exact .inr ⟨hc, rfl, rfl⟩
    · obtain ⟨key, s₀, v, s₁, c, s₂, hkey, hvalue, hs₁, hcases⟩ := readMembers_eq_some.mp h
      have hs₁ne : s₁ ≠ [] := by
        rintro rfl
        cases hs₁
      refine readMembers_eq_some.mpr ⟨key, s₀ ++ t, v, s₁ ++ t, c, s₂ ++ t, readKey_append hkey t,
        ihValue _ _ _ hvalue (.inl hs₁ne) fuel' (by omega) t, skipSpace_append hs₁ t, ?_⟩
      rcases hcases with ⟨hc, l', hl', rfl⟩ | ⟨hc, rfl, rfl⟩
      · exact .inl ⟨hc, l', ihMembers _ _ _ hl' fuel' (by omega) t, rfl⟩
      · exact .inr ⟨hc, rfl, rfl⟩

/-- A value ends before what follows it, an object with its brace. -/
theorem suffix_of_readValue (fuel : ℕ) :
    (∀ s v rest, readValue fuel s = some (v, rest) → rest <:+ s ∧
      ∀ s₁, skipSpace s = unit '\x7b' :: s₁ → unit '\x7d' :: rest <:+ s₁) ∧
    (∀ s l rest, readElements fuel s = some (l, rest) → rest <:+ s) ∧
    (∀ s l rest, readMembers fuel s = some (l, rest) → unit '\x7d' :: rest <:+ s) := by
  induction fuel with
  | zero =>
    refine ⟨fun s v rest h => ?_, fun s l rest h => ?_, fun s l rest h => ?_⟩
    · cases h
    · cases h
    · cases h
  | succ fuel ih =>
    obtain ⟨ihValue, ihElements, ihMembers⟩ := ih
    refine ⟨fun s v rest h => ?_, fun s l rest h => ?_, fun s l rest h => ?_⟩
    · rw [readValue] at h
      cases hs : skipSpace s with
      | nil =>
        rw [hs] at h
        cases h
      | cons c s₁ =>
        have hs₁ := cons_suffix_of_skipSpace hs
        rw [hs] at h
        simp only at h
        split_ifs at h with hquote harray hobject
        · obtain ⟨⟨value, s₂⟩, hchars, heq⟩ := Option.map_eq_some_iff.mp h
          obtain ⟨-, rfl⟩ := Prod.mk.inj heq
          refine ⟨(suffix_of_readChars hchars).trans hs₁, ?_⟩
          rintro s₁' heq'
          obtain ⟨rfl, -⟩ := List.cons.inj heq'
          exact absurd hquote (by decide)
        · have hrest : rest <:+ s₁ := by
            cases hs₂ : skipSpace s₁ with
            | nil =>
              rw [hs₂] at h
              cases h
            | cons d s₂ =>
              rw [hs₂] at h
              simp only at h
              split_ifs at h
              · obtain ⟨-, rfl⟩ := Prod.mk.inj (Option.some.inj h)
                exact cons_suffix_of_skipSpace hs₂
              · obtain ⟨⟨l, s₃⟩, hl, heq⟩ := Option.map_eq_some_iff.mp h
                obtain ⟨-, rfl⟩ := Prod.mk.inj heq
                exact ihElements _ _ _ hl
          refine ⟨hrest.trans hs₁, ?_⟩
          rintro s₁' heq'
          obtain ⟨rfl, -⟩ := List.cons.inj heq'
          exact absurd harray (by decide)
        · -- an object ends with its closing brace, which stands in front of what is left
          have hrest : unit '\x7d' :: rest <:+ s₁ := by
            cases hs₂ : skipSpace s₁ with
            | nil =>
              rw [hs₂] at h
              cases h
            | cons d s₂ =>
              rw [hs₂] at h
              simp only at h
              split_ifs at h with hclose
              · obtain ⟨-, rfl⟩ := Prod.mk.inj (Option.some.inj h)
                rw [← hclose]
                exact suffix_of_skipSpace hs₂
              · obtain ⟨⟨l, s₃⟩, hl, heq⟩ := Option.map_eq_some_iff.mp h
                obtain ⟨-, rfl⟩ := Prod.mk.inj heq
                exact ihMembers _ _ _ hl
          refine ⟨((List.suffix_cons _ _).trans hrest).trans hs₁, ?_⟩
          rintro s₁' heq'
          obtain ⟨-, rfl⟩ := List.cons.inj heq'
          exact hrest
        · refine ⟨(suffix_of_readScalar h).trans (suffix_of_skipSpace hs), ?_⟩
          rintro s₁' heq'
          obtain ⟨rfl, -⟩ := List.cons.inj heq'
          exact absurd rfl hobject
    · obtain ⟨v, s₁, c, s₂, hvalue, hs₁, hcases⟩ := readElements_eq_some.mp h
      have hs₂ := (cons_suffix_of_skipSpace hs₁).trans (ihValue _ _ _ hvalue).1
      rcases hcases with ⟨-, l', hl', -⟩ | ⟨-, -, rfl⟩
      · exact (ihElements _ _ _ hl').trans hs₂
      · exact hs₂
    · obtain ⟨key, s₀, v, s₁, c, s₂, hkey, hvalue, hs₁, hcases⟩ := readMembers_eq_some.mp h
      have hs₀ := (ihValue _ _ _ hvalue).1.trans (suffix_of_readKey hkey)
      rcases hcases with ⟨-, l', hl', -⟩ | ⟨rfl, -, rfl⟩
      · exact (ihMembers _ _ _ hl').trans ((cons_suffix_of_skipSpace hs₁).trans hs₀)
      · exact (suffix_of_skipSpace hs₁).trans hs₀

end Values

section Starts

variable {fields : List (Utf16 × JsValue)}

/-- Before a brace the reader reads an object. -/
theorem object_of_readValue {fuel : ℕ} {s s₁ rest : Utf16} {v : JsValue}
    (h : readValue fuel s = some (v, rest)) (hs : skipSpace s = unit '\x7b' :: s₁) :
    ∃ fields', v = .object fields' := by
  cases fuel with
  | zero => cases h
  | succ fuel =>
    rw [readValue, hs] at h
    simp only [show unit '\x7b' ≠ unit '"' by decide, show unit '\x7b' ≠ unit '[' by decide,
      if_false, if_true] at h
    cases hs₁ : skipSpace s₁ with
    | nil =>
      rw [hs₁] at h
      cases h
    | cons c s₂ =>
      rw [hs₁] at h
      simp only at h
      split_ifs at h
      · exact ⟨_, (Prod.mk.inj (Option.some.inj h)).1.symm⟩
      · obtain ⟨r, -, heq⟩ := Option.map_eq_some_iff.mp h
        exact ⟨_, (Prod.mk.inj heq).1.symm⟩

/-- A text that is the start of the text of an object, up to the brace it opens. -/
theorem cons_of_prefix {c : CodeUnit} {s : Utf16} (hs : c :: s <+: render (.object fields)) :
    c = unit '\x7b' :=
  (List.cons_prefix_cons.mp hs).1

/-- A start of the text of an object is a JSON text only if it is the whole text. -/
theorem parse_start (hkeys : UniqueKeys (.object fields)) {s : Utf16}
    (hs : s <+: render (.object fields)) (hne : s ≠ render (.object fields)) : parse s = none := by
  obtain ⟨t, ht⟩ := hs
  unfold parse
  cases hread : readValue (2 * s.length + 2) s with
  | none => rfl
  | some result =>
    exfalso
    obtain ⟨v, rest⟩ := result
    cases s with
    | nil => cases hread
    | cons c s =>
      have hprefix : c :: s <+: render (.object fields) := ⟨t, ht⟩
      obtain rfl := cons_of_prefix hprefix
      obtain ⟨fields', rfl⟩ := object_of_readValue hread (skipSpace_cons (by decide) s)
      -- with the rest of the text the reader would stop at the same place
      have hmore := (readValue_append _).1 _ _ _ hread (.inr ⟨_, rfl⟩)
        (2 * (unit '\x7b' :: s).length + 2 + (2 * (render (.object fields)).length + 1)) (by omega) t
      have hback := readsBack _ hkeys
        (2 * (unit '\x7b' :: s).length + 2 + (2 * (render (.object fields)).length + 1)) []
        (by omega) endsNumber_nil
      rw [ht] at hmore
      rw [List.append_nil, hmore, Option.some.injEq, Prod.mk.injEq, List.append_eq_nil_iff] at hback
      rw [hback.2.2, List.append_nil] at ht
      exact hne ht

/-- Nor is one with a character at its end that neither closes an object nor is a space. -/
theorem parse_start_replacement {s : Utf16} (hs : s <+: render (.object fields)) :
    parse (s ++ [0xFFFD]) = none := by
  unfold parse
  cases hread : readValue (2 * (s ++ [0xFFFD]).length + 2) (s ++ [0xFFFD]) with
  | none => rfl
  | some result =>
    obtain ⟨v, rest⟩ := result
    simp only
    cases s with
    | nil =>
      exfalso
      have hnone : readValue (2 * 1 + 2) [0xFFFD] = none := by decide
      exact absurd (hnone.symm.trans hread) (by simp)
    | cons c s =>
      obtain rfl := cons_of_prefix hs
      rw [if_neg]
      intro hspaces
      have hspace : skipSpace (unit '\x7b' :: s ++ [0xFFFD]) = unit '\x7b' :: (s ++ [0xFFFD]) :=
        skipSpace_cons (by decide) _
      have hsuffix := ((suffix_of_readValue _).1 _ _ _ hread).2 _ hspace
      obtain ⟨before, hbefore⟩ := hsuffix
      have hlast := congrArg List.getLast? hbefore
      rw [List.getLast?_append, List.getLast?_append] at hlast
      cases hrest : rest.getLast? with
      | none =>
        rw [List.getLast?_eq_none_iff.mp hrest] at hlast
        revert hlast
        simp
        decide
      | some c =>
        rw [List.getLast?_cons, hrest] at hlast
        unfold skipSpace at hspaces
        rw [List.dropWhile_eq_nil_iff] at hspaces
        have hc := hspaces c (List.mem_of_getLast? hrest)
        have heq : c = 0xFFFD := by simpa using hlast
        rw [heq] at hc
        revert hc
        decide

end Starts

section Lines

theorem hexDigit_ne_newline {n : ℕ} (h : n < 0x10) : hexDigit n ≠ unit '\n' := by
  interval_cases n <;> decide

theorem newline_not_mem_quoteUnit (c : CodeUnit) : unit '\n' ∉ quoteUnit c := by
  unfold quoteUnit
  cases h : escapeLetter c with
  | some letter =>
    have hletter : unit '\n' ∉ [unit '\\', letter] := by
      unfold escapeLetter at h
      split_ifs at h <;> (obtain rfl := Option.some.inj h; decide)
    exact hletter
  | none =>
    simp only
    split_ifs with hc
    · have := c.isLt
      unfold unicodeEscape
      simp only [List.mem_cons, List.not_mem_nil, or_false, not_or]
      exact ⟨by decide, by decide, (hexDigit_ne_newline (by omega)).symm,
        (hexDigit_ne_newline (by omega)).symm, (hexDigit_ne_newline (by omega)).symm,
        (hexDigit_ne_newline (by omega)).symm⟩
    · rw [List.mem_singleton]
      rintro rfl
      revert hc
      decide

theorem newline_not_mem_quoteUnits (s : Utf16) : unit '\n' ∉ quoteUnits s := by
  induction s using pointInduction with
  | nil => exact List.not_mem_nil
  | pair c d s hc hd ih =>
    rw [quoteUnits, if_pos ⟨hc, hd⟩]
    simp only [List.mem_cons, not_or]
    refine ⟨?_, ?_, ih⟩
    · rintro rfl
      revert hc
      decide
    · rintro rfl
      revert hd
      decide
  | unit c s h ih =>
    rw [quoteUnits_cons h, List.mem_append, not_or]
    exact ⟨newline_not_mem_quoteUnit c, ih⟩

theorem newline_not_mem_quote (s : Utf16) : unit '\n' ∉ quote s := by
  unfold quote
  simp only [List.mem_cons, List.mem_append, List.not_mem_nil, or_false, not_or]
  exact ⟨by decide, newline_not_mem_quoteUnits s, by decide⟩

/-- A JSON text is one line. -/
theorem newline_not_mem_render (v : JsValue) : unit '\n' ∉ render v := by
  have hjoin : ∀ l : List Utf16, (∀ s ∈ l, unit '\n' ∉ s) → unit '\n' ∉ join (unit ',') l := by
    intro l hl hmem
    rcases mem_join hmem with hcomma | ⟨s, hs, hmem⟩
    · revert hcomma
      decide
    · exact hl s hs hmem
  induction v using valueInduction with
  | undefined => decide
  | null => decide
  | boolean b => cases b <;> decide
  | number n =>
    show unit '\n' ∉ renderNumber n
    cases n with
    | nan => decide
    | infinity => decide
    | negInfinity => decide
    | negZero => decide
    | finite d =>
      intro hmem
      have := Number.isNumberUnit_toText d _ hmem
      revert this
      decide
  | string s => exact newline_not_mem_quote s
  | array elements ih =>
    rw [render, renderElements_eq]
    simp only [List.mem_cons, List.mem_append, List.not_mem_nil, or_false, not_or]
    refine ⟨by decide, hjoin _ fun s hs => ?_, by decide⟩
    obtain ⟨v, hv, rfl⟩ := List.mem_map.mp hs
    exact ih v hv
  | object fields ih =>
    rw [render, renderFields_eq]
    simp only [List.mem_cons, List.mem_append, List.not_mem_nil, or_false, not_or]
    refine ⟨by decide, hjoin _ fun s hs => ?_, by decide⟩
    obtain ⟨f, hf, rfl⟩ := List.mem_map.mp hs
    unfold renderMember
    simp only [List.mem_append, List.mem_cons, not_or]
    exact ⟨newline_not_mem_quote f.1, by decide, ih f (List.mem_of_mem_filter hf)⟩

end Lines

end Json
