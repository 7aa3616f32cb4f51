import Flashclaw.Lib.JsMap
import Flashclaw.Lib.Utf16Text

/-!
# Safe bins: profiles

`compileSafeBinProfile` of `src/infra/exec-safe-bin-policy-profiles.ts`: the flags of a
fixture as sets, and its long flags by their prefixes.
-/

namespace Flashclaw.Exec.SafeBin

open Utf16

def DASH : CodeUnit := unit '-'

/-- `flag.startsWith("--")` -/
def isLong (flag : Utf16) : Bool := [DASH, DASH].isPrefixOf flag

abbrev LongFlagPrefixMap := JsMap Utf16 (Option Utf16)

structure SafeBinProfile where
  minPositional : Option ℕ
  maxPositional : Option ℕ
  allowedValueFlags : Option (List Utf16)
  allowedBooleanFlags : Option (List Utf16)
  deniedFlags : Option (List Utf16)
  knownLongFlags : Option (List Utf16)
  knownLongFlagsSet : Option (List Utf16)
  longFlagPrefixMap : Option LongFlagPrefixMap

structure BuiltinSafeBinProfileFixture where
  minPositional : Option ℕ
  maxPositional : Option ℕ
  allowedValueFlags : Option (List Utf16)
  allowedBooleanFlags : Option (List Utf16)
  deniedFlags : Option (List Utf16)

/-- `new Set(flags)`, in the order of insertion. -/
def toFlagSet (flags : Option (List Utf16)) : List Utf16 := (flags.getD []).eraseDups

def collectKnownLongFlags (allowedValueFlags deniedFlags allowedBooleanFlags : List Utf16) :
    List Utf16 :=
  ((allowedValueFlags ++ allowedBooleanFlags ++ deniedFlags).filter isLong).eraseDups

/-- A prefix of two flags is a prefix of neither. -/
def setPrefix (flag : Utf16) (prefixMap : LongFlagPrefixMap) (start : Utf16) : LongFlagPrefixMap :=
  match prefixMap.get? start with
  | none => prefixMap.set start (some flag)
  | some existing => if existing = some flag then prefixMap else prefixMap.set start none

def addPrefixes (prefixMap : LongFlagPrefixMap) (flag : Utf16) : LongFlagPrefixMap :=
  if !isLong flag || flag.length ≤ 2 then prefixMap
  else ((List.range (flag.length - 2)).map fun n => flag.take (n + 3)).foldl (setPrefix flag)
    prefixMap

def buildLongFlagPrefixMap (knownLongFlags : List Utf16) : LongFlagPrefixMap :=
  knownLongFlags.foldl addPrefixes .empty

def compileSafeBinProfile (fixture : BuiltinSafeBinProfileFixture) : SafeBinProfile :=
  let allowedValueFlags := toFlagSet fixture.allowedValueFlags
  let allowedBooleanFlags := toFlagSet fixture.allowedBooleanFlags
  let deniedFlags := toFlagSet fixture.deniedFlags
  let knownLongFlags := collectKnownLongFlags allowedValueFlags deniedFlags allowedBooleanFlags
  { minPositional := fixture.minPositional
    maxPositional := fixture.maxPositional
    allowedValueFlags := some allowedValueFlags
    allowedBooleanFlags := some allowedBooleanFlags
    deniedFlags := some deniedFlags
    knownLongFlags := some knownLongFlags
    knownLongFlagsSet := some knownLongFlags.eraseDups
    longFlagPrefixMap := some (buildLongFlagPrefixMap knownLongFlags) }

/-- An abbreviation has a letter behind the dashes. -/
def Abbreviates (start flag : Utf16) : Prop :=
  isLong flag = true ∧ 3 ≤ start.length ∧ start <+: flag

instance (start flag : Utf16) : Decidable (Abbreviates start flag) :=
  inferInstanceAs (Decidable (_ ∧ _))

/-- What a prefix stands for once one more flag has it. -/
def claimed (flag : Utf16) : Option (Option Utf16) → Option (Option Utf16)
  | none => some (some flag)
  | some existing => if existing = some flag then some existing else some none

theorem get_setPrefix (flag : Utf16) (prefixMap : LongFlagPrefixMap) (start other : Utf16) :
    (setPrefix flag prefixMap start).get? other =
      if start = other then claimed flag (prefixMap.get? other) else prefixMap.get? other := by
  rw [setPrefix]
  by_cases h : start = other
  · subst h
    rw [if_pos rfl]
    cases hget : prefixMap.get? start with
    | none => exact JsMap.get?_set_self _ _ _
    | some existing =>
      show JsMap.get? (if existing = some flag then _ else _) start = claimed flag (some existing)
      rw [claimed]
      split
      · exact hget
      · exact JsMap.get?_set_self _ _ _
  · rw [if_neg h]
    cases hget : prefixMap.get? start with
    | none => exact JsMap.get?_set_ne _ _ h
    | some existing =>
      show JsMap.get? (if existing = some flag then _ else _) other = _
      split
      · rfl
      · exact JsMap.get?_set_ne _ _ h

theorem get_setPrefixes (flag : Utf16) (starts : List Utf16) (hnodup : starts.Nodup)
    (prefixMap : LongFlagPrefixMap) (other : Utf16) :
    (starts.foldl (setPrefix flag) prefixMap).get? other =
      if other ∈ starts then claimed flag (prefixMap.get? other) else prefixMap.get? other := by
  induction starts generalizing prefixMap with
  | nil => rfl
  | cons start starts ih =>
    rw [List.nodup_cons] at hnodup
    rw [List.foldl_cons, ih hnodup.2, get_setPrefix]
    by_cases h : start = other
    · subst h
      rw [if_neg hnodup.1, if_pos rfl, if_pos List.mem_cons_self]
    · simp only [if_neg h, List.mem_cons, Ne.symm h, false_or]

theorem mem_starts {flag start : Utf16} (hflag : 2 < flag.length) :
    (start ∈ (List.range (flag.length - 2)).map fun n => flag.take (n + 3)) ↔
      3 ≤ start.length ∧ start <+: flag := by
  rw [List.mem_map]
  constructor
  · rintro ⟨n, hn, rfl⟩
    rw [List.mem_range] at hn
    refine ⟨?_, List.take_prefix _ _⟩
    rw [List.length_take]
    omega
  · rintro ⟨hlength, hprefix⟩
    have hle := hprefix.length_le
    refine ⟨start.length - 3, List.mem_range.mpr (by omega), ?_⟩
    rw [Nat.sub_add_cancel hlength]
    exact (List.prefix_iff_eq_take.mp hprefix).symm

theorem nodup_starts (flag : Utf16) :
    ((List.range (flag.length - 2)).map fun n => flag.take (n + 3)).Nodup := by
  apply List.nodup_range.map_on
  intro m hm n hn heq
  have hlength := congrArg List.length heq
  rw [List.mem_range] at hm hn
  rw [List.length_take, List.length_take] at hlength
  omega

theorem get_addPrefixes (prefixMap : LongFlagPrefixMap) (flag start : Utf16) :
    (addPrefixes prefixMap flag).get? start =
      if Abbreviates start flag then claimed flag (prefixMap.get? start)
      else prefixMap.get? start := by
  rw [addPrefixes]
  by_cases hskip : (!isLong flag || flag.length ≤ 2) = true
  · rw [if_pos hskip, if_neg]
    rintro ⟨hlong, hlength, hprefix⟩
    rw [Bool.or_eq_true, Bool.not_eq_true', hlong, decide_eq_true_eq] at hskip
    have := hprefix.length_le
    rcases hskip with h | h
    · cases h
    · omega
  · rw [if_neg hskip]
    rw [Bool.or_eq_true, not_or, Bool.not_eq_true', Bool.not_eq_false, decide_eq_true_eq,
      Nat.not_le] at hskip
    rw [get_setPrefixes _ _ (nodup_starts flag)]
    apply if_congr _ rfl rfl
    rw [mem_starts hskip.2, Abbreviates, and_iff_right hskip.1]

/-- What the map knows of a prefix: nothing, its flag, or that it has several. -/
def Resolved (flags : List Utf16) (start : Utf16) : Option (Option Utf16) → Prop
  | none => ∀ flag ∈ flags, ¬Abbreviates start flag
  | some (some flag) =>
    flag ∈ flags ∧ Abbreviates start flag ∧ ∀ other ∈ flags, Abbreviates start other → other = flag
  | some none => ∃ flag ∈ flags, ∃ other ∈ flags,
    Abbreviates start flag ∧ Abbreviates start other ∧ flag ≠ other

theorem Resolved.append {flags : List Utf16} {start flag : Utf16}
    {value : Option (Option Utf16)} (h : Resolved flags start value) :
    Resolved (flags ++ [flag]) start
      (if Abbreviates start flag then claimed flag value else value) := by
  by_cases hflag : Abbreviates start flag
  · rw [if_pos hflag]
    rcases value with - | - | existing
    · refine ⟨List.mem_append_right _ (List.mem_singleton_self _), hflag, fun other hother ho => ?_⟩
      rcases List.mem_append.mp hother with hother | hother
      · exact absurd ho (h other hother)
      · exact List.mem_singleton.mp hother
    · obtain ⟨first, hfirst, second, hsecond, hboth⟩ := h
      exact ⟨first, List.mem_append_left _ hfirst, second, List.mem_append_left _ hsecond, hboth⟩
    · obtain ⟨hmem, habbreviates, honly⟩ := h
      rw [claimed]
      split
      · rename_i hsame
        obtain rfl := Option.some.inj hsame
        refine ⟨List.mem_append_left _ hmem, habbreviates, fun other hother ho => ?_⟩
        rcases List.mem_append.mp hother with hother | hother
        · exact honly other hother ho
        · exact List.mem_singleton.mp hother
      · rename_i hdiffer
        exact ⟨existing, List.mem_append_left _ hmem, flag,
          List.mem_append_right _ (List.mem_singleton_self _), habbreviates, hflag,
          fun heq => hdiffer (congrArg some heq)⟩
  · rw [if_neg hflag]
    have hnew {other : Utf16} (hother : other ∈ flags ++ [flag]) (ho : Abbreviates start other) :
        other ∈ flags := by
      rcases List.mem_append.mp hother with hother | hother
      · exact hother
      · rw [List.mem_singleton.mp hother] at ho
        exact absurd ho hflag
    rcases value with - | - | existing
    · exact fun other hother ho => h other (hnew hother ho) ho
    · obtain ⟨first, hfirst, second, hsecond, hboth⟩ := h
      exact ⟨first, List.mem_append_left _ hfirst, second, List.mem_append_left _ hsecond, hboth⟩
    · obtain ⟨hmem, habbreviates, honly⟩ := h
      exact ⟨List.mem_append_left _ hmem, habbreviates,
        fun other hother ho => honly other (hnew hother ho) ho⟩

/-- Every prefix of the long flags is resolved as the flags have it. -/
theorem resolved_prefixMap (flags : List Utf16) (start : Utf16) :
    Resolved flags start ((buildLongFlagPrefixMap flags).get? start) := by
  induction flags using List.reverseRecOn with
  | nil => exact fun flag hflag => (List.not_mem_nil hflag).elim
  | append_singleton flags flag ih =>
    rw [buildLongFlagPrefixMap, List.foldl_concat, get_addPrefixes]
    exact ih.append

end Flashclaw.Exec.SafeBin
