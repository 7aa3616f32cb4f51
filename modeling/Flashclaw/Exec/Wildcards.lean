import Flashclaw.Exec.Allowlist

/-!
# Exec allowlist: paths as patterns

A path without wildcards matches the paths of its normal form.  A path with one
matches what it becomes when its wildcards are filled in.
-/

namespace Flashclaw.Exec

open Utf16

/-- What the regular expressions of the language, file systems and letters do. -/
structure Host.Lawful (host : Host) : Prop where
  regExp : ∀ ts ignoreCase, host.regExp (RegExp.anchored ts) ignoreCase =
    some (RegExp.accepts (if ignoreCase then host.canonicalize else id) ts)
  realpath_wildcard : host.isWin32 = true → ∀ p r, hasWildcard p = false →
    host.realpathSync p = some r → hasWildcard r = false
  toLowerCase_wildcard : ∀ s, hasWildcard s = false → hasWildcard (host.toLowerCase s) = false

/-- The file that a path without wildcards is. -/
def Host.realOf (host : Host) (value : Utf16) : Utf16 :=
  if host.isWin32 then (host.realpathSync value).getD value else value

/-- The form of a path that is compared. -/
def Host.pathKey (host : Host) (value : Utf16) : Utf16 :=
  (normalizeMatchTarget host (host.realOf value)).map host.pathCase

/-- Equal under the path normalization of the platform. -/
def SamePath (host : Host) (p q : Utf16) : Prop := host.pathKey p = host.pathKey q

instance (host : Host) (p q : Utf16) : Decidable (SamePath host p q) :=
  inferInstanceAs (Decidable (host.pathKey p = host.pathKey q))

def globTerm (c : CodeUnit) : RegExp.Term :=
  if c = unit '*' then ⟨.notSlash, true⟩
  else if c = unit '?' then ⟨.notSlash, false⟩
  else ⟨.char c, false⟩

def globTerms : Utf16 → List RegExp.Term
  | [] => []
  | [c] => [globTerm c]
  | c :: d :: rest =>
    if c = unit '*' ∧ d = unit '*' then ⟨.any, true⟩ :: globTerms rest
    else globTerm c :: globTerms (d :: rest)

theorem source_globTerm (c : CodeUnit) : (globTerm c).source = globUnit c := by
  unfold globTerm globUnit
  split
  · rfl
  · split
    · rfl
    · simp [RegExp.Term.source, RegExp.Atom.source, escapeRegExpLiteral]

theorem source_globTerms (pattern : Utf16) :
    RegExp.source (globTerms pattern) = globSource pattern := by
  induction pattern using globTerms.induct with
  | case1 => rfl
  | case2 c => simp [globTerms, globSource, RegExp.source, source_globTerm]
  | case3 c d rest h ih =>
    rw [globTerms, globSource, if_pos h, if_pos h, ← ih]
    rfl
  | case4 c d rest h ih =>
    rw [globTerms, globSource, if_neg h, if_neg h, ← ih, ← source_globTerm]
    rfl

theorem compileGlobRegex_eq {host : Host} (hhost : host.Lawful) (pattern : Utf16) :
    compileGlobRegex host pattern = some (RegExp.accepts host.pathCase (globTerms pattern)) := by
  have hsource : unit '^' :: globSource pattern ++ [unit '$'] =
      RegExp.anchored (globTerms pattern) := by
    rw [RegExp.anchored, source_globTerms]
  rw [compileGlobRegex, hsource, hhost.regExp]
  rfl

theorem globTerms_of_no_wildcard {pattern : Utf16} (h : hasWildcard pattern = false) :
    globTerms pattern = RegExp.literal pattern := by
  have hunit (c : CodeUnit) (hc : isWildcard c = false) : globTerm c = ⟨.char c, false⟩ := by
    simp only [isWildcard, Bool.or_eq_false_iff, decide_eq_false_iff_not] at hc
    rw [globTerm, if_neg hc.1, if_neg hc.2]
  induction pattern using globTerms.induct with
  | case1 => rfl
  | case2 c =>
    simp only [hasWildcard, List.any_cons, Bool.or_eq_false_iff] at h
    rw [globTerms, hunit c h.1]
    rfl
  | case3 c d rest hstar ih =>
    simp only [hasWildcard, List.any_cons, Bool.or_eq_false_iff, isWildcard, hstar.1] at h
    cases h.1.1
  | case4 c d rest hstar ih =>
    have hrest : hasWildcard (d :: rest) = false := by
      simp only [hasWildcard, List.any_cons, Bool.or_eq_false_iff] at h ⊢
      exact h.2
    have hc : isWildcard c = false := by
      simp only [hasWildcard, List.any_cons, Bool.or_eq_false_iff] at h
      exact h.1
    rw [globTerms, if_neg hstar, ih hrest, hunit c hc]
    rfl

def isDriveLetter (c : CodeUnit) : Bool :=
  (unit 'a' ≤ c && c ≤ unit 'z') || (unit 'A' ≤ c && c ≤ unit 'Z')

/-- The path starts at a root, of the one kind of platform or the other. -/
def isAbsolutePath : Utf16 → Bool
  | [] => false
  | c :: rest =>
    c = slash || c = backslash ||
      (isDriveLetter c && rest.head? = some (unit ':') &&
        (rest.tail.head? = some slash || rest.tail.head? = some backslash))

theorem mem_trim_of_mem {s : Utf16} {c : CodeUnit} (h : c ∈ s) (hc : isWhiteSpace c = false) :
    c ∈ trim s := by
  have hdrop {l : Utf16} (hl : c ∈ l) : c ∈ l.dropWhile isWhiteSpace := by
    induction l with
    | nil => exact hl
    | cons d l ih =>
      rw [List.dropWhile_cons]
      split
      · rename_i hd
        rcases List.mem_cons.mp hl with rfl | hl
        · rw [hc] at hd
          cases hd
        · exact ih hl
      · exact hl
  rw [trim, trimEnd, List.rdropWhile, List.mem_reverse]
  exact hdrop (List.mem_reverse.mpr (hdrop h))

section Absolute

variable {p : Utf16} (hp : isAbsolutePath p = true)
include hp

theorem hasPathSelector_of_absolute : hasPathSelector (trim p) = true := by
  have hslash : isWhiteSpace slash = false := by decide
  have hbackslash : isWhiteSpace backslash = false := by decide
  have hmem : slash ∈ p ∨ backslash ∈ p := by
    cases p with
    | nil => cases hp
    | cons c rest =>
      simp only [isAbsolutePath, Bool.or_eq_true, Bool.and_eq_true, decide_eq_true_eq] at hp
      obtain (rfl | rfl) | ⟨-, h | h⟩ := hp
      · exact .inl List.mem_cons_self
      · exact .inr List.mem_cons_self
      · exact .inl (List.mem_cons_of_mem c (List.mem_of_mem_tail (List.mem_of_head? h)))
      · exact .inr (List.mem_cons_of_mem c (List.mem_of_mem_tail (List.mem_of_head? h)))
  simp only [hasPathSelector, Bool.or_eq_true, decide_eq_true_eq]
  obtain h | h := hmem
  · exact .inl (.inl (mem_trim_of_mem h hslash))
  · exact .inl (.inr (mem_trim_of_mem h hbackslash))

theorem head?_of_absolute : ∃ c, (trim p).head? = some c ∧ c ≠ unit '~' := by
  cases p with
  | nil => cases hp
  | cons c rest =>
    have hc : isWhiteSpace c = false ∧ c ≠ unit '~' := by
      simp only [isAbsolutePath, Bool.or_eq_true, Bool.and_eq_true, decide_eq_true_eq] at hp
      obtain (rfl | rfl) | ⟨⟨h, -⟩, -⟩ := hp
      · exact ⟨by decide, by decide⟩
      · exact ⟨by decide, by decide⟩
      · simp only [isDriveLetter, Bool.or_eq_true, Bool.and_eq_true, decide_eq_true_eq, Fin.le_def]
          at h
        have hval : 0x41 ≤ c.val ∧ c.val ≤ 0x7A := by
          have ha : (unit 'a').val = 0x61 := rfl
          have hz : (unit 'z').val = 0x7A := rfl
          have hA : (unit 'A').val = 0x41 := rfl
          have hZ : (unit 'Z').val = 0x5A := rfl
          omega
        constructor
        · simp only [isWhiteSpace, List.mem_cons, List.not_mem_nil, or_false, Bool.or_eq_false_iff,
            decide_eq_false_iff_not, Bool.and_eq_false_iff]
          omega
        · intro heq
          rw [heq] at hval
          exact absurd hval.2 (by decide)
    exact ⟨c, head?_trim rfl hc.1, hc.2⟩

theorem trim_ne_nil_of_absolute : trim p ≠ [] := by
  obtain ⟨c, hc, -⟩ := head?_of_absolute hp
  intro h
  rw [h] at hc
  cases hc

end Absolute

theorem hasWildcard_eq_false {s : Utf16} :
    hasWildcard s = false ↔ ∀ c ∈ s, isWildcard c = false := by
  rw [hasWildcard, List.any_eq_false]
  simp only [Bool.not_eq_true]

theorem hasWildcard_of_subset {s t : Utf16} (h : ∀ c ∈ s, c ∈ t ∨ isWildcard c = false)
    (ht : hasWildcard t = false) : hasWildcard s = false := by
  rw [hasWildcard_eq_false] at ht ⊢
  intro c hc
  obtain hmem | hplain := h c hc
  · exact ht c hmem
  · exact hplain

theorem mem_collapseBackslashes {s : Utf16} {c : CodeUnit} (h : c ∈ collapseBackslashes s) :
    c ∈ s ∨ c = slash := by
  induction s using collapseBackslashes.induct with
  | case1 => exact .inl h
  | case2 d => exact .inl h
  | case3 a b rest hab ih =>
    rw [collapseBackslashes, if_pos hab] at h
    rcases List.mem_cons.mp h with rfl | h
    · exact .inr rfl
    · exact (ih h).imp_left fun h => List.mem_cons_of_mem a (List.mem_cons_of_mem b h)
  | case4 a b rest hab ih =>
    rw [collapseBackslashes, if_neg hab] at h
    rcases List.mem_cons.mp h with rfl | h
    · exact .inl List.mem_cons_self
    · exact (ih h).imp_left (List.mem_cons_of_mem a)

theorem mem_collapseBackslashes_of_mem {s : Utf16} {c : CodeUnit} (h : c ∈ s)
    (hne : c ≠ backslash) : c ∈ collapseBackslashes s := by
  induction s using collapseBackslashes.induct with
  | case1 => exact h
  | case2 d => exact h
  | case3 a b rest hab ih =>
    rw [collapseBackslashes, if_pos hab]
    rcases List.mem_cons.mp h with rfl | h
    · exact absurd hab.1 hne
    · rcases List.mem_cons.mp h with rfl | h
      · exact absurd hab.2 hne
      · exact List.mem_cons_of_mem _ (ih h)
  | case4 a b rest hab ih =>
    rw [collapseBackslashes, if_neg hab]
    rcases List.mem_cons.mp h with rfl | h
    · exact List.mem_cons_self
    · exact List.mem_cons_of_mem _ (ih h)

theorem mem_stripVerbatimPrefix {s : Utf16} {c : CodeUnit} (h : c ∈ stripVerbatimPrefix s) :
    c ∈ s := by
  unfold stripVerbatimPrefix at h
  split at h
  · split at h
    · exact List.mem_cons_of_mem _ (List.mem_cons_of_mem _ (List.mem_cons_of_mem _
        (List.mem_cons_of_mem _ h)))
    · exact h
  · exact h

section NoWildcard

variable {host : Host} (hhost : host.Lawful) {s : Utf16} (hs : hasWildcard s = false)
include hhost hs

theorem normalizeMatchTarget_no_wildcard : hasWildcard (normalizeMatchTarget host s) = false := by
  unfold normalizeMatchTarget
  split
  · have hreplaced : hasWildcard (trim (replaceUnit backslash slash (stripVerbatimPrefix s))) =
        false := by
      apply hasWildcard_of_subset _ hs
      intro c hc
      obtain ⟨d, hd, hcd⟩ := List.mem_map.mp (mem_of_mem_trim hc)
      split at hcd
      · right
        rw [← hcd]
        rfl
      · left
        rw [← hcd]
        exact mem_stripVerbatimPrefix hd
    unfold normalizeLowercaseStringOrEmpty
    split
    · rfl
    · exact hhost.toLowerCase_wildcard _ hreplaced
  · have hcollapsed : hasWildcard (collapseBackslashes s) = false := by
      apply hasWildcard_of_subset _ hs
      intro c hc
      obtain h | rfl := mem_collapseBackslashes hc
      · exact .inl h
      · exact .inr rfl
    dsimp only
    split
    · split
      · rfl
      · split
        · apply hasWildcard_of_subset _ hcollapsed
          intro c hc
          exact .inl (List.mem_of_mem_drop hc)
        · exact hcollapsed
    · exact hcollapsed

theorem realOf_no_wildcard : hasWildcard (host.realOf s) = false := by
  unfold Host.realOf
  split
  · rename_i hwin
    cases hreal : host.realpathSync s with
    | none => exact hs
    | some r => exact hhost.realpath_wildcard hwin s r hs hreal
  · exact hs

end NoWildcard

/-- A path without wildcards matches exactly the paths that equal it. -/
theorem matches_iff_of_no_wildcard {host : Host} (hhost : host.Lawful) {p : Utf16}
    (hp : isAbsolutePath p = true) (hplain : hasWildcard (trim p) = false) (target : Utf16) :
    matchesExecAllowlistPattern host (trim p) target = true ↔ SamePath host (trim p) target := by
  obtain ⟨c, hhead, hc⟩ := head?_of_absolute hp
  have hhome : (trim p).head? ≠ some (unit '~') := by
    rw [hhead]
    exact fun h => hc (Option.some.inj h)
  have hkey := normalizeMatchTarget_no_wildcard hhost (realOf_no_wildcard hhost hplain)
  simp only [Host.realOf] at hkey
  simp only [matchesExecAllowlistPattern, trim_trim, trim_ne_nil_of_absolute hp, if_false, hhome,
    hplain, Bool.not_false, Bool.and_true, Bool.false_and, Bool.false_eq_true,
    compileGlobRegex_eq hhost, Option.any_some]
  rw [globTerms_of_no_wildcard hkey, RegExp.accepts_literal]
  rfl

def fillUnit (c x : CodeUnit) : CodeUnit := if isWildcard x then c else x

/-- The path with a character for each wildcard. -/
def fill (c : CodeUnit) (s : Utf16) : Utf16 := s.map (fillUnit c)

/-- A character that no path treats specially. -/
structure IsFiller (c : CodeUnit) : Prop where
  plain : isWildcard c = false
  ne_slash : c ≠ slash
  ne_backslash : c ≠ backslash
  ne_dot : c ≠ unit '.'
  not_line : RegExp.isLineTerminator c = false
  not_private : c ∉ privateVar

theorem fillUnit_eq_iff {c x d : CodeUnit} (hd : isWildcard d = false) (hne : c ≠ d) :
    fillUnit c x = d ↔ x = d := by
  unfold fillUnit
  split
  · rename_i hx
    constructor
    · intro h
      exact absurd h hne
    · rintro rfl
      rw [hd] at hx
      cases hx
  · exact Iff.rfl

theorem fill_eq_iff {c : CodeUnit} {d : Utf16} (hd : hasWildcard d = false) (hne : c ∉ d)
    {s : Utf16} : fill c s = d ↔ s = d := by
  rw [hasWildcard_eq_false] at hd
  induction d generalizing s with
  | nil => exact List.map_eq_nil_iff
  | cons x d ih =>
    cases s with
    | nil => exact Iff.rfl
    | cons y s =>
      have hhead : fillUnit c y = x ↔ y = x :=
        fillUnit_eq_iff (hd x List.mem_cons_self) fun h => hne (h ▸ List.mem_cons_self)
      have htail : fill c s = d ↔ s = d :=
        ih (fun z hz => hd z (List.mem_cons_of_mem x hz)) fun h => hne (List.mem_cons_of_mem x h)
      rw [List.cons.injEq, ← hhead, ← htail]
      exact List.cons.injEq .. ▸ Iff.rfl

theorem isPrefixOf_fill {c : CodeUnit} {d : Utf16} (hd : hasWildcard d = false) (hne : c ∉ d)
    (s : Utf16) : d.isPrefixOf (fill c s) = d.isPrefixOf s := by
  rw [Bool.eq_iff_iff, List.isPrefixOf_iff_prefix, List.isPrefixOf_iff_prefix,
    List.prefix_iff_eq_take, List.prefix_iff_eq_take, fill, ← List.map_take, eq_comm,
    eq_comm (a := d)]
  exact fill_eq_iff hd hne

section Fill

variable {c : CodeUnit} (hc : IsFiller c)
include hc

/-- A glob accepts the path that it was, filled. -/
theorem accepts_fill (s : Utf16) : RegExp.accepts id (globTerms s) (fill c s) = true := by
  have hslash : RegExp.Atom.accepts id .notSlash c = true := decide_eq_true hc.ne_slash
  have hunit (x : CodeUnit) {ts : List RegExp.Term} {t : Utf16}
      (h : RegExp.accepts id ts t = true) :
      RegExp.accepts id (globTerm x :: ts) (fillUnit c x :: t) = true := by
    unfold globTerm
    split
    · rename_i hx
      rw [fillUnit, if_pos (by simp [isWildcard, hx])]
      exact RegExp.matchStar_cons hslash (RegExp.matchStar_self h)
    · split
      · rename_i hx
        rw [fillUnit, if_pos (by simp [isWildcard, hx])]
        exact RegExp.accepts_cons hslash h
      · rename_i hstar hmark
        rw [fillUnit, if_neg (by simp [isWildcard, hstar, hmark])]
        exact RegExp.accepts_cons (by simp [RegExp.Atom.accepts]) h
  induction s using globTerms.induct with
  | case1 => rfl
  | case2 x => exact hunit x rfl
  | case3 x y rest hstar ih =>
    have hany : RegExp.Atom.accepts id .any c = true := by
      simp [RegExp.Atom.accepts, hc.not_line]
    rw [globTerms, if_pos hstar, hstar.1, hstar.2]
    show RegExp.accepts id _ (c :: c :: fill c rest) = true
    exact RegExp.matchStar_cons hany (RegExp.matchStar_cons hany (RegExp.matchStar_self ih))
  | case4 x y rest hstar ih =>
    rw [globTerms, if_neg hstar]
    exact hunit x ih

theorem collapseBackslashes_fill (s : Utf16) :
    collapseBackslashes (fill c s) = fill c (collapseBackslashes s) := by
  have hunit (x : CodeUnit) : fillUnit c x = backslash ↔ x = backslash :=
    fillUnit_eq_iff rfl hc.ne_backslash
  induction s using collapseBackslashes.induct with
  | case1 => rfl
  | case2 x => rfl
  | case3 x y rest h ih =>
    have hfill : fillUnit c x = backslash ∧ fillUnit c y = backslash :=
      ⟨(hunit x).mpr h.1, (hunit y).mpr h.2⟩
    rw [collapseBackslashes, if_pos h]
    show collapseBackslashes (fillUnit c x :: fillUnit c y :: fill c rest) = slash :: fill c _
    rw [collapseBackslashes, if_pos hfill, ih]
  | case4 x y rest h ih =>
    have hfill : ¬ (fillUnit c x = backslash ∧ fillUnit c y = backslash) := by
      rwa [hunit, hunit]
    rw [collapseBackslashes, if_neg h]
    show collapseBackslashes (fillUnit c x :: fillUnit c y :: fill c rest) = fillUnit c x :: fill c _
    rw [collapseBackslashes, if_neg hfill, ← ih]
    rfl

theorem normalizeMatchTarget_fill {host : Host} (hposix : host.isWin32 = false) (s : Utf16) :
    normalizeMatchTarget host (fill c s) = fill c (normalizeMatchTarget host s) := by
  have hvar : fill c (collapseBackslashes s) = privateVar ↔ collapseBackslashes s = privateVar :=
    fill_eq_iff rfl hc.not_private
  have hdir := isPrefixOf_fill (d := privateVar ++ [slash]) (c := c) rfl
    (by
      rw [List.mem_append, List.mem_singleton, not_or]
      exact ⟨hc.not_private, hc.ne_slash⟩)
    (collapseBackslashes s)
  simp only [normalizeMatchTarget, hposix, Bool.false_eq_true, if_false,
    collapseBackslashes_fill hc, hvar, hdir]
  split
  · split
    · rfl
    · split
      · exact List.map_drop.symm
      · rfl
  · rfl

/-- Filling makes no `.` and no `..`. -/
theorem hasDotPathSegment_fill (s : Utf16) :
    hasDotPathSegment (fill c s) = hasDotPathSegment s := by
  have hreplace : replaceUnit backslash slash (fill c s) = fill c (replaceUnit backslash slash s) := by
    rw [fill, fill, replaceUnit, replaceUnit, List.map_map, List.map_map]
    apply List.map_congr_left
    intro x _
    show (if fillUnit c x = backslash then slash else fillUnit c x) =
      fillUnit c (if x = backslash then slash else x)
    split
    · rename_i h
      rw [fillUnit_eq_iff rfl hc.ne_backslash] at h
      rw [if_pos h]
      rfl
    · rename_i h
      rw [fillUnit_eq_iff rfl hc.ne_backslash] at h
      rw [if_neg h]
  have hsplit (t : Utf16) : (fill c t).splitOn slash = (t.splitOn slash).map (fill c) := by
    induction t with
    | nil => rfl
    | cons x t ih =>
      show List.splitOn slash (fillUnit c x :: fill c t) = _
      have hx : (fillUnit c x == slash) = (x == slash) := by
        rw [Bool.eq_iff_iff, beq_iff_eq, beq_iff_eq]
        exact fillUnit_eq_iff rfl hc.ne_slash
      rw [List.splitOn_cons_eq_if_modifyHead, List.splitOn_cons_eq_if_modifyHead, hx, ih]
      split
      · rfl
      · cases List.splitOn slash t with
        | nil => rfl
        | cons segment segments => rfl
  rw [hasDotPathSegment, hasDotPathSegment, hreplace, hsplit, List.any_map]
  congr 1
  funext segment
  have hone : fill c segment = ofString "." ↔ segment = ofString "." :=
    fill_eq_iff rfl (by simpa [ofString] using hc.ne_dot)
  have htwo : fill c segment = ofString ".." ↔ segment = ofString ".." :=
    fill_eq_iff rfl (by simpa [ofString] using hc.ne_dot)
  simp only [Function.comp_apply, hone, htwo]

end Fill

theorem isFiller_zero : IsFiller (unit '0') := by
  constructor <;> decide

theorem isFiller_one : IsFiller (unit '1') := by
  constructor <;> decide

/-- Two ways of filling a path with a wildcard differ. -/
theorem fill_ne_fill {c d : CodeUnit} (hne : c ≠ d) {s : Utf16} (h : hasWildcard s = true) :
    fill c s ≠ fill d s := by
  intro heq
  obtain ⟨x, hx, hwild⟩ := List.any_eq_true.mp h
  have hmap := List.map_inj_left.mp heq x hx
  rw [fillUnit, fillUnit, if_pos hwild, if_pos hwild] at hmap
  exact hne hmap

section Posix

variable {host : Host} (hposix : host.isWin32 = false)
include hposix

theorem pathKey_of_posix (s : Utf16) : host.pathKey s = normalizeMatchTarget host s := by
  rw [Host.pathKey, Host.realOf, Host.pathCase, hposix]
  exact List.map_id _

theorem hasWildcard_normalizeMatchTarget {s : Utf16} (h : hasWildcard s = true) :
    hasWildcard (normalizeMatchTarget host s) = true := by
  have hcollapse : hasWildcard (collapseBackslashes s) = true := by
    obtain ⟨c, hc, hwild⟩ := List.any_eq_true.mp h
    have hne : c ≠ backslash := by
      rintro rfl
      cases hwild
    exact List.any_eq_true.mpr ⟨c, mem_collapseBackslashes_of_mem hc hne, hwild⟩
  simp only [normalizeMatchTarget, hposix, Bool.false_eq_true, if_false]
  split
  · split
    · rename_i heq
      rw [heq] at hcollapse
      cases hcollapse
    · split
      · rename_i hdir
        obtain ⟨rest, hrest⟩ := List.isPrefixOf_iff_prefix.mp hdir
        rw [← hrest] at hcollapse ⊢
        exact hcollapse
      · exact hcollapse
  · exact hcollapse

/-- A path with a wildcard matches what it becomes with any character in its place. -/
theorem matches_fill (hhost : host.Lawful) {p : Utf16} (hp : isAbsolutePath p = true)
    (hwild : hasWildcard (trim p) = true)
    (hdots : hasDotPathSegment (normalizeMatchTarget host (trim p)) = false) {c : CodeUnit}
    (hc : IsFiller c) : matchesExecAllowlistPattern host (trim p) (fill c (trim p)) = true := by
  obtain ⟨d, hhead, hd⟩ := head?_of_absolute hp
  have hhome : (trim p).head? ≠ some (unit '~') := by
    rw [hhead]
    exact fun h => hd (Option.some.inj h)
  have hcase : host.pathCase = id := by
    rw [Host.pathCase, hposix]
    rfl
  simp only [matchesExecAllowlistPattern, trim_trim, trim_ne_nil_of_absolute hp, if_false, hhome,
    hposix, Bool.false_and, Bool.false_eq_true, hwild, Bool.true_and, normalizeMatchTarget_fill hc,
    hasDotPathSegment_fill hc, hdots, compileGlobRegex_eq hhost, hcase, Option.any_some]
  exact accepts_fill hc _

end Posix

end Flashclaw.Exec
