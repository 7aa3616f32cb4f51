import Flashclaw.Exec.Wildcards

/-!
# Exec allowlist: what an approval for good grants

An approval persists the path of the executable as a pattern and, on Windows,
its arguments as a regular expression.  It grants the path and the arguments
that were approved when the path has no wildcard, and when the arguments are
neither none nor two empty ones, which are written alike.
-/

namespace Flashclaw.Exec

open Utf16

/-- Processes get no NUL in their arguments. -/
def NoNul (args : List Utf16) : Prop := ∀ arg ∈ args, NUL ∉ arg

instance (args : List Utf16) : Decidable (NoNul args) :=
  inferInstanceAs (Decidable (∀ arg ∈ args, NUL ∉ arg))

/-- Equal argument by argument up to `/` and `\`. -/
def SameArgs (a b : List Utf16) : Prop := a.map toBackslashes = b.map toBackslashes

/-- Every argument with its separator. -/
def terminated (args : List Utf16) : Utf16 := args.flatMap fun arg => arg ++ [NUL]

theorem argsString_of_ne_nil {args : List Utf16} (h : args ≠ []) :
    argsString NUL args = terminated args := by
  rw [argsString, if_pos rfl, if_neg h]
  induction args with
  | nil => cases h rfl
  | cons arg args ih =>
    cases args with
    | nil => simp [join, terminated]
    | cons arg' args =>
      have ih := ih (List.cons_ne_nil _ _)
      rw [join] at ih ⊢
      rw [List.intercalate_cons_cons, List.append_assoc, ih]
      rfl

theorem append_nul_inj {x y s t : Utf16} (hx : NUL ∉ x) (hy : NUL ∉ y)
    (h : x ++ NUL :: s = y ++ NUL :: t) : x = y ∧ s = t := by
  induction x generalizing y with
  | nil =>
    cases y with
    | nil => exact ⟨rfl, (List.cons.inj h).2⟩
    | cons c y =>
      obtain ⟨rfl, -⟩ := List.cons.inj h
      exact absurd List.mem_cons_self hy
  | cons c x ih =>
    cases y with
    | nil =>
      obtain ⟨rfl, -⟩ := List.cons.inj h
      exact absurd List.mem_cons_self hx
    | cons d y =>
      obtain ⟨rfl, htail⟩ := List.cons.inj h
      obtain ⟨rfl, rfl⟩ := ih (fun hmem => hx (List.mem_cons_of_mem c hmem))
        (fun hmem => hy (List.mem_cons_of_mem c hmem)) htail
      exact ⟨rfl, rfl⟩

theorem terminated_injective {a b : List Utf16} (ha : NoNul a) (hb : NoNul b)
    (h : terminated a = terminated b) : a = b := by
  induction a generalizing b with
  | nil =>
    cases b with
    | nil => rfl
    | cons y b => simp [terminated] at h
  | cons x a ih =>
    cases b with
    | nil => simp [terminated] at h
    | cons y b =>
      simp only [terminated, List.flatMap_cons, List.append_assoc, List.singleton_append] at h
      obtain ⟨rfl, htail⟩ :=
        append_nul_inj (ha x List.mem_cons_self) (hb y List.mem_cons_self) h
      rw [ih (fun arg harg => ha arg (List.mem_cons_of_mem x harg))
        (fun arg harg => hb arg (List.mem_cons_of_mem x harg)) htail]

/-- Two lists of arguments that are written alike are equal, but for none and two empty ones. -/
theorem argsString_inj {a b : List Utf16} (ha : NoNul a) (hb : NoNul b) :
    argsString NUL a = argsString NUL b ↔
      a = b ∨ a = [] ∧ b = [[], []] ∨ a = [[], []] ∧ b = [] := by
  have hempty (l : List Utf16) (hl : NoNul l) (hne : l ≠ []) :
      argsString NUL [] = argsString NUL l ↔ l = [[], []] := by
    rw [argsString_of_ne_nil hne]
    constructor
    · intro h
      have htwo : NoNul [[], []] := by simp [NoNul]
      exact (terminated_injective htwo hl h).symm
    · rintro rfl
      rfl
  by_cases hane : a = []
  · subst hane
    by_cases hbne : b = []
    · subst hbne
      simp
    · rw [hempty b hb hbne]
      simp [Ne.symm hbne]
  · by_cases hbne : b = []
    · subst hbne
      rw [eq_comm, hempty a ha hane]
      simp [hane]
    · rw [argsString_of_ne_nil hane, argsString_of_ne_nil hbne]
      constructor
      · intro h
        exact .inl (terminated_injective ha hb h)
      · rintro (rfl | ⟨h, -⟩ | ⟨-, h⟩)
        · rfl
        · exact absurd h hane
        · exact absurd h hbne

/-- What goes through separators goes through joined arguments. -/
theorem join_map {g : Utf16 → Utf16} (hnil : g [] = [])
    (hsep : ∀ x y, g (x ++ NUL :: y) = g x ++ NUL :: g y) (parts : List Utf16) :
    join NUL (parts.map g) = g (join NUL parts) := by
  induction parts with
  | nil => exact hnil.symm
  | cons x parts ih =>
    cases parts with
    | nil => simp [join]
    | cons y parts =>
      rw [join] at ih ⊢
      rw [List.map_cons, List.map_cons, List.intercalate_cons_cons, ← List.map_cons, ih, join, join,
        List.intercalate_cons_cons, List.append_assoc, List.append_assoc]
      exact (hsep _ _).symm

theorem toBackslashes_append_nul (x y : Utf16) :
    toBackslashes (x ++ NUL :: y) = toBackslashes x ++ NUL :: toBackslashes y := by
  rw [toBackslashes, replaceUnit, List.map_append, List.map_cons]
  rfl

theorem toBackslashes_argsString (args : List Utf16) :
    toBackslashes (argsString NUL args) = argsString NUL (args.map toBackslashes) := by
  cases args with
  | nil => rfl
  | cons arg args =>
    rw [argsString, if_pos rfl, if_neg (List.cons_ne_nil _ _), argsString, if_pos rfl,
      if_neg (by simp), join_map rfl toBackslashes_append_nul]
    exact toBackslashes_append_nul _ []

theorem toBackslashes_idem (s : Utf16) : toBackslashes (toBackslashes s) = toBackslashes s := by
  rw [toBackslashes, toBackslashes, replaceUnit, replaceUnit, List.map_map]
  apply List.map_congr_left
  intro c _
  show (if (if c = slash then backslash else c) = slash then backslash else
    if c = slash then backslash else c) = if c = slash then backslash else c
  by_cases h : c = slash
  · rw [if_pos h]
    rfl
  · rw [if_neg h, if_neg h]

theorem noNul_map {args : List Utf16} (h : NoNul args) : NoNul (args.map toBackslashes) := by
  intro arg harg hmem
  obtain ⟨x, hx, rfl⟩ := List.mem_map.mp harg
  obtain ⟨c, hc, heq⟩ := List.mem_map.mp hmem
  split at heq
  · cases heq
  · exact h x hx (heq ▸ hc)

section ArgPattern

variable {host : Host} {platform : Option Utf16}

/-- The pattern of arguments, from the same text that arguments are compared as. -/
def argPatternOf (a : List Utf16) : Utf16 :=
  RegExp.anchored (RegExp.literal (argsString NUL (a.map toBackslashes)))

theorem escape_NUL : RegExp.escape NUL = [NUL] := by decide

theorem escape_append_nul (x y : Utf16) :
    escapeRegExpLiteral (x ++ NUL :: y) = escapeRegExpLiteral x ++ NUL :: escapeRegExpLiteral y := by
  rw [escapeRegExpLiteral, List.flatMap_append, List.flatMap_cons, escape_NUL]
  rfl

theorem argPatternOf_eq (a : List Utf16) :
    argPatternOf a =
      if a.map toBackslashes = [] then [unit '^', NUL, NUL, unit '$']
      else unit '^' :: escapeRegExpLiteral (join NUL (a.map toBackslashes)) ++ [NUL, unit '$'] := by
  rw [argPatternOf, RegExp.anchored, RegExp.source_literal, argsString, if_pos rfl]
  split
  · rfl
  · rw [List.flatMap_append, escapeRegExpLiteral]
    simp [escape_NUL]

theorem buildArgPatternFromArgv_eq (argv : List Utf16) :
    buildArgPatternFromArgv host argv platform =
      if isWindowsPlatform host (platform.getD host.platform) then some (argPatternOf argv.tail)
      else none := by
  rw [argPatternOf_eq, buildArgPatternFromArgv]
  cases isWindowsPlatform host (platform.getD host.platform) with
  | false => rfl
  | true =>
    simp only [Bool.not_true, Bool.false_eq_true, if_false, if_true]
    split
    · rfl
    · rfl

theorem buildScriptArgPatternFromArgv_eq {argv : List Utf16} {scriptPath : Utf16}
    {cwd : Option Utf16} {i : ℕ} (h : findScript host argv scriptPath cwd = some i) :
    buildScriptArgPatternFromArgv host argv scriptPath cwd platform =
      if isWindowsPlatform host (platform.getD host.platform) then
        some (argPatternOf (argv.drop (i + 1)))
      else none := by
  have hscript : argv.drop (i + 1) = scriptArgs host argv scriptPath cwd := by
    rw [scriptArgs, h, Option.elim_some]
  rw [argPatternOf_eq, buildScriptArgPatternFromArgv, hscript]
  cases isWindowsPlatform host (platform.getD host.platform) with
  | false => rfl
  | true =>
    simp only [Bool.not_true, Bool.false_eq_true, if_false, if_true]
    split
    · rfl
    · rw [join_map rfl escape_append_nul]

/-- The arguments that a pattern of arguments matches. -/
theorem matchArgPattern_iff (hhost : host.Lawful)
    (hwindows : isWindowsPlatform host (platform.getD host.platform) = true) (a argv : List Utf16) :
    matchArgPattern host (argPatternOf a) argv platform = true ↔
      argsString NUL (a.map toBackslashes) = argsString NUL (argv.tail.map toBackslashes) := by
  have hsep : NUL ∈ argPatternOf a := by
    rw [argPatternOf_eq]
    split
    · decide
    · simp
  have htest (s : Utf16) :
      RegExp.accepts id (RegExp.literal (argsString NUL (a.map toBackslashes))) s = true ↔
        argsString NUL (a.map toBackslashes) = s := by
    rw [RegExp.accepts_literal, List.map_id, List.map_id]
  have hback : toBackslashes (argsString NUL (a.map toBackslashes)) =
      argsString NUL (a.map toBackslashes) := by
    rw [toBackslashes_argsString, List.map_map]
    congr 1
    apply List.map_congr_left
    intro x _
    exact toBackslashes_idem x
  have hregExp : host.regExp (argPatternOf a) false =
      some (RegExp.accepts id (RegExp.literal (argsString NUL (a.map toBackslashes)))) :=
    hhost.regExp _ false
  simp only [matchArgPattern, hsep, if_true, hregExp, Option.any_some, hwindows, Bool.true_and, Bool.or_eq_true, Bool.and_eq_true,
    htest, decide_eq_true_eq, ← toBackslashes_argsString argv.tail]
  constructor
  · rintro (h | ⟨-, h⟩)
    · rw [← h, hback]
    · exact h
  · intro h
    by_cases heq : toBackslashes (argsString NUL argv.tail) = argsString NUL argv.tail
    · exact .inl (h.trans heq)
    · exact .inr ⟨heq, h⟩

end ArgPattern

section Grants

variable {host : Host} {platform : Option Utf16} {p : Utf16} {a : List Utf16}

/-- The patterns of arguments that are built for `a`: those of a command, or after a script. -/
inductive BuildsArgPattern (host : Host) (platform : Option Utf16) (a : List Utf16) :
    Option Utf16 → Prop
  | command (argv : List Utf16) (h : argv.tail = a) :
      BuildsArgPattern host platform a (buildArgPatternFromArgv host argv platform)
  | script (argv : List Utf16) (scriptPath : Utf16) (cwd : Option Utf16) (i : ℕ)
      (hi : findScript host argv scriptPath cwd = some i) (h : argv.drop (i + 1) = a) :
      BuildsArgPattern host platform a (buildScriptArgPatternFromArgv host argv scriptPath cwd platform)

/-- An entry that an approval of the path with the pattern of arguments persists. -/
structure IsPersisted (p : Utf16) (argPattern : Option Utf16) (entry : ExecAllowlistEntry) :
    Prop where
  pattern : entry.pattern = some (trim p)
  argPattern : entry.argPattern = argPattern

/-- Every entry persisted for `p` and `a` matches exactly `p` with `a`. -/
def GrantsExactly (host : Host) (platform : Option Utf16) (p : Utf16) (a : List Utf16) : Prop :=
  ∀ argPattern entry, BuildsArgPattern host platform a argPattern →
    IsPersisted p argPattern entry →
    ∀ (resolution : ExecutableResolution) (argv : List Utf16),
      isSet resolution.resolvedPath = true → NoNul argv.tail →
      (matchAllowlist host [entry] (some resolution) (some argv) platform = some entry ↔
        SamePath host p (trustPathOf resolution) ∧
          (isWindowsPlatform host (platform.getD host.platform) = true → SameArgs a argv.tail))

/-- The path is its own pattern, and the arguments are not written as others are. -/
structure Grantable (host : Host) (platform : Option Utf16) (p : Utf16) (a : List Utf16) :
    Prop where
  trimmed : SamePath host p (trim p)
  plain : hasWildcard (trim p) = false
  args : isWindowsPlatform host (platform.getD host.platform) = true → a ≠ [] ∧ a ≠ [[], []]

/-- File systems give paths without `.` and `..`, and on Windows without wildcards. -/
structure IsCanonical (host : Host) (p : Utf16) : Prop where
  no_dots : hasDotPathSegment (normalizeMatchTarget host (trim p)) = false
  win32 : host.isWin32 = true → hasWildcard (trim p) = false

theorem builds_eq {argPattern : Option Utf16} (h : BuildsArgPattern host platform a argPattern) :
    argPattern = if isWindowsPlatform host (platform.getD host.platform) then some (argPatternOf a)
      else none := by
  cases h with
  | command argv h => rw [buildArgPatternFromArgv_eq, h]
  | script argv scriptPath cwd i hi h => rw [buildScriptArgPatternFromArgv_eq hi, h]

/-- An approval leaves an entry for its path and its pattern of arguments in the allowlist. -/
theorem exists_persisted {allowlist next : List ExecAllowlistEntry} {argPattern source : Option Utf16}
    {id : Utf16} {now : ℕ} (hne : argPattern ≠ some [])
    (h : applyAllowlistEntryUpdate allowlist p argPattern source id now = some next) :
    ∃ entry ∈ next, IsPersisted p argPattern entry := by
  simp only [applyAllowlistEntryUpdate, hne, if_false] at h
  split at h
  · cases h
  · split at h
    · rename_i existing hfind
      split at h
      · cases h
      · obtain rfl := Option.some.inj h
        have hsame := List.find?_some hfind
        refine ⟨_, List.mem_map.mpr ⟨existing, List.mem_of_find?_eq_some hfind, rfl⟩, ?_⟩
        rw [if_pos hsame]
        simp only [Bool.and_eq_true, decide_eq_true_eq] at hsame
        exact ⟨hsame.1, rfl⟩
    · obtain rfl := Option.some.inj h
      exact ⟨_, List.mem_append_right _ List.mem_cons_self, rfl, rfl⟩

theorem trustPathOf_ne_nil {resolution : ExecutableResolution}
    (h : isSet resolution.resolvedPath = true) : trustPathOf resolution ≠ [] := by
  unfold trustPathOf
  dsimp only
  split
  · assumption
  · cases hpath : resolution.resolvedPath with
    | none =>
      rw [hpath] at h
      cases h
    | some path =>
      rw [hpath] at h
      simpa [isSet] using h

/-- A single entry matches when its path does, and its pattern of arguments where it has one. -/
theorem matchAllowlist_singleton (hp : isAbsolutePath p = true) {argPattern : Option Utf16}
    {entry : ExecAllowlistEntry} (hentry : IsPersisted p argPattern entry)
    {resolution : ExecutableResolution} (hset : isSet resolution.resolvedPath = true)
    (argv : List Utf16) :
    matchAllowlist host [entry] (some resolution) (some argv) platform = some entry ↔
      matchesExecAllowlistPattern host (trim p) (trustPathOf resolution) = true ∧
        (isSet argPattern = true →
          matchArgPattern host (argPattern.getD []) argv platform = true) := by
  have hselector := hasPathSelector_of_absolute hp
  have hstar : trim p ≠ [unit '*'] := by
    intro heq
    rw [heq] at hselector
    cases hselector
  have hwild : [entry].find? (fun entry =>
      entry.pattern.map trim = some [unit '*'] && !isSet entry.argPattern) = none := by
    rw [List.find?_eq_none]
    intro e he
    rw [List.mem_singleton.mp he, hentry.pattern, Option.map_some, trim_trim]
    simp [hstar]
  rw [matchAllowlist]
  simp only [hwild, Option.isSome_none, Bool.false_eq_true, if_false, hset, Bool.not_true,
    trustPathOf_ne_nil hset, matchEntries, hentry.pattern, hentry.argPattern, Option.getD_some,
    trim_trim, trim_ne_nil_of_absolute hp, matchesEntryPath, hselector, if_true, Option.any_some]
  cases matchesExecAllowlistPattern host (trim p) (trustPathOf resolution) with
  | false => simp
  | true =>
    cases isSet argPattern with
    | false => simp
    | true => simp

theorem sameArgs_iff (ha : NoNul a) {b : List Utf16} (hb : NoNul b) (hne : a ≠ [])
    (hne' : a ≠ [[], []]) :
    argsString NUL (a.map toBackslashes) = argsString NUL (b.map toBackslashes) ↔
      SameArgs a b := by
  rw [argsString_inj (noNul_map ha) (noNul_map hb), SameArgs]
  constructor
  · rintro (h | ⟨h, -⟩ | ⟨h, -⟩)
    · exact h
    · exact absurd (List.map_eq_nil_iff.mp h) hne
    · obtain ⟨x, l, rfl, hx, h⟩ := List.map_eq_cons_iff.mp h
      obtain ⟨y, l, rfl, hy, h⟩ := List.map_eq_cons_iff.mp h
      rw [List.map_eq_nil_iff.mp hx, List.map_eq_nil_iff.mp hy, List.map_eq_nil_iff.mp h] at hne'
      exact absurd rfl hne'
  · exact .inl

theorem grantsExactly_of_grantable (hhost : host.Lawful) (hp : isAbsolutePath p = true)
    (ha : NoNul a) (h : Grantable host platform p a) : GrantsExactly host platform p a := by
  intro argPattern entry hbuilds hentry resolution argv hset hargv
  rw [matchAllowlist_singleton hp hentry hset, matches_iff_of_no_wildcard hhost hp h.plain,
    builds_eq hbuilds, SamePath, SamePath, ← h.trimmed]
  cases hwindows : isWindowsPlatform host (platform.getD host.platform) with
  | false => simp [isSet]
  | true =>
    obtain ⟨hne, hne'⟩ := h.args hwindows
    have hset : isSet (some (argPatternOf a)) = true := by
      simp [isSet, argPatternOf, RegExp.anchored]
    simp only [if_true, hset, Option.getD_some, true_imp_iff,
      matchArgPattern_iff hhost hwindows a argv, sameArgs_iff ha hargv hne hne']

/-- The resolution of a command that stands at a path. -/
def resolutionAt (path : Utf16) : ExecutableResolution := ⟨path, some path, none, path⟩

theorem grantsExactly_iff_at (hhost : host.Lawful) (hp : isAbsolutePath p = true)
    (h : GrantsExactly host platform p a) {q : Utf16} (hq : q ≠ []) {b : List Utf16}
    (hb : NoNul b) :
    (matchesExecAllowlistPattern host (trim p) q = true ∧
      (isWindowsPlatform host (platform.getD host.platform) = true →
        argsString NUL (a.map toBackslashes) = argsString NUL (b.map toBackslashes))) ↔
    SamePath host p q ∧
      (isWindowsPlatform host (platform.getD host.platform) = true → SameArgs a b) := by
  have hbuilds : BuildsArgPattern host platform a
      (buildArgPatternFromArgv host (p :: a) platform) := .command _ rfl
  have heq := builds_eq hbuilds
  have hset : isSet (resolutionAt q).resolvedPath = true := decide_eq_true hq
  have hentry : IsPersisted p (buildArgPatternFromArgv host (p :: a) platform)
      ⟨[], some (trim p), buildArgPatternFromArgv host (p :: a) platform, none, none⟩ := ⟨rfl, rfl⟩
  have hiff := h _ _ hbuilds hentry (resolutionAt q) (q :: b) hset hb
  rw [matchAllowlist_singleton hp hentry hset, heq] at hiff
  have hpath : trustPathOf (resolutionAt q) = q := rfl
  rw [hpath, List.tail_cons] at hiff
  refine Iff.trans ?_ hiff
  cases hwindows : isWindowsPlatform host (platform.getD host.platform) with
  | false => simp [isSet]
  | true =>
    have hset : isSet (some (argPatternOf a)) = true := by
      simp [isSet, argPatternOf, RegExp.anchored]
    simp only [if_true, hset, Option.getD_some, true_imp_iff,
      matchArgPattern_iff hhost hwindows a (q :: b), List.tail_cons]

theorem grantable_of_grantsExactly (hhost : host.Lawful) (hp : isAbsolutePath p = true)
    (ha : NoNul a) (hcanonical : IsCanonical host p) (h : GrantsExactly host platform p a) :
    Grantable host platform p a := by
  have hpne : p ≠ [] := by
    rintro rfl
    cases hp
  have hsame (q : Utf16) (hq : q ≠ []) :
      matchesExecAllowlistPattern host (trim p) q = true ↔ SamePath host p q := by
    have hiff := grantsExactly_iff_at hhost hp h hq ha
    constructor
    · intro hmatch
      exact (hiff.mp ⟨hmatch, fun _ => rfl⟩).1
    · intro hsame
      exact (hiff.mpr ⟨hsame, fun _ => rfl⟩).1
  have hplain : hasWildcard (trim p) = false := by
    cases hposix : host.isWin32 with
    | true => exact hcanonical.win32 hposix
    | false =>
      by_contra hwild
      rw [Bool.not_eq_false] at hwild
      have hfill {c : CodeUnit} (hc : IsFiller c) : SamePath host p (fill c (trim p)) := by
        have hne : fill c (trim p) ≠ [] := by
          rw [fill, ne_eq, List.map_eq_nil_iff]
          exact trim_ne_nil_of_absolute hp
        exact (hsame _ hne).mp (matches_fill hposix hhost hp hwild hcanonical.no_dots hc)
      have heq := (hfill isFiller_zero).symm.trans (hfill isFiller_one)
      rw [pathKey_of_posix hposix, pathKey_of_posix hposix,
        normalizeMatchTarget_fill isFiller_zero hposix,
        normalizeMatchTarget_fill isFiller_one hposix] at heq
      exact fill_ne_fill (by decide) (hasWildcard_normalizeMatchTarget hposix hwild) heq
  have htrimmed : matchesExecAllowlistPattern host (trim p) p = true := (hsame p hpne).mpr rfl
  refine ⟨((matches_iff_of_no_wildcard hhost hp hplain p).mp htrimmed).symm, hplain, ?_⟩
  intro hwindows
  -- the two lists of arguments that are written alike
  have hcollide {b : List Utf16} (hb : NoNul b)
      (halike : argsString NUL (a.map toBackslashes) = argsString NUL (b.map toBackslashes)) :
      SameArgs a b :=
    ((grantsExactly_iff_at hhost hp h hpne hb).mp ⟨htrimmed, fun _ => halike⟩).2 hwindows
  constructor
  · rintro rfl
    have htwo : NoNul [[], []] := by simp [NoNul]
    cases hcollide htwo rfl
  · rintro rfl
    have hnone : NoNul [] := by simp [NoNul]
    cases hcollide hnone rfl

/-- An approval of a canonical path grants exactly what was approved when its path has no
wildcard and its arguments are neither none nor two empty ones; any path's does then. -/
theorem grantsExactly_iff (host : Host) (hhost : host.Lawful) (platform : Option Utf16) (p : Utf16)
    (hp : isAbsolutePath p = true) (a : List Utf16) (ha : NoNul a) :
    (Grantable host platform p a → GrantsExactly host platform p a) ∧
      (IsCanonical host p → (GrantsExactly host platform p a ↔ Grantable host platform p a)) :=
  ⟨grantsExactly_of_grantable hhost hp ha, fun hcanonical =>
    ⟨grantable_of_grantsExactly hhost hp ha hcanonical, grantsExactly_of_grantable hhost hp ha⟩⟩

end Grants

def upperUnit (c : CodeUnit) : CodeUnit :=
  if unit 'a' ≤ c ∧ c ≤ unit 'z' then Fin.ofNat _ (c.val - 32) else c

def lowerUnit (c : CodeUnit) : CodeUnit :=
  if unit 'A' ≤ c ∧ c ≤ unit 'Z' then Fin.ofNat _ (c.val + 32) else c

/-- A host without links, whose texts are ASCII. -/
def sampleHost : Host where
  platform := ofString "win32"
  realpathSync _ := none
  normalizePosix s := s
  normalizeWin32 s := s
  isAbsolute := isAbsolutePath
  resolve base arg := base ++ backslash :: arg
  basename s := (s.splitOn backslash).getLastD []
  cwd := ofString "C:\\"
  expandHomePrefix s := s
  toLowerCase s := s.map lowerUnit
  canonicalize := upperUnit
  regExp source ignoreCase :=
    (RegExp.read source).map (RegExp.accepts (if ignoreCase then upperUnit else id))

theorem sampleHost_lawful : sampleHost.Lawful where
  regExp ts ignoreCase := by
    show (RegExp.read _).map _ = _
    rw [RegExp.read_anchored]
    rfl
  realpath_wildcard _ p r _ h := by cases h
  toLowerCase_wildcard s h := by
    rw [hasWildcard_eq_false] at h ⊢
    intro c hc
    obtain ⟨x, hx, rfl⟩ := List.mem_map.mp hc
    unfold lowerUnit
    split
    · rename_i hletter
      simp only [Fin.le_def] at hletter
      have hA : (unit 'A').val = 0x41 := rfl
      have hZ : (unit 'Z').val = 0x5A := rfl
      have hval : (Fin.ofNat 0x10000 (x.val + 32)).val = x.val + 32 :=
        Nat.mod_eq_of_lt (by omega)
      have hne (d : CodeUnit) (hd : d.val < 0x61) : Fin.ofNat 0x10000 (x.val + 32) ≠ d := by
        rintro rfl
        omega
      simp only [isWildcard, hne _ (show (unit '*').val < 0x61 by decide),
        hne _ (show (unit '?').val < 0x61 by decide), decide_false, Bool.or_self]
    · exact h x hx

def samplePath : Utf16 := ofString "C:\\tools\\rg.exe"

theorem grantsExactly_iff_sample :
    Grantable sampleHost none samplePath [ofString "-n", ofString "src/main"] ∧
      GrantsExactly sampleHost none samplePath [ofString "-n", ofString "src/main"] := by
  have hgrantable : Grantable sampleHost none samplePath [ofString "-n", ofString "src/main"] :=
    ⟨by decide +kernel, by decide +kernel, fun _ => by decide⟩
  exact ⟨hgrantable, (grantsExactly_iff sampleHost sampleHost_lawful none samplePath
    (by decide) _ (by decide)).1 hgrantable⟩

/-- An approval of a command without arguments grants it with two empty ones. -/
theorem not_grantsExactly_none :
    sampleHost.Lawful ∧ isAbsolutePath samplePath = true ∧ IsCanonical sampleHost samplePath ∧
      ¬ GrantsExactly sampleHost none samplePath [] := by
  refine ⟨sampleHost_lawful, by decide, ⟨by decide +kernel, fun _ => by decide⟩, ?_⟩
  intro h
  have hbuilds : BuildsArgPattern sampleHost none []
      (buildArgPatternFromArgv sampleHost [samplePath] none) := .command _ rfl
  have htwo : NoNul [[], []] := by simp [NoNul]
  have hiff := h _ ⟨[], some samplePath, buildArgPatternFromArgv sampleHost [samplePath] none, none,
    none⟩ hbuilds ⟨by decide, rfl⟩ (resolutionAt samplePath) [samplePath, [], []] (by decide) htwo
  have hmatch := hiff.mp (by decide +kernel)
  cases hmatch.2 (by decide +kernel)

end Flashclaw.Exec
