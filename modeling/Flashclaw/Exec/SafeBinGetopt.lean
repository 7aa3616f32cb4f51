import Flashclaw.Exec.SafeBinArgv

/-!
# Safe bins: the arguments as `getopt_long` reads them

The reading is stated on its own, with the long flags of a profile for the options of the
program, and every vector that passes the validator is followed through it.
-/

namespace Flashclaw.Exec.SafeBin

open Utf16

structure Options where
  longFlags : List Utf16
  takesValue : Utf16 → Bool

inductive Argument where
  | option (flag : Utf16) (value : Option Utf16)
  | unknown (raw : Utf16)
  | operand (raw : Utf16)
deriving DecidableEq

section Getopt

variable (options : Options)

/-- A name as it stands, or the only flag that it is a prefix of. -/
def resolveLong (name : Utf16) : Option Utf16 :=
  if name ∈ options.longFlags then some name
  else
    match options.longFlags.filter fun flag => name.isPrefixOf flag with
    | [] => none
    | flag :: others => if others.all (· = flag) then some flag else none

/-- What a long option says, and the flag whose value is the next argument. -/
def readLong (raw : Utf16) : List Argument × Option Utf16 :=
  match resolveLong options (raw.takeWhile fun c => c ≠ unit '=') with
  | none => ([.unknown raw], none)
  | some flag =>
    if unit '=' ∈ raw then
      ([.option flag (some (raw.dropWhile fun c => c ≠ unit '=').tail)], none)
    else if options.takesValue flag then ([], some flag)
    else ([.option flag none], none)

/-- The short options of a cluster, up to one with a value. -/
def readCluster : Utf16 → List Argument × Option Utf16
  | [] => ([], none)
  | c :: cluster =>
    if options.takesValue [DASH, c] then
      if cluster = [] then ([], some [DASH, c]) else ([.option [DASH, c] (some cluster)], none)
    else (.option [DASH, c] none :: (readCluster cluster).1, (readCluster cluster).2)

def readOption (raw : Utf16) : List Argument × Option Utf16 :=
  if isLong raw then readLong options raw else readCluster options raw.tail

def getopt : List Utf16 → List Argument
  | [] => []
  | raw :: args =>
    if raw = [DASH, DASH] then args.map .operand
    else if [DASH] <+: raw ∧ raw ≠ [DASH] then
      match readOption options raw, args with
      | (found, none), args => found ++ getopt args
      | (found, some flag), [] => found ++ [.option flag none]
      | (found, some flag), value :: args => found ++ .option flag (some value) :: getopt args
    else .operand raw :: getopt args

end Getopt

def longFlags (flags : Flags) : List Utf16 :=
  (flags.allowedValueFlags ++ flags.allowedBooleanFlags ++ flags.deniedFlags).filter isLong

/-- The options of a profile. Whether a denied flag takes a value is left open. -/
def optionsOf (flags : Flags) (deniedTakesValue : Utf16 → Bool) : Options where
  longFlags := longFlags flags
  takesValue flag := flag ∈ flags.allowedValueFlags ||
    (flag ∉ flags.allowedBooleanFlags && deniedTakesValue flag)

/-- An option that a profile allows, with a value if and only if the profile says so. -/
structure AdmitsOption (flags : Flags) (flag : Utf16) (value : Option Utf16) : Prop where
  not_denied : flag ∉ flags.deniedFlags
  allowed : flag ∈ flags.allowedValueFlags ∨ flag ∈ flags.allowedBooleanFlags
  takes_value : value.isSome ↔ flag ∈ flags.allowedValueFlags
  safe : ∀ v, value = some v → isSafeLiteralToken v = true

def Admits (flags : Flags) : Argument → Prop
  | .option flag value => AdmitsOption flags flag value
  | .unknown _ => False
  | .operand raw => isSafeLiteralToken raw = true

/-- The operands that are files, not nothing and not the standard input. -/
def fileOperands : List Argument → List Utf16
  | [] => []
  | .operand raw :: found =>
    if raw = [] ∨ raw = [DASH] then fileOperands found else raw :: fileOperands found
  | .option _ _ :: found => fileOperands found
  | .unknown _ :: found => fileOperands found

section Compiled

variable (fixture : BuiltinSafeBinProfileFixture)

/-- The flags of a compiled profile. -/
def compiledFlags : Flags := (compileSafeBinProfile fixture).flags

theorem mem_knownLongFlags {flag : Utf16} :
    flag ∈ (compiledFlags fixture).knownLongFlagsSet ↔
      flag ∈ longFlags (compiledFlags fixture) := by
  show flag ∈ List.eraseDups (List.eraseDups _) ↔ _
  rw [List.mem_eraseDups, List.mem_eraseDups]
  rfl

theorem resolved_flag (start : Utf16) :
    Resolved (longFlags (compiledFlags fixture)).eraseDups start
      ((compiledFlags fixture).longFlagPrefixMap.get? start) :=
  resolved_prefixMap _ start

/-- The validator takes an abbreviation for the flag that the program takes it for. -/
theorem resolveLong_of_canonical {name flag : Utf16} (deniedTakesValue : Utf16 → Bool)
    (h : resolveCanonicalLongFlag (compiledFlags fixture) name = some flag) :
    resolveLong (optionsOf (compiledFlags fixture) deniedTakesValue) name = some flag ∧
      flag ∈ longFlags (compiledFlags fixture) := by
  rw [resolveCanonicalLongFlag] at h
  split_ifs at h with hshort hknown
  · obtain rfl := Option.some.inj h
    have hmem := (mem_knownLongFlags fixture).mp hknown
    exact ⟨if_pos hmem, hmem⟩
  · have hresolved := resolved_flag fixture name
    rw [Option.join_eq_some_iff.mp h] at hresolved
    obtain ⟨hmem, habbreviates, honly⟩ := hresolved
    rw [List.mem_eraseDups] at hmem
    refine ⟨?_, hmem⟩
    have hunknown : name ∉ longFlags (compiledFlags fixture) :=
      fun hmem => hknown ((mem_knownLongFlags fixture).mpr hmem)
    have honlyOne {other : Utf16} (hother : other ∈ (longFlags (compiledFlags fixture)).filter
        fun flag => name.isPrefixOf flag) : other = flag := by
      obtain ⟨hlong, hprefix⟩ := List.mem_filter.mp hother
      exact honly other (List.mem_eraseDups.mpr hlong)
        ⟨(List.mem_filter.mp hlong).2, habbreviates.2.1, List.isPrefixOf_iff_prefix.mp hprefix⟩
    have hfound : flag ∈ (longFlags (compiledFlags fixture)).filter
        fun flag => name.isPrefixOf flag :=
      List.mem_filter.mpr ⟨hmem, List.isPrefixOf_iff_prefix.mpr habbreviates.2.2⟩
    have hflags : (optionsOf (compiledFlags fixture) deniedTakesValue).longFlags =
        longFlags (compiledFlags fixture) := rfl
    rw [resolveLong, hflags, if_neg hunknown]
    cases hcandidates : (longFlags (compiledFlags fixture)).filter
        fun flag => name.isPrefixOf flag with
    | nil =>
      rw [hcandidates] at hfound
      cases hfound
    | cons first others =>
      rw [hcandidates] at honlyOne
      have hfirst : first = flag := honlyOne List.mem_cons_self
      have hothers : (others.all fun other => other = first) = true := by
        rw [List.all_eq_true]
        intro other hother
        rw [hfirst, decide_eq_true_eq]
        exact honlyOne (List.mem_cons_of_mem first hother)
      show (if _ then some first else none) = _
      rw [if_pos hothers, hfirst]

end Compiled

section Follows

variable {flags : Flags}

/-- The reading of an option that the validator lets pass. -/
def Follows (flags : Flags) (next : Option Utf16) (found : List Argument) :
    Option Utf16 → Consumed → Prop
  | none, .token => ∀ argument ∈ found, ∃ flag value,
    argument = .option flag value ∧ AdmitsOption flags flag value
  | some flag, .tokenAndValue =>
    (∀ argument ∈ found, ∃ flag value,
      argument = .option flag value ∧ AdmitsOption flags flag value) ∧
    ∃ value, next = some value ∧ AdmitsOption flags flag (some value)
  | _, _ => False

theorem Follows.cons {next : Option Utf16} {found : List Argument} {pending : Option Utf16}
    {consumed : Consumed} {flag : Utf16} {value : Option Utf16}
    (h : Follows flags next found pending consumed) (hadmits : AdmitsOption flags flag value) :
    Follows flags next (.option flag value :: found) pending consumed := by
  have hcons (hfound : ∀ argument ∈ found, ∃ flag value,
      argument = Argument.option flag value ∧ AdmitsOption flags flag value) :
      ∀ argument ∈ Argument.option flag value :: found, ∃ flag value,
        argument = Argument.option flag value ∧ AdmitsOption flags flag value :=
    List.forall_mem_cons.mpr ⟨⟨flag, value, rfl, hadmits⟩, hfound⟩
  cases pending <;> cases consumed
  · exact hcons h
  · exact h.elim
  · exact h.elim
  · exact ⟨hcons h.1, h.2⟩

theorem valid_next {next : Option Utf16} (h : ¬isInvalidValueToken next = true) :
    ∃ value, next = some value ∧ isSafeLiteralToken value = true := by
  cases next with
  | none => exact absurd rfl h
  | some value =>
    rw [isInvalidValueToken, Bool.or_eq_true, not_or, Bool.not_eq_true', Bool.not_eq_false] at h
    exact ⟨value, rfl, h.2⟩

theorem AdmitsOption.withValue {flag value : Utf16} (hdenied : flag ∉ flags.deniedFlags)
    (hvalue : flag ∈ flags.allowedValueFlags) (hsafe : isSafeLiteralToken value = true) :
    AdmitsOption flags flag (some value) where
  not_denied := hdenied
  allowed := .inl hvalue
  takes_value := iff_of_true rfl hvalue
  safe _ hv := Option.some.inj hv ▸ hsafe

theorem AdmitsOption.withoutValue {flag : Utf16} (hdenied : flag ∉ flags.deniedFlags)
    (hvalue : flag ∉ flags.allowedValueFlags) (hboolean : flag ∈ flags.allowedBooleanFlags) :
    AdmitsOption flags flag none where
  not_denied := hdenied
  allowed := .inr hboolean
  takes_value := iff_of_false Bool.false_ne_true hvalue
  safe _ hv := by cases hv

theorem takesValue_of_value {flag : Utf16} (deniedTakesValue : Utf16 → Bool)
    (h : flag ∈ flags.allowedValueFlags) :
    (optionsOf flags deniedTakesValue).takesValue flag = true := by
  show (decide (flag ∈ flags.allowedValueFlags) || _) = true
  rw [decide_eq_true h, Bool.true_or]

theorem takesValue_of_boolean {flag : Utf16} (deniedTakesValue : Utf16 → Bool)
    (h : flag ∉ flags.allowedValueFlags) (hboolean : flag ∈ flags.allowedBooleanFlags) :
    (optionsOf flags deniedTakesValue).takesValue flag = false := by
  show (decide (flag ∈ flags.allowedValueFlags) || (decide (flag ∉ flags.allowedBooleanFlags) &&
    deniedTakesValue flag)) = false
  rw [decide_eq_false h, decide_eq_false (not_not.mpr hboolean), Bool.false_or, Bool.false_and]

theorem follows_cluster {next : Option Utf16} {cluster left : Utf16} {j : ℕ}
    {consumed : Consumed} (deniedTakesValue : Utf16 → Bool) (hleft : cluster.drop j = left)
    (h : consumeShortFlags flags next cluster j (left.map fun c => [DASH, c]) = some consumed) :
    Follows flags next (readCluster (optionsOf flags deniedTakesValue) left).1
      (readCluster (optionsOf flags deniedTakesValue) left).2 consumed := by
  induction left generalizing j with
  | nil =>
    obtain rfl := Option.some.inj h
    exact fun argument hmem => (List.not_mem_nil hmem).elim
  | cons c left ih =>
    have hdrop : cluster.drop (j + 1) = left := by
      rw [← List.drop_drop, hleft, List.drop_one, List.tail_cons]
    rw [List.map_cons, consumeShortFlags] at h
    by_cases hdenied : [DASH, c] ∈ flags.deniedFlags
    · rw [if_pos hdenied] at h
      cases h
    rw [if_neg hdenied] at h
    by_cases hvalue : [DASH, c] ∈ flags.allowedValueFlags
    · rw [if_pos hvalue, hdrop] at h
      rw [readCluster, if_pos (takesValue_of_value deniedTakesValue hvalue)]
      by_cases hinline : left = []
      · rw [if_neg (not_not.mpr hinline)] at h
        split_ifs at h with hinvalid
        obtain rfl := Option.some.inj h
        obtain ⟨value, hnext, hsafe⟩ := valid_next hinvalid
        rw [if_pos hinline]
        exact ⟨fun argument hmem => (List.not_mem_nil hmem).elim, value, hnext,
          .withValue hdenied hvalue hsafe⟩
      · rw [if_pos hinline] at h
        split_ifs at h with hsafe
        obtain rfl := Option.some.inj h
        rw [if_neg hinline]
        intro argument hmem
        exact ⟨_, _, List.mem_singleton.mp hmem, .withValue hdenied hvalue hsafe⟩
    · rw [if_neg hvalue] at h
      split_ifs at h with hboolean
      rw [readCluster, takesValue_of_boolean deniedTakesValue hvalue hboolean,
        if_neg Bool.false_ne_true]
      exact (ih hdrop h).cons (.withoutValue hdenied hvalue hboolean)

end Follows

section Long

variable (fixture : BuiltinSafeBinProfileFixture)

theorem follows_long {next : Option Utf16} {raw : Utf16} {consumed : Consumed}
    (deniedTakesValue : Utf16 → Bool)
    (h : consumeLongOptionToken (compiledFlags fixture) next (raw.takeWhile fun c => c ≠ unit '=')
      (if unit '=' ∈ raw then some (raw.dropWhile fun c => c ≠ unit '=').tail else none) =
        some consumed) :
    Follows (compiledFlags fixture) next
      (readLong (optionsOf (compiledFlags fixture) deniedTakesValue) raw).1
      (readLong (optionsOf (compiledFlags fixture) deniedTakesValue) raw).2 consumed := by
  rw [consumeLongOptionToken] at h
  cases hcanonical : resolveCanonicalLongFlag (compiledFlags fixture)
      (raw.takeWhile fun c => c ≠ unit '=') with
  | none =>
    rw [hcanonical] at h
    cases h
  | some flag =>
    obtain ⟨hresolve, hlong⟩ := resolveLong_of_canonical fixture deniedTakesValue hcanonical
    rw [hcanonical] at h
    dsimp only at h
    rw [readLong, hresolve]
    dsimp only
    have hknown : flag ∈ (compiledFlags fixture).allowedValueFlags ∨
        flag ∈ (compiledFlags fixture).allowedBooleanFlags ∨
        flag ∈ (compiledFlags fixture).deniedFlags := by
      have hmem := (List.mem_filter.mp hlong).1
      rwa [List.mem_append, List.mem_append, or_assoc] at hmem
    by_cases hdenied : flag ∈ (compiledFlags fixture).deniedFlags
    · rw [if_pos hdenied] at h
      cases h
    rw [if_neg hdenied] at h
    by_cases hinline : unit '=' ∈ raw
    · rw [if_pos hinline] at h ⊢
      dsimp only at h
      split_ifs at h with hvalue hsafe
      obtain rfl := Option.some.inj h
      intro argument hmem
      exact ⟨_, _, List.mem_singleton.mp hmem, .withValue hdenied hvalue hsafe⟩
    · rw [if_neg hinline] at h ⊢
      dsimp only at h
      by_cases hvalue : flag ∈ (compiledFlags fixture).allowedValueFlags
      · rw [if_neg (not_not.mpr hvalue)] at h
        split_ifs at h with hinvalid
        obtain rfl := Option.some.inj h
        obtain ⟨value, hnext, hsafe⟩ := valid_next hinvalid
        rw [if_pos (takesValue_of_value deniedTakesValue hvalue)]
        exact ⟨fun argument hmem => (List.not_mem_nil hmem).elim, value, hnext,
          .withValue hdenied hvalue hsafe⟩
      · rw [if_pos hvalue] at h
        obtain rfl := Option.some.inj h
        have hboolean := (hknown.resolve_left hvalue).resolve_right hdenied
        rw [takesValue_of_boolean deniedTakesValue hvalue hboolean, if_neg Bool.false_ne_true]
        intro argument hmem
        exact ⟨_, _, List.mem_singleton.mp hmem, .withoutValue hdenied hvalue hboolean⟩

end Long

def consumeOption (flags : Flags) (next : Option Utf16) (raw : Utf16) : Option Consumed :=
  if isLong raw then
    consumeLongOptionToken flags next (raw.takeWhile fun c => c ≠ unit '=')
      (if unit '=' ∈ raw then some (raw.dropWhile fun c => c ≠ unit '=').tail else none)
  else consumeShortOptionClusterToken flags next raw.tail (raw.tail.map fun c => [DASH, c])

/-- An argument that starts with a dash and is not one or two dashes. -/
def IsOption (raw : Utf16) : Prop := [DASH] <+: raw ∧ raw ≠ [DASH] ∧ raw ≠ [DASH, DASH]

theorem parse_option {raw : Utf16} (h : IsOption raw) :
    parseExecArgvToken raw =
      if isLong raw then
        .long (raw.takeWhile fun c => c ≠ unit '=')
          (if unit '=' ∈ raw then some (raw.dropWhile fun c => c ≠ unit '=').tail else none)
      else .shortCluster raw.tail (raw.tail.map fun c => [DASH, c]) := by
  obtain ⟨hdash, hstdin, hterminator⟩ := h
  have hne : raw ≠ [] := by
    rintro rfl
    cases List.prefix_nil.mp hdash
  rw [parseExecArgvToken, if_neg hne, if_neg hterminator, if_neg hstdin,
    if_neg (not_not.mpr hdash)]
  apply if_congr Iff.rfl _ rfl
  by_cases hequals : unit '=' ∈ raw
  · rw [if_pos hequals, if_pos hequals]
  · have hwhole : (raw.takeWhile fun c => c ≠ unit '=') = raw := by
      rw [List.takeWhile_eq_self_iff]
      intro c hc
      rw [decide_eq_true_eq]
      rintro rfl
      exact hequals hc
    rw [if_neg hequals, if_neg hequals, hwhole]

theorem collectFrom_option {flags : Flags} {raw : Utf16} (h : IsOption raw) (args : List Utf16) :
    collectFrom flags (raw :: args) =
      (consumeOption flags args.head? raw).bind fun consumed =>
        collectFrom flags (if consumed = .token then args else args.tail) := by
  rw [collectFrom, parse_option h, consumeOption]
  by_cases hlong : isLong raw = true
  · rw [if_pos hlong, if_pos hlong]
    dsimp only
    cases consumeLongOptionToken flags args.head? (raw.takeWhile fun c => c ≠ unit '=')
      (if unit '=' ∈ raw then some (raw.dropWhile fun c => c ≠ unit '=').tail else none) with
    | none => rfl
    | some consumed => cases consumed <;> cases args <;> rfl
  · rw [if_neg hlong, if_neg hlong]
    dsimp only
    cases consumeShortOptionClusterToken flags args.head? raw.tail
      (raw.tail.map fun c => [DASH, c]) with
    | none => rfl
    | some consumed => cases consumed <;> cases args <;> rfl

/-- What a list of arguments must be for the validator to have let it pass. -/
def Reads (flags : Flags) (found : List Argument) (positional : List Utf16) : Prop :=
  (∀ argument ∈ found, Admits flags argument) ∧ fileOperands found = positional

theorem Reads.operand {flags : Flags} {found : List Argument} {raw : Utf16}
    {positional : List Utf16} (h : Reads flags found positional) :
    (raw = [] ∨ raw = [DASH] → Reads flags (.operand raw :: found) positional) ∧
      (¬(raw = [] ∨ raw = [DASH]) → isSafeLiteralToken raw = true →
        Reads flags (.operand raw :: found) (raw :: positional)) := by
  refine ⟨fun hnone => ⟨?_, ?_⟩, fun hsome hsafe => ⟨?_, ?_⟩⟩
  · exact List.forall_mem_cons.mpr ⟨if_pos hnone, h.1⟩
  · rw [fileOperands, if_pos hnone, h.2]
  · exact List.forall_mem_cons.mpr ⟨hsafe, h.1⟩
  · rw [fileOperands, if_neg hsome, h.2]

theorem Reads.options {flags : Flags} {found more : List Argument} {positional : List Utf16}
    (hfound : ∀ argument ∈ found, ∃ flag value,
      argument = Argument.option flag value ∧ AdmitsOption flags flag value)
    (h : Reads flags more positional) : Reads flags (found ++ more) positional := by
  induction found with
  | nil => exact h
  | cons argument found ih =>
    rw [List.forall_mem_cons] at hfound
    obtain ⟨⟨flag, value, rfl, hadmits⟩, hfound⟩ := hfound
    obtain ⟨hall, hoperands⟩ := ih hfound
    exact ⟨List.forall_mem_cons.mpr ⟨hadmits, hall⟩, hoperands⟩

theorem reads_rest {flags : Flags} {args positional : List Utf16}
    (h : collectRest args = some positional) : Reads flags (args.map .operand) positional := by
  induction args generalizing positional with
  | nil =>
    obtain rfl := Option.some.inj h
    exact ⟨fun argument hmem => (List.not_mem_nil hmem).elim, rfl⟩
  | cons raw args ih =>
    rw [collectRest] at h
    split_ifs at h with hnone hsafe
    · exact (ih h).operand.1 hnone
    · obtain ⟨rest, hrest, rfl⟩ := Option.map_eq_some_iff.mp h
      exact (ih hrest).operand.2 hnone hsafe

theorem follows_option (fixture : BuiltinSafeBinProfileFixture) {next : Option Utf16}
    {raw : Utf16} {consumed : Consumed} (deniedTakesValue : Utf16 → Bool)
    (h : consumeOption (compiledFlags fixture) next raw = some consumed) :
    Follows (compiledFlags fixture) next
      (readOption (optionsOf (compiledFlags fixture) deniedTakesValue) raw).1
      (readOption (optionsOf (compiledFlags fixture) deniedTakesValue) raw).2 consumed := by
  rw [consumeOption] at h
  rw [readOption]
  by_cases hlong : isLong raw = true
  · rw [if_pos hlong] at h ⊢
    exact follows_long fixture deniedTakesValue h
  · rw [if_neg hlong] at h ⊢
    exact follows_cluster deniedTakesValue rfl h

theorem parse_operand {raw : Utf16} (hdash : ¬([DASH] <+: raw ∧ raw ≠ [DASH])) :
    parseExecArgvToken raw =
      if raw = [] then .empty else if raw = [DASH] then .stdin else .positional raw := by
  rw [parseExecArgvToken]
  by_cases hnil : raw = []
  · rw [if_pos hnil, if_pos hnil]
  · rw [if_neg hnil, if_neg hnil]
    have hterminator : raw ≠ [DASH, DASH] := by
      rintro rfl
      exact hdash (by decide)
    rw [if_neg hterminator]
    by_cases hstdin : raw = [DASH]
    · rw [if_pos hstdin, if_pos hstdin]
    · rw [if_neg hstdin, if_neg hstdin, if_pos fun h => hdash ⟨h, hstdin⟩]

section Equations

variable {options : Options} {raw : Utf16}

theorem getopt_terminator (args : List Utf16) :
    getopt options ([DASH, DASH] :: args) = args.map .operand := by
  rw [getopt.eq_def]
  exact if_pos rfl

theorem getopt_operand (h : ¬([DASH] <+: raw ∧ raw ≠ [DASH])) (args : List Utf16) :
    getopt options (raw :: args) = .operand raw :: getopt options args := by
  have hterminator : raw ≠ [DASH, DASH] := by
    rintro rfl
    exact h (by decide)
  rw [getopt.eq_def]
  dsimp only
  rw [if_neg hterminator, if_neg h]

theorem getopt_option (h : IsOption raw) (hpending : (readOption options raw).2 = none)
    (args : List Utf16) :
    getopt options (raw :: args) = (readOption options raw).1 ++ getopt options args := by
  rw [getopt.eq_def]
  dsimp only
  rw [if_neg h.2.2, if_pos ⟨h.1, h.2.1⟩]
  generalize readOption options raw = reading at hpending ⊢
  obtain ⟨found, pending⟩ := reading
  obtain rfl : pending = none := hpending
  rfl

theorem getopt_value {flag : Utf16} (h : IsOption raw)
    (hpending : (readOption options raw).2 = some flag) (value : Utf16) (args : List Utf16) :
    getopt options (raw :: value :: args) =
      (readOption options raw).1 ++ .option flag (some value) :: getopt options args := by
  rw [getopt.eq_def]
  dsimp only
  rw [if_neg h.2.2, if_pos ⟨h.1, h.2.1⟩]
  generalize readOption options raw = reading at hpending ⊢
  obtain ⟨found, pending⟩ := reading
  obtain rfl : pending = some flag := hpending
  rfl

end Equations

/-- The reading of a vector whose positional tokens were collected. -/
theorem reads_collected (fixture : BuiltinSafeBinProfileFixture)
    (deniedTakesValue : Utf16 → Bool) {args positional : List Utf16}
    (h : collectFrom (compiledFlags fixture) args = some positional) :
    Reads (compiledFlags fixture)
      (getopt (optionsOf (compiledFlags fixture) deniedTakesValue) args) positional := by
  induction hlength : args.length using Nat.strong_induction_on generalizing args positional with
  | h n ih =>
    cases args with
    | nil =>
      obtain rfl := Option.some.inj h
      exact ⟨fun argument hmem => (List.not_mem_nil hmem).elim, rfl⟩
    | cons raw args =>
      have hrest {left collected : List Utf16} (hle : left.length ≤ args.length)
          (hleft : collectFrom (compiledFlags fixture) left = some collected) :
          Reads (compiledFlags fixture)
            (getopt (optionsOf (compiledFlags fixture) deniedTakesValue) left) collected :=
        ih left.length (by
          rw [← hlength, List.length_cons]
          omega) hleft rfl
      by_cases hdash : [DASH] <+: raw ∧ raw ≠ [DASH]
      · by_cases hterminator : raw = [DASH, DASH]
        · subst hterminator
          rw [getopt_terminator]
          exact reads_rest h
        have hoption : IsOption raw := ⟨hdash.1, hdash.2, hterminator⟩
        rw [collectFrom_option hoption] at h
        obtain ⟨consumed, hconsumed, hleft⟩ := Option.bind_eq_some_iff.mp h
        have hfollows := follows_option fixture deniedTakesValue hconsumed
        cases hpending :
            (readOption (optionsOf (compiledFlags fixture) deniedTakesValue) raw).2 with
        | none =>
          rw [hpending] at hfollows
          cases consumed with
          | tokenAndValue => exact hfollows.elim
          | token =>
            rw [getopt_option hoption hpending]
            exact .options hfollows (hrest (Nat.le_refl _) hleft)
        | some flag =>
          rw [hpending] at hfollows
          cases consumed with
          | token => exact hfollows.elim
          | tokenAndValue =>
            obtain ⟨hfound, value, hnext, hadmits⟩ := hfollows
            obtain ⟨args, rfl⟩ := List.head?_eq_some_iff.mp hnext
            -- the value of the option is the next argument, which the parser has looked at too
            have hlast : Reads (compiledFlags fixture) (.option flag (some value) :: getopt
                (optionsOf (compiledFlags fixture) deniedTakesValue) args) positional := by
              have hvalue : ∀ argument ∈ [Argument.option flag (some value)], ∃ flag value,
                  argument = Argument.option flag value ∧
                    AdmitsOption (compiledFlags fixture) flag value := by
                intro argument hmem
                exact ⟨flag, some value, List.mem_singleton.mp hmem, hadmits⟩
              exact Reads.options hvalue (hrest (Nat.le_succ _) hleft)
            rw [getopt_value hoption hpending]
            exact .options hfound hlast
      · -- an operand, `-` among them
        rw [getopt_operand hdash]
        rw [collectFrom, parse_operand hdash] at h
        by_cases hnil : raw = []
        · rw [if_pos hnil] at h
          exact (hrest (Nat.le_refl _) h).operand.1 (.inl hnil)
        · rw [if_neg hnil] at h
          by_cases hstdin : raw = [DASH]
          · rw [if_pos hstdin] at h
            exact (hrest (Nat.le_refl _) h).operand.1 (.inr hstdin)
          · rw [if_neg hstdin] at h
            dsimp only at h
            split_ifs at h with hsafe
            obtain ⟨rest, hleft, rfl⟩ := Option.map_eq_some_iff.mp h
            exact (hrest (Nat.le_refl _) hleft).operand.2 (not_or.mpr ⟨hnil, hstdin⟩) hsafe

/-- Read by `getopt_long`, a vector that the validator lets pass has no denied flag, no option
that is not allowed and no unsafe literal, and as many operands as the profile allows. -/
theorem validated_reading (toLowerCase : Utf16 → Utf16) (fixture : BuiltinSafeBinProfileFixture)
    (deniedTakesValue : Utf16 → Bool) (args : List Utf16) (binName : Option Utf16)
    (h : validateSafeBinArgv toLowerCase args (compileSafeBinProfile fixture) binName = true) :
    (∀ argument ∈ getopt (optionsOf (compiledFlags fixture) deniedTakesValue) args,
      Admits (compiledFlags fixture) argument) ∧
    fixture.minPositional.getD 0 ≤
      (fileOperands (getopt (optionsOf (compiledFlags fixture) deniedTakesValue) args)).length ∧
    ∀ max, fixture.maxPositional = some max →
      (fileOperands (getopt (optionsOf (compiledFlags fixture) deniedTakesValue) args)).length ≤
        max := by
  rw [validateSafeBinArgv] at h
  cases hcollected : collectPositionalTokens args (compileSafeBinProfile fixture) with
  | none =>
    rw [hcollected] at h
    cases h
  | some positional =>
    rw [hcollected] at h
    dsimp only at h
    split_ifs at h with hcount
    obtain ⟨hall, rfl⟩ := reads_collected fixture deniedTakesValue hcollected
    rw [Bool.not_eq_true', Bool.not_eq_false, validatePositionalCount] at hcount
    split_ifs at hcount with hmin
    refine ⟨hall, Nat.not_lt.mp hmin, ?_⟩
    intro max hmax
    have hmax' : (compileSafeBinProfile fixture).maxPositional = some max := hmax
    rw [hmax'] at hcount
    exact of_decide_eq_true hcount

def uniq : BuiltinSafeBinProfileFixture where
  minPositional := none
  maxPositional := some 0
  allowedValueFlags := some
    (["--skip-fields", "--skip-chars", "--check-chars", "--group", "-f", "-s", "-w"].map ofString)
  allowedBooleanFlags := some
    (["--count", "--repeated", "--unique", "--ignore-case", "--zero-terminated", "-c", "-d", "-u",
      "-i", "-z"].map ofString)
  deniedFlags := none

/-- `--skip-f=2 -cf 3 -- -` -/
theorem validated_reading_sample :
    let args := ["--skip-f=2", "-cf", "3", "--", "-"].map ofString
    getopt (optionsOf (compiledFlags uniq) fun _ => true) args =
      [.option (ofString "--skip-fields") (some (ofString "2")),
        .option (ofString "-c") none, .option (ofString "-f") (some (ofString "3")),
        .operand (ofString "-")] ∧
    (∀ argument ∈ getopt (optionsOf (compiledFlags uniq) fun _ => true) args,
      Admits (compiledFlags uniq) argument) ∧
    (fileOperands (getopt (optionsOf (compiledFlags uniq) fun _ => true) args)).length ≤ 0 := by
  intro args
  have h := validated_reading id uniq (fun _ => true) args none (by decide +kernel)
  exact ⟨by decide, h.1, h.2.2 0 rfl⟩

/-- The marker of the standard input is an operand for `getopt_long`, and the profile has none. -/
theorem stdin_exceeds_bound :
    validateSafeBinArgv id [ofString "-"] (compileSafeBinProfile uniq) none = true ∧
      uniq.maxPositional = some 0 ∧
      getopt (optionsOf (compiledFlags uniq) fun _ => true) [ofString "-"] =
        [.operand (ofString "-")] :=
  ⟨by decide, rfl, by decide⟩

end Flashclaw.Exec.SafeBin
