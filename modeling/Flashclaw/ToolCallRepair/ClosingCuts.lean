import Flashclaw.ToolCallRepair.Cuts
import Flashclaw.ToolCallRepair.OverCap

/-!
# Suppression of JSON calls, cut anywhere

A payload is read character by character. Behind it a closing marker is kept as long as it is
one of several that may come, none of which starts another.
-/

namespace Flashclaw.ToolCallRepair

open Utf16 Chunks

structure Closings (markers : List Utf16) : Prop where
  some_marker : markers ≠ []
  not_empty : [] ∉ markers
  apart : ∀ m ∈ markers, ∀ m' ∈ markers, m <+: m' → m = m'

/-- The marker that a text starts with. -/
def findClosing (markers : List Utf16) (rest : Utf16) : Option Utf16 :=
  markers.find? fun marker => marker.isPrefixOf rest

/-- A marker may still come. -/
def mayClose (markers : List Utf16) (rest : Utf16) : Bool :=
  markers.any fun marker => rest.isPrefixOf marker

section Closings

variable {markers : List Utf16} {rest : Utf16}

theorem of_findClosing {closing : Utf16} (h : findClosing markers rest = some closing) :
    closing ∈ markers ∧ closing <+: rest := by
  have hprefix := List.find?_some h
  exact ⟨List.mem_of_find?_eq_some h, List.isPrefixOf_iff_prefix.mp hprefix⟩

theorem findClosing_eq_none :
    findClosing markers rest = none ↔ ∀ marker ∈ markers, ¬marker <+: rest := by
  rw [findClosing, List.find?_eq_none]
  exact forall₂_congr fun marker _ => not_congr List.isPrefixOf_iff_prefix

theorem mayClose_iff : mayClose markers rest = true ↔ ∃ marker ∈ markers, rest <+: marker := by
  rw [mayClose, List.any_eq_true]
  exact exists_congr fun marker => and_congr_right fun _ => List.isPrefixOf_iff_prefix

theorem Closings.find_append (h : Closings markers) {closing : Utf16}
    (hfind : findClosing markers rest = some closing) (more : Utf16) :
    findClosing markers (rest ++ more) = some closing := by
  obtain ⟨hmem, hprefix⟩ := of_findClosing hfind
  have hmore := hprefix.trans (List.prefix_append rest more)
  cases hlater : findClosing markers (rest ++ more) with
  | none => exact absurd hmore (findClosing_eq_none.mp hlater closing hmem)
  | some closing' =>
    obtain ⟨hmem', hprefix'⟩ := of_findClosing hlater
    rcases List.prefix_or_prefix_of_prefix hmore hprefix' with hle | hle
    · rw [h.apart closing hmem closing' hmem' hle]
    · rw [h.apart closing' hmem' closing hmem hle]

theorem not_close_append (hfind : findClosing markers rest = none)
    (hmay : mayClose markers rest = false) (more : Utf16) :
    findClosing markers (rest ++ more) = none ∧ mayClose markers (rest ++ more) = false := by
  have hapart : ∀ marker ∈ markers, ¬rest <+: marker := by
    intro marker hmem hprefix
    rw [mayClose_iff.mpr ⟨marker, hmem, hprefix⟩] at hmay
    cases hmay
  constructor
  · rw [findClosing_eq_none] at hfind ⊢
    intro marker hmem hprefix
    rcases List.prefix_or_prefix_of_prefix hprefix (List.prefix_append rest more) with hle | hle
    · exact hfind marker hmem hle
    · exact hapart marker hmem hle
  · rw [Bool.eq_false_iff]
    intro hlater
    obtain ⟨marker, hmem, hprefix⟩ := mayClose_iff.mp hlater
    exact hapart marker hmem ((List.prefix_append rest more).trans hprefix)

theorem Closings.ne_nil_of_find (h : Closings markers) {closing : Utf16}
    (hfind : findClosing markers rest = some closing) : rest ≠ [] := by
  rintro rfl
  obtain ⟨hmem, hprefix⟩ := of_findClosing hfind
  rw [List.prefix_nil.mp hprefix] at hmem
  exact h.not_empty hmem

theorem Closings.ne_nil_of_not_may (h : Closings markers) (hmay : mayClose markers rest = false) :
    rest ≠ [] := by
  rintro rfl
  obtain ⟨marker, hmem⟩ := List.exists_mem_of_ne_nil _ h.some_marker
  rw [mayClose_iff.mpr ⟨marker, hmem, List.nil_prefix⟩] at hmay
  cases hmay

end Closings

def closingMarkers (suppressor : JsonSuppressor) : List Utf16 :=
  (suppressor.requiredClosing.filter (· ≠ [])).elim (suppressor.optionalClosings.getD [])
    fun closing => [closing, END_TOOL_REQUEST]

/-- What is kept of a text that ends in a part of a marker. -/
def keptOf (suppressor : JsonSuppressor) (text : Utf16) : Utf16 :=
  if (suppressor.requiredClosing.filter (· ≠ [])).isSome then skipWhitespace text
  else lastUnits (((closingMarkers suppressor).map List.length).foldl max 0) text

/-- What is visible of a text without a marker. -/
def visibleOf (suppressor : JsonSuppressor) (text : Utf16) : Utf16 :=
  if (suppressor.requiredClosing.filter (· ≠ [])).isSome then skipWhitespace text
  else consumeRemovedLineEnd text

section Closing

variable {suppressor : JsonSuppressor} {text : Utf16}

theorem consumeClosing_eq (suppressor : JsonSuppressor) (text : Utf16) :
    consumeClosing suppressor text =
      (findClosing (closingMarkers suppressor) (skipWhitespace text)).elim
        (if mayClose (closingMarkers suppressor) (skipWhitespace text) then
          .incomplete { suppressor with carry := keptOf suppressor text }
        else .complete (visibleOf suppressor text))
        fun closing =>
          .complete (consumeRemovedLineEnd ((skipWhitespace text).drop closing.length)) := by
  rw [consumeClosing, keptOf, visibleOf, closingMarkers]
  cases suppressor.requiredClosing.filter (· ≠ []) with
  | some required =>
    dsimp only [Option.elim_some, Option.isSome_some]
    rw [if_pos rfl, if_pos rfl]
    cases hfind : findClosing [required, END_TOOL_REQUEST] (skipWhitespace text) with
    | some closing =>
      rw [findClosing] at hfind
      rw [hfind]
      rfl
    | none =>
      rw [findClosing] at hfind
      rw [hfind]
      rfl
  | none =>
    dsimp only [Option.elim_none, Option.isSome_none]
    rw [if_neg Bool.false_ne_true, if_neg Bool.false_ne_true]
    cases hfind : findClosing (suppressor.optionalClosings.getD []) (skipWhitespace text) with
    | some closing =>
      rw [findClosing] at hfind
      rw [hfind]
      rfl
    | none =>
      rw [findClosing] at hfind
      rw [hfind]
      rfl

theorem trimStart_visibleOf (more : Utf16) :
    trimStart (visibleOf suppressor text ++ more) = trimStart (text ++ more) := by
  rw [visibleOf]
  split
  · exact trimStart_skipWhitespace text more
  · exact trimStart_removedLineEnd text more

theorem length_le_foldl_max (lengths : List ℕ) (n : ℕ) :
    n ≤ lengths.foldl max n ∧ ∀ m ∈ lengths, m ≤ lengths.foldl max n := by
  induction lengths generalizing n with
  | nil => exact ⟨Nat.le_refl _, fun m hm => (List.not_mem_nil hm).elim⟩
  | cons m lengths ih =>
    obtain ⟨hmax, hall⟩ := ih (max n m)
    rw [List.foldl_cons]
    refine ⟨(Nat.le_max_left n m).trans hmax, fun k hk => ?_⟩
    rcases List.mem_cons.mp hk with rfl | hk
    · exact (Nat.le_max_right n k).trans hmax
    · exact hall k hk

/-- What is kept has all that may become a marker. -/
theorem skipWhitespace_keptOf
    (h : mayClose (closingMarkers suppressor) (skipWhitespace text) = true) (more : Utf16) :
    skipWhitespace (keptOf suppressor text ++ more) = skipWhitespace (text ++ more) := by
  rw [keptOf]
  split
  · exact trimStart_skipWhitespace text more
  · obtain ⟨marker, hmem, hprefix⟩ := mayClose_iff.mp h
    have hlength : (skipWhitespace text).length ≤
        ((closingMarkers suppressor).map List.length).foldl max 0 :=
      hprefix.length_le.trans ((length_le_foldl_max _ 0).2 _ (List.mem_map_of_mem hmem))
    have hsplit : text.takeWhile isWhiteSpace ++ skipWhitespace text = text :=
      List.takeWhile_append_dropWhile
    obtain ⟨blanks, hkept, hmem⟩ := lastUnits_append_of_le (text.takeWhile isWhiteSpace) hlength
    rw [hsplit] at hkept
    have hblank : ∀ c ∈ blanks, isWhiteSpace c = true :=
      fun c hc => takeWhile_blank text c (hmem c hc)
    rw [hkept, List.append_assoc]
    show trimStart _ = _
    rw [trimStart_append hblank]
    exact trimStart_skipWhitespace text more

theorem keptOf_keptOf (h : mayClose (closingMarkers suppressor) (skipWhitespace text) = true)
    (more : Utf16) :
    keptOf suppressor (keptOf suppressor text ++ more) = keptOf suppressor (text ++ more) := by
  have hskip := skipWhitespace_keptOf h more
  rw [keptOf] at hskip ⊢
  split
  · rename_i hrequired
    rw [if_pos hrequired] at hskip
    rw [keptOf, if_pos hrequired, keptOf, if_pos hrequired, hskip]
  · rename_i hrequired
    rw [keptOf, if_neg hrequired, keptOf, if_neg hrequired, ← lastUnits_append]

theorem consumeJson_closing (h : suppressor.phase = .closing) (chunk : Utf16) :
    consumeJsonSuppressor suppressor chunk =
      consumeClosing { suppressor with carry := [] } (suppressor.carry ++ chunk) := by
  rw [consumeJsonSuppressor]
  dsimp only
  rw [h]

theorem consumeJson_payload (h : suppressor.phase = .payload) (chunk : Utf16) :
    consumeJsonSuppressor suppressor chunk =
      consumePayload { suppressor with carry := [] } (suppressor.carry ++ chunk) := by
  rw [consumeJsonSuppressor]
  dsimp only
  rw [h]

theorem consumeJson_blank (h : suppressor.phase = .opening) {chunk : Utf16}
    (hblank : skipWhitespace (suppressor.carry ++ chunk) = []) :
    consumeJsonSuppressor suppressor chunk = .incomplete { suppressor with carry := [] } := by
  rw [consumeJsonSuppressor]
  dsimp only
  rw [h, hblank]

theorem consumeJson_char (h : suppressor.phase = .opening) {chunk : Utf16} {char : CodeUnit}
    {rest : Utf16} (hrest : skipWhitespace (suppressor.carry ++ chunk) = char :: rest) :
    consumeJsonSuppressor suppressor chunk =
      if char ≠ unit '{' then .complete (char :: rest)
      else consumePayload { suppressor with carry := [], depth := 1, phase := .payload } rest := by
  rw [consumeJsonSuppressor]
  dsimp only
  rw [h, hrest]

theorem consumeClosing_splits (hmarkers : Closings (closingMarkers suppressor))
    (hcarry : suppressor.carry = []) (hphase : suppressor.phase = .closing) (more : Utf16) :
    Agree trimStart (consumeClosing suppressor (text ++ more))
      ((consumeClosing suppressor text).feed consumeJsonSuppressor more) := by
  rw [consumeClosing_eq suppressor text]
  cases hfind : findClosing (closingMarkers suppressor) (skipWhitespace text) with
  | some closing =>
    have hne := hmarkers.ne_nil_of_find hfind
    have hlater := hmarkers.find_append hfind more
    rw [← skipWhitespace_append_of_ne_nil hne] at hlater
    rw [consumeClosing_eq, hlater, skipWhitespace_append_of_ne_nil hne,
      Option.elim_some, List.drop_append_of_le_length (of_findClosing hfind).2.length_le]
    exact trimStart_removedLineEnd_append _ more
  | none =>
    rw [Option.elim_none]
    cases hmay : mayClose (closingMarkers suppressor) (skipWhitespace text) with
    | true =>
      rw [if_pos rfl]
      have hfed : (Outcome.incomplete { suppressor with carry := keptOf suppressor text }).feed
          consumeJsonSuppressor more = consumeClosing suppressor (keptOf suppressor text ++ more) := by
        rw [Outcome.feed,
          @consumeJson_closing { suppressor with carry := keptOf suppressor text } hphase]
        show consumeClosing { suppressor with carry := [] } _ = _
        rw [← hcarry]
      rw [hfed, consumeClosing_eq, consumeClosing_eq suppressor (keptOf suppressor text ++ more),
        skipWhitespace_keptOf hmay, keptOf_keptOf hmay]
      cases findClosing (closingMarkers suppressor) (skipWhitespace (text ++ more)) with
      | some closing => exact .refl _
      | none =>
        rw [Option.elim_none, Option.elim_none]
        split
        · exact .refl _
        · have hwhole : trimStart (visibleOf suppressor (text ++ more) ++ []) = _ :=
            trimStart_visibleOf []
          have hkept : trimStart (visibleOf suppressor (keptOf suppressor text ++ more) ++ []) = _ :=
            trimStart_visibleOf []
          rw [List.append_nil, List.append_nil] at hwhole hkept
          exact hwhole.trans ((skipWhitespace_keptOf hmay more).symm.trans hkept.symm)
    | false =>
      have hne := hmarkers.ne_nil_of_not_may hmay
      obtain ⟨hfind', hmay'⟩ := not_close_append hfind hmay more
      rw [← skipWhitespace_append_of_ne_nil hne] at hfind' hmay'
      rw [if_neg Bool.false_ne_true, consumeClosing_eq, hfind', hmay', Option.elim_none,
        if_neg Bool.false_ne_true]
      have hvisible : trimStart (visibleOf suppressor (text ++ more) ++ []) = _ :=
        trimStart_visibleOf []
      rw [List.append_nil, List.append_nil] at hvisible
      exact hvisible.trans (trimStart_visibleOf more).symm

end Closing

/-- What reading a payload leaves as it is, and where it ends. -/
structure ReadsPayload (suppressor after : JsonSuppressor) (rest : Option Utf16) : Prop where
  carry : after.carry = suppressor.carry
  markers : closingMarkers after = closingMarkers suppressor
  phase : after.phase = if rest.isSome then .closing else suppressor.phase

theorem reads_scanPayload (suppressor : JsonSuppressor) (text : Utf16) :
    ReadsPayload suppressor (scanPayload suppressor text).1 (scanPayload suppressor text).2 := by
  induction text generalizing suppressor with
  | nil => exact ⟨rfl, rfl, rfl⟩
  | cons char rest ih =>
    rw [scanPayload]
    split_ifs <;> first
      | exact ⟨(ih _).carry, (ih _).markers, (ih _).phase⟩
      | exact ⟨rfl, rfl, rfl⟩

/-- The loop over a payload goes on where it was interrupted. -/
theorem scanPayload_append (suppressor : JsonSuppressor) (text more : Utf16) :
    scanPayload suppressor (text ++ more) =
      (scanPayload suppressor text).2.elim (scanPayload (scanPayload suppressor text).1 more)
        fun rest => ((scanPayload suppressor text).1, some (rest ++ more)) := by
  induction text generalizing suppressor with
  | nil => rfl
  | cons char rest ih =>
    rw [List.cons_append, scanPayload, scanPayload]
    split_ifs <;> first
      | exact ih _
      | rfl

theorem consumePayload_splits {suppressor : JsonSuppressor}
    (hmarkers : Closings (closingMarkers suppressor)) (hcarry : suppressor.carry = [])
    (hphase : suppressor.phase = .payload) (text more : Utf16) :
    Agree trimStart (consumePayload suppressor (text ++ more))
      ((consumePayload suppressor text).feed consumeJsonSuppressor more) := by
  have hreads := reads_scanPayload suppressor text
  rw [consumePayload, consumePayload, scanPayload_append]
  generalize scanPayload suppressor text = reading at hreads ⊢
  obtain ⟨after, rest⟩ := reading
  have hafter : { after with carry := [] } = after := by
    rw [← hreads.carry.trans hcarry]
  cases rest with
  | none =>
    show Agree _ _ (consumeJsonSuppressor after more)
    rw [consumeJson_payload (hreads.phase.trans hphase), hafter, hreads.carry, hcarry]
    exact .refl _
  | some rest =>
    show Agree _ (consumeClosing after (rest ++ more))
      ((consumeClosing after rest).feed consumeJsonSuppressor more)
    exact consumeClosing_splits (hreads.markers ▸ hmarkers) (hreads.carry.trans hcarry)
      hreads.phase more

def FitsJson (suppressor : JsonSuppressor) : Prop := Closings (closingMarkers suppressor)

theorem splits_json_agree {suppressor : JsonSuppressor} (h : FitsJson suppressor)
    (a b : Utf16) : Agree trimStart (consumeJsonSuppressor suppressor (a ++ b))
      ((consumeJsonSuppressor suppressor a).feed consumeJsonSuppressor b) := by
  cases hphase : suppressor.phase with
  | closing =>
    rw [consumeJson_closing hphase, consumeJson_closing hphase, ← List.append_assoc]
    exact @consumeClosing_splits { suppressor with carry := [] } _ h rfl hphase b
  | payload =>
    rw [consumeJson_payload hphase, consumeJson_payload hphase, ← List.append_assoc]
    exact @consumePayload_splits { suppressor with carry := [] } h rfl hphase _ b
  | opening =>
    cases hskip : skipWhitespace (suppressor.carry ++ a) with
    | nil =>
      rw [consumeJson_blank hphase hskip]
      show Agree _ _ (consumeJsonSuppressor { suppressor with carry := [] } b)
      have hlater : skipWhitespace (suppressor.carry ++ (a ++ b)) = skipWhitespace b := by
        rw [← List.append_assoc, skipWhitespace_append_of_nil hskip]
      cases hb : skipWhitespace b with
      | nil =>
        rw [consumeJson_blank hphase (hlater.trans hb),
          @consumeJson_blank { suppressor with carry := [] } hphase b hb]
        exact .refl _
      | cons char rest =>
        rw [consumeJson_char hphase (hlater.trans hb),
          @consumeJson_char { suppressor with carry := [] } hphase b char rest hb]
        exact .refl _
    | cons char rest =>
      have hlater : skipWhitespace (suppressor.carry ++ (a ++ b)) = char :: (rest ++ b) := by
        rw [← List.append_assoc, skipWhitespace_append_of_ne_nil, hskip, List.cons_append]
        rw [hskip]
        exact List.cons_ne_nil _ _
      rw [consumeJson_char hphase hskip, consumeJson_char hphase hlater]
      split
      · exact .refl _
      · exact @consumePayload_splits { suppressor with carry := [], depth := 1, phase := .payload }
          h rfl rfl rest b

theorem closingMarkers_consumeClosing {suppressor state : JsonSuppressor} {text : Utf16}
    (h : consumeClosing suppressor text = .incomplete state) :
    closingMarkers state = closingMarkers suppressor := by
  rw [consumeClosing_eq] at h
  cases hfind : findClosing (closingMarkers suppressor) (skipWhitespace text) with
  | some closing =>
    rw [hfind] at h
    cases h
  | none =>
    rw [hfind, Option.elim_none] at h
    split_ifs at h
    obtain rfl := Outcome.incomplete.inj h
    rfl

theorem closingMarkers_consumePayload {suppressor state : JsonSuppressor} {text : Utf16}
    (h : consumePayload suppressor text = .incomplete state) :
    closingMarkers state = closingMarkers suppressor := by
  have hreads := reads_scanPayload suppressor text
  rw [consumePayload] at h
  generalize scanPayload suppressor text = reading at hreads h
  obtain ⟨after, rest⟩ := reading
  cases rest with
  | none =>
    obtain rfl := Outcome.incomplete.inj h
    exact hreads.markers
  | some rest => exact (closingMarkers_consumeClosing h).trans hreads.markers

theorem closingMarkers_consumeJson {suppressor state : JsonSuppressor} {chunk : Utf16}
    (h : consumeJsonSuppressor suppressor chunk = .incomplete state) :
    closingMarkers state = closingMarkers suppressor := by
  cases hphase : suppressor.phase with
  | closing =>
    rw [consumeJson_closing hphase] at h
    exact (closingMarkers_consumeClosing h).trans rfl
  | payload =>
    rw [consumeJson_payload hphase] at h
    exact (closingMarkers_consumePayload h).trans rfl
  | opening =>
    cases hskip : skipWhitespace (suppressor.carry ++ chunk) with
    | nil =>
      rw [consumeJson_blank hphase hskip] at h
      obtain rfl := Outcome.incomplete.inj h
      rfl
    | cons char rest =>
      rw [consumeJson_char hphase hskip] at h
      split_ifs at h
      exact (closingMarkers_consumePayload h).trans rfl

/-- A JSON suppressor makes the same of a text however it is cut. -/
theorem splits_json : Splits trimStart FitsJson consumeJsonSuppressor where
  agree _ h a b := splits_json_agree h a b
  fits suppressor h chunk state hstate := by
    show Closings (closingMarkers state)
    rw [closingMarkers_consumeJson hstate]
    exact h

end Flashclaw.ToolCallRepair
