import Flashclaw.Cron.Jobs
import Mathlib.Order.Bounds.Image

/-!
# Cron: staggered slots

Every job runs at the slots of its schedule, shifted by its own offset.  The slots are whole
seconds, and the evaluation of the schedule looks for a slot strictly before a second.
-/

namespace Flashclaw.Cron

/-- The base slots of a schedule, as its evaluation finds them. -/
structure ScheduleOracle.HasSlots (oracle : ScheduleOracle) (schedule : CronSchedule)
    (slots : Set ℤ) : Prop where
  whole : ∀ slot ∈ slots, 1000 ∣ slot
  next : ∀ t : ℤ, ∃ found : Option ℤ,
    oracle.computeNextRunAtMs schedule (.ofInt t) = .ok (found.map .ofInt) ∧
    ∀ slot, found = some slot ↔ IsLeast {s | s ∈ slots ∧ t < s} slot
  previous : ∀ t : ℤ, ∃ found : Option ℤ,
    oracle.computePreviousRunAtMs schedule (.ofInt t) = .ok (found.map .ofInt) ∧
    ∀ slot, found = some slot ↔ IsGreatest {s | s ∈ slots ∧ s < t / 1000 * 1000} slot

/-- The slots of a job. -/
def shiftedSlots (slots : Set ℤ) (offset : ℤ) : Set ℤ := {t | t - offset ∈ slots}

variable {oracle : ScheduleOracle} {job : CronJob} {slots : Set ℤ}

theorem isLeast_shifted {offset now t : ℤ} :
    IsLeast {s | s ∈ shiftedSlots slots offset ∧ now < s} t ↔
      IsLeast {s | s ∈ slots ∧ now - offset < s} (t - offset) := by
  constructor
  · rintro ⟨⟨hmem, hlt⟩, hleast⟩
    refine ⟨⟨hmem, by omega⟩, fun s ⟨hs, hslt⟩ => ?_⟩
    have hle : t ≤ s + offset := hleast ⟨by simpa [shiftedSlots] using hs, by omega⟩
    omega
  · rintro ⟨⟨hmem, hlt⟩, hleast⟩
    refine ⟨⟨hmem, by omega⟩, fun s ⟨hs, hslt⟩ => ?_⟩
    have hle : t - offset ≤ s - offset := hleast ⟨hs, by omega⟩
    omega

theorem isGreatest_shifted {offset now t : ℤ} :
    IsGreatest {s | s ∈ shiftedSlots slots offset ∧ s ≤ now} t ↔
      IsGreatest {s | s ∈ slots ∧ s ≤ now - offset} (t - offset) := by
  constructor
  · rintro ⟨⟨hmem, hle⟩, hgreatest⟩
    refine ⟨⟨hmem, by omega⟩, fun s ⟨hs, hsle⟩ => ?_⟩
    have hle : s + offset ≤ t := hgreatest ⟨by simpa [shiftedSlots] using hs, by omega⟩
    omega
  · rintro ⟨⟨hmem, hle⟩, hgreatest⟩
    refine ⟨⟨hmem, by omega⟩, fun s ⟨hs, hsle⟩ => ?_⟩
    have hle : s - offset ≤ t - offset := hgreatest ⟨hs, by omega⟩
    omega

/-- The next run is the next slot behind the shifted cursor. -/
theorem computeStaggeredCronNextRunAtMs_eq {expr tz staggerMs}
    (hcron : job.schedule = .cron expr tz staggerMs) {now : ℤ}
    (hnow : (oracle.offsetMs job.id job.schedule : ℤ) ≤ now)
    (h : oracle.HasSlots job.schedule slots) : ∃ found : Option ℤ,
      computeStaggeredCronNextRunAtMs oracle job (.ofInt now) =
        .ok ((found.map (· + (oracle.offsetMs job.id job.schedule : ℤ))).map .ofInt) ∧
      ∀ slot, found = some slot ↔
        IsLeast {s | s ∈ slots ∧ now - oracle.offsetMs job.id job.schedule < s} slot := by
  obtain ⟨found, hfound, hleast⟩ := h.next (now - oracle.offsetMs job.id job.schedule)
  refine ⟨found, ?_, hleast⟩
  unfold computeStaggeredCronNextRunAtMs
  rw [hcron]
  simp only
  rw [← hcron]
  split
  · rename_i hzero
    rw [Nat.le_zero] at hzero
    rw [hzero, Nat.cast_zero, sub_zero] at hfound
    rw [hfound, hzero]
    cases found <;> simp
  · rw [JsNumber.ofInt_sub_ofNat, JsNumber.max_zero_ofInt (by omega), nextStaggered, hfound]
    cases found with
    | none => rfl
    | some slot =>
      have hlt := ((hleast slot).mp rfl).1.2
      show (if _ < JsNumber.ofInt slot + _ then _ else _) = _
      rw [JsNumber.ofInt_add_ofNat, if_pos (JsNumber.ofInt_lt_ofInt.mpr (by omega))]
      rfl

/-- The previous run is the last slot before the second of the shifted cursor. -/
theorem computeStaggeredCronPreviousRunAtMs_eq {expr tz staggerMs}
    (hcron : job.schedule = .cron expr tz staggerMs) {now : ℤ}
    (hnow : (oracle.offsetMs job.id job.schedule : ℤ) ≤ now)
    (h : oracle.HasSlots job.schedule slots) : ∃ found : Option ℤ,
      computeStaggeredCronPreviousRunAtMs oracle job (.ofInt now) =
        .ok ((found.map (· + (oracle.offsetMs job.id job.schedule : ℤ))).map .ofInt) ∧
      ∀ slot, found = some slot ↔ IsGreatest {s | s ∈ slots ∧
        s < (now - oracle.offsetMs job.id job.schedule) / 1000 * 1000} slot := by
  obtain ⟨found, hfound, hgreatest⟩ := h.previous (now - oracle.offsetMs job.id job.schedule)
  refine ⟨found, ?_, hgreatest⟩
  unfold computeStaggeredCronPreviousRunAtMs
  rw [hcron]
  simp only
  rw [← hcron]
  split
  · rename_i hzero
    rw [Nat.le_zero] at hzero
    rw [hzero, Nat.cast_zero, sub_zero] at hfound
    rw [hfound, hzero]
    cases found <;> simp
  · rw [JsNumber.ofInt_sub_ofNat, JsNumber.max_zero_ofInt (by omega), previousStaggered, hfound]
    cases found with
    | none => rfl
    | some slot =>
      have hlt := ((hgreatest slot).mp rfl).1.2
      show (if JsNumber.ofInt slot + _ ≤ _ then _ else _) = _
      rw [JsNumber.ofInt_add_ofNat, if_pos (JsNumber.ofInt_le_ofInt.mpr (by omega))]
      rfl

/-- Before the end of a second come the slots up to a time in it. -/
theorem lt_next_second_iff {slot t : ℤ} (h : 1000 ∣ slot) :
    slot < (t + 1000) / 1000 * 1000 ↔ slot ≤ t := by
  omega

/-- Where a slot lies before the second, there is a last one up to the time. -/
theorem exists_isGreatest_upTo {t p : ℤ} (hwhole : ∀ slot ∈ slots, 1000 ∣ slot)
    (h : IsGreatest {s | s ∈ slots ∧ s < t / 1000 * 1000} p) :
    ∃ b, IsGreatest {s | s ∈ slots ∧ s ≤ t} b := by
  by_cases hsecond : t / 1000 * 1000 ∈ slots
  · refine ⟨t / 1000 * 1000, ⟨hsecond, by omega⟩, fun s ⟨hs, hle⟩ => ?_⟩
    have hdvd := hwhole s hs
    omega
  · refine ⟨p, ⟨h.1.1, by have := h.1.2; omega⟩, fun s ⟨hs, hle⟩ => h.2 ⟨hs, ?_⟩⟩
    have hdvd := hwhole s hs
    have hne : s ≠ t / 1000 * 1000 := fun heq => hsecond (heq ▸ hs)
    omega

/-- The probe behind the second finds the last slot up to now. -/
theorem computeStaggeredCronPreviousRunAtOrBeforeMs_eq {expr tz staggerMs}
    (hcron : job.schedule = .cron expr tz staggerMs) {now : ℤ}
    (hnow : (oracle.offsetMs job.id job.schedule : ℤ) ≤ now)
    (h : oracle.HasSlots job.schedule slots) : ∃ found : Option ℤ,
      computeStaggeredCronPreviousRunAtOrBeforeMs oracle job (.ofInt now) =
        .ok ((found.map (· + (oracle.offsetMs job.id job.schedule : ℤ))).map .ofInt) ∧
      ∀ slot, found = some slot ↔
        IsGreatest {s | s ∈ slots ∧ s ≤ now - oracle.offsetMs job.id job.schedule} slot := by
  have hlater : (oracle.offsetMs job.id job.schedule : ℤ) ≤ now + 1000 := by omega
  obtain ⟨previous, hprevious, hstrict⟩ := computeStaggeredCronPreviousRunAtMs_eq hcron hnow h
  obtain ⟨boundary, hboundary, hprobe⟩ := computeStaggeredCronPreviousRunAtMs_eq hcron hlater h
  generalize (oracle.offsetMs job.id job.schedule : ℤ) = offset at *
  have hset : {s | s ∈ slots ∧ s < (now + 1000 - offset) / 1000 * 1000} =
      {s | s ∈ slots ∧ s ≤ now - offset} := by
    ext s
    refine and_congr_right fun hs => ?_
    rw [show now + 1000 - offset = now - offset + 1000 by omega]
    exact lt_next_second_iff (h.whole s hs)
  rw [hset] at hprobe
  refine ⟨boundary, ?_, hprobe⟩
  have hsum : JsNumber.ofInt now + .ofNat 1000 = .ofInt (now + 1000) :=
    JsNumber.ofInt_add_ofNat now 1000
  have hfinite : ¬ (!(JsNumber.ofInt (now + 1000)).isFinite) = true := by
    simp [JsNumber.ofInt, JsNumber.isFinite]
  unfold computeStaggeredCronPreviousRunAtOrBeforeMs
  rw [hprevious, hsum]
  simp only [bind, Except.bind]
  rw [if_neg hfinite, hboundary]
  cases boundary with
  | none =>
    cases previous with
    | none => rfl
    | some p =>
      obtain ⟨b, hb⟩ := exists_isGreatest_upTo h.whole ((hstrict p).mp rfl)
      cases (hprobe b).mpr hb
  | some b =>
    obtain ⟨⟨hb, hle⟩, hgreatest⟩ := (hprobe b).mp rfl
    have hnowle : JsNumber.ofInt (b + offset) ≤ .ofInt now :=
      JsNumber.ofInt_le_ofInt.mpr (by omega)
    cases previous with
    | none => exact if_pos ⟨hnowle, rfl⟩
    | some p =>
      obtain ⟨⟨hp, hlt⟩, -⟩ := (hstrict p).mp rfl
      have hpb : p ≤ b := hgreatest ⟨hp, by omega⟩
      rcases hpb.lt_or_eq with hpb | rfl
      · refine if_pos ⟨hnowle, decide_eq_true (JsNumber.ofInt_lt_ofInt.mpr ?_)⟩
        show p + offset < b + offset
        omega
      · exact ite_self _

/-- The runs of a job are exact: the next one is its first slot behind now, the previous one its
last slot up to now, and a time is a run iff it is a slot. -/
theorem staggered_slots_exact (oracle : ScheduleOracle) (job : CronJob) (slots : Set ℤ)
    {expr tz staggerMs} (hcron : job.schedule = .cron expr tz staggerMs)
    (h : oracle.HasSlots job.schedule slots) (now : ℤ)
    (hnow : (oracle.offsetMs job.id job.schedule : ℤ) ≤ now) :
    (∃ found : Option ℤ,
      computeStaggeredCronNextRunAtMs oracle job (.ofInt now) = .ok (found.map .ofInt) ∧
      ∀ t, found = some t ↔ IsLeast
        {s | s ∈ shiftedSlots slots (oracle.offsetMs job.id job.schedule) ∧ now < s} t) ∧
    (∃ found : Option ℤ,
      computeStaggeredCronPreviousRunAtOrBeforeMs oracle job (.ofInt now) =
        .ok (found.map .ofInt) ∧
      ∀ t, found = some t ↔ IsGreatest
        {s | s ∈ shiftedSlots slots (oracle.offsetMs job.id job.schedule) ∧ s ≤ now} t) ∧
    ∃ isRun, isStaggeredCronRunAtMs oracle job (.ofInt now) = .ok isRun ∧
      (isRun = true ↔ now ∈ shiftedSlots slots (oracle.offsetMs job.id job.schedule)) := by
  obtain ⟨next, hnext, hleast⟩ := computeStaggeredCronNextRunAtMs_eq hcron hnow h
  obtain ⟨last, hlast, hgreatest⟩ :=
    computeStaggeredCronPreviousRunAtOrBeforeMs_eq hcron hnow h
  generalize (oracle.offsetMs job.id job.schedule : ℤ) = offset at *
  have hrun : isStaggeredCronRunAtMs oracle job (.ofInt now) =
      .ok (decide ((last.map (· + offset)).map .ofInt = some (JsNumber.ofInt now))) := by
    unfold isStaggeredCronRunAtMs
    rw [hcron, hlast]
    rfl
  have hshift : ∀ (found : Option ℤ) (t : ℤ), found.map (· + offset) = some t ↔
      found = some (t - offset) := by
    intro found t
    rw [Option.map_eq_some_iff]
    constructor
    · rintro ⟨slot, rfl, rfl⟩
      rw [add_sub_cancel_right]
    · rintro rfl
      exact ⟨t - offset, rfl, sub_add_cancel t offset⟩
  refine ⟨⟨_, hnext, fun t => ?_⟩, ⟨_, hlast, fun t => ?_⟩, _, hrun, ?_⟩
  · rw [hshift, hleast, isLeast_shifted]
  · rw [hshift, hgreatest, isGreatest_shifted]
  · rw [decide_eq_true_eq, ← Option.map_some, (Option.map_injective JsNumber.ofInt_injective).eq_iff,
      hshift, hgreatest]
    exact ⟨fun hg => hg.1.1, fun hmem => ⟨⟨hmem, le_rfl⟩, fun s hs => hs.2⟩⟩

/-- A schedule of every second, with an offset of half a second. -/
def everySecond : ScheduleOracle where
  computeNextRunAtMs
    | _, .finite q => .ok (some (.ofInt ((q.floor / 1000 + 1) * 1000)))
    | _, _ => .ok none
  computePreviousRunAtMs
    | _, .finite q => .ok (some (.ofInt ((q.floor / 1000 - 1) * 1000)))
    | _, _ => .ok none
  offsetMs _ _ := 500
  parseAbsoluteTimeMs _ := none

theorem everySecond_hasSlots (schedule : CronSchedule) :
    everySecond.HasSlots schedule {s | 1000 ∣ s} := by
  have hfloor : ∀ t : ℤ, (t : ℚ).floor = t := Rat.floor_intCast
  refine ⟨fun _ h => h, fun t => ⟨some ((t / 1000 + 1) * 1000), ?_, fun slot => ?_⟩,
    fun t => ⟨some ((t / 1000 - 1) * 1000), ?_, fun slot => ?_⟩⟩
  · show Except.ok (some (JsNumber.ofInt (((t : ℚ).floor / 1000 + 1) * 1000))) = _
    rw [hfloor]
    rfl
  · have hleast : IsLeast {s : ℤ | 1000 ∣ s ∧ t < s} ((t / 1000 + 1) * 1000) := by
      refine ⟨⟨Dvd.intro_left _ rfl, by omega⟩, fun s ⟨hs, hlt⟩ => ?_⟩
      replace hs : (1000 : ℤ) ∣ s := hs
      omega
    exact ⟨fun h => Option.some.inj h ▸ hleast, fun h => congrArg some (hleast.unique h)⟩
  · show Except.ok (some (JsNumber.ofInt (((t : ℚ).floor / 1000 - 1) * 1000))) = _
    rw [hfloor]
    rfl
  · have hgreatest :
        IsGreatest {s : ℤ | 1000 ∣ s ∧ s < t / 1000 * 1000} ((t / 1000 - 1) * 1000) := by
      refine ⟨⟨Dvd.intro_left _ rfl, by omega⟩, fun s ⟨hs, hlt⟩ => ?_⟩
      replace hs : (1000 : ℤ) ∣ s := hs
      omega
    exact ⟨fun h => Option.some.inj h ▸ hgreatest, fun h => congrArg some (hgreatest.unique h)⟩

def secondlyJob : CronJob where
  id := "job"
  enabled := none
  schedule := .cron "* * * * * *" none none
  isAgentTurn := false
  createdAtMs := none
  state := ⟨none, none, none, none, none, none, none, none, none, none, none, none, none, none⟩

/-- Half a second behind a full one the job runs. -/
theorem staggered_slots_sample : ∃ isRun,
    isStaggeredCronRunAtMs everySecond secondlyJob (.ofInt 2500) = .ok isRun ∧
    (isRun = true ↔ 2500 ∈ shiftedSlots {s | 1000 ∣ s} 500) :=
  (staggered_slots_exact everySecond secondlyJob {s | 1000 ∣ s} rfl (everySecond_hasSlots _) 2500
    (by decide)).2.2

end Flashclaw.Cron
