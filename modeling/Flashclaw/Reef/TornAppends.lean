import Flashclaw.Reef.FileReplay
import Flashclaw.Reef.JsonlAudit

/-!
# Reef: appends that crash

A log survives crashes as long as no record is appended to a file whose last record
misses its newline: the two records would be one line, which no load can read.
-/

namespace Flashclaw.Reef

open Utf16 LogStore

section Survive

variable {crypto : AuditCrypto}

/-- Along a protected run the final bindings stay as they are. -/
theorem keepsFinal_of_run (hgcm : GcmCorrect crypto) {bodyKey : Bytes}
    {ls ls' : List (LogLabel ReplayOp)} {s s' : LogState Bindings}
    (run : (fileReplayStore crypto bodyKey).system.Run
      ((fileReplayStore crypto bodyKey).Protected fun _ _ => True) ls s)
    (run' : (fileReplayStore crypto bodyKey).system.Run
      ((fileReplayStore crypto bodyKey).Protected fun _ _ => True) (ls ++ ls') s') :
    KeepsFinal s.latest s'.latest := by
  have law := fileReplayStore_lawful hgcm bodyKey
  induction ls' using List.reverseRecOn generalizing s' with
  | nil =>
    rw [List.append_nil] at run'
    obtain rfl := Option.some.inj (run.exec.symm.trans run'.exec)
    exact .refl _
  | append_singleton ls' l ih =>
    rw [← List.append_assoc] at run'
    obtain ⟨t, runt, -, hs⟩ := run'.of_concat
    have hinv := (intact_of_run law runt).1
    exact (ih runt).trans (hinv.step_latest law KeepsFinal.refl (fun _ _ _ h h' => h.trans h')
      (fun _ _ h => h.keepsFinal) (fun _ _ _ _ h => fileReplayStore_keepsFinal h) hs)

/-- Replay and audit logs survive every run in which no record is appended to a file that does
not end in a newline. -/
theorem logs_survive (hgcm : GcmCorrect crypto) (bodyKey auditKey : Bytes) :
    (∀ ls ls' s s',
      (fileReplayStore crypto bodyKey).system.Run
        ((fileReplayStore crypto bodyKey).Protected fun _ _ => True) ls s →
      (fileReplayStore crypto bodyKey).system.Run
        ((fileReplayStore crypto bodyKey).Protected fun _ _ => True) (ls ++ ls') s' →
      (fileReplayStore crypto bodyKey).Intact RecoveredBindings s ∧
        KeepsFinal s.latest s'.latest) ∧
    ∀ ls s, (jsonlAuditStore crypto auditKey).system.Run
      ((jsonlAuditStore crypto auditKey).Protected fun m _ => m.head.seq + 1 < 2 ^ 53) ls s →
      (jsonlAuditStore crypto auditKey).Intact RecoveredLog s :=
  ⟨fun _ _ _ _ run run' => ⟨(intact_of_run (fileReplayStore_lawful hgcm bodyKey) run).2,
    keepsFinal_of_run hgcm run run'⟩,
    fun _ _ run => (intact_of_run (jsonlAuditStore_lawful crypto auditKey) run).2⟩

end Survive

section Samples

def firstClaim : ReplayOp := .claim (ofString "alice") (ofString "1") (ofString "c")

def secondClaim : ReplayOp := .claim (ofString "bob") (ofString "2") (ofString "d")

def sampleReplayStore : LogStore Bindings ReplayOp := fileReplayStore sampleCrypto sampleKey

/-- The first claim is cut within its JSON. -/
def tornRun : List (LogLabel ReplayOp) := [.cut firstClaim 20, .call secondClaim]

/-- The first claim is cut right before its newline. -/
def fusingRun : List (LogLabel ReplayOp) := [.cut firstClaim 57, .call secondClaim]

theorem isSome_fusingRun :
    (sampleReplayStore.system.exec sampleReplayStore.system.start fusingRun).isSome = true := by
  decide +kernel

/-- The state that a crash within the first claim leaves. -/
def tornState : LogState Bindings :=
  (sampleReplayStore.step sampleReplayStore.system.start (.cut firstClaim 20)).getD
    sampleReplayStore.system.start

theorem step_tornState :
    sampleReplayStore.step sampleReplayStore.system.start (.cut firstClaim 20) = some tornState := by
  have hsome : (sampleReplayStore.step sampleReplayStore.system.start
      (.cut firstClaim 20)).isSome = true := by decide +kernel
  obtain ⟨s, hs⟩ := Option.isSome_iff_exists.mp hsome
  unfold tornState
  rw [hs]
  rfl

theorem protected_tornRun :
    ∃ s, sampleReplayStore.system.Run (sampleReplayStore.Protected fun _ _ => True) tornRun s := by
  have hstart : isTerminated (sampleReplayStore.load sampleReplayStore.system.start).1.file = true := by
    decide +kernel
  have htorn : isTerminated (sampleReplayStore.load tornState).1.file = true := by
    decide +kernel
  have hsome : (sampleReplayStore.step tornState (.call secondClaim)).isSome = true := by
    decide +kernel
  obtain ⟨s, hs⟩ := Option.isSome_iff_exists.mp hsome
  have hfirst : sampleReplayStore.system.Run (sampleReplayStore.Protected fun _ _ => True)
      ([] ++ [.cut firstClaim 20]) tornState :=
    .step .start (fun _ _ _ _ _ => ⟨hstart, trivial⟩) step_tornState
  exact ⟨s, hfirst.step (fun _ _ _ _ => ⟨htorn, trivial⟩) hs⟩

theorem logs_survive_torn :
    ∃ s, sampleReplayStore.system.Run (sampleReplayStore.Protected fun _ _ => True) tornRun s ∧
      sampleReplayStore.Intact RecoveredBindings s := by
  obtain ⟨s, run⟩ := protected_tornRun
  refine ⟨s, run, ((logs_survive sampleCrypto_gcm sampleKey sampleKey).1 tornRun [] s s run ?_).1⟩
  rw [List.append_nil]
  exact run

/-- The second claim completed, and the next load drops it with the first. -/
theorem logs_not_survive :
    ∃ s, sampleReplayStore.system.Run (fun _ _ => True) fusingRun s ∧
      ¬ sampleReplayStore.Intact RecoveredBindings s := by
  obtain ⟨s, hs⟩ := Option.isSome_iff_exists.mp isSome_fusingRun
  have hread : (sampleReplayStore.system.exec sampleReplayStore.system.start fusingRun).map
      (fun s => (readJsonl s.file).toOption.map fun r => r.1.length) = some (some 0) := by
    decide +kernel
  have hcomplete : (sampleReplayStore.system.exec sampleReplayStore.system.start fusingRun).map
      (fun s => (s.history.filter Append.isComplete).length) = some 1 := by
    decide +kernel
  rw [hs, Option.map_some, Option.some.injEq] at hread hcomplete
  refine ⟨s, TransitionSystem.Run.append_exec .start hs, ?_⟩
  rintro ⟨records, file, m, hrecords, ⟨kept, hkept, -, rfl⟩, -, -⟩
  rw [hrecords] at hread
  have hlength : (kept.map fun a => a.record.read).length = 0 := Option.some.inj hread
  have hle := hkept.length_le
  rw [List.length_map] at hlength
  omega

end Samples

end Flashclaw.Reef
