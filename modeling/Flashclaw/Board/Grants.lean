import Flashclaw.Board.SqliteStore
import Flashclaw.Lib.Provenance

/-!
# Boards: no grant without the operator
-/

namespace Flashclaw.Board

variable {Props : Type}

open Provenance

namespace InMemoryBoardStore

theorem run_ok (host : Host Props) (calls : List (BoardCall Props)) :
    MemoryOk host (run (fun boards c => (call boards host c).2) JsMap.empty calls) :=
  run_invariant MemoryOk.empty (fun _ c h => (call_authority h c).1) calls

theorem confined (host : Host Props) (sessionKey name : String) :
    Confined (fun (boards : InMemoryBoardStore Props) c => (boards.call host c).2) JsMap.empty
      (fun boards => boards.authority host sessionKey name) (fun a => a.grantState = .granted)
      (Grants sessionKey name) Authority.Covers where
  trans _ _ _ := Authority.Covers.trans
  fresh _ h := by cases h
  confined calls c a ha hg := (call_authority (run_ok host calls) c).2 sessionKey name a ha hg

end InMemoryBoardStore

namespace SqliteBoardStore

theorem run_ok {host : SqliteHost Props} (hurl : OriginsReparse host.parseUrl)
    (sessions : List String) (calls : List (BoardCall Props)) :
    Ok host (run (fun store c => (call host store c).2) ⟨sessions, ⟨.empty, .empty⟩⟩ calls) :=
  run_invariant (Ok.empty sessions) (fun _ c h => (call_authority hurl h c).1) calls

theorem confined {host : SqliteHost Props} (hurl : OriginsReparse host.parseUrl)
    (sessions : List String) (sessionKey name : String) :
    Confined (fun (store : SqliteBoardStore) c => (store.call host c).2)
      ⟨sessions, ⟨.empty, .empty⟩⟩ (fun store => store.authority host sessionKey name)
      (fun a => a.grantState = .granted) (Grants host sessionKey name) Authority.Covers where
  trans _ _ _ := Authority.Covers.trans
  fresh a h := by
    unfold authority at h
    obtain ⟨widget, hw, -⟩ := Option.map_eq_some_iff.mp h
    rw [show getSnapshot host ⟨sessions, ⟨.empty, .empty⟩⟩ sessionKey =
        emptyBoardSnapshot sessionKey by
      unfold getSnapshot
      split_ifs
      · exact (Holds.empty sessionKey).readStoredBoard
      · rfl] at hw
    cases hw
  confined calls c a ha hg :=
    (call_authority hurl (run_ok hurl sessions calls) c).2 sessionKey name a ha hg

end SqliteBoardStore

/-- In either store a granted widget goes back to an operator's grant of it, there ever since, and
holds no more than it did at that grant. -/
theorem granted_by_operator (host : SqliteHost Props) (hurl : OriginsReparse host.parseUrl)
    (sessions : List String) (calls : List (BoardCall Props)) (sessionKey name : String)
    (present : Authority) (hgranted : present.grantState = .granted) :
    ((run (fun boards c => (InMemoryBoardStore.call boards host.toHost c).2) JsMap.empty
        calls).authority host.toHost sessionKey name = some present →
      ∃ before grant rest, Granted
        (fun boards c => (InMemoryBoardStore.call boards host.toHost c).2) JsMap.empty
        (fun boards => boards.authority host.toHost sessionKey name)
        (InMemoryBoardStore.Grants sessionKey name) Authority.Covers calls present before grant
        rest) ∧
    ((run (fun store c => (SqliteBoardStore.call host store c).2) ⟨sessions, ⟨.empty, .empty⟩⟩
        calls).authority host sessionKey name = some present →
      ∃ before grant rest, Granted
        (fun store c => (SqliteBoardStore.call host store c).2) ⟨sessions, ⟨.empty, .empty⟩⟩
        (fun store => store.authority host sessionKey name)
        (SqliteBoardStore.Grants host sessionKey name) Authority.Covers calls present before grant
        rest) :=
  ⟨fun h => (InMemoryBoardStore.confined host.toHost sessionKey name).granted calls h hgranted,
    fun h => (SqliteBoardStore.confined hurl sessions sessionKey name).granted calls h hgranted⟩

/-- The functions of the host on the texts of `rePin`. -/
def rePinHost : SqliteHost String where
  parseUrl value :=
    if value = "https://a.example" then
      some ⟨"https:", "", "", "a.example", "/", "", "", "https://a.example"⟩
    else none
  sha256 text :=
    if text = "<p>hi</p>" then "0a4735281db700223af63abc387c351f64ea6961a1ef955631df08d96169e772"
    else ""
  stringify props := props
  parse text := text
  descriptorSha256 _ := ""
  pluginSha256 _ _ := ""

theorem rePinHost_origins : OriginsReparse rePinHost.parseUrl := by
  intro value parsed again hparsed hprotocol hagain
  simp only [rePinHost] at hparsed hagain
  split_ifs at hparsed hagain
  rw [← Option.some.inj hparsed, ← Option.some.inj hagain]

def rePinParams : BoardWidgetPutParams String where
  sessionKey := "s"
  name := "w"
  title := none
  content := .html "<p>hi</p>"
  presentation := none
  heightMode := none
  placement := ⟨none, none, none⟩
  declared := some ⟨some ["https://a.example"], none⟩

/-- A widget put, granted, and put again as it was. -/
def rePin : List (BoardCall String) :=
  [.putWidget rePinParams ⟨"00000000000000000000000000000000", by decide⟩,
    .grant "s" "w" .granted 1 (some "00000000000000000000000000000000"),
    .putWidget rePinParams ⟨"11111111111111111111111111111111", by decide⟩]

def rePinAuthority : Authority where
  grantState := .granted
  declared := some ⟨some ["https://a.example"], none⟩
  scope := .html "0a4735281db700223af63abc387c351f64ea6961a1ef955631df08d96169e772"

theorem granted_by_operator_rePin :
    (∃ before grant rest, Granted
      (fun boards c => (InMemoryBoardStore.call boards rePinHost.toHost c).2) JsMap.empty
      (fun boards => boards.authority rePinHost.toHost "s" "w")
      (InMemoryBoardStore.Grants "s" "w") Authority.Covers rePin rePinAuthority before grant
      rest) ∧
    ∃ before grant rest, Granted
      (fun store c => (SqliteBoardStore.call rePinHost store c).2) ⟨["s"], ⟨.empty, .empty⟩⟩
      (fun store => store.authority rePinHost "s" "w")
      (SqliteBoardStore.Grants rePinHost "s" "w") Authority.Covers rePin rePinAuthority before grant
      rest :=
  have h := granted_by_operator rePinHost rePinHost_origins ["s"] rePin "s" "w" rePinAuthority rfl
  ⟨h.1 (by decide +kernel), h.2 (by decide +kernel)⟩

end Flashclaw.Board
