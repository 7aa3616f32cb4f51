import Mathlib.Data.List.Pairwise
import Flashclaw.Lib.Transition
import Flashclaw.Reef.Chain
import Flashclaw.Reef.ReplayRows

/-!
# Reef: runs over one replay database

Runs of any stores over one database, in any order, with crashes at any point.
A run claims once.  Where its claim is new it may refresh, complete, consume
and release it, any number of times, until its process crashes, and the owner
it acts for is the one that its store holds then.  Owners that `randomUUID`
draws are new.
-/

namespace Flashclaw.Reef.SqliteReplay

open Utf16 Json Results

/-- A claim that was new, and the run that made it. -/
structure Claim where
  store : ℕ
  peer : Utf16
  id : Utf16
  envelopeHash : Utf16
  owner : Utf16
deriving DecidableEq

inductive Outcome where
  | claimed (store : ℕ) (peer id envelopeHash : Utf16) (storage : Except Thrown Unit)
    (result : Except Thrown ReplayClaim)
  | acted (claim : Claim) (act : Act) (result : Except Thrown Unit)

structure System where
  rows : Utf16 → Option ReplayRow
  owners : ℕ → Utf16 → Option Utf16
  /-- The runs that claimed and have not crashed. -/
  runs : List Claim
  /-- What `randomUUID` has drawn. -/
  tokens : List Utf16
  claims : List Claim
  /-- The last claim of a row that was new. -/
  latest : Utf16 → Option Claim
  log : List Outcome

inductive Label where
  | claim (claim : Claim) (start now : Millis) (storage : Except Thrown Unit)
  | act (claim : Claim) (act : Act) (storage : Except Thrown Unit)
  | crash (store : ℕ)

structure Setting where
  crypto : AuditCrypto
  bodyKey : ℕ → Bytes

def Setting.key (setting : Setting) (c : Claim) : Utf16 := replayStoreKey setting.crypto c.peer c.id

def System.view (s : System) (store : ℕ) : StoreState := ⟨s.rows, s.owners store⟩

def System.start : System where
  rows _ := none
  owners _ _ := none
  runs := []
  tokens := []
  claims := []
  latest _ := none
  log := []

/-- What is noted of a claim that was new. -/
def System.enter (s : System) (key : Utf16) (c : Claim) : System :=
  { s with
    runs := c :: s.runs, claims := c :: s.claims, latest := Function.update s.latest key (some c) }

/-- What a claim returned, and what the store did to its rows and owners. -/
def System.claimed (s : System) (key : Utf16) (c : Claim) : Except Thrown ReplayClaim → System
  | .ok .new => s.enter key c
  | _ => s

def System.store (s : System) (name : ℕ) (state : StoreState) : System :=
  { s with rows := state.rows, owners := Function.update s.owners name state.owners }

variable (setting : Setting)

def step (s : System) : Label → Option System
  | .claim c start now storage =>
    if c.owner = [] ∨ c.owner ∈ s.tokens then none
    else
      let (result, state) := SqliteReplay.claim setting.crypto c.peer c.id storage c.envelopeHash
        c.owner start now (s.view c.store)
      some (({ s with
        tokens := c.owner :: s.tokens
        log := s.log ++ [Outcome.claimed c.store c.peer c.id c.envelopeHash storage result] }.store c.store
          state).claimed (setting.key c) c result)
  | .act c act storage =>
    if c ∉ s.runs then none
    else
      let (result, state) := act.perform setting.crypto (setting.bodyKey c.store) c.peer c.id
        storage (s.view c.store)
      some ({ s with log := s.log ++ [Outcome.acted c act result] }.store c.store state)
  | .crash store => some { s with
      owners := Function.update s.owners store fun _ => none
      runs := s.runs.filter (·.store ≠ store) }

def replaySystem : TransitionSystem System Label := ⟨.start, step setting⟩

variable {setting : Setting} {s s' : System}

theorem System.claimed_of_ne {key : Utf16} {c : Claim} {result : Except Thrown ReplayClaim}
    (h : result ≠ .ok .new) : s.claimed key c result = s := by
  unfold System.claimed
  split
  · exact absurd rfl h
  · rfl

theorem step_claim {c : Claim} {start now : Millis} {storage : Except Thrown Unit}
    (h : step setting s (.claim c start now storage) = some s') :
    c.owner ≠ [] ∧ c.owner ∉ s.tokens ∧ ∃ result state,
      SqliteReplay.claim setting.crypto c.peer c.id storage c.envelopeHash c.owner start now
        (s.view c.store) = (result, state) ∧
      s' = (({ s with
        tokens := c.owner :: s.tokens
        log := s.log ++ [Outcome.claimed c.store c.peer c.id c.envelopeHash storage result] }.store c.store
          state).claimed (setting.key c) c result) := by
  simp only [step] at h
  split_ifs at h with hfresh
  rw [not_or] at hfresh
  exact ⟨hfresh.1, hfresh.2, _, _, rfl, (Option.some.inj h).symm⟩

theorem step_act {c : Claim} {act : Act} {storage : Except Thrown Unit}
    (h : step setting s (.act c act storage) = some s') :
    c ∈ s.runs ∧ ∃ result state, act.perform setting.crypto (setting.bodyKey c.store) c.peer c.id
        storage (s.view c.store) = (result, state) ∧
      s' = { s with log := s.log ++ [Outcome.acted c act result] }.store c.store state := by
  simp only [step] at h
  split_ifs at h with hrun
  exact ⟨hrun, _, _, rfl, (Option.some.inj h).symm⟩

/-- What a row is bound to does not change, and a final row does not change at all. -/
def Kept (rows rows' : Utf16 → Option ReplayRow) : Prop :=
  ∀ key row, rows key = some row → ∃ row', rows' key = some row' ∧
    IsBound row.peer row.id row.envelopeHash row' ∧ (IsFinal row → row' = row)

theorem Kept.refl (rows : Utf16 → Option ReplayRow) : Kept rows rows :=
  fun _ row h => ⟨row, h, ⟨rfl, rfl, rfl⟩, fun _ => rfl⟩

theorem Kept.trans {rows rows' rows'' : Utf16 → Option ReplayRow} (h : Kept rows rows')
    (h' : Kept rows' rows'') : Kept rows rows'' := by
  intro key row hrow
  obtain ⟨row', hrow', ⟨hpeer, hid, hhash⟩, hfinal⟩ := h key row hrow
  obtain ⟨row'', hrow'', ⟨hpeer', hid', hhash'⟩, hfinal'⟩ := h' key row' hrow'
  refine ⟨row'', hrow'', ⟨hpeer'.trans hpeer, hid'.trans hid, hhash'.trans hhash⟩, fun hf => ?_⟩
  obtain rfl := hfinal hf
  exact hfinal' hf

theorem Kept.update {rows : Utf16 → Option ReplayRow} {key : Utf16} {row' : ReplayRow}
    (h : ∀ row, rows key = some row →
      IsBound row.peer row.id row.envelopeHash row' ∧ ¬ IsFinal row) :
    Kept rows (Function.update rows key (some row')) := by
  intro key' row hrow
  by_cases hkey : key' = key
  · subst hkey
    obtain ⟨hbound, hfinal⟩ := h row hrow
    exact ⟨row', Function.update_self .., hbound, fun hf => absurd hf hfinal⟩
  · exact ⟨row, by rw [Function.update_of_ne hkey, hrow], ⟨rfl, rfl, rfl⟩, fun _ => rfl⟩

theorem not_isFinal_of_isHeld {row : ReplayRow} {owner : Option Utf16}
    (h : isHeld owner row = true) : ¬ IsFinal row := by
  simp only [isHeld, Bool.and_eq_true, decide_eq_true_eq] at h
  unfold IsFinal
  rw [h.1]
  simp

theorem Performed.kept {crypto : AuditCrypto} {bodyKey : Bytes} {key : Utf16} {act : Act}
    {s s' : StoreState} {result : Except Thrown Unit}
    (h : Performed crypto bodyKey key act s result s') : Kept s.rows s'.rows := by
  obtain hrows | ⟨row, row', hrow, hheld, hchange, hrows⟩ := h.rows
  · rw [hrows]
    exact .refl _
  · rw [hrows]
    apply Kept.update
    intro row'' hrow''
    obtain rfl := Option.some.inj (hrow.symm.trans hrow'')
    obtain ⟨hpeer, hid, hhash, -⟩ := Act.change_eq_ok hchange
    exact ⟨⟨hpeer, hid, hhash⟩, not_isFinal_of_isHeld hheld⟩

/-- The row of a claim is bound to its envelope. -/
def Bound (setting : Setting) (s : System) (peer id envelopeHash : Utf16) : Prop :=
  ∃ row, s.rows (replayStoreKey setting.crypto peer id) = some row ∧
    IsBound peer id envelopeHash row

structure Inv (setting : Setting) (s : System) : Prop where
  rows : ∀ key row, s.rows key = some row → isReplayRow row = true
  held : ∀ key row owner, s.rows key = some row → row.state = .inFlight →
    row.claimOwner = some owner → ∃ c, s.latest key = some c ∧ c.owner = owner
  latest : ∀ key c, s.latest key = some c → c ∈ s.claims
  runs : ∀ c ∈ s.runs, c ∈ s.claims
  drawn : ∀ c ∈ s.claims, c.owner ∈ s.tokens
  unique : ∀ c ∈ s.claims, ∀ c' ∈ s.claims, c.owner = c'.owner → c = c'
  bound : ∀ c ∈ s.claims, Bound setting s c.peer c.id c.envelopeHash
  claimed : ∀ store peer id envelopeHash storage,
    Outcome.claimed store peer id envelopeHash storage (.ok .new) ∈ s.log →
    Bound setting s peer id envelopeHash
  acted : ∀ c act, Outcome.acted c act (.ok ()) ∈ s.log → act.isFinal = true →
    ∃ row, s.rows (setting.key c) = some row ∧ IsBound c.peer c.id c.envelopeHash row ∧ IsFinal row

theorem Bound.kept {peer id envelopeHash : Utf16} (h : Bound setting s peer id envelopeHash)
    (hkept : Kept s.rows s'.rows) : Bound setting s' peer id envelopeHash := by
  obtain ⟨row, hrow, hpeer, hid, hhash⟩ := h
  obtain ⟨row', hrow', ⟨hpeer', hid', hhash'⟩, -⟩ := hkept _ row hrow
  exact ⟨row', hrow', hpeer'.trans hpeer, hid'.trans hid, hhash'.trans hhash⟩

theorem inv_start : Inv setting .start where
  rows _ _ h := by cases h
  held _ _ _ h := by cases h
  latest _ _ h := by cases h
  runs _ h := by cases h
  drawn _ h := by cases h
  unique _ h := by cases h
  bound _ h := by cases h
  claimed _ _ _ _ _ h := by cases h
  acted _ _ h := by cases h

/-- The rows and what was logged keep the part of the invariant that speaks of them. -/
theorem Inv.logged (h : Inv setting s) (s' : System) (hkept : Kept s.rows s'.rows) {outcome : Outcome}
    (hlog : s'.log = s.log ++ [outcome])
    (hclaimed : ∀ store peer id envelopeHash storage,
      outcome = .claimed store peer id envelopeHash storage (.ok .new) →
      Bound setting s' peer id envelopeHash)
    (hacted : ∀ c act, outcome = .acted c act (.ok ()) → act.isFinal = true →
      ∃ row, s'.rows (setting.key c) = some row ∧ IsBound c.peer c.id c.envelopeHash row ∧
        IsFinal row) :
    (∀ store peer id envelopeHash storage,
      Outcome.claimed store peer id envelopeHash storage (.ok .new) ∈ s'.log →
      Bound setting s' peer id envelopeHash) ∧
    ∀ c act, Outcome.acted c act (.ok ()) ∈ s'.log → act.isFinal = true →
      ∃ row, s'.rows (setting.key c) = some row ∧ IsBound c.peer c.id c.envelopeHash row ∧
        IsFinal row := by
  rw [hlog]
  constructor
  · intro store peer id envelopeHash storage hmem
    rcases List.mem_append.mp hmem with hmem | hmem
    · exact (h.claimed _ _ _ _ _ hmem).kept hkept
    · exact hclaimed _ _ _ _ _ (List.mem_singleton.mp hmem).symm
  · intro c act hmem hact
    rcases List.mem_append.mp hmem with hmem | hmem
    · obtain ⟨row, hrow, hbound, hfinal⟩ := h.acted c act hmem hact
      obtain ⟨row', hrow', -, heq⟩ := hkept _ row hrow
      obtain rfl := heq hfinal
      exact ⟨row', hrow', hbound, hfinal⟩
    · exact hacted c act (List.mem_singleton.mp hmem).symm hact

/-- The state after a claim, but for what is noted of one that was new. -/
def System.answered (s : System) (c : Claim) (storage : Except Thrown Unit)
    (result : Except Thrown ReplayClaim) (state : StoreState) : System :=
  { s with
    tokens := c.owner :: s.tokens
    log := s.log ++ [Outcome.claimed c.store c.peer c.id c.envelopeHash storage result] }.store
      c.store state

/-- A claim that was not new. -/
theorem Inv.answered (h : Inv setting s) {c : Claim} {storage : Except Thrown Unit}
    {result : Except Thrown ReplayClaim} {state : StoreState} (hresult : result ≠ .ok .new)
    (hrows : state.rows = s.rows) : Inv setting (s.answered c storage result state) := by
  have hkept : Kept s.rows (s.answered c storage result state).rows := by
    show Kept s.rows state.rows
    rw [hrows]
    exact .refl _
  obtain ⟨hclaimed, hacted⟩ := h.logged (s.answered c storage result state) hkept rfl
    (fun _ _ _ _ _ heq => absurd (Outcome.claimed.inj heq).2.2.2.2.2 hresult)
    (fun _ _ heq => by cases heq)
  exact
    { rows := fun key row hr => h.rows key row (hrows ▸ hr)
      held := fun key row owner hr => h.held key row owner (hrows ▸ hr)
      latest := h.latest
      runs := h.runs
      drawn := fun c' hc' => List.mem_cons_of_mem _ (h.drawn c' hc')
      unique := h.unique
      bound := fun c' hc' => (h.bound c' hc').kept hkept
      claimed := hclaimed
      acted := hacted }

/-- A claim that was new. -/
theorem Inv.entered (h : Inv setting s) {c : Claim} {storage : Except Thrown Unit}
    {state : StoreState} (hfresh : c.owner ∉ s.tokens) {row' : ReplayRow}
    (hrows : state.rows = Function.update s.rows (setting.key c) (some row'))
    (hparsed : isReplayRow row' = true) (hbound : IsBound c.peer c.id c.envelopeHash row')
    (howner : row'.claimOwner = some c.owner)
    (hrow : ∀ row, s.rows (setting.key c) = some row →
      IsBound c.peer c.id c.envelopeHash row ∧ ¬ IsFinal row) :
    Inv setting ((s.answered c storage (.ok .new) state).enter (setting.key c) c) ∧
      Kept s.rows state.rows := by
  -- a row that was there was bound to the same message and not final
  have hkept : Kept s.rows state.rows := by
    rw [hrows]
    apply Kept.update
    intro row hr
    obtain ⟨⟨hpeer, hid, hhash⟩, hfinal⟩ := hrow row hr
    rw [hpeer, hid, hhash]
    exact ⟨hbound, hfinal⟩
  have hown : state.rows (setting.key c) = some row' := by
    rw [hrows, Function.update_self]
  have hother : ∀ key, key ≠ setting.key c → state.rows key = s.rows key := by
    intro key hkey
    rw [hrows, Function.update_of_ne hkey]
  have hlast : Function.update s.latest (setting.key c) (some c) (setting.key c) = some c :=
    Function.update_self ..
  have hbounds : Bound setting ((s.answered c storage (.ok .new) state).enter (setting.key c) c)
      c.peer c.id c.envelopeHash := ⟨row', hown, hbound⟩
  have hlogged := h.logged ((s.answered c storage (.ok .new) state).enter (setting.key c) c)
    hkept rfl
  refine ⟨?_, hkept⟩
  constructor
  case rows =>
    intro key row hr
    by_cases hkey : key = setting.key c
    · subst hkey
      obtain rfl := Option.some.inj (hown.symm.trans hr)
      exact hparsed
    · exact h.rows key row ((hother key hkey).symm.trans hr)
  case held =>
    intro key row owner hr hflight hrowOwner
    by_cases hkey : key = setting.key c
    · subst hkey
      obtain rfl := Option.some.inj (hown.symm.trans hr)
      exact ⟨c, hlast, Option.some.inj (howner.symm.trans hrowOwner)⟩
    · obtain ⟨c', hlatest, hc'⟩ :=
        h.held key row owner ((hother key hkey).symm.trans hr) hflight hrowOwner
      exact ⟨c', (Function.update_of_ne hkey ..).trans hlatest, hc'⟩
  case latest =>
    intro key c' hlatest
    by_cases hkey : key = setting.key c
    · subst hkey
      obtain rfl := Option.some.inj (hlast.symm.trans hlatest)
      exact List.mem_cons_self
    · have hold : s.latest key = some c' := (Function.update_of_ne hkey ..).symm.trans hlatest
      exact List.mem_cons_of_mem _ (h.latest key c' hold)
  case runs =>
    intro c' hc'
    rcases List.mem_cons.mp hc' with rfl | hc'
    · exact List.mem_cons_self
    · exact List.mem_cons_of_mem _ (h.runs c' hc')
  case drawn =>
    intro c' hc'
    rcases List.mem_cons.mp hc' with rfl | hc'
    · exact List.mem_cons_self
    · exact List.mem_cons_of_mem _ (h.drawn c' hc')
  case unique =>
    intro c₁ h₁ c₂ h₂ heq
    rcases List.mem_cons.mp h₁ with rfl | h₁ <;> rcases List.mem_cons.mp h₂ with rfl | h₂
    · rfl
    · -- the token is new, so no other claim has it
      exact absurd (heq ▸ h.drawn c₂ h₂) hfresh
    · exact absurd (heq ▸ h.drawn c₁ h₁) hfresh
    · exact h.unique c₁ h₁ c₂ h₂ heq
  case bound =>
    intro c' hc'
    rcases List.mem_cons.mp hc' with rfl | hc'
    · exact hbounds
    · exact (h.bound c' hc').kept hkept
  case claimed =>
    refine (hlogged ?_ fun _ _ heq => by cases heq).1
    intro _ _ _ _ _ heq
    obtain ⟨-, rfl, rfl, rfl, -⟩ := Outcome.claimed.inj heq
    exact hbounds
  case acted =>
    refine (hlogged ?_ fun _ _ heq => by cases heq).2
    intro _ _ _ _ _ heq
    obtain ⟨-, rfl, rfl, rfl, -⟩ := Outcome.claimed.inj heq
    exact hbounds

theorem Inv.claim (h : Inv setting s) {c : Claim} {start now : Millis}
    {storage : Except Thrown Unit} (hs : step setting s (.claim c start now storage) = some s') :
    Inv setting s' ∧ Kept s.rows s'.rows := by
  obtain ⟨howner, hfresh, result, state, hclaim, rfl⟩ := step_claim hs
  obtain ⟨hnew, hrows, -⟩ | ⟨rfl, row', hrows, -, hparsed, hbound, hrowOwner, hrow⟩ :=
    claim_effect howner (h.rows _) hclaim
  · rw [System.claimed_of_ne hnew]
    refine ⟨h.answered hnew hrows, ?_⟩
    show Kept s.rows state.rows
    rw [hrows]
    exact .refl _
  · exact h.entered hfresh hrows hparsed hbound hrowOwner hrow

theorem Inv.act (h : Inv setting s) {c : Claim} {act : Act} {storage : Except Thrown Unit}
    (hs : step setting s (.act c act storage) = some s') :
    Inv setting s' ∧ Kept s.rows s'.rows := by
  obtain ⟨hrun, result, state, hperform, rfl⟩ := step_act hs
  have hperformed := performed_perform hperform
  have hkept : Kept s.rows state.rows := hperformed.kept
  have hlogged := h.logged ({ s with log := s.log ++ [Outcome.acted c act result] }.store
    c.store state) hkept rfl (fun _ _ _ _ _ heq => by cases heq)
  -- a row is what it was, or the act changed it while it was in flight
  have hrows : ∀ key row', state.rows key = some row' → s.rows key = some row' ∨
      ∃ row, s.rows key = some row ∧ row.state = .inFlight ∧
        act.change setting.crypto (setting.bodyKey c.store) row = .ok row' := by
    intro key row' hr
    obtain hsame | ⟨row, row'', hrow, hheld, hchange, hupdate⟩ := hperformed.rows
    · rw [hsame] at hr
      exact .inl hr
    · rw [hupdate] at hr
      by_cases hkey : key = replayStoreKey setting.crypto c.peer c.id
      · subst hkey
        rw [Function.update_self] at hr
        obtain rfl := Option.some.inj hr
        simp only [isHeld, Bool.and_eq_true, decide_eq_true_eq] at hheld
        exact .inr ⟨row, hrow, hheld.1, hchange⟩
      · rw [Function.update_of_ne hkey] at hr
        exact .inl hr
  -- an act that ends a claim leaves a final row of its message
  have hacted : ∀ c' act', Outcome.acted c act result = .acted c' act' (.ok ()) →
      act'.isFinal = true → ∃ row, state.rows (setting.key c') = some row ∧
        IsBound c'.peer c'.id c'.envelopeHash row ∧ IsFinal row := by
    intro c' act' heq hfinal
    obtain ⟨rfl, rfl, rfl⟩ := Outcome.acted.inj heq
    obtain ⟨row, row', hrow, -, hchange, hupdate⟩ := hperformed.final hfinal rfl
    obtain ⟨row₁, hrow₁, hpeer, hid, hhash⟩ := h.bound c (h.runs c hrun)
    obtain rfl := Option.some.inj (hrow.symm.trans hrow₁)
    obtain ⟨hpeer', hid', hhash', -, hfinal'⟩ := Act.change_eq_ok hchange
    refine ⟨row', ?_, ⟨hpeer'.trans hpeer, hid'.trans hid, hhash'.trans hhash⟩, hfinal' hfinal⟩
    rw [hupdate]
    exact Function.update_self ..
  obtain ⟨hclaimed, hacted⟩ := hlogged hacted
  refine ⟨?_, hkept⟩
  constructor
  case rows =>
    intro key row' hr
    obtain hr | ⟨row, hr, hflight, hchange⟩ := hrows key row' hr
    · exact h.rows key row' hr
    · exact isReplayRow_change hchange hflight (h.rows key row hr)
  case held =>
    intro key row' owner hr hflight' howner
    obtain hr | ⟨row, hr, hflight, hchange⟩ := hrows key row' hr
    · exact h.held key row' owner hr hflight' howner
    · obtain ⟨-, -, -, hkeeps, -⟩ := Act.change_eq_ok hchange
      exact h.held key row owner hr hflight ((hkeeps hflight').symm.trans howner)
  case latest => exact h.latest
  case runs => exact h.runs
  case drawn => exact h.drawn
  case unique => exact h.unique
  case bound => exact fun c' hc' => (h.bound c' hc').kept hkept
  case claimed => exact hclaimed
  case acted => exact hacted

theorem Inv.crash (h : Inv setting s) {store : ℕ} (hs : step setting s (.crash store) = some s') :
    Inv setting s' ∧ s'.rows = s.rows ∧ s'.log = s.log := by
  obtain rfl := Option.some.inj hs
  refine ⟨?_, rfl, rfl⟩
  exact { h with runs := fun c hc => h.runs c (List.mem_filter.mp hc).1 }

theorem Inv.next (h : Inv setting s) {l : Label} (hs : step setting s l = some s') :
    Inv setting s' ∧ Kept s.rows s'.rows := by
  cases l with
  | claim c start now storage => exact h.claim hs
  | act c act storage => exact h.act hs
  | crash store =>
    obtain ⟨hinv, hrows, -⟩ := h.crash hs
    rw [hrows]
    exact ⟨hinv, .refl _⟩

/-- What an outcome says about one that comes after it. -/
structure Consistent (e e' : Outcome) : Prop where
  bound : ∀ store peer id envelopeHash storage store' envelopeHash' result,
    e = .claimed store peer id envelopeHash storage (.ok .new) →
    e' = .claimed store' peer id envelopeHash' (.ok ()) result →
    (result = .ok .mismatch ↔ envelopeHash' ≠ envelopeHash)
  duplicate : ∀ c act store' result, e = .acted c act (.ok ()) → act.isFinal = true →
    e' = .claimed store' c.peer c.id c.envelopeHash (.ok ()) result → result = .ok .duplicate
  once : ∀ c act c' act', e = .acted c act (.ok ()) → act.isFinal = true →
    e' = .acted c' act' (.ok ()) → act'.isFinal = true → ¬ (c'.peer = c.peer ∧ c'.id = c.id)

theorem Inv.consistent_claim (h : Inv setting s) {c : Claim} {start now : Millis}
    {storage : Except Thrown Unit} (hs : step setting s (.claim c start now storage) = some s') :
    ∃ e', s'.log = s.log ++ [e'] ∧ ∀ e ∈ s.log, Consistent e e' := by
  obtain ⟨-, -, result, state, hclaim, rfl⟩ := step_claim hs
  refine ⟨.claimed c.store c.peer c.id c.envelopeHash storage result, ?_, fun e he => ?_⟩
  · unfold System.claimed
    split <;> rfl
  constructor
  · rintro store peer id envelopeHash storage' store' envelopeHash' result' rfl heq
    obtain ⟨-, rfl, rfl, rfl, rfl, rfl⟩ := Outcome.claimed.inj heq
    obtain ⟨row, hrow, hbound⟩ := h.claimed _ _ _ _ _ he
    rw [claim_row hrow (h.rows _ row hrow) hclaim]
    have hhash : IsBound c.peer c.id c.envelopeHash row ↔ c.envelopeHash = envelopeHash :=
      ⟨fun h => h.2.2.symm.trans hbound.2.2, fun h => h ▸ hbound⟩
    obtain ⟨hother, hresult⟩ | ⟨hsame, -, hresult⟩ | ⟨hsame, -, hresult⟩ | ⟨hsame, -, hresult⟩ :=
      claimRow_some row
    · rw [hresult]
      simpa using fun h => hother (hhash.mpr h)
    · rw [hresult]
      simpa using hhash.mp hsame
    · rw [hresult]
      simpa using hhash.mp hsame
    · rw [hresult]
      simpa using hhash.mp hsame
  · rintro c' act store' result' rfl hfinal heq
    obtain ⟨-, hpeer, hid, hhash, rfl, rfl⟩ := Outcome.claimed.inj heq
    obtain ⟨row, hrow, hbound, hrowFinal⟩ := h.acted c' act he hfinal
    unfold Setting.key at hrow
    rw [← hpeer, ← hid] at hrow
    rw [← hpeer, ← hid, ← hhash] at hbound
    rw [claim_row hrow (h.rows _ row hrow) hclaim]
    obtain ⟨hother, -⟩ | ⟨-, -, hresult⟩ | ⟨-, hopen, -⟩ | ⟨-, hopen, -⟩ := claimRow_some row
    · exact absurd hbound hother
    · rw [hresult]
    · exact absurd hrowFinal hopen
    · exact absurd hrowFinal hopen
  · rintro _ _ _ _ - - heq
    cases heq

theorem Inv.consistent_act (h : Inv setting s) {c : Claim} {act : Act}
    {storage : Except Thrown Unit} (hs : step setting s (.act c act storage) = some s') :
    ∃ e', s'.log = s.log ++ [e'] ∧ ∀ e ∈ s.log, Consistent e e' := by
  obtain ⟨-, result, state, hperform, rfl⟩ := step_act hs
  refine ⟨.acted c act result, rfl, fun e he => ⟨?_, ?_, ?_⟩⟩
  · rintro _ _ _ _ _ _ _ _ - heq
    cases heq
  · rintro _ _ _ _ - - heq
    cases heq
  · rintro c₀ act₀ c' act' rfl hfinal heq hfinal' ⟨hpeer, hid⟩
    obtain ⟨rfl, rfl, rfl⟩ := Outcome.acted.inj heq
    obtain ⟨row, hrow, -, hrowFinal⟩ := h.acted c₀ act₀ he hfinal
    obtain ⟨row', -, hrow', hheld, -⟩ := (performed_perform hperform).final hfinal' rfl
    rw [hpeer, hid] at hrow'
    obtain rfl := Option.some.inj (hrow.symm.trans hrow')
    exact not_isFinal_of_isHeld hheld hrowFinal

theorem inv_of_reachable (h : (replaySystem setting).Reachable s) :
    Inv setting s ∧ s.log.Pairwise Consistent := by
  apply h.invariant (P := fun s => Inv setting s ∧ s.log.Pairwise Consistent)
  · exact ⟨inv_start, .nil⟩
  · rintro s l s' ⟨hinv, hlog⟩ hs
    refine ⟨(hinv.next hs).1, ?_⟩
    have happend : ∀ e', (∀ e ∈ s.log, Consistent e e') → (s.log ++ [e']).Pairwise Consistent := by
      intro e' he'
      rw [List.pairwise_append]
      refine ⟨hlog, List.pairwise_singleton .., fun e he e'' he'' => ?_⟩
      rw [List.mem_singleton.mp he'']
      exact he' e he
    cases l with
    | claim c start now storage =>
      obtain ⟨e', heq, he'⟩ := hinv.consistent_claim hs
      rw [heq]
      exact happend e' he'
    | act c act storage =>
      obtain ⟨e', heq, he'⟩ := hinv.consistent_act hs
      rw [heq]
      exact happend e' he'
    | crash store =>
      rw [(hinv.crash hs).2.2]
      exact hlog

theorem kept_of_exec {ls : List Label} (h : Inv setting s)
    (hexec : (replaySystem setting).exec s ls = some s') : Kept s.rows s'.rows := by
  induction ls generalizing s with
  | nil =>
    obtain rfl := Option.some.inj hexec
    exact .refl _
  | cons l ls ih =>
    obtain ⟨s₁, hs, hexec⟩ := Option.bind_eq_some_iff.mp hexec
    obtain ⟨hinv, hkept⟩ := h.next hs
    exact hkept.trans (ih hinv hexec)

/-- Another claim of the row was new since. -/
def Superseded (setting : Setting) (s : System) (c : Claim) : Prop :=
  s.latest (setting.key c) ≠ some c

/-- A run does not act while the row is in flight under a claim that another run of its store
made. -/
def Fenced (setting : Setting) (s : System) : Label → Prop
  | .act c _ _ => ∀ row owner, s.rows (setting.key c) = some row → row.state = .inFlight →
    row.claimOwner = some owner → s.owners c.store (setting.key c) = some owner → owner = c.owner
  | _ => True

/-- A superseded run that is fenced changes no row. -/
theorem Inv.fenced (h : Inv setting s) {c : Claim} {act : Act} {storage : Except Thrown Unit}
    (hs : step setting s (.act c act storage) = some s') (hsuperseded : Superseded setting s c)
    (hfenced : Fenced setting s (.act c act storage)) : s'.rows = s.rows := by
  obtain ⟨hrun, result, state, hperform, rfl⟩ := step_act hs
  obtain hsame | ⟨row, row', hrow, hheld, -⟩ := (performed_perform hperform).rows
  · exact hsame
  · simp only [isHeld, Bool.and_eq_true, decide_eq_true_eq] at hheld
    obtain ⟨hflight, howner⟩ := hheld
    obtain ⟨owner, hrowOwner⟩ := exists_owner (h.rows _ row hrow) hflight
    obtain rfl := hfenced row owner hrow hflight hrowOwner (howner.symm.trans hrowOwner)
    obtain ⟨c', hlatest, hc'⟩ := h.held _ row _ hrow hflight hrowOwner
    obtain rfl := h.unique c' (h.latest _ c' hlatest) c (h.runs c hrun) hc'
    exact absurd hlatest hsuperseded

/-- What holds of a run and of the state it reaches. -/
structure Protected (setting : Setting) (ls : List Label) (s : System) : Prop where
  log : s.log.Pairwise Consistent
  kept : ∀ before after s₁, ls = before ++ after →
    (replaySystem setting).exec .start before = some s₁ → Kept s₁.rows s.rows
  fenced : ∀ before c act storage after s₁ s₂, ls = before ++ .act c act storage :: after →
    (replaySystem setting).exec .start before = some s₁ →
    step setting s₁ (.act c act storage) = some s₂ → Superseded setting s₁ c → s₂.rows = s₁.rows

/-- Replay protection, in every run whose steps are fenced. -/
theorem replay_protected (setting : Setting) (ls : List Label) (s : System)
    (run : (replaySystem setting).Run (Fenced setting) ls s) : Protected setting ls s where
  log := (inv_of_reachable run.reachable).2
  kept := by
    rintro before after s₁ rfl hbefore
    obtain ⟨s₁', run₁, hexec⟩ := run.of_append
    obtain rfl := Option.some.inj (run₁.exec.symm.trans hbefore)
    exact kept_of_exec (inv_of_reachable run₁.reachable).1 hexec
  fenced := by
    rintro before c act storage after s₁ s₂ rfl hbefore hs hsuperseded
    rw [List.append_cons] at run
    obtain ⟨s₂', run₂, -⟩ := run.of_append
    obtain ⟨s₁', run₁, hfenced, hs'⟩ := run₂.of_concat
    obtain rfl := Option.some.inj (run₁.exec.symm.trans hbefore)
    exact (inv_of_reachable run₁.reachable).1.fenced hs hsuperseded hfenced

/-- SHA-256 gives this digest for the claims below. -/
def sampleBinding : Bytes :=
  [42, 126, 50, 190, 140, 119, 144, 193, 176, 158, 147, 195, 65, 251, 54, 211, 79, 178, 153,
    65, 27, 15, 9, 147, 72, 251, 195, 164, 166, 235, 114, 204]

def sampleSetting : Setting where
  crypto := { sampleCrypto with sha256 := fun _ => sampleBinding }
  bodyKey _ := sampleKey

def firstClaim : Claim :=
  ⟨0, ofString "alice", ofString "01ARZ3NDEKTSV4RRFFQ69G5FAV", ofString "c", ofString "first"⟩

def secondClaim : Claim := { firstClaim with owner := ofString "second" }

/-- The second run claims when the lease of the first has expired. -/
def takeover : List Label :=
  [.claim firstClaim ⟨0, by decide⟩ ⟨0, by decide⟩ (.ok ()),
    .claim secondClaim ⟨300000, by decide⟩ ⟨300000, by decide⟩ (.ok ())]

/-- The state of the row. -/
def rowState (s : System) : Option ReplayState :=
  (s.rows (sampleSetting.key firstClaim)).map (·.state)

theorem exec_takeover : ∃ s₁ s₂, (replaySystem sampleSetting).exec .start takeover = some s₁ ∧
    step sampleSetting s₁ (.act firstClaim .consume (.ok ())) = some s₂ ∧
    Superseded sampleSetting s₁ firstClaim ∧ rowState s₁ = some .inFlight ∧
    rowState s₂ = some .consumed := by
  refine ⟨_, _, rfl, rfl, ?_, rfl, rfl⟩
  unfold Superseded
  decide

/-- A superseded run consumes the claim of the run that took it over. -/
theorem replay_not_protected : ¬ ∀ (setting : Setting) (ls : List Label) (s : System),
    (replaySystem setting).Run (fun _ _ => True) ls s → Protected setting ls s := by
  intro h
  obtain ⟨s₁, s₂, hexec, hs, hsuperseded, hbefore, hafter⟩ := exec_takeover
  have run : (replaySystem sampleSetting).Run (fun _ _ => True)
      (takeover ++ [.act firstClaim .consume (.ok ())]) s₂ := .step (.append_exec .start hexec) trivial hs
  have hrows := (h sampleSetting _ s₂ run).fenced takeover firstClaim .consume (.ok ()) [] s₁ s₂ rfl
    hexec hs hsuperseded
  unfold rowState at hbefore hafter
  rw [hrows, hbefore] at hafter
  cases hafter

/-- One run claims and consumes, and another claim comes later. -/
def consumed : List Label :=
  [.claim firstClaim ⟨0, by decide⟩ ⟨0, by decide⟩ (.ok ()), .act firstClaim .consume (.ok ()),
    .claim secondClaim ⟨1, by decide⟩ ⟨1, by decide⟩ (.ok ())]

theorem run_consumed : ∃ s, (replaySystem sampleSetting).Run (Fenced sampleSetting) consumed s := by
  obtain ⟨s₁, s₂, s₃, h₁, h₂, h₃, howner⟩ : ∃ s₁ s₂ s₃,
      step sampleSetting .start (consumed[0]) = some s₁ ∧
      step sampleSetting s₁ (consumed[1]) = some s₂ ∧
      step sampleSetting s₂ (consumed[2]) = some s₃ ∧
      s₁.owners 0 (sampleSetting.key firstClaim) = some firstClaim.owner :=
    ⟨_, _, _, rfl, rfl, rfl, rfl⟩
  have hfenced : Fenced sampleSetting s₁ (consumed[1]) := by
    intro row owner _ _ _ hstore
    exact (Option.some.inj (howner.symm.trans hstore)).symm
  exact ⟨s₃, .step (.step (.step .start trivial h₁) hfenced h₂) trivial h₃⟩

theorem replay_protected_consumed :
    ∃ s, (replaySystem sampleSetting).Run (Fenced sampleSetting) consumed s ∧
      Protected sampleSetting consumed s := by
  obtain ⟨s, run⟩ := run_consumed
  exact ⟨s, run, replay_protected sampleSetting consumed s run⟩

end Flashclaw.Reef.SqliteReplay
