import Mathlib.Data.List.Nodup
import Mathlib.Data.List.Pairwise
import Flashclaw.StoreWriter.Machine

/-!
# The store writer queue: its invariant

The steps that keep writers exclusive and reentrant calls with their own writer,
and what every run of such steps keeps.  A queue that is between two tasks, or
was just created, is the hole of the invariant.
-/

namespace Flashclaw.StoreWriter

variable {ε τ : Type} {s : Runtime ε τ}

namespace Runtime

def startedOf (s : Runtime ε τ) (key : StoreKey) : List ℕ :=
  (s.started.filter fun q => q.2 = key).map Prod.fst

def queuedOf (s : Runtime ε τ) (key : StoreKey) : List ℕ :=
  (s.queued.filter fun q => q.2 = key).map Prod.fst

def pendingOf (s : Runtime ε τ) (key : StoreKey) : List StoreWriterTask :=
  match s.queues key with
  | none => []
  | some ref => (s.objects ref).pending

/-- The drain loop of the queue has its promise, or will have it when its first task's function
returns. -/
def Promised (s : Runtime ε τ) (ref : ℕ) : Prop :=
  (s.objects ref).drainPromise = true ∨ ∃ f ∈ s.stack, f.first = true ∧ f.queue = ref

/-- The call is queued. -/
def isQueued (s : Runtime ε τ) (context : Context) (key : StoreKey) (reentrant : Bool) : Bool :=
  decide (key.storePath ≠ "") && !(reentrant && isActiveStoreWriter s.active key context)

end Runtime

/-- A call that the queue serves as it should: a queued call is not made while the drain loop of
its path runs the function of its first task, nor starts a loop next to a reentrant function that
outlived its writer, and a reentrant call is in an active writer of its path for the code if it is
made inside of one. -/
structure CallOk (s : Runtime ε τ) (context : Context) (key : StoreKey) (reentrant : Bool) :
    Prop where
  returned : s.isQueued context key reentrant = true →
    ∀ f ∈ s.stack, f.first = true → s.queues key ≠ some f.queue
  settled : s.isQueued context key reentrant = true → s.queues key = none →
    ∀ e ∈ s.direct, e.key ≠ key
  agrees : reentrant = true →
    isActiveStoreWriter s.active key context = isInside s.active key context

/-- No loop starts a task next to a reentrant function that outlived its writer. -/
def StepOk (s : Runtime ε τ) : Label ε τ → Prop
  | .call context key _ reentrant => CallOk s context key reentrant
  | .drainResumes call => ∀ d ∈ s.drains, d.task.call = call → (s.objects d.queue).pending ≠ [] →
      ∀ e ∈ s.direct, e.key ≠ d.key
  | _ => True

/-- The writers of a context have started. -/
def Context.Known (started : List (ℕ × StoreKey)) : Context → Prop
  | .root => True
  | .writer call key parent caller =>
    (call, key) ∈ started ∧ parent.Known started ∧ caller.Known started

/-- Each queue of the map but the hole's has the one drain loop of its path. -/
structure Lanes (hole : Option StoreKey) (s : Runtime ε τ) : Prop where
  lane : ∀ key ref, s.queues key = some ref → hole ≠ some key →
    s.Promised ref ∧ ∃ d ∈ s.drains, d.key = key
  mapped : ∀ d ∈ s.drains, s.queues d.key = some d.queue ∧ hole ≠ some d.key
  exclusive : s.drains.Pairwise fun d d' => d.key ≠ d'.key
  refs : ∀ key ref, s.queues key = some ref → ref < s.nextObject
  injective : ∀ key key' ref, s.queues key = some ref → s.queues key' = some ref → key = key'
  unmapped : ∀ ref, (s.objects ref).pending ≠ [] → ∃ key, s.queues key = some ref

/-- Each of `n` calls is in one place. -/
structure Ids (n : ℕ) (s : Runtime ε τ) : Prop where
  places : ∀ id, (s.settled.map Prod.fst).count id + (s.drains.map (·.task.call)).count id +
      (s.direct.map (·.call)).count id + (s.queued.map Prod.fst).count id =
    (if id < n then 1 else 0) + (s.started.map Prod.fst).count id
  queuedLt : ∀ q ∈ s.queued, q.1 < n
  queuedNodup : (s.queued.map Prod.fst).Nodup
  order : ∀ key, s.startedOf key ++ (s.pendingOf key).map (·.call) = s.queuedOf key
  drainStarted : ∀ d ∈ s.drains, (d.task.call, d.key) ∈ s.started

/-- Outcomes are logged, waited for and settled alike. -/
structure Outcomes (s : Runtime ε τ) : Prop where
  active : ∀ id, id ∈ s.active ↔ ∃ d ∈ s.drains, d.task.call = id ∧ d.ended = none
  drained : ∀ d ∈ s.drains, ∀ o, d.ended = some o → (d.task.call, o) ∈ s.ended
  settled : ∀ id o, (id, .outcome o) ∈ s.settled → (id, o) ∈ s.ended
  ended : ∀ id o, (id, o) ∈ s.ended →
    (id, .outcome o) ∈ s.settled ∨ ∃ d ∈ s.drains, d.task.call = id ∧ d.ended = some o

/-- The functions on the stack are of active writers. -/
structure Frames (s : Runtime ε τ) : Prop where
  nodup : (s.stack.map (·.call)).Nodup
  active : ∀ f ∈ s.stack, f.call ∈ s.active

/-- Contexts are of writers that started, and reentrant calls are with their writers. -/
structure Contexts (s : Runtime ε τ) : Prop where
  known : ∀ c ∈ s.contexts, c.Known s.started
  pendingKnown : ∀ key, ∀ task ∈ s.pendingOf key, task.context.Known s.started
  drainKnown : ∀ d ∈ s.drains, d.context.Known s.started
  alone : ∀ call key parent caller, .writer call key parent caller ∈ s.contexts →
    isActiveStoreWriter s.active key parent = false
  waiting : ∀ key, ∀ task ∈ s.pendingOf key, task.reentrant = true →
    isInside s.active key task.context = false
  inside : ∀ e ∈ s.direct, ∀ d ∈ s.drains, d.ended = none → d.key = e.key →
    d.task.call ∈ e.context.callers

structure Wf (hole : Option StoreKey) (n : ℕ) (s : Runtime ε τ) : Prop where
  microtasks : s.microtasks = []
  lanes : Lanes hole s
  ids : Ids n s
  outcomes : Outcomes s
  frames : Frames s
  contexts : Contexts s

theorem wf_initial : Wf none 0 (.initial : Runtime ε τ) := by
  refine ⟨rfl, ?_, ?_, ?_, ?_, ?_⟩
  · constructor <;> simp [Runtime.initial]
  · constructor <;> simp [Runtime.initial, Runtime.startedOf, Runtime.pendingOf, Runtime.queuedOf]
  · constructor <;> simp [Runtime.initial]
  · constructor <;> simp [Runtime.initial]
  · constructor <;> simp [Runtime.initial, Runtime.pendingOf]

section Ids

variable {n : ℕ}

theorem mem_startedOf {key : StoreKey} {id : ℕ} : id ∈ s.startedOf key ↔ (id, key) ∈ s.started := by
  simp [Runtime.startedOf]

theorem mem_queuedOf {key : StoreKey} {id : ℕ} : id ∈ s.queuedOf key ↔ (id, key) ∈ s.queued := by
  simp [Runtime.queuedOf]

/-- A call is queued for one path. -/
theorem Ids.key_unique (h : Ids n s) {id : ℕ} {key key' : StoreKey} (hq : (id, key) ∈ s.queued)
    (hq' : (id, key') ∈ s.queued) : key = key' := by
  have heq := List.inj_on_of_nodup_map h.queuedNodup hq hq' rfl
  exact congrArg Prod.snd heq

theorem Ids.queued_of_started (h : Ids n s) {id : ℕ} {key : StoreKey}
    (hs : (id, key) ∈ s.started) : (id, key) ∈ s.queued := by
  rw [← mem_queuedOf, ← h.order key]
  exact List.mem_append_left _ (mem_startedOf.mpr hs)

theorem Ids.queued_of_pending (h : Ids n s) {key : StoreKey} {task : StoreWriterTask}
    (ht : task ∈ s.pendingOf key) : (task.call, key) ∈ s.queued := by
  rw [← mem_queuedOf, ← h.order key]
  exact List.mem_append_right _ (List.mem_map_of_mem ht)

theorem Ids.queuedOf_nodup (h : Ids n s) (key : StoreKey) : (s.queuedOf key).Nodup :=
  h.queuedNodup.sublist (List.filter_sublist.map Prod.fst)

/-- A task that is pending did not start. -/
theorem Ids.not_started (h : Ids n s) {key key' : StoreKey} {task : StoreWriterTask}
    (ht : task ∈ s.pendingOf key) : (task.call, key') ∉ s.started := by
  intro hs
  obtain rfl := h.key_unique (h.queued_of_pending ht) (h.queued_of_started hs)
  have hnodup := h.queuedOf_nodup key
  rw [← h.order key] at hnodup
  exact List.disjoint_of_nodup_append hnodup (mem_startedOf.mpr hs) (List.mem_map_of_mem ht)

theorem count_concat (ids : List ℕ) (a id : ℕ) :
    (ids ++ [a]).count id = ids.count id + if a = id then 1 else 0 := by
  simp [List.count_append, List.count_singleton]

/-- Erasing the first element with an id takes the id away once. -/
theorem count_map_eraseP {α : Type} (f : α → ℕ) {l : List α} {a : α} (ha : a ∈ l) (id : ℕ) :
    ((l.eraseP fun b => f b = f a).map f).count id + (if f a = id then 1 else 0) =
      (l.map f).count id := by
  obtain ⟨b, l₁, l₂, -, hb, hl, herase⟩ :=
    List.exists_of_eraseP ha (p := fun b => f b = f a) (by simp)
  rw [herase, hl]
  simp only [decide_eq_true_eq] at hb
  simp only [List.map_append, List.map_cons, List.count_append, List.count_cons, hb, beq_iff_eq]
  omega

/-- Of the pairs with a value, the keys are counted as the pairs are. -/
theorem count_filter_map_fst (started : List (ℕ × StoreKey)) (id : ℕ) (key : StoreKey) :
    ((started.filter fun q => q.2 = key).map Prod.fst).count id = started.count (id, key) := by
  induction started with
  | nil => rfl
  | cons q started ih =>
    obtain ⟨id', key'⟩ := q
    by_cases hkey : key' = key
    · subst hkey
      by_cases hid : id' = id
      · subst hid
        simp [ih]
      · simp [ih, hid]
    · simp [ih, hkey]

theorem Ids.started_nodup (h : Ids n s) : (s.started.map Prod.fst).Nodup := by
  apply List.Nodup.map_on
  · rintro ⟨id, key⟩ hs ⟨id', key'⟩ hs' rfl
    rw [h.key_unique (h.queued_of_started hs) (h.queued_of_started hs')]
  · rw [List.nodup_iff_count_le_one]
    rintro ⟨id, key⟩
    have hnodup := h.queuedOf_nodup key
    rw [← h.order key] at hnodup
    rw [← count_filter_map_fst]
    exact List.nodup_iff_count_le_one.mp (List.nodup_append.mp hnodup).1 id

theorem Ids.count_started_le (h : Ids n s) (id : ℕ) :
    (s.started.map Prod.fst).count id ≤ (s.queued.map Prod.fst).count id ∧
      (s.queued.map Prod.fst).count id ≤ if id < n then 1 else 0 := by
  have hstarted := List.nodup_iff_count_le_one.mp h.started_nodup id
  have hqueued := List.nodup_iff_count_le_one.mp h.queuedNodup id
  constructor
  · by_cases hmem : id ∈ s.started.map Prod.fst
    · obtain ⟨q, hq, rfl⟩ := List.mem_map.mp hmem
      have hpos : 0 < (s.queued.map Prod.fst).count q.1 :=
        List.count_pos_iff.mpr (List.mem_map_of_mem (h.queued_of_started hq))
      omega
    · rw [List.count_eq_zero_of_not_mem hmem]
      exact Nat.zero_le _
  · by_cases hmem : id ∈ s.queued.map Prod.fst
    · obtain ⟨q, hq, rfl⟩ := List.mem_map.mp hmem
      rw [if_pos (h.queuedLt q hq)]
      exact hqueued
    · rw [List.count_eq_zero_of_not_mem hmem]
      exact Nat.zero_le _

/-- No call is in two places. -/
theorem Ids.count_le_one (h : Ids n s) (id : ℕ) :
    (s.settled.map Prod.fst).count id + (s.drains.map (·.task.call)).count id +
      (s.direct.map (·.call)).count id ≤ 1 := by
  have hcount := h.places id
  obtain ⟨hstarted, hqueued⟩ := h.count_started_le id
  split at hcount <;> omega

theorem Ids.drains_nodup (h : Ids n s) : (s.drains.map (·.task.call)).Nodup := by
  rw [List.nodup_iff_count_le_one]
  intro id
  have hle := h.count_le_one id
  omega

theorem Ids.settled_nodup (h : Ids n s) : (s.settled.map Prod.fst).Nodup := by
  rw [List.nodup_iff_count_le_one]
  intro id
  have hle := h.count_le_one id
  omega

theorem Ids.not_settled_of_drain (h : Ids n s) {d : Drain ε τ} (hd : d ∈ s.drains) :
    d.task.call ∉ s.settled.map Prod.fst := by
  intro hsettled
  have hle := h.count_le_one d.task.call
  have hpos := List.count_pos_iff.mpr hsettled
  have hpos' : 0 < (s.drains.map (·.task.call)).count d.task.call :=
    List.count_pos_iff.mpr (List.mem_map_of_mem hd)
  omega

/-- A drain loop is the only one that waits for its call. -/
theorem Ids.drain_unique (h : Ids n s) {d d' : Drain ε τ} (hd : d ∈ s.drains) (hd' : d' ∈ s.drains)
    (heq : d.task.call = d'.task.call) : d = d' :=
  List.inj_on_of_nodup_map h.drains_nodup hd hd' heq

/-- Every call is settled, waits in its queue, or is waited for. -/
theorem Ids.accounted (h : Ids n s) {id : ℕ} (hid : id < n) :
    id ∈ s.settled.map Prod.fst ∨ id ∈ s.drains.map (·.task.call) ∨ id ∈ s.direct.map (·.call) ∨
      ∃ key, ∃ task ∈ s.pendingOf key, task.call = id := by
  have hcount := h.places id
  rw [if_pos hid] at hcount
  by_cases hplace : 0 < (s.settled.map Prod.fst).count id +
      (s.drains.map (·.task.call)).count id + (s.direct.map (·.call)).count id
  · have hone : 0 < (s.settled.map Prod.fst).count id ∨
        0 < (s.drains.map (·.task.call)).count id ∨ 0 < (s.direct.map (·.call)).count id := by
      omega
    obtain hone | hone | hone := hone
    · exact .inl (List.count_pos_iff.mp hone)
    · exact .inr (.inl (List.count_pos_iff.mp hone))
    · exact .inr (.inr (.inl (List.count_pos_iff.mp hone)))
  · have hqueued : id ∈ s.queued.map Prod.fst := List.count_pos_iff.mp (by omega)
    have hstarted : id ∉ s.started.map Prod.fst := by
      rw [← List.count_eq_zero]
      obtain ⟨-, hle⟩ := h.count_started_le id
      rw [if_pos hid] at hle
      omega
    obtain ⟨⟨id, key⟩, hq, rfl⟩ := List.mem_map.mp hqueued
    rw [← mem_queuedOf, ← h.order key, List.mem_append, mem_startedOf, List.mem_map] at hq
    obtain hq | ⟨task, htask, hcall⟩ := hq
    · exact absurd (List.mem_map_of_mem hq) hstarted
    · exact .inr (.inr (.inr ⟨key, task, htask, hcall⟩))

end Ids

section Contexts

variable {started started' : List (ℕ × StoreKey)} {active : Finset ℕ} {id : ℕ} {key : StoreKey}
  {context : Context}

theorem Context.Known.mono (hsub : started ⊆ started') (h : context.Known started) :
    context.Known started' := by
  induction context with
  | root => trivial
  | writer call key' parent caller ihParent ihCaller =>
    obtain ⟨hmem, hparent, hcaller⟩ := h
    exact ⟨hsub hmem, ihParent hparent, ihCaller hcaller⟩

/-- A writer that did not start is in no context. -/
theorem isActiveStoreWriter_insert (h : context.Known started) (hfresh : ∀ key, (id, key) ∉ started) :
    isActiveStoreWriter (insert id active) key context = isActiveStoreWriter active key context := by
  induction context with
  | root => rfl
  | writer call key' parent caller ihParent _ =>
    have hne : call ≠ id := fun heq => hfresh key' (heq ▸ h.1)
    simp only [isActiveStoreWriter, ihParent h.2.1, Finset.mem_insert, hne, false_or]

theorem isInside_insert (h : context.Known started) (hfresh : ∀ key, (id, key) ∉ started) :
    isInside (insert id active) key context = isInside active key context := by
  induction context with
  | root => rfl
  | writer call key' parent caller _ ihCaller =>
    have hne : call ≠ id := fun heq => hfresh key' (heq ▸ h.1)
    simp only [isInside, ihCaller h.2.2, Finset.mem_insert, hne, false_or]

theorem isActiveStoreWriter_erase (h : isActiveStoreWriter active key context = false) :
    isActiveStoreWriter (active.erase id) key context = false := by
  induction context with
  | root => rfl
  | writer call key' parent caller ihParent _ =>
    simp only [isActiveStoreWriter, Bool.or_eq_false_iff, Bool.and_eq_false_iff,
      decide_eq_false_iff_not] at h ⊢
    exact ⟨h.1.imp_left fun hnot hmem => hnot (Finset.mem_of_mem_erase hmem), ihParent h.2⟩

theorem isInside_erase (h : isInside active key context = false) :
    isInside (active.erase id) key context = false := by
  induction context with
  | root => rfl
  | writer call key' parent caller _ ihCaller =>
    simp only [isInside, Bool.or_eq_false_iff, Bool.and_eq_false_iff,
      decide_eq_false_iff_not] at h ⊢
    exact ⟨h.1.imp_left fun hnot hmem => hnot (Finset.mem_of_mem_erase hmem), ihCaller h.2⟩

theorem exists_of_isActiveStoreWriter (h : context.Known started)
    (hactive : isActiveStoreWriter active key context = true) :
    ∃ id ∈ active, (id, key) ∈ started := by
  induction context with
  | root => cases hactive
  | writer call key' parent caller ihParent _ =>
    simp only [isActiveStoreWriter, Bool.or_eq_true, Bool.and_eq_true, decide_eq_true_eq] at hactive
    obtain ⟨hmem, rfl⟩ | hparent := hactive
    · exact ⟨call, hmem, h.1⟩
    · exact ihParent h.2.1 hparent

theorem exists_of_isInside (h : context.Known started) (hinside : isInside active key context = true) :
    ∃ id ∈ active, (id, key) ∈ started ∧ id ∈ context.callers := by
  induction context with
  | root => cases hinside
  | writer call key' parent caller _ ihCaller =>
    simp only [isInside, Bool.or_eq_true, Bool.and_eq_true, decide_eq_true_eq] at hinside
    obtain ⟨hmem, rfl⟩ | hcaller := hinside
    · exact ⟨call, hmem, h.1, List.mem_cons_self⟩
    · obtain ⟨id, hid, hstarted, hcallers⟩ := ihCaller h.2.2 hcaller
      exact ⟨id, hid, hstarted, List.mem_cons_of_mem _ hcallers⟩

end Contexts

end Flashclaw.StoreWriter
