import Mathlib.Data.List.Induction
import Mathlib.Data.List.Perm.Basic
import Mathlib.Logic.Function.Basic

/-! `kernel/workqueue.c`: the ring of deferred work, and what becomes of every item that is accepted. -/

namespace Galio

open Function List Option

def workqueueMaxItems : Nat := 64

/-- `work_item_t`: the addresses of a function and of its argument, 0 for `NULL`. -/
structure WorkItem where
  function : UInt64 := 0
  arg : UInt64 := 0
  deriving DecidableEq

/-- `work_items`, `work_head` and `work_tail`. -/
structure Workqueue where
  items : Nat → WorkItem
  head : Nat
  tail : Nat

def workqueueInit : Workqueue := ⟨fun _ => {}, 0, 0⟩

/-- `workqueue_schedule`: whether the item is accepted. -/
def workqueueSchedule (queue : Workqueue) (item : WorkItem) : Workqueue × Bool :=
  if item.function = 0 then (queue, false)
  else
    let next := (queue.tail + 1) % workqueueMaxItems
    if next = queue.head then (queue, false)
    else ({ queue with items := Function.update queue.items queue.tail item, tail := next }, true)

/-- The ring without the item at its head. -/
def Workqueue.advance (queue : Workqueue) : Workqueue :=
  { queue with
    items := Function.update queue.items queue.head {}
    head := (queue.head + 1) % workqueueMaxItems }

/-- The first loop of `workqueue_filter` and `workqueue_flush_fn`: what is pending. -/
def Workqueue.drain (queue : Workqueue) (pending : List WorkItem) : Nat → Workqueue × List WorkItem
  | 0 => (queue, pending)
  | turns + 1 =>
    if queue.head = queue.tail then (queue, pending)
    else queue.advance.drain (pending ++ [queue.items queue.head]) turns

/-- An item put at the end of an array on the stack, if there is room. -/
def putItem (array : List WorkItem) (item : WorkItem) : List WorkItem :=
  if array.length < workqueueMaxItems then array ++ [item] else array

/-- The second loop: the items kept, and what is made of the equal ones. -/
def splitItems {Found : Type} (found : Found → WorkItem → Found) (item : WorkItem) :
    List WorkItem → List WorkItem × Found → List WorkItem × Found
  | [], split => split
  | next :: pending, (kept, matching) =>
    splitItems found item pending (if next = item then (kept, found matching next) else (putItem kept next, matching))

/-- The ring emptied, split and filled again from its first place. -/
def Workqueue.rebuild {Found : Type} (queue : Workqueue) (found : Found → WorkItem → Found) (start : Found)
    (item : WorkItem) : Workqueue × Found :=
  let drained := queue.drain [] workqueueMaxItems
  let split := splitItems found item drained.2 ([], start)
  (⟨fun i => split.1[i]?.getD (drained.1.items i), 0, split.1.length⟩, split.2)

/-- `workqueue_cancel` with `workqueue_filter`: the number of items removed. -/
def workqueueCancel (queue : Workqueue) (item : WorkItem) : Workqueue × Option Nat :=
  if item.function = 0 then (queue, none)
  else
    let filtered := queue.rebuild (fun removed _ => removed + 1) 0 item
    (filtered.1, some filtered.2)

/-- `workqueue_flush_fn` up to its calls: the items that are then called. -/
def workqueueFlushFn (queue : Workqueue) (item : WorkItem) : Workqueue × Option (List WorkItem) :=
  if item.function = 0 then (queue, none)
  else
    let flushed := queue.rebuild putItem [] item
    (flushed.1, some flushed.2)

/-- A turn of `workqueue_run`: the item whose function is then called. -/
def workqueueRunStep (queue : Workqueue) : Workqueue × Option WorkItem :=
  if queue.head = queue.tail then (queue, none) else (queue.advance, some (queue.items queue.head))

/-- The queue, the calls each flush has still to make, and what became of items. -/
structure WorkSystem where
  queue : Workqueue
  flushes : List (List WorkItem)
  accepted : List WorkItem
  calls : List WorkItem
  cancelled : List WorkItem

/-- The steps that kernel code, interrupts and work functions interleave; `call` is a flush's next call. -/
inductive WorkOp where
  | schedule (item : WorkItem)
  | cancel (item : WorkItem)
  | flush (item : WorkItem)
  | run
  | call (flush : Nat)

/-- One step. -/
def WorkSystem.step (system : WorkSystem) : WorkOp → WorkSystem
  | .schedule item =>
    let scheduled := workqueueSchedule system.queue item
    { system with queue := scheduled.1, accepted := system.accepted ++ if scheduled.2 then [item] else [] }
  | .cancel item =>
    let cancelled := workqueueCancel system.queue item
    { system with
      queue := cancelled.1, cancelled := system.cancelled ++ List.replicate (cancelled.2.getD 0) item }
  | .flush item =>
    let flushed := workqueueFlushFn system.queue item
    { system with queue := flushed.1, flushes := system.flushes ++ [flushed.2.getD []] }
  | .run =>
    let taken := workqueueRunStep system.queue
    { system with queue := taken.1, calls := system.calls ++ taken.2.toList }
  | .call flush =>
    { system with
      flushes := system.flushes.modify flush List.tail
      calls := system.calls ++ (system.flushes[flush]?.bind List.head?).toList }

/-- The system some steps after `workqueue_init`. -/
def workSystem (ops : List WorkOp) : WorkSystem := ops.foldl WorkSystem.step ⟨workqueueInit, [], [], [], []⟩

/-- What a step makes of the queue as a list: first in first out, equal items removed together. -/
def queueStep (waiting : List WorkItem) : WorkOp → List WorkItem
  | .schedule item => if item.function ≠ 0 ∧ waiting.length < 63 then waiting ++ [item] else waiting
  | .cancel item | .flush item => if item.function = 0 then waiting else waiting.filter (· ≠ item)
  | .run => waiting.tail
  | .call _ => waiting

/-- The list some steps after the start. -/
def queueAfter (ops : List WorkOp) : List WorkItem := ops.foldl queueStep []

/-- The ring holds a list of items, the oldest at its head. -/
structure Workqueue.Holds (queue : Workqueue) (waiting : List WorkItem) : Prop where
  head : queue.head < 64
  tail : queue.tail = (queue.head + waiting.length) % 64
  room : waiting.length < 64
  items : ∀ k item, waiting[k]? = some item → queue.items ((queue.head + k) % 64) = item

variable {queue : Workqueue} {waiting : List WorkItem}

namespace Workqueue.Holds

lemma empty_iff (holds : queue.Holds waiting) : queue.head = queue.tail ↔ waiting = [] := by
  have := holds.tail
  have := holds.head
  have := holds.room
  rw [← length_eq_zero_iff]
  omega

lemma schedule (holds : queue.Holds waiting) (item : WorkItem) :
    (workqueueSchedule queue item).2 = decide (item.function ≠ 0 ∧ waiting.length < 63) ∧
    (workqueueSchedule queue item).1.Holds
      (if item.function ≠ 0 ∧ waiting.length < 63 then waiting ++ [item] else waiting) := by
  have tail := holds.tail
  have head := holds.head
  have room := holds.room
  by_cases given : item.function = 0
  · simp [workqueueSchedule, given, holds]
  by_cases full : (queue.tail + 1) % 64 = queue.head
  · have : ¬waiting.length < 63 := by omega
    simp [workqueueSchedule, workqueueMaxItems, full, this, holds]
  have free : waiting.length < 63 := by omega
  simp only [workqueueSchedule, given, workqueueMaxItems, full, free, if_false, ne_eq, not_false_eq_true,
    decide_true, if_true, true_and]
  refine ⟨head, ?_, ?_, ?_⟩
  · simp only [length_append, length_singleton]
    omega
  · simpa using by omega
  · intro k old found
    show update queue.items queue.tail item ((queue.head + k) % 64) = old
    -- The new item stands at the tail, which is no place of an item that waits.
    rcases Nat.lt_trichotomy k waiting.length with inside | rfl | beyond
    · rw [update_of_ne (by omega)]
      rw [getElem?_append_left inside] at found
      exact holds.items k old found
    · rw [← tail]
      simpa using found
    · rw [getElem?_eq_none (by simpa using Nat.succ_le_of_lt beyond)] at found
      simp at found

lemma advance {item : WorkItem} (holds : queue.Holds (item :: waiting)) :
    queue.items queue.head = item ∧ queue.advance.Holds waiting := by
  have head := holds.head
  have tail := holds.tail
  have room := holds.room
  rw [length_cons] at tail room
  constructor
  · have first := holds.items 0 item rfl
    rwa [Nat.add_zero, Nat.mod_eq_of_lt head] at first
  · refine ⟨Nat.mod_lt _ (by decide), ?_, by omega, ?_⟩
    · simp only [Workqueue.advance, workqueueMaxItems]
      omega
    · intro k old found
      have inside : k < waiting.length := (List.getElem?_eq_some_iff.mp found).1
      have place : ((queue.head + 1) % 64 + k) % 64 = (queue.head + (k + 1)) % 64 := by omega
      simp only [Workqueue.advance, workqueueMaxItems, place]
      rw [update_of_ne (by omega)]
      exact holds.items (k + 1) old (by simpa using found)

lemma drain (holds : queue.Holds waiting) (pending : List WorkItem) (turns : Nat)
    (enough : waiting.length ≤ turns) : (queue.drain pending turns).1.head = (queue.drain pending turns).1.tail ∧
      (queue.drain pending turns).2 = pending ++ waiting := by
  induction turns generalizing queue waiting pending with
  | zero =>
    obtain rfl := length_eq_zero_iff.mp (Nat.le_zero.mp enough)
    exact ⟨holds.empty_iff.mpr rfl, (append_nil _).symm⟩
  | succ turns ih =>
    cases waiting with
    | nil => simp [Workqueue.drain, holds.empty_iff.mpr rfl]
    | cons item rest =>
      have busy : queue.head ≠ queue.tail := fun same => cons_ne_nil _ _ (holds.empty_iff.mp same)
      simp only [Workqueue.drain, if_neg busy]
      have later := ih holds.advance.2 (pending ++ [queue.items queue.head]) (Nat.le_of_succ_le_succ enough)
      exact ⟨later.1, later.2.trans (by simp [holds.advance.1])⟩

end Workqueue.Holds

lemma putItem_of_lt {array : List WorkItem} (room : array.length < 64) (item : WorkItem) :
    putItem array item = array ++ [item] := if_pos room

variable {Found : Type}

lemma splitItems_eq (found : Found → WorkItem → Found) (item : WorkItem) (pending : List WorkItem)
    (kept : List WorkItem) (matching : Found) (room : kept.length + pending.length ≤ 64) :
    splitItems found item pending (kept, matching) =
      (kept ++ pending.filter (· ≠ item), (pending.filter (· = item)).foldl found matching) := by
  induction pending generalizing kept matching with
  | nil => simp [splitItems]
  | cons next rest ih =>
    rw [length_cons] at room
    by_cases same : next = item
    · simp only [splitItems, if_pos same]
      rw [ih _ _ (by omega)]
      simp [same]
    · simp only [splitItems, if_neg same]
      rw [putItem_of_lt (by omega), ih _ _ (by simpa using by omega)]
      simp [same]

lemma foldl_putItem (items array : List WorkItem) (room : array.length + items.length ≤ 64) :
    items.foldl putItem array = array ++ items := by
  induction items generalizing array with
  | nil => simp
  | cons item rest ih =>
    rw [length_cons] at room
    rw [foldl_cons, putItem_of_lt (by omega), ih _ (by simpa using by omega)]
    simp

lemma Workqueue.Holds.rebuild
    (holds : queue.Holds waiting) (found : Found → WorkItem → Found) (start : Found) (item : WorkItem) :
    (queue.rebuild found start item).1.Holds (waiting.filter (· ≠ item)) ∧
      (queue.rebuild found start item).2 = (waiting.filter (· = item)).foldl found start := by
  have room := holds.room
  have drained := (holds.drain [] 64 (by omega)).2
  have split := splitItems_eq found item waiting [] start (by simpa using by omega)
  rw [nil_append] at drained split
  have short := length_filter_le (fun next => decide (next ≠ item)) waiting
  simp only [Workqueue.rebuild, workqueueMaxItems, drained, split, and_true]
  refine ⟨Nat.zero_lt_succ _, ?_, by omega, ?_⟩
  · simp only [Nat.zero_add]
    rw [Nat.mod_eq_of_lt (by omega)]
  · intro k old here
    have inside : k < _ := (List.getElem?_eq_some_iff.mp here).1
    simp only [Nat.zero_add]
    rw [Nat.mod_eq_of_lt (by omega), here, getD_some]

/-- Each accepted item waits, in order, is held by a flush, was called or was cancelled. -/
structure WorkSystem.Accounts (system : WorkSystem) (waiting : List WorkItem) : Prop where
  queue : system.queue.Holds waiting
  ordered : waiting.Sublist system.accepted
  once : system.accepted.Perm (waiting ++ system.flushes.flatten ++ system.calls ++ system.cancelled)

lemma perm_flatten_tail (held : List (List WorkItem)) (flush : Nat) :
    held.flatten.Perm ((held.modify flush tail).flatten ++ (held[flush]?.bind head?).toList) := by
  induction held generalizing flush with
  | nil => simp
  | cons first rest ih =>
    cases flush with
    | zero =>
      cases first with
      | nil => simp
      | cons item later => simpa using (perm_append_comm : ([item] ++ (later ++ rest.flatten)).Perm _)
    | succ flush => simpa using (ih flush).append_left first

namespace WorkSystem.Accounts

variable {system : WorkSystem}

lemma moved (accounts : system.Accounts waiting) {after : WorkSystem} {left : List WorkItem}
    (queue : after.queue.Holds left) (sublist : left.Sublist waiting) (accepted : after.accepted = system.accepted)
    (counts : ∀ item, left.count item + after.flushes.flatten.count item + after.calls.count item +
      after.cancelled.count item = waiting.count item + system.flushes.flatten.count item +
      system.calls.count item + system.cancelled.count item) : after.Accounts left := by
  refine ⟨queue, accepted ▸ sublist.trans accounts.ordered, perm_iff_count.mpr fun item => ?_⟩
  have before := accounts.once.count_eq item
  have count := counts item
  simp only [count_append, accepted] at before ⊢
  omega

lemma schedule (accounts : system.Accounts waiting) (item : WorkItem) :
    (system.step (.schedule item)).Accounts (queueStep waiting (.schedule item)) := by
  obtain ⟨answer, holds⟩ := accounts.queue.schedule item
  simp only [WorkSystem.step, queueStep, answer]
  by_cases accepts : item.function ≠ 0 ∧ waiting.length < 63
  · simp only [if_pos accepts, decide_eq_true accepts, if_true] at holds ⊢
    refine ⟨holds, accounts.ordered.append (List.Sublist.refl _), perm_iff_count.mpr fun other => ?_⟩
    have before := accounts.once.count_eq other
    simp only [count_append] at before ⊢
    omega
  · simp only [if_neg accepts, decide_eq_false accepts] at holds ⊢
    simpa using { accounts with queue := holds }

lemma count_split (waiting : List WorkItem) (item other : WorkItem) :
    waiting.count other = (waiting.filter (· ≠ item)).count other + (waiting.filter (· = item)).count other := by
  have count := (filter_append_perm (fun next => decide (next = item)) waiting).count_eq other
  simp only [count_append, decide_not] at count ⊢
  omega

section

variable (accounts : system.Accounts waiting)
include accounts

lemma cancel (item : WorkItem) : (system.step (.cancel item)).Accounts (queueStep waiting (.cancel item)) := by
  by_cases given : item.function = 0
  · simpa [WorkSystem.step, queueStep, workqueueCancel, given] using accounts
  obtain ⟨holds, removed⟩ := accounts.queue.rebuild (fun removed _ => removed + 1) 0 item
  have equal : waiting.filter (· = item) = replicate (waiting.filter (· = item)).length item :=
    eq_replicate_of_mem fun next member => by simpa using (mem_filter.mp member).2
  have length : (system.queue.rebuild (fun removed _ => removed + 1) 0 item).2 = (waiting.filter (· = item)).length :=
    removed.trans (by simp)
  simp only [WorkSystem.step, queueStep, workqueueCancel, if_neg given]
  refine accounts.moved holds filter_sublist rfl fun other => ?_
  have split := count_split waiting item other
  simp only [length, getD_some, ← equal, count_append]
  omega

lemma flush (item : WorkItem) : (system.step (.flush item)).Accounts (queueStep waiting (.flush item)) := by
  by_cases given : item.function = 0
  · simp only [WorkSystem.step, queueStep, workqueueFlushFn, if_pos given]
    exact accounts.moved accounts.queue (List.Sublist.refl _) rfl fun other => by simp
  obtain ⟨holds, matching⟩ := accounts.queue.rebuild putItem [] item
  have short := length_filter_le (fun next => decide (next = item)) waiting
  have room := accounts.queue.room
  rw [foldl_putItem _ _ (by simpa using by omega), nil_append] at matching
  simp only [WorkSystem.step, queueStep, workqueueFlushFn, if_neg given]
  refine accounts.moved holds filter_sublist rfl fun other => ?_
  have split := count_split waiting item other
  simp only [matching, flatten_append, count_append, getD_some, flatten_singleton]
  omega

lemma run : (system.step .run).Accounts (queueStep waiting .run) ∧
      (system.step .run).calls = system.calls ++ waiting.head?.toList := by
  have holds := accounts.queue
  cases waiting with
  | nil => simpa [WorkSystem.step, queueStep, workqueueRunStep, holds.empty_iff] using accounts
  | cons item rest =>
    have busy : system.queue.head ≠ system.queue.tail := fun same => cons_ne_nil _ _ (holds.empty_iff.mp same)
    obtain ⟨first, left⟩ := holds.advance
    simp only [WorkSystem.step, queueStep, workqueueRunStep, if_neg busy, first]
    refine ⟨accounts.moved left (sublist_cons_self _ _) rfl fun other => ?_, rfl⟩
    simp only [count_append, count_cons, count_nil, toList_some, tail_cons]
    omega

lemma call (flush : Nat) : (system.step (.call flush)).Accounts (queueStep waiting (.call flush)) := by
  refine accounts.moved accounts.queue (List.Sublist.refl _) rfl fun other => ?_
  have held := (perm_flatten_tail system.flushes flush).count_eq other
  simp only [WorkSystem.step, queueStep, count_append] at held ⊢
  omega

lemma step (op : WorkOp) : (system.step op).Accounts (queueStep waiting op) := by
  cases op with
  | schedule item => exact accounts.schedule item
  | cancel item => exact accounts.cancel item
  | flush item => exact accounts.flush item
  | run => exact accounts.run.1
  | call flush => exact accounts.call flush

end

end WorkSystem.Accounts

lemma workSystem_accounts (ops : List WorkOp) : (workSystem ops).Accounts (queueAfter ops) := by
  -- Steps are taken at the end of the list, so that the induction is from its last step.
  induction ops using reverseRecOn with
  | nil => exact ⟨⟨by decide, rfl, by decide, fun k item found => by cases found⟩, .slnil, .nil⟩
  | append_singleton ops op ih =>
    rw [workSystem, queueAfter, foldl_append, foldl_append]
    exact ih.step op

/--
The queue holds, in order, the accepted items that were not called, cancelled or taken by a flush.

Each accepted item is in one of these places, and the items that a flush took are called by it one after another.
-/
theorem workqueue_keeps_items (ops : List WorkOp) :
    (queueAfter ops).length ≤ 63 ∧ (workSystem ops).queue.Holds (queueAfter ops) ∧
    (queueAfter ops).Sublist (workSystem ops).accepted ∧
    (workSystem ops).accepted.Perm (queueAfter ops ++ (workSystem ops).flushes.flatten ++
      (workSystem ops).calls ++ (workSystem ops).cancelled) ∧
    (workSystem (ops ++ [.run])).calls = (workSystem ops).calls ++ (queueAfter ops).head?.toList := by
  have accounts := workSystem_accounts ops
  refine ⟨Nat.le_of_lt_succ accounts.queue.room, accounts.queue, accounts.ordered, accounts.once, ?_⟩
  rw [workSystem, foldl_append]
  exact accounts.run.2

/-- While a flush calls the first of two equal items, the second is neither in the queue nor called nor cancelled. -/
theorem workqueue_flush_hides_item :
    ∃ ops, (workSystem ops).accepted = [⟨1, 0⟩, ⟨1, 0⟩] ∧ (workSystem ops).calls = [⟨1, 0⟩] ∧
      (workSystem ops).cancelled = [] ∧ (workSystem ops).queue.head = (workSystem ops).queue.tail :=
  ⟨[.schedule ⟨1, 0⟩, .schedule ⟨1, 0⟩, .flush ⟨1, 0⟩, .call 0], by decide, by decide, by decide, by decide⟩

end Galio
