import Mathlib.Algebra.Group.Nat.Defs
import Mathlib.Data.Finset.Card
import Mathlib.Data.Finset.Range
import Mathlib.Data.Nat.Find

/-! The process table: which pid a new process gets, and which child a parent waits for. -/

namespace Galio

open Function Finset

def maxProcesses : Nat := 128

inductive ProcessState where
  | ready | running | waiting | zombie
deriving DecidableEq

/-- A slot of the process table, free when its pid is 0. -/
structure Process where
  pid : Nat
  parentPid : Nat
  state : ProcessState

/-- The slots, of which the first `maxProcesses` are looked at. -/
abbrev ProcessTable := Nat → Process

/-- The word of the pid −1. -/
def anyPid : Nat := 0xFFFFFFFF

def processFindChild (table : ProcessTable) (parentPid pid : Nat) : Option Nat :=
  (List.range maxProcesses).find? fun i =>
    (table i).pid ≠ 0 ∧ (table i).parentPid = parentPid ∧ (pid = anyPid ∨ (table i).pid = pid)

def processFindAnyChild (table : ProcessTable) (parentPid : Nat) : Option Nat :=
  processFindChild table parentPid anyPid

def processCleanupSlot (table : ProcessTable) (i : Nat) : ProcessTable :=
  if (table i).pid = 0 then table else update table i { table i with pid := 0, state := .zombie }

def processReap (table : ProcessTable) (i : Nat) : ProcessTable :=
  if (table i).state ≠ .zombie then table else processCleanupSlot table i

/-- What a turn of the loop of `process_waitpid` comes to. -/
inductive WaitTurn where
  | returned (value : Nat) (table : ProcessTable)
  | sleeps

/-- The first turn of the loop, for the process in a slot. -/
def processWaitpid (table : ProcessTable) (current pid : Nat) : WaitTurn :=
  match if pid = anyPid then processFindAnyChild table (table current).pid
    else processFindChild table (table current).pid pid with
  | none => .returned anyPid table
  | some child =>
    if (table child).state = .zombie then .returned (table child).pid (processReap table child) else .sleeps

/-- A slot holds a child of the process in another. -/
def ChildSlot (table : ProcessTable) (current i : Nat) : Prop :=
  i < maxProcesses ∧ (table i).pid ≠ 0 ∧ (table i).parentPid = (table current).pid

/-- With a dead child, waiting for any child returns the pid of one and cleans its slot alone. -/
def ReapsDeadChild (table : ProcessTable) (current : Nat) : Prop :=
  (∃ i, ChildSlot table current i ∧ (table i).state = .zombie) →
    ∃ i, ChildSlot table current i ∧ (table i).state = .zombie ∧
      processWaitpid table current anyPid = .returned (table i).pid (processCleanupSlot table i)

/-- Waiting for any child takes the child in the first slot, dead or not. -/
theorem waitpid_reaps_iff (table : ProcessTable) (current : Nat) : ReapsDeadChild table current ↔
    ∀ living, ChildSlot table current living → (table living).state ≠ .zombie →
      ∀ dead, ChildSlot table current dead → (table dead).state = .zombie →
        ∃ earlier < living, ChildSlot table current earlier ∧ (table earlier).state = .zombie := by
  classical
  by_cases some : ∃ i, ChildSlot table current i ∧ (table i).state = .zombie
  · -- The search ends at the first child, which exists because a dead one does.
    have child : ∃ i, ChildSlot table current i := some.imp fun _ => And.left
    obtain ⟨first, isChild, before⟩ : ∃ i, ChildSlot table current i ∧ ∀ j < i, ¬ ChildSlot table current j :=
      ⟨Nat.find child, Nat.find_spec child, fun _ => Nat.find_min child⟩
    have turn : processWaitpid table current anyPid = if (table first).state = .zombie then
        .returned (table first).pid (processReap table first) else .sleeps := by
      have found : processFindAnyChild table (table current).pid = first := by
        simp only [processFindAnyChild, processFindChild, List.find?_range_eq_some, ChildSlot] at isChild before ⊢
        grind
      rw [processWaitpid, if_pos rfl, found]
    constructor
    · intro reaps living livingChild alive dead _ _
      obtain ⟨i, -, -, returned⟩ := reaps some
      rw [turn] at returned
      split_ifs at returned with zombie
      refine ⟨first, ?_, isChild, zombie⟩
      rcases Nat.lt_trichotomy first living with less | rfl | more
      · exact less
      · exact absurd zombie alive
      · exact absurd livingChild (before living more)
    · intro behind _
      have zombie : (table first).state = .zombie := by
        by_contra alive
        obtain ⟨dead, deadChild, dies⟩ := some
        obtain ⟨earlier, less, found, -⟩ := behind first isChild alive dead deadChild dies
        exact before earlier less found
      exact ⟨first, isChild, zombie, by rw [turn, if_pos zombie, processReap, if_neg (not_not.mpr zombie)]⟩
  · exact ⟨fun _ _ _ _ dead child dies => absurd ⟨dead, child, dies⟩ some, fun _ dead => absurd dead some⟩

/-- A process with a living child in a slot before that of a dead one. -/
def waitTable : ProcessTable := fun i =>
  [⟨0xFFFFFFFF, 0, .zombie⟩, ⟨1, 0, .running⟩, ⟨2, 1, .ready⟩, ⟨3, 1, .zombie⟩].getD i ⟨0, 0, .zombie⟩

/-- A dead child behind a living one is not returned. -/
theorem waitpid_sleeps : ¬ ReapsDeadChild waitTable 1 := by
  intro reaps
  obtain ⟨i, -, -, returned⟩ := reaps ⟨3, ⟨by decide, by decide, rfl⟩, rfl⟩
  exact nomatch returned

def pidInUse (table : ProcessTable) (pid : Nat) : Bool :=
  (List.range maxProcesses).any fun i => (table i).pid = pid ∧ (table i).state ≠ .zombie

/-- The loop of `process_allocate_pid` for some turns: the pid and the next value of `next_pid`. -/
def pidScan (table : ProcessTable) (start : Nat) : Nat → Nat → Option (Nat × Nat)
  | 0, _ => none
  | turns + 1, given =>
    let pid := if given = 0 then 1 else given
    let next := (pid + 1) % 2 ^ 32
    if !pidInUse table pid then some (pid, if next = 0 then 1 else next)
    else if next = start then some (0, start)
    else pidScan table start turns next

/-- The first pid to try. -/
def pidStart (nextPid : UInt32) : Nat := if nextPid ≠ 0 then nextPid.toNat else 1

/-- A pid with the next value of `next_pid`; as many turns as there are pids. -/
def processAllocatePid (table : ProcessTable) (nextPid : UInt32) : Option (Nat × Nat) :=
  pidScan table (pidStart nextPid) (2 ^ 32) (pidStart nextPid)

/-- The allocation ends with a pid that no slot has. -/
def AllocatesFreshPid (table : ProcessTable) (nextPid : UInt32) : Prop :=
  ∃ pid next, processAllocatePid table nextPid = some (pid, next) ∧ pid ≠ 0 ∧
    ∀ i < maxProcesses, (table i).pid ≠ pid

/-- The pids from one on, past 0. -/
def pidAt (start k : Nat) : Nat := (start - 1 + k) % (2 ^ 32 - 1) + 1

variable {table : ProcessTable} {start : Nat}

lemma pidAt_succ (k : Nat) : pidAt start (k + 1) =
    if (pidAt start k + 1) % 2 ^ 32 = 0 then 1 else (pidAt start k + 1) % 2 ^ 32 := by
  unfold pidAt
  split_ifs <;> omega

lemma pidInUse_iff {pid : Nat} : pidInUse table pid ↔
    ∃ i < maxProcesses, (table i).pid = pid ∧ (table i).state ≠ .zombie := by
  simp [pidInUse]

/-- There are more pids than slots, so some pid is the first that is not in use. -/
theorem exists_free_pid (table : ProcessTable) (start : Nat) : ∃ k ≤ maxProcesses,
    ¬ pidInUse table (pidAt start k) ∧ ∀ j < k, pidInUse table (pidAt start j) := by
  have free : ∃ k ≤ maxProcesses, ¬ pidInUse table (pidAt start k) := by
    by_contra taken
    push Not at taken
    have inside : (range (maxProcesses + 1)).image (pidAt start) ⊆
        (range maxProcesses).image fun i => (table i).pid := by
      intro pid member
      obtain ⟨k, small, rfl⟩ := mem_image.mp member
      obtain ⟨i, below, same, -⟩ := pidInUse_iff.mp (taken k (Nat.le_of_lt_succ (mem_range.mp small)))
      exact mem_image.mpr ⟨i, mem_range.mpr below, same⟩
    have count := (card_le_card inside).trans card_image_le
    rw [card_image_of_injOn, card_range, card_range] at count
    · omega
    · intro k small j below same
      simp only [pidAt, maxProcesses, coe_range, Set.mem_Iio] at small below same
      omega
  obtain ⟨small, fresh⟩ := Nat.find_spec free
  refine ⟨Nat.find free, small, fresh, fun j before => ?_⟩
  by_contra unused
  exact Nat.find_min free before ⟨by omega, unused⟩

lemma pidScan_found {free : Nat} (positive : 0 < start) (below : start < 2 ^ 32) (small : free ≤ maxProcesses)
    (taken : ∀ j < free, pidInUse table (pidAt start j)) (fresh : ¬ pidInUse table (pidAt start free))
    {k turns given : Nat} (before : k ≤ free) (enough : free - k < turns)
    (same : (if given = 0 then 1 else given) = pidAt start k) :
    ∃ next, pidScan table start turns given = some (pidAt start free, next) := by
  -- Each turn passes over one pid in use, until the first that is not.
  induction turns generalizing k given with
  | zero => omega
  | succ turns ih =>
    simp only [pidScan, same]
    obtain rfl | earlier := Nat.eq_or_lt_of_le before
    · exact ⟨_, if_pos (by simp [fresh])⟩
    rw [if_neg (by simp [taken k earlier]), if_neg]
    · exact ih earlier (by omega) (pidAt_succ k).symm
    · simp only [pidAt, maxProcesses] at small ⊢
      omega

/-- A new pid is that of no slot unless a zombie has the first pid that no other process has. -/
theorem pid_fresh_iff (table : ProcessTable) (nextPid : UInt32) : AllocatesFreshPid table nextPid ↔
    ∀ free, (∀ j < free, pidInUse table (pidAt (pidStart nextPid) j)) →
      ¬ pidInUse table (pidAt (pidStart nextPid) free) →
        ∀ i < maxProcesses, (table i).state = .zombie → (table i).pid ≠ pidAt (pidStart nextPid) free := by
  obtain ⟨positive, below⟩ : 0 < pidStart nextPid ∧ pidStart nextPid < 2 ^ 32 := by
    unfold pidStart
    split_ifs with given
    · exact ⟨Nat.pos_of_ne_zero fun zero => given (UInt32.toNat_inj.mp zero), nextPid.toNat_lt⟩
    · decide
  obtain ⟨first, small, fresh, taken⟩ := exists_free_pid table (pidStart nextPid)
  have same : (if pidStart nextPid = 0 then 1 else pidStart nextPid) = pidAt (pidStart nextPid) 0 := by
    rw [if_neg (by omega), pidAt]
    omega
  obtain ⟨next, allocated⟩ := pidScan_found positive below small taken fresh (Nat.zero_le _)
    (show first - 0 < 2 ^ 32 from small.trans_lt (by decide)) same
  change processAllocatePid table nextPid = _ at allocated
  constructor
  · rintro ⟨pid, _, given, -, apart⟩ free before unused i inside -
    -- The first pid that is not in use is the one that was given.
    obtain rfl : free = first := by
      rcases Nat.lt_trichotomy free first with less | same | more
      · exact absurd (taken free less) unused
      · exact same
      · exact absurd (before first more) fresh
    rw [allocated] at given
    cases given
    exact apart i inside
  · intro apart
    refine ⟨_, next, allocated, Nat.succ_ne_zero _, fun i inside same => ?_⟩
    by_cases dead : (table i).state = .zombie
    · exact apart first taken fresh i inside dead same
    · exact fresh (pidInUse_iff.mpr ⟨i, inside, same, dead⟩)

/-- The pid of a zombie is given again. -/
theorem pid_of_zombie_given : processAllocatePid waitTable 3 = some (3, 4) ∧ (waitTable 3).pid = 3 := by
  decide

end Galio
