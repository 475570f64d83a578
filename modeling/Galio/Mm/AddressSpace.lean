import Galio.Mm.Shmem
import Galio.Mm.PmemLaws
import Galio.Mm.Paging

/-! Freeing an address space, `process_free_address_space` of `kernel/process/process.c`. -/

namespace Galio

open Pmem List

/-- The loop body over the entries of one table. -/
def freeEntry (vm : Vm) (pt : Nat) (pmem : Pmem) (ptIdx : Nat) : Pmem :=
  let pte := vm.readWord pt ptIdx
  if !isPresent pte then pmem
  else
    let physAddr := (pte &&& frameMask).toNat
    if physAddr ≠ 0 then pmemRefcountDec pmem physAddr else pmem

/-- A lower slot holds the same table. -/
def isDuplicate (tables : Nat → Nat) (tableSlot : Nat) : Bool :=
  (List.range tableSlot).any fun previous => tables previous == tables tableSlot

/-- The slots whose tables are freed: present, the user's, and not seen before. -/
def isFreed (vm : Vm) (pd tableSlot : Nat) : Bool :=
  let pde := vm.readWord (vm.pool pd).pageDirectory tableSlot
  let tables := (vm.pool pd).tables
  isPresent pde && isUser pde && tables tableSlot != 0 && !isDuplicate tables tableSlot

/-- The loop body over the slots. -/
def freeTable (vm : Vm) (pd : Nat) (pmem : Pmem) (tableSlot : Nat) : Pmem :=
  if isFreed vm pd tableSlot then
    let pt := (vm.pool pd).tables tableSlot
    pmemFree ((List.range 512).foldl (freeEntry vm pt) pmem) (pt % 2 ^ 32) 1
  else pmem

/-- A level of the directory is freed when it exists. -/
def freeLevel (pmem : Pmem) (level numFrames : Nat) : Pmem :=
  if level ≠ 0 then pmemFree pmem (level % 2 ^ 32) numFrames else pmem

/-- What freeing a directory does to the allocator; it writes nothing else. -/
def freeDirectory (vm : Vm) (pd : Nat) (pmem : Pmem) : Pmem :=
  let pmem := (List.range pageTableSlots).foldl (freeTable vm pd) pmem
  let pmem := freeLevel pmem (vm.pool pd).directory 1
  let pmem := freeLevel pmem (vm.pool pd).pdpt 1
  freeLevel pmem (vm.pool pd).pageDirectory 4

/-- `process_free_address_space` for the process's pid and `pagedir`, which it resets. -/
def processFreeAddressSpace (vm : Vm) (shmem : Shmem) (pid : Nat) (pagedir : Option Nat) :
    Vm × Shmem × Option Nat :=
  match pagedir with
  | none => (vm, shmem, none)
  | some pd =>
    let (pmem, shmem) := shmemDetachProcess vm.pmem shmem pid
    ({ vm with pmem := freeDirectory vm pd pmem }, shmem, none)

/-- The frame whose count an entry makes the walk decrement. -/
def leafFrame (entry : Word) : Option Nat :=
  if isPresent entry && (entry &&& frameMask).toNat != 0 then some (entryFrame entry) else none

/-- The frames of a table's entries, in the order they are released. -/
def leafFrames (vm : Vm) (pt : Nat) : List Nat :=
  (List.range 512).flatMap fun i => (leafFrame (vm.readWord pt i)).toList

/-- The frames released for one slot. -/
def slotFrames (vm : Vm) (pd tableSlot : Nat) : List Nat :=
  if isFreed vm pd tableSlot then
    let pt := (vm.pool pd).tables tableSlot
    leafFrames vm pt ++ frameRange (pt % 2 ^ 32 / frameSize) 1
  else []

/-- The frames released for one level. -/
def levelFrames (level numFrames : Nat) : List Nat :=
  if level ≠ 0 then frameRange (level % 2 ^ 32 / frameSize) numFrames else []

/-- The frames released for the levels of a directory. -/
def levels (vm : Vm) (pd : Nat) : List Nat :=
  levelFrames (vm.pool pd).directory 1 ++ (levelFrames (vm.pool pd).pdpt 1 ++
    levelFrames (vm.pool pd).pageDirectory 4)

/-- The frames released for a directory, in order. -/
def teardownFrames (vm : Vm) (pd : Nat) : List Nat :=
  (List.range pageTableSlots).flatMap (slotFrames vm pd) ++ levels vm pd

lemma frameRange_address {address count : Nat} (fits : address / frameSize + count ≤ maxFrames) :
    frameRange (address % 2 ^ 32 / frameSize) count = range' (address / frameSize) count := by
  have small : address % 2 ^ 32 = address := by
    simp only [frameSize, maxFrames] at fits
    omega
  rw [small, frameRange_eq fits]

lemma leafFrame_eq_some {entry : Word} {frame : Nat} (released : leafFrame entry = some frame) :
    isPresent entry ∧ entryFrame entry = frame := by
  unfold leafFrame at released
  split at released
  · rename_i both
    rw [Bool.and_eq_true] at both
    exact ⟨both.1, Option.some.inj released⟩
  · simp at released

lemma isFreed_iff {vm : Vm} {pd s : Nat} : isFreed vm pd s ↔
    isPresent (vm.readWord (vm.pool pd).pageDirectory s) ∧ isUser (vm.readWord (vm.pool pd).pageDirectory s) ∧
      (vm.pool pd).tables s ≠ 0 ∧ ∀ t < s, (vm.pool pd).tables t ≠ (vm.pool pd).tables s := by
  simp only [isFreed, isDuplicate, Bool.and_eq_true, bne_iff_ne, Bool.not_eq_true', any_eq_false,
    mem_range, beq_iff_eq, and_assoc]

lemma derefFrames_append (pmem : Pmem) (first second : List Nat) :
    (pmem.derefFrames first).derefFrames second = pmem.derefFrames (first ++ second) := by
  simp only [derefFrames, foldl_append]

lemma foldl_derefFrames {body : Pmem → Nat → Pmem} {frames : Nat → List Nat}
    (round : ∀ pmem i, body pmem i = pmem.derefFrames (frames i)) (indices : List Nat) (pmem : Pmem) :
    indices.foldl body pmem = pmem.derefFrames (indices.flatMap frames) := by
  induction indices generalizing pmem with
  | nil => rfl
  | cons i rest ih => rw [foldl_cons, ih, round, derefFrames_append, flatMap_cons]

lemma pmemRefcountDec_eq (pmem : Pmem) (addr : Nat) :
    pmemRefcountDec pmem addr = pmem.derefFrames [addr / frameSize] := by
  unfold pmemRefcountDec
  dsimp only
  split
  · rfl
  · rename_i outside
    simp [derefFrames, derefFrame, Nat.not_lt.mp outside]

lemma freeEntry_eq (vm : Vm) (pt : Nat) (pmem : Pmem) (i : Nat) :
    freeEntry vm pt pmem i = pmem.derefFrames (leafFrame (vm.readWord pt i)).toList := by
  unfold freeEntry leafFrame entryFrame
  dsimp only
  generalize (vm.readWord pt i &&& frameMask).toNat = phys
  by_cases present : isPresent (vm.readWord pt i)
  · by_cases zero : phys = 0
    · simp [zero, derefFrames]
    · simp [present, zero, pmemRefcountDec_eq]
  · simp [present, derefFrames]

lemma freeTable_eq (vm : Vm) (pd : Nat) (pmem : Pmem) (tableSlot : Nat) :
    freeTable vm pd pmem tableSlot = pmem.derefFrames (slotFrames vm pd tableSlot) := by
  unfold freeTable slotFrames
  split
  · dsimp only
    rw [foldl_derefFrames (freeEntry_eq vm _), pmemFree, derefFrames_append, leafFrames]
  · rfl

lemma freeLevel_eq (pmem : Pmem) (level numFrames : Nat) :
    freeLevel pmem level numFrames = pmem.derefFrames (levelFrames level numFrames) := by
  unfold freeLevel levelFrames
  split
  · rfl
  · rfl

lemma freeDirectory_eq (vm : Vm) (pd : Nat) (pmem : Pmem) :
    freeDirectory vm pd pmem = pmem.derefFrames (teardownFrames vm pd) := by
  unfold freeDirectory teardownFrames levels
  simp only [freeLevel_eq, foldl_derefFrames (freeTable_eq vm pd), derefFrames_append, append_assoc]

lemma processFreeAddressSpace_eq (vm : Vm) (pd : Nat) {shmem : Shmem} {pid : Nat} (detached : Detached shmem pid) :
    processFreeAddressSpace vm shmem pid (some pd) =
      ({ vm with pmem := vm.pmem.derefFrames (teardownFrames vm pd) }, shmem, none) := by
  simp only [processFreeAddressSpace, shmemDetachProcess_detached detached, freeDirectory_eq]

lemma processFreeAddressSpace_detached {vm freed : Vm} {shmem later : Shmem} {pid pd : Nat}
    (detached : Detached shmem pid)
    (teardown : processFreeAddressSpace vm shmem pid (some pd) = (freed, later, none)) :
    freed = { vm with pmem := vm.pmem.derefFrames (teardownFrames vm pd) } ∧ later = shmem := by
  rw [processFreeAddressSpace_eq vm pd detached] at teardown
  generalize teardownFrames vm pd = frames at teardown ⊢
  cases teardown
  exact ⟨rfl, rfl⟩

end Galio
