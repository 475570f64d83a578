import Galio.Mm.AddressSpace
import Galio.Mm.PagingSteps

/-! The pool of directories, whose counter only grows. -/

namespace Galio

open List

/-- The calls that hand out, fill and free directories. -/
inductive DirectoryOp
  | create
  | createUser
  | clone (src : Nat)
  | map (pd vaddr : Nat) (paddr flags : Word)
  | unmap (pd vaddr : Nat)
  | free (pid : Nat) (pagedir : Option Nat)

/-- Carrying out a call, with the directory it hands out. -/
def DirectoryOp.exec (state : Vm × Shmem) : DirectoryOp → (Vm × Shmem) × Option Nat
  | .create =>
    let (vm, pd) := pagingCreateDirectory state.1
    ((vm, state.2), pd)
  | .createUser =>
    let (vm, pd) := pagingCreateUserDirectory state.1
    ((vm, state.2), pd)
  | .clone src =>
    let (vm, pd) := pagingCloneDirectory state.1 src
    ((vm, state.2), pd)
  | .map pd vaddr paddr flags => ((pagingMap state.1 pd vaddr paddr flags, state.2), none)
  | .unmap pd vaddr => ((pagingUnmap state.1 pd vaddr, state.2), none)
  | .free pid pagedir =>
    let (vm, shmem, _) := processFreeAddressSpace state.1 state.2 pid pagedir
    ((vm, shmem), none)

/-- The directories a sequence of calls hands out. -/
def handedOut : Vm × Shmem → List DirectoryOp → List Nat
  | _, [] => []
  | state, op :: rest => (op.exec state).2.toList ++ handedOut (op.exec state).1 rest

/-- What a call hands out is the next directory of the pool. -/
structure HandsOutNext (before : Vm) (after : Vm × Option Nat) : Prop where
  grows : before.pageDirectoryCount ≤ after.1.pageDirectoryCount
  next : ∀ pd, after.2 = some pd → pd = before.pageDirectoryCount ∧ pd < maxPageDirs ∧
    after.1.pageDirectoryCount = pd + 1

lemma allocPageTable_count (vm : Vm) : (allocPageTable vm).1.pageDirectoryCount = vm.pageDirectoryCount := by
  unfold allocPageTable
  dsimp only
  split
  · rfl
  · rfl

lemma buildLevels_count (vm : Vm) (pd pdPhys : Nat) :
    (buildLevels vm pd pdPhys).1.pageDirectoryCount = vm.pageDirectoryCount ∧
      ∀ pd', (buildLevels vm pd pdPhys).2 = some pd' → pd' = pd := by
  unfold buildLevels
  dsimp only
  split
  · exact ⟨allocPageTable_count _, fun _ none => by simp at none⟩
  · refine ⟨?_, fun _ same => (Option.some.inj same).symm⟩
    exact allocPageTable_count _

lemma pagingCreateDirectory_next (vm : Vm) : HandsOutNext vm (pagingCreateDirectory vm) := by
  unfold pagingCreateDirectory allocPageDirectory
  split
  · rename_i after full
    split at full
    · obtain ⟨rfl, _⟩ := by simpa using full
      exact ⟨Nat.le_refl _, fun _ none => by simp at none⟩
    · simp at full
  · rename_i after pd pooled
    split at pooled
    · simp at pooled
    obtain ⟨rfl, rfl⟩ := by simpa using pooled
    dsimp only
    split
    · exact ⟨Nat.le_succ _, fun _ none => by simp at none⟩
    refine ⟨?_, fun pd given => ?_⟩
    · rw [(buildLevels_count _ _ _).1]
      exact Nat.le_succ _
    · obtain rfl := (buildLevels_count _ _ _).2 pd given
      exact ⟨rfl, by omega, (buildLevels_count _ _ _).1⟩

lemma pagingCreateUserDirectory_next (vm : Vm) : HandsOutNext vm (pagingCreateUserDirectory vm) := by
  have created := pagingCreateDirectory_next vm
  unfold pagingCreateUserDirectory
  split
  · rename_i after failed
    rw [failed] at created
    exact created
  · rename_i after pd made
    rw [made] at created
    split
    · exact created
    split
    · exact created
    exact ⟨created.grows, created.next⟩

lemma cloneEntry_count (vm : Vm) (oldPt newPt i : Nat) :
    (cloneEntry vm oldPt newPt i).pageDirectoryCount = vm.pageDirectoryCount := by
  unfold cloneEntry
  dsimp only
  split
  · rfl
  split
  · split
    · rfl
    · rfl
  · rfl

lemma foldl_cloneEntry_count (indices : List Nat) (vm : Vm) (oldPt newPt : Nat) :
    (indices.foldl (fun vm i => cloneEntry vm oldPt newPt i) vm).pageDirectoryCount = vm.pageDirectoryCount := by
  induction indices generalizing vm with
  | nil => rfl
  | cons i rest ih => rw [foldl_cons, ih, cloneEntry_count]

lemma enterClone_count (vm : Vm) (clone tableSlot newPt : Nat) :
    (enterClone vm clone tableSlot newPt).pageDirectoryCount = vm.pageDirectoryCount := rfl

lemma cloneSlot_count (vm : Vm) (src clone tableSlot : Nat) :
    (cloneSlot vm src clone tableSlot).1.pageDirectoryCount = vm.pageDirectoryCount := by
  unfold cloneSlot
  dsimp only
  split
  · rfl
  split
  · rfl
  · split
    · exact allocPageTable_count vm
    · rw [enterClone_count, cloneTable, foldl_cloneEntry_count, allocPageTable_count]

lemma cloneSlots_count (vm : Vm) (src clone : Nat) (slots : List Nat) :
    (cloneSlots vm src clone slots).pageDirectoryCount = vm.pageDirectoryCount := by
  induction slots generalizing vm with
  | nil => rfl
  | cons slot rest ih =>
    have counted := cloneSlot_count vm src clone slot
    unfold cloneSlots
    split
    · rename_i after stopped
      rw [stopped] at counted
      exact counted
    · rename_i after went
      rw [went] at counted
      rw [ih, counted]

lemma pagingCloneDirectory_next (vm : Vm) (src : Nat) : HandsOutNext vm (pagingCloneDirectory vm src) := by
  have created := pagingCreateUserDirectory_next vm
  unfold pagingCloneDirectory
  split
  · rename_i after failed
    rw [failed] at created
    exact created
  · rename_i after clone made
    rw [made] at created
    refine ⟨?_, fun pd given => ?_⟩
    · rw [cloneSlots_count]
      exact created.grows
    · rw [cloneSlots_count]
      exact created.next pd given

lemma pagingMap_count (vm : Vm) (pd vaddr : Nat) (paddr flags : Word) :
    (pagingMap vm pd vaddr paddr flags).pageDirectoryCount = vm.pageDirectoryCount := by
  have table : ∀ directoryFlags, (getPageTable vm pd vaddr directoryFlags true).1.pageDirectoryCount =
        vm.pageDirectoryCount := by
    intro directoryFlags
    unfold getPageTable
    dsimp only
    split
    · rfl
    split
    · rfl
    split
    · rfl
    split
    · exact allocPageTable_count vm
    · rw [writeWord_pageDirectoryCount,
        (enterTable_sameBesidesTables ..).pageDirectoryCount, allocPageTable_count]
  unfold pagingMap
  dsimp only
  split
  · exact table _
  · exact table _

lemma pagingUnmap_count (vm : Vm) (pd vaddr : Nat) :
    (pagingUnmap vm pd vaddr).pageDirectoryCount = vm.pageDirectoryCount := by
  unfold pagingUnmap
  dsimp only
  split
  · rfl
  · split
    · rfl
    · rfl

lemma DirectoryOp.exec_next (state : Vm × Shmem) (op : DirectoryOp) :
    HandsOutNext state.1 ((op.exec state).1.1, (op.exec state).2) := by
  have none : ∀ {after : Vm}, after.pageDirectoryCount = state.1.pageDirectoryCount →
      HandsOutNext state.1 (after, Option.none) := fun same =>
    ⟨Nat.le_of_eq same.symm, fun _ given => by simp at given⟩
  cases op with
  | create => exact pagingCreateDirectory_next state.1
  | createUser => exact pagingCreateUserDirectory_next state.1
  | clone src => exact pagingCloneDirectory_next state.1 src
  | map pd vaddr paddr flags => exact none (pagingMap_count ..)
  | unmap pd vaddr => exact none (pagingUnmap_count ..)
  | free pid pagedir =>
    apply none
    unfold DirectoryOp.exec processFreeAddressSpace
    cases pagedir with
    | none => rfl
    | some pd => rfl

lemma handedOut_past (ops : List DirectoryOp) (state : Vm × Shmem) :
    (∀ pd ∈ handedOut state ops, state.1.pageDirectoryCount ≤ pd ∧ pd < maxPageDirs) ∧
      (handedOut state ops).Nodup := by
  induction ops generalizing state with
  | nil => exact ⟨fun _ mem => absurd mem not_mem_nil, nodup_nil⟩
  | cons op rest ih =>
    obtain ⟨grows, next⟩ := op.exec_next state
    obtain ⟨past, distinct⟩ := ih (op.exec state).1
    dsimp only at grows next
    rw [handedOut]
    cases given : (op.exec state).2 with
    | none =>
      refine ⟨fun pd mem => ?_, distinct⟩
      have bound := past pd mem
      omega
    | some handed =>
      obtain ⟨first, below, counted⟩ := next handed given
      refine ⟨fun pd mem => ?_, nodup_cons.mpr ⟨fun again => ?_, distinct⟩⟩
      · rcases mem_cons.mp mem with rfl | later
        · omega
        · have bound := past pd later
          omega
      · have bound := (past handed again).1
        omega

end Galio
