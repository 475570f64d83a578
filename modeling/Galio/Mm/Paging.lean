import Galio.Mm.Pmem

/-! The page directories of `kernel/mm/paging.c`, over physical memory. -/

namespace Galio

open Function

/-- One eight-byte word of memory, the size of a page-table entry. -/
abbrev Word := BitVec 64

def pageSize : Nat := 4096

/-- `PAGE_TABLE_SLOTS`, the page tables of a 4 GiB address space. -/
def pageTableSlots : Nat := 2048

def maxPageDirs : Nat := 64

def pagingAllocStart : Nat := 0x1600000

def pagingAllocEnd : Nat := 0x4000000

def pagePresent : Word := 0x001

def pageRw : Word := 0x002

def pageUser : Word := 0x004

/-- `PAGE_PRESENT | PAGE_RW | PAGE_USER | PAGE_WRITETHROUGH | PAGE_NOCACHE`. -/
def pageFlags : Word := 0x01F

/-- The bits of an entry that hold a physical address of a 4 GiB machine. -/
def frameMask : Word := 0xFFFFF000

/-- The bits of a directory entry that hold the address of the next table. -/
def tableMask : Word := 0x000FFFFFFFFFF000

/-- `entry & PAGE_PRESENT`. -/
def isPresent (entry : Word) : Bool := entry.getLsbD 0

/-- `entry & PAGE_RW`. -/
def isWritable (entry : Word) : Bool := entry.getLsbD 1

/-- `entry & PAGE_USER`. -/
def isUser (entry : Word) : Bool := entry.getLsbD 2

/-- `entry & 0x80`, the mark of a 2 MiB page in a directory entry. -/
def isLarge (entry : Word) : Bool := entry.getLsbD 7

/-- The frame an entry maps. -/
def entryFrame (entry : Word) : Nat := (entry &&& frameMask).toNat / frameSize

/-- The address of the table a directory entry points to. -/
def entryTable (entry : Word) : Nat := (entry &&& tableMask).toNat

/-- `page_directory_t`; pointers are physical addresses, as `phys_to_virt` is the identity, and zero is `NULL`. -/
structure PageDirectory where
  directory : Nat
  pdpt : Nat
  pageDirectory : Nat
  tables : Nat → Nat

/-- The memory of the paging code: allocator, physical memory and directory pool. -/
structure Vm where
  pmem : Pmem
  /-- Physical memory by frame and word. -/
  mem : Nat → Nat → Word
  /-- `page_directory_pool`; a `page_directory_t *` is an index into it. -/
  pool : Nat → PageDirectory
  /-- `page_directory_count`. -/
  pageDirectoryCount : Nat
  /-- `kernel_pd`. -/
  kernelPd : Option Nat

namespace Vm

/-- `table[i]` for a page-aligned pointer. -/
def readWord (vm : Vm) (table i : Nat) : Word :=
  vm.mem (table / frameSize + i / 512) (i % 512)

/-- `table[i] = value` for a page-aligned pointer. -/
def writeWord (vm : Vm) (table i : Nat) (value : Word) : Vm :=
  let frame := table / frameSize + i / 512
  { vm with mem := update vm.mem frame (update (vm.mem frame) (i % 512) value) }

/-- A loop that writes the 512 words of one frame. -/
def fillFrame (vm : Vm) (frame : Nat) (content : Nat → Word) : Vm :=
  { vm with mem := update vm.mem frame content }

/-- One directory of the pool is written. -/
def setPd (vm : Vm) (pd : Nat) (value : PageDirectory) : Vm :=
  { vm with pool := update vm.pool pd value }

/-- `pd->tables[slot] = table`. -/
def setTable (vm : Vm) (pd slot table : Nat) : Vm :=
  vm.setPd pd { vm.pool pd with tables := update (vm.pool pd).tables slot table }

/-- The entries of a new table: its slot, and that of the 32-bit layout if free. -/
def enterTable (vm : Vm) (pd tableSlot legacySlot table : Nat) : Vm :=
  let vm := vm.setTable pd tableSlot table
  if legacySlot ≠ tableSlot ∧ (vm.pool pd).tables legacySlot = 0 then
    vm.setTable pd legacySlot table
  else vm

end Vm

def getPageDirectoryIndex (vaddr : Nat) : Nat := vaddr / 2 ^ 21 % 512

def getPageTableIndex (vaddr : Nat) : Nat := vaddr / 2 ^ 12 % 512

def getPdptIndex (vaddr : Nat) : Nat := vaddr / 2 ^ 30 % 512

def getTableSlot (vaddr : Nat) : Nat := getPdptIndex vaddr * 512 + getPageDirectoryIndex vaddr

def getPml4Index (vaddr : Nat) : Nat := vaddr / 2 ^ 39 % 512

/-- The slot of the old 32-bit layout, `(vaddr >> 22) & 0x3FF`. -/
def legacySlot (vaddr : Nat) : Nat := vaddr / 2 ^ 22 % 1024

def pageAlignDown (vaddr : Nat) : Nat := vaddr / pageSize * pageSize

def allocPageDirectory (vm : Vm) : Vm × Option Nat :=
  if vm.pageDirectoryCount ≥ maxPageDirs then (vm, none)
  else
    let pd := vm.pageDirectoryCount
    ({ vm.setPd pd ⟨0, 0, 0, fun _ => 0⟩ with pageDirectoryCount := pd + 1 }, some pd)

/-- `pmem_alloc_region` in the range the paging code allocates from. -/
def allocRegion (vm : Vm) (numFrames : Nat) : Vm × Nat :=
  let result := pmemAllocRegion vm.pmem numFrames pagingAllocStart pagingAllocEnd
  ({ vm with pmem := result.1 }, result.2)

def allocPageTable (vm : Vm) : Vm × Nat :=
  let (vm, ptPhys) := allocRegion vm 1
  if ptPhys = 0 then (vm, 0)
  else (vm.fillFrame (ptPhys / frameSize) fun _ => 0, ptPhys)

/-- `get_page_table`, which answers with the table's address or zero. -/
def getPageTable (vm : Vm) (pd vaddr : Nat) (directoryFlags : Word) (create : Bool) : Vm × Nat :=
  let tableSlot := getTableSlot vaddr
  let table := (vm.pool pd).tables tableSlot
  if table ≠ 0 then (vm, table)
  else if !create then (vm, 0)
  else if (vm.pool pd).pageDirectory = 0 ∨ getPml4Index vaddr ≠ 0 then (vm, 0)
  else
    let (vm, ptPhys) := allocPageTable vm
    if ptPhys = 0 then (vm, 0)
    else
      let vm := vm.enterTable pd tableSlot (legacySlot vaddr) ptPhys
      let vm := vm.writeWord (vm.pool pd).pageDirectory
        (getPdptIndex vaddr * 512 + getPageDirectoryIndex vaddr)
        ((BitVec.ofNat 64 ptPhys &&& tableMask) ||| (directoryFlags &&& pageFlags))
      (vm, ptPhys)

/-- `get_page_entry`, as the entry itself when its table exists. -/
def getPageEntry (vm : Vm) (pd vaddr : Nat) : Option Word :=
  let table := (vm.pool pd).tables (getTableSlot vaddr)
  if table = 0 then none else some (vm.readWord table (getPageTableIndex vaddr))

def userSpaceEnd : Nat := 0xBFFFFFFF

def isUserAddress (addr : Nat) : Bool := decide (addr ≤ userSpaceEnd)

/-- `paging_init`, which adopts the tables the processor already walks from `cr3`. -/
def pagingInit (vm : Vm) (cr3 : Nat) : Vm :=
  match allocPageDirectory vm with
  | (vm, none) => { vm with kernelPd := none }
  | (vm, some pd) =>
    let pdpt := entryTable (vm.readWord cr3 0)
    let pageDirectory := entryTable (vm.readWord pdpt 0)
    let tables := fun i =>
      let entry := vm.readWord pageDirectory i
      if !isPresent entry || isLarge entry then 0 else entryTable entry
    { vm.setPd pd ⟨cr3, pdpt, pageDirectory, tables⟩ with kernelPd := some pd }

/-- The end of `paging_create_directory`: the levels are cleared and linked. -/
def linkLevels (vm : Vm) (pd pdPhys pdptPhys pageDirectoryPhys : Nat) : Vm :=
  let vm := vm.setPd pd { vm.pool pd with pdpt := pdptPhys, pageDirectory := pageDirectoryPhys }
  let vm := (List.range 4).foldl (fun vm i =>
    vm.fillFrame (pageDirectoryPhys / frameSize + i) fun _ => 0) vm
  let vm := vm.writeWord pdPhys 0
    ((BitVec.ofNat 64 pdptPhys &&& tableMask) ||| pagePresent ||| pageRw ||| pageUser)
  (List.range 4).foldl (fun vm i => vm.writeWord pdptPhys i
    ((BitVec.ofNat 64 (pageDirectoryPhys + i * pageSize) &&& tableMask) |||
      pagePresent ||| pageRw ||| pageUser)) vm

/-- `paging_create_directory` past its top level: both lower levels are asked for. -/
def buildLevels (vm : Vm) (pd pdPhys : Nat) : Vm × Option Nat :=
  let vm := vm.fillFrame (pdPhys / frameSize) fun _ => 0
  let vm := vm.setPd pd { vm.pool pd with directory := pdPhys }
  let (vm, pdptPhys) := allocPageTable vm
  let (vm, pageDirectoryPhys) := allocRegion vm 4
  if pdptPhys = 0 ∨ pageDirectoryPhys = 0 then (vm, none)
  else (linkLevels vm pd pdPhys pdptPhys pageDirectoryPhys, some pd)

def pagingCreateDirectory (vm : Vm) : Vm × Option Nat :=
  match allocPageDirectory vm with
  | (vm, none) => (vm, none)
  | (vm, some pd) =>
    let (vm, pdPhys) := allocRegion vm 1
    if pdPhys = 0 then (vm, none) else buildLevels vm pd pdPhys

/--
The loops of `paging_create_user_directory`; the kernel's entries lie in frames of their own, and are read first.
-/
def copyKernel (vm : Vm) (pd kernel : Nat) : Vm :=
  let kernelDir := vm.pool kernel
  let own := vm.pool pd
  let kernelTop := fun i => vm.readWord kernelDir.directory i &&& ~~~pageUser
  let kernelEntry := fun i => vm.readWord kernelDir.pageDirectory i &&& ~~~pageUser
  let firstTop := vm.readWord own.directory 0
  let vm := vm.fillFrame (own.directory / frameSize) fun i => if i = 0 then firstTop else kernelTop i
  let vm := (List.range 4).foldl (fun vm j =>
    vm.fillFrame (own.pageDirectory / frameSize + j) fun i => kernelEntry (j * 512 + i)) vm
  vm.setPd pd { own with
    tables := fun i =>
      if isPresent (kernelEntry i) && !isLarge (kernelEntry i) then kernelDir.tables i
      else own.tables i }

def pagingCreateUserDirectory (vm : Vm) : Vm × Option Nat :=
  match pagingCreateDirectory vm with
  | (vm, none) => (vm, none)
  | (vm, some pd) =>
    match vm.kernelPd with
    | none => (vm, some pd)
    | some kernel =>
      if (vm.pool kernel).directory = 0 then (vm, some pd) else (copyKernel vm pd kernel, some pd)

def pagingMap (vm : Vm) (pd vaddr : Nat) (paddr flags : Word) : Vm :=
  let (vm, table) :=
    getPageTable vm pd vaddr (pagePresent ||| pageRw ||| (flags &&& pageUser)) true
  if table = 0 then vm
  else vm.writeWord table (getPageTableIndex vaddr)
    ((paddr &&& frameMask) ||| (flags &&& pageFlags))

def pagingUnmap (vm : Vm) (pd vaddr : Nat) : Vm :=
  let tableSlot := getTableSlot vaddr
  let table := (vm.pool pd).tables tableSlot
  if table = 0 then vm
  else
    let vm := vm.writeWord table (getPageTableIndex vaddr) 0
    if legacySlot vaddr ≠ tableSlot ∧ (vm.pool pd).tables (legacySlot vaddr) = table then
      vm.setTable pd (legacySlot vaddr) 0
    else vm

def pagingUnmapKernel (vm : Vm) (vaddr : Nat) : Vm :=
  match vm.kernelPd with
  | none => vm
  | some pd =>
    let table := (vm.pool pd).tables (getTableSlot vaddr)
    if table = 0 then vm else vm.writeWord table (getPageTableIndex vaddr) 0

def pagingGetPhysical (vm : Vm) (pd vaddr : Nat) : Word :=
  match getPageEntry vm pd vaddr with
  | none => 0
  | some pte =>
    if !isPresent pte then 0
    else (pte &&& frameMask) ||| BitVec.ofNat 64 (vaddr % 4096)

/-- The test `paging_validate_user_range` makes of one page. -/
def validatePage (vm : Vm) (pd page : Nat) (write : Bool) : Bool :=
  match getPageEntry vm pd page with
  | none => false
  | some pte => isPresent pte && isUser pte && (!write || isWritable pte)

def pagingValidateUserRange (vm : Vm) (pd vaddr length : Nat) (write : Bool) : Bool :=
  if length = 0 then true
  else if !isUserAddress vaddr then false
  else
    let last := (vaddr + length - 1) % 2 ^ 64
    if last < vaddr ∨ !isUserAddress last then false
    else
      -- The loop visits the pages from the first to the one that holds the last byte.
      (List.range (last / pageSize - vaddr / pageSize + 1)).all fun k =>
        validatePage vm pd (pageAlignDown vaddr + k * pageSize) write

/-- The loop body of `paging_clone_directory` for one entry of a table. -/
def cloneEntry (vm : Vm) (oldPt newPt i : Nat) : Vm :=
  let pte := vm.readWord oldPt i
  if !isPresent pte then vm.writeWord newPt i 0
  else if isUser pte then
    -- A writable page becomes read-only on both sides, and its frame gains a sharer.
    let shared := if isWritable pte then pte &&& ~~~pageRw else pte
    let vm := if isWritable pte then vm.writeWord oldPt i (pte &&& ~~~pageRw) else vm
    let vm := { vm with pmem := pmemRefcountInc vm.pmem (shared &&& frameMask).toNat }
    vm.writeWord newPt i shared
  else vm.writeWord newPt i pte

/-- The inner loop of `paging_clone_directory`. -/
def cloneTable (vm : Vm) (oldPt newPt : Nat) : Vm :=
  (List.range 512).foldl (fun vm i => cloneEntry vm oldPt newPt i) vm

/-- The end of the loop body of `paging_clone_directory`: the copied table is linked. -/
def enterClone (vm : Vm) (clone tableSlot newPt : Nat) : Vm :=
  (vm.setTable clone tableSlot newPt).writeWord (vm.pool clone).pageDirectory tableSlot
    ((BitVec.ofNat 64 newPt &&& tableMask) ||| pagePresent ||| pageRw ||| pageUser)

/-- The loop body of `paging_clone_directory`, and whether the loop goes on. -/
def cloneSlot (vm : Vm) (src clone tableSlot : Nat) : Vm × Bool :=
  let oldPt := (vm.pool src).tables tableSlot
  let pde := vm.readWord (vm.pool src).pageDirectory tableSlot
  if oldPt = 0 then (vm, true)
  else if !isPresent pde || !isUser pde then (vm, true)
  else
    let allocated := allocPageTable vm
    if allocated.2 = 0 then (allocated.1, false)
    else (enterClone (cloneTable allocated.1 oldPt allocated.2) clone tableSlot allocated.2, true)

/-- The outer loop of `paging_clone_directory`, up to a failed allocation. -/
def cloneSlots (vm : Vm) (src clone : Nat) : List Nat → Vm
  | [] => vm
  | tableSlot :: rest =>
    match cloneSlot vm src clone tableSlot with
    | (vm, false) => vm
    | (vm, true) => cloneSlots vm src clone rest

def pagingCloneDirectory (vm : Vm) (src : Nat) : Vm × Option Nat :=
  match pagingCreateUserDirectory vm with
  | (vm, none) => (vm, none)
  | (vm, some clone) => (cloneSlots vm src clone (List.range pageTableSlots), some clone)

end Galio
