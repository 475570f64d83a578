import Galio.Mm.SpacesFork
import Galio.Mm.SpacesFree
import Galio.Mm.SpacesChange
import Galio.Mm.Teardown

/-! Copy-on-write: user accesses, the page fault they raise, and the calls that share frames. -/

namespace Galio

open Pmem

/-- The entry the processor finds for a user access below 4 GiB, through the four page directories. -/
def walkEntry (vm : Vm) (pd vaddr : Nat) : Option Word :=
  let link := vm.link pd (getTableSlot vaddr)
  if isPresent link && isUser link && !isLarge link then
    let entry := vm.readWord (entryTable link) (getPageTableIndex vaddr)
    if isPresent entry && isUser entry then some entry else none
  else none

/-- The word of a page that holds an address. -/
def wordIndex (vaddr : Nat) : Nat := vaddr % pageSize / 8

/-- What a user access to an address reads, by words. -/
def userRead (vm : Vm) (pd vaddr : Nat) : Option Word :=
  (walkEntry vm pd vaddr).map fun entry => vm.mem (entryFrame entry) (wordIndex vaddr)

/-- A user store, or nothing where the processor faults. -/
def userStore (vm : Vm) (pd vaddr : Nat) (value : Word) : Option Vm :=
  match walkEntry vm pd vaddr with
  | none => none
  | some entry =>
    -- Both the directory entry and the page must allow writing.
    if isWritable (vm.link pd (getTableSlot vaddr)) && isWritable entry then
      some (vm.writeWord (entryFrame entry * frameSize) (wordIndex vaddr) value)
    else none

/-- The kernel stack of a process that was given frames of its own. -/
structure KernelStack where
  /-- The kernel addresses its pages are mapped at. -/
  pages : List Nat
  /-- `kernel_stack_phys`. -/
  phys : Nat
  frames : Nat

/-- What `process_cleanup` reads of a process. -/
structure Victim where
  pid : Nat
  pagedir : Option Nat
  stack : Option KernelStack

/-- The end of `process_cleanup`, which gives the kernel stack back. -/
def freeStack (vm : Vm) (stack : KernelStack) : Vm :=
  let vm := stack.pages.foldl pagingUnmapKernel vm
  { vm with pmem := pmemFree vm.pmem (stack.phys % 2 ^ 32) stack.frames }

/-- What `process_cleanup` does to memory and to the living processes. -/
def processCleanup (shmem : Shmem) (spaces : Spaces) (victim : Victim) : Spaces :=
  let vm := (processFreeAddressSpace spaces.vm shmem victim.pid victim.pagedir).1
  -- A stack from the kernel heap is not made of frames.
  let vm := (victim.stack.map (freeStack vm)).getD vm
  ⟨vm, (victim.pagedir.map spaces.live.erase).getD spaces.live⟩

/-- `process_oom_kill`, given the process it selects, if there is one. -/
def processOomKill (shmem : Shmem) (victim : Option Victim) (spaces : Spaces) : Spaces :=
  (victim.map (processCleanup shmem spaces)).getD spaces

/-- `pmem_alloc(1)` with the out-of-memory killer at work. -/
def allocUserFrame (oomKill : Spaces → Spaces) (spaces : Spaces) : Spaces × Nat :=
  let spaces := if pmemShort spaces.vm.pmem 1 then oomKill spaces else spaces
  let result := pmemTake spaces.vm.pmem 1
  ({ spaces with vm := { spaces.vm with pmem := result.1 } }, result.2)

/-- `*pte = entry` for the entry `get_page_entry` finds. -/
def setPageEntry (vm : Vm) (pd vaddr : Nat) (entry : Word) : Vm :=
  vm.writeWord ((vm.pool pd).tables (getTableSlot vaddr)) (getPageTableIndex vaddr) entry

/-- A page as the kernel reads it through the directory in use. -/
def pageContent (vm : Vm) (pd page : Nat) : Nat → Word :=
  match walkEntry vm pd page with
  | some entry => vm.mem (entryFrame entry)
  | none => vm.mem (page / frameSize)

/-- The end of `handle_cow_fault`: the page is copied to its own frame. -/
def copyPage (vm : Vm) (pd page : Nat) (phys newPhys : Nat) : Vm :=
  let vm := vm.fillFrame (newPhys / frameSize) (pageContent vm pd page)
  let vm := { vm with pmem := pmemRefcountDec vm.pmem phys }
  setPageEntry vm pd page
    ((BitVec.ofNat 64 newPhys &&& frameMask) ||| pagePresent ||| pageRw ||| pageUser)

def handleCowFault (oomKill : Spaces → Spaces) (spaces : Spaces) (pd faultAddr : Nat) : Spaces :=
  let page := pageAlignDown faultAddr
  match getPageEntry spaces.vm pd page with
  | none => spaces
  | some pte =>
    if !isPresent pte || !isUser pte || isWritable pte then spaces
    else
      let phys := (pte &&& frameMask).toNat
      -- The last sharer keeps the frame and may write it again.
      if pmemGetRefcount spaces.vm.pmem phys ≤ 1 then
        { spaces with vm := setPageEntry spaces.vm pd page (pte ||| pageRw) }
      else
        let (spaces, newPhys) := allocUserFrame oomKill spaces
        if newPhys = 0 then spaces
        else { spaces with vm := copyPage spaces.vm pd page phys newPhys }

/-- `paging_handle_page_fault` for a user write to a present page. -/
def pagingHandlePageFault (oomKill : Spaces → Spaces) (spaces : Spaces) (pd faultAddr : Nat) : Spaces :=
  match getPageEntry spaces.vm pd (pageAlignDown faultAddr) with
  | none => spaces
  | some pte =>
    if isPresent pte && isUser pte && !isWritable pte then handleCowFault oomKill spaces pd faultAddr
    else spaces

/-- A user write: a store that faults is handled and retried. -/
def userWrite (oomKill : Spaces → Spaces) (spaces : Spaces) (pd vaddr : Nat) (value : Word) : Spaces :=
  match userStore spaces.vm pd vaddr value with
  | some vm => { spaces with vm := vm }
  | none =>
    let spaces := pagingHandlePageFault oomKill spaces pd vaddr
    { spaces with vm := (userStore spaces.vm pd vaddr value).getD spaces.vm }

/-- `paging_unmap` followed by `pmem_free`, as its callers write it. -/
def unmapFree (vm : Vm) (pd vaddr : Nat) : Vm :=
  let phys := pagingGetPhysical vm pd vaddr
  if phys = 0 then vm
  else
    let vm := pagingUnmap vm pd vaddr
    { vm with pmem := pmemFree vm.pmem (phys &&& frameMask).toNat 1 }

/-- A call or an access of a process. -/
inductive CowOp where
  | fork (pd : Nat)
  | write (pd vaddr : Nat) (value : Word) (victim : Option Victim)
  | unmap (pd vaddr : Nat)
  | free (pd pid : Nat)

/-- Carrying out a call or an access. -/
def CowOp.exec (shmem : Shmem) (spaces : Spaces) : CowOp → Spaces
  | .fork pd =>
    let (vm, clone) := pagingCloneDirectory spaces.vm pd
    ⟨vm, clone.toList ++ spaces.live⟩
  | .write pd vaddr value victim => userWrite (processOomKill shmem victim) spaces pd vaddr value
  | .unmap pd vaddr => ⟨unmapFree spaces.vm pd vaddr, spaces.live⟩
  | .free pd pid =>
    ⟨(processFreeAddressSpace spaces.vm shmem pid (some pd)).1, spaces.live.erase pd⟩

end Galio
