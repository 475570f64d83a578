import Galio.Mm.UserSpace

/-! `mmap`, `munmap` and `brk` of `kernel/syscall/syscall.c`. -/

namespace Galio

def userHeapStart : Nat := 0x40000000

def userHeapEnd : Nat := 0x50000000

def processMaxMmaps : Nat := 16

/-- `PAGE_ALIGN_UP`, in 64 bits. -/
def pageAlignUp (addr : Nat) : Nat := (addr + pageSize - 1) % 2 ^ 64 / pageSize * pageSize

structure MmapRegion where
  start : UInt32
  length : UInt32
  prot : UInt32
  flags : UInt32
  fd : UInt32
  offset : UInt32
  anonymous : UInt8

/-- The fields of `process_t` that the memory calls read and write. -/
structure UserProcess where
  pagedir : Option Nat
  brk : UInt32
  mmapCount : Nat
  mmapRegions : Nat → MmapRegion

/-- Memory and the process that calls. -/
structure UserState where
  vm : Vm
  /-- `process_current()`. -/
  current : Option UserProcess

/-- The pages from an aligned address up to a limit, as the loops visit them. -/
def pagesUpTo (first limit : Nat) : List Nat :=
  (List.range ((limit - first + pageSize - 1) / pageSize)).map fun k => first + k * pageSize

/-- The frame the kernel reaches at a page of the directory in use. -/
def kernelFrame (vm : Vm) (pagedir : Option Nat) (page : Nat) : Nat :=
  match pagedir.bind fun pd => walkEntry vm pd page with
  | some entry => entryFrame entry
  | none => page / frameSize

/-- `memset((void *)page, 0, PAGE_SIZE)`. -/
def zeroPage (vm : Vm) (pagedir : Option Nat) (page : Nat) : Vm :=
  vm.fillFrame (kernelFrame vm pagedir page) fun _ => 0

/-- `paging_map` of a user page, nothing without a directory. -/
def mapUserPage (vm : Vm) (pagedir : Option Nat) (page phys : Nat) : Vm :=
  match pagedir with
  | none => vm
  | some pd => pagingMap vm pd page (BitVec.ofNat 64 phys) (pagePresent ||| pageRw ||| pageUser)

/-- The call of `process_oom_kill` at the start of `pmem_alloc(1)`. -/
def reclaim (oomKill : Vm → Vm) (vm : Vm) : Vm :=
  if pmemShort vm.pmem 1 then oomKill vm else vm

/-- The search of `pmem_alloc(1)`. -/
def takeFrame (vm : Vm) : Vm × Nat :=
  let result := pmemTake vm.pmem 1
  ({ vm with pmem := result.1 }, result.2)

/-- The loop body of `mmap` and `brk` past the killer, and whether a frame was found. -/
def mapTaken (vm : Vm) (pagedir : Option Nat) (page : Nat) : Vm × Bool :=
  let (vm, phys) := takeFrame vm
  if phys = 0 then (vm, false)
  else (zeroPage (mapUserPage vm pagedir page phys) pagedir page, true)

/-- The loop of `mmap` and `brk`, and how many pages it went through. -/
def mapPages (oomKill : Vm → Vm) (vm : Vm) (pagedir : Option Nat) : List Nat → Vm × Nat
  | [] => (vm, 0)
  | page :: rest =>
    match mapTaken (reclaim oomKill vm) pagedir page with
    | (vm, false) => (vm, 0)
    | (vm, true) =>
      let (vm, count) := mapPages oomKill vm pagedir rest
      (vm, count + 1)

/-- The loop of `munmap`, also the one by which `mmap` withdraws. -/
def unmapPages (vm : Vm) (pagedir : Option Nat) (pages : List Nat) : Vm :=
  match pagedir with
  | none => vm
  | some pd => pages.foldl (fun vm page => unmapFree vm pd page) vm

/-- Where `mmap` puts a mapping. -/
def mmapBase (proc : UserProcess) (addr : Nat) : Nat :=
  if addr = 0 then max proc.brk.toNat userHeapStart else addr

/-- `aligned_len`, a `u32`. -/
def mmapLength (length : UInt32) : Nat := pageAlignUp length.toNat % 2 ^ 32

/-- The region `mmap` records. -/
def mmapRegion (base : Nat) (length prot flags fd offset : UInt32) : MmapRegion where
  start := UInt32.ofNat base
  length := UInt32.ofNat (mmapLength length)
  prot := if prot &&& 3 = 0 then 3 else prot
  flags := flags
  -- A negative descriptor is recorded as `0xFFFFFFFF`.
  fd := if fd.toNat ≥ 2 ^ 31 then 0xFFFFFFFF else fd
  offset := offset
  anonymous := 1

/-- `syscall_mmap`, which answers `none` for `(void *)-1`. -/
def syscallMmap (oomKill : Vm → Vm) (state : UserState) (addr : Nat)
    (length prot flags fd offset : UInt32) : UserState × Option Nat :=
  match state.current with
  | none => (state, none)
  | some proc =>
    let base := mmapBase proc addr
    let aligned := mmapLength length
    let pages := pagesUpTo (pageAlignDown base) (base + aligned)
    if length = 0 then (state, none)
    else if base < userHeapStart ∨ base > userHeapEnd then (state, none)
    else if base + aligned > userHeapEnd then (state, none)
    else if proc.mmapCount ≥ processMaxMmaps then (state, none)
    else
      let (vm, count) := mapPages oomKill state.vm proc.pagedir pages
      if count < pages.length then
        -- The pages mapped so far are withdrawn again.
        ({ state with vm := unmapPages vm proc.pagedir (pages.take count) }, none)
      else
        let region := mmapRegion base length prot flags fd offset
        let proc := { proc with
          mmapRegions := Function.update proc.mmapRegions proc.mmapCount region
          mmapCount := proc.mmapCount + 1
          brk := if addr = 0 then UInt32.ofNat (base + aligned) else proc.brk }
        (⟨vm, some proc⟩, some base)

/-- The region `munmap` forgets: the first whose start is the unmapped one. -/
def forgetRegion (proc : UserProcess) (start : Nat) : UserProcess :=
  match (List.range proc.mmapCount).find? fun i => (proc.mmapRegions i).start == UInt32.ofNat start with
  | none => proc
  | some i => { proc with
      mmapRegions := Function.update proc.mmapRegions i
        { proc.mmapRegions i with start := 0, length := 0, fd := 0, offset := 0 } }

/-- `syscall_munmap`, and whether it succeeds. -/
def syscallMunmap (state : UserState) (addr : Nat) (length : UInt32) : UserState × Bool :=
  match state.current with
  | none => (state, false)
  | some proc =>
    let start := pageAlignDown addr
    let limit := pageAlignUp ((addr + length.toNat) % 2 ^ 64)
    if addr = 0 ∨ length = 0 then (state, false)
    else if start < userHeapStart ∨ limit > userHeapEnd then (state, false)
    else
      let vm := unmapPages state.vm proc.pagedir (pagesUpTo start limit)
      (⟨vm, some (forgetRegion proc start)⟩, true)

/-- `syscall_brk`, which answers `none` for `(void *)-1`. -/
def syscallBrk (oomKill : Vm → Vm) (state : UserState) (addr : Nat) : UserState × Option Nat :=
  match state.current with
  | none => (state, none)
  | some proc =>
    if addr = 0 then (state, some proc.brk.toNat)
    else if addr < userHeapStart ∨ addr > userHeapEnd then (state, none)
    else
      -- A lower break leaves the pages above it mapped.
      let pages := pagesUpTo (pageAlignUp proc.brk.toNat) (pageAlignUp addr)
      let (vm, count) := mapPages oomKill state.vm proc.pagedir pages
      if count < pages.length then ({ state with vm := vm }, none)
      else (⟨vm, some { proc with brk := UInt32.ofNat addr }⟩, some addr)

end Galio
