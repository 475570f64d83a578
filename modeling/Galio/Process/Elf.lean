import Galio.Lib.Bytes
import Galio.Syscall.Memory

/-! The ELF loader of `kernel/process/elf.c`. -/

namespace Galio

/-- The bytes at `elf_data`, and `elf_size`. -/
structure ElfImage where
  data : Nat → BitVec 8
  size : Nat

/-- A `u16` of the image, lowest byte first. -/
def ElfImage.u16 (image : ElfImage) (offset : Nat) : Nat :=
  (image.data offset).toNat + 2 ^ 8 * (image.data (offset + 1)).toNat

/-- A `u32` of the image, lowest byte first. -/
def ElfImage.u32 (image : ElfImage) (offset : Nat) : Nat :=
  image.u16 offset + 2 ^ 16 * image.u16 (offset + 2)

/-- The fields of `elf_program_header_t` that the loader reads. -/
structure ProgramHeader where
  pType : Nat
  pOffset : Nat
  pVaddr : Nat
  pFilesz : Nat
  pMemsz : Nat

def elfMagic : Nat := 0x464C457F

def ptLoad : Nat := 1

/-- `sizeof(elf_header_t)`. -/
def elfHeaderSize : Nat := 52

/-- `sizeof(elf_program_header_t)`. -/
def programHeaderSize : Nat := 32

def ElfImage.phoff (image : ElfImage) : Nat := image.u32 28

def ElfImage.phnum (image : ElfImage) : Nat := image.u16 44

def ElfImage.entry (image : ElfImage) : Nat := image.u32 24

/-- The program header at an index; `e_phentsize` has been checked. -/
def ElfImage.header (image : ElfImage) (i : Nat) : ProgramHeader :=
  let base := image.phoff + i * programHeaderSize
  { pType := image.u32 base
    pOffset := image.u32 (base + 4)
    pVaddr := image.u32 (base + 8)
    pFilesz := image.u32 (base + 16)
    pMemsz := image.u32 (base + 20) }

def checkedAdd (a b : Nat) : Option Nat :=
  let value := (a + b) % 2 ^ 32
  if value < a then none else some value

def elfRangeWithinFile (offset length fileSize : Nat) : Bool :=
  match checkedAdd offset length with
  | none => false
  | some limit => decide (limit ≤ fileSize)

def elfRangeValid (vaddr memsz minimum : Nat) : Bool :=
  if memsz = 0 then false
  else
    match checkedAdd vaddr (memsz - 1) with
    | none => false
    | some last => !(decide (vaddr < minimum) || decide (last > userSpaceEnd))

def elfEntryValid (vaddr : Nat) : Bool := elfRangeValid vaddr 1 userHeapStart

def elfSegmentValid (vaddr memsz : Nat) : Bool := elfRangeValid vaddr memsz (userHeapStart - pageSize)

/-- The last byte of a segment, as `elf_segment_overlaps` computes it. -/
def ProgramHeader.last (ph : ProgramHeader) : Nat := (ph.pVaddr + ph.pMemsz + 2 ^ 32 - 1) % 2 ^ 32

def elfSegmentOverlaps (image : ElfImage) (segment : ProgramHeader) (segmentIndex : Nat) : Bool :=
  (List.range segmentIndex).any fun i =>
    let other := image.header i
    if other.pType ≠ ptLoad ∨ other.pMemsz = 0 then false
    else decide (segment.pVaddr ≤ other.last ∧ other.pVaddr ≤ segment.last)

/-- The pages of a segment, unless the end of its range does not fit 32 bits. -/
def segmentPages (ph : ProgramHeader) : Option (List Nat) :=
  match checkedAdd ph.pMemsz (pageSize - 1) with
  | none => none
  | some rounded =>
    match checkedAdd ph.pVaddr rounded with
    | none => none
    | some limit => some (pagesUpTo (pageAlignDown ph.pVaddr) (pageAlignDown limit))

/-- A byte of a frame. -/
def Vm.byte (vm : Vm) (frame offset : Nat) : BitVec 8 := Bytes.get (vm.mem frame (offset / 8)) (offset % 8)

/-- A store of one byte by the kernel, through the directory in use. -/
def storeByte (vm : Vm) (pd addr : Nat) (byte : BitVec 8) : Vm :=
  let frame := kernelFrame vm (some pd) addr
  let offset := addr % pageSize
  vm.fillFrame frame (Function.update (vm.mem frame) (offset / 8)
    (Bytes.set (vm.mem frame (offset / 8)) (offset % 8) byte))

/-- The loop that copies the bytes of a segment from the file. -/
def copySegment (vm : Vm) (pd : Nat) (image : ElfImage) (ph : ProgramHeader) : Vm :=
  (List.range ph.pFilesz).foldl (fun vm j =>
    storeByte vm pd (ph.pVaddr + j) (image.data (ph.pOffset + j))) vm

/-- The checks the loader makes of a segment before it maps it. -/
def segmentAccepted (image : ElfImage) (i : Nat) : Bool :=
  let ph := image.header i
  decide (ph.pFilesz ≤ ph.pMemsz) && elfRangeWithinFile ph.pOffset ph.pFilesz image.size &&
    elfSegmentValid ph.pVaddr ph.pMemsz && !elfSegmentOverlaps image ph i

/-- The loop body of `elf_load`, and whether the loop goes on. -/
def loadSegment (oomKill : Vm → Vm) (vm : Vm) (pd : Nat) (image : ElfImage) (i : Nat) : Vm × Bool :=
  let ph := image.header i
  if ph.pType ≠ ptLoad then (vm, true)
  else if !segmentAccepted image i then (vm, false)
  else
    match segmentPages ph with
    | none => (vm, false)
    | some pages =>
      -- The pages are allocated, mapped for the user and zeroed one by one.
      let (vm, count) := mapPages oomKill vm (some pd) pages
      if count < pages.length then (vm, false) else (copySegment vm pd image ph, true)

/-- The loop of `elf_load` over the program headers. -/
def loadSegments (oomKill : Vm → Vm) (vm : Vm) (pd : Nat) (image : ElfImage) : List Nat → Vm × Bool
  | [] => (vm, true)
  | i :: rest =>
    match loadSegment oomKill vm pd image i with
    | (vm, false) => (vm, false)
    | (vm, true) => loadSegments oomKill vm pd image rest

/-- The checks `elf_load` makes of the ELF header. -/
def headerAccepted (image : ElfImage) : Bool :=
  decide (elfHeaderSize ≤ image.size) && image.u32 0 == elfMagic && image.data 4 == 1 &&
    image.data 5 == 1 && image.data 6 == 1 && image.u32 20 == 1 && image.u16 18 == 3 &&
    image.u16 40 == elfHeaderSize && image.u16 42 == programHeaderSize && elfEntryValid image.entry &&
    elfRangeWithinFile image.phoff (image.phnum * programHeaderSize) image.size

/-- `elf_load`, which answers with the entry point or zero. -/
def elfLoad (oomKill : Vm → Vm) (vm : Vm) (pagedir : Option Nat) (image : Option ElfImage) : Vm × Nat :=
  match image with
  | none => (vm, 0)
  | some image =>
    if !headerAccepted image then (vm, 0)
    else
      match pagedir with
      | none => (vm, 0)
      | some pd =>
        match loadSegments oomKill vm pd image (List.range image.phnum) with
        | (vm, false) => (vm, 0)
        | (vm, true) => (vm, image.entry)

end Galio
