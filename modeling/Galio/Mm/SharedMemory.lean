import Mathlib.Data.Finset.Insert
import Galio.Syscall.Memory

/-! The shared-memory calls of `kernel/mm/shmem.c`. -/

namespace Galio

open Function

def shmMaxPages : Nat := 256

def shmCreat : UInt32 := 0x200

def shmExcl : UInt32 := 0x400

/-- The records of attachments. -/
def shmMaxAttachments : Nat := shmMaxSegments * 4

/-- The fields of `process_t` that `shmem.c` uses, besides `pagedir`. -/
structure ShmProcess where
  pid : Nat
  brk : UInt32
  mmapCount : Nat
  mmapRegions : Nat → MmapRegion

/-- Memory, the tables of `shmem.c`, and the processes by their page directories. -/
structure ShmState where
  vm : Vm
  shmem : Shmem
  live : Finset Nat
  procs : Nat → ShmProcess

def regionOverlaps (proc : ShmProcess) (start length : Nat) : Bool :=
  let limit := (start + length) % 2 ^ 64
  decide (limit < start) || (List.range proc.mmapCount).any fun i =>
    let region := proc.mmapRegions i
    region.length != 0 && decide (start < region.start.toNat + region.length.toNat) &&
      decide (limit > region.start.toNat)

/-- `find_address`, `none` for zero; its loop ends where a segment would pass the heap. -/
def findAddress (proc : ShmProcess) (requested length : Nat) : Option Nat :=
  let address := if requested ≠ 0 then pageAlignDown requested else pageAlignUp proc.brk.toNat
  (pagesUpTo (max address userHeapStart) (userHeapEnd + 1 - length)).find? fun a =>
    !regionOverlaps proc a length

/-- `process_free_address_space` for a process with attachments. -/
def processExit (state : ShmState) (pd : Nat) : ShmState :=
  let (vm, shmem, _) := processFreeAddressSpace state.vm state.shmem (state.procs pd).pid (some pd)
  { state with vm := vm, shmem := shmem, live := state.live.erase pd }

/-- `process_oom_kill`, given the process it selects, if there is a living one. -/
def oomExit (state : ShmState) (victim : Option Nat) : ShmState :=
  match victim with
  | none => state
  | some pd => if pd ∈ state.live then processExit state pd else state

/-- One segment is written. -/
def ShmState.setSegment (state : ShmState) (id : Nat) (segment : ShmemSegment) : ShmState :=
  { state with shmem := state.shmem.setSegment id segment }

def ShmState.release (state : ShmState) (shmid : Int) : ShmState :=
  let (pmem, shmem) := releaseSegment state.vm.pmem state.shmem shmid
  { state with vm := { state.vm with pmem := pmem }, shmem := shmem }

/-- The start of `pmem_alloc(1)`, with the process that would be killed. -/
def oomCheck (state : ShmState) (victim : Option Nat) : ShmState :=
  if pmemShort state.vm.pmem 1 then oomExit state victim else state

/-- The loop of `shmem_get` that gives a segment its frames. -/
def allocSegment (victims : Nat → Option Nat) (state : ShmState) (id : Nat) : List Nat → ShmState × Bool
  | [] => (state, true)
  | i :: rest =>
    let state := oomCheck state (victims i)
    let (pmem, phys) := pmemTake state.vm.pmem 1
    let segment := state.shmem.segments id
    let state := { state with vm := { state.vm with pmem := pmem } }
    if phys = 0 then
      -- The frames found so far are given back.
      let segment := { segment with
        phys := update segment.phys i phys, pages := i, attachments := 0 }
      ((state.setSegment id segment).release id, false)
    else
      allocSegment victims
        (state.setSegment id { segment with phys := update segment.phys i phys }) id rest

/-- The segment `shmem_get` finds under a key. -/
def findKey (shmem : Shmem) (key : UInt32) : Option Nat :=
  (List.range shmMaxSegments).find? fun i =>
    (shmem.segments i).used && !(shmem.segments i).removed && (shmem.segments i).key == key

/-- `pages` of `shmem_get`, a `u32`. -/
def shmPages (size : UInt32) : Nat := (size.toNat + pageSize - 1) % 2 ^ 32 / pageSize

/-- The end of `shmem_get`, which makes a segment. -/
def createSegment (victims : Nat → Option Nat) (state : ShmState) (key size : UInt32) : ShmState × Int :=
  match (List.range shmMaxSegments).find? fun i => !(state.shmem.segments i).used with
  | none => (state, -28)
  | some id =>
    let pages := shmPages size
    let segment := { ShmemSegment.cleared with used := true, key := key, size := size, pages := pages }
    let (state, done) := allocSegment victims (state.setSegment id segment) id (List.range pages)
    (state, if done then id else -12)

def shmemGet (victims : Nat → Option Nat) (state : ShmState) (key size flags : UInt32) :
    ShmState × Int :=
  if size = 0 then (state, -22)
  else if shmPages size > shmMaxPages then (state, -12)
  else
    match if key ≠ 0 then findKey state.shmem key else none with
    | some i => (state, if flags &&& shmExcl ≠ 0 ∧ flags &&& shmCreat ≠ 0 then -17 else i)
    | none =>
      if flags &&& shmCreat = 0 ∧ key ≠ 0 then (state, -2)
      else createSegment victims state key size

/-- The loop body of `shmem_attach`. -/
def attachPage (pd address : Nat) (segment : ShmemSegment) (vm : Vm) (i : Nat) : Vm :=
  let vm := { vm with pmem := pmemRefcountInc vm.pmem (segment.phys i) }
  mapUserPage vm (some pd) (address + i * pageSize) (segment.phys i)

/-- The region `shmem_attach` records for the process. -/
def ShmProcess.record (proc : ShmProcess) (address length : Nat) (shmid : Int) : ShmProcess :=
  let region := { proc.mmapRegions proc.mmapCount with
    start := UInt32.ofNat address, length := UInt32.ofNat length, fd := UInt32.ofInt shmid, offset := 0,
    anonymous := 0 }
  { proc with
    mmapRegions := update proc.mmapRegions proc.mmapCount region
    mmapCount := proc.mmapCount + 1 }

/-- The first record of an attachment that is free. -/
def freeAttachment (shmem : Shmem) : Option Nat :=
  (List.range shmMaxAttachments).find? fun i => !(shmem.attachments i).used

/-- A record taken, and the segment's count with it. -/
def addAttachment (shmem : Shmem) (slot id : Nat) (attachment : ShmemAttachment) : Shmem :=
  let segment := shmem.segments id
  { shmem.setSegment id { segment with attachments := segment.attachments + 1 } with
    attachments := update shmem.attachments slot attachment }

/-- `shmem_attach`, which answers `none` for zero. -/
def shmemAttach (state : ShmState) (pd : Nat) (shmid : Int) (requested : Nat) : ShmState × Option Nat :=
  match segmentFromId state.shmem shmid with
  | none => (state, none)
  | some id =>
    let segment := state.shmem.segments id
    let proc := state.procs pd
    if segment.removed ∨ proc.mmapCount ≥ processMaxMmaps then (state, none)
    else
      match findAddress proc requested (segment.pages * pageSize), freeAttachment state.shmem with
      | some address, some slot =>
        let vm := (List.range segment.pages).foldl (attachPage pd address segment) state.vm
        let shmem := addAttachment state.shmem slot id ⟨true, proc.pid, shmid, address⟩
        let proc := proc.record address (segment.pages * pageSize) shmid
        ({ state with vm := vm, shmem := shmem, procs := update state.procs pd proc },
          some address)
      | _, _ => (state, none)

/-- The loop body of `shmem_detach`. -/
def detachPage (pd address : Nat) (segment : ShmemSegment) (vm : Vm) (i : Nat) : Vm :=
  let vm := pagingUnmap vm pd (address + i * pageSize)
  { vm with pmem := pmemRefcountDec vm.pmem (segment.phys i) }

/-- The record `shmem_detach` finds. -/
def findAttachment (shmem : Shmem) (pid address : Nat) : Option Nat :=
  (List.range shmMaxAttachments).find? fun i =>
    (shmem.attachments i).used && (shmem.attachments i).pid == pid &&
      (shmem.attachments i).address == address

/-- A record given up, and the segment's count with it. -/
def dropAttachment (shmem : Shmem) (slot id : Nat) : Shmem :=
  let segment := shmem.segments id
  { shmem.setSegment id { segment with
      attachments := if segment.attachments ≠ 0 then segment.attachments - 1 else 0 } with
    attachments := update shmem.attachments slot { shmem.attachments slot with used := false } }

/-- `shmem_detach`, and whether it succeeds. -/
def shmemDetach (state : ShmState) (pd address : Nat) : ShmState × Bool :=
  if address = 0 then (state, false)
  else
    match findAttachment state.shmem (state.procs pd).pid address with
    | none => (state, false)
    | some slot =>
      let shmid := (state.shmem.attachments slot).shmid
      match segmentFromId state.shmem shmid with
      | none => (state, false)
      | some id =>
        let segment := state.shmem.segments id
        let vm := (List.range segment.pages).foldl (detachPage pd address segment) state.vm
        let state := { state with vm := vm, shmem := dropAttachment state.shmem slot id }
        (if segment.removed then state.release shmid else state, true)

/-- `shmem_control` with `GALIO_SHM_RMID`, and whether it succeeds. -/
def shmemRemove (state : ShmState) (shmid : Int) : ShmState × Bool :=
  match segmentFromId state.shmem shmid with
  | none => (state, false)
  | some id =>
    let segment := state.shmem.segments id
    let state := state.setSegment id { segment with removed := true }
    (if segment.attachments = 0 then state.release shmid else state, true)

/-- A shared-memory call, or the end of a process. -/
inductive ShmOp where
  | get (key size flags : UInt32) (victims : Nat → Option Nat)
  | attach (pd : Nat) (shmid : Int) (requested : Nat)
  | detach (pd address : Nat)
  | exit (pd : Nat)
  | remove (shmid : Int)

/-- Carrying out a call; one by a process that is not there does nothing. -/
def ShmOp.exec (state : ShmState) : ShmOp → ShmState
  | .get key size flags victims => (shmemGet victims state key size flags).1
  | .attach pd shmid requested =>
    if pd ∈ state.live then (shmemAttach state pd shmid requested).1 else state
  | .detach pd address => if pd ∈ state.live then (shmemDetach state pd address).1 else state
  | .exit pd => if pd ∈ state.live then processExit state pd else state
  | .remove shmid => (shmemRemove state shmid).1

end Galio
