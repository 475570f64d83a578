import Galio.Mm.PagingLayout
import Galio.Mm.PmemOwnership

/-! The state the kernel boots into, with the identity map of `boot.S`. -/

namespace Galio

open List

/-- The frame of `pml4`; `pdpt` and the four directories from `pd0` follow it. -/
def bootFrame : Nat := 512

/-- The tables `boot.S` fills: 4 GiB mapped onto themselves in 2 MiB pages. -/
def bootMemory (frame i : Nat) : Word :=
  if frame = bootFrame then if i = 0 then BitVec.ofNat 64 ((bootFrame + 1) * frameSize) ||| 0x3 else 0
  else if frame = bootFrame + 1 then
    if i < 4 then BitVec.ofNat 64 ((bootFrame + 2 + i) * frameSize) ||| 0x3 else 0
  else if bootFrame + 2 ≤ frame ∧ frame < bootFrame + 6 then
    BitVec.ofNat 64 (((frame - (bootFrame + 2)) * 512 + i) * 2 ^ 21) ||| 0x83
  else 0

/-- The state after `paging_init`, over the allocator `pmem_init` left. -/
def bootWith (pmem : Pmem) : Vm :=
  pagingInit ⟨pmem, bootMemory, fun _ => ⟨0, 0, 0, fun _ => 0⟩, 0, none⟩ (bootFrame * frameSize)

/-- The state after `pmem_init` without a memory map and `paging_init`. -/
def bootVm : Vm := bootWith (pmemInit none)

lemma bootWith_pmem (pmem : Pmem) : (bootWith pmem).pmem = pmem := rfl

lemma bootVm_clean : bootVm.pmem.Clean := by
  intro frame
  rw [bootVm, bootWith_pmem]
  exact (pmemInit_sound none frame).2

lemma bootVm_largeKernel : LargeKernel bootVm where
  clean := bootVm_clean
  held := fun kernel isKernel => by
    obtain rfl : 0 = kernel := Option.some.inj isKernel
    -- The boot tables lie below the frames the paging code allocates from.
    have low : ∀ j < 4, (bootVm.pool 0).pageDirectory / frameSize + j < regionFirst := by decide +kernel
    exact ⟨by decide, fun j below free => Nat.not_le.2 (low j below) free.first⟩
  large := by decide +kernel

lemma bootVm_made {vm : Vm} {pd : Nat} (created : pagingCreateUserDirectory bootVm = (vm, some pd)) :
    ∃ top second first, Created bootVm vm pd top second first (kernelEntry bootVm) (kernelTable bootVm) :=
  pagingCreateUserDirectory_ok bootVm_clean bootVm_largeKernel.held created

/-- The state in which the first process has its directory. -/
@[irreducible] def bootUser : Vm := (pagingCreateUserDirectory (bootWith bootPmem)).1

lemma bootVm_creates : pagingCreateUserDirectory bootVm = (bootUser, some 1) := by
  have granted : (pagingCreateUserDirectory (bootWith bootPmem)).2 = some 1 := by decide +kernel
  rw [bootVm, pmemInit_none, ← granted, bootUser]

end Galio
