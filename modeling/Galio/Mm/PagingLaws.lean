import Galio.Mm.Paging
import Galio.Mm.PmemLaws

/-! Entry bits, address arithmetic, memory writes and frame allocation of the paging code. -/

namespace Galio

open Function

open Pmem

section Bits

variable (addr flags entry : Word)

@[simp] lemma isPresent_build : isPresent ((addr &&& frameMask) ||| (flags &&& pageFlags)) = isPresent flags := by
  simp [isPresent, frameMask, pageFlags]

@[simp] lemma isUser_build : isUser ((addr &&& frameMask) ||| (flags &&& pageFlags)) = isUser flags := by
  simp [isUser, frameMask, pageFlags]

@[simp] lemma isWritable_build :
    isWritable ((addr &&& frameMask) ||| (flags &&& pageFlags)) = isWritable flags := by
  simp [isWritable, frameMask, pageFlags]

@[simp] lemma frame_build :
    ((addr &&& frameMask) ||| (flags &&& pageFlags)) &&& frameMask = addr &&& frameMask := by
  simp [frameMask, pageFlags, BitVec.and_assoc, BitVec.and_or_distrib_right]

@[simp] lemma isPresent_link : isPresent ((addr &&& tableMask) ||| (flags &&& pageFlags)) = isPresent flags := by
  simp [isPresent, tableMask, pageFlags]

@[simp] lemma isUser_link : isUser ((addr &&& tableMask) ||| (flags &&& pageFlags)) = isUser flags := by
  simp [isUser, tableMask, pageFlags]

@[simp] lemma isLarge_link : isLarge ((addr &&& tableMask) ||| (flags &&& pageFlags)) = false := by
  simp [isLarge, tableMask, pageFlags]

@[simp] lemma isPresent_directoryFlags : isPresent (pagePresent ||| pageRw ||| (flags &&& pageUser)) := by
  simp [isPresent, pagePresent]

@[simp] lemma isUser_directoryFlags : isUser (pagePresent ||| pageRw ||| (flags &&& pageUser)) = isUser flags := by
  simp [isUser, pagePresent, pageRw, pageUser]

@[simp] lemma isUser_kernel : isUser (entry &&& ~~~pageUser) = false := by
  simp [isUser, pageUser]

@[simp] lemma isPresent_kernel : isPresent (entry &&& ~~~pageUser) = isPresent entry := by
  simp [isPresent, pageUser]

@[simp] lemma isLarge_kernel : isLarge (entry &&& ~~~pageUser) = isLarge entry := by
  simp [isLarge, pageUser]

@[simp] lemma isPresent_zero : isPresent 0#64 = false := by decide

end Bits

section

variable {frame : Nat} (small : frame < 2 ^ 20)
include small

lemma page_and_frameMask :
    BitVec.ofNat 64 (frame * frameSize) &&& frameMask = BitVec.ofNat 64 (frame * frameSize) := by
  -- Both sides are twenty bits shifted up by twelve.
  have shifted : BitVec.ofNat 64 (frame * frameSize) = BitVec.ofNat 64 frame <<< 12 := by
    apply BitVec.eq_of_toNat_eq
    simp [Nat.shiftLeft_eq, frameSize]
  have mask : frameMask = (0xFFFFF#64) <<< 12 := by decide
  have low : BitVec.ofNat 64 frame &&& 0xFFFFF#64 = BitVec.ofNat 64 frame := by
    apply BitVec.eq_of_toNat_eq
    have masked : frame % 2 ^ 64 &&& 1048575 = frame % 2 ^ 64 % 2 ^ 20 :=
      Nat.and_two_pow_sub_one_eq_mod _ 20
    have whole : 1048575 % 2 ^ 64 = 1048575 := by decide
    simp only [BitVec.toNat_and, BitVec.toNat_ofNat, whole]
    omega
  rw [shifted, mask, ← BitVec.shiftLeft_and_distrib, low]

lemma page_and_tableMask :
    BitVec.ofNat 64 (frame * frameSize) &&& tableMask = BitVec.ofNat 64 (frame * frameSize) := by
  have wider : frameMask &&& tableMask = frameMask := by decide
  rw [← page_and_frameMask small, BitVec.and_assoc, wider]

lemma page_toNat : (BitVec.ofNat 64 (frame * frameSize)).toNat = frame * frameSize := by
  simp only [BitVec.toNat_ofNat, frameSize]
  omega

lemma entryTable_link (flags : Word) :
    entryTable ((BitVec.ofNat 64 (frame * frameSize) &&& tableMask) ||| (flags &&& pageFlags)) =
      frame * frameSize := by
  have outside : pageFlags &&& tableMask = 0 := by decide
  simp only [entryTable, BitVec.and_or_distrib_right, BitVec.and_assoc, outside, page_and_tableMask small]
  simp [page_toNat small]

lemma entryFrame_build (flags : Word) :
    entryFrame ((BitVec.ofNat 64 (frame * frameSize) &&& frameMask) ||| (flags &&& pageFlags)) = frame := by
  rw [entryFrame, frame_build, page_and_frameMask small, page_toNat small]
  exact Nat.mul_div_cancel frame (by decide)

end

section Addresses

variable {vaddr : Nat}

lemma getTableSlot_eq (low : vaddr < 2 ^ 32) : getTableSlot vaddr = vaddr / 2 ^ 21 := by
  simp only [getTableSlot, getPdptIndex, getPageDirectoryIndex]
  omega

lemma getTableSlot_lt (low : vaddr < 2 ^ 32) : getTableSlot vaddr < pageTableSlots := by
  rw [getTableSlot_eq low]
  simp only [pageTableSlots]
  omega

lemma legacySlot_eq (low : vaddr < 2 ^ 32) : legacySlot vaddr = getTableSlot vaddr / 2 := by
  rw [getTableSlot_eq low]
  simp only [legacySlot]
  omega

lemma legacySlot_eq_self (low : vaddr < 2 ^ 32) :
    legacySlot vaddr = getTableSlot vaddr ↔ getTableSlot vaddr = 0 := by
  rw [legacySlot_eq low]
  omega

lemma getPageTableIndex_lt (vaddr : Nat) : getPageTableIndex vaddr < 512 := by
  exact Nat.mod_lt _ (by decide)

lemma getTableSlot_page (low : vaddr < 2 ^ 32) :
    getTableSlot (vaddr / pageSize * pageSize) = getTableSlot vaddr := by
  rw [getTableSlot_eq low, getTableSlot_eq (by simp only [pageSize]; omega)]
  simp only [pageSize]
  omega

lemma getPageTableIndex_page (vaddr : Nat) :
    getPageTableIndex (vaddr / pageSize * pageSize) = getPageTableIndex vaddr := by
  simp only [getPageTableIndex, pageSize]
  omega

lemma page_eq (low : vaddr < 2 ^ 32) : vaddr / pageSize = getTableSlot vaddr * 512 + getPageTableIndex vaddr := by
  rw [getTableSlot_eq low]
  simp only [getPageTableIndex, pageSize]
  omega

lemma getPml4Index_eq (low : vaddr < 2 ^ 32) : getPml4Index vaddr = 0 := by
  simp only [getPml4Index]
  omega

/-- The first address of the page with a given slot and index. -/
def pageAddress (slot index : Nat) : Nat := slot * 2 ^ 21 + index * 2 ^ 12

lemma getTableSlot_pageAddress {slot index : Nat} (inSlot : slot < pageTableSlots)
    (inTable : index < 512) : getTableSlot (pageAddress slot index) = slot := by
  simp only [pageAddress, pageTableSlots] at inSlot ⊢
  rw [getTableSlot_eq (by omega)]
  omega

lemma getPageTableIndex_pageAddress {slot index : Nat} (inTable : index < 512) :
    getPageTableIndex (pageAddress slot index) = index := by
  simp only [getPageTableIndex, pageAddress]
  omega

end Addresses

section Memory

variable (vm : Vm) (table other i j frame pd pd' slot slot' : Nat) (value : Word)
  (content : Nat → Word) (dir : PageDirectory)

lemma readWord_writeWord : (vm.writeWord table i value).readWord other j =
      if other / frameSize + j / 512 = table / frameSize + i / 512 ∧ j % 512 = i % 512 then value
      else vm.readWord other j := by
  simp only [Vm.readWord, Vm.writeWord]
  by_cases sameFrame : other / frameSize + j / 512 = table / frameSize + i / 512
  · by_cases sameIndex : j % 512 = i % 512
    · simp [sameFrame, sameIndex]
    · simp [sameFrame, sameIndex]
  · simp [sameFrame]

@[simp] lemma writeWord_pool : (vm.writeWord table i value).pool = vm.pool := rfl

@[simp] lemma writeWord_pmem : (vm.writeWord table i value).pmem = vm.pmem := rfl

@[simp] lemma writeWord_pageDirectoryCount :
    (vm.writeWord table i value).pageDirectoryCount = vm.pageDirectoryCount := rfl

@[simp] lemma writeWord_kernelPd : (vm.writeWord table i value).kernelPd = vm.kernelPd := rfl

@[simp] lemma fillFrame_pool : (vm.fillFrame frame content).pool = vm.pool := rfl

@[simp] lemma fillFrame_pmem : (vm.fillFrame frame content).pmem = vm.pmem := rfl

@[simp] lemma fillFrame_pageDirectoryCount :
    (vm.fillFrame frame content).pageDirectoryCount = vm.pageDirectoryCount := rfl

@[simp] lemma fillFrame_kernelPd : (vm.fillFrame frame content).kernelPd = vm.kernelPd := rfl

lemma setPd_pool : (vm.setPd pd dir).pool pd' = if pd' = pd then dir else vm.pool pd' := by
  simp only [Vm.setPd, update_apply]

lemma setTable_tables : ((vm.setTable pd slot table).pool pd').tables slot' =
      if pd' = pd ∧ slot' = slot then table else (vm.pool pd').tables slot' := by
  simp only [Vm.setTable, setPd_pool]
  by_cases same : pd' = pd
  · subst pd'; simp [update_apply]
  · simp [same]

@[simp] lemma setTable_pageDirectory :
    ((vm.setTable pd slot table).pool pd').pageDirectory = (vm.pool pd').pageDirectory := by
  simp only [Vm.setTable, setPd_pool]
  split
  · rename_i same; rw [same]
  · rfl

@[simp] lemma setTable_directory : ((vm.setTable pd slot table).pool pd').directory = (vm.pool pd').directory := by
  simp only [Vm.setTable, setPd_pool]
  split
  · rename_i same; rw [same]
  · rfl

@[simp] lemma setTable_pdpt : ((vm.setTable pd slot table).pool pd').pdpt = (vm.pool pd').pdpt := by
  simp only [Vm.setTable, setPd_pool]
  split
  · rename_i same; rw [same]
  · rfl

end Memory

end Galio
