import Galio.Mm.CopyOnWrite

/-! What the copy-on-write operations do to the address spaces, one operation at a time. -/

namespace Galio

open Function List Option BitVec

open Pmem

variable {frame vaddr f q i : Nat} {vm : Vm} {value entry : Word}

section Bits

@[simp] lemma isPresent_writable : isPresent (entry ||| pageRw) = isPresent entry := by
  simp [isPresent, pageRw]

@[simp] lemma isUser_writable : isUser (entry ||| pageRw) = isUser entry := by
  simp [isUser, pageRw]

@[simp] lemma entryFrame_writable : entryFrame (entry ||| pageRw) = entryFrame entry := by
  have outside : pageRw &&& frameMask = 0#64 := by decide
  rw [entryFrame, entryFrame, and_or_distrib_right, outside, or_zero]

end Bits

lemma frame_offset (entry : Word) (vaddr : Nat) :
    ((entry &&& frameMask) ||| BitVec.ofNat 64 (vaddr % 4096)) &&& frameMask = entry &&& frameMask := by
  have small : BitVec.ofNat 64 (vaddr % 4096) = BitVec.ofNat 64 (vaddr % 4096) &&& 0xFFF#64 := by
    apply BitVec.eq_of_toNat_eq
    rw [toNat_and, toNat_ofNat, show (0xFFF#64).toNat = 2 ^ 12 - 1 by decide,
      Nat.and_two_pow_sub_one_eq_mod]
    omega
  have apart : 0xFFF#64 &&& frameMask = 0#64 := by decide
  rw [small, BitVec.and_or_distrib_right, BitVec.and_assoc, BitVec.and_self, BitVec.and_assoc, apart,
    and_zero, or_zero]

/-- The entry `handle_cow_fault` gives a copied page. -/
def copiedEntry (frame : Nat) : Word :=
  (BitVec.ofNat 64 (frame * frameSize) &&& frameMask) ||| pagePresent ||| pageRw ||| pageUser

lemma copiedEntry_eq (frame : Nat) : copiedEntry frame =
    (BitVec.ofNat 64 (frame * frameSize) &&& frameMask) ||| (0x7#64 &&& pageFlags) := by
  have flags : pagePresent ||| pageRw ||| pageUser = 0x7#64 &&& pageFlags := by decide
  rw [copiedEntry, BitVec.or_assoc, BitVec.or_assoc, ← BitVec.or_assoc pagePresent, flags]

lemma isUser_copiedEntry (frame : Nat) : isUser (copiedEntry frame) := by
  rw [copiedEntry_eq, isUser_build]
  decide

lemma sharedFrame_copiedEntry (tracked : frame < maxFrames) : sharedFrame (copiedEntry frame) = [frame] := by
  have present : isPresent (copiedEntry frame) := by
    rw [copiedEntry_eq, isPresent_build]
    decide
  have target : entryFrame (copiedEntry frame) = frame := by
    rw [copiedEntry_eq, entryFrame_fresh tracked]
  rw [sharedFrame, present, isUser_copiedEntry, target]
  rfl

/-- A process reads the same words at every address. -/
def SameReads (before after : Vm) (pd : Nat) : Prop :=
  ∀ vaddr, vaddr < 2 ^ 32 → userRead after pd vaddr = userRead before pd vaddr

variable {after : Vm} {before mid spaces : Spaces} {kernel : Nat → Prop} {old pd s : Nat} {shmem : Shmem}
  {victim : Option Victim}

lemma walkEntry_iff : walkEntry vm pd vaddr = some entry ↔
      (isPresent (vm.link pd (getTableSlot vaddr)) ∧ isUser (vm.link pd (getTableSlot vaddr)) ∧
        isLarge (vm.link pd (getTableSlot vaddr)) = false) ∧
      vm.readWord (entryTable (vm.link pd (getTableSlot vaddr))) (getPageTableIndex vaddr) = entry ∧
      isPresent entry ∧ isUser entry := by
  unfold walkEntry
  dsimp only
  constructor
  · intro walked
    split at walked
    · rename_i link
      split at walked
      · rename_i page
        cases walked
        simp only [Bool.and_eq_true, Bool.not_eq_true'] at link page
        exact ⟨⟨link.1.1, link.1.2, link.2⟩, rfl, page.1, page.2⟩
      · simp at walked
    · simp at walked
  · rintro ⟨⟨present, user, small⟩, rfl, shows, own⟩
    simp [present, user, small, shows, own]

lemma walkEntry_eq_some (shape : SpaceShape kernel vm pd) (low : vaddr < 2 ^ 32) : walkEntry vm pd vaddr = some entry ↔
      UserPage vm pd (getTableSlot vaddr) (getPageTableIndex vaddr) ∧
        vm.leaf pd (getTableSlot vaddr) (getPageTableIndex vaddr) = entry := by
  have inSlots := getTableSlot_lt low
  rw [walkEntry_iff]
  constructor
  · rintro ⟨⟨present, user, _⟩, rfl, shown, own⟩
    -- A directory entry for users points to the table the software knows for the slot.
    obtain ⟨named, target, _⟩ := shape.linked _ inSlots present user
    have linked : copiesSlot vm pd (getTableSlot vaddr) := by
      simp [copiesSlot, present, user, named]
    rw [target] at shown own ⊢
    exact ⟨⟨inSlots, getPageTableIndex_lt vaddr, linked, shown, own⟩, rfl⟩
  · rintro ⟨page, rfl⟩
    have linked := page.linked
    simp only [copiesSlot, Bool.and_eq_true] at linked
    obtain ⟨⟨_, present⟩, user⟩ := linked
    obtain ⟨_, target, small⟩ := shape.linked _ inSlots present user
    rw [target]
    exact ⟨⟨present, user, small⟩, rfl, page.present, page.user⟩

lemma UserPage.getPageEntry (page : UserPage vm pd (getTableSlot vaddr) (getPageTableIndex vaddr)) :
    getPageEntry vm pd vaddr = some (vm.leaf pd (getTableSlot vaddr) (getPageTableIndex vaddr)) := by
  have linked := page.linked
  simp only [copiesSlot, Bool.and_eq_true, decide_eq_true_eq] at linked
  rw [Galio.getPageEntry, if_neg linked.1.1]
  rfl

lemma UserPage.userRead (shape : SpaceShape kernel vm pd) (low : vaddr < 2 ^ 32)
    (page : UserPage vm pd (getTableSlot vaddr) (getPageTableIndex vaddr)) : userRead vm pd vaddr = some (vm.mem
      (entryFrame (vm.leaf pd (getTableSlot vaddr) (getPageTableIndex vaddr))) (wordIndex vaddr)) := by
  rw [Galio.userRead, (walkEntry_eq_some shape low).mpr ⟨page, rfl⟩]
  rfl

lemma userRead_none (shape : SpaceShape kernel vm pd) (low : vaddr < 2 ^ 32)
    (absent : ¬UserPage vm pd (getTableSlot vaddr) (getPageTableIndex vaddr)) : userRead vm pd vaddr = none := by
  rw [userRead, map_eq_none_iff]
  refine eq_none_iff_forall_ne_some.mpr fun entry found => absent ?_
  exact ((walkEntry_eq_some shape low).mp found).1

lemma Kept.sameReads {before : Vm} (kept : Kept kernel before after pd)
    (shape : SpaceShape kernel before pd) (mem : ∀ f ∈ Galio.pageFrames before pd, after.mem f = before.mem f) :
    SameReads before after pd := by
  intro vaddr low
  by_cases page : UserPage before pd (getTableSlot vaddr) (getPageTableIndex vaddr)
  · rw [page.userRead shape low, (kept.page.mpr page).userRead (kept.shape shape) low,
      (kept.entry page.inSlots page.linked page.inTable).2.2.1, mem _ page.mem]
  · rw [userRead_none shape low page, userRead_none (kept.shape shape) low fun after => page (kept.page.mp after)]

/--
Memory was taken back or handed out beside the living pages; only entries of the kernel's tables may be cleared.
-/
structure Reclaimed (kernel : Nat → Prop) (before after : Spaces) : Prop where
  sound : Sound kernel after
  survivors : ∀ q ∈ after.live, q ∈ before.live
  pool : after.vm.pool = before.vm.pool
  mem : ∀ f j, after.vm.mem f j = before.vm.mem f j ∨ (kernel f ∧ after.vm.mem f j = 0)

lemma Reclaimed.trans {after : Spaces}
    (first : Reclaimed kernel before mid) (second : Reclaimed kernel mid after) :
    Reclaimed kernel before after where
  sound := second.sound
  survivors := fun q alive => first.survivors q (second.survivors q alive)
  pool := second.pool.trans first.pool
  mem := fun f j => by
    -- A cleared entry stays cleared.
    rcases second.mem f j with same | cleared
    · rw [same]
      exact first.mem f j
    · exact .inr cleared

lemma Sound.reclaimed (sound : Sound kernel spaces) : Reclaimed kernel spaces spaces :=
  ⟨sound, fun _ alive => alive, rfl, fun _ _ => .inl rfl⟩

section Reclaimed

variable {after : Spaces} (sound : Sound kernel before) (reclaimed : Reclaimed kernel before after)

include sound reclaimed

omit sound in
lemma Reclaimed.mem_eq (other : ¬kernel f) : after.vm.mem f = before.vm.mem f := by
  funext j
  exact (reclaimed.mem f j).resolve_right fun cleared => other cleared.1

lemma Reclaimed.kept (alive : q ∈ after.live) : Kept kernel before.vm after.vm q := by
  refine kept_of_mem (by rw [reclaimed.pool]) (fun f struct j _ => ?_) fun f _ j _ =>
    (reclaimed.mem f j).imp id And.right
  have listed := mem_structs (reclaimed.survivors q alive) struct
  rw [reclaimed.mem_eq fun own => (sound.kernelFrames f own).2.1 listed]

lemma Reclaimed.sameReads (alive : q ∈ after.live) : SameReads before.vm after.vm q := by
  have old := reclaimed.survivors q alive
  refine (reclaimed.kept sound alive).sameReads (sound.shape q old) fun f user => ?_
  have listed : f ∈ before.users := mem_flatMap.mpr ⟨q, old, user⟩
  exact reclaimed.mem_eq fun own => (sound.kernelFrames f own).1 listed

lemma Reclaimed.leaf (alive : q ∈ after.live) (page : UserPage before.vm q s i) :
    UserPage after.vm q s i ∧ after.vm.leaf q s i = before.vm.leaf q s i := by
  have kept := reclaimed.kept sound alive
  refine ⟨kept.page.mpr page, ?_⟩
  have listed := mem_structs (reclaimed.survivors q alive) (mem_structFrames_table page.inSlots page.linked)
  rw [leaf_eq_mem _ _ _ page.inTable, leaf_eq_mem _ _ _ page.inTable, kept.tableFrame,
    reclaimed.mem_eq fun own => (sound.kernelFrames _ own).2.1 listed]

lemma Reclaimed.holds (unheld : f ∉ before.users ∧ f ∉ before.structs ∧ ¬kernel f) :
    f ∉ after.users ∧ f ∉ after.structs ∧ ¬kernel f := by
  refine ⟨fun user => unheld.1 ?_, fun struct => unheld.2.1 ?_, unheld.2.2⟩
  · obtain ⟨q, alive, listed⟩ := mem_flatMap.mp user
    rw [(reclaimed.kept sound alive).pageFrames] at listed
    exact mem_flatMap.mpr ⟨q, reclaimed.survivors q alive, listed⟩
  · obtain ⟨q, alive, listed⟩ := mem_flatMap.mp struct
    rw [(reclaimed.kept sound alive).structFrames] at listed
    exact mem_structs (reclaimed.survivors q alive) listed

end Reclaimed

section Kill

variable (sound : Sound kernel spaces)

include sound

lemma Sound.reclaim_space {pid : Nat} (detached : Detached shmem pid)
    (alive : pd ∈ spaces.live) : Reclaimed kernel spaces
      ⟨(processFreeAddressSpace spaces.vm shmem pid (some pd)).1, spaces.live.erase pd⟩ := by
  rw [processFreeAddressSpace_eq spaces.vm pd detached]
  refine ⟨sound.free alive (fun f _ => ?_) rfl, fun q member => mem_of_mem_erase member, rfl,
    fun _ _ => .inl rfl⟩
  exact (sound.shape pd alive).teardown_count (fun _ listed => (sound.held _ (mem_structs alive listed)).1) f

lemma Sound.reclaim_pmem {pmem : Pmem} (clean : pmem.Clean)
    (counts : ∀ f, f ∈ spaces.users ∨ f ∈ spaces.structs →
      pmem.frameRefcount f = spaces.vm.pmem.frameRefcount f)
    (bits : ∀ f, kernel f → f < maxFrames → pmem.frameBitmap f) :
    Reclaimed kernel spaces ⟨{ spaces.vm with pmem := pmem }, spaces.live⟩ :=
  ⟨sound.of_kept (fun _ _ => kept_of_mem rfl (fun _ _ _ _ => rfl) fun _ _ _ _ => .inl rfl) clean (Nat.le_refl _)
    sound.pool (sound.counts_of_same counts) bits rfl (fun _ _ => rfl) fun _ _ _ _ => .inl rfl,
    fun _ alive => alive, rfl, fun _ _ => .inl rfl⟩

lemma Sound.reclaim_frames {frames : List Nat}
    (unheld : ∀ f ∈ frames, f ∉ spaces.users ∧ f ∉ spaces.structs ∧ ¬kernel f) : Reclaimed kernel spaces
      ⟨{ spaces.vm with pmem := spaces.vm.pmem.derefFrames frames }, spaces.live⟩ := by
  have spared : ∀ f, f ∈ spaces.users ∨ f ∈ spaces.structs ∨ kernel f → f ∉ frames := by
    intro f holder listed
    obtain ⟨notUser, notStruct, notKernel⟩ := unheld f listed
    exact holder.elim notUser fun other => other.elim notStruct notKernel
  refine sound.reclaim_pmem (sound.clean.derefFrames _) (fun f holder => ?_) fun f own tracked => ?_
  · rw [← cell_count, cell_derefFrames_of_notMem (spared f (holder.imp id .inl)), cell_count]
  · rw [← cell_used, cell_derefFrames_of_notMem (spared f (.inr (.inr own)))]
    exact (sound.kernelFrames f own).2.2 tracked

lemma Sound.reclaim_write {table : Nat} (held : kernel (table / frameSize)) (inTable : i < 512) :
    Reclaimed kernel spaces ⟨spaces.vm.writeWord table i 0, spaces.live⟩ := by
  have mem : ∀ f j, (spaces.vm.writeWord table i 0).mem f j = spaces.vm.mem f j ∨
      (kernel f ∧ (spaces.vm.writeWord table i 0).mem f j = 0) := fun f j => by
    rw [mem_writeWord, Nat.div_eq_of_lt inTable]
    split
    · rename_i here
      exact .inr ⟨here.1 ▸ held, rfl⟩
    · exact .inl rfl
  have kernelMem := fun f (_ : kernel f) j (_ : j < 512) => (mem f j).imp id And.right
  refine ⟨sound.of_kept (fun q alive => kept_of_mem rfl (fun f struct j _ => ?_) kernelMem) sound.clean
    (Nat.le_refl _) sound.pool (sound.counts_of_same fun _ _ => rfl) (fun f own => (sound.kernelFrames f own).2.2) rfl
    (fun _ _ => rfl) kernelMem, fun _ alive => alive, rfl, mem⟩
  exact (mem f j).resolve_right fun cleared =>
    (sound.kernelFrames f cleared.1).2.1 (mem_structs alive struct)

lemma Sound.reclaim_kernelPage (low : vaddr < 2 ^ 32) :
    Reclaimed kernel spaces ⟨pagingUnmapKernel spaces.vm vaddr, spaces.live⟩ := by
  unfold pagingUnmapKernel
  cases isKernel : spaces.vm.kernelPd with
  | none => exact sound.reclaimed
  | some own =>
    dsimp only
    split
    · exact sound.reclaimed
    rename_i named
    obtain ⟨held, _⟩ := (sound.kernelShape own isKernel).tables _ (getTableSlot_lt low) named
    exact sound.reclaim_write held (getPageTableIndex_lt vaddr)

lemma Sound.reclaim_kernelPages {pages : List Nat} (low : ∀ page ∈ pages, page < 2 ^ 32) :
    Reclaimed kernel spaces ⟨pages.foldl pagingUnmapKernel spaces.vm, spaces.live⟩ := by
  induction pages generalizing spaces with
  | nil => exact sound.reclaimed
  | cons page rest ih =>
    have first := sound.reclaim_kernelPage (low page mem_cons_self)
    exact first.trans (ih first.sound fun other member => low other (mem_cons_of_mem _ member))

lemma Sound.reclaim_stack {stack : KernelStack} (low : ∀ page ∈ stack.pages, page < 2 ^ 32)
    (unheld : ∀ f ∈ frameRange (stack.phys % 2 ^ 32 / frameSize) stack.frames,
      f ∉ spaces.users ∧ f ∉ spaces.structs ∧ ¬kernel f) :
    Reclaimed kernel spaces ⟨freeStack spaces.vm stack, spaces.live⟩ := by
  have unmapped := sound.reclaim_kernelPages low
  exact unmapped.trans (unmapped.sound.reclaim_frames fun f listed =>
    unmapped.holds sound (unheld f listed))

end Kill

lemma pmemTake_one (pmem : Pmem) : pmemTake pmem 1 = (pmem, 0) ∨
    ∃ frame cursor, frame < maxFrames ∧ pmem.frameBitmap frame = false ∧ pmemTake pmem 1 =
        ({ pmem.refFrames [frame] with allocationCursor := cursor }, frame * frameSize) := by
  unfold pmemTake
  cases found : pmemSearch pmem 1 with
  | none => exact .inl rfl
  | some frame =>
    have cell := framesFree_iff.mp (pmemSearch_some found) 0 (by decide)
    refine .inr ⟨frame, (frame + 1) % maxFrames, cell.1, cell.2, ?_⟩
    dsimp only
    rw [frameRange_eq (Nat.succ_le_of_lt cell.1)]
    rfl

/-- A frame that a process may map and nobody else uses. -/
structure FreshFrame (kernel : Nat → Prop) (spaces : Spaces) (frame : Nat) : Prop where
  tracked : frame < maxFrames
  notUser : frame ∉ spaces.users
  notStruct : frame ∉ spaces.structs
  notKernel : ¬kernel frame
  single : spaces.vm.pmem.frameRefcount frame = 1

/-- The memory after a frame was handed out. -/
def Spaces.handOut (spaces : Spaces) (frame cursor : Nat) : Spaces :=
  ⟨{ spaces.vm with
    pmem := { spaces.vm.pmem.refFrames [frame] with allocationCursor := cursor } }, spaces.live⟩

lemma Sound.hand_out (sound : Sound kernel spaces)
    (tracked : frame < maxFrames) (clear : spaces.vm.pmem.frameBitmap frame = false) (cursor : Nat) :
    Reclaimed kernel spaces (spaces.handOut frame cursor) ∧
      FreshFrame kernel (spaces.handOut frame cursor) frame := by
  obtain ⟨notUser, notStruct, notKernel⟩ := sound.fresh tracked clear
  have spared : ∀ f, f ∈ spaces.users ∨ f ∈ spaces.structs → f ∉ [frame] := by
    intro f holder listed
    rw [mem_singleton] at listed
    exact holder.elim (listed ▸ notUser) (listed ▸ notStruct)
  have reclaimed : Reclaimed kernel spaces (spaces.handOut frame cursor) := by
    refine sound.reclaim_pmem (sound.clean.refFrames [frame]) (fun f holder => ?_) fun f own inside => ?_
    · show (spaces.vm.pmem.refFrames [frame]).frameRefcount f = _
      rw [← cell_count, cell_refFrames_of_notMem (spared f holder), cell_count]
    · rw [sound.clean.frameBitmap_refFrames, (sound.kernelFrames f own).2.2 inside, Bool.true_or]
  obtain ⟨notUser', notStruct', _⟩ := reclaimed.holds sound ⟨notUser, notStruct, notKernel⟩
  refine ⟨reclaimed, tracked, notUser', notStruct', notKernel, ?_⟩
  show (spaces.vm.pmem.refFrames [frame]).frameRefcount frame = 1
  have zero : spaces.vm.pmem.frameRefcount frame = 0 := sound.clean frame clear
  rw [frameRefcount_refFrames tracked, zero, count_singleton_self]
  rfl

/-- A process that may be killed in place of the one that faults; its kernel stack has frames of its own. -/
structure Victim.Other (kernel : Nat → Prop) (spaces : Spaces) (pd : Nat) (victim : Victim) : Prop where
  pagedir : ∀ own, victim.pagedir = some own → own ∈ spaces.live ∧ own ≠ pd
  low : ∀ stack, victim.stack = some stack → ∀ page ∈ stack.pages, page < 2 ^ 32
  unheld : ∀ stack, victim.stack = some stack →
    ∀ f ∈ frameRange (stack.phys % 2 ^ 32 / frameSize) stack.frames,
      f ∉ spaces.users ∧ f ∉ spaces.structs ∧ ¬kernel f

section Alloc

variable (sound : Sound kernel spaces) (detached : ∀ pid, Detached shmem pid) (alive : pd ∈ spaces.live)

include sound detached alive

lemma Sound.reclaim_cleanup {victim : Victim} (other : victim.Other kernel spaces pd) :
    Reclaimed kernel spaces (processCleanup shmem spaces victim) ∧
      pd ∈ (processCleanup shmem spaces victim).live := by
  obtain ⟨pid, pagedir, stack⟩ := victim
  -- First the address space goes, if there is one.
  have space : ∃ vm live, processFreeAddressSpace spaces.vm shmem pid pagedir = (vm, shmem, none) ∧
      (pagedir.map spaces.live.erase).getD spaces.live = live ∧
      Reclaimed kernel spaces ⟨vm, live⟩ ∧ pd ∈ live := by
    cases pagedir with
    | none => exact ⟨_, _, rfl, rfl, sound.reclaimed, alive⟩
    | some own =>
      obtain ⟨owner, apart⟩ := other.pagedir own rfl
      have freed := sound.reclaim_space (detached pid) owner
      rw [processFreeAddressSpace_eq spaces.vm own (detached pid)] at freed ⊢
      exact ⟨_, _, rfl, rfl, freed, (mem_erase_of_ne apart.symm).mpr alive⟩
  obtain ⟨vm, live, freed, left, reclaimed, stays⟩ := space
  -- Then the kernel stack, if it is made of frames.
  unfold processCleanup
  rw [freed]
  rw [left]
  cases stack with
  | none => exact ⟨reclaimed, stays⟩
  | some stack =>
    refine ⟨reclaimed.trans (reclaimed.sound.reclaim_stack (other.low stack rfl) fun f listed => ?_), stays⟩
    exact reclaimed.holds sound (other.unheld stack rfl f listed)

variable (others : ∀ chosen, victim = some chosen → chosen.Other kernel spaces pd)
include others

lemma Sound.reclaim_oomKill : Reclaimed kernel spaces (processOomKill shmem victim spaces) ∧
      pd ∈ (processOomKill shmem victim spaces).live := by
  cases victim with
  | none => exact ⟨sound.reclaimed, alive⟩
  | some chosen => exact sound.reclaim_cleanup detached alive (others chosen rfl)

/-- An allocation reclaims memory if it must, and what it returns is a fresh frame. -/
theorem Sound.alloc {after : Spaces}
    {newPhys : Nat} (allocated : allocUserFrame (processOomKill shmem victim) spaces = (after, newPhys)) :
    Reclaimed kernel spaces after ∧ pd ∈ after.live ∧
      (newPhys ≠ 0 → ∃ frame, newPhys = frame * frameSize ∧ FreshFrame kernel after frame) := by
  unfold allocUserFrame at allocated
  dsimp only at allocated
  -- The killer works first, if memory is short.
  have killed : ∃ mid, (if pmemShort spaces.vm.pmem 1 = true then processOomKill shmem victim spaces
      else spaces) = mid ∧ Reclaimed kernel spaces mid ∧ pd ∈ mid.live := by
    split
    · obtain ⟨reclaimed, stays⟩ := sound.reclaim_oomKill detached alive others
      exact ⟨_, rfl, reclaimed, stays⟩
    · exact ⟨_, rfl, sound.reclaimed, alive⟩
  obtain ⟨mid, same, reclaimed, stays⟩ := killed
  rw [same] at allocated
  rcases pmemTake_one mid.vm.pmem with none | ⟨frame, cursor, tracked, clear, taken⟩
  · rw [none] at allocated
    obtain ⟨rfl, rfl⟩ := Prod.mk.injEq .. ▸ allocated
    exact ⟨reclaimed, stays, fun returned => absurd rfl returned⟩
  · rw [taken] at allocated
    obtain ⟨rfl, rfl⟩ := Prod.mk.injEq .. ▸ allocated
    obtain ⟨handed, fresh⟩ := reclaimed.sound.hand_out tracked clear cursor
    exact ⟨reclaimed.trans handed, stays, fun _ => ⟨frame, rfl, fresh⟩⟩

end Alloc

variable {slot index : Nat}

section Fault

variable (sound : Sound kernel spaces) (alive : pd ∈ spaces.live) (page : UserPage spaces.vm pd slot index)

include alive page

lemma UserPage.setEntry (pool : after.pool = spaces.vm.pool)
    (mem : ∀ f, f ∈ spaces.structs ∨ kernel f → ∀ j, after.mem f j =
      if f = spaces.vm.tableFrame pd slot ∧ j = index then value else spaces.vm.mem f j)
    (pageDirectoryCount : after.pageDirectoryCount = spaces.vm.pageDirectoryCount)
    (kernelPd : after.kernelPd = spaces.vm.kernelPd) (user : isPresent value → isUser value) :
    EntryChange kernel spaces after pd slot index value where
  alive := alive
  page := page
  others := fun q _ => by rw [pool]
  directory := by rw [pool]
  pdpt := by rw [pool]
  pageDirectory := by rw [pool]
  tables := fun s _ => .inl (by rw [pool])
  mem := fun f holder j _ => mem f holder j
  pageDirectoryCount := pageDirectoryCount
  kernelPd := kernelPd
  user := user

include sound

/-- The write bit can be set again on a page that nobody else maps. -/
theorem Sound.upgrade (lone : (spaces.vm.pmem.frameRefcount (entryFrame (spaces.vm.leaf pd slot index))).toNat ≤ 1) :
    EntryChange kernel spaces (spaces.vm.writeWord ((spaces.vm.pool pd).tables slot) index
      (spaces.vm.leaf pd slot index ||| pageRw)) pd slot index (spaces.vm.leaf pd slot index ||| pageRw) ∧
    EntryValue kernel spaces (spaces.vm.writeWord ((spaces.vm.pool pd).tables slot) index
      (spaces.vm.leaf pd slot index ||| pageRw)) (entryFrame (spaces.vm.leaf pd slot index))
      (spaces.vm.leaf pd slot index ||| pageRw) := by
  have shared : sharedFrame (spaces.vm.leaf pd slot index ||| pageRw) =
      [entryFrame (spaces.vm.leaf pd slot index)] := by
    rw [sharedFrame, isPresent_writable, isUser_writable, page.present, page.user, entryFrame_writable]
    rfl
  have mapped := count_pos_iff.mpr (page.mem_users alive)
  have counted := sound.counted (entryFrame (spaces.vm.leaf pd slot index))
  have once : spaces.users.count (entryFrame (spaces.vm.leaf pd slot index)) = 1 := by omega
  constructor
  · refine page.setEntry alive rfl (fun f _ j => ?_) rfl rfl fun _ => ?_
    · rw [mem_writeWord, Nat.div_eq_of_lt page.inTable, Nat.mod_eq_of_lt page.inTable]
      rfl
    · rw [isUser_writable]
      exact page.user
  · refine ⟨sound.clean, fun f listed => (sound.held f listed).2, fun f own => (sound.kernelFrames f own).2.2,
      fun f listed => ?_, fun f => ?_, fun f holder => ?_, fun _ _ => once⟩
    · rw [shared, mem_singleton] at listed
      exact .inl listed
    · rw [shared, writeWord_pmem]
      have := sound.counted f
      omega
    · rw [shared, mem_singleton] at holder
      refine sound.bounded f (holder.elim id fun same => ?_)
      rw [same]
      exact page.mem_users alive

omit page in
/-- An entry gives up its frame, and names a new one or none. -/
theorem Sound.replaced (user : old ∈ spaces.users) (pmem : after.pmem = spaces.vm.pmem.derefFrames [old])
    (fresh : ∀ f ∈ sharedFrame value, FreshFrame kernel spaces f) : EntryValue kernel spaces after old value := by
  have other : ∀ {f}, f ≠ old → f ∉ [old] := fun apart listed => apart (mem_singleton.mp listed)
  have once : ∀ f, (sharedFrame value).count f ≤ 1 := by
    intro f
    unfold sharedFrame
    split
    · exact count_le_length
    · exact Nat.zero_le _
  refine ⟨by rw [pmem]; exact sound.clean.derefFrames _, fun f listed => ?_, fun f own tracked => ?_,
    fun f listed => ?_, fun f => ?_, fun f holder => ?_, fun _ listed => absurd user (fresh _ listed).notUser⟩
  · have apart : f ≠ old := fun here => sound.apart _ user (here ▸ listed)
    rw [pmem, ← cell_count, cell_derefFrames_of_notMem (other apart)]
    exact (sound.held f listed).2
  · have apart : f ≠ old := fun here => (sound.kernelFrames f own).1 (here ▸ user)
    rw [pmem, ← cell_used, cell_derefFrames_of_notMem (other apart)]
    exact (sound.kernelFrames f own).2.2 tracked
  · obtain ⟨tracked, notUser, notStruct, notKernel, _⟩ := fresh f listed
    exact .inr ⟨tracked, notUser, notStruct, notKernel⟩
  · -- The new frame has one reference and one page, and the old one loses one of each.
    rw [pmem]
    by_cases new : f ∈ sharedFrame value
    · have apart : f ≠ old := fun here => (fresh f new).notUser (here ▸ user)
      rw [count_eq_zero_of_not_mem (fresh f new).notUser, ← cell_count, cell_derefFrames_of_notMem (other apart),
        cell_count, (fresh f new).single]
      exact (once f).trans (Nat.le_add_right _ _)
    · rw [count_eq_zero_of_not_mem new]
      by_cases held : f ∈ spaces.users
      · rw [frameRefcount_derefFrames (sound.tracked f held)]
        have counted := sound.counted f
        omega
      · rw [count_eq_zero_of_not_mem held]
        exact Nat.zero_le _
  · rw [pmem]
    have known := sound.known pd alive
    rcases holder with held | new
    · rw [frameRefcount_derefFrames (sound.tracked f held)]
      have bound := sound.bounded f held
      omega
    · rw [frameRefcount_derefFrames (fresh f new).tracked, (fresh f new).single]
      show 1 - _ ≤ _
      omega

omit page in
lemma Sound.copy {target : Nat} (page : UserPage spaces.vm pd (getTableSlot target) (getPageTableIndex target))
    (fresh : FreshFrame kernel spaces frame)
    (same : entryFrame (spaces.vm.leaf pd (getTableSlot target) (getPageTableIndex target)) = old / frameSize) :
    EntryChange kernel spaces (copyPage spaces.vm pd target old (frame * frameSize)) pd
      (getTableSlot target) (getPageTableIndex target) (copiedEntry frame) ∧
    EntryValue kernel spaces (copyPage spaces.vm pd target old (frame * frameSize)) (old / frameSize)
      (copiedEntry frame) := by
  have user := page.mem_users alive
  rw [same] at user
  constructor
  · refine page.setEntry alive rfl (fun f holder j => ?_) rfl rfl fun _ => isUser_copiedEntry frame
    have apart : f ≠ frame := by
      rintro rfl
      exact holder.elim fresh.notStruct fresh.notKernel
    unfold copyPage setPageEntry
    rw [mem_writeWord, Nat.div_eq_of_lt page.inTable, Nat.mod_eq_of_lt page.inTable]
    simp only [Vm.fillFrame, address_div, update_apply, if_neg apart]
    rfl
  · refine sound.replaced alive user (pmemRefcountDec_eq ..) fun f listed => ?_
    rw [sharedFrame_copiedEntry fresh.tracked, mem_singleton] at listed
    exact listed ▸ fresh

end Fault

/-- A process was served, and the others still alive read what they read before. -/
structure Served (kernel : Nat → Prop) (before after : Spaces) (pd : Nat) : Prop where
  sound : Sound kernel after
  alive : pd ∈ after.live
  survivors : ∀ q ∈ after.live, q ∈ before.live
  reads : ∀ q ∈ after.live, q ≠ pd → SameReads before.vm after.vm q

lemma Served.trans {after : Spaces} (first : Served kernel before mid pd) (second : Served kernel mid after pd) :
    Served kernel before after pd where
  sound := second.sound
  alive := second.alive
  survivors := fun q alive => first.survivors q (second.survivors q alive)
  reads := fun q alive other vaddr low => (second.reads q alive other vaddr low).trans
    (first.reads q (second.survivors q alive) other vaddr low)

lemma Reclaimed.served {after : Spaces} (sound : Sound kernel before)
    (reclaimed : Reclaimed kernel before after) (alive : pd ∈ after.live) : Served kernel before after pd :=
  ⟨reclaimed.sound, alive, reclaimed.survivors, fun _ stays _ => reclaimed.sameReads sound stays⟩

section Serve

variable (sound : Sound kernel spaces)

include sound

lemma EntryChange.served (change : EntryChange kernel spaces after pd slot index value)
    (fits : EntryValue kernel spaces after (entryFrame (spaces.vm.leaf pd slot index)) value)
    (mem : ∀ f ∈ spaces.users, after.mem f = spaces.vm.mem f) : Served kernel spaces ⟨after, spaces.live⟩ pd where
  sound := sound.entry_change change fits
  alive := change.alive
  survivors := fun _ alive => alive
  reads := fun q alive other => (change.kept sound alive other).sameReads (sound.shape q alive)
    fun f listed => mem f (mem_flatMap.mpr ⟨q, alive, listed⟩)

lemma Sound.writeEntry_mem (alive : pd ∈ spaces.live) (page : UserPage spaces.vm pd s i)
    (user : f ∈ spaces.users) (same : vm.mem f = spaces.vm.mem f) :
    (vm.writeWord ((spaces.vm.pool pd).tables s) i value).mem f = spaces.vm.mem f := by
  have struct := mem_structs alive (mem_structFrames_table page.inSlots page.linked)
  funext j
  rw [mem_writeWord, Nat.div_eq_of_lt page.inTable, if_neg, same]
  rintro ⟨rfl, _⟩
  exact sound.apart _ user struct

/-- Handling a copy-on-write fault serves the process that wrote. -/
theorem Sound.handleCowFault_served (detached : ∀ pid, Detached shmem pid)
    (alive : pd ∈ spaces.live) (low : vaddr < 2 ^ 32)
    (page : UserPage spaces.vm pd (getTableSlot vaddr) (getPageTableIndex vaddr))
    (others : ∀ chosen, victim = some chosen → chosen.Other kernel spaces pd) :
    Served kernel spaces (handleCowFault (processOomKill shmem victim) spaces pd vaddr) pd := by
  have slot := getTableSlot_page low
  have index := getPageTableIndex_page vaddr
  change getTableSlot (pageAlignDown vaddr) = _ at slot
  change getPageTableIndex (pageAlignDown vaddr) = _ at index
  rw [← slot, ← index] at page
  have nothing := sound.reclaimed.served sound alive
  have tracked := sound.tracked _ (page.mem_users alive)
  have entry : getPageEntry spaces.vm pd (pageAlignDown vaddr) =
      some (spaces.vm.leaf pd (getTableSlot (pageAlignDown vaddr))
        (getPageTableIndex (pageAlignDown vaddr))) := page.getPageEntry
  unfold handleCowFault
  dsimp only
  rw [entry]
  dsimp only
  split
  · exact nothing
  split
  · rename_i lone
    change (if entryFrame _ < maxFrames then _ else 0) ≤ 1 at lone
    rw [if_pos tracked] at lone
    obtain ⟨change, fits⟩ := sound.upgrade alive page lone
    exact change.served sound fits fun f user => sound.writeEntry_mem alive page user rfl
  · cases allocated : allocUserFrame (processOomKill shmem victim) spaces with
    | mk mid newPhys =>
      obtain ⟨reclaimed, stays, returned⟩ := sound.alloc detached alive others allocated
      have first := reclaimed.served sound stays
      split
      · exact first
      rename_i some
      obtain ⟨frame, rfl, fresh⟩ := returned some
      obtain ⟨page', leaf⟩ := reclaimed.leaf sound stays page
      apply first.trans
      rw [← leaf]
      obtain ⟨change, fits⟩ := reclaimed.sound.copy stays page' fresh rfl
      refine change.served reclaimed.sound fits fun f user => ?_
      apply reclaimed.sound.writeEntry_mem stays page' user
      show update mid.vm.mem (frame * frameSize / frameSize) _ f = _
      rw [address_div, update_of_ne]
      exact fun same => fresh.notUser (same ▸ user)

lemma Sound.userStore_served (alive : pd ∈ spaces.live) (low : vaddr < 2 ^ 32)
    (stored : userStore spaces.vm pd vaddr value = some after) : Served kernel spaces ⟨after, spaces.live⟩ pd := by
  unfold userStore at stored
  cases found : walkEntry spaces.vm pd vaddr with
  | none => simp [found] at stored
  | some entry =>
    obtain ⟨page, rfl⟩ := (walkEntry_eq_some (sound.shape pd alive) low).mp found
    simp only [found, Bool.and_eq_true] at stored
    split at stored
    · rename_i writable
      have single := sound.single pd alive _ _ page writable.2
      have user := page.mem_users alive
      have own := page.mem
      generalize spaces.vm.leaf pd (getTableSlot vaddr) (getPageTableIndex vaddr) = entry at *
      have word : wordIndex vaddr < 512 := by
        simp only [wordIndex, pageSize]
        omega
      -- Only the page's own frame changes, and it is neither a table nor the kernel's.
      have mem : ∀ f ≠ entryFrame entry, after.mem f = spaces.vm.mem f := by
        intro f apart
        cases stored
        funext j
        rw [mem_writeWord, address_div, Nat.div_eq_of_lt word, if_neg fun here => apart here.1]
      have struct : ∀ f ∈ spaces.structs, f ≠ entryFrame entry := by
        rintro f listed rfl
        exact sound.apart _ user listed
      have kernels : ∀ f, kernel f → f ≠ entryFrame entry := by
        rintro f isKernel rfl
        exact (sound.kernelFrames _ isKernel).1 user
      have kept : ∀ q ∈ spaces.live, Kept kernel spaces.vm after q := fun q alive =>
        kept_of_mem (by rw [← some.inj stored]; rfl)
          (fun f listed _ _ => by rw [mem f (struct f (mem_structs alive listed))])
          fun f isKernel _ _ => .inl (by rw [mem f (kernels f isKernel)])
      refine ⟨?_, alive, fun _ alive => alive, fun q alive' other => ?_⟩
      · refine sound.of_kept kept ?_ ?_ ?_ (sound.counts_of_same fun f _ => ?_) (fun f isKernel => ?_) ?_
          (fun own _ => ?_)
          fun f isKernel _ _ => .inl (by rw [mem f (kernels f isKernel)])
        all_goals rw [← some.inj stored]
        · exact sound.clean
        · exact Nat.le_refl _
        · exact sound.pool
        · rfl
        · exact (sound.kernelFrames f isKernel).2.2
        · rfl
        · rfl
      · refine (kept q alive').sameReads (sound.shape q alive') fun f listed => mem f ?_
        rintro rfl
        -- The page is mapped once, so a process that maps its frame is the writer.
        exact other (Lists.index_of_count_one single alive' alive listed own)
    · simp at stored

/-- A user write serves the process that writes, whether it faults or not. -/
theorem Sound.userWrite_served (detached : ∀ pid, Detached shmem pid) (alive : pd ∈ spaces.live)
    (low : vaddr < 2 ^ 32) (page : UserPage spaces.vm pd (getTableSlot vaddr) (getPageTableIndex vaddr))
    (value : Word) (others : ∀ chosen, victim = some chosen → chosen.Other kernel spaces pd) :
    Served kernel spaces (userWrite (processOomKill shmem victim) spaces pd vaddr value) pd := by
  unfold userWrite
  cases stored : userStore spaces.vm pd vaddr value with
  | some after => exact sound.userStore_served alive low stored
  | none =>
    have handled : Served kernel spaces
        (pagingHandlePageFault (processOomKill shmem victim) spaces pd vaddr) pd := by
      unfold pagingHandlePageFault
      split
      · exact sound.reclaimed.served sound alive
      · split
        · exact sound.handleCowFault_served detached alive low page others
        · exact sound.reclaimed.served sound alive
    dsimp only
    generalize pagingHandlePageFault (processOomKill shmem victim) spaces pd vaddr = mid at handled ⊢
    -- The store is tried once more, and may fail again where no frame was left for the copy.
    cases again : userStore mid.vm pd vaddr value with
    | none => exact handled
    | some after => exact handled.trans (handled.sound.userStore_served handled.alive low again)

lemma Sound.entry_page (alive : pd ∈ spaces.live) (low : vaddr < 2 ^ 32) {pte : Word}
    (found : getPageEntry spaces.vm pd vaddr = some pte) (present : isPresent pte)
    (user : isUser pte) : ∃ slot, UserPage spaces.vm pd slot (getPageTableIndex vaddr) ∧
      spaces.vm.leaf pd slot (getPageTableIndex vaddr) = pte ∧
      (spaces.vm.pool pd).tables slot = (spaces.vm.pool pd).tables (getTableSlot vaddr) ∧
      (spaces.vm.pool pd).tables (getTableSlot vaddr) ≠ 0 := by
  have inTable := getPageTableIndex_lt vaddr
  unfold getPageEntry at found
  dsimp only at found
  split at found
  · simp at found
  rename_i named
  have leaf : spaces.vm.leaf pd (getTableSlot vaddr) (getPageTableIndex vaddr) = pte :=
    some.inj found
  rcases (sound.shape pd alive).named _ (getTableSlot_lt low) named with
    ⟨slot, inSlots, linked, same⟩ | ⟨_, none⟩
  · have here : spaces.vm.leaf pd slot (getPageTableIndex vaddr) = pte := by
      rw [← leaf, Vm.leaf, Vm.leaf, same]
    exact ⟨slot, ⟨inSlots, inTable, linked, here ▸ present, here ▸ user⟩, here, same, named⟩
  · exact absurd ⟨leaf ▸ present, leaf ▸ user⟩ (none _ inTable)

lemma Sound.unmapFree (alive : pd ∈ spaces.live) (low : vaddr < 2 ^ 32)
    (users : ∀ pte, getPageEntry spaces.vm pd vaddr = some pte → isPresent pte → isUser pte) :
    Sound kernel ⟨unmapFree spaces.vm pd vaddr, spaces.live⟩ := by
  unfold Galio.unmapFree
  dsimp only
  split
  · exact sound
  rename_i mapped
  cases found : getPageEntry spaces.vm pd vaddr with
  | none => simp [pagingGetPhysical, found] at mapped
  | some pte =>
    have present : isPresent pte := by
      by_contra absent
      simp [pagingGetPhysical, found, absent] at mapped
    have phys : pagingGetPhysical spaces.vm pd vaddr &&& frameMask = pte &&& frameMask := by
      simp only [pagingGetPhysical, found, present]
      exact frame_offset pte vaddr
    obtain ⟨slot, page, leaf, same, named⟩ :=
      sound.entry_page alive low found present (users pte found present)
    have user := page.mem_users alive
    have tracked := sound.tracked _ user
    obtain ⟨absent, _⟩ | ⟨_, besides, tables⟩ := pagingUnmap_cases spaces.vm pd low
    · exact absurd absent named
    · have index := page.inTable
      have pmem : pmemFree (pagingUnmap spaces.vm pd vaddr).pmem
          (pagingGetPhysical spaces.vm pd vaddr &&& frameMask).toNat 1 =
          spaces.vm.pmem.derefFrames [entryFrame (spaces.vm.leaf pd slot (getPageTableIndex vaddr))] := by
        rw [pmemFree, phys, ← leaf, besides.pmem]
        rw [frameRange_eq (Nat.succ_le_of_lt tracked)]
        rfl
      rw [pmem]
      have change : EntryChange kernel spaces { pagingUnmap spaces.vm pd vaddr with
          pmem := spaces.vm.pmem.derefFrames
            [entryFrame (spaces.vm.leaf pd slot (getPageTableIndex vaddr))] }
          pd slot (getPageTableIndex vaddr) 0 := by
        refine ⟨alive, page, besides.others, besides.directory, besides.pdpt, besides.pageDirectory,
          fun s inSlots => ?_, fun f _ j _ => ?_, besides.pageDirectoryCount, besides.kernelPd,
          fun shown => absurd shown (by decide)⟩
        · -- The slot of the old layout forgets a table that is not linked there.
          rw [tables s]
          split
          · rename_i second
            obtain ⟨positive, rfl, twice⟩ := second
            exact .inr ⟨rfl, (sound.shape pd alive).lower _ (getTableSlot_lt low) positive named twice⟩
          · exact .inl rfl
        · rw [besides.mem, mem_writeWord, Nat.div_eq_of_lt index, Nat.mod_eq_of_lt index, ← same]
          rfl
      exact sound.entry_change change (sound.replaced alive user rfl fun _ listed => absurd listed not_mem_nil)

end Serve

end Galio
