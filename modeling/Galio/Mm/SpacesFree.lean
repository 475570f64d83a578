import Galio.Mm.AddressSpace
import Galio.Mm.Spaces

/-! Freeing the address space of a process keeps those of the others sound. -/

namespace Galio

open Pmem List Spaces

variable {vm : Vm} {pd s : Nat}

lemma isFreed_copiesSlot (freed : isFreed vm pd s) : copiesSlot vm pd s := by
  obtain ⟨present, user, named, _⟩ := isFreed_iff.mp freed
  simp [copiesSlot, Vm.link, present, user, named]

lemma leafFrame_sublist {entry : Word} (user : isPresent entry → isUser entry) :
    (leafFrame entry).toList.Sublist (sharedFrame entry) := by
  unfold leafFrame sharedFrame
  by_cases present : isPresent entry
  · rw [present, user present]
    split
    · exact List.Sublist.refl _
    · exact nil_sublist _
  · simp [present]

lemma levelFrames_sublist {level count : Nat} (fits : level / frameSize + count ≤ maxFrames) :
    (levelFrames level count).Sublist (range' (level / frameSize) count) := by
  unfold levelFrames
  split
  · rw [frameRange_address fits]
  · exact nil_sublist _

variable {kernel : Nat → Prop}

section Teardown

variable (shape : SpaceShape kernel vm pd) (tracked : ∀ f ∈ structFrames vm pd, f < maxFrames)

include shape tracked

lemma SpaceShape.slotFrames_sublist (inSlots : s < pageTableSlots) : (slotFrames vm pd s).Sublist
      ((if copiesSlot vm pd s then sharedFrames vm (vm.tableFrame pd s) 512 else []) ++
        (if copiesSlot vm pd s then [vm.tableFrame pd s] else [])) := by
  unfold slotFrames
  split
  · rename_i freed
    have linked := isFreed_copiesSlot freed
    rw [if_pos linked, if_pos linked]
    refine List.Sublist.append ?_ ?_
    · refine List.Sublist.flatMap_right _ fun i member => ?_
      have inTable := mem_range.mp member
      rw [← leaf_eq_mem vm pd s inTable]
      exact leafFrame_sublist (shape.userEntries s inSlots linked i inTable)
    · rw [frameRange_address (tracked _ (mem_structFrames_table inSlots linked))]
      exact List.Sublist.refl _
  · exact nil_sublist _

lemma SpaceShape.teardown_count (f : Nat) :
    (teardownFrames vm pd).count f ≤ (structFrames vm pd).count f + (pageFrames vm pd).count f := by
  have slots : (range pageTableSlots).flatMap (slotFrames vm pd) |>.Sublist
      ((range pageTableSlots).flatMap fun s =>
        (if copiesSlot vm pd s then sharedFrames vm (vm.tableFrame pd s) 512 else []) ++
          (if copiesSlot vm pd s then [vm.tableFrame pd s] else [])) :=
    List.Sublist.flatMap_right _ fun s member =>
      shape.slotFrames_sublist tracked (mem_range.mp member)
  have split := (flatMap_append_perm (range pageTableSlots)
    (fun s => if copiesSlot vm pd s then sharedFrames vm (vm.tableFrame pd s) 512 else [])
    (fun s => if copiesSlot vm pd s then [vm.tableFrame pd s] else [])).count_eq f
  have root : ∀ g ∈ rootFrames vm pd, g < maxFrames := fun g listed =>
    tracked g (mem_append_left _ listed)
  have levels : (levels vm pd).Sublist (rootFrames vm pd) := by
    simp only [rootFrames, directoryFrames, mem_cons, mem_range'_1] at root
    have last := root ((vm.pool pd).pageDirectory / frameSize + 3) (.inr (.inr (by omega)))
    have top : (levelFrames (vm.pool pd).directory 1).Sublist [(vm.pool pd).directory / frameSize] :=
      levelFrames_sublist (root _ (.inl rfl))
    have second : (levelFrames (vm.pool pd).pdpt 1).Sublist [(vm.pool pd).pdpt / frameSize] :=
      levelFrames_sublist (root _ (.inr (.inl rfl)))
    exact top.append (second.append (levelFrames_sublist (by omega)))
  have one := slots.count_le f
  have two := levels.count_le f
  rw [← split, count_append] at one
  rw [teardownFrames, count_append, structFrames, count_append]
  simp only [tableFrames, pageFrames, userFrames]
  omega

end Teardown

variable {spaces : Spaces}

lemma Spaces.without (alive : pd ∈ spaces.live) (f : Nat) :
    spaces.users.count f = (pageFrames spaces.vm pd).count f + (users ⟨spaces.vm, spaces.live.erase pd⟩).count f ∧
      spaces.structs.count f = (structFrames spaces.vm pd).count f +
        (structs ⟨spaces.vm, spaces.live.erase pd⟩).count f := by
  constructor
  · rw [users, (Lists.flatMap_split alive _).count_eq, count_append]
    rfl
  · rw [structs, (Lists.flatMap_split alive _).count_eq, count_append]
    rfl

section Free

variable (sound : Sound kernel spaces) (alive : pd ∈ spaces.live)

include sound

/-- The address spaces stay sound without one of the directories, whose frames are still counted. -/
theorem Sound.forget (pd : Nat) : Sound kernel ⟨spaces.vm, spaces.live.erase pd⟩ := by
  have alive' : ∀ q ∈ spaces.live.erase pd, q ∈ spaces.live := fun q => mem_of_mem_erase
  have part : (spaces.live.erase pd).Sublist spaces.live := erase_sublist
  have user : ∀ f ∈ Spaces.users ⟨spaces.vm, spaces.live.erase pd⟩, f ∈ spaces.users :=
    fun f listed => (part.flatMap _).subset listed
  have struct : ∀ f ∈ Spaces.structs ⟨spaces.vm, spaces.live.erase pd⟩, f ∈ spaces.structs :=
    fun f listed => (part.flatMap _).subset listed
  refine ⟨sound.clean, sound.pool, sound.distinct.erase pd, fun q member => sound.known q (alive' q member),
    sound.structs.sublist (part.flatMap _), fun f listed => sound.held f (struct f listed),
    fun f listed own => sound.apart f (user f listed) (struct f own), fun f listed => sound.tracked f (user f listed),
    fun f => ((part.flatMap _).count_le f).trans (sound.counted f), fun f listed => sound.bounded f (user f listed),
    fun q member => sound.once q (alive' q member), fun q member s i page writable => ?_,
    fun q member => sound.shape q (alive' q member), fun f own => ?_, fun q isKernel => ?_⟩
  · -- The page itself is still there, so its frame is mapped at least once.
    have single := sound.single q (alive' q member) s i page writable
    have few := (part.flatMap (pageFrames spaces.vm)).count_le (entryFrame (spaces.vm.leaf q s i))
    exact Nat.le_antisymm (few.trans single.le) (count_pos_iff.mpr (mem_flatMap.mpr ⟨q, member, page.mem⟩))
  · obtain ⟨notUser, notStruct, bit⟩ := sound.kernelFrames f own
    exact ⟨fun listed => notUser (user f listed), fun listed => notStruct (struct f listed), bit⟩
  · have shape := sound.kernelShape q isKernel
    exact shape.keep (Nat.le_refl _) (fun member => shape.dead (alive' q member)) rfl fun _ _ _ _ => .inl rfl

include alive

/-- Freeing a directory keeps the address spaces sound, where no frame is given back more often than it has it. -/
theorem Sound.free {gone : List Nat} (released : ∀ f, f ∈ spaces.users ∨ f ∈ spaces.structs ∨ kernel f →
      gone.count f ≤ (structFrames spaces.vm pd).count f + (pageFrames spaces.vm pd).count f)
    {after : Vm} (only : after = { spaces.vm with pmem := spaces.vm.pmem.derefFrames gone }) :
    Sound kernel ⟨after, spaces.live.erase pd⟩ := by
  have left := sound.forget pd
  have part : (spaces.live.erase pd).Sublist spaces.live := erase_sublist
  have without := fun f => without alive f
  subst only
  -- Frames of the other directories and of the kernel are not among those released.
  have spared : ∀ f, f ∈ Spaces.structs ⟨spaces.vm, spaces.live.erase pd⟩ ∨ kernel f → f ∉ gone := by
    intro f holder listed
    have positive := count_pos_iff.mpr listed
    have held : f ∈ spaces.structs ∨ kernel f := holder.imp_left fun other => (part.flatMap _).subset other
    have notUser : f ∉ spaces.users := fun mapped => held.elim (sound.apart f mapped)
      fun own => (sound.kernelFrames f own).1 mapped
    have noPage : (pageFrames spaces.vm pd).count f = 0 := count_eq_zero_of_not_mem
      fun page => notUser (mem_flatMap.mpr ⟨pd, alive, page⟩)
    have few := released f (.inr held)
    have own : f ∈ structFrames spaces.vm pd := count_pos_iff.mp (by omega)
    rcases holder with other | isKernel
    · have once := nodup_iff_count_le_one.mp sound.structs f
      have both := count_pos_iff.mpr other
      have sum := (without f).2
      omega
    · exact (sound.kernelFrames f isKernel).2.1 (mem_structs alive own)
  refine left.of_kept (fun q _ => kept_of_mem rfl (fun _ _ _ _ => rfl) fun _ _ _ _ => .inl rfl)
    (sound.clean.derefFrames _) (Nat.le_refl _) sound.pool ⟨fun f listed => ?_, fun f listed => ?_⟩
    (fun f own tracked => ?_) rfl (fun _ _ => rfl) fun _ _ _ _ => .inl rfl
  · rw [← cell_count, cell_derefFrames_of_notMem (spared f (.inl listed))]
    exact (left.held f listed).2
  · have user : f ∈ spaces.users := (part.flatMap _).subset listed
    have none : (structFrames spaces.vm pd).count f = 0 := count_eq_zero_of_not_mem
      fun own => sound.apart f user (mem_structs alive own)
    have few := released f (.inl user)
    have counted := sound.counted f
    have sum := (without f).1
    rw [frameRefcount_derefFrames (sound.tracked f user)]
    exact ⟨by omega, Nat.sub_le ..⟩
  · rw [← cell_used, cell_derefFrames_of_notMem (spared f (.inr own))]
    exact (sound.kernelFrames f own).2.2 tracked

end Free

end Galio
