import Galio.Mm.Fork

/-! The address spaces of several processes over one memory, and which frames each of them holds. -/

namespace Galio

open List

/-- The frames of the tables a directory links for user pages. -/
def tableFrames (vm : Vm) (pd : Nat) : List Nat :=
  (List.range pageTableSlots).flatMap fun s =>
    if copiesSlot vm pd s then [vm.tableFrame pd s] else []

/-- The frames of a directory's levels. -/
def rootFrames (vm : Vm) (pd : Nat) : List Nat :=
  directoryFrames ((vm.pool pd).directory / frameSize) ((vm.pool pd).pdpt / frameSize)
    ((vm.pool pd).pageDirectory / frameSize)

/-- The frames a directory is made of. -/
def structFrames (vm : Vm) (pd : Nat) : List Nat := rootFrames vm pd ++ tableFrames vm pd

/-- The frames of all user pages of a directory, once for each page. -/
def pageFrames (vm : Vm) (pd : Nat) : List Nat := userFrames vm pd pageTableSlots

/-- The memory, and the directories of the processes that are alive. -/
structure Spaces where
  vm : Vm
  live : List Nat

/-- The frames of all user pages of living processes, once for each entry. -/
def Spaces.users (spaces : Spaces) : List Nat := spaces.live.flatMap (pageFrames spaces.vm)

/-- The frames the living processes' directories are made of. -/
def Spaces.structs (spaces : Spaces) : List Nat := spaces.live.flatMap (structFrames spaces.vm)

/--
How a user directory is put together. A slot may name a table it does not link for users: one of the kernel
without user pages, or one that is linked at a higher slot.
-/
structure SpaceShape (kernel : Nat → Prop) (vm : Vm) (pd : Nat) : Prop where
  linked : ∀ s, s < pageTableSlots → isPresent (vm.link pd s) = true → isUser (vm.link pd s) = true →
    (vm.pool pd).tables s ≠ 0 ∧ entryTable (vm.link pd s) = (vm.pool pd).tables s ∧
      isLarge (vm.link pd s) = false
  aligned : ∀ s, s < pageTableSlots → copiesSlot vm pd s = true →
    vm.tableFrame pd s * frameSize = (vm.pool pd).tables s
  userEntries : ∀ s, s < pageTableSlots → copiesSlot vm pd s = true → ∀ i, i < 512 →
    isPresent (vm.leaf pd s i) = true → isUser (vm.leaf pd s i) = true
  lower : ∀ s, s < pageTableSlots → s ≠ 0 → (vm.pool pd).tables s ≠ 0 →
    (vm.pool pd).tables (s / 2) = (vm.pool pd).tables s → copiesSlot vm pd (s / 2) = false
  named : ∀ s, s < pageTableSlots → (vm.pool pd).tables s ≠ 0 →
    (∃ t, t < pageTableSlots ∧ copiesSlot vm pd t = true ∧
      (vm.pool pd).tables t = (vm.pool pd).tables s) ∨
    (kernel (vm.tableFrame pd s) ∧ ∀ i, i < 512 →
      ¬(isPresent (vm.leaf pd s i) = true ∧ isUser (vm.leaf pd s i) = true))

/-- The kernel's own directory, of frames that no process holds. -/
structure KernelShape (kernel : Nat → Prop) (spaces : Spaces) (pd : Nat) : Prop where
  known : pd < spaces.vm.pageDirectoryCount
  dead : pd ∉ spaces.live
  directory : ∀ j, j < 4 → kernel ((spaces.vm.pool pd).pageDirectory / frameSize + j)
  tables : ∀ s, s < pageTableSlots → (spaces.vm.pool pd).tables s ≠ 0 →
    kernel (spaces.vm.tableFrame pd s) ∧ ∀ i, i < 512 →
      ¬(isPresent (spaces.vm.leaf pd s i) = true ∧ isUser (spaces.vm.leaf pd s i) = true)

/--
Frames are shared soundly: each one held is counted, a page that may be written is mapped once, and a directory's
own frames are its alone and unmapped.
-/
structure Sound (kernel : Nat → Prop) (spaces : Spaces) : Prop where
  clean : spaces.vm.pmem.Clean
  pool : spaces.vm.pageDirectoryCount ≤ maxPageDirs
  distinct : spaces.live.Nodup
  known : ∀ pd ∈ spaces.live, pd < spaces.vm.pageDirectoryCount
  structs : spaces.structs.Nodup
  held : ∀ f ∈ spaces.structs, f < maxFrames ∧ spaces.vm.pmem.frameRefcount f ≠ 0
  apart : ∀ f ∈ spaces.users, f ∉ spaces.structs
  tracked : ∀ f ∈ spaces.users, f < maxFrames
  counted : ∀ f, spaces.users.count f ≤ (spaces.vm.pmem.frameRefcount f).toNat
  bounded : ∀ f ∈ spaces.users,
    (spaces.vm.pmem.frameRefcount f).toNat ≤ spaces.vm.pageDirectoryCount
  once : ∀ pd ∈ spaces.live, (pageFrames spaces.vm pd).Nodup
  single : ∀ pd ∈ spaces.live, ∀ s i, UserPage spaces.vm pd s i →
    isWritable (spaces.vm.leaf pd s i) = true →
      spaces.users.count (entryFrame (spaces.vm.leaf pd s i)) = 1
  shape : ∀ pd ∈ spaces.live, SpaceShape kernel spaces.vm pd
  kernelFrames : ∀ f, kernel f → f ∉ spaces.users ∧ f ∉ spaces.structs ∧
    (f < maxFrames → spaces.vm.pmem.frameBitmap f = true)
  kernelShape : ∀ pd, spaces.vm.kernelPd = some pd → KernelShape kernel spaces pd

variable {after : Vm} {f i j pd s t : Nat} {kernel : Nat → Prop} {spaces : Spaces}

section Lists

variable {vm : Vm}

lemma mem_pageFrames : f ∈ pageFrames vm pd ↔ ∃ s i, UserPage vm pd s i ∧ entryFrame (vm.leaf pd s i) = f := by
  simp only [pageFrames, userFrames, mem_flatMap, mem_range]
  constructor
  · rintro ⟨s, inSlots, listed⟩
    split at listed
    · rename_i linked
      obtain ⟨i, page, same⟩ := (mem_sharedFrames inSlots linked).mp listed
      exact ⟨s, i, page, same⟩
    · exact absurd listed not_mem_nil
  · rintro ⟨s, i, page, same⟩
    refine ⟨s, page.inSlots, ?_⟩
    rw [if_pos page.linked]
    exact (mem_sharedFrames page.inSlots page.linked).mpr ⟨i, page, same⟩

lemma UserPage.mem (page : UserPage vm pd s i) : entryFrame (vm.leaf pd s i) ∈ pageFrames vm pd :=
  mem_pageFrames.mpr ⟨s, i, page, rfl⟩

lemma UserPage.unique (once : (pageFrames vm pd).Nodup) (page : UserPage vm pd s i)
    (other : UserPage vm pd t j) (same : entryFrame (vm.leaf pd s i) = entryFrame (vm.leaf pd t j)) :
    s = t ∧ i = j := by
  -- The lists of the slots, and within a slot those of the entries, have no frame in common.
  have slot : s = t := by
    refine Lists.index_unique once (mem_range.mpr page.inSlots) (mem_range.mpr other.inSlots)
      (x := entryFrame (vm.leaf pd s i)) ?_ ?_
    · rw [if_pos page.linked]
      exact (mem_sharedFrames page.inSlots page.linked).mpr ⟨i, page, rfl⟩
    · rw [if_pos other.linked]
      exact (mem_sharedFrames other.inSlots other.linked).mpr ⟨j, other, same.symm⟩
  subst t
  have within := (nodup_flatMap.mp once).1 s (mem_range.mpr page.inSlots)
  rw [if_pos page.linked] at within
  refine ⟨rfl, Lists.index_unique within (mem_range.mpr page.inTable)
    (mem_range.mpr other.inTable) (x := entryFrame (vm.leaf pd s i)) ?_ ?_⟩
  · rw [← leaf_eq_mem vm pd s page.inTable, sharedFrame, page.present, page.user]
    simp
  · rw [← leaf_eq_mem vm pd s other.inTable, sharedFrame, other.present, other.user, same]
    simp

lemma mem_tableFrames : f ∈ tableFrames vm pd ↔
    ∃ s < pageTableSlots, copiesSlot vm pd s ∧ vm.tableFrame pd s = f := by
  simp only [tableFrames, mem_flatMap, mem_range]
  refine exists_congr fun s => and_congr_right fun _ => ?_
  cases copiesSlot vm pd s with
  | false => simp
  | true => simp [eq_comm]

lemma mem_structFrames_directory (inFour : j < 4) :
    (vm.pool pd).pageDirectory / frameSize + j ∈ structFrames vm pd := by
  apply mem_append_left _
  simp only [rootFrames, directoryFrames, mem_cons, mem_range'_1]
  omega

lemma mem_structFrames_table (inSlots : s < pageTableSlots)
    (linked : copiesSlot vm pd s) : vm.tableFrame pd s ∈ structFrames vm pd :=
  mem_append_right _ (mem_tableFrames.mpr ⟨s, inSlots, linked, rfl⟩)

lemma tableFrame_unique (distinct : (structFrames vm pd).Nodup) (inSlots : s < pageTableSlots)
    (linked : copiesSlot vm pd s) (inSlots' : t < pageTableSlots)
    (linked' : copiesSlot vm pd t) (same : vm.tableFrame pd s = vm.tableFrame pd t) : s = t := by
  refine Lists.index_unique (nodup_append.mp distinct).2.1 (mem_range.mpr inSlots)
    (mem_range.mpr inSlots') (x := vm.tableFrame pd s) ?_ ?_
  · simp [linked]
  · simp [linked', same]

lemma tableFrame_ne_directory (distinct : (structFrames vm pd).Nodup) (inSlots : s < pageTableSlots)
    (linked : copiesSlot vm pd s) (inFour : j < 4) :
    vm.tableFrame pd s ≠ (vm.pool pd).pageDirectory / frameSize + j := by
  have table := mem_tableFrames.mpr ⟨s, inSlots, linked, rfl⟩
  have root : (vm.pool pd).pageDirectory / frameSize + j ∈ rootFrames vm pd := by
    simp only [rootFrames, directoryFrames, mem_cons, mem_range'_1]
    omega
  exact fun same => (nodup_append.mp distinct).2.2 _ root _ table same.symm

end Lists

/-- A directory is as it was, but user pages may have lost their write bit and kernel entries may be cleared. -/
structure Kept (kernel : Nat → Prop) (before after : Vm) (pd : Nat) : Prop where
  pool : after.pool pd = before.pool pd
  links : ∀ s, s < pageTableSlots → after.link pd s = before.link pd s
  leaves : ∀ s, s < pageTableSlots → copiesSlot before pd s = true → ∀ i, i < 512 →
    after.leaf pd s i = before.leaf pd s i ∨ after.leaf pd s i = sharedEntry (before.leaf pd s i)
  kernelLeaves : ∀ s, s < pageTableSlots → kernel (before.tableFrame pd s) → ∀ i, i < 512 →
    after.leaf pd s i = before.leaf pd s i ∨ after.leaf pd s i = 0

variable {before : Vm}

section Kept

variable (kept : Kept kernel before after pd)

include kept

lemma Kept.copiesSlot (inSlots : s < pageTableSlots) : copiesSlot after pd s = copiesSlot before pd s := by
  rw [Galio.copiesSlot, Galio.copiesSlot, kept.links s inSlots, kept.pool]

lemma Kept.tableFrame (s : Nat) : after.tableFrame pd s = before.tableFrame pd s := by
  rw [Vm.tableFrame, Vm.tableFrame, kept.pool]

lemma Kept.structFrames : structFrames after pd = structFrames before pd := by
  have tables : tableFrames after pd = tableFrames before pd := by
    refine flatMap_congr fun s member => ?_
    rw [kept.copiesSlot (mem_range.mp member), kept.tableFrame]
  rw [Galio.structFrames, Galio.structFrames, tables, rootFrames, rootFrames, kept.pool]

lemma Kept.entry (inSlots : s < pageTableSlots) (linked : Galio.copiesSlot before pd s)
    (inTable : i < 512) : isPresent (after.leaf pd s i) = isPresent (before.leaf pd s i) ∧
      isUser (after.leaf pd s i) = isUser (before.leaf pd s i) ∧
      entryFrame (after.leaf pd s i) = entryFrame (before.leaf pd s i) ∧
      sharedFrame (after.leaf pd s i) = sharedFrame (before.leaf pd s i) := by
  rcases kept.leaves s inSlots linked i inTable with same | shared
  · rw [same]
    exact ⟨rfl, rfl, rfl, rfl⟩
  · rw [shared]
    simp

lemma Kept.pageFrames : pageFrames after pd = pageFrames before pd := by
  unfold Galio.pageFrames userFrames
  refine flatMap_congr fun s member => ?_
  have inSlots := mem_range.mp member
  rw [kept.copiesSlot inSlots]
  split
  · rename_i linked
    refine flatMap_congr fun i inside => ?_
    have inTable := mem_range.mp inside
    rw [← leaf_eq_mem after pd s inTable, ← leaf_eq_mem before pd s inTable]
    exact (kept.entry inSlots linked inTable).2.2.2
  · rfl

lemma Kept.page : UserPage after pd s i ↔ UserPage before pd s i := by
  constructor
  · intro page
    have linked := page.linked
    rw [kept.copiesSlot page.inSlots] at linked
    obtain ⟨present, user, _⟩ := kept.entry page.inSlots linked page.inTable
    exact ⟨page.inSlots, page.inTable, linked, present ▸ page.present, user ▸ page.user⟩
  · intro page
    obtain ⟨present, user, _⟩ := kept.entry page.inSlots page.linked page.inTable
    refine ⟨page.inSlots, page.inTable, ?_, present.trans page.present, user.trans page.user⟩
    rw [kept.copiesSlot page.inSlots]
    exact page.linked

lemma Kept.writable (page : UserPage before pd s i)
    (writable : isWritable (after.leaf pd s i)) : isWritable (before.leaf pd s i) := by
  rcases kept.leaves s page.inSlots page.linked i page.inTable with same | shared
  · rwa [same] at writable
  · rw [shared, isWritable_sharedEntry page.present page.user] at writable
    simp at writable

lemma Kept.shape (shape : SpaceShape kernel before pd) : SpaceShape kernel after pd where
  linked := fun s inSlots => by
    rw [kept.links s inSlots, kept.pool]
    exact shape.linked s inSlots
  aligned := fun s inSlots linked => by
    rw [kept.copiesSlot inSlots] at linked
    rw [kept.tableFrame, kept.pool]
    exact shape.aligned s inSlots linked
  userEntries := fun s inSlots linked i inTable present => by
    rw [kept.copiesSlot inSlots] at linked
    obtain ⟨samePresent, sameUser, _⟩ := kept.entry inSlots linked inTable
    rw [sameUser]
    exact shape.userEntries s inSlots linked i inTable (samePresent ▸ present)
  lower := fun s inSlots positive named same => by
    rw [kept.pool] at named same
    rw [kept.copiesSlot (by omega)]
    exact shape.lower s inSlots positive named same
  named := fun s inSlots named => by
    rw [kept.pool] at named ⊢
    rcases shape.named s inSlots named with ⟨t, inSlots', linked, same⟩ | ⟨own, none⟩
    · exact .inl ⟨t, inSlots', by rw [kept.copiesSlot inSlots']; exact linked, same⟩
    · refine .inr ⟨by rw [kept.tableFrame]; exact own, fun i inTable => ?_⟩
      rcases kept.kernelLeaves s inSlots own i inTable with same | cleared
      · rw [same]
        exact none i inTable
      · rw [cleared]
        decide

end Kept

lemma kept_of_mem (pool : after.pool pd = before.pool pd)
    (mem : ∀ f ∈ structFrames before pd, ∀ j < 512, after.mem f j = before.mem f j)
    (kernelMem : ∀ f, kernel f → ∀ j < 512,
      after.mem f j = before.mem f j ∨ after.mem f j = 0) : Kept kernel before after pd where
  pool := pool
  links := fun s inSlots => by
    rw [Vm.link, Vm.link, Vm.readWord, Vm.readWord, pool]
    exact mem _ (mem_structFrames_directory (slot_div_lt inSlots)) _ (Nat.mod_lt _ (by decide))
  leaves := fun s inSlots linked i inTable => by
    left
    rw [leaf_eq_mem _ _ _ inTable, leaf_eq_mem _ _ _ inTable, Vm.tableFrame, pool]
    exact mem _ (mem_structFrames_table inSlots linked) i inTable
  kernelLeaves := fun s _ own i inTable => by
    rw [leaf_eq_mem _ _ _ inTable, leaf_eq_mem _ _ _ inTable, Vm.tableFrame, pool]
    exact kernelMem _ own i inTable

lemma UserPage.mem_users (page : UserPage spaces.vm pd s i)
    (alive : pd ∈ spaces.live) : entryFrame (spaces.vm.leaf pd s i) ∈ spaces.users :=
  mem_flatMap.mpr ⟨pd, alive, page.mem⟩

lemma mem_structs (alive : pd ∈ spaces.live) (listed : f ∈ structFrames spaces.vm pd) : f ∈ spaces.structs :=
  mem_flatMap.mpr ⟨pd, alive, listed⟩

lemma KernelShape.keep {after : Spaces} (shape : KernelShape kernel spaces pd)
    (grows : spaces.vm.pageDirectoryCount ≤ after.vm.pageDirectoryCount)
    (dead : pd ∉ after.live) (pool : after.vm.pool pd = spaces.vm.pool pd)
    (mem : ∀ f, kernel f → ∀ j < 512, after.vm.mem f j = spaces.vm.mem f j ∨ after.vm.mem f j = 0) :
    KernelShape kernel after pd := by
  have frame : ∀ s, after.vm.tableFrame pd s = spaces.vm.tableFrame pd s := fun s => by
    rw [Vm.tableFrame, Vm.tableFrame, pool]
  refine ⟨shape.known.trans_le grows, dead, fun j inFour => ?_, fun s inSlots named => ?_⟩
  · rw [pool]
    exact shape.directory j inFour
  · rw [pool] at named
    obtain ⟨own, none⟩ := shape.tables s inSlots named
    refine ⟨by rw [frame]; exact own, fun i inTable => ?_⟩
    have entry := none i inTable
    rw [leaf_eq_mem _ _ _ inTable] at entry ⊢
    rw [frame]
    rcases mem _ own i inTable with same | cleared
    · rw [same]
      exact entry
    · rw [cleared]
      decide

section Sound

variable (sound : Sound kernel spaces)

include sound

lemma Sound.user_held (user : f ∈ spaces.users) : spaces.vm.pmem.frameRefcount f ≠ 0 := by
  have mapped := count_pos_iff.mpr user
  have counted := sound.counted f
  intro zero
  rw [zero] at counted
  simp at counted
  omega

lemma Sound.fresh (tracked : f < maxFrames) (clear : spaces.vm.pmem.frameBitmap f = false) :
    f ∉ spaces.users ∧ f ∉ spaces.structs ∧ ¬kernel f := by
  refine ⟨fun user => ?_, fun struct => ?_, fun own => ?_⟩
  · rw [sound.clean.used_of_count (sound.user_held user)] at clear
    simp at clear
  · rw [sound.clean.used_of_count (sound.held f struct).2] at clear
    simp at clear
  · rw [(sound.kernelFrames f own).2.2 tracked] at clear
    simp at clear

lemma Sound.structFrames_nodup (alive : pd ∈ spaces.live) : (structFrames spaces.vm pd).Nodup :=
  (nodup_flatMap.mp sound.structs).1 pd alive

lemma Sound.struct_owner {other : Nat} (alive : pd ∈ spaces.live) (alive' : other ∈ spaces.live)
    (listed : f ∈ structFrames spaces.vm pd) (listed' : f ∈ structFrames spaces.vm other) : pd = other :=
  Lists.index_unique sound.structs alive alive' listed listed'

lemma Sound.used (holder : f ∈ spaces.users ∨ f ∈ spaces.structs ∨ kernel f) : ¬RegionFree spaces.vm.pmem f := by
  intro free
  obtain ⟨notUser, notStruct, notKernel⟩ := sound.fresh free.tracked free.clear
  rcases holder with user | struct | own
  · exact notUser user
  · exact notStruct struct
  · exact notKernel own

lemma Sound.kernel_ne_table (alive : pd ∈ spaces.live) (own : kernel f) (inSlots : s < pageTableSlots)
    (linked : copiesSlot spaces.vm pd s) : f ≠ spaces.vm.tableFrame pd s := by
  rintro rfl
  exact (sound.kernelFrames _ own).2.1 (mem_structs alive (mem_structFrames_table inSlots linked))

lemma Sound.kernel_table (inSlots : s < pageTableSlots) (named : kernelTable spaces.vm s ≠ 0) :
    kernel (kernelTable spaces.vm s / frameSize) ∧ ∀ i < 512,
      ¬(isPresent (spaces.vm.mem (kernelTable spaces.vm s / frameSize) i) ∧
        isUser (spaces.vm.mem (kernelTable spaces.vm s / frameSize) i)) := by
  unfold kernelTable at named ⊢
  cases isKernel : spaces.vm.kernelPd with
  | none => simp [isKernel] at named
  | some pd =>
    simp only [isKernel] at named ⊢
    split at named
    · rename_i small
      rw [if_pos small]
      obtain ⟨own, none⟩ := (sound.kernelShape pd isKernel).tables s inSlots named
      refine ⟨own, fun i inTable => ?_⟩
      have entry := none i inTable
      rwa [leaf_eq_mem _ _ _ inTable] at entry
    · exact absurd rfl named

lemma Sound.forkSource (alive : pd ∈ spaces.live) : ForkSource spaces.vm pd := by
  have distinct := sound.structFrames_nodup alive
  have free : ∀ f, RegionFree spaces.vm.pmem f → f ∉ spaces.users ∧ f ∉ spaces.structs ∧ ¬kernel f :=
    fun f region => sound.fresh region.tracked region.clear
  refine ⟨⟨sound.clean, fun own isKernel => ?_, sound.known pd alive, fun j inFour region => ?_,
    (sound.shape pd alive).aligned, fun s inSlots linked region => ?_,
    fun s inSlots linked j inFour => ?_⟩, fun s i page region => ?_⟩
  · have shape := sound.kernelShape own isKernel
    exact ⟨shape.known, fun j inFour region => (free _ region).2.2 (shape.directory j inFour)⟩
  · exact (free _ region).2.1 (mem_flatMap.mpr ⟨pd, alive, mem_structFrames_directory inFour⟩)
  · exact (free _ region).2.1 (mem_flatMap.mpr ⟨pd, alive, mem_structFrames_table inSlots linked⟩)
  · exact tableFrame_ne_directory distinct inSlots linked inFour
  · exact (free _ region).1 (page.mem_users alive)

/-- Frames whose counts are unchanged are held and counted as they were. -/
theorem Sound.counts_of_same {pmem : Pmem} (same : ∀ f, f ∈ spaces.users ∨ f ∈ spaces.structs →
      pmem.frameRefcount f = spaces.vm.pmem.frameRefcount f) : (∀ f ∈ spaces.structs, pmem.frameRefcount f ≠ 0) ∧
    ∀ f ∈ spaces.users, spaces.users.count f ≤ (pmem.frameRefcount f).toNat ∧
      (pmem.frameRefcount f).toNat ≤ (spaces.vm.pmem.frameRefcount f).toNat := by
  refine ⟨fun f listed => ?_, fun f user => ?_⟩
  · rw [same f (.inr listed)]
    exact (sound.held f listed).2
  · rw [same f (.inl user)]
    exact ⟨sound.counted f, Nat.le_refl _⟩

/-- A change that keeps every directory and the kernel is sound, where the frames held stay counted. -/
theorem Sound.of_kept (kept : ∀ pd ∈ spaces.live, Kept kernel spaces.vm after pd)
    (clean : after.pmem.Clean) (grows : spaces.vm.pageDirectoryCount ≤ after.pageDirectoryCount)
    (pool : after.pageDirectoryCount ≤ maxPageDirs) (counts : (∀ f ∈ spaces.structs, after.pmem.frameRefcount f ≠ 0) ∧
      ∀ f ∈ spaces.users, spaces.users.count f ≤ (after.pmem.frameRefcount f).toNat ∧
        (after.pmem.frameRefcount f).toNat ≤ (spaces.vm.pmem.frameRefcount f).toNat)
    (bits : ∀ f, kernel f → f < maxFrames → after.pmem.frameBitmap f) (kernelPd : after.kernelPd = spaces.vm.kernelPd)
    (kernelPool : ∀ pd, spaces.vm.kernelPd = some pd → after.pool pd = spaces.vm.pool pd)
    (kernelMem : ∀ f, kernel f → ∀ j < 512, after.mem f j = spaces.vm.mem f j ∨ after.mem f j = 0) :
    Sound kernel ⟨after, spaces.live⟩ := by
  have users : Spaces.users ⟨after, spaces.live⟩ = spaces.users :=
    flatMap_congr fun pd alive => (kept pd alive).pageFrames
  have structs : Spaces.structs ⟨after, spaces.live⟩ = spaces.structs :=
    flatMap_congr fun pd alive => (kept pd alive).structFrames
  refine ⟨clean, pool, sound.distinct, fun pd alive => Nat.lt_of_lt_of_le (sound.known pd alive) grows,
    by rw [structs]; exact sound.structs, fun f listed => ?_, by rw [users, structs]; exact sound.apart,
    by rw [users]; exact sound.tracked, fun f => ?_, fun f user => ?_, fun pd alive => ?_,
    fun pd alive s i page writable => ?_, fun pd alive => (kept pd alive).shape (sound.shape pd alive),
    fun f own => ?_, fun pd isKernel => ?_⟩
  · rw [structs] at listed
    exact ⟨(sound.held f listed).1, counts.1 f listed⟩
  · rw [users]
    by_cases user : f ∈ spaces.users
    · exact (counts.2 f user).1
    · rw [count_eq_zero_of_not_mem user]
      exact Nat.zero_le _
  · rw [users] at user
    exact (counts.2 f user).2.trans ((sound.bounded f user).trans grows)
  · rw [(kept pd alive).pageFrames]
    exact sound.once pd alive
  · have old := (kept pd alive).page.mp page
    rw [users]
    rw [((kept pd alive).entry old.inSlots old.linked old.inTable).2.2.1]
    exact sound.single pd alive s i old ((kept pd alive).writable old writable)
  · rw [users, structs]
    obtain ⟨notUser, notStruct, _⟩ := sound.kernelFrames f own
    exact ⟨notUser, notStruct, bits f own⟩
  · rw [kernelPd] at isKernel
    have shape := sound.kernelShape pd isKernel
    exact shape.keep grows shape.dead (kernelPool pd isKernel) kernelMem

end Sound

end Galio
