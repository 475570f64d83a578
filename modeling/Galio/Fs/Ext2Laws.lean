import Galio.Fs.Ext2

/-! What the parts of the EXT2 driver do to the blocks and to its variables. -/

namespace Galio

open Function List

open BlockDevice

/-- The blocks of a partition with the variables of the driver. -/
abbrev Ext2Volume := Volume Buffer Ext2

/-- A volume behind the block cache. -/
abbrev Ext2Device := Device Buffer Ext2

/-- A call of the driver, with the block cache. -/
def Ext2Device.call {Result : Type} (device : Ext2Device) (program : Ext2Program Result) : Result × Ext2Device :=
  program.run ext2BlockCacheSlots device

/-- The blocks of the superblock and the group descriptors. -/
def Ext2.Flushed (fs : Ext2) (number : Nat) : Prop :=
  number = 1024 / fs.blockSize ∨ (fs.groupDescBlock ≤ number ∧ number < fs.groupDescBlock + fs.groupDescBlocks)

/-- The block of the superblock, which is written past the cache. -/
def Ext2.Bypassed (fs : Ext2) (number : Nat) : Prop := number = 1024 / fs.blockSize

/-- The cache holds what the disk holds, apart from the superblock. -/
def Ext2Device.Coherent (device : Ext2Device) : Prop :=
  BlockDevice.Coherent ext2BlockCacheSlots device.memory.Bypassed device

/-- Variables that differ only in the counts of free blocks and inodes. -/
structure SameLayout (fs after : Ext2) : Prop where
  blockSize : after.blockSize = fs.blockSize
  inodesPerBlock : after.inodesPerBlock = fs.inodesPerBlock
  blocksPerGroup : after.blocksPerGroup = fs.blocksPerGroup
  groupCount : after.groupCount = fs.groupCount
  groupDescBlock : after.groupDescBlock = fs.groupDescBlock
  groupDescBlocks : after.groupDescBlocks = fs.groupDescBlocks
  superblock : ∀ a, a < 12 ∨ 20 ≤ a → after.superblock a = fs.superblock a
  groupDescs : ∀ group a, a < 12 ∨ 16 ≤ a ∧ a < 32 → after.groupDescs (32 * group + a) = fs.groupDescs (32 * group + a)

variable {a number : Nat} {accepted : Nat → Bool} {bitmap : Buffer} {fs : Ext2} {post : Bool → Ext2Volume → Prop}

namespace SameLayout

variable {fs after last : Ext2}

lemma refl (fs : Ext2) : SameLayout fs fs :=
  ⟨rfl, rfl, rfl, rfl, rfl, rfl, fun _ _ => rfl, fun _ _ _ => rfl⟩

lemma trans (first : SameLayout fs after) (second : SameLayout after last) : SameLayout fs last where
  blockSize := second.blockSize.trans first.blockSize
  inodesPerBlock := second.inodesPerBlock.trans first.inodesPerBlock
  blocksPerGroup := second.blocksPerGroup.trans first.blocksPerGroup
  groupCount := second.groupCount.trans first.groupCount
  groupDescBlock := second.groupDescBlock.trans first.groupDescBlock
  groupDescBlocks := second.groupDescBlocks.trans first.groupDescBlocks
  superblock a outside := (second.superblock a outside).trans (first.superblock a outside)
  groupDescs group a outside := (second.groupDescs group a outside).trans (first.groupDescs group a outside)

lemma setFreeBlocks (fs : Ext2) (group count groupFree : Nat) :
    SameLayout fs (fs.setFreeBlocks group count groupFree) :=
  ⟨rfl, rfl, rfl, rfl, rfl, rfl, fun _ outside => Buffer.put_outside _ _ (by omega),
    fun _ _ outside => Buffer.put_outside _ _ (by omega)⟩

lemma setFreeInodes (fs : Ext2) (group count groupFree : Nat) :
    SameLayout fs (fs.setFreeInodes group count groupFree) :=
  ⟨rfl, rfl, rfl, rfl, rfl, rfl, fun _ outside => Buffer.put_outside _ _ (by omega),
    fun _ _ outside => Buffer.put_outside _ _ (by omega)⟩

section

variable (same : SameLayout fs after)
include same

lemma superblock_get32 (outside : a + 4 ≤ 12 ∨ 20 ≤ a) : after.superblock.get32 a = fs.superblock.get32 a :=
  Buffer.get32_congr fun _ _ => same.superblock _ (by omega)

lemma groupDescs_get32 (group : Nat) (outside : a + 4 ≤ 12) :
    after.groupDescs.get32 (32 * group + a) = fs.groupDescs.get32 (32 * group + a) :=
  Buffer.get32_congr fun _ _ => by
    rw [Nat.add_assoc]
    exact same.groupDescs _ _ (by omega)

lemma inodesCount : after.inodesCount = fs.inodesCount :=
  same.superblock_get32 (by omega)

lemma blocksCount : after.blocksCount = fs.blocksCount :=
  same.superblock_get32 (by omega)

lemma firstDataBlock : after.firstDataBlock = fs.firstDataBlock :=
  same.superblock_get32 (by omega)

lemma inodesPerGroup : after.inodesPerGroup = fs.inodesPerGroup :=
  same.superblock_get32 (by omega)

lemma blockBitmap (group : Nat) : after.blockBitmap group = fs.blockBitmap group :=
  same.groupDescs_get32 group (a := 0) (by omega)

lemma inodeBitmap (group : Nat) : after.inodeBitmap group = fs.inodeBitmap group :=
  same.groupDescs_get32 group (by omega)

lemma inodeTable (group : Nat) : after.inodeTable group = fs.inodeTable group :=
  same.groupDescs_get32 group (by omega)

lemma flushed (number : Nat) : after.Flushed number ↔ fs.Flushed number := by
  rw [Ext2.Flushed, Ext2.Flushed, same.blockSize, same.groupDescBlock, same.groupDescBlocks]

lemma bypassed : after.Bypassed = fs.Bypassed := by
  funext number
  rw [Ext2.Bypassed, Ext2.Bypassed, same.blockSize]

lemma inodePlace (number : Nat) : after.inodePlace number = fs.inodePlace number := by
  simp only [Ext2.inodePlace, same.inodesPerGroup, same.inodesCount, same.groupCount, same.inodeTable,
    same.inodesPerBlock]

lemma inodeNumber (group bit : Nat) : after.inodeNumber group bit = fs.inodeNumber group bit := by
  rw [Ext2.inodeNumber, Ext2.inodeNumber, same.inodesPerGroup]

end

end SameLayout

/-- One block written and the variables stored; only the superblock and the descriptors are written besides. -/
structure Stored (volume : Ext2Volume) (number : Nat) (block : Buffer) (memory : Ext2) (left : Ext2Volume) : Prop where
  memory : left.memory = memory
  block : left.disk number = block
  frame : ∀ other, other ≠ number → ¬volume.memory.Flushed other → left.disk other = volume.disk other

section Rules

variable {volume : Ext2Volume} {bypassed : Nat → Prop}

lemma ext2WriteDescriptorBlocks_ends {blocks : List Nat} {post : Unit → Ext2Volume → Prop}
    (inside : ∀ i ∈ blocks, i < fs.groupDescBlocks) (rest : ∀ left : Ext2Volume, left.memory = volume.memory →
      (∀ other, ¬fs.Flushed other → left.disk other = volume.disk other) → post () left) :
    (ext2WriteDescriptorBlocks fs blocks).ends bypassed post volume := by
  induction blocks generalizing volume with
  | nil => exact rest volume rfl fun _ _ => rfl
  | cons i blocks ih =>
    refine ih (fun j listed => inside j (.tail _ listed)) fun left memory frame => ?_
    refine rest left memory fun other plain => ?_
    have apart : other ≠ fs.groupDescBlock + i := fun same =>
      plain (.inr ⟨by omega, by have := inside i (.head _); omega⟩)
    rw [frame other plain, Volume.put_other _ _ apart]

lemma ext2Flush_ends (direct : bypassed (1024 / volume.memory.blockSize))
    (stored : volume.memory.groupDescBlocks ≠ 0) (rest : ∀ left : Ext2Volume, left.memory = volume.memory →
      (∀ other, ¬volume.memory.Flushed other → left.disk other = volume.disk other) → post true left) :
    (ext2WriteSuperblock >>= fun _ => ext2WriteGroupDescriptors).ends bypassed post volume := by
  refine (Program.ends_bind _).mpr ⟨direct, ?_⟩
  refine Program.ends_ite (fun absent => absurd absent stored) fun _ => (Program.ends_bind _).mpr ?_
  refine ext2WriteDescriptorBlocks_ends (fun i listed => mem_range.mp listed) fun left memory frame => ?_
  refine rest left memory fun other plain => ?_
  rw [frame other plain, Volume.put_other _ _ fun same => plain (.inl same)]

lemma ext2Flush_then {Result : Type} {next : Bool → Ext2Program Result} {post : Result → Ext2Volume → Prop}
    (direct : bypassed (1024 / volume.memory.blockSize)) (stored : volume.memory.groupDescBlocks ≠ 0)
    (rest : ∀ left : Ext2Volume, left.memory = volume.memory →
      (∀ other, ¬volume.memory.Flushed other → left.disk other = volume.disk other) →
      (next true).ends bypassed post left) :
    (ext2WriteSuperblock >>= fun _ => ext2WriteGroupDescriptors >>= next).ends bypassed post volume := by
  have both : (ext2WriteSuperblock >>= fun _ => ext2WriteGroupDescriptors).ends bypassed
      (fun written left => (next written).ends bypassed post left) volume := ext2Flush_ends direct stored rest
  simpa only [Program.ends_bind] using both

lemma ext2ReadInode_ends {post : Option Ext2Inode → Ext2Volume → Prop}
    (absent : volume.memory.inodePlace number = none → post none volume)
    (present : ∀ tableBlock offset, volume.memory.inodePlace number = some (tableBlock, offset) →
      ¬bypassed tableBlock ∧ post (some fun k => volume.disk tableBlock (offset + k)) volume) :
    (ext2ReadInode number).ends bypassed post volume := by
  unfold ext2ReadInode
  rw [Program.ends_get]
  split
  · exact absent ‹_›
  · obtain ⟨plain, rest⟩ := present _ _ ‹_›
    exact Program.ends_read_plain plain rest

lemma ext2WriteInode_ends {inode : Ext2Inode} (absent : volume.memory.inodePlace number = none → post false volume)
    (present : ∀ tableBlock offset, volume.memory.inodePlace number = some (tableBlock, offset) →
      ¬bypassed tableBlock ∧
        post true (volume.put tableBlock ((volume.disk tableBlock).put offset ext2InodeSize inode))) :
    (ext2WriteInode number inode).ends bypassed post volume := by
  unfold ext2WriteInode
  rw [Program.ends_get]
  split
  · exact absent ‹_›
  · obtain ⟨plain, rest⟩ := present _ _ ‹_›
    exact Program.ends_read_plain plain rest

lemma Ext2.clearBit_some {bit : Nat} (found : fs.clearBit bitmap accepted = some bit) :
    (bit < 8 * fs.blockSize ∧ bitmap.bit bit = false ∧ accepted bit) ∧
      ∀ before < bit, accepted before → bitmap.bit before := by
  obtain ⟨hit, listed, earlier⟩ := find?_range_eq_some.mp found
  simp only [Bool.and_eq_true, Bool.not_eq_true'] at hit
  refine ⟨⟨mem_range.mp listed, hit⟩, fun before less takes => ?_⟩
  have passed := earlier before less
  simpa [takes] using passed

lemma Ext2.clearBit_none :
    fs.clearBit bitmap accepted = none ↔ ∀ bit < 8 * fs.blockSize, accepted bit → bitmap.bit bit := by
  simp only [Ext2.clearBit, find?_eq_none, mem_range]
  refine forall₂_congr fun bit _ => ?_
  cases bitmap.bit bit <;> cases accepted bit <;> simp

/-- The first bit of a group that the block allocator takes. -/
def freeBlockBit (volume : Ext2Volume) (group : Nat) : Option Nat :=
  let fs := volume.memory
  fs.clearBit (volume.disk (fs.blockBitmap group)) fun bit => fs.blockNumber group bit < fs.blocksCount

/-- The first bit of a group that the inode allocator takes. -/
def freeInodeBit (volume : Ext2Volume) (group : Nat) : Option Nat :=
  let fs := volume.memory
  fs.clearBit (volume.disk (fs.inodeBitmap group)) fun bit => fs.inodeNumber group bit ≤ fs.inodesCount

/-- A bitmap with a bit set, and the counts that go with it, on the disk. -/
def Booked (volume : Ext2Volume) (group bit : Nat) : Ext2Volume → Prop :=
  let fs := volume.memory
  Stored volume (fs.blockBitmap group) ((volume.disk (fs.blockBitmap group)).setBit bit)
    (fs.setFreeBlocks group (fs.freeBlocksCount - 1) (fs.groupFreeBlocks group - 1))

/-- A loop over the groups goes on only where a group has no free bit. -/
theorem searchGroups_ends {loop : List Nat → Ext2Program Nat} {free : Nat → Option Nat} {groups : Nat}
    {post : Nat → Ext2Volume → Prop}
    (full : (∀ group < groups, free group = none) → (loop []).ends bypassed post volume)
    (visit : ∀ group rest, group < groups → (∀ before < group, free before = none) →
      (free group = none → (loop rest).ends bypassed post volume) → (loop (group :: rest)).ends bypassed post volume) :
    (loop (range groups)).ends bypassed post volume := by
  -- The groups before the first one of the list have no free bit.
  have search : ∀ count start, start + count = groups → (∀ before < start, free before = none) →
      (loop (range' start count)).ends bypassed post volume := by
    intro count
    induction count with
    | zero => exact fun start whole none => full fun group inside => none group (by omega)
    | succ count ih =>
      intro start whole none
      refine visit start _ (by omega) none fun missed => ih (start + 1) (by omega) fun before earlier => ?_
      rcases Nat.lt_succ_iff_lt_or_eq.mp earlier with earlier | rfl
      · exact none before earlier
      · exact missed
  rw [range_eq_range']
  exact search _ 0 (Nat.zero_add _) fun before earlier => absurd earlier (Nat.not_lt_zero _)

lemma stored_of_flushed {memory : Ext2} {block : Buffer} {left : Ext2Volume}
    (same : left.memory = memory) (plain : ¬volume.memory.Flushed number)
    (frame : ∀ other, ¬volume.memory.Flushed other → left.disk other = (volume.put number block).disk other) :
    Stored volume number block memory left := by
  refine ⟨same, ?_, fun other different plain => ?_⟩
  · rw [frame _ plain]
    exact update_self ..
  · rw [frame other plain]
    exact Volume.put_other _ _ different

/-- The block allocator takes the first bit of the first group that has one, or fails. -/
theorem ext2AllocBlock_ends {post : Nat → Ext2Volume → Prop} (hidden : bypassed = volume.memory.Bypassed)
    (stored : volume.memory.groupDescBlocks ≠ 0)
    (apart : ∀ group < volume.memory.groupCount, ¬volume.memory.Flushed (volume.memory.blockBitmap group))
    (full : (∀ group < volume.memory.groupCount, freeBlockBit volume group = none) → post ext2Failure volume)
    (taken : ∀ group bit left, group < volume.memory.groupCount → freeBlockBit volume group = some bit →
      (∀ before < group, freeBlockBit volume before = none) → Booked volume group bit left →
      post (volume.memory.blockNumber group bit) left) : ext2AllocBlock.ends bypassed post volume := by
  refine searchGroups_ends full fun group rest inside none next => ?_
  refine Program.ends_read_plain (fun direct => apart group inside (.inl (by rw [hidden] at direct; exact direct))) ?_
  split
  · exact next ‹_›
  rename_i bit found
  refine ext2Flush_then (by rw [hidden]; rfl) stored fun left memory frame => ?_
  exact taken group bit left inside found none (stored_of_flushed memory (apart group inside) frame)

/-- An inode bitmap with a bit set, and the counts, on the disk. -/
def BookedInode (volume : Ext2Volume) (group bit : Nat) : Ext2Volume → Prop :=
  let fs := volume.memory
  Stored volume (fs.inodeBitmap group) ((volume.disk (fs.inodeBitmap group)).setBit bit)
    (fs.setFreeInodes group (fs.freeInodesCount - 1) (fs.groupFreeInodes group - 1))

/-- The inode allocator takes the first free bit and zeroes its inode. -/
theorem ext2AllocInode_ends {post : Nat → Ext2Volume → Prop} (hidden : bypassed = volume.memory.Bypassed)
    (stored : volume.memory.groupDescBlocks ≠ 0)
    (apart : ∀ group < volume.memory.groupCount, ¬volume.memory.Flushed (volume.memory.inodeBitmap group))
    (full : (∀ group < volume.memory.groupCount, freeInodeBit volume group = none) → post ext2Failure volume)
    (taken : ∀ group bit left, group < volume.memory.groupCount → freeInodeBit volume group = some bit →
      (∀ before < group, freeInodeBit volume before = none) → BookedInode volume group bit left →
      (volume.memory.inodePlace (volume.memory.inodeNumber group bit) = none → post ext2Failure left) ∧
      ∀ tableBlock offset,
        volume.memory.inodePlace (volume.memory.inodeNumber group bit) = some (tableBlock, offset) →
        ¬bypassed tableBlock ∧ post (volume.memory.inodeNumber group bit)
          (left.put tableBlock ((left.disk tableBlock).put offset ext2InodeSize zeroInode))) :
    ext2AllocInode.ends bypassed post volume := by
  refine searchGroups_ends full fun group rest inside none next => ?_
  refine Program.ends_read_plain (fun direct => apart group inside (.inl (by rw [hidden] at direct; exact direct))) ?_
  split
  · exact next ‹_›
  rename_i bit found
  refine ext2Flush_then (by rw [hidden]; rfl) stored fun left memory frame => ?_
  rw [if_pos rfl, Program.ends_bind]
  obtain ⟨absent, present⟩ :=
    taken group bit left inside found none (stored_of_flushed memory (apart group inside) frame)
  have same : SameLayout volume.memory left.memory := memory ▸ .setFreeInodes ..
  exact ext2WriteInode_ends (fun missing => absent (by rwa [same.inodePlace] at missing))
    fun tableBlock offset place => present tableBlock offset (by rwa [same.inodePlace] at place)

/-- A bit of a block bitmap cleared, with the counts that go with it. -/
def returnBlock (volume : Ext2Volume) (group bit : Nat) : Ext2Volume :=
  let fs := volume.memory
  { disk := Function.update volume.disk (fs.blockBitmap group) ((volume.disk (fs.blockBitmap group)).clearBit bit)
    memory := fs.setFreeBlocks group (min (fs.freeBlocksCount + 1) 0xFFFFFFFF)
      (min (fs.groupFreeBlocks group + 1) 0xFFFF) }

/-- A block given back to the bitmap that the driver looks it up in. -/
def freeBlock (volume : Ext2Volume) (number : Nat) : Ext2Volume :=
  if number / volume.memory.blocksPerGroup ≥ volume.memory.groupCount then volume
  else returnBlock volume (number / volume.memory.blocksPerGroup)
    (number - number / volume.memory.blocksPerGroup * volume.memory.blocksPerGroup)

lemma freeBlock_layout (volume : Ext2Volume) (number : Nat) :
    SameLayout volume.memory (freeBlock volume number).memory := by
  unfold freeBlock
  split
  · exact .refl _
  · exact .setFreeBlocks ..

lemma freeBlocks_layout (volume : Ext2Volume) (numbers : List Nat) :
    SameLayout volume.memory (numbers.foldl freeBlock volume).memory := by
  induction numbers generalizing volume with
  | nil => exact .refl _
  | cons number rest ih => exact (freeBlock_layout volume number).trans (ih _)

section

variable {group : Nat} (inside : group < volume.memory.groupCount)
  (alone : ∀ other, other < volume.memory.groupCount →
    volume.memory.blockBitmap other = volume.memory.blockBitmap group → other = group)
include inside alone

/-- A block that is given back clears the bit that the driver counts it by. -/
theorem freeBlock_bit (number bit : Nat) :
    ((freeBlock volume number).disk (volume.memory.blockBitmap group)).bit bit =
      ((volume.disk (volume.memory.blockBitmap group)).bit bit &&
        !(number / volume.memory.blocksPerGroup = group ∧ number % volume.memory.blocksPerGroup = bit : Bool)) := by
  have remainder : number - number / volume.memory.blocksPerGroup * volume.memory.blocksPerGroup =
      number % volume.memory.blocksPerGroup := by
    rw [Nat.mod_eq_sub_mul_div, Nat.mul_comm]
  unfold freeBlock
  split
  · have other : number / volume.memory.blocksPerGroup ≠ group := by omega
    simp [other]
  · rename_i present
    rw [remainder]
    by_cases here : number / volume.memory.blocksPerGroup = group
    · simp only [returnBlock, here, update_self, Buffer.bit_clearBit, true_and, eq_comm, Bool.and_comm]
    have apart : volume.memory.blockBitmap group ≠
        volume.memory.blockBitmap (number / volume.memory.blocksPerGroup) :=
      fun same => here (alone _ (Nat.lt_of_not_le present) same.symm)
    simp only [returnBlock, update_of_ne apart, here, false_and, decide_false, Bool.not_false, Bool.and_true]

lemma freeBlocks_bit (numbers : List Nat) (bit : Nat) :
    ((numbers.foldl freeBlock volume).disk (volume.memory.blockBitmap group)).bit bit =
      ((volume.disk (volume.memory.blockBitmap group)).bit bit && !numbers.any fun number =>
        number / volume.memory.blocksPerGroup = group ∧ number % volume.memory.blocksPerGroup = bit) := by
  induction numbers generalizing volume with
  | nil => simp
  | cons number numbers ih =>
    have same := freeBlock_layout volume number
    have first := freeBlock_bit inside alone number bit
    rw [← same.groupCount] at inside
    simp only [← same.groupCount, ← same.blockBitmap] at alone
    have rest := ih inside alone
    rw [same.blockBitmap, same.blocksPerGroup, first] at rest
    rw [foldl_cons, rest, any_cons, Bool.not_or, Bool.and_assoc]

end

lemma ext2FreeBlocks_ends {numbers : List Nat} {post : Unit → Ext2Volume → Prop}
    (cached : ∀ group < volume.memory.groupCount, ¬bypassed (volume.memory.blockBitmap group))
    (rest : post () (numbers.foldl freeBlock volume)) : (ext2FreeBlocks numbers).ends bypassed post volume := by
  induction numbers generalizing volume with
  | nil => exact rest
  | cons number numbers ih =>
    have same := freeBlock_layout volume number
    have next : (ext2FreeBlocks numbers).ends bypassed post (freeBlock volume number) :=
      ih (fun group inside => by
        rw [same.blockBitmap]
        exact cached group (by rw [← same.groupCount]; exact inside)) rest
    refine Program.ends_ite (fun outside => ?_) fun inside => ?_
    · rwa [freeBlock, if_pos outside] at next
    · refine Program.ends_read_plain (cached _ (Nat.lt_of_not_le inside)) ?_
      rwa [freeBlock, if_neg inside] at next

/-- A volume after an inode is zeroed and its blocks are given back. -/
def emptiedInode (volume : Ext2Volume) (tableBlock offset : Nat) : Ext2Volume :=
  let inode : Ext2Inode := fun k => volume.disk tableBlock (offset + k)
  let freed := inode.leading.foldl freeBlock volume
  freed.put tableBlock ((freed.disk tableBlock).put offset ext2InodeSize zeroInode)

lemma emptiedInode_layout (volume : Ext2Volume) (tableBlock offset : Nat) :
    SameLayout volume.memory (emptiedInode volume tableBlock offset).memory := freeBlocks_layout volume _

/-- An inode bitmap with a bit cleared, and the counts, on the disk. -/
def Released (volume : Ext2Volume) (group bit : Nat) : Ext2Volume → Prop :=
  let fs := volume.memory
  Stored volume (fs.inodeBitmap group) ((volume.disk (fs.inodeBitmap group)).clearBit bit)
    (fs.setFreeInodes group (min (fs.freeInodesCount + 1) 0xFFFFFFFF) (min (fs.groupFreeInodes group + 1) 0xFFFF))

/-- An inode that exists is emptied and its bit cleared. -/
theorem ext2ClearInode_ends {tableBlock offset : Nat} (hidden : bypassed = volume.memory.Bypassed)
    (stored : volume.memory.groupDescBlocks ≠ 0)
    (place : volume.memory.inodePlace number = some (tableBlock, offset)) (table : ¬bypassed tableBlock)
    (cached : ∀ group < volume.memory.groupCount, ¬bypassed (volume.memory.blockBitmap group))
    (apart : ¬volume.memory.Flushed (volume.memory.inodeBitmap ((number - 1) / volume.memory.inodesPerGroup)))
    (rest : ∀ left, Released (emptiedInode volume tableBlock offset) ((number - 1) / volume.memory.inodesPerGroup)
      ((number - 1) % volume.memory.inodesPerGroup) left → post true left) :
    (ext2ClearInode number).ends bypassed post volume := by
  unfold ext2ClearInode
  rw [Program.ends_bind]
  refine ext2ReadInode_ends (fun absent => by simp [place] at absent) fun block start found => ?_
  obtain ⟨rfl, rfl⟩ : tableBlock = block ∧ offset = start := by
    simpa only [place, Option.some.injEq, Prod.mk.injEq] using found
  refine ⟨table, (Program.ends_bind _).mpr (ext2FreeBlocks_ends cached ?_)⟩
  -- Giving blocks back leaves every inode where it was.
  have same := freeBlocks_layout volume (Ext2Inode.leading fun k => volume.disk tableBlock (offset + k))
  rw [Program.ends_bind]
  refine ext2WriteInode_ends (fun absent => ?_) fun block start again => ?_
  · rw [same.inodePlace, place] at absent
    simp at absent
  obtain ⟨rfl, rfl⟩ : tableBlock = block ∧ offset = start := by
    rw [same.inodePlace] at again
    simpa only [place, Option.some.injEq, Prod.mk.injEq] using again
  refine ⟨table, ?_⟩
  have layout := emptiedInode_layout volume tableBlock offset
  change (ext2FreeInode number).ends bypassed post (emptiedInode volume tableBlock offset)
  generalize emptied : emptiedInode volume tableBlock offset = after at layout rest ⊢
  rw [← layout.inodesPerGroup] at apart rest
  rw [← layout.inodeBitmap] at apart
  rw [← layout.flushed] at apart
  rw [← layout.bypassed] at hidden
  refine Program.ends_read_plain (fun direct => apart (.inl (by rw [hidden] at direct; exact direct))) ?_
  refine ext2Flush_ends (by rw [hidden]; rfl) (by rw [← layout.groupDescBlocks] at stored; exact stored)
    fun left memory frame => ?_
  exact rest left (stored_of_flushed memory apart frame)

end Rules

end Galio
