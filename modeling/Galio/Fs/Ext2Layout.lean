import Galio.Fs.Ext2Laws

/-! How the groups of an EXT2 volume are laid out, and what the allocators do on such a volume. -/

namespace Galio

open BlockDevice

variable {group other number tableBlock offset : Nat}

/-- The blocks of one group that hold no file: bitmaps and inode table. -/
inductive Ext2Part where
  | blockBitmap (group : Nat)
  | inodeBitmap (group : Nat)
  | inodeTable (group index : Nat)
  deriving DecidableEq

namespace Ext2

/-- The groups that the blocks from the first data block on fill. -/
def groups (fs : Ext2) : Nat := (fs.blocksCount - fs.firstDataBlock + fs.blocksPerGroup - 1) / fs.blocksPerGroup

/-- The blocks of an inode table. -/
def tableBlocks (fs : Ext2) : Nat := (fs.inodesPerGroup + fs.inodesPerBlock - 1) / fs.inodesPerBlock

/-- The parts that the groups of the volume have. -/
def HasPart (fs : Ext2) : Ext2Part → Prop
  | .blockBitmap group => group < fs.groups
  | .inodeBitmap group => group < fs.groups
  | .inodeTable group index => group < fs.groups ∧ index < fs.tableBlocks

/-- The block that a part is. -/
def place (fs : Ext2) : Ext2Part → Nat
  | .blockBitmap group => fs.blockBitmap group
  | .inodeBitmap group => fs.inodeBitmap group
  | .inodeTable group index => fs.inodeTable group + index

/-- The variables of the driver describe a volume; with first data block 1 they may count one group too many. -/
structure Layout (fs : Ext2) : Prop where
  loaded : fs.Loaded
  /-- Blocks have 1, 2 or 4 KiB. -/
  sizes : fs.logBlockSize ≤ 2
  first : fs.firstDataBlock = 0 ∨ fs.firstDataBlock = 1 ∧ fs.blockSize = 1024
  nonempty : fs.firstDataBlock < fs.blocksCount
  grouped : 0 < fs.blocksPerGroup ∧ fs.blocksPerGroup ≤ 8 * fs.blockSize
  inodes : fs.inodesCount = fs.inodesPerGroup * fs.groups
  /-- What follows the descriptors in their last block is zero. -/
  beyond : ∀ group, fs.groups ≤ group → group < fs.groupCount → fs.blockBitmap group = 0 ∧ fs.inodeBitmap group = 0
  /-- A group that the volume does not have has no inodes. -/
  spare : ∀ group bit, fs.groups ≤ group → group < fs.groupCount → bit < 8 * fs.blockSize →
    fs.inodesCount < fs.inodeNumber group bit
  /-- No part of a group lies in the blocks of the superblock and the descriptors. -/
  unflushed : ∀ part, fs.HasPart part → ¬fs.Flushed (fs.place part)
  /-- The parts of the groups are different blocks. -/
  apart : ∀ part other, fs.HasPart part → fs.HasPart other → fs.place part = fs.place other → part = other
  nonzero : ∀ part, fs.HasPart part → fs.place part ≠ 0

namespace Layout

variable {fs : Ext2} (layout : fs.Layout)
include layout

lemma blockSize_cases : fs.blockSize = 1024 ∨ fs.blockSize = 2048 ∨ fs.blockSize = 4096 := by
  have size := layout.loaded.blockSize
  have small := layout.sizes
  interval_cases fs.logBlockSize <;> simp_all

lemma groups_le : fs.groups ≤ fs.groupCount := by
  rw [layout.loaded.groupCount]
  exact Nat.div_le_div_right (by omega)

lemma groups_eq (zero : fs.firstDataBlock = 0) : fs.groups = fs.groupCount := by
  rw [layout.loaded.groupCount, Ext2.groups, zero, Nat.sub_zero]

lemma descriptors : fs.groupDescBlocks ≠ 0 := by
  have some : 0 < fs.groupCount := by
    rw [layout.loaded.groupCount]
    have first := layout.nonempty
    have grouped := layout.grouped.1
    exact Nat.div_pos (by omega) grouped
  have size : 0 < fs.blockSize := by
    rcases layout.blockSize_cases with size | size | size <;> omega
  rw [layout.loaded.groupDescBlocks]
  exact Nat.ne_of_gt (Nat.div_pos (by omega) size)

lemma boot_unflushed (outside : ¬group < fs.groups) (counted : group < fs.groupCount) : ¬fs.Flushed 0 := by
  rcases layout.first with first | ⟨first, size⟩
  · rw [layout.groups_eq first] at outside
    exact absurd counted outside
  · rw [Ext2.Flushed, layout.loaded.groupDescBlock, size]
    omega

lemma blockBitmap_unflushed (counted : group < fs.groupCount) : ¬fs.Flushed (fs.blockBitmap group) := by
  by_cases real : group < fs.groups
  · exact layout.unflushed (.blockBitmap group) real
  · -- The group too many has the boot block for its bitmap.
    rw [(layout.beyond group (Nat.le_of_not_lt real) counted).1]
    exact layout.boot_unflushed real counted

lemma inodeBitmap_unflushed (counted : group < fs.groupCount) : ¬fs.Flushed (fs.inodeBitmap group) := by
  by_cases real : group < fs.groups
  · exact layout.unflushed (.inodeBitmap group) real
  · rw [(layout.beyond group (Nat.le_of_not_lt real) counted).2]
    exact layout.boot_unflushed real counted

lemma blockBitmap_part (counted : other < fs.groupCount) (part : Ext2Part) (has : fs.HasPart part)
    (same : fs.blockBitmap other = fs.place part) : .blockBitmap other = part := by
  by_cases within : other < fs.groups
  · exact layout.apart (.blockBitmap other) part within has same
  · rw [(layout.beyond other (Nat.le_of_not_lt within) counted).1] at same
    exact absurd same.symm (layout.nonzero part has)

lemma blockBitmap_alone (real : group < fs.groups) (counted : other < fs.groupCount)
    (same : fs.blockBitmap other = fs.blockBitmap group) : other = group :=
  Ext2Part.blockBitmap.inj (layout.blockBitmap_part counted (.blockBitmap group) real same)

lemma inodesPerBlock_pos : 0 < fs.inodesPerBlock := by
  rw [layout.loaded.inodesPerBlock, ext2InodeSize]
  rcases layout.blockSize_cases with size | size | size <;> simp [size]

/-- A number that is counted has its place in an inode table. -/
theorem inodePlace_eq (positive : 0 < number) (counted : number ≤ fs.inodesCount) :
    (number - 1) / fs.inodesPerGroup < fs.groups ∧ fs.HasPart (.inodeTable ((number - 1) / fs.inodesPerGroup)
        ((number - 1) % fs.inodesPerGroup / fs.inodesPerBlock)) ∧
      fs.inodePlace number = some (fs.place (.inodeTable ((number - 1) / fs.inodesPerGroup)
          ((number - 1) % fs.inodesPerGroup / fs.inodesPerBlock)),
          (number - 1) % fs.inodesPerGroup % fs.inodesPerBlock * ext2InodeSize) := by
  have inodes := layout.inodes
  have perGroup : 0 < fs.inodesPerGroup := Nat.pos_of_ne_zero fun none => by
    rw [none] at inodes
    omega
  have group : (number - 1) / fs.inodesPerGroup < fs.groups := Nat.div_lt_of_lt_mul (by omega)
  have index : (number - 1) % fs.inodesPerGroup / fs.inodesPerBlock < fs.tableBlocks := by
    have less := Nat.mod_lt (number - 1) perGroup
    have division := Nat.div_mul_le_self ((number - 1) % fs.inodesPerGroup) fs.inodesPerBlock
    have several := layout.inodesPerBlock_pos
    rw [Ext2.tableBlocks, Nat.lt_div_iff_mul_lt several]
    omega
  refine ⟨group, ⟨group, index⟩, ?_⟩
  have counts := layout.groups_le
  rw [Ext2.inodePlace, if_neg (by omega)]
  rfl

lemma inodePlace_part (found : fs.inodePlace number = some (tableBlock, offset)) :
    ∃ group index, fs.HasPart (.inodeTable group index) ∧ fs.place (.inodeTable group index) = tableBlock := by
  by_cases counted : 0 < number ∧ number ≤ fs.inodesCount
  · obtain ⟨-, has, place⟩ := layout.inodePlace_eq counted.1 counted.2
    rw [place, Option.some.injEq, Prod.mk.injEq] at found
    exact ⟨_, _, has, found.1⟩
  · rw [Ext2.inodePlace, if_pos (by omega)] at found
    simp at found

lemma inodePlace_cached (found : fs.inodePlace number = some (tableBlock, offset)) : ¬fs.Bypassed tableBlock := by
  obtain ⟨group, index, has, rfl⟩ := layout.inodePlace_part found
  exact fun direct => layout.unflushed _ has (.inl direct)

lemma blockBitmap_inodeBitmap (real : group < fs.groups) (counted : other < fs.groupCount) :
    fs.blockBitmap other ≠ fs.inodeBitmap group :=
  fun same => Ext2Part.noConfusion (layout.blockBitmap_part counted (.inodeBitmap group) real same)

lemma blockBitmap_table (counted : other < fs.groupCount)
    (found : fs.inodePlace number = some (tableBlock, offset)) : fs.blockBitmap other ≠ tableBlock := by
  obtain ⟨_, _, has, rfl⟩ := layout.inodePlace_part found
  exact fun same => Ext2Part.noConfusion (layout.blockBitmap_part counted _ has same)

lemma inodeBitmap_table (real : group < fs.groups)
    (found : fs.inodePlace number = some (tableBlock, offset)) : fs.inodeBitmap group ≠ tableBlock := by
  obtain ⟨owner, index, has, rfl⟩ := layout.inodePlace_part found
  exact fun same => Ext2Part.noConfusion (layout.apart (.inodeBitmap group) (.inodeTable owner index) real has same)

end Layout

end Ext2

lemma Ext2.Layout.after {fs after : Ext2} (layout : fs.Layout) (same : SameLayout fs after) : after.Layout := by
  have log : after.logBlockSize = fs.logBlockSize := same.superblock_get32 (by omega)
  have groups : after.groups = fs.groups := by
    rw [Ext2.groups, Ext2.groups, same.blocksCount, same.firstDataBlock, same.blocksPerGroup]
  have has : ∀ part, after.HasPart part ↔ fs.HasPart part := fun part => by
    cases part <;>
      simp only [Ext2.HasPart, groups, Ext2.tableBlocks, same.inodesPerGroup, same.inodesPerBlock]
  have place : ∀ part, after.place part = fs.place part := fun part => by
    cases part with
    | blockBitmap group => exact same.blockBitmap group
    | inodeBitmap group => exact same.inodeBitmap group
    | inodeTable group index => exact congrArg (· + index) (same.inodeTable group)
  exact {
    loaded := {
      blockSize := by rw [same.blockSize, log, layout.loaded.blockSize]
      inodesPerBlock := by rw [same.inodesPerBlock, same.blockSize, layout.loaded.inodesPerBlock]
      blocksPerGroup := by
        rw [same.blocksPerGroup, same.superblock_get32 (by omega), layout.loaded.blocksPerGroup]
      groupCount := by rw [same.groupCount, same.blocksCount, same.blocksPerGroup, layout.loaded.groupCount]
      groupDescBlocks := by rw [same.groupDescBlocks, same.groupCount, same.blockSize, layout.loaded.groupDescBlocks]
      groupDescBlock := by rw [same.groupDescBlock, same.firstDataBlock, layout.loaded.groupDescBlock] }
    sizes := log ▸ layout.sizes
    first := by rw [same.firstDataBlock, same.blockSize]; exact layout.first
    nonempty := by rw [same.firstDataBlock, same.blocksCount]; exact layout.nonempty
    grouped := by rw [same.blocksPerGroup, same.blockSize]; exact layout.grouped
    inodes := by rw [same.inodesCount, same.inodesPerGroup, groups]; exact layout.inodes
    beyond := fun group => by
      rw [groups, same.groupCount, same.blockBitmap, same.inodeBitmap]
      exact layout.beyond group
    spare := fun group bit => by
      rw [groups, same.groupCount, same.blockSize, same.inodesCount, same.inodeNumber]
      exact layout.spare group bit
    unflushed := fun part => by
      rw [has, place, same.flushed]
      exact layout.unflushed part
    apart := fun part other => by
      rw [has, has, place, place]
      exact layout.apart part other
    nonzero := fun part => by
      rw [has, place]
      exact layout.nonzero part }

end Galio
