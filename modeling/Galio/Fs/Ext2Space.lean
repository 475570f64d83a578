import Mathlib.Data.List.TakeWhile
import Galio.Fs.Ext2Layout

/-! Which blocks the EXT2 driver hands out and gives back on a volume laid out as `mkfs.ext2` does. -/

namespace Galio

open BlockDevice List Nat

variable {group bit number : Nat} {kilo : Bool}

/-- The block that a bit of a bitmap stands for on the disk. -/
def Ext2.standsFor (fs : Ext2) (group bit : Nat) : Nat := fs.firstDataBlock + group * fs.blocksPerGroup + bit

/-- The blocks behind a pointer, through some levels of indirect blocks. -/
def blocksBehind (blockSize : Nat) (disk : Nat → Buffer) : Nat → Nat → List Nat
  | 0, number => if number = 0 then [] else [number]
  | level + 1, number =>
    if number = 0 then []
    else number :: (List.range (blockSize / 4)).flatMap fun k =>
      blocksBehind blockSize disk level ((disk number).get32 (4 * k))

/-- The direct blocks of an inode, and those behind its three indirect ones. -/
def inodeBlocks (volume : Ext2Volume) (inode : Ext2Inode) : List Nat :=
  let behind := blocksBehind volume.memory.blockSize volume.disk
  (List.range ext2DirectBlocks).flatMap (fun i => behind 0 (inode.block i)) ++
    (behind 1 (inode.block 12) ++ behind 2 (inode.block 13) ++ behind 3 (inode.block 14))

/-- An inode whose bit is set. -/
def LiveInode (volume : Ext2Volume) (number : Nat) : Prop :=
  let fs := volume.memory
  0 < number ∧ number ≤ fs.inodesCount ∧
    (volume.disk (fs.inodeBitmap ((number - 1) / fs.inodesPerGroup))).bit ((number - 1) % fs.inodesPerGroup) = true

/-- The inode of a number as it stands on the disk. -/
def inodeAt (volume : Ext2Volume) (number : Nat) : Ext2Inode :=
  match volume.memory.inodePlace number with
  | some (tableBlock, offset) => fun k => volume.disk tableBlock (offset + k)
  | none => zeroInode

/-- Files and directories have pointers to blocks, and other inodes when they count blocks. -/
def Ext2Inode.hasBlocks (inode : Ext2Inode) : Bool :=
  inode.mode / 0x1000 = 8 || inode.mode / 0x1000 = 4 || inode.blocks ≠ 0

/-- A block that a live inode, a group, the superblock or a descriptor occupies. -/
def Occupied (volume : Ext2Volume) (kept : Nat → Prop) (number : Nat) : Prop :=
  kept number ∨ (∃ part, volume.memory.HasPart part ∧ volume.memory.place part = number) ∨
    ∃ owner, LiveInode volume owner ∧ (inodeAt volume owner).hasBlocks ∧
      number ∈ inodeBlocks volume (inodeAt volume owner)

/-- A volume laid out as `mkfs.ext2` does; the blocks kept hold superblocks and descriptors. -/
structure MkfsVolume (volume : Ext2Volume) (kept : Nat → Prop) : Prop where
  layout : volume.memory.Layout
  first : volume.memory.firstDataBlock = if volume.memory.blockSize = 1024 then 1 else 0
  superblock : kept volume.memory.firstDataBlock
  described : ∀ i, i < volume.memory.groupDescBlocks → kept (volume.memory.groupDescBlock + i)
  /-- What is occupied are blocks of the volume. -/
  inside : ∀ number, Occupied volume kept number →
    volume.memory.firstDataBlock ≤ number ∧ number < volume.memory.blocksCount
  /-- A bit is set for a block that is occupied and where no block is. -/
  marks : ∀ group bit, group < volume.memory.groups → bit < 8 * volume.memory.blockSize →
    ((volume.disk (volume.memory.blockBitmap group)).bit bit = true ↔
      volume.memory.blocksPerGroup ≤ bit ∨ volume.memory.blocksCount ≤ volume.memory.standsFor group bit ∨
        Occupied volume kept (volume.memory.standsFor group bit))

/-- The block allocator fails or returns a block of the volume that nothing occupies. -/
def AllocSafe (device : Ext2Device) (kept : Nat → Prop) : Prop :=
  let number := (device.call ext2AllocBlock).1
  number = ext2Failure ∨ (device.memory.firstDataBlock ≤ number ∧ number < device.memory.blocksCount ∧
    ¬Occupied device.toVolume kept number)

/-- Freeing an inode clears exactly the bits of its blocks. -/
def ClearExact (device : Ext2Device) (number : Nat) : Prop :=
  let left := (device.call (ext2ClearInode number)).2
  ∀ group bit, group < device.memory.groups → bit < 8 * device.memory.blockSize →
    ((left.disk (device.memory.blockBitmap group)).bit bit = true ↔
      (device.disk (device.memory.blockBitmap group)).bit bit = true ∧
        ¬(bit < device.memory.blocksPerGroup ∧
          device.memory.standsFor group bit ∈ inodeBlocks device.toVolume (inodeAt device.toVolume number)))

/-- No bitmap that the block allocator reads has a clear bit it accepts. -/
def NoFreeBit (volume : Ext2Volume) : Prop :=
  ∀ group bit, group < volume.memory.groupCount → bit < 8 * volume.memory.blockSize →
    volume.memory.blockNumber group bit < volume.memory.blocksCount →
    (volume.disk (volume.memory.blockBitmap group)).bit bit = true

variable {volume : Ext2Volume}

lemma freeBlockBit_none : freeBlockBit volume group = none ↔ ∀ bit < 8 * volume.memory.blockSize,
      volume.memory.blockNumber group bit < volume.memory.blocksCount →
      (volume.disk (volume.memory.blockBitmap group)).bit bit := by
  rw [freeBlockBit, Ext2.clearBit_none]
  simp only [decide_eq_true_eq]

lemma freeBlockBit_some (found : freeBlockBit volume group = some bit) :
    (bit < 8 * volume.memory.blockSize ∧ (volume.disk (volume.memory.blockBitmap group)).bit bit = false ∧
      volume.memory.blockNumber group bit < volume.memory.blocksCount) ∧
      ∀ before < bit, volume.memory.blockNumber group before < volume.memory.blocksCount →
        (volume.disk (volume.memory.blockBitmap group)).bit before := by
  simpa only [decide_eq_true_eq] using Ext2.clearBit_some found

lemma Ext2.standsFor_divided {fs : Ext2} (inside : fs.firstDataBlock ≤ number) :
    fs.standsFor ((number - fs.firstDataBlock) / fs.blocksPerGroup)
      ((number - fs.firstDataBlock) % fs.blocksPerGroup) = number := by
  have division := div_add_mod' (number - fs.firstDataBlock) fs.blocksPerGroup
  rw [Ext2.standsFor]
  omega

namespace MkfsVolume

variable {kept : Nat → Prop} (image : MkfsVolume volume kept)
include image

lemma group_lt (inside : volume.memory.standsFor group bit < volume.memory.blocksCount) :
    group < volume.memory.groups := by
  have grouped := image.layout.grouped.1
  rw [Ext2.standsFor] at inside
  rw [Ext2.groups, lt_div_iff_mul_lt grouped]
  omega

lemma first_cases : volume.memory.firstDataBlock = 0 ∨ volume.memory.firstDataBlock = 1 := by
  have first := image.first
  split at first
  · exact .inr first
  · exact .inl first

lemma marked_iff (within : bit < volume.memory.blocksPerGroup)
    (inside : volume.memory.standsFor group bit < volume.memory.blocksCount) :
    (volume.disk (volume.memory.blockBitmap group)).bit bit ↔
      Occupied volume kept (volume.memory.standsFor group bit) := by
  have fits := image.layout.grouped.2
  rw [image.marks group bit (image.group_lt inside) (by omega)]
  constructor
  · rintro (outside | outside | occupied)
    · omega
    · omega
    · exact occupied
  · exact fun occupied => .inr (.inr occupied)

lemma unmarked (real : group < volume.memory.groups) (inside : bit < 8 * volume.memory.blockSize)
    (clear : (volume.disk (volume.memory.blockBitmap group)).bit bit = false) :
    bit < volume.memory.blocksPerGroup ∧ volume.memory.standsFor group bit < volume.memory.blocksCount ∧
      ¬Occupied volume kept (volume.memory.standsFor group bit) := by
  have marks := image.marks group bit real inside
  rw [clear] at marks
  simpa using marks

/--
Where the first data block is block 1, the block that is handed out is occupied.

The first clear bit stands for the block after it, and the bit before it is set.
-/
theorem taken_occupied (one : volume.memory.firstDataBlock = 1) (found : freeBlockBit volume group = some bit)
    (earlier : ∀ before < group, freeBlockBit volume before = none)
    (start : 1 ≤ volume.memory.blockNumber group bit) :
    Occupied volume kept (volume.memory.blockNumber group bit) := by
  obtain ⟨⟨inside, clear, accepted⟩, before⟩ := freeBlockBit_some found
  have small : volume.memory.blocksCount < 2 ^ 32 := Buffer.get32_lt ..
  have fits := image.layout.grouped.2
  by_contra free
  -- The bit that stands for the block on the disk.
  have stands := Ext2.standsFor_divided (one ▸ start)
  have within := mod_lt (volume.memory.blockNumber group bit - volume.memory.firstDataBlock) image.layout.grouped.1
  have marked := image.marked_iff within (by rw [stands]; exact accepted)
  rw [stands] at marked
  generalize placed : (volume.memory.blockNumber group bit - volume.memory.firstDataBlock) /
    volume.memory.blocksPerGroup = owner at *
  generalize index : (volume.memory.blockNumber group bit - volume.memory.firstDataBlock) %
    volume.memory.blocksPerGroup = place at *
  rw [Ext2.standsFor] at stands
  have number : volume.memory.blockNumber owner place = volume.memory.blockNumber group bit - 1 := by
    rw [Ext2.blockNumber]
    omega
  have late : group ≤ owner := Nat.le_of_not_lt fun less =>
    free (marked.mp (freeBlockBit_none.mp (earlier owner less) place (by omega) (by omega)))
  have real : group < volume.memory.groups := by
    have low : volume.memory.standsFor owner place < volume.memory.blocksCount := by
      rw [Ext2.standsFor]
      omega
    exact late.trans_lt (image.group_lt low)
  obtain ⟨narrow, low, -⟩ := image.unmarked real inside clear
  rw [Ext2.standsFor] at low
  have block : volume.memory.blockNumber group bit = group * volume.memory.blocksPerGroup + bit :=
    mod_eq_of_lt (by omega)
  -- So it is the bit before the one that was taken, which is set.
  have same : owner = group := by
    have := Nat.div_lt_of_lt_mul (show volume.memory.blockNumber group bit - volume.memory.firstDataBlock <
        volume.memory.blocksPerGroup * (group + 1) by rw [mul_comm, succ_mul]; omega)
    omega
  subst same
  exact free (marked.mp (before place (by omega) (by omega)))

end MkfsVolume

variable {device : Ext2Device} {kept : Nat → Prop}

lemma ext2AllocBlock_result (image : MkfsVolume device.toVolume kept) (coherent : device.Coherent) :
    (NoFreeBit device.toVolume ∧ (device.call ext2AllocBlock).1 = ext2Failure) ∨
      ∃ group bit, group < device.memory.groupCount ∧ freeBlockBit device.toVolume group = some bit ∧
        (∀ before < group, freeBlockBit device.toVolume before = none) ∧
        (device.call ext2AllocBlock).1 = device.memory.blockNumber group bit := by
  have ended : ext2AllocBlock.ends device.memory.Bypassed (fun number _ =>
      (NoFreeBit device.toVolume ∧ number = ext2Failure) ∨
        ∃ group bit, group < device.memory.groupCount ∧ freeBlockBit device.toVolume group = some bit ∧
          (∀ before < group, freeBlockBit device.toVolume before = none) ∧
          number = device.memory.blockNumber group bit) device.toVolume := by
    refine ext2AllocBlock_ends rfl image.layout.descriptors
      (fun _ counted => image.layout.blockBitmap_unflushed counted) ?_ ?_
    · exact fun none => .inl ⟨fun group bit counted => freeBlockBit_none.mp (none group counted) bit, rfl⟩
    · exact fun group bit left counted found earlier _ => .inr ⟨group, bit, counted, found, earlier, rfl⟩
  exact (Program.ends_run coherent ended).1

/-- The block allocator is safe where the first block is a data block, and elsewhere when it finds no bit. -/
theorem allocSafe_iff (image : MkfsVolume device.toVolume kept) (coherent : device.Coherent) :
    AllocSafe device kept ↔ device.memory.firstDataBlock = 0 ∨ NoFreeBit device.toVolume := by
  rcases ext2AllocBlock_result image coherent with ⟨none, failed⟩ | ⟨group, bit, counted, found, earlier, number⟩
  · exact iff_of_true (.inl failed) (.inr none)
  obtain ⟨⟨inside, clear, accepted⟩, _⟩ := freeBlockBit_some found
  have some : ¬NoFreeBit device.toVolume := fun none => by
    rw [none group bit counted inside accepted] at clear
    simp at clear
  have small : device.memory.blocksCount < 2 ^ 32 := Buffer.get32_lt ..
  rcases image.first_cases with zero | one
  · refine iff_of_true (.inr ?_) (.inl zero)
    obtain ⟨-, within, free⟩ := image.unmarked (by rw [image.layout.groups_eq zero]; exact counted) inside clear
    have same : device.memory.blockNumber group bit = device.memory.standsFor group bit := by
      rw [Ext2.standsFor, zero, zero_add] at within ⊢
      exact mod_eq_of_lt (by omega)
    rw [number, same, zero]
    exact ⟨zero_le _, within, free⟩
  · refine iff_of_false ?_ (fun either => either.elim (by omega) some)
    rintro (failed | ⟨start, stop, free⟩)
    · have : ext2Failure = 2 ^ 32 - 1 := rfl
      omega
    rw [number] at start free
    exact free (image.taken_occupied one found earlier (one ▸ start))

lemma leading_subset {inode : Ext2Inode} (listed : number ∈ inode.leading) : number ∈ inodeBlocks volume inode := by
  have nonzero : number ≠ 0 := by simpa using mem_takeWhile_imp listed
  have direct := ( takeWhile_prefix _).subset listed
  simp only [mem_map] at direct
  obtain ⟨i, inside, rfl⟩ := direct
  refine mem_append_left _ (mem_flatMap.mpr ⟨i, inside, ?_⟩)
  simp [blocksBehind, nonzero]

lemma ext2ClearInode_bit (image : MkfsVolume device.toVolume kept) (coherent : device.Coherent)
    (live : LiveInode device.toVolume number) (real : group < device.memory.groups) (bit : Nat) :
    ((device.call (ext2ClearInode number)).2.disk (device.memory.blockBitmap group)).bit bit =
      ((device.disk (device.memory.blockBitmap group)).bit bit &&
        !(inodeAt device.toVolume number).leading.any fun block =>
          block / device.memory.blocksPerGroup = group ∧ block % device.memory.blocksPerGroup = bit) := by
  obtain ⟨owner, table, place⟩ := image.layout.inodePlace_eq live.1 live.2.1
  have counts := image.layout.groups_le
  have cached : ∀ {block}, ¬device.memory.Flushed block → ¬device.memory.Bypassed block := fun plain same =>
    plain (.inl same)
  have ended : (ext2ClearInode number).ends device.memory.Bypassed (fun _ left =>
      (left.disk (device.memory.blockBitmap group)).bit bit =
        ((device.disk (device.memory.blockBitmap group)).bit bit &&
          !(inodeAt device.toVolume number).leading.any fun block =>
            block / device.memory.blocksPerGroup = group ∧ block % device.memory.blocksPerGroup = bit))
              device.toVolume := by
    refine ext2ClearInode_ends rfl image.layout.descriptors place (cached (image.layout.unflushed _ table))
      (fun group counted => cached (image.layout.blockBitmap_unflushed counted))
        (image.layout.unflushed (.inodeBitmap _) owner)
      fun left released => ?_
    have layout := emptiedInode_layout device.toVolume
    -- A block bitmap is no inode bitmap and no block of an inode table.
    have other : device.memory.blockBitmap group ≠
        device.memory.inodeBitmap ((number - 1) / device.memory.inodesPerGroup) := fun same =>
      Ext2Part.noConfusion (image.layout.apart (.blockBitmap group) (.inodeBitmap _) real owner same)
    have apart : device.memory.blockBitmap group ≠ device.memory.place _ := fun same =>
      Ext2Part.noConfusion (image.layout.apart (.blockBitmap group) _ real table same)
    have kept := released.frame (device.memory.blockBitmap group) (by rw [(layout _ _).inodeBitmap]; exact other)
      (by rw [(layout _ _).flushed]; exact image.layout.unflushed (.blockBitmap group) real)
    rw [kept, emptiedInode, Volume.put_other _ _ apart,
      freeBlocks_bit (real.trans_le counts) fun _ counted same =>
        image.layout.blockBitmap_alone real counted same]
    simp only [inodeAt, place]
  exact (Program.ends_run coherent ended).1

/--
Freeing an inode clears exactly the bits of its blocks where it has none.

Where the first block is a data block, it does so too when all its blocks are among the direct ones up to the
first that is missing.
-/
theorem clearExact_iff (image : MkfsVolume device.toVolume kept) (coherent : device.Coherent)
    (live : LiveInode device.toVolume number) (file : (inodeAt device.toVolume number).hasBlocks) :
    ClearExact device number ↔ inodeBlocks device.toVolume (inodeAt device.toVolume number) = [] ∨
      (device.memory.firstDataBlock = 0 ∧ ∀ block ∈ inodeBlocks device.toVolume (inodeAt device.toVolume number),
        block ∈ (inodeAt device.toVolume number).leading) := by
  have bits := fun {group bit : Nat} (real : group < device.memory.groups) =>
    ext2ClearInode_bit image coherent live real bit
  have owned : ∀ block ∈ inodeBlocks device.toVolume (inodeAt device.toVolume number),
      Occupied device.toVolume kept block := fun block listed => .inr (.inr ⟨number, live, file, listed⟩)
  have subset : ∀ block ∈ (inodeAt device.toVolume number).leading,
      block ∈ inodeBlocks device.toVolume (inodeAt device.toVolume number) := fun _ => leading_subset
  have positive := image.layout.grouped.1
  have fits := image.layout.grouped.2
  constructor
  · intro exact'
    -- The bit of a block of the file is cleared by a leading block with the same bit.
    have cleared : ∀ block ∈ inodeBlocks device.toVolume (inodeAt device.toVolume number),
        block - device.memory.firstDataBlock ∈ (inodeAt device.toVolume number).leading := by
      intro block listed
      obtain ⟨start, stop⟩ := image.inside block (owned block listed)
      have stands := Ext2.standsFor_divided start
      have within := mod_lt (block - device.memory.firstDataBlock) positive
      have real := image.group_lt (by rw [stands]; exact stop)
      have marked := (image.marked_iff within (by rw [stands]; exact stop)).mpr
        (by rw [stands]; exact owned block listed)
      have after := (exact' _ _ real (within.trans_le fits)).not.mpr
        (by rw [stands]; exact fun both => both.2 ⟨within, listed⟩)
      rw [bits real, marked, Bool.true_and, Bool.not_eq_true, Bool.not_eq_false', any_eq_true] at after
      obtain ⟨freed, leads, same⟩ := after
      obtain ⟨group, bit⟩ := of_decide_eq_true same
      have number := div_add_mod' freed device.memory.blocksPerGroup
      rw [group, bit, div_add_mod'] at number
      rw [number]
      exact leads
    rcases image.first_cases with zero | one
    · refine .inr ⟨zero, fun block listed => ?_⟩
      simpa only [zero, Nat.sub_zero] using cleared block listed
    · -- Each block of the file would have the one before it in the file as well.
      refine .inl (eq_nil_iff_forall_not_mem.mpr fun block => ?_)
      induction block using Nat.strong_induction_on with
      | _ block ih =>
        intro listed
        have start := (image.inside block (owned block listed)).1
        exact ih (block - 1) (by omega) (subset _ (by simpa only [one] using cleared block listed))
  · rintro (none | ⟨zero, all⟩) group bit real inside
    · have empty : (inodeAt device.toVolume number).leading = [] :=
        eq_nil_iff_forall_not_mem.mpr fun block listed => by simpa [none] using subset block listed
      rw [bits real, empty, none]
      simp
    · rw [bits real]
      simp only [Bool.and_eq_true, Bool.not_eq_true', any_eq_false, decide_eq_true_eq]
      refine and_congr_right fun _ => ⟨?_, ?_⟩
      · rintro never ⟨within, listed⟩
        refine never _ (all _ listed) ⟨?_, ?_⟩
        · rw [Ext2.standsFor, zero, zero_add, add_comm, mul_comm, add_mul_div_left _ _ positive,
            div_eq_of_lt within, zero_add]
        · rw [Ext2.standsFor, zero, zero_add, add_comm, mul_comm, add_mul_mod_self_left,
            mod_eq_of_lt within]
      · rintro absent block leads ⟨rfl, rfl⟩
        refine absent ⟨mod_lt _ positive, ?_⟩
        rw [Ext2.standsFor, zero, zero_add, div_add_mod']
        exact subset _ leads

/--
Allocation hands out blocks that are free, and freeing a file clears exactly its bits, under two conditions.

The bits of the driver are those of the disk where block 0 is the first data block; elsewhere nothing may be left to
allocate. The file has no blocks, or the bits agree and its blocks are direct ones without a hole before them.
-/
theorem mkfs_space_iff (image : MkfsVolume device.toVolume kept) (coherent : device.Coherent) {number : Nat}
    (live : LiveInode device.toVolume number) (file : (inodeAt device.toVolume number).hasBlocks) :
    AllocSafe device kept ∧ ClearExact device number ↔
      (device.memory.firstDataBlock = 0 ∨ NoFreeBit device.toVolume) ∧
        (inodeBlocks device.toVolume (inodeAt device.toVolume number) = [] ∨
          (device.memory.firstDataBlock = 0 ∧ ∀ block ∈ inodeBlocks device.toVolume (inodeAt device.toVolume number),
            block ∈ (inodeAt device.toVolume number).leading)) :=
  and_congr (allocSafe_iff image coherent) (clearExact_iff image coherent live file)

/-- The first data block of a small volume. -/
def smallFirst (kilo : Bool) : Nat := if kilo then 1 else 0

/-- The variables of the driver for a volume of eight blocks of 1 or 2 KiB, in one group with eight inodes. -/
def smallFs (kilo : Bool) : Ext2 where
  superblock k :=
    match k with
    | 0 => 8
    | 4 => UInt8.ofNat (smallFirst kilo + 8)
    | 12 => 2
    | 16 => 7
    | 20 => UInt8.ofNat (smallFirst kilo)
    | 24 => if kilo then 0 else 1
    | 33 => if kilo then 0x20 else 0x40
    | 40 => 8
    | _ => 0
  groupDescs k :=
    match k with
    | 0 => UInt8.ofNat (smallFirst kilo + 2)
    | 4 => UInt8.ofNat (smallFirst kilo + 3)
    | 8 => UInt8.ofNat (smallFirst kilo + 4)
    | 12 => 2
    | 14 => 7
    | _ => 0
  groupCount := 1
  groupDescBlock := smallFirst kilo + 1
  groupDescBlocks := 1
  blockSize := if kilo then 1024 else 2048
  inodesPerBlock := if kilo then 8 else 16
  blocksPerGroup := if kilo then 8192 else 16384

/-- A volume where inode 2 is a file of one block and two blocks are free. -/
def smallVolume (kilo : Bool) : Ext2Volume where
  memory := smallFs kilo
  disk number k :=
    if number = smallFirst kilo + 2 then (if k = 0 then 0x3F else 0xFF)
    else if number = smallFirst kilo + 3 then (if k = 0 then 0x02 else 0xFF)
    else if number = smallFirst kilo + 4 then
      match k with
      | 128 => 0xA4
      | 129 => 0x81
      | 133 => 4
      | 156 => 2
      | 168 => UInt8.ofNat (smallFirst kilo + 5)
      | _ => 0
    else 0

/-- The blocks of the superblock and the descriptors of a small volume. -/
def smallKept (kilo : Bool) (number : Nat) : Prop := number = smallFirst kilo ∨ number = smallFirst kilo + 1

/-- A small volume with nothing cached. -/
def smallDevice (kilo : Bool) : Ext2Device := { smallVolume kilo with slots := fun _ => none, turn := 0 }

lemma small_live : LiveInode (smallVolume kilo) number ↔ number = 2 := by
  constructor
  · rintro ⟨positive, counted, live⟩
    have count : (smallFs kilo).inodesCount = 8 := by cases kilo <;> rfl
    have few : number ≤ 8 := count ▸ counted
    revert live
    interval_cases number <;> cases kilo <;> decide
  · rintro rfl
    cases kilo <;> exact ⟨by decide, by decide, by decide⟩

lemma small_blocks (kilo : Bool) :
    inodeBlocks (smallVolume kilo) (inodeAt (smallVolume kilo) 2) = [smallFirst kilo + 5] ∧
      (inodeAt (smallVolume kilo) 2).leading = [smallFirst kilo + 5] ∧ (inodeAt (smallVolume kilo) 2).hasBlocks := by
  cases kilo <;> decide +kernel

lemma small_part {part : Ext2Part} (has : (smallFs kilo).HasPart part) :
    (part = .blockBitmap 0 ∧ (smallFs kilo).place part = smallFirst kilo + 2) ∨
      (part = .inodeBitmap 0 ∧ (smallFs kilo).place part = smallFirst kilo + 3) ∨
      (part = .inodeTable 0 0 ∧ (smallFs kilo).place part = smallFirst kilo + 4) := by
  have groups : (smallFs kilo).groups = 1 := by cases kilo <;> decide
  have table : (smallFs kilo).tableBlocks = 1 := by cases kilo <;> decide
  cases part with
  | blockBitmap group =>
    obtain rfl : group = 0 := lt_one_iff.mp (groups ▸ has)
    exact .inl ⟨rfl, by cases kilo <;> decide⟩
  | inodeBitmap group =>
    obtain rfl : group = 0 := lt_one_iff.mp (groups ▸ has)
    exact .inr (.inl ⟨rfl, by cases kilo <;> decide⟩)
  | inodeTable group index =>
    obtain rfl : group = 0 := lt_one_iff.mp (groups ▸ has.1)
    obtain rfl : index = 0 := lt_one_iff.mp (table ▸ has.2)
    exact .inr (.inr ⟨rfl, by cases kilo <;> decide⟩)

lemma small_occupied : Occupied (smallVolume kilo) (smallKept kilo) number ↔
      smallFirst kilo ≤ number ∧ number ≤ smallFirst kilo + 5 := by
  constructor
  · rintro (kept | ⟨part, has, rfl⟩ | ⟨owner, live, -, listed⟩)
    · rcases kept with rfl | rfl <;> omega
    · have place := small_part has
      show _ ≤ (smallFs kilo).place part ∧ (smallFs kilo).place part ≤ _
      omega
    · obtain rfl := small_live.mp live
      rw [(small_blocks kilo).1] at listed
      have := mem_singleton.mp listed
      omega
  · rintro ⟨start, stop⟩
    obtain ⟨k, rfl⟩ := Nat.exists_eq_add_of_le start
    have few : k ≤ 5 := by omega
    have group : 0 < (smallFs kilo).groups := by cases kilo <;> decide
    have table : 0 < (smallFs kilo).tableBlocks := by cases kilo <;> decide
    interval_cases k
    · exact .inl (.inl rfl)
    · exact .inl (.inr rfl)
    · exact .inr (.inl ⟨.blockBitmap 0, group, by cases kilo <;> decide⟩)
    · exact .inr (.inl ⟨.inodeBitmap 0, group, by cases kilo <;> decide⟩)
    · exact .inr (.inl ⟨.inodeTable 0 0, ⟨group, table⟩, by cases kilo <;> decide⟩)
    · exact .inr (.inr ⟨2, small_live.mpr rfl, (small_blocks kilo).2.2, by rw [(small_blocks kilo).1]; exact .head _⟩)

lemma small_layout (kilo : Bool) : (smallFs kilo).Layout := by
  have groups : (smallFs kilo).groups = 1 := by cases kilo <;> decide
  have counts : (smallFs kilo).groupCount = 1 := rfl
  exact {
    loaded := by constructor <;> cases kilo <;> decide
    sizes := by cases kilo <;> decide
    first := by cases kilo <;> decide
    nonempty := by cases kilo <;> decide
    grouped := by cases kilo <;> decide
    inodes := by cases kilo <;> decide
    beyond := fun group outside counted => by omega
    spare := fun group bit outside counted => by omega
    unflushed := fun part has => by
      have place := small_part has
      have superblock : 1024 / (smallFs kilo).blockSize = smallFirst kilo := by cases kilo <;> decide
      show ¬(_ ∨ smallFirst kilo + 1 ≤ _ ∧ _ < smallFirst kilo + 1 + 1)
      omega
    apart := fun part other has also same => by
      rcases small_part has with ⟨rfl, here⟩ | ⟨rfl, here⟩ | ⟨rfl, here⟩ <;>
        rcases small_part also with ⟨rfl, there⟩ | ⟨rfl, there⟩ | ⟨rfl, there⟩ <;>
        first | rfl | omega
    nonzero := fun part has => by
      have place := small_part has
      omega }

lemma small_mkfs (kilo : Bool) : MkfsVolume (smallVolume kilo) (smallKept kilo) := by
  have first : (smallVolume kilo).memory.firstDataBlock = smallFirst kilo := by cases kilo <;> decide
  have count : (smallVolume kilo).memory.blocksCount = smallFirst kilo + 8 := by cases kilo <;> decide
  have groups : (smallVolume kilo).memory.groups = 1 := by cases kilo <;> decide
  have bitmap : (smallVolume kilo).memory.blockBitmap 0 = smallFirst kilo + 2 := by cases kilo <;> decide
  exact {
    layout := small_layout kilo
    first := by cases kilo <;> decide
    superblock := .inl first
    described := fun i inside => .inr (by rw [lt_one_iff.mp inside]; rfl)
    inside := fun number occupied => by
      have range := small_occupied.mp occupied
      omega
    marks := fun group bit real inside => by
      obtain rfl : group = 0 := by omega
      have stands : (smallVolume kilo).memory.standsFor 0 bit = smallFirst kilo + bit := by
        rw [Ext2.standsFor, first, zero_mul, add_zero]
      have wide : 8 ≤ (smallVolume kilo).memory.blocksPerGroup := by cases kilo <;> decide
      rw [bitmap, small_occupied]
      by_cases low : bit < 8
      · -- Six bits of the first byte are set.
        have six : ((smallVolume kilo).disk (smallFirst kilo + 2)).bit bit ↔ bit ≤ 5 := by
          interval_cases bit <;> cases kilo <;> decide
        rw [six]
        omega
      · have byte : (smallVolume kilo).disk (smallFirst kilo + 2) (bit / 8) = 0xFF := by
          simp only [smallVolume, if_true]
          rw [if_neg (by omega)]
        have ones : ∀ k < 8, (0xFF : UInt8).toNat.testBit k = true := by decide
        rw [Buffer.bit, byte, ones _ (mod_lt _ (by decide))]
        exact iff_of_true rfl (.inr (.inl (by omega))) }

lemma small_coherent (kilo : Bool) : (smallDevice kilo).Coherent :=
  ⟨fun _ held => absurd held (by simp [smallDevice]), fun _ _ held => absurd held (by simp [smallDevice])⟩

/-- With blocks of 2 KiB a free block is handed out, and freeing the file clears its bit alone. -/
theorem mkfs_space_iff_two_kilo :
    AllocSafe (smallDevice false) (smallKept false) ∧ ClearExact (smallDevice false) 2 := by
  refine (mkfs_space_iff (small_mkfs false) (small_coherent false) (small_live.mpr rfl) (small_blocks false).2.2).mpr
    ⟨.inl (by decide), .inr ⟨by decide, fun block listed => ?_⟩⟩
  have only := (small_blocks false).1
  exact (small_blocks false).2.1 ▸ only ▸ listed

/-- With blocks of 1 KiB the block of the file is handed out, and freeing the file leaves its bit set. -/
theorem kilo_block_taken_twice :
    MkfsVolume (smallDevice true).toVolume (smallKept true) ∧ (smallDevice true).Coherent ∧
      LiveInode (smallDevice true).toVolume 2 ∧ (inodeAt (smallDevice true).toVolume 2).hasBlocks = true ∧
      ((smallDevice true).call ext2AllocBlock).1 = 6 ∧ 6 ∈ inodeBlocks (smallDevice true).toVolume
        (inodeAt (smallDevice true).toVolume 2) ∧
      ¬AllocSafe (smallDevice true) (smallKept true) ∧ ¬ClearExact (smallDevice true) 2 := by
  have image := small_mkfs true
  have live : LiveInode (smallDevice true).toVolume 2 := small_live.mpr rfl
  have file := (small_blocks true).2.2
  have blocks : inodeBlocks (smallDevice true).toVolume (inodeAt (smallDevice true).toVolume 2) = [6] :=
    (small_blocks true).1
  refine ⟨image, small_coherent true, live, file, by decide +kernel, .head _, ?_, ?_⟩
  · rw [allocSafe_iff image (small_coherent true)]
    rintro (zero | none)
    · exact absurd zero (by decide)
    · exact absurd (none 0 6 (by decide) (by decide) (by decide)) (by decide)
  · rw [clearExact_iff image (small_coherent true) live file, blocks]
    rintro (none | ⟨zero, -⟩)
    · simp at none
    · exact absurd zero (by decide)

end Galio
