import Galio.Lib.BlockDevice
import Galio.Lib.Buffer
import Galio.Fs.VfsPaths

/-! The EXT2 driver: its block cache, its allocators and its directories. -/

namespace Galio

open BlockDevice

/-- The slots of the block cache. -/
def ext2BlockCacheSlots : Nat := 16

/-- The inode of the root directory. -/
def ext2RootInode : Nat := 2

/-- The bytes of an inode on the disk. -/
def ext2InodeSize : Nat := 128

/-- The pointers of an inode that name data blocks directly. -/
def ext2DirectBlocks : Nat := 12

/-- The room of a canonical path, with its end mark. -/
def ext2PathRoom : Nat := 256

/-- The number that `-1` is as an unsigned one. -/
def ext2Failure : Nat := 0xFFFFFFFF

/-- A number that is negative as a signed one. -/
def Negative (number : Nat) : Prop := 2 ^ 31 ≤ number

instance (number : Nat) : Decidable (Negative number) := inferInstanceAs (Decidable (_ ≤ _))

/-- The static variables of the driver. -/
structure Ext2 where
  /-- The 84 bytes of `superblock`. -/
  superblock : Buffer
  /-- The group descriptors, 32 bytes each. -/
  groupDescs : Buffer
  groupCount : Nat
  groupDescBlock : Nat
  groupDescBlocks : Nat
  blockSize : Nat
  inodesPerBlock : Nat
  blocksPerGroup : Nat

namespace Ext2

def inodesCount (fs : Ext2) : Nat := fs.superblock.get32 0
def blocksCount (fs : Ext2) : Nat := fs.superblock.get32 4
def freeBlocksCount (fs : Ext2) : Nat := fs.superblock.get32 12
def freeInodesCount (fs : Ext2) : Nat := fs.superblock.get32 16
def firstDataBlock (fs : Ext2) : Nat := fs.superblock.get32 20
def logBlockSize (fs : Ext2) : Nat := fs.superblock.get32 24
def inodesPerGroup (fs : Ext2) : Nat := fs.superblock.get32 40
def blockBitmap (fs : Ext2) (group : Nat) : Nat := fs.groupDescs.get32 (32 * group)
def inodeBitmap (fs : Ext2) (group : Nat) : Nat := fs.groupDescs.get32 (32 * group + 4)
def inodeTable (fs : Ext2) (group : Nat) : Nat := fs.groupDescs.get32 (32 * group + 8)
def groupFreeBlocks (fs : Ext2) (group : Nat) : Nat := fs.groupDescs.get16 (32 * group + 12)
def groupFreeInodes (fs : Ext2) (group : Nat) : Nat := fs.groupDescs.get16 (32 * group + 14)

/-- The variables as `ext2_init` computes them from the superblock. -/
structure Loaded (fs : Ext2) : Prop where
  blockSize : fs.blockSize = 1024 * 2 ^ fs.logBlockSize
  inodesPerBlock : fs.inodesPerBlock = fs.blockSize / ext2InodeSize
  blocksPerGroup : fs.blocksPerGroup = fs.superblock.get32 32
  groupCount : fs.groupCount = (fs.blocksCount + fs.blocksPerGroup - 1) / fs.blocksPerGroup
  groupDescBlocks : fs.groupDescBlocks = (fs.groupCount * 32 + fs.blockSize - 1) / fs.blockSize
  groupDescBlock : fs.groupDescBlock = fs.firstDataBlock + 1

/-- The counts after one block more or less is free. -/
def setFreeBlocks (fs : Ext2) (group count groupFree : Nat) : Ext2 :=
  { fs with
    superblock := fs.superblock.set32 12 count
    groupDescs := fs.groupDescs.set16 (32 * group + 12) groupFree }

/-- The counts after one inode more or less is free. -/
def setFreeInodes (fs : Ext2) (group count groupFree : Nat) : Ext2 :=
  { fs with
    superblock := fs.superblock.set32 16 count
    groupDescs := fs.groupDescs.set16 (32 * group + 14) groupFree }

end Ext2

/-- The code of the driver. -/
abbrev Ext2Program := Program Buffer Ext2

/-- The fields of an inode, which is 128 bytes. -/
abbrev Ext2Inode := Buffer

namespace Ext2Inode

def mode (inode : Ext2Inode) : Nat := Buffer.get16 inode 0
def size (inode : Ext2Inode) : Nat := Buffer.get32 inode 4
def blocks (inode : Ext2Inode) : Nat := Buffer.get32 inode 28
def block (inode : Ext2Inode) (i : Nat) : Nat := Buffer.get32 inode (40 + 4 * i)
def setMode (inode : Ext2Inode) (mode : Nat) : Ext2Inode := Buffer.set16 inode 0 mode
def setSize (inode : Ext2Inode) (size : Nat) : Ext2Inode := Buffer.set32 inode 4 size
def setLinksCount (inode : Ext2Inode) (links : Nat) : Ext2Inode := Buffer.set16 inode 26 links
def setBlocks (inode : Ext2Inode) (blocks : Nat) : Ext2Inode := Buffer.set32 inode 28 blocks
def setBlock (inode : Ext2Inode) (i number : Nat) : Ext2Inode := Buffer.set32 inode (40 + 4 * i) number

/-- The direct blocks up to the first missing one, where every loop over them stops. -/
def leading (inode : Ext2Inode) : List Nat :=
  ((List.range ext2DirectBlocks).map inode.block).takeWhile (· ≠ 0)

end Ext2Inode

/-- An inode after `memset`. -/
def zeroInode : Ext2Inode := fun _ => 0

/-- `ext2_write_superblock`: the 1024 bytes at byte 1024, past the cache. -/
def ext2WriteSuperblock : Ext2Program Unit := do
  let fs ← getMemory
  patchBlock (1024 / fs.blockSize) fun block =>
    block.put (1024 % fs.blockSize) 1024 fun k => if k < 84 then fs.superblock k else 0

/-- The loop of `ext2_write_group_descriptors` over some of their blocks. -/
def ext2WriteDescriptorBlocks (fs : Ext2) : List Nat → Ext2Program Unit
  | [] => pure ()
  | i :: rest => do
    writeBlock (fs.groupDescBlock + i) fun k => fs.groupDescs (i * fs.blockSize + k)
    ext2WriteDescriptorBlocks fs rest

def ext2WriteGroupDescriptors : Ext2Program Bool := do
  let fs ← getMemory
  if fs.groupDescBlocks = 0 then pure false else
    ext2WriteDescriptorBlocks fs (List.range fs.groupDescBlocks)
    pure true

/-- The block and the offset in it where an inode is stored. -/
def Ext2.inodePlace (fs : Ext2) (number : Nat) : Option (Nat × Nat) :=
  let group := (number - 1) / fs.inodesPerGroup
  let index := (number - 1) % fs.inodesPerGroup
  if number = 0 ∨ number > fs.inodesCount ∨ group ≥ fs.groupCount then none
  else some (fs.inodeTable group + index / fs.inodesPerBlock, index % fs.inodesPerBlock * ext2InodeSize)

def ext2ReadInode (number : Nat) : Ext2Program (Option Ext2Inode) := do
  let fs ← getMemory
  match fs.inodePlace number with
  | none => pure none
  | some (tableBlock, offset) => do
    let buffer ← readBlock tableBlock
    pure (some fun k => buffer (offset + k))

def ext2WriteInode (number : Nat) (inode : Ext2Inode) : Ext2Program Bool := do
  let fs ← getMemory
  match fs.inodePlace number with
  | none => pure false
  | some (tableBlock, offset) => do
    let buffer ← readBlock tableBlock
    writeBlock tableBlock (buffer.put offset ext2InodeSize inode)
    pure true

/-- The number that the block allocator gives to a bit. -/
def Ext2.blockNumber (fs : Ext2) (group bit : Nat) : Nat := (group * fs.blocksPerGroup + bit) % 2 ^ 32

/-- The number that the inode allocator gives to a bit. -/
def Ext2.inodeNumber (fs : Ext2) (group bit : Nat) : Nat := (group * fs.inodesPerGroup + bit + 1) % 2 ^ 32

/-- The first clear bit of a bitmap whose number is accepted. -/
def Ext2.clearBit (fs : Ext2) (bitmap : Buffer) (accepted : Nat → Bool) : Option Nat :=
  (List.range (8 * fs.blockSize)).find? fun bit => !bitmap.bit bit && accepted bit

/-- The loop of `ext2_alloc_block` over some groups. -/
def ext2AllocBlockIn : List Nat → Ext2Program Nat
  | [] => pure ext2Failure
  | group :: rest => do
    let fs ← getMemory
    let bitmap ← readBlock (fs.blockBitmap group)
    match fs.clearBit bitmap fun bit => fs.blockNumber group bit < fs.blocksCount with
    | none => ext2AllocBlockIn rest
    | some bit => do
      writeBlock (fs.blockBitmap group) (bitmap.setBit bit)
      setMemory (fs.setFreeBlocks group (fs.freeBlocksCount - 1) (fs.groupFreeBlocks group - 1))
      ext2WriteSuperblock
      let stored ← ext2WriteGroupDescriptors
      pure (if stored then fs.blockNumber group bit else ext2Failure)

def ext2AllocBlock : Ext2Program Nat := do
  let fs ← getMemory
  ext2AllocBlockIn (List.range fs.groupCount)

/-- The loop of `ext2_alloc_inode` over some groups. -/
def ext2AllocInodeIn : List Nat → Ext2Program Nat
  | [] => pure ext2Failure
  | group :: rest => do
    let fs ← getMemory
    let bitmap ← readBlock (fs.inodeBitmap group)
    match fs.clearBit bitmap fun bit => fs.inodeNumber group bit ≤ fs.inodesCount with
    | none => ext2AllocInodeIn rest
    | some bit => do
      writeBlock (fs.inodeBitmap group) (bitmap.setBit bit)
      setMemory (fs.setFreeInodes group (fs.freeInodesCount - 1) (fs.groupFreeInodes group - 1))
      ext2WriteSuperblock
      if ← ext2WriteGroupDescriptors then
        let stored ← ext2WriteInode (fs.inodeNumber group bit) zeroInode
        pure (if stored then fs.inodeNumber group bit else ext2Failure)
      else pure ext2Failure

def ext2AllocInode : Ext2Program Nat := do
  let fs ← getMemory
  ext2AllocInodeIn (List.range fs.groupCount)

/-- The loop of `ext2_clear_inode` over the direct blocks. -/
def ext2FreeBlocks : List Nat → Ext2Program Unit
  | [] => pure ()
  | number :: rest => do
    let fs ← getMemory
    let group := number / fs.blocksPerGroup
    if group ≥ fs.groupCount then ext2FreeBlocks rest else do
      let bitmap ← readBlock (fs.blockBitmap group)
      writeBlock (fs.blockBitmap group) (bitmap.clearBit (number - group * fs.blocksPerGroup))
      -- Both counts stop at their largest values.
      setMemory (fs.setFreeBlocks group (min (fs.freeBlocksCount + 1) 0xFFFFFFFF)
        (min (fs.groupFreeBlocks group + 1) 0xFFFF))
      ext2FreeBlocks rest

/-- The end of `ext2_clear_inode`, which frees the inode itself. -/
def ext2FreeInode (number : Nat) : Ext2Program Bool := do
  let fs ← getMemory
  let group := (number - 1) / fs.inodesPerGroup
  let bitmap ← readBlock (fs.inodeBitmap group)
  writeBlock (fs.inodeBitmap group) (bitmap.clearBit ((number - 1) % fs.inodesPerGroup))
  setMemory (fs.setFreeInodes group (min (fs.freeInodesCount + 1) 0xFFFFFFFF)
    (min (fs.groupFreeInodes group + 1) 0xFFFF))
  ext2WriteSuperblock
  ext2WriteGroupDescriptors

def ext2ClearInode (number : Nat) : Ext2Program Bool := do
  match ← ext2ReadInode number with
  | none => pure false
  | some inode => do
    ext2FreeBlocks inode.leading
    -- The inode was read, so that its group is one of the volume when its bit is cleared.
    if ← ext2WriteInode number zeroInode then ext2FreeInode number else pure false

/-- The bytes of the name in a directory record. -/
def direntName (buffer : Buffer) (offset : Nat) : CString :=
  (List.range (buffer (offset + 6)).toNat).map fun k => buffer (offset + 8 + k)

/-- The inode in a directory record. -/
def direntInode (buffer : Buffer) (offset : Nat) : Nat := buffer.get32 offset

/-- The length of a directory record. -/
def direntLength (buffer : Buffer) (offset : Nat) : Nat := buffer.get16 (offset + 4)

/-- The records of a directory block from an offset up to one of length zero or above a limit. -/
def direntsFrom (limit : Nat) (blockSize : Nat) (buffer : Buffer) : Nat → Nat → List Nat
  | 0, _ => []
  | steps + 1, offset =>
    if offset < blockSize ∧ direntLength buffer offset ≠ 0 ∧ direntLength buffer offset ≤ limit then
      offset :: direntsFrom limit blockSize buffer steps (offset + direntLength buffer offset)
    else []

/-- The records of a directory block, each at least one byte long. -/
def Ext2.dirents (fs : Ext2) (buffer : Buffer) : List Nat := direntsFrom fs.blockSize fs.blockSize buffer fs.blockSize 0

/-- The records as `ext2_add_directory_entry` walks them, which does not look at a length above the block size. -/
def Ext2.looseDirents (fs : Ext2) (buffer : Buffer) : List Nat := direntsFrom 0xFFFF fs.blockSize buffer fs.blockSize 0

/-- A record that names something. -/
def direntNames (buffer : Buffer) (name : CString) (offset : Nat) : Bool :=
  direntInode buffer offset ≠ 0 && direntName buffer offset = name

/-- A directory record stored. -/
def putDirent (buffer : Buffer) (offset inode length fileType : Nat) (name : CString) : Buffer :=
  let head := (buffer.set32 offset inode).set16 (offset + 4) length
  let kind := (head.put (offset + 6) 1 (Buffer.digits name.length)).put (offset + 7) 1 (Buffer.digits fileType)
  kind.put (offset + 8) name.length fun k => name.getD k 0

/-- The search of `ext2_find_inode` in some blocks of a directory. -/
def ext2SearchBlocks (name : CString) : List Nat → Ext2Program Nat
  | [] => pure 0
  | number :: rest => do
    let fs ← getMemory
    let buffer ← readBlock number
    match (fs.dirents buffer).find? (direntNames buffer name) with
    | some offset => pure (direntInode buffer offset)
    | none => ext2SearchBlocks name rest

/-- The walk of `ext2_find_inode` over the components of a path. -/
def ext2Walk (current : Nat) : List CString → Ext2Program Nat
  | [] => pure current
  | name :: rest => do
    match ← ext2ReadInode current with
    | none => pure 0
    | some inode => do
      let found ← ext2SearchBlocks name inode.leading
      if found = 0 then pure 0 else ext2Walk found rest

/-- The buffer of a canonical path without what follows its last slash. -/
def popComponent (buffer : CString) : CString := (buffer.reverse.dropWhile (· ≠ slash)).reverse

/-- One component in the loop of `ext2_canonicalize_path`; `.` takes one away as `..` does. -/
def ext2CanonicalStep (buffer : CString) (component : CString) : Option CString :=
  if buffer.length + 1 ≥ ext2PathRoom then none
  else if component = [dot] ∨ component = [dot, dot] then some (popComponent buffer)
  else
    let opened := if buffer.getLast? = some slash then buffer else buffer ++ [slash]
    let length := min component.length (ext2PathRoom - 1)
    if opened.length + length ≥ ext2PathRoom then none else some (opened ++ component.take length)

def ext2CanonicalizePath (path : CString) : Option CString :=
  if path = [dot] then some [slash]
  else if path.take 2 = [dot, slash] then (pathNames (path.drop 2)).foldlM ext2CanonicalStep [slash]
  else if path.take 1 = [slash] then (pathNames (path.drop 1)).foldlM ext2CanonicalStep [slash]
  else none

/-- `ext2_find_inode`; a canonical path fits every buffer its parts are copied to. -/
def ext2FindInode (path : CString) : Ext2Program Nat :=
  match ext2CanonicalizePath path with
  | none => pure 0
  | some absolute => ext2Walk ext2RootInode (pathNames absolute)

/-- `ext2_parent_and_name`, also written out in both functions that create. -/
def ext2ParentAndName (path : CString) : Option (CString × CString) :=
  (ext2CanonicalizePath path).bind fun absolute =>
    let parent := popComponent absolute
    let name := absolute.drop parent.length
    if name = [] then none
    else some (if parent.length = 1 then parent else parent.dropLast, name)

/-- The bytes a record uses, rounded up to four. -/
def direntUsed (buffer : Buffer) (offset : Nat) : Nat := (8 + (buffer (offset + 6)).toNat + 3) / 4 * 4

/-- The bytes a record leaves, as an unsigned difference. -/
def direntRemaining (buffer : Buffer) (offset : Nat) : Nat :=
  (direntLength buffer offset + 2 ^ 32 - direntUsed buffer offset) % 2 ^ 32

/-- A block with a record cut in two, the second part a new entry. -/
def splitDirent (buffer : Buffer) (offset : Nat) (name : CString) (child : Nat) : Buffer :=
  let used := direntUsed buffer offset
  (putDirent buffer (offset + used) child (direntRemaining buffer offset) 0 name).set16 (offset + 4) used

/-- The loop of `ext2_add_directory_entry` over some blocks. -/
def ext2AddToBlocks (name : CString) (child : Nat) : List Nat → Ext2Program Bool
  | [] => pure false
  | number :: rest => do
    let fs ← getMemory
    let buffer ← readBlock number
    match (fs.looseDirents buffer).find? fun offset => 8 + name.length ≤ direntRemaining buffer offset with
    | some offset => do
      writeBlock number (splitDirent buffer offset name child)
      pure true
    | none => ext2AddToBlocks name child rest

/-- A directory with a block more, lost when no direct pointer is free. -/
def Ext2.growDirectory (fs : Ext2) (inode : Ext2Inode) (number : Nat) : Ext2Inode :=
  let linked : Ext2Inode := match (List.range ext2DirectBlocks).find? fun i => inode.block i = 0 with
    | some i => inode.setBlock i number
    | none => inode
  (linked.setSize (inode.size + fs.blockSize)).setBlocks (inode.blocks + fs.blockSize / 512)

def ext2AddDirectoryEntry (directory : Nat) (name : CString) (child : Nat) : Ext2Program Bool := do
  if directory = 0 ∨ child = 0 then pure false else
    match ← ext2ReadInode directory with
    | none => pure false
    | some inode => do
      if ← ext2AddToBlocks name child inode.leading then pure true else
        let number ← ext2AllocBlock
        if Negative number then pure false else do
          let fs ← getMemory
          writeBlock number (putDirent (fun _ => 0) 0 child fs.blockSize 0 name)
          ext2WriteInode directory (fs.growDirectory inode number)

/-- What both functions that create have in common, up to taking an inode. -/
def createWith (tail : Nat → CString → Nat → Ext2Program (Option Nat)) (path : CString) : Ext2Program (Option Nat) :=
  match ext2ParentAndName path with
  | none => pure none
  | some (parent, name) => do
    let directory ← ext2FindInode parent
    if directory = 0 then pure none else
      let number ← ext2AllocInode
      if Negative number then pure none else tail directory name number

/-- The inode that `ext2_create_file` stores. -/
def newFileInode : Ext2Inode := Ext2Inode.setLinksCount (Ext2Inode.setMode zeroInode 0x81A4) 1

/-- The part of `ext2_create_file` after an inode is taken. -/
def createFileIn (directory : Nat) (name : CString) (number : Nat) : Ext2Program (Option Nat) := do
  if ← ext2WriteInode number newFileInode then
    let added ← ext2AddDirectoryEntry directory name number
    pure (if added then some number else none)
  else pure none

def ext2CreateFile (path : CString) : Ext2Program (Option Nat) := createWith createFileIn path

/-- The inode that `ext2_create_directory` stores. -/
def Ext2.newDirectoryInode (fs : Ext2) (block : Nat) : Ext2Inode :=
  let inode := Ext2Inode.setSize (Ext2Inode.setMode zeroInode 0x41ED) fs.blockSize
  ((Ext2Inode.setBlocks inode (fs.blockSize / 512)).setLinksCount 2).setBlock 0 block

/-- The first block of a new directory, with its two dot entries. -/
def Ext2.newDirectoryBlock (fs : Ext2) (number parent : Nat) : Buffer :=
  putDirent (putDirent (fun _ => 0) 0 number 12 2 [dot]) 12 parent (fs.blockSize - 12) 2 [dot, dot]

/-- The part of `ext2_create_directory` after an inode is taken. -/
def createDirectoryIn (directory : Nat) (name : CString) (number : Nat) : Ext2Program (Option Nat) := do
  let block ← ext2AllocBlock
  if Negative block then pure none else do
    let fs ← getMemory
    if ← ext2WriteInode number (fs.newDirectoryInode block) then
      writeBlock block (fs.newDirectoryBlock number directory)
      let added ← ext2AddDirectoryEntry directory name number
      pure (if added then some number else none)
    else pure none

def ext2CreateDirectory (path : CString) : Ext2Program (Option Nat) := createWith createDirectoryIn path

end Galio
