import Galio.Fs.Canonical
import Galio.Fs.Ext2Space

/-! What an EXT2 path leads to, and when the driver refuses to create under it. -/

namespace Galio

open BlockDevice List Option Program

variable {name path : CString} {current number directory : Nat} {post : Nat → Ext2Volume → Prop}

/-- The inode that some blocks name, or zero. -/
def searchOn (volume : Ext2Volume) (name : CString) : List Nat → Nat
  | [] => 0
  | number :: rest =>
    match (volume.memory.dirents (volume.disk number)).find? (direntNames (volume.disk number) name) with
    | some offset => direntInode (volume.disk number) offset
    | none => searchOn volume name rest

/-- The inode that the blocks of an inode, read as a directory, give for a name, or zero. -/
def lookupOn (volume : Ext2Volume) (directory : Nat) (name : CString) : Nat :=
  searchOn volume name (inodeAt volume directory).leading

/-- The blocks of an inode, read as directories, lead on through some names. -/
def Spells (volume : Ext2Volume) (current : Nat) : List CString → Prop
  | [] => True
  | name :: rest => lookupOn volume current name ≠ 0 ∧ Spells volume (lookupOn volume current name) rest

/-- The inode that some names lead to from another one, or zero. -/
def walkOn (volume : Ext2Volume) (current : Nat) : List CString → Nat
  | [] => current
  | name :: rest =>
    if lookupOn volume current name = 0 then 0 else walkOn volume (lookupOn volume current name) rest

/-- The inode that a path names, or zero. -/
def findOn (volume : Ext2Volume) (path : CString) : Nat :=
  match ext2CanonicalizePath path with
  | none => 0
  | some absolute => walkOn volume ext2RootInode (pathNames absolute)

variable {group : Nat} {names : List CString} {volume : Ext2Volume}

lemma walkOn_zero_iff (start : current ≠ 0) : walkOn volume current names = 0 ↔ ¬Spells volume current names := by
  induction names generalizing current with
  | nil => exact iff_of_false start fun never => never trivial
  | cons name rest ih =>
    rw [walkOn, Spells]
    by_cases missing : lookupOn volume current name = 0
    · simp [missing]
    · rw [if_neg missing, ih missing]
      simp [missing]

/-- No inode has the block of the superblock among its own. -/
structure SoundVolume (volume : Ext2Volume) : Prop where
  layout : volume.memory.Layout
  pointers : ∀ number, ∀ block ∈ (inodeAt volume number).leading, ¬volume.memory.Bypassed block

variable {bypassed : Nat → Prop} {bit : Nat} {left : Ext2Volume}

section Rules

lemma ext2SearchBlocks_ends {numbers : List Nat}
    (cached : ∀ number ∈ numbers, ¬bypassed number) (rest : post (searchOn volume name numbers) volume) :
    (ext2SearchBlocks name numbers).ends bypassed post volume := by
  induction numbers with
  | nil => exact rest
  | cons number numbers ih =>
    unfold ext2SearchBlocks
    rw [ends_get]
    apply ends_read_plain (cached number (.head _))
    rw [searchOn] at rest
    split
    · simpa [*] using rest
    · exact ih (fun number listed => cached number (.tail _ listed)) (by simpa [*] using rest)

lemma ext2Walk_ends (sound : SoundVolume volume)
    (hidden : bypassed = volume.memory.Bypassed) (rest : post (walkOn volume current names) volume) :
    (ext2Walk current names).ends bypassed post volume := by
  induction names generalizing current with
  | nil => exact rest
  | cons name names ih =>
    unfold ext2Walk
    rw [ends_bind]
    have pointers := sound.pointers current
    rw [walkOn, lookupOn] at rest
    rw [inodeAt] at pointers rest
    refine ext2ReadInode_ends (fun absent => ?_) fun tableBlock offset place => ?_
    · rw [absent] at rest
      exact rest
    · rw [place] at pointers rest
      refine ⟨by rw [hidden]; exact sound.layout.inodePlace_cached place, ?_⟩
      rw [ends_bind]
      apply ext2SearchBlocks_ends (by rw [hidden]; exact pointers)
      refine ends_ite (fun missing => ?_) fun found => ?_
      · rw [if_pos missing] at rest
        exact rest
      · rw [if_neg found] at rest
        exact ih rest

lemma ext2FindInode_ends (sound : SoundVolume volume) (hidden : bypassed = volume.memory.Bypassed)
    (rest : post (findOn volume path) volume) : (ext2FindInode path).ends bypassed post volume := by
  unfold ext2FindInode
  rw [findOn] at rest
  split
  · simpa [*] using rest
  · exact ext2Walk_ends sound hidden (by simpa [*] using rest)

lemma ext2AddToBlocks_ends (name : CString) (child : Nat) (numbers : List Nat) :
    (ext2AddToBlocks name child numbers).ends bypassed (fun added left => added = false → left = volume) volume := by
  induction numbers with
  | nil => exact fun _ => rfl
  | cons number numbers ih =>
    unfold ext2AddToBlocks
    refine ends_read fun block _ => ?_
    split
    · exact fun never => absurd never (by simp)
    · exact ih

lemma Booked.grows {k : Nat} (booked : Booked volume group bit left)
    (plain : ¬volume.memory.Flushed number) (set : (volume.disk number).bit k) : (left.disk number).bit k := by
  by_cases here : number = volume.memory.blockBitmap group
  · rw [here] at set ⊢
    rw [booked.block, Buffer.bit_setBit, set, Bool.or_true]
  · rw [booked.frame number here plain]
    exact set

/-- An entry that cannot be added clears no bit besides the blocks of the counts. -/
theorem ext2AddDirectoryEntry_ends {child : Nat} (layout : volume.memory.Layout)
    (hidden : bypassed = volume.memory.Bypassed) :
    (ext2AddDirectoryEntry directory name child).ends bypassed (fun added left => added = false →
      ∀ number, ¬volume.memory.Flushed number → ∀ k, (volume.disk number).bit k →
        (left.disk number).bit k) volume := by
  unfold ext2AddDirectoryEntry
  refine ends_ite (fun _ _ _ _ _ set => set) fun _ => ?_
  rw [ends_bind]
  refine ext2ReadInode_ends (fun _ _ _ _ _ set => set) fun tableBlock offset place => ?_
  refine ⟨by rw [hidden]; exact layout.inodePlace_cached place, ?_⟩
  rw [ends_bind]
  refine ends_mono (fun added left unchanged => ?_) (ext2AddToBlocks_ends name child _)
  cases added with
  | true => exact fun never => absurd never (by simp)
  | false =>
    obtain rfl := unchanged rfl
    rw [if_neg (by simp), ends_bind]
    refine ext2AllocBlock_ends hidden layout.descriptors (fun _ counted => layout.blockBitmap_unflushed counted) ?_ ?_
    · intro _
      rw [if_pos (by decide)]
      exact fun _ _ _ _ set => set
    · intro group bit after _ _ _ booked
      refine ends_ite (fun _ _ number plain k set => booked.grows plain set) fun _ => ?_
      rw [ends_get, ends_write]
      have same : SameLayout left.memory after.memory := booked.memory ▸ .setFreeBlocks ..
      refine ext2WriteInode_ends (fun absent => ?_) fun again start found => ?_
      · rw [Volume.put_memory, same.inodePlace, place] at absent
        simp at absent
      · refine ⟨?_, fun never => absurd never (by simp)⟩
        rw [hidden, ← same.bypassed]
        exact (layout.after same).inodePlace_cached found

end Rules

/-- No bitmap that the inode allocator reads has a clear bit it accepts. -/
def NoFreeInode (volume : Ext2Volume) : Prop :=
  ∀ group bit, group < volume.memory.groupCount → bit < 8 * volume.memory.blockSize →
    volume.memory.inodeNumber group bit ≤ volume.memory.inodesCount →
    (volume.disk (volume.memory.inodeBitmap group)).bit bit = true

lemma freeInodeBit_none : freeInodeBit volume group = none ↔ ∀ bit < 8 * volume.memory.blockSize,
      volume.memory.inodeNumber group bit ≤ volume.memory.inodesCount →
      (volume.disk (volume.memory.inodeBitmap group)).bit bit := by
  rw [freeInodeBit, Ext2.clearBit_none]
  simp only [decide_eq_true_eq]

/-- A call fails and leaves every block as it is. -/
def Refused (device : Ext2Device) (program : Ext2Program (Option Nat)) : Prop :=
  (device.call program).1 = none ∧ ∀ number, (device.call program).2.disk number = device.disk number

/-- An inode of a group was taken, and the block bitmaps are as they were. -/
structure InodeTaken (volume : Ext2Volume) (group bit : Nat) (left : Ext2Volume) : Prop where
  same : SameLayout volume.memory left.memory
  real : group < volume.memory.groups
  clear : (volume.disk (volume.memory.inodeBitmap group)).bit bit = false
  set : (left.disk (volume.memory.inodeBitmap group)).bit bit = true
  bitmaps : ∀ other, other < volume.memory.groupCount →
    left.disk (volume.memory.blockBitmap other) = volume.disk (volume.memory.blockBitmap other)

namespace InodeTaken

lemma changed (taken : InodeTaken volume group bit left) {after : Ext2Volume}
    (kept : (after.disk (volume.memory.inodeBitmap group)).bit bit) :
    ∃ number, after.disk number ≠ volume.disk number := by
  refine ⟨volume.memory.inodeBitmap group, fun same => ?_⟩
  rw [same, taken.clear] at kept
  simp at kept

lemma putInode (taken : InodeTaken volume group bit left) (layout : volume.memory.Layout)
    {tableBlock offset : Nat} (found : volume.memory.inodePlace number = some (tableBlock, offset))
    (block : Buffer) : InodeTaken volume group bit (left.put tableBlock block) where
  same := taken.same
  real := taken.real
  clear := taken.clear
  set := by
    rw [Volume.put_other _ _ (layout.inodeBitmap_table taken.real found)]
    exact taken.set
  bitmaps other counted := by
    rw [Volume.put_other _ _ (layout.blockBitmap_table counted found)]
    exact taken.bitmaps other counted

end InodeTaken

section Creation

/-- A call ends with a result or with a block changed. -/
def Shows (volume : Ext2Volume) (result : Option Nat) (left : Ext2Volume) : Prop :=
  result = none → ∃ number, left.disk number ≠ volume.disk number

lemma createFileIn_shows (layout : volume.memory.Layout)
    (hidden : bypassed = volume.memory.Bypassed) (taken : InodeTaken volume group bit left) :
    (createFileIn directory name number).ends bypassed (Shows volume) left := by
  unfold createFileIn
  rw [ends_bind]
  have direct : bypassed = left.memory.Bypassed := by rw [hidden, taken.same.bypassed]
  refine ext2WriteInode_ends (fun _ _ => taken.changed taken.set) fun tableBlock offset place => ?_
  refine ⟨by rw [direct]; exact (layout.after taken.same).inodePlace_cached place, ?_⟩
  rw [taken.same.inodePlace] at place
  have next := taken.putInode layout place ((left.disk tableBlock).put offset ext2InodeSize newFileInode)
  rw [if_pos rfl, ends_bind]
  refine ends_mono (fun added after failed none => ?_)
    (ext2AddDirectoryEntry_ends (layout.after next.same) (by rw [hidden, next.same.bypassed]))
  -- The entry was not added, and the inode bitmap is none of the blocks of the counts.
  have missed : added = false := by simpa using none
  refine next.changed (failed missed _ ?_ _ next.set)
  rw [next.same.flushed]
  exact layout.unflushed (.inodeBitmap group) next.real

/-- A directory is created, or a bit of a bitmap stays set. -/
theorem createDirectoryIn_shows (layout : volume.memory.Layout)
    (hidden : bypassed = volume.memory.Bypassed) (taken : InodeTaken volume group bit left) :
    (createDirectoryIn directory name number).ends bypassed (Shows volume) left := by
  unfold createDirectoryIn
  rw [ends_bind]
  have direct : bypassed = left.memory.Bypassed := by rw [hidden, taken.same.bypassed]
  have after := layout.after taken.same
  refine ext2AllocBlock_ends direct after.descriptors (fun _ counted => after.blockBitmap_unflushed counted) ?_ ?_
  · intro _
    rw [if_pos (by decide)]
    exact fun _ => taken.changed taken.set
  intro owner k booked counted free _ stored
  -- The bit of the inode is still set, and so is the one of the new block.
  have same : SameLayout volume.memory booked.memory := taken.same.trans (stored.memory ▸ .setFreeBlocks ..)
  have plain : ¬left.memory.Flushed (volume.memory.inodeBitmap group) := by
    rw [taken.same.flushed]
    exact layout.unflushed (.inodeBitmap group) taken.real
  have kept := stored.grows plain taken.set
  rw [taken.same.groupCount] at counted
  have before : (volume.disk (volume.memory.blockBitmap owner)).bit k = false := by
    have clear := (freeBlockBit_some free).1.2.1
    rwa [taken.same.blockBitmap, taken.bitmaps owner counted] at clear
  have marked : (booked.disk (volume.memory.blockBitmap owner)).bit k := by
    have block := stored.block
    rw [taken.same.blockBitmap] at block
    rw [block, Buffer.bit_setBit]
    simp
  refine ends_ite (fun _ _ => taken.changed kept) fun _ => ?_
  rw [ends_get, ends_bind]
  refine ext2WriteInode_ends (fun _ _ => taken.changed kept) fun tableBlock offset place => ?_
  refine ⟨by rw [hidden, ← same.bypassed]; exact (layout.after same).inodePlace_cached place, ?_⟩
  rw [same.inodePlace] at place
  rw [if_pos rfl, ends_write, ends_bind]
  refine ends_mono (fun added final failed none => ?_)
    (ext2AddDirectoryEntry_ends (layout.after same) (by rw [hidden, ← same.bypassed]; rfl))
  have missed : added = false := by simpa using none
  have unflushed : ∀ {number}, ¬volume.memory.Flushed number → ¬booked.memory.Flushed number := fun plain => by
    rwa [same.flushed]
  by_cases covered : volume.memory.inodeBitmap group = left.memory.blockNumber owner k
  · -- The new block overwrites the inode bitmap, which leaves the block bitmap.
    have apart := layout.blockBitmap_inodeBitmap taken.real counted
    refine ⟨volume.memory.blockBitmap owner, fun unchanged => ?_⟩
    have still := failed missed (volume.memory.blockBitmap owner) (unflushed (layout.blockBitmap_unflushed counted)) k
      (by rw [Volume.put_other _ _ (by rw [← covered]; exact apart),
            Volume.put_other _ _ (layout.blockBitmap_table counted place)]; exact marked)
    rw [unchanged, before] at still
    simp at still
  · refine taken.changed (failed missed (volume.memory.inodeBitmap group)
      (unflushed (layout.unflushed (.inodeBitmap group) taken.real)) _ ?_)
    rw [Volume.put_other _ _ covered, Volume.put_other _ _ (layout.inodeBitmap_table taken.real place)]
    exact kept

/-- Both functions are refused exactly where no inode can be taken below the parent. -/
theorem createWith_refused_iff {device : Ext2Device}
    {tail : Nat → CString → Nat → Ext2Program (Option Nat)} (sound : SoundVolume device.toVolume)
    (coherent : device.Coherent)
    (shows' : ∀ {left group bit directory name number}, InodeTaken device.toVolume group bit left →
      (tail directory name number).ends device.memory.Bypassed (Shows device.toVolume) left) :
    Refused device (createWith tail path) ↔ ∀ parent name, ext2ParentAndName path = some (parent, name) →
      findOn device.toVolume parent = 0 ∨ NoFreeInode device.toVolume := by
  have layout := sound.layout
  constructor
  · rintro ⟨failed, unchanged⟩ parent name split
    by_contra either
    obtain ⟨found, some⟩ := not_or.mp either
    have ended : (createWith tail path).ends device.memory.Bypassed (Shows device.toVolume) device.toVolume := by
      unfold createWith
      rw [split]
      simp only
      rw [ends_bind]
      apply ext2FindInode_ends sound rfl
      rw [if_neg found, ends_bind]
      refine ext2AllocInode_ends rfl layout.descriptors (fun _ counted => layout.inodeBitmap_unflushed counted) ?_ ?_
      · intro none
        exact absurd (fun group bit counted => freeInodeBit_none.mp (none group counted) bit) some
      intro group bit left counted free _ booked
      obtain ⟨⟨inside, clear, accepted⟩, -⟩ := Ext2.clearBit_some free
      have real : group < device.memory.groups := Nat.lt_of_not_le fun outside =>
        absurd (layout.spare group bit outside counted inside) (Nat.not_lt_of_le (of_decide_eq_true accepted))
      have taken : InodeTaken device.toVolume group bit left := by
        refine ⟨booked.memory ▸ .setFreeInodes .., real, clear, ?_, fun other within => ?_⟩
        · rw [booked.block, Buffer.bit_setBit]
          simp
        · exact booked.frame _ (layout.blockBitmap_inodeBitmap real within) (layout.blockBitmap_unflushed within)
      constructor
      · intro _
        rw [if_pos (by decide)]
        exact fun _ => taken.changed taken.set
      · intro tableBlock offset place
        have next := taken.putInode layout place ((left.disk tableBlock).put offset ext2InodeSize zeroInode)
        refine ⟨layout.inodePlace_cached place, ?_⟩
        exact ends_ite (fun _ _ => next.changed next.set) fun _ => shows' next
    obtain ⟨number, differs⟩ := (ends_run coherent ended).1 failed
    exact differs (unchanged number)
  · intro condition
    have ended : (createWith tail path).ends device.memory.Bypassed
        (fun result left => result = none ∧ ∀ number, left.disk number = device.disk number) device.toVolume := by
      unfold createWith
      split
      · exact ⟨rfl, fun _ => rfl⟩
      rename_i parent name split
      rw [ends_bind]
      apply ext2FindInode_ends sound rfl
      refine ends_ite (fun _ => ⟨rfl, fun _ => rfl⟩) fun found => ?_
      have none := (condition parent name split).resolve_left found
      rw [ends_bind]
      refine ext2AllocInode_ends rfl layout.descriptors (fun _ counted => layout.inodeBitmap_unflushed counted) ?_ ?_
      · intro _
        rw [if_pos (by decide)]
        exact ⟨rfl, fun _ => rfl⟩
      · intro group bit _ counted free
        obtain ⟨⟨inside, clear, accepted⟩, -⟩ := Ext2.clearBit_some free
        rw [none group bit counted inside (of_decide_eq_true accepted)] at clear
        simp at clear
    exact (ends_run coherent ended).1

end Creation

/-- The components of a path, cut where they lead to an inode that is no directory. -/
structure FileBefore (volume : Ext2Volume) (path : CString) (front rest : List CString) : Prop where
  names : pathNames path = front ++ rest
  nonempty : front ≠ []
  proper : rest ≠ []
  named : walkOn volume ext2RootInode front ≠ 0
  file : (inodeAt volume (walkOn volume ext2RootInode front)).mode / 0x1000 ≠ 4

/-- A path with a component before its last that names no directory. -/
def ThroughFile (volume : Ext2Volume) (path : CString) : Prop := ∃ front rest, FileBefore volume path front rest

/-- The names that dots leave of a path the driver takes lead to an inode, all of them read as directories. -/
def Leads (volume : Ext2Volume) (path : CString) : Prop :=
  (ext2CanonicalizePath path).isSome ∧ Spells volume ext2RootInode (keptNames (rootComponents path))

lemma findOn_iff : findOn volume path ≠ 0 ↔ Leads volume path := by
  unfold findOn Leads
  cases made : ext2CanonicalizePath path with
  | none => simp
  | some canonical =>
    have start : ext2RootInode ≠ 0 := by decide
    have names : pathNames canonical = keptNames (rootComponents path) := by
      rw [ext2CanonicalizePath_some made]
      exact pathNames_canonicalBuffer (fun name listed => pathNames_proper _ name (keptNames_subset listed)) _
    simp [walkOn_zero_iff start, names]

/--
Only directories have entries.

A path through something else is not found, and nothing is created on it, nor where a name exists already.
-/
def OnlyDirectories (device : Ext2Device) (path : CString) : Prop :=
  (ThroughFile device.toVolume path → (device.call (ext2FindInode path)).1 = 0) ∧
    (ThroughFile device.toVolume path ∨ Spells device.toVolume ext2RootInode (pathNames path) →
      Refused device (ext2CreateFile path) ∧ Refused device (ext2CreateDirectory path))

/--
Only directories have entries where nothing reads as a directory that is none, and nothing can be created.

Where the path passes through a file, the names that dots leave of it, looked up as records of any inode, lead to
none. Where it passes through a file or exists, it has no parent that is found so, or no inode is free.
-/
theorem only_directories_iff {device : Ext2Device} (sound : SoundVolume device.toVolume) (coherent : device.Coherent)
    (path : CString) :
    OnlyDirectories device path ↔
      (ThroughFile device.toVolume path → ¬Leads device.toVolume path) ∧
      (ThroughFile device.toVolume path ∨ Spells device.toVolume ext2RootInode (pathNames path) → ∀ parent name,
        ext2ParentAndName path = some (parent, name) →
          ¬Leads device.toVolume parent ∨ NoFreeInode device.toVolume) := by
  have found : (device.call (ext2FindInode path)).1 = findOn device.toVolume path := by
    have ended : (ext2FindInode path).ends device.memory.Bypassed
        (fun number _ => number = findOn device.toVolume path) device.toVolume := ext2FindInode_ends sound rfl rfl
    exact (ends_run coherent ended).1
  have file : Refused device (createWith createFileIn path) ↔ _ :=
    createWith_refused_iff sound coherent fun taken => createFileIn_shows sound.layout rfl taken
  have directory : Refused device (createWith createDirectoryIn path) ↔ _ :=
    createWith_refused_iff sound coherent fun taken => createDirectoryIn_shows sound.layout rfl taken
  have lead : ∀ {path}, findOn device.toVolume path = 0 ↔ ¬Leads device.toVolume path := by
    intro path
    rw [← findOn_iff, not_not]
  unfold OnlyDirectories
  rw [ext2CreateFile, ext2CreateDirectory, file, directory, found, and_self]
  simp only [lead]

/-- A volume whose root directory holds one entry, for an empty file. -/
def rootedVolume : Ext2Volume where
  memory := smallFs false
  disk number k :=
    match number with
    | 2 => if k = 0 then 0x3F else 0xFF
    | 3 => if k = 0 then 0x07 else 0xFF
    | 4 =>
      match k with
      | 128 => 0xED
      | 129 => 0x41
      | 156 => 4
      | 168 => 5
      | 256 => 0xA4
      | 257 => 0x81
      | _ => 0
    | 5 => putDirent (putDirent (putDirent (fun _ => 0) 0 2 12 2 [dot]) 12 2 12 2 [dot, dot]) 24 3 2024 0 [102] k
    | _ => 0

/-- The volume with nothing cached. -/
def rootedDevice : Ext2Device := { rootedVolume with slots := fun _ => none, turn := 0 }

lemma rooted_sound : SoundVolume rootedVolume where
  layout := small_layout false
  pointers number block listed := by
    have nonzero : block ≠ 0 := by simpa using mem_takeWhile_imp listed
    exact nonzero

lemma rooted_coherent : rootedDevice.Coherent :=
  ⟨fun _ held => absurd held (by simp [rootedDevice]), fun _ _ held => absurd held (by simp [rootedDevice])⟩

/-- An empty file leads nowhere, and nothing is created two components below it. -/
theorem only_directories_iff_two_below : ThroughFile rootedVolume [slash, 102, slash, 120, slash, 121] ∧
    OnlyDirectories rootedDevice [slash, 102, slash, 120, slash, 121] := by
  refine ⟨⟨[[102]], [[120], [121]], by constructor <;> decide +kernel⟩,
    (only_directories_iff rooted_sound rooted_coherent _).mpr ⟨fun _ => ?_, fun _ parent name split => .inl ?_⟩⟩
  · rw [← findOn_iff]
    decide +kernel
  · have parts : ext2ParentAndName [slash, 102, slash, 120, slash, 121] = some ([slash, 102, slash, 120], [121]) := by
      decide
    rw [parts, some.injEq, Prod.mk.injEq] at split
    obtain ⟨rfl, rfl⟩ := split
    rw [← findOn_iff]
    decide +kernel

/-- An entry is created in an empty file, and the path through the file leads to it from then on. -/
theorem file_becomes_directory :
    SoundVolume rootedDevice.toVolume ∧ rootedDevice.Coherent ∧
      FileBefore rootedDevice.toVolume [slash, 102, slash, 120] [[102]] [[120]] ∧
      (rootedDevice.call (ext2CreateFile [slash, 102, slash, 120])).1 = some 4 ∧
      ((rootedDevice.call (ext2CreateFile [slash, 102, slash, 120])).2.call
        (ext2FindInode [slash, 102, slash, 120])).1 = 4 ∧
      ¬OnlyDirectories rootedDevice [slash, 102, slash, 120] := by
  have cut : FileBefore rootedDevice.toVolume [slash, 102, slash, 120] [[102]] [[120]] := by
    constructor <;> decide +kernel
  have created : (rootedDevice.call (ext2CreateFile [slash, 102, slash, 120])).1 = some 4 := by decide +kernel
  refine ⟨rooted_sound, rooted_coherent, cut, created, by decide +kernel, fun only => ?_⟩
  have refused := (only.2 (.inl ⟨_, _, cut⟩)).1.1
  rw [created] at refused
  simp at refused

end Galio
