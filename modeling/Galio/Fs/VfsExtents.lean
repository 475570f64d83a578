import Galio.Lib.Arena
import Galio.Fs.VfsReachable

/-! The data of files in memory: where it lies, and that calls on one file leave the others alone. -/

namespace Galio

open Function List Vfs

open Arena

variable {before after : Vfs} {mode : UInt32}

/-- The stretch of the data that a file occupies. -/
def Vfs.extent (vfs : Vfs) (i : Nat) : Option (Nat × Nat) :=
  if 0 < (vfs.inodes i).size ∧ (vfs.inodes i).block ≠ vfsInvalidOffset then
    some ((vfs.inodes i).block, (vfs.inodes i).size)
  else none

/-- The bytes of a file. -/
def Vfs.content (vfs : Vfs) (i : Nat) : List UInt8 :=
  if (vfs.inodes i).block = vfsInvalidOffset then []
  else vfs.load (vfs.inodes i).block (vfs.inodes i).size

/-- Files lie apart in the data, and directories have none. -/
structure Extents (vfs : Vfs) : Prop where
  directory : ∀ i, (vfs.inodes i).type = vfsTypeDir → (vfs.inodes i).block = vfsInvalidOffset
  unused : ∀ i, vfs.nextInode ≤ i → (vfs.inodes i).size = 0
  top : vfs.dataTop ≤ vfs.dataSize
  laid : Laid vfs.extent vfs.dataTop

lemma content_eq_bytes (vfs : Vfs) (i : Nat) : vfs.content i = bytes vfs.data (vfs.extent i) := by
  unfold content extent
  by_cases invalid : (vfs.inodes i).block = vfsInvalidOffset
  · simp [invalid, bytes]
  rw [if_neg invalid]
  by_cases empty : (vfs.inodes i).size = 0
  · simp [empty, bytes, load]
  · rw [if_pos ⟨Nat.pos_of_ne_zero empty, invalid⟩]
    rfl

variable {grants : Nat → Bool} {i size : Nat} {inode : VfsInode} {name : CString} {new : List UInt8} {vfs : Vfs}

lemma extent_some {start : Nat} (held : vfs.extent i = some (start, size)) :
    0 < (vfs.inodes i).size ∧ (vfs.inodes i).block ≠ vfsInvalidOffset ∧ (vfs.inodes i).block = start ∧
      (vfs.inodes i).size = size := by
  unfold extent at held
  split at held
  · rename_i occupied
    cases held
    exact ⟨occupied.1, occupied.2, rfl, rfl⟩
  · simp at held

lemma extent_of_occupied (some : 0 < (vfs.inodes i).size) (valid : (vfs.inodes i).block ≠ vfsInvalidOffset) :
    vfs.extent i = Option.some ((vfs.inodes i).block, (vfs.inodes i).size) := if_pos ⟨some, valid⟩

lemma extent_congr (same : after.inodes i = before.inodes i) : after.extent i = before.extent i := by
  unfold extent
  rw [same]

/-- Files stay apart through a call, and all but one keep their bytes. -/
def Keeps (target : Option Nat) (before after : Vfs) : Prop :=
  Extents before → Extents after ∧ ∀ j, target ≠ some j → after.content j = before.content j

lemma Keeps.trans {target : Option Nat} {mid : Vfs} (first : Keeps target before mid)
    (second : Keeps target mid after) : Keeps target before after := by
  intro extents
  obtain ⟨between, same⟩ := first extents
  obtain ⟨finally_, again⟩ := second between
  exact ⟨finally_, fun j other => (again j other).trans (same j other)⟩

lemma Keeps.weaken (keeps : Keeps none before after) (target : Option Nat) : Keeps target before after :=
  fun extents => ⟨(keeps extents).1, fun j _ => (keeps extents).2 j (by simp)⟩

lemma Keeps.of_same (inodes : after.inodes = before.inodes) (data : after.data = before.data)
    (dataSize : after.dataSize = before.dataSize) (dataTop : after.dataTop = before.dataTop)
    (nextInode : after.nextInode = before.nextInode) : Keeps none before after := by
  intro extents
  have extent : after.extent = before.extent := funext fun i => extent_congr (by rw [inodes])
  refine ⟨⟨?_, ?_, ?_, ?_⟩, fun j _ => ?_⟩
  · rw [inodes]
    exact extents.directory
  · rw [inodes, nextInode]
    exact extents.unused
  · rw [dataTop, dataSize]
    exact extents.top
  · rw [extent, dataTop]
    exact extents.laid
  · rw [content_eq_bytes, content_eq_bytes, data, extent]

lemma Keeps.setFile {target : Option Nat} (keeps : Keeps target before after) (fd : Nat)
    (file : VfsFile) : Keeps target before (after.setFile fd file) := by
  have same : Keeps none after (after.setFile fd file) := .of_same rfl rfl rfl rfl rfl
  exact keeps.trans (same.weaken target)

lemma Looked.keeps (looked : Looked before after) : Keeps none before after :=
  .of_same looked.inodes looked.data looked.dataSize looked.dataTop looked.nextInode

/-- A change of one inode, whose stretch is given up, cut short, or taken anew at the top. -/
theorem Extents.change (extents : Extents before) (i : Nat) (others : ∀ j ≠ i, after.inodes j = before.inodes j)
    (used : after.nextInode ≤ i → (after.inodes i).size = 0) (next : before.nextInode ≤ after.nextInode)
    (directory : (after.inodes i).type = vfsTypeDir → (after.inodes i).block = vfsInvalidOffset)
    (grown : before.dataTop ≤ after.dataTop) (room : after.dataTop ≤ after.dataSize)
    (here : ∀ start size, after.extent i = some (start, size) →
      (before.dataTop ≤ start ∧ start + size ≤ after.dataTop) ∨
        ∃ old, before.extent i = some (start, old) ∧ size ≤ old)
    (memory : ∀ j ≠ i, bytes after.data (before.extent j) = bytes before.data (before.extent j)) :
    Extents after ∧ ∀ j ≠ i, after.content j = before.content j := by
  have extent : ∀ j ≠ i, after.extent j = before.extent j := fun j other => extent_congr (others j other)
  refine ⟨⟨?_, ?_, room, extents.laid.change i extent grown here⟩, fun j other => ?_⟩
  · intro j typed
    by_cases same : j = i
    · subst same
      exact directory typed
    · rw [others j same] at typed ⊢
      exact extents.directory j typed
  · intro j beyond
    by_cases same : j = i
    · subst same
      exact used beyond
    · rw [others j same]
      exact extents.unused j (Nat.le_trans next beyond)
  · rw [content_eq_bytes, content_eq_bytes, extent j other, memory j other]

lemma Keeps.setInode (i : Nat) (used : Extents vfs → vfs.nextInode ≤ i → inode.size = 0)
    (directory : Extents vfs → inode.type = vfsTypeDir → inode.block = vfsInvalidOffset)
    (same : Extents vfs → (vfs.setInode i inode).extent i = vfs.extent i) :
    Keeps none vfs (vfs.setInode i inode) := by
  intro extents
  have self : (vfs.setInode i inode).inodes i = inode := update_self ..
  have changed : Extents (vfs.setInode i inode) ∧ ∀ j ≠ i, (vfs.setInode i inode).content j = vfs.content j :=
    extents.change i (fun j other => update_of_ne other ..) (by rw [self]; exact used extents)
      (Nat.le_refl _) (by rw [self]; exact directory extents) (Nat.le_refl _) extents.top
      (fun start size held => .inr ⟨size, same extents ▸ held, Nat.le_refl _⟩) fun j _ => rfl
  obtain ⟨kept, others⟩ := changed
  refine ⟨kept, fun j _ => ?_⟩
  by_cases here : j = i
  · subst here
    rw [content_eq_bytes, content_eq_bytes, same extents]
    rfl
  · exact others j here

lemma Keeps.adjust (i : Nat) (block : inode.block = (vfs.inodes i).block) (size : inode.size = (vfs.inodes i).size)
    (directory : inode.type = vfsTypeDir → (vfs.inodes i).type = vfsTypeDir) :
    Keeps none vfs (vfs.setInode i inode) := by
  refine .setInode i (fun extents beyond => ?_) (fun extents typed => ?_) fun _ => ?_
  · rw [size, extents.unused i beyond]
  · rw [block, extents.directory i (directory typed)]
  · simp only [Vfs.extent, Vfs.setInode, update_self, block, size]

lemma Keeps.setDirectory (old : i < vfs.nextInode)
    (directory : (vfs.inodes i).type = vfsTypeDir) (block : inode.block = (vfs.inodes i).block) :
    Keeps none vfs (vfs.setInode i inode) := by
  refine .setInode i (fun _ beyond => absurd old (Nat.not_lt.mpr beyond)) (fun extents _ => ?_) fun extents => ?_
  · rw [block, extents.directory i directory]
  · have invalid := extents.directory i directory
    simp [Vfs.extent, Vfs.setInode, block, invalid]

section Entries

variable {dir : Nat} {found : Bool} (old : dir < vfs.nextInode) (directory : (vfs.inodes dir).type = vfsTypeDir)

include old directory

lemma Keeps.direntAdd {number : Nat}
    (entry : vfsDirentAdd grants vfs dir name number = (after, found)) : Keeps none vfs after := by
  rcases vfsDirentAdd_cases entry with ⟨_, rfl⟩ | ⟨_, _, _, rfl⟩
  · exact .of_same rfl rfl rfl rfl rfl
  · exact .setDirectory old directory rfl

lemma Keeps.direntRemove (erased : vfsDirentRemove vfs dir name = (after, found)) : Keeps none vfs after := by
  rcases vfsDirentRemove_cases erased with ⟨_, rfl⟩ | ⟨_, _, rfl⟩
  · exact .of_same rfl rfl rfl rfl rfl
  · exact .setDirectory old directory rfl

end Entries

lemma Keeps.of_others (changed : Extents before → Extents after ∧ ∀ j ≠ i, after.content j = before.content j) :
    Keeps (some i) before after :=
  fun extents => ⟨(changed extents).1, fun j other => (changed extents).2 j fun same => other (by rw [same])⟩

lemma Keeps.allocInode (given : Fresh vfs after i) : Keeps none vfs after := by
  have set : Keeps none vfs (vfs.setInode i ⟨i, 0, 0, 0, 0, 1, vfsInvalidOffset, 0, []⟩) := by
    refine .setInode _ (fun _ _ => rfl) (fun _ _ => rfl) fun extents => ?_
    simp [Vfs.extent, Vfs.setInode, extents.unused i (Nat.le_of_eq given.index.symm)]
  intro extents
  obtain ⟨kept, same⟩ := set extents
  have inodes : after.inodes = (vfs.setInode i ⟨i, 0, 0, 0, 0, 1, vfsInvalidOffset, 0, []⟩).inodes := by
    funext j
    by_cases here : j = i
    · simp [here, given.inode, Vfs.setInode]
    · simp [given.others j here, Vfs.setInode, update_of_ne here]
  have whole : after = { vfs.setInode i ⟨i, 0, 0, 0, 0, 1, vfsInvalidOffset, 0, []⟩ with
      nextInode := after.nextInode } := by
    rw [given.rest, inodes]
    rfl
  rw [whole]
  refine ⟨{ kept with unused := fun j beyond => kept.unused j ?_ }, same⟩
  exact Nat.le_trans (Nat.le_of_lt (Nat.lt_of_le_of_lt (Nat.le_of_eq given.index.symm) given.lt)) beyond

section Stores

lemma Keeps.empty (size : inode.size = 0) (directory : inode.type = vfsTypeDir → inode.block = vfsInvalidOffset) :
    Keeps (some i) vfs (vfs.setInode i inode) := by
  refine .of_others fun extents => ?_
  have self : (vfs.setInode i inode).inodes i = inode := update_self ..
  refine extents.change i (fun j other => update_of_ne other ..) fun _ => by rw [self, size]
    (Nat.le_refl _) (by rw [self]; exact directory) (Nat.le_refl _) extents.top ?_ fun j _ => rfl
  intro start length held
  have occupied := (extent_some held).1
  rw [self, size] at occupied
  exact absurd occupied (Nat.lt_irrefl 0)

lemma Keeps.place (used : i < vfs.nextInode) (room : inode.size ≤ vfs.dataSize - vfs.dataTop)
    (block : inode.block = vfs.dataTop) (regular : inode.type ≠ vfsTypeDir) :
    Keeps (some i) vfs ((({ vfs with dataTop := vfs.dataTop + inode.size }).store vfs.dataTop new).setInode i
      inode) := by
  refine .of_others fun extents => ?_
  have self : ((({ vfs with dataTop := vfs.dataTop + inode.size }).store vfs.dataTop new).setInode i
      inode).inodes i = inode := update_self ..
  have top := extents.top
  refine extents.change i (fun j other => update_of_ne other ..)
    (fun beyond => absurd used (Nat.not_lt.mpr beyond)) (Nat.le_refl _)
    (fun directory => absurd directory (by rw [self]; exact regular)) (Nat.le_add_right _ _) ?_ ?_
    fun j _ => extents.laid.bytes_store_top j
  · show vfs.dataTop + inode.size ≤ vfs.dataSize
    omega
  · intro start size held
    obtain ⟨_, _, rfl, rfl⟩ := extent_some held
    rw [self, block]
    exact .inl ⟨Nat.le_refl _, Nat.le_refl _⟩

lemma Keeps.overwrite (used : i < vfs.nextInode) (valid : (vfs.inodes i).block ≠ vfsInvalidOffset)
    (shorter : inode.size ≤ (vfs.inodes i).size)
    (fits : new.length ≤ inode.size) (block : inode.block = (vfs.inodes i).block)
    (regular : inode.type ≠ vfsTypeDir) :
    Keeps (some i) vfs ((vfs.store (vfs.inodes i).block new).setInode i inode) := by
  refine .of_others fun extents => ?_
  have self : ((vfs.store (vfs.inodes i).block new).setInode i inode).inodes i = inode :=
    update_self ..
  refine extents.change i (fun j other => update_of_ne other ..)
    (fun beyond => absurd used (Nat.not_lt.mpr beyond)) (Nat.le_refl _)
    (fun directory => absurd directory (by rw [self]; exact regular)) (Nat.le_refl _) extents.top ?_ ?_
  · intro start size held
    obtain ⟨occupied, _, rfl, rfl⟩ := extent_some held
    rw [self] at occupied ⊢
    rw [block]
    exact .inr ⟨_, extent_of_occupied (Nat.lt_of_lt_of_le occupied shorter) valid, shorter⟩
  · intro j other
    show bytes (store vfs.data (vfs.inodes i).block new) (vfs.extent j) = _
    by_cases empty : (vfs.inodes i).size = 0
    · have none : new = [] := eq_nil_of_length_eq_zero (by omega)
      rw [none, store_nil]
    · exact extents.laid.bytes_store_within other (extent_of_occupied (Nat.pos_of_ne_zero empty) valid) (by omega)

end Stores

lemma storeGiven_eq (vfs : Vfs) (offset size : Nat) (bytes : Option (List UInt8)) :
    ∃ new : List UInt8, new.length ≤ size ∧
      (bytes.map fun given => vfs.store offset (given.take size)).getD vfs = vfs.store offset new := by
  cases bytes with
  | none =>
    refine ⟨[], Nat.zero_le _, ?_⟩
    show vfs = { vfs with data := store vfs.data offset [] }
    rw [store_nil]
  | some given => exact ⟨given.take size, length_take_le _ _, rfl⟩

lemma Keeps.remakeNode {existing : Nat} {bytes : Option (List UInt8)} (used : existing < vfs.nextInode)
    (regular : mode &&& vfsTypeMask = vfsTypeFile ∨ mode &&& vfsTypeMask = vfsTypeSymlink)
    (remade : vfsRemakeNode vfs existing mode bytes size = some after) : Keeps (some existing) vfs after := by
  have notDirectory : mode &&& vfsTypeMask ≠ vfsTypeDir := by
    rcases regular with file | link
    · rw [file]
      decide
    · rw [link]
      decide
  unfold vfsRemakeNode at remade
  dsimp only at remade
  rw [if_pos regular] at remade
  split at remade
  · rename_i inPlace
    cases remade
    obtain ⟨new, short, stored⟩ := storeGiven_eq vfs (vfs.inodes existing).block size bytes
    rw [stored]
    exact .overwrite used inPlace.2.1 inPlace.2.2 short rfl notDirectory
  · rcases vfsAllocateData_cases vfs size with ⟨empty, taken⟩ | taken | ⟨some, room, taken⟩
    all_goals
      rw [taken] at remade
    · cases remade
      obtain ⟨new, short, stored⟩ := storeGiven_eq vfs 0 size bytes
      have none : new = [] := eq_nil_of_length_eq_zero (by omega)
      rw [stored, none]
      exact .empty empty fun directory => absurd directory notDirectory
    · simp at remade
    · split at remade
      · simp at remade
      · cases remade
        obtain ⟨new, _, stored⟩ := storeGiven_eq { vfs with dataTop := vfs.dataTop + size } vfs.dataTop size bytes
        rw [stored]
        exact .place used room rfl notDirectory

lemma Keeps.fillNode (wired : Wired vfs) (size : Nat) (bytes : Option (List UInt8)) (used : i < vfs.nextInode)
    (regular : mode &&& vfsTypeMask = vfsTypeFile ∨ mode &&& vfsTypeMask = vfsTypeSymlink)
    (empty : (vfs.inodes i).block = vfsInvalidOffset) : Keeps (some i) vfs (vfsFillNode vfs i mode bytes size).1 := by
  have notDirectory : mode &&& vfsTypeMask ≠ vfsTypeDir := by
    rcases regular with file | link
    · rw [file]
      decide
    · rw [link]
      decide
  have sized : Keeps (some i) vfs (vfs.setInode i { vfs.inodes i with mode := mode, size := size }) := by
    refine Keeps.weaken ?_ _
    refine .setInode i (fun _ beyond => absurd used (Nat.not_lt.mpr beyond)) (fun _ _ => empty) fun _ => ?_
    simp [Vfs.extent, Vfs.setInode, empty]
  have here : i < (vfs.setInode i { vfs.inodes i with mode := mode, size := size }).nextInode := used
  have small : (vfs.setInode i { vfs.inodes i with mode := mode, size := size }).dataSize < 2 ^ 32 := wired.small
  unfold vfsFillNode
  dsimp only
  rw [if_pos regular]
  generalize vfs.setInode i { vfs.inodes i with mode := mode, size := size } = filled at *
  split
  · rcases vfsAllocateData_cases filled size with ⟨none, _⟩ | taken | ⟨_, room, taken⟩
    · omega
    · rw [taken]
      exact sized
    · rw [taken]
      split
      · rename_i invalid
        simp only [vfsInvalidOffset] at invalid
        omega
      · refine sized.trans (.place here ?_ ?_ ?_)
        · exact room
        · rfl
        · exact notDirectory
  · exact sized

lemma Keeps.entered {parent : Nat} {ready : Vfs} (wired : Wired ready)
    (above : parent < ready.nextDentry) (directory : (ready.inodeOf parent).type = vfsTypeDir)
    (entered : Entered grants name parent i ready after) : Keeps none ready after := by
  have old := wired.inode parent above
  cases entered with
  | refused => exact .of_same rfl rfl rfl rfl rfl
  | unlinked entry _ => exact .direntAdd old directory entry
  | linked entry made =>
    have added := Keeps.direntAdd old directory entry
    obtain ⟨_, rfl⟩ := vfsDirentAdd_inodesOnly entry
    exact added.trans (vfsCreateDentry_looked (by exact above) made).keeps

/-- The inode whose bytes the making of a node sets. -/
def vfsNodeTarget (vfs : Vfs) (path : CString) : Option Nat :=
  match vfsLookup vfs (vfsSplitParent (vfsNormalize path)).1 with
  | (_, none) => none
  | (looked, some parent) =>
    some ((vfsFindInodeInDir (looked.inodeOf parent) (entryName path)).getD vfs.nextInode)

lemma Keeps.readied {parent : Nat} {ready : Vfs} (readied : Readied vfs i ready) (wired : Wired vfs)
    (above : parent < vfs.nextDentry) (directory : (vfs.inodeOf parent).type = vfsTypeDir)
    (entered : Entered grants name parent i ready after) : Keeps none ready after := by
  have other : (vfs.dentries parent).inode ≠ i := Nat.ne_of_lt (readied.index ▸ wired.inode parent above)
  refine .entered readied.wired (readied.nextDentry ▸ above) ?_ entered
  rw [inodeOf, readied.dentries, readied.others _ other]
  exact directory

lemma Keeps.makeNode (wired : Wired vfs) (grants : Nat → Bool) (path : CString)
    (bytes : Option (List UInt8)) (size : Nat) (force : Bool)
    (regular : mode &&& vfsTypeMask = vfsTypeFile ∨ mode &&& vfsTypeMask = vfsTypeSymlink) :
    Keeps (vfsNodeTarget vfs path) vfs (vfsMakeNode grants vfs path mode bytes size force).1 := by
  obtain ⟨looked, lookups, same | ⟨parent, found, reached, directory, ⟨existing, entry, _, _, remade⟩ |
    ⟨entry, fresh, i, alloc, entered⟩⟩⟩ := vfsMakeNode_cases wired grants path mode bytes size force
  all_goals
    obtain ⟨kept, changes⟩ := lookups.spec wired
    apply (changes.keeps.weaken _).trans
  · rw [same]
    exact Keeps.weaken (.of_same rfl rfl rfl rfl rfl) _
  · have target : vfsNodeTarget vfs path = some existing := by simp [vfsNodeTarget, found, entry]
    rw [target]
    exact .remakeNode (kept.find entry).1 regular remade
  · have given := vfsAllocInode_fresh alloc
    have fresh_ := kept.allocInode alloc
    have target : vfsNodeTarget vfs path = some i := by
      simp [vfsNodeTarget, found, entry, given.index, changes.nextInode]
    rw [target]
    apply (Keeps.weaken (.allocInode given) _).trans
    apply (Keeps.fillNode fresh_ size bytes given.lt regular (by rw [given.inode])).trans
    exact Keeps.weaken (.readied (vfsFillNode_readied kept alloc mode bytes size) kept (reached.lt kept) directory
      entered) _

lemma Keeps.prepareDirectory (grants : Nat → Bool) (used : i < vfs.nextInode)
    (empty : (vfs.inodes i).block = vfsInvalidOffset) (parentNumber : Nat) :
    Keeps none vfs (vfsPrepareDirectory grants vfs i parentNumber) := by
  have typed : Keeps none vfs (vfs.setInode i { vfs.inodes i with mode := vfsTypeDir }) := by
    refine .setInode i (fun _ beyond => absurd used (Nat.not_lt.mpr beyond)) (fun _ _ => empty) fun _ => ?_
    simp [Vfs.extent, Vfs.setInode]
  have directory : ((vfs.setInode i { vfs.inodes i with mode := vfsTypeDir }).inodes i).mode = vfsTypeDir :=
    by simp [Vfs.setInode]
  have here : i < (vfs.setInode i { vfs.inodes i with mode := vfsTypeDir }).nextInode := used
  unfold vfsPrepareDirectory
  dsimp only
  generalize vfs.setInode i { vfs.inodes i with mode := vfsTypeDir } = started at *
  rcases first : vfsDirentAdd grants started i [dot] i with ⟨one, _⟩
  have kept := Keeps.direntAdd here (by rw [VfsInode.type, directory]; decide) first
  obtain ⟨_, frame⟩ := vfsDirentAdd_inodesOnly first
  refine typed.trans (kept.trans (.direntAdd ?_ ?_ rfl))
  · rw [frame]
    exact here
  · rw [VfsInode.type, mode_direntAdd first, directory]
    decide

lemma Keeps.makeDirectory (wired : Wired vfs) (grants : Nat → Bool) (path : CString) :
    Keeps none vfs (vfsMakeDirectory grants vfs path).1 := by
  obtain ⟨looked, lookups, same | ⟨parent, _, reached, directory, _, fresh, i, alloc, entered⟩⟩ :=
    vfsMakeDirectory_cases wired grants path
  all_goals
    obtain ⟨kept, changes⟩ := lookups.spec wired
    apply changes.keeps.trans
  · rw [same]
    exact .of_same rfl rfl rfl rfl rfl
  · have given := vfsAllocInode_fresh alloc
    refine (Keeps.allocInode given).trans ((Keeps.prepareDirectory grants given.lt (by rw [given.inode])
      (fresh.inodeOf parent).number).trans ?_)
    exact .readied (vfsPrepareDirectory_readied kept alloc grants (reached.lt kept)) kept (reached.lt kept) directory
      entered

lemma Keeps.moveEntry (wired : Wired vfs) {src srcParent target : Nat}
    {moved : Bool} (from_ : srcParent < vfs.nextDentry)
    (source : (vfs.inodeOf srcParent).type = vfsTypeDir) (above : target < vfs.nextDentry)
    (directory : (vfs.inodeOf target).type = vfsTypeDir)
    (move : vfsMoveEntry grants vfs src srcParent target name = some (after, moved)) : Keeps none vfs after := by
  unfold vfsMoveEntry at move
  dsimp only at move
  rcases erased : vfsDirentRemove vfs (vfs.dentries srcParent).inode (vfs.dentries src).name with ⟨removed, _ | _⟩
  all_goals
    rw [erased] at move
    dsimp only at move
    have removing := Keeps.direntRemove (wired.inode srcParent from_) source erased
    have modes := mode_direntRemove erased
    obtain ⟨inodes, rfl⟩ := vfsDirentRemove_inodesOnly erased
  · cases move
    exact removing
  have target' : (Vfs.inodes { vfs with inodes := inodes } (vfs.dentries target).inode).type = vfsTypeDir := by
    rw [VfsInode.type, modes]
    exact directory
  generalize (vfs.inodeOf src).number = srcNumber at move
  apply removing.trans
  have room : (vfs.dentries target).inode < nextInode { vfs with inodes := inodes } := wired.inode target above
  rcases entry : vfsDirentAdd grants { vfs with inodes := inodes } (vfs.dentries target).inode name srcNumber with
    ⟨entered, _ | _⟩
  all_goals
    rw [entry] at move
    dsimp only at move
    have added := mode_direntAdd entry
    apply (Keeps.direntAdd room target' entry).trans
    obtain ⟨inodes', rfl⟩ := vfsDirentAdd_inodesOnly entry
  · cases move
    refine .direntAdd (wired.inode srcParent from_) ?_ rfl
    rw [VfsInode.type, added, modes]
    exact source
  rcases unlinked : vfsUnlinkChildDentry { vfs with inodes := inodes' } srcParent src with _ | taken
  · simp [unlinked] at move
  rw [unlinked] at move
  cases move
  rcases vfsUnlinkChildDentry_cases unlinked with rfl | ⟨_, _, _, _, _, rfl⟩ <;>
    exact .of_same rfl rfl rfl rfl rfl

/-- The inode whose bytes a call sets. -/
def VfsOp.target (vfs : Vfs) : VfsOp → Option Nat
  | .installFile path _ _ _ => vfsNodeTarget vfs path
  | .createFile path _ _ => vfsNodeTarget vfs path
  | .createSymlink _ path _ _ => vfsNodeTarget vfs path
  | .write fd _ => vfs.openInode fd
  | _ => none

lemma Keeps.removes (wired : Wired vfs) (removes : Removes vfs after) : Keeps none vfs after := by
  cases removes with
  | nothing lookups => exact (lookups.spec wired).2.keeps
  | entry lookups reached apart link erased modes =>
    obtain ⟨kept, changes⟩ := lookups.spec wired
    obtain ⟨source, typed⟩ := reached.parent apart link
    have removing := Keeps.direntRemove (kept.inode _ (source.lt kept)) typed erased
    refine changes.keeps.trans (removing.trans (.adjust _ rfl rfl fun directory => ?_))
    rcases modes with rfl | rfl
    · exact absurd directory (show ¬(0 : UInt32) &&& vfsTypeMask = vfsTypeDir by decide)
    · exact directory

/-- Every call keeps files apart, and the bytes of all but the one it sets. -/
theorem Keeps.exec (wired : Wired vfs) {op : VfsOp} (step : op.exec vfs = some after) :
    Keeps (op.target vfs) vfs after := by
  have handled : op.Handles → Keeps none vfs after := fun handles => by
    obtain ⟨looked, lookups, rfl | ⟨fd, file, _, rfl⟩⟩ := handles.cases wired step
    · exact (lookups.spec wired).2.keeps
    · exact (lookups.spec wired).2.keeps.trans (.of_same rfl rfl rfl rfl rfl)
  cases op with
  | lookup | openFile | close | read | lseek => exact handled trivial
  | installFile path permissions bytes grants =>
    cases step
    exact .makeNode wired grants path _ _ true (.inl (type_or_permissions (by decide) permissions))
  | createFile path force grants | createSymlink _ path force grants =>
    cases step
    exact .makeNode wired grants path _ _ force (by decide)
  | createDir path grants =>
    cases step
    exact .makeDirectory wired grants path
  | write fd bytes =>
    cases step
    obtain same | ⟨i, opened, regular, change⟩ := vfsCoreWrite_cases wired fd bytes
    · rw [same]
      exact Keeps.weaken (.of_same rfl rfl rfl rfl rfl) _
    have used := wired.handles fd i (openInode_some opened)
    have target : VfsOp.target vfs (.write fd bytes) = some i := opened
    have notDirectory : (vfs.inodes i).type ≠ vfsTypeDir := by
      rw [regular]
      decide
    rw [target]
    obtain ⟨_, room, same⟩ | same | ⟨shorter, valid, same⟩ := change
    all_goals
      rw [same]
      refine Keeps.setFile ?_ fd _
    · exact .place used room rfl notDirectory
    · exact .empty rfl fun _ => rfl
    · exact .overwrite used valid shorter (Nat.le_refl _) rfl notDirectory
  | chmod path mode =>
    cases step
    obtain ⟨looked, lookups, same | ⟨d, _, _, same⟩⟩ := vfsCoreChmod_cases wired path mode
    all_goals
      rw [same]
      have changes := (lookups.spec wired).2.keeps
    · exact changes
    · refine changes.trans (.adjust _ rfl rfl fun directory => ?_)
      rwa [VfsInode.type, type_or_permissions] at directory
      rw [VfsInode.type, UInt32.and_assoc, UInt32.and_self]
  | move src dest grants =>
    obtain ⟨⟨after, moved⟩, move, rfl⟩ := Option.map_eq_some_iff.mp step
    obtain lookups | ⟨_, _, looked, d, srcParent, target, lookups, _, _, _, reached, apart, link, above, directory,
      _, entry⟩ := vfsCoreMove_cases wired move
    all_goals obtain ⟨kept, changes⟩ := lookups.spec wired
    · exact changes.keeps
    · obtain ⟨source, typed⟩ := reached.parent apart link
      refine changes.keeps.trans (.moveEntry kept (source.lt kept) typed (above.lt kept) ?_ entry)
      rw [VfsInode.type, directory]
      decide
  | unlink path =>
    cases step
    exact .removes wired (vfsCoreUnlink_removes wired path)
  | rmdir path =>
    cases step
    exact .removes wired (vfsCoreRmdir_removes wired path)

lemma vfsInitRoot_extents (hasData : Bool) (dataSize : Nat) (data : Nat → UInt8) :
    Extents (vfsInitRoot hasData dataSize data) := by
  have none : (vfsInitRoot hasData dataSize data).extent = fun _ => none := by
    funext i
    by_cases top : i = 0
    · simp [vfsInitRoot, vfsCacheInsert, setCache, extent, top]
    · simp [vfsInitRoot, vfsCacheInsert, setCache, extent, update_of_ne top]
  refine ⟨fun i directory => ?_, fun i later => ?_, Nat.zero_le _, ?_⟩
  · by_cases top : i = 0
    · simp [vfsInitRoot, vfsCacheInsert, setCache, top]
    · simp only [vfsInitRoot, vfsCacheInsert, setCache, update_of_ne top] at directory
      exact absurd directory (show ¬(0 : UInt32) &&& vfsTypeMask = vfsTypeDir by decide)
  · have other : i ≠ 0 := Nat.ne_of_gt later
    simp [vfsInitRoot, vfsCacheInsert, setCache, update_of_ne other]
  · rw [none]
    constructor <;> simp

lemma Reachable.extents (reached : Reachable vfs) : Extents vfs := by
  induction reached with
  | init _ => exact vfsInitRoot_extents _ _ _
  | step _ before call ih => exact (Keeps.exec before.wired call ih).1

lemma Reachable.content_lt (reached : Reachable vfs) (i : Nat) : (vfs.content i).length < 2 ^ 32 := by
  have top := reached.extents.top
  have small := reached.wired.small
  rw [content_eq_bytes]
  rcases held : vfs.extent i with _ | ⟨start, size⟩
  · exact Nat.two_pow_pos 32
  · have below := reached.extents.laid.inside held
    simp only [bytes, length_map, length_range]
    omega

/--
Files never overlap, and a call changes the bytes of at most one file.

In every state reached, the stretches of files with bytes lie below the top of the data and apart from
each other, and a call leaves the bytes of every file but the one it writes or makes.
-/
theorem reachable_files_apart {vfs : Vfs} (reached : Reachable vfs) :
    vfs.dataTop ≤ vfs.dataSize ∧
    (∀ i, 0 < (vfs.inodes i).size → (vfs.inodes i).block ≠ vfsInvalidOffset →
      (vfs.inodes i).block + (vfs.inodes i).size ≤ vfs.dataTop) ∧
    (∀ i j, i ≠ j → 0 < (vfs.inodes i).size → (vfs.inodes i).block ≠ vfsInvalidOffset →
      0 < (vfs.inodes j).size → (vfs.inodes j).block ≠ vfsInvalidOffset →
      (vfs.inodes i).block + (vfs.inodes i).size ≤ (vfs.inodes j).block ∨
        (vfs.inodes j).block + (vfs.inodes j).size ≤ (vfs.inodes i).block) ∧
    ∀ op after, VfsOp.exec vfs op = some after →
      ∀ j, op.target vfs ≠ some j → after.content j = vfs.content j := by
  have extents := reached.extents
  refine ⟨extents.top, fun i some valid => extents.laid.inside (extent_of_occupied some valid), ?_, ?_⟩
  · intro i j different some valid other valid'
    exact extents.laid.apart different (extent_of_occupied some valid) (extent_of_occupied other valid')
  · intro op after call j
    exact (Keeps.exec reached.wired call extents).2 j

/-- A file system with two files. -/
def twoFiles : Vfs :=
  (vfsInstallFile (fun _ => true) (vfsInstallFile (fun _ => true) freshVfs [slash, 97] 0x1A4 [1, 2]).1
    [slash, 98] 0x1A4 [3]).1

lemma twoFiles_reachable : Reachable twoFiles := by
  have first : Reachable (vfsInstallFile (fun _ => true) freshVfs [slash, 97] 0x1A4 [1, 2]).1 :=
    .step (.installFile [slash, 97] 0x1A4 [1, 2] fun _ => true) (.init (by decide)) rfl
  exact .step (.installFile [slash, 98] 0x1A4 [3] fun _ => true) first rfl

/-- The two files lie apart, below the top of the data. -/
theorem reachable_files_apart_two : twoFiles.dataTop ≤ twoFiles.dataSize ∧
    ((twoFiles.inodes 1).block + 2 ≤ (twoFiles.inodes 2).block ∨
      (twoFiles.inodes 2).block + 1 ≤ (twoFiles.inodes 1).block) := by
  obtain ⟨top, _, apart, _⟩ := reachable_files_apart twoFiles_reachable
  have first : (twoFiles.inodes 1).size = 2 ∧ (twoFiles.inodes 1).block ≠ vfsInvalidOffset := by
    decide +kernel
  have second : (twoFiles.inodes 2).size = 1 ∧ (twoFiles.inodes 2).block ≠ vfsInvalidOffset := by
    decide +kernel
  have disjoint := apart 1 2 (by decide) (by omega) first.2 (by omega) second.2
  exact ⟨top, disjoint⟩

end Galio
