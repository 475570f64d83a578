import Galio.Fs.VfsLaws

/-! The states of the file system in memory that calls lead to, and what holds in all of them. -/

namespace Galio

open Function List Option

variable {existing size j d parent child dir number : Nat} {mode : UInt32} {bytes : Option (List UInt8)}
  {after : Vfs} {grants : Nat → Bool} {name : CString} {found : Bool} {vfs : Vfs}

section Steps

variable (wired : Wired vfs)

include wired

lemma Wired.direntAdd (old : number < vfs.nextInode)
    (entry : vfsDirentAdd grants vfs dir name number = (after, found)) : Wired after := by
  rcases vfsDirentAdd_cases entry with ⟨_, rfl⟩ | ⟨_, _, _, rfl⟩
  · exact wired
  · refine wired.setInode dir rfl fun dirent mem => ?_
    rcases mem_append.mp mem with before | new
    · exact wired.listed dir dirent before
    · obtain rfl := mem_singleton.mp new
      exact old

lemma Wired.direntRemove (erased : vfsDirentRemove vfs dir name = (after, found)) : Wired after := by
  rcases vfsDirentRemove_cases erased with ⟨_, rfl⟩ | ⟨_, _, rfl⟩
  · exact wired
  · exact wired.setInode dir rfl fun dirent mem => wired.listed dir dirent (mem_of_mem_eraseP mem)

lemma Wired.adjust (i : Nat) {inode : VfsInode} (number : inode.number = (vfs.inodes i).number)
    (dirents : inode.dirents = (vfs.inodes i).dirents) : Wired (vfs.setInode i inode) :=
  wired.setInode i number fun dirent mem => wired.listed i dirent (dirents ▸ mem)

end Steps

lemma vfsAllocateData_cases (vfs : Vfs) (bytes : Nat) : (bytes = 0 ∧ vfsAllocateData vfs bytes = (vfs, 0)) ∨
      vfsAllocateData vfs bytes = (vfs, vfsInvalidOffset) ∨ (0 < bytes ∧ bytes ≤ vfs.dataSize - vfs.dataTop ∧
        vfsAllocateData vfs bytes = ({ vfs with dataTop := vfs.dataTop + bytes }, vfs.dataTop)) := by
  unfold vfsAllocateData
  split
  · rename_i none
    exact .inl ⟨none, rfl⟩
  split
  · exact .inr (.inl rfl)
  split
  · exact .inr (.inl rfl)
  · exact .inr (.inr ⟨by omega, by omega, rfl⟩)

/-- A change of the inodes and of the data of files alone. -/
def StorageOnly (before after : Vfs) : Prop :=
  ∃ inodes data top, after = { before with inodes := inodes, data := data, dataTop := top }

lemma vfsAllocateData_top (vfs : Vfs) (bytes : Nat) :
    ∃ top, (vfsAllocateData vfs bytes).1 = { vfs with dataTop := top } := by
  rcases vfsAllocateData_cases vfs bytes with ⟨_, same⟩ | same | ⟨_, _, same⟩ <;>
  · rw [same]
    exact ⟨_, rfl⟩

/-- A change of one inode that keeps its number and its entries, and of the data of files. -/
def NodeSet (before : Vfs) (i : Nat) (mode : UInt32) (after : Vfs) : Prop :=
  ∃ inode data top, after = { before.setInode i inode with data := data, dataTop := top } ∧
    inode.number = (before.inodes i).number ∧ inode.dirents = (before.inodes i).dirents ∧ inode.mode = mode

lemma vfsFillNode_sets (vfs : Vfs) (i : Nat) (mode : UInt32) (bytes : Option (List UInt8)) (size : Nat) :
    NodeSet vfs i mode (vfsFillNode vfs i mode bytes size).1 := by
  obtain ⟨_, taken⟩ := vfsAllocateData_top (vfs.setInode i { vfs.inodes i with mode := mode, size := size }) size
  unfold vfsFillNode
  dsimp only
  split
  · split
    · split
      · rw [taken]
        exact ⟨_, _, _, rfl, rfl, rfl, rfl⟩
      · rw [taken]
        simp only [Vfs.setInode, Vfs.store, update_idem]
        exact ⟨_, _, _, rfl, rfl, rfl, rfl⟩
    · exact ⟨_, _, _, rfl, rfl, rfl, rfl⟩
  · split
    · simp only [Vfs.setInode, update_idem]
      exact ⟨_, _, _, rfl, rfl, rfl, rfl⟩
    · exact ⟨_, _, _, rfl, rfl, rfl, rfl⟩

variable {i : Nat} {mid : Vfs} {op : VfsOp}

lemma vfsRemakeNode_sets (remade : vfsRemakeNode vfs existing mode bytes size = some after) :
    NodeSet vfs existing mode after := by
  obtain ⟨_, taken⟩ := vfsAllocateData_top vfs size
  unfold vfsRemakeNode at remade
  dsimp only at remade
  split at remade
  · split at remade
    · cases remade
      cases bytes <;> exact ⟨_, _, _, rfl, rfl, rfl, rfl⟩
    · split at remade
      · simp at remade
      · cases remade
        rw [taken]
        cases bytes <;> exact ⟨_, _, _, rfl, rfl, rfl, rfl⟩
  · split at remade <;>
    · cases remade
      exact ⟨_, _, _, rfl, rfl, rfl, rfl⟩

section NodeSet

variable (set : NodeSet vfs i mode after)
include set

lemma NodeSet.storageOnly : StorageOnly vfs after := by
  obtain ⟨_, _, _, rfl, _⟩ := set
  exact ⟨_, _, _, rfl⟩

lemma NodeSet.others (other : j ≠ i) : after.inodes j = vfs.inodes j := by
  obtain ⟨_, _, _, rfl, _⟩ := set
  exact update_of_ne other ..

lemma NodeSet.dirents (j : Nat) : (after.inodes j).dirents = (vfs.inodes j).dirents := by
  by_cases here : j = i
  · obtain ⟨inode, _, _, rfl, _, dirents, _⟩ := set
    rw [here, ← dirents]
    exact congrArg VfsInode.dirents (update_self ..)
  · rw [set.others here]

lemma NodeSet.mode_eq : (after.inodes i).mode = mode := by
  obtain ⟨inode, _, _, rfl, _, _, rfl⟩ := set
  exact congrArg VfsInode.mode (update_self ..)

lemma NodeSet.wired (wired : Wired vfs) : Wired after := by
  obtain ⟨inode, _, _, rfl, number, dirents, _⟩ := set
  exact { wired.adjust i number dirents with }

end NodeSet

/-- A state in which an inode was just handed out. -/
structure Fresh (vfs fresh : Vfs) (i : Nat) : Prop where
  index : i = vfs.nextInode
  next : fresh.nextInode = i + 1
  inode : fresh.inodes i = ⟨i, 0, 0, 0, 0, 1, vfsInvalidOffset, 0, []⟩
  others : ∀ j, j ≠ i → fresh.inodes j = vfs.inodes j
  rest : fresh = { vfs with inodes := fresh.inodes, nextInode := fresh.nextInode }

lemma vfsAllocInode_fresh (alloc : vfsAllocInode vfs = some (after, i)) : Fresh vfs after i := by
  simp only [vfsAllocInode, ite_none_left_eq_some] at alloc
  obtain ⟨_, rfl, rfl⟩ := alloc
  exact ⟨rfl, rfl, update_self .., fun j other => update_of_ne other .., rfl⟩

section Fresh

variable {fresh : Vfs} (given : Fresh vfs fresh i)

include given

lemma Fresh.lt : i < fresh.nextInode := by
  rw [given.next]
  exact Nat.lt_succ_self i

lemma Fresh.dentries : fresh.dentries = vfs.dentries := by rw [given.rest]

lemma Fresh.nextDentry : fresh.nextDentry = vfs.nextDentry := by rw [given.rest]

lemma Fresh.inodeOf (wired : Wired vfs) (old : d < vfs.nextDentry) :
    (vfs.dentries d).inode ≠ i ∧ fresh.inodeOf d = vfs.inodeOf d := by
  have other : (vfs.dentries d).inode ≠ i := by
    rw [given.index]
    exact Nat.ne_of_lt (wired.inode d old)
  exact ⟨other, by rw [Vfs.inodeOf, given.dentries, given.others _ other]; rfl⟩

lemma Fresh.number_lt (wired : Wired vfs) (old : d < vfs.nextDentry) :
    (fresh.inodeOf d).number < fresh.nextInode := by
  have below := wired.inode d old
  rw [(given.inodeOf wired old).2, Vfs.inodeOf, wired.numbered _ below, given.next, given.index]
  exact Nat.lt_succ_of_lt below

end Fresh

/-- A change of the inodes alone. -/
def InodesOnly (before after : Vfs) : Prop := ∃ inodes, after = { before with inodes := inodes }

lemma InodesOnly.trans {before : Vfs} (first : InodesOnly before mid) (second : InodesOnly mid after) :
    InodesOnly before after := by
  obtain ⟨_, rfl⟩ := first
  obtain ⟨inodes, rfl⟩ := second
  exact ⟨inodes, rfl⟩

section Entries

section Added

variable (entry : vfsDirentAdd grants vfs dir name number = (after, found))

include entry

lemma vfsDirentAdd_inodesOnly : InodesOnly vfs after := by
  rcases vfsDirentAdd_cases entry with ⟨_, rfl⟩ | ⟨_, _, _, rfl⟩
  · exact ⟨_, rfl⟩
  · exact ⟨_, rfl⟩

lemma vfsDirentAdd_others (other : j ≠ dir) : after.inodes j = vfs.inodes j := by
  rcases vfsDirentAdd_cases entry with ⟨_, rfl⟩ | ⟨_, _, _, rfl⟩
  · rfl
  · exact update_of_ne other ..

lemma vfsDirentAdd_dirents : (after.inodes dir).dirents = (vfs.inodes dir).dirents ∨
    (after.inodes dir).dirents = (vfs.inodes dir).dirents ++ [⟨number, name.take vfsNameRoom⟩] := by
  rcases vfsDirentAdd_cases entry with ⟨_, rfl⟩ | ⟨_, _, _, rfl⟩
  · exact .inl rfl
  · exact .inr (by simp [Vfs.setInode, VfsInode.setDirents])

lemma mode_direntAdd (i : Nat) : (after.inodes i).mode = (vfs.inodes i).mode := by
  by_cases here : i = dir
  · subst here
    rcases vfsDirentAdd_cases entry with ⟨_, rfl⟩ | ⟨_, _, _, rfl⟩
    · rfl
    · simp [Vfs.setInode, VfsInode.setDirents]
  · rw [vfsDirentAdd_others entry here]

end Added

section Removed

variable (erased : vfsDirentRemove vfs dir name = (after, found))

include erased

lemma vfsDirentRemove_inodesOnly : InodesOnly vfs after := by
  rcases vfsDirentRemove_cases erased with ⟨_, rfl⟩ | ⟨_, _, rfl⟩
  · exact ⟨_, rfl⟩
  · exact ⟨_, rfl⟩

lemma mode_direntRemove (i : Nat) : (after.inodes i).mode = (vfs.inodes i).mode := by
  rcases vfsDirentRemove_cases erased with ⟨_, rfl⟩ | ⟨_, _, rfl⟩
  · rfl
  · by_cases here : i = dir
    · simp [here, Vfs.setInode, VfsInode.setDirents]
    · simp [Vfs.setInode, update_of_ne here]

end Removed

variable (grants vfs)

lemma vfsPrepareDirectory_others (parentNumber : Nat)
    (other : j ≠ i) : (vfsPrepareDirectory grants vfs i parentNumber).inodes j = vfs.inodes j := by
  exact (vfsDirentAdd_others rfl other).trans ((vfsDirentAdd_others rfl other).trans (update_of_ne other ..))

lemma vfsPrepareDirectory_dirents (parentNumber : Nat) (empty : (vfs.inodes i).dirents = []) :
    ((vfsPrepareDirectory grants vfs i parentNumber).inodes i).dirents.Sublist
      [⟨i, [dot]⟩, ⟨parentNumber, [dot, dot]⟩] := by
  have typed : ((vfs.setInode i { vfs.inodes i with mode := vfsTypeDir }).inodes i).dirents = [] := by
    simp [Vfs.setInode, empty]
  unfold vfsPrepareDirectory
  dsimp only
  generalize vfs.setInode i { vfs.inodes i with mode := vfsTypeDir } = started at typed ⊢
  rcases first : vfsDirentAdd grants started i [dot] i with ⟨one, _⟩
  rcases second : vfsDirentAdd grants one i [dot, dot] parentNumber with ⟨two, _⟩
  have single : ([dot] : CString).take vfsNameRoom = [dot] := rfl
  have double : ([dot, dot] : CString).take vfsNameRoom = [dot, dot] := rfl
  have first := vfsDirentAdd_dirents first
  have second := vfsDirentAdd_dirents second
  rw [typed, single] at first
  rw [double] at second
  rcases first with first | first <;> rcases second with second | second <;> rw [second, first] <;> simp

lemma vfsPrepareDirectory_inodesOnly (i parentNumber : Nat) :
    InodesOnly vfs (vfsPrepareDirectory grants vfs i parentNumber) := by
  have typed : InodesOnly vfs (vfs.setInode i { vfs.inodes i with mode := vfsTypeDir }) := ⟨_, rfl⟩
  exact (typed.trans (vfsDirentAdd_inodesOnly rfl)).trans (vfsDirentAdd_inodesOnly rfl)

end Entries

lemma Wired.entered {ready : Vfs} (wired : Wired ready) (above : parent < ready.nextDentry)
    (old : i < ready.nextInode) (entered : Entered grants name parent i ready after) : Wired after := by
  cases entered with
  | refused => exact wired
  | unlinked entry _ => exact wired.direntAdd old entry
  | linked entry made =>
    have added := wired.direntAdd old entry
    obtain ⟨_, rfl⟩ := vfsDirentAdd_inodesOnly entry
    exact added.createDentry above old made

lemma Wired.prepareDirectory (wired : Wired vfs) (grants : Nat → Bool) {parentNumber : Nat}
    (new : i < vfs.nextInode) (old : parentNumber < vfs.nextInode) :
    Wired (vfsPrepareDirectory grants vfs i parentNumber) := by
  have typed : Wired (vfs.setInode i { vfs.inodes i with mode := vfsTypeDir }) := wired.adjust i rfl rfl
  rcases first : vfsDirentAdd grants (vfs.setInode i { vfs.inodes i with mode := vfsTypeDir }) i [dot] i with ⟨one, _⟩
  unfold vfsPrepareDirectory
  dsimp only
  rw [first]
  refine (typed.direntAdd new first).direntAdd ?_ rfl
  obtain ⟨_, same⟩ := vfsDirentAdd_inodesOnly first
  rw [same]
  exact old

lemma relink_dentries (vfs : Vfs) (holder : Nat) (dentry : VfsDentry) (child d : Nat) :
    (vfs.relink holder dentry child).dentries d = if d = child then
      (if d = holder then dentry else vfs.dentries d).detached else if d = holder then dentry else vfs.dentries d := by
  simp only [Vfs.relink, Vfs.setDentry, update_apply]
  split_ifs <;> simp_all

lemma relink_parent (vfs : Vfs) (holder : Nat) (dentry : VfsDentry) (child d : Nat)
    (same : dentry.parent = (vfs.dentries holder).parent) :
    ((vfs.relink holder dentry child).dentries d).parent = if d = child then none else (vfs.dentries d).parent := by
  rw [relink_dentries]
  split_ifs <;> simp_all [VfsDentry.detached]

lemma relink_same (vfs : Vfs) {holder : Nat} {dentry : VfsDentry} (child d : Nat)
    (name : dentry.name = (vfs.dentries holder).name) (inode : dentry.inode = (vfs.dentries holder).inode) :
    ((vfs.relink holder dentry child).dentries d).name = (vfs.dentries d).name ∧
      ((vfs.relink holder dentry child).dentries d).inode = (vfs.dentries d).inode := by
  rw [relink_dentries]
  split_ifs <;> simp_all [VfsDentry.detached]

lemma vfsUnlinkChildDentry_cases (unlinked : vfsUnlinkChildDentry vfs parent child = some after) :
    after = vfs ∨ ∃ holder dentry, dentry.name = (vfs.dentries holder).name ∧
      dentry.parent = (vfs.dentries holder).parent ∧ dentry.inode = (vfs.dentries holder).inode ∧
      after = vfs.relink holder dentry child := by
  unfold vfsUnlinkChildDentry at unlinked
  split at unlinked
  · exact .inl (some.inj unlinked).symm
  split at unlinked
  · exact .inr ⟨parent, { vfs.dentries parent with firstChild := (vfs.dentries child).nextSibling },
      rfl, rfl, rfl, (some.inj unlinked).symm⟩
  split at unlinked
  · simp at unlinked
  · exact .inl (some.inj unlinked).symm
  · rename_i before _
    exact .inr ⟨before, { vfs.dentries before with nextSibling := (vfs.dentries child).nextSibling },
      rfl, rfl, rfl, (some.inj unlinked).symm⟩

lemma vfsUnlinkChildDentry_frame (unlinked : vfsUnlinkChildDentry vfs parent child = some after) :
    after = { vfs with dentries := after.dentries } ∧ ∀ d, (after.dentries d).name = (vfs.dentries d).name ∧
      (after.dentries d).inode = (vfs.dentries d).inode ∧
      (d ≠ child → (after.dentries d).parent = (vfs.dentries d).parent) := by
  rcases vfsUnlinkChildDentry_cases unlinked with rfl | ⟨holder, dentry, name, link, inode, rfl⟩
  · exact ⟨rfl, fun d => ⟨rfl, rfl, fun _ => rfl⟩⟩
  · refine ⟨rfl, fun d => ?_⟩
    obtain ⟨sameName, sameInode⟩ := relink_same vfs child d name inode
    exact ⟨sameName, sameInode, fun other => by rw [relink_parent _ _ _ _ _ link, if_neg other]⟩

lemma Wired.unlinkChild (wired : Wired vfs) (apart : child ≠ rootDentry)
    (unlinked : vfsUnlinkChildDentry vfs parent child = some after) : Wired after := by
  rcases vfsUnlinkChildDentry_cases unlinked with rfl | ⟨holder, dentry, name, link, inode, rfl⟩
  · exact wired
  have relinked : Wired (vfs.setDentry holder dentry) := by
    refine wired.setDentry holder (fun old => inode ▸ wired.inode holder old)
      (fun p above => wired.parent holder p (link ▸ above)) ?_
    rintro rfl
    rw [link, wired.rootLoop]
  refine relinked.setDentry child (fun old => relinked.inode child old) (fun p above => ?_)
    fun here => absurd here apart
  simp [VfsDentry.detached] at above

lemma Wired.moveEntry (wired : Wired vfs) {src srcParent target : Nat} {moved : Bool}
    (below : src < vfs.nextDentry) (apart : src ≠ rootDentry) (above : target < vfs.nextDentry)
    (move : vfsMoveEntry grants vfs src srcParent target name = some (after, moved)) : Wired after := by
  have number : (vfs.inodeOf src).number < vfs.nextInode := by
    rw [Vfs.inodeOf, wired.numbered _ (wired.inode src below)]
    exact wired.inode src below
  unfold vfsMoveEntry at move
  dsimp only at move
  rcases erased : vfsDirentRemove vfs (vfs.dentries srcParent).inode (vfs.dentries src).name with ⟨removed, _ | _⟩
  all_goals
    rw [erased] at move
    dsimp only at move
    have removing := wired.direntRemove erased
    obtain ⟨inodes, rfl⟩ := vfsDirentRemove_inodesOnly erased
  · cases move
    exact removing
  generalize (vfs.inodeOf src).number = srcNumber at move number
  rcases entry : vfsDirentAdd grants { vfs with inodes := inodes } (vfs.dentries target).inode name srcNumber with
    ⟨added, _ | _⟩
  all_goals
    rw [entry] at move
    dsimp only at move
    have adding := removing.direntAdd number entry
    obtain ⟨inodes, rfl⟩ := vfsDirentAdd_inodesOnly entry
  · cases move
    exact adding.direntAdd number rfl
  rcases unlinked : vfsUnlinkChildDentry { vfs with inodes := inodes } srcParent src with _ | taken
  · simp [unlinked] at move
  rw [unlinked] at move
  cases move
  have kept := adding.unlinkChild apart unlinked
  obtain ⟨frame, _⟩ := vfsUnlinkChildDentry_frame unlinked
  have next : taken.nextDentry = vfs.nextDentry := by rw [frame]
  have renamed : Wired (taken.setDentry src { taken.dentries src with name := name.take vfsNameRoom }) :=
    kept.setDentry src (fun old => kept.inode src old) (fun p link => kept.parent src p link)
      fun here => absurd here apart
  exact renamed.linkChild (Nat.lt_of_lt_of_eq above next.symm) (Nat.lt_of_lt_of_eq below next.symm) apart

/-- The names of a directory itself and of the one above it. -/
def DotName (name : CString) : Prop := name = [dot] ∨ name = [dot, dot]

/-- Whether a name is a dot name can be decided. -/
instance (name : CString) : Decidable (DotName name) := inferInstanceAs (Decidable (_ ∨ _))

/-- An inode was handed out and made ready for a directory, with its dot entries. -/
structure Readied (vfs : Vfs) (i : Nat) (ready : Vfs) : Prop where
  wired : Wired ready
  index : i = vfs.nextInode
  lt : i < ready.nextInode
  dentries : ready.dentries = vfs.dentries
  nextDentry : ready.nextDentry = vfs.nextDentry
  cache : ready.cache = vfs.cache
  others : ∀ j, j ≠ i → ready.inodes j = vfs.inodes j
  dots : ∀ entry ∈ (ready.inodes i).dirents, DotName entry.name
  distinct : ((ready.inodes i).dirents.map (·.name)).Nodup

lemma vfsFillNode_readied (wired : Wired vfs) (alloc : vfsAllocInode vfs = some (fresh, i))
    (mode : UInt32) (bytes : Option (List UInt8)) (size : Nat) :
    Readied vfs i (vfsFillNode fresh i mode bytes size).1 := by
  have given := vfsAllocInode_fresh alloc
  obtain ⟨_, _, _, frame⟩ := (vfsFillNode_sets fresh i mode bytes size).storageOnly
  have empty : ((vfsFillNode fresh i mode bytes size).1.inodes i).dirents = [] := by
    rw [(vfsFillNode_sets fresh i mode bytes size).dirents, given.inode]
  exact {
    wired := (vfsFillNode_sets fresh i mode bytes size).wired (wired.allocInode alloc)
    index := given.index
    lt := by
      rw [frame]
      exact given.lt
    dentries := by rw [frame, given.dentries]
    nextDentry := by rw [frame, given.nextDentry]
    cache := by rw [frame, given.rest]
    others := fun j apart => ((vfsFillNode_sets fresh i mode bytes size).others apart).trans (given.others j apart)
    dots := by simp [empty]
    distinct := by simp [empty] }

lemma vfsPrepareDirectory_readied (wired : Wired vfs)
    (alloc : vfsAllocInode vfs = some (fresh, i)) (grants : Nat → Bool) (old : parent < vfs.nextDentry) :
    Readied vfs i (vfsPrepareDirectory grants fresh i (fresh.inodeOf parent).number) := by
  have given := vfsAllocInode_fresh alloc
  obtain ⟨_, frame⟩ := vfsPrepareDirectory_inodesOnly grants fresh i (fresh.inodeOf parent).number
  have dirents := vfsPrepareDirectory_dirents grants fresh (fresh.inodeOf parent).number
    (by rw [given.inode] : (fresh.inodes i).dirents = [])
  exact {
    wired := (wired.allocInode alloc).prepareDirectory grants given.lt (given.number_lt wired old)
    index := given.index
    lt := by
      rw [frame]
      exact given.lt
    dentries := by rw [frame, given.dentries]
    nextDentry := by rw [frame, given.nextDentry]
    cache := by rw [frame, given.rest]
    others := fun j apart => (vfsPrepareDirectory_others grants fresh _ apart).trans (given.others j apart)
    dots := by
      intro entry listed
      have mem := dirents.subset listed
      simp only [mem_cons, not_mem_nil, or_false] at mem
      rcases mem with rfl | rfl
      · exact .inl rfl
      · exact .inr rfl
    distinct := (show [[dot], [dot, dot]].Nodup by decide).sublist (dirents.map (·.name)) }

lemma Readied.entered {ready : Vfs} (readied : Readied vfs i ready) (above : parent < vfs.nextDentry)
    (entered : Entered grants name parent i ready after) : Wired after := by
  refine readied.wired.entered ?_ readied.lt entered
  rw [readied.nextDentry]
  exact above

lemma Wired.makeNode (wired : Wired vfs) (grants : Nat → Bool) (path : CString) (mode : UInt32)
    (bytes : Option (List UInt8)) (size : Nat) (force : Bool) :
    Wired (vfsMakeNode grants vfs path mode bytes size force).1 := by
  obtain ⟨looked, lookups, same | ⟨parent, _, reached, _, ⟨existing, _, _, _, remade⟩ |
    ⟨_, fresh, i, alloc, entered⟩⟩⟩ := vfsMakeNode_cases wired grants path mode bytes size force
  all_goals have kept := (lookups.spec wired).1
  · rw [same]
    exact kept
  · exact (vfsRemakeNode_sets remade).wired kept
  · exact (vfsFillNode_readied kept alloc mode bytes size).entered (reached.lt kept) entered

lemma Wired.makeDirectory (wired : Wired vfs) (grants : Nat → Bool) (path : CString) :
    Wired (vfsMakeDirectory grants vfs path).1 := by
  obtain ⟨looked, lookups, same | ⟨parent, _, reached, _, _, fresh, i, alloc, entered⟩⟩ :=
    vfsMakeDirectory_cases wired grants path
  all_goals have kept := (lookups.spec wired).1
  · rw [same]
    exact kept
  · exact (vfsPrepareDirectory_readied kept alloc grants (reached.lt kept)).entered (reached.lt kept) entered

lemma LookedUp.trans (first : LookedUp vfs mid) (second : LookedUp mid after) : LookedUp vfs after := by
  induction second with
  | refl => exact first
  | lookup path _ ih => exact ih.lookup path

lemma LookedUp.readlink {path : CString} {target : Option CString} (lookups : LookedUp vfs mid)
    (read : vfsCoreReadlink mid path = (after, target)) : LookedUp vfs after := by
  obtain ⟨rfl, _⟩ := Prod.mk.inj read
  rcases found : vfsLookup mid path with ⟨looked, _ | d⟩
  · exact lookups.found found
  · dsimp only
    split <;> exact lookups.found found

/-- What opening a file does, through any number of links. -/
theorem vfsCoreOpenInternal_cases {links : Nat} : ∀ {vfs after : Vfs} {path : CString} {flags : UInt32}
    {handle : Option Nat}, Wired vfs → vfsCoreOpenInternal links vfs path flags = some (after, handle) →
      ∃ looked, LookedUp vfs looked ∧ ((after = looked ∧ handle = none) ∨
        ∃ d, Descends looked d ∧ (looked.inodeOf d).type = vfsTypeFile ∧
          vfsTakeHandle looked (looked.dentries d).inode flags = (after, handle)) := by
  induction links with
  | zero =>
    intro vfs after path flags handle _ opened
    simp [vfsCoreOpenInternal] at opened
  | succ links ih =>
    intro vfs after path flags handle wired opened
    rw [vfsCoreOpenInternal] at opened
    rcases found : vfsLookup vfs path with ⟨looked, _ | d⟩
    all_goals
      rw [found] at opened
      dsimp only at opened
      have lookups : LookedUp vfs looked := .found .refl found
    · cases opened
      exact ⟨_, lookups, .inl ⟨rfl, rfl⟩⟩
    split at opened
    · -- A link is followed from the state in which it was read.
      rcases link : vfsCoreReadlink looked path with ⟨read, _ | target⟩
      all_goals
        rw [link] at opened
        have reading := lookups.readlink link
      · cases opened
        exact ⟨_, reading, .inl ⟨rfl, rfl⟩⟩
      · obtain ⟨last, more, rest⟩ := ih (reading.spec wired).1 opened
        exact ⟨last, reading.trans more, rest⟩
    · split at opened
      · rename_i regular
        have reached := (vfsLookup_spec wired found).2.2 d rfl
        exact ⟨looked, lookups, .inr ⟨d, reached, regular, some.inj opened⟩⟩
      · cases opened
        exact ⟨_, lookups, .inl ⟨rfl, rfl⟩⟩

lemma vfsCoreOpenInternal_file (links : Nat) (vfs : Vfs) (path : CString) (flags : UInt32)
    (found : (vfsLookup vfs path).2 = some d) (regular : ((vfsLookup vfs path).1.inodeOf d).type = vfsTypeFile) :
    vfsCoreOpenInternal (links + 1) vfs path flags =
      some (vfsTakeHandle (vfsLookup vfs path).1 ((vfsLookup vfs path).1.dentries d).inode flags) := by
  have file : vfsTypeFile ≠ vfsTypeSymlink := by decide
  rw [vfsCoreOpenInternal]
  rcases lookup : vfsLookup vfs path with ⟨looked, here⟩
  rw [lookup] at found regular
  dsimp only at found regular
  simp only [found, regular, file, ite_false, ite_true]

lemma vfsTakeHandle_cases (vfs : Vfs) (inode : Nat) (flags : UInt32) :
    vfsTakeHandle vfs inode flags = (vfs, none) ∨ ∃ fd < vfsMaxFileHandles,
      vfsTakeHandle vfs inode flags = (vfs.setFile fd ⟨some inode, 0, flags, 1⟩, some fd) := by
  unfold vfsTakeHandle
  cases free : (range vfsMaxFileHandles).find? fun fd => (vfs.files fd).refCount == 0 with
  | none => exact .inl rfl
  | some fd => exact .inr ⟨fd, mem_range.mp (mem_of_find?_eq_some free), rfl⟩

lemma openInode_some {fd : Nat} (opened : vfs.openInode fd = some i) : (vfs.files fd).inode = some i := by
  unfold Vfs.openInode at opened
  split at opened
  · simp at opened
  · exact opened

lemma vfsCoreClose_cases (vfs : Vfs) (fd : Nat) : vfsCoreClose vfs fd = vfs ∨
    ∃ file : VfsFile, (∀ i, file.inode = some i → (vfs.files fd).inode = some i) ∧
      vfsCoreClose vfs fd = vfs.setFile fd file := by
  unfold vfsCoreClose
  dsimp only
  split
  · exact .inl rfl
  split
  · exact .inr ⟨_, by simp, rfl⟩
  · exact .inr ⟨{ vfs.files fd with refCount := (vfs.files fd).refCount - 1 }, fun i same => same, rfl⟩

lemma vfsCoreRead_cases (vfs : Vfs) (fd size : Nat) : (vfsCoreRead vfs fd size).1 = vfs ∨
    ∃ pos, (vfsCoreRead vfs fd size).1 = vfs.setFile fd { vfs.files fd with pos := pos } := by
  unfold vfsCoreRead
  split
  · exact .inl rfl
  dsimp only
  split
  · exact .inl rfl
  split
  all_goals
    split
    · exact .inl rfl
    · exact .inr ⟨_, rfl⟩

lemma vfsCoreLseek_cases (vfs : Vfs) (fd : Nat) (offset whence : Int) :
    (vfsCoreLseek vfs fd offset whence).1 = vfs ∨
      ∃ pos, (vfsCoreLseek vfs fd offset whence).1 = vfs.setFile fd { vfs.files fd with pos := pos } := by
  unfold vfsCoreLseek
  split
  · exact .inl rfl
  dsimp only
  split
  · exact .inl rfl
  · split
    · exact .inl rfl
    · exact .inr ⟨_, rfl⟩

/--
What writing to a file does: the bytes go to new storage or to the file's; an empty file gives its storage up.
-/
theorem vfsCoreWrite_cases (wired : Wired vfs) (fd : Nat) (bytes : List UInt8) :
    (vfsCoreWrite vfs fd bytes).1 = vfs ∨ ∃ i, vfs.openInode fd = some i ∧ (vfs.inodes i).type = vfsTypeFile ∧
      ((0 < bytes.length ∧ bytes.length ≤ vfs.dataSize - vfs.dataTop ∧
          (vfsCoreWrite vfs fd bytes).1 = ((({ vfs with dataTop := vfs.dataTop + bytes.length }).store
            vfs.dataTop bytes).setInode i { vfs.inodes i with block := vfs.dataTop, size := bytes.length }).setFile fd
              { vfs.files fd with pos := bytes.length }) ∨
        (vfsCoreWrite vfs fd bytes).1 = (vfs.setInode i { vfs.inodes i with
          block := vfsInvalidOffset, size := 0 }).setFile fd { vfs.files fd with pos := 0 } ∨
        (bytes.length ≤ (vfs.inodes i).size ∧ (vfs.inodes i).block ≠ vfsInvalidOffset ∧
          (vfsCoreWrite vfs fd bytes).1 = ((vfs.store (vfs.inodes i).block bytes).setInode i
            { vfs.inodes i with size := bytes.length }).setFile fd { vfs.files fd with pos := bytes.length })) := by
  unfold vfsCoreWrite
  cases opened : vfs.openInode fd with
  | none => exact .inl rfl
  | some i =>
    dsimp only
    split
    · exact .inl rfl
    split
    · exact .inl rfl
    rename_i regular
    rw [not_not] at regular
    split
    · split
      · rcases vfsAllocateData_cases vfs bytes.length with ⟨none, _⟩ | taken | ⟨some, room, taken⟩
        · omega
        · rw [taken]
          exact .inl rfl
        · rw [taken]
          split
          · rename_i invalid
            have small := wired.small
            simp only [vfsInvalidOffset] at invalid
            omega
          · exact .inr ⟨i, rfl, regular, .inl ⟨some, room, rfl⟩⟩
      · exact .inr ⟨i, rfl, regular, .inr (.inl rfl)⟩
    · rename_i inPlace
      rw [not_or] at inPlace
      exact .inr ⟨i, rfl, regular, .inr (.inr ⟨Nat.not_lt.mp inPlace.2, inPlace.1, rfl⟩)⟩

lemma type_or_permissions {typeBits : UInt32} (typed : typeBits &&& vfsTypeMask = typeBits) (mode : UInt32) :
    (typeBits ||| (mode &&& vfsPermMask)) &&& vfsTypeMask = typeBits := by
  have apart : vfsPermMask &&& vfsTypeMask = 0 := by decide
  have split : (typeBits ||| (mode &&& vfsPermMask)) &&& vfsTypeMask =
      typeBits &&& vfsTypeMask ||| (mode &&& vfsPermMask) &&& vfsTypeMask := by
    refine UInt32.toBitVec_inj.mp (BitVec.eq_of_getElem_eq fun k _ => ?_)
    simp [Bool.and_or_distrib_right]
  rw [split, typed, UInt32.and_assoc, apart, UInt32.and_zero, UInt32.or_zero]

lemma vfsCoreChmod_cases (wired : Wired vfs) (path : CString) (mode : UInt32) :
    ∃ looked, LookedUp vfs looked ∧ (vfsCoreChmod vfs path mode = looked ∨
      ∃ d, vfsLookup vfs path = (looked, some d) ∧ Descends looked d ∧
        vfsCoreChmod vfs path mode = looked.setInode (looked.dentries d).inode
          { looked.inodeOf d with mode := (looked.inodeOf d).type ||| (mode &&& vfsPermMask) }) := by
  unfold vfsCoreChmod
  rcases found : vfsLookup vfs path with ⟨looked, _ | d⟩
  all_goals refine ⟨looked, .found .refl found, ?_⟩
  · exact .inl rfl
  · exact .inr ⟨d, rfl, (vfsLookup_spec wired found).2.2 d rfl, rfl⟩

/-- The calls that look names up, and set one file at most. -/
def VfsOp.Handles : VfsOp → Prop
  | .lookup _ | .openFile _ _ _ | .close _ | .read _ _ | .lseek _ _ _ => True
  | _ => False

lemma VfsOp.Handles.cases (handles : op.Handles) (wired : Wired vfs)
    (step : op.exec vfs = some after) : ∃ looked, LookedUp vfs looked ∧ (after = looked ∨
      ∃ fd file, (∀ i, VfsFile.inode file = some i → i < looked.nextInode) ∧ after = looked.setFile fd file) := by
  cases op with
  | lookup path =>
    cases step
    exact ⟨_, .lookup path .refl, .inl rfl⟩
  | openFile path flags links =>
    obtain ⟨⟨after, handle⟩, opened, rfl⟩ := map_eq_some_iff.mp step
    obtain ⟨looked, lookups, ⟨rfl, _⟩ | ⟨d, reached, _, taken⟩⟩ := vfsCoreOpenInternal_cases wired opened
    · exact ⟨_, lookups, .inl rfl⟩
    · have kept := (lookups.spec wired).1
      rcases vfsTakeHandle_cases looked (looked.dentries d).inode flags with none | ⟨fd, _, one⟩
      · exact ⟨looked, lookups, .inl (Prod.mk.inj (none.symm.trans taken)).1.symm⟩
      · refine ⟨looked, lookups, .inr ⟨fd, _, fun i handle => ?_, (Prod.mk.inj (one.symm.trans taken)).1.symm⟩⟩
        cases handle
        exact kept.inode d (reached.lt kept)
  | close fd =>
    cases step
    refine ⟨vfs, .refl, (vfsCoreClose_cases vfs fd).imp_right fun closed => ?_⟩
    obtain ⟨file, held, same⟩ := closed
    exact ⟨fd, file, fun i handle => wired.handles fd i (held i handle), same⟩
  | read fd size =>
    cases step
    refine ⟨vfs, .refl, (vfsCoreRead_cases vfs fd size).imp_right fun moved => ?_⟩
    obtain ⟨pos, same⟩ := moved
    exact ⟨fd, { vfs.files fd with pos := pos }, wired.handles fd, same⟩
  | lseek fd offset whence =>
    cases step
    refine ⟨vfs, .refl, (vfsCoreLseek_cases vfs fd offset whence).imp_right fun moved => ?_⟩
    obtain ⟨pos, same⟩ := moved
    exact ⟨fd, { vfs.files fd with pos := pos }, wired.handles fd, same⟩
  | _ => exact absurd handles id

lemma Wired.removes (wired : Wired vfs) (removes : Removes vfs after) : Wired after := by
  cases removes with
  | nothing lookups => exact (lookups.spec wired).1
  | entry lookups _ _ _ erased _ => exact ((lookups.spec wired).1.direntRemove erased).adjust _ rfl rfl

lemma Wired.exec (wired : Wired vfs) (step : op.exec vfs = some after) : Wired after := by
  have handled : op.Handles → Wired after := fun handles => by
    obtain ⟨looked, lookups, rfl | ⟨fd, file, held, rfl⟩⟩ := handles.cases wired step
    · exact (lookups.spec wired).1
    · exact (lookups.spec wired).1.setFile fd held
  cases op with
  | lookup | openFile | close | read | lseek => exact handled trivial
  | installFile | createFile | createSymlink =>
    cases step
    exact wired.makeNode ..
  | createDir path grants =>
    cases step
    exact wired.makeDirectory grants path
  | write fd bytes =>
    cases step
    obtain same | ⟨i, _, _, ⟨_, _, same⟩ | same | ⟨_, _, same⟩⟩ := vfsCoreWrite_cases wired fd bytes
    · rwa [same]
    all_goals
      rw [same]
      refine Wired.setFile ?_ fd fun i handle => wired.handles fd i handle
    · exact ((wired.setTop _).store _ _).adjust i rfl rfl
    · exact wired.adjust i rfl rfl
    · exact (wired.store _ _).adjust i rfl rfl
  | chmod path mode =>
    cases step
    obtain ⟨looked, lookups, same | ⟨d, _, _, same⟩⟩ := vfsCoreChmod_cases wired path mode
    all_goals
      rw [same]
      have kept := (lookups.spec wired).1
    · exact kept
    · exact kept.adjust _ rfl rfl
  | move src dest grants =>
    obtain ⟨⟨after, moved⟩, move, rfl⟩ := map_eq_some_iff.mp step
    obtain lookups | ⟨_, _, looked, d, srcParent, target, lookups, _, _, _, reached, apart, _, above, _, _, entry⟩ :=
      vfsCoreMove_cases wired move
    · exact (lookups.spec wired).1
    · have kept := (lookups.spec wired).1
      exact kept.moveEntry (reached.lt kept) apart (above.lt kept) entry
  | unlink path =>
    cases step
    exact wired.removes (vfsCoreUnlink_removes wired path)
  | rmdir path =>
    cases step
    exact wired.removes (vfsCoreRmdir_removes wired path)

lemma vfsInitRoot_wired (hasData : Bool) {dataSize : Nat} (data : Nat → UInt8) (small : dataSize < 2 ^ 32) :
    Wired (vfsInitRoot hasData dataSize data) := by
  refine Wired.cacheInsert ?_ (Nat.zero_lt_one)
  exact {
    small := small
    inodeRoom := show 1 ≤ vfsMaxInodes by decide
    dentryRoom := show 1 ≤ vfsMaxDentries by decide
    numbered := by
      intro i first
      obtain rfl : i = 0 := Nat.lt_one_iff.mp first
      rfl
    unnumbered := by
      intro i later
      have other : i ≠ 0 := Nat.ne_of_gt later
      simp only [update_of_ne other]
    rooted := Nat.zero_lt_one
    rootLoop := rfl
    inode := by
      intro d first
      obtain rfl : d = 0 := Nat.lt_one_iff.mp first
      exact Nat.zero_lt_one
    parent := by
      intro d p link
      by_cases top : d = 0
      · subst top
        cases link
        exact Nat.zero_lt_one
      · simp [update_of_ne top] at link
    cached := by simp
    listed := by
      intro i dirent mem
      by_cases top : i = 0
      · subst top
        simp only [update_self, mem_cons, not_mem_nil, or_false] at mem
        rcases mem with rfl | rfl <;> exact Nat.zero_lt_one
      · simp [update_of_ne top] at mem
    handles := by simp }

/-- The states that calls lead to from the start. -/
inductive Reachable : Vfs → Prop where
  | init {hasData : Bool} {dataSize : Nat} {data : Nat → UInt8} :
      dataSize < 2 ^ 32 → Reachable (vfsInitRoot hasData dataSize data)
  | step {vfs after : Vfs} (op : VfsOp) : Reachable vfs → op.exec vfs = some after → Reachable after

lemma Reachable.wired (reached : Reachable vfs) : Wired vfs := by
  induction reached with
  | init small => exact vfsInitRoot_wired _ _ small
  | step _ _ call ih => exact ih.exec call

/-- A file system with room for files. -/
def freshVfs : Vfs := vfsInitRoot true 4096 fun _ => 0

/-- A file system with one empty file. -/
def oneFile : Vfs := (vfsCoreCreateFile (fun _ => true) freshVfs [slash, 97] false).1

end Galio
