import Galio.Fs.VfsShape

/-! Which runs of calls keep the cached dentries a mirror of the directories. -/

namespace Galio

open Function List VfsInode Vfs

open Transition

/-- What holds of every inode while modes are not changed. -/
structure Orderly (i : Nat) (inode : VfsInode) : Prop where
  room : inode.dirents.length ≤ inode.direntCapacity
  plain : i ≠ 0 → inode.type = vfsTypeDir → inode.mode = vfsTypeDir
  holder : inode.dirents ≠ [] → inode.type = vfsTypeDir

/-- The dentries are those of the entries of the directories. -/
structure Mirrored (vfs : Vfs) : Prop where
  tree : Tree vfs
  orderly : ∀ i, Orderly i (vfs.inodes i)
  listed : ∀ d, d ≠ rootDentry → d < vfs.nextDentry → ∃ p, (vfs.dentries d).parent = some p ∧
    ⟨(vfs.dentries d).inode, (vfs.dentries d).name⟩ ∈ (vfs.inodeOf p).dirents
  rootName : (vfs.dentries rootDentry).name = []

/-- The inode that the entries of the directories lead to along names. -/
def direntWalk (vfs : Vfs) : Nat → List CString → Option Nat
  | i, [] => some i
  | i, name :: rest =>
    match (vfs.inodes i).dirents.find? fun entry => entry.name == name with
    | none => none
    | some entry => direntWalk vfs entry.inodeNumber rest

variable {d i p parent : Nat} {grants : Nat → Bool} {name : CString} {op : VfsOp} {ready vfs : Vfs}

section Lookups

variable (mirrored : Mirrored vfs)

include mirrored

lemma Mirrored.cached {c : Nat} (some : name ≠ []) (found : vfsCacheLookup vfs d name = .some c) :
    ⟨(vfs.dentries c).inode, name⟩ ∈ (vfs.inodeOf d).dirents := by
  obtain ⟨⟨slot, _, cached⟩, parent, rfl⟩ := vfsCacheLookup_some found
  have below : c ≠ rootDentry := by
    rintro rfl
    exact some mirrored.rootName
  obtain ⟨p, link, listed⟩ := mirrored.listed c below (mirrored.tree.wired.cached slot c cached)
  cases link.symm.trans parent
  exact listed

/-- One step of a walk goes where the entries of the directory lead. -/
theorem Mirrored.child (old : d < vfs.nextDentry) (some : name ≠ [])
    (named : ¬DotName name) : (vfsChild vfs d name).2.map (fun c => (vfs.dentries c).inode) =
      ((vfs.inodeOf d).dirents.find? fun entry => entry.name == name).map (·.inodeNumber) := by
  have tree := mirrored.tree
  rcases found : (vfs.inodeOf d).dirents.find? fun entry => entry.name == name with _ | entry
  · -- What is not listed is not in the cache either.
    have missing : vfsCacheLookup vfs d name = none := by
      refine Option.eq_none_iff_forall_ne_some.mpr fun c cached => ?_
      have different := find?_eq_none.mp found _ (mirrored.cached some cached)
      simp at different
    have unlisted : vfsFindInodeInDir (vfs.inodeOf d) name = none := by
      rw [vfsFindInodeInDir, vfsFindDirent, found]
      rfl
    rw [found, vfsChild]
    split
    · rfl
    · rw [missing, unlisted]
      rfl
  · have listed := mem_of_find?_eq_some found
    obtain rfl : entry.name = name := by simpa using find?_some found
    have directory := (mirrored.orderly _).holder (ne_nil_of_mem listed)
    obtain ⟨c, cached, child⟩ := tree.child_listed old directory listed named
    have same := inj_on_of_nodup_map (tree.distinct _) (mirrored.cached some cached) listed rfl
    rw [child, found, ← same]
    rfl

lemma Mirrored.walk {names : List CString} : ∀ {d : Nat}, Descends vfs d →
    (∀ name ∈ names, name ≠ [] ∧ ¬DotName name) → (vfsWalk vfs d names).2.map (fun c => (vfs.dentries c).inode) =
        direntWalk vfs (vfs.dentries d).inode names := by
  induction names with
  | nil => exact fun _ _ => rfl
  | cons name rest ih =>
    intro d descends proper
    obtain ⟨some, named⟩ := proper name mem_cons_self
    have old := descends.lt mirrored.tree.wired
    have step := mirrored.child old some named
    have same := mirrored.tree.child old named
    obtain ⟨_, _, reached⟩ := vfsChild_spec mirrored.tree.wired descends name
    rw [vfsWalk, if_neg fun single => named (.inl single), if_neg fun double => named (.inr double), direntWalk]
    show _ = match (vfs.inodeOf d).dirents.find? fun entry => entry.name == name with
      | none => none
      | .some entry => direntWalk vfs entry.inodeNumber rest
    rcases made : vfsChild vfs d name with ⟨after, _ | c⟩
    all_goals
      rw [made] at step same reached
      dsimp only at step same
    · rw [Option.map_none] at step
      rw [Option.map_eq_none_iff.mp step.symm]
      rfl
    · obtain ⟨entry, found, inode⟩ := Option.map_eq_some_iff.mp step.symm
      rw [found]
      dsimp only
      rw [same, inode]
      rw [same] at reached
      exact ih (reached c rfl) fun name mem => proper name (mem_cons_of_mem _ mem)

end Lookups

/-- An absolute path whose names fit in their buffer and do not lead up. -/
structure AbsolutePath (path : CString) : Prop where
  absolute : path.head? = some slash
  below : ∀ name ∈ pathNames path, name ≠ [dot, dot]
  fits : ∀ name ∈ pathNames path, name.length ≤ vfsNameRoom

/-- A path that fits in its buffer, without the name of a directory itself. -/
structure PlainPath (path : CString) : Prop where
  short : path.length < vfsPathRoom
  plain : ∀ name ∈ pathNames path, name ≠ [dot]

/-- A lookup returns a dentry of the inode that the entries lead to, or none. -/
def LookupAgrees (vfs : Vfs) (path : CString) : Prop :=
  (vfsLookup vfs path).2.map (fun d => ((vfsLookup vfs path).1.dentries d).inode) =
    direntWalk vfs (vfs.dentries rootDentry).inode (pathNames path)

lemma Mirrored.lookup (mirrored : Mirrored vfs) {path : CString} (absolute : AbsolutePath path)
    (plain : PlainPath path) : LookupAgrees vfs path := by
  have components : lookupComponents path = pathNames path := by
    cases path with
    | nil => exact absurd absolute.absolute (by simp)
    | cons first rest =>
      obtain rfl : first = slash := Option.some.inj absolute.absolute
      exact lookupComponents_absolute (Nat.le_sub_one_of_lt plain.short)
  have whole : (pathNames path).map (·.take vfsNameRoom) = pathNames path := by
    refine (map_congr_left fun name mem => ?_).trans (map_id _)
    exact take_of_length_le (absolute.fits name mem)
  have few : (pathNames path).length < 256 := by
    have count := pathNames_length path
    have short := plain.short
    simp only [vfsPathRoom] at short
    omega
  have proper : ∀ name ∈ pathNames path, name ≠ [] ∧ ¬DotName name := by
    intro name mem
    refine ⟨by simpa using (mem_filter.mp mem).2, ?_⟩
    exact fun dots => dots.elim (plain.plain name mem) (absolute.below name mem)
  rw [LookupAgrees, mirrored.tree.lookup path, ← mirrored.walk .root proper, vfsLookup]
  dsimp only
  rw [components, whole, take_of_length_le (Nat.le_of_lt few), if_neg (Nat.not_le.mpr few)]

variable {after : Vfs}

section Entries

variable {dir : Nat} {found : Bool} (orderly : ∀ i, Orderly i (vfs.inodes i))

include orderly

lemma orderly_direntAdd {number : Nat} (directory : (vfs.inodes dir).type = vfsTypeDir)
    (entry : vfsDirentAdd grants vfs dir name number = (after, found)) (i : Nat) : Orderly i (after.inodes i) := by
  rcases vfsDirentAdd_cases entry with ⟨_, rfl⟩ | ⟨_, _, room, rfl⟩
  · exact orderly i
  · by_cases here : i = dir
    · subst here
      simp only [setInode, update_self, setDirents]
      refine ⟨?_, (orderly i).plain, fun _ => directory⟩
      rw [length_append]
      exact room (orderly i).room
    · simp only [setInode, update_of_ne here]
      exact orderly i

lemma orderly_direntRemove (erased : vfsDirentRemove vfs dir name = (after, found)) (i : Nat) :
    Orderly i (after.inodes i) := by
  rcases vfsDirentRemove_cases erased with ⟨_, rfl⟩ | ⟨_, ⟨dirent, listed, _⟩, rfl⟩
  · exact orderly i
  · by_cases here : i = dir
    · subst here
      simp only [setInode, update_self]
      refine ⟨?_, (orderly i).plain, fun _ => (orderly i).holder (ne_nil_of_mem listed)⟩
      exact length_eraseP_le.trans (orderly i).room
    · simp only [setInode, update_of_ne here]
      exact orderly i

end Entries

lemma Orderly.other {inode : VfsInode} (empty : inode.dirents = []) (other : inode.type ≠ vfsTypeDir) :
    Orderly i inode where
  room := by simp [empty]
  plain := fun _ directory => absurd directory other
  holder := fun some => absurd empty some

lemma orderly_prepareDirectory (orderly : ∀ j, Orderly j (vfs.inodes j)) (grants : Nat → Bool)
    (number : Nat) (empty : (vfs.inodes i).dirents = []) (j : Nat) :
    Orderly j ((vfsPrepareDirectory grants vfs i number).inodes j) := by
  have typed : ∀ j, Orderly j ((vfs.setInode i { vfs.inodes i with mode := vfsTypeDir }).inodes j) := by
    intro j
    by_cases here : j = i
    · subst here
      simp only [setInode, update_self]
      exact ⟨(orderly j).room, fun _ _ => rfl, fun some => absurd empty some⟩
    · simp only [setInode, update_of_ne here]
      exact orderly j
  have directory : ((vfs.setInode i { vfs.inodes i with mode := vfsTypeDir }).inodes i).mode = vfsTypeDir := by
    simp [setInode]
  unfold vfsPrepareDirectory
  dsimp only
  generalize vfs.setInode i { vfs.inodes i with mode := vfsTypeDir } = started at typed directory ⊢
  rcases first : vfsDirentAdd grants started i [dot] i with ⟨one, _⟩
  have kept := orderly_direntAdd typed (show (started.inodes i).type = vfsTypeDir by
    rw [type, directory]
    rfl) first
  refine orderly_direntAdd kept ?_ rfl j
  rw [type, mode_direntAdd first, directory]
  rfl

section Changes

variable (mirrored : Mirrored vfs)

include mirrored

lemma Mirrored.inodes (tree : Tree after) (orderly : ∀ i, Orderly i (after.inodes i))
    (dentries : after.dentries = vfs.dentries) (next : after.nextDentry = vfs.nextDentry)
    (dirents : ∀ i < vfs.nextInode, (vfs.inodes i).dirents ⊆ (after.inodes i).dirents) : Mirrored after where
  tree := tree
  orderly := orderly
  listed := by
    intro d below old
    rw [next] at old
    obtain ⟨p, link, listed⟩ := mirrored.listed d below old
    have above := mirrored.tree.wired.parent d p link
    rw [dentries]
    refine ⟨p, link, ?_⟩
    rw [inodeOf, dentries]
    exact dirents _ (mirrored.tree.wired.inode p above) listed
  rootName := by rw [dentries, mirrored.rootName]

lemma Mirrored.readied (readied : Readied vfs i ready) (orderly : Orderly i (ready.inodes i)) : Mirrored ready := by
  refine mirrored.inodes (mirrored.tree.readied readied) (fun j => ?_) readied.dentries readied.nextDentry
    fun j old => ?_
  · by_cases here : j = i
    · rw [here]
      exact orderly
    · rw [readied.others j here]
      exact mirrored.orderly j
  · rw [readied.others j (by rw [readied.index]; exact Nat.ne_of_lt old)]
    exact List.Subset.refl _

lemma Mirrored.entered (spare : vfs.Spare) (above : parent < vfs.nextDentry) (fits : name.length ≤ vfsNameRoom)
    (directory : (vfs.inodeOf parent).type = vfsTypeDir) (entered : Entered grants name parent i vfs after)
    (tree : Tree after) : Mirrored after := by
  cases entered with
  | refused => exact mirrored
  | unlinked entry made => exact absurd made (mirrored.tree.createDentry_ne_none spare entry)
  | @linked entered _ child entry made =>
    have orderly := orderly_direntAdd mirrored.orderly directory entry
    obtain ⟨count, others, dirents, newest, same⟩ := linkedNode_of_entry above fits entry made
    obtain ⟨inodes, rfl⟩ := vfsDirentAdd_inodesOnly entry
    have looked := vfsCreateDentry_looked (by exact above) made
    have grown : ∀ x, ∀ entry ∈ (vfs.inodes x).dirents, entry ∈ (after.inodes x).dirents := by
      intro x entry listed
      by_cases here : x = (vfs.dentries parent).inode
      · subst here
        rw [dirents]
        exact mem_append_left _ listed
      · rwa [others x here]
    exact {
      tree := tree
      orderly := by
        rw [looked.inodes]
        exact orderly
      listed := by
        intro d below old
        by_cases new : d = vfs.nextDentry
        · subst new
          rw [newest]
          refine ⟨parent, rfl, ?_⟩
          rw [inodeOf, (same parent above).2.2, dirents]
          exact mem_append_right _ (mem_singleton.mpr rfl)
        · have older : d < vfs.nextDentry := by omega
          obtain ⟨p, link, listed⟩ := mirrored.listed d below older
          refine ⟨p, (same d older).2.1.trans link, ?_⟩
          rw [inodeOf, (same p (mirrored.tree.wired.parent d p link)).2.2, (same d older).2.2, (same d older).1]
          exact grown _ _ listed
      rootName := (same rootDentry mirrored.tree.wired.rooted).1.trans mirrored.rootName }

lemma Mirrored.readiedEntered (readied : Readied vfs i ready) (orderly : Orderly i (ready.inodes i))
    (spare : vfs.Spare) (above : parent < vfs.nextDentry) (fits : name.length ≤ vfsNameRoom)
    (directory : (vfs.inodeOf parent).type = vfsTypeDir) (entered : Entered grants name parent i ready after)
    (tree : Tree after) : Mirrored after := by
  refine (mirrored.readied readied orderly).entered ?_ ?_ fits ?_ entered tree
  · rwa [Vfs.Spare, readied.cache]
  · rwa [readied.nextDentry]
  · have other : (vfs.dentries parent).inode ≠ i := by
      rw [readied.index]
      exact Nat.ne_of_lt (mirrored.tree.wired.inode parent above)
    rw [inodeOf, readied.dentries, readied.others _ other]
    exact directory

lemma Mirrored.kept {e q : Nat} {removed : Vfs} (old : d < vfs.nextDentry)
    (link : (vfs.dentries d).parent = some p) (below : d ≠ rootDentry)
    (erased : vfsDirentRemove vfs (vfs.dentries p).inode (vfs.dentries d).name = (removed, true)) (other : e ≠ d)
    (older : e < vfs.nextDentry)
    (listed : ⟨(vfs.dentries e).inode, (vfs.dentries e).name⟩ ∈ (vfs.inodeOf q).dirents) :
    ⟨(vfs.dentries e).inode, (vfs.dentries e).name⟩ ∈ (removed.inodes (vfs.dentries q).inode).dirents := by
  obtain ⟨⟨⟩, _⟩ | ⟨_, _, rfl⟩ := vfsDirentRemove_cases erased
  unfold inodeOf at listed
  simp only [setInode, update_apply]
  split
  · rename_i here
    rw [here] at listed
    refine (mem_eraseP_of_neg ?_).mpr listed
    simp only [beq_iff_eq]
    intro same
    -- The entry of the same name in the directory is that of the dentry itself.
    obtain ⟨p', link', own⟩ := mirrored.listed d below old
    cases link'.symm.trans link
    have twin := inj_on_of_nodup_map (mirrored.tree.distinct _) listed own same
    exact other (mirrored.tree.single e d older old (congrArg VfsDirent.inodeNumber twin))
  · exact listed

lemma Mirrored.moved {target : Nat} (old : d < vfs.nextDentry)
    (below : d ≠ rootDentry) (link : (vfs.dentries d).parent = some p)
    (directory : (vfs.inodeOf target).type = vfsTypeDir) (moved : Moved grants vfs d p target name after)
    (tree : Tree after) : Mirrored after := by
  obtain ⟨p', link', own⟩ := mirrored.listed d below old
  obtain rfl := Option.some.inj (link'.symm.trans link)
  have holder := (mirrored.orderly _).holder (ne_nil_of_mem own)
  cases moved with
  | refused => exact mirrored
  | @restored removed erased =>
    have kept := fun e q => mirrored.kept (e := e) (q := q) old link below erased
    have orderly := orderly_direntRemove mirrored.orderly erased
    have directory : (removed.inodes (vfs.dentries p').inode).type = vfsTypeDir :=
      (congrArg (· &&& vfsTypeMask) (mode_direntRemove erased _)).trans holder
    -- The entry that was removed has left its room.
    have room : (removed.inodes (vfs.dentries p').inode).dirents.length + 1 ≤
        (removed.inodes (vfs.dentries p').inode).direntCapacity := by
      have before := (mirrored.orderly (vfs.dentries p').inode).room
      have some := length_pos_of_mem own
      obtain ⟨⟨⟩, _⟩ | ⟨_, ⟨entry, listed, same⟩, rfl⟩ := vfsDirentRemove_cases erased
      simp only [setInode, update_self, setDirents]
      rw [length_eraseP_of_mem listed (by simpa using same)]
      simp only [inodeOf] at some
      omega
    obtain ⟨inodes, rfl⟩ := vfsDirentRemove_inodesOnly erased
    have added := vfsDirentAdd_room grants { vfs with inodes := inodes } (vfs.dentries d).name
      (vfs.dentries d).inode room
    refine ⟨tree, orderly_direntAdd orderly directory rfl, fun e apart older => ?_, ?_⟩
    · rw [added] at older ⊢
      simp only [setInode, take_of_length_le (mirrored.tree.fits d old), inodeOf] at older ⊢
      obtain ⟨q, up, listed⟩ := mirrored.listed e apart older
      refine ⟨q, up, ?_⟩
      by_cases here : (vfs.dentries q).inode = (vfs.dentries p').inode
      · rw [here, update_self]
        by_cases same : e = d
        · rw [same]
          exact mem_append_right _ (mem_singleton.mpr rfl)
        · exact mem_append_left _ (here ▸ kept e q same older listed)
      · rw [update_of_ne here]
        refine kept e q ?_ older listed
        rintro rfl
        exact here (by rw [Option.some.inj (up.symm.trans link)])
    · rw [added]
      exact mirrored.rootName
  | @rehung removed _ erased rehung =>
    have kept := fun e q => mirrored.kept (e := e) (q := q) old link below erased
    have orderly := orderly_direntRemove mirrored.orderly erased
    have modes := mode_direntRemove erased
    obtain ⟨inodes, rfl⟩ := vfsDirentRemove_inodesOnly erased
    obtain ⟨capacity, room, entered⟩ := rehung.entered
    exact {
      tree := tree
      orderly := by
        intro i
        by_cases here : i = (vfs.dentries target).inode
        · subst here
          have before := orderly (vfs.dentries target).inode
          rw [entered]
          refine ⟨?_, before.plain, fun _ => ?_⟩
          · simp only [setDirents, length_append, length_singleton]
            exact room before.room
          · exact (congrArg (· &&& vfsTypeMask) (modes _)).trans directory
        · rw [rehung.elsewhere i here]
          exact orderly i
      listed := by
        intro e apart older
        rw [rehung.next] at older
        rw [rehung.inode]
        by_cases same : e = d
        · subst same
          refine ⟨target, rehung.link, ?_⟩
          rw [inodeOf, rehung.inode, entered, rehung.renamed]
          exact mem_append_right _ (mem_singleton.mpr rfl)
        · obtain ⟨q, up, listed⟩ := mirrored.listed e apart older
          obtain ⟨name, parent⟩ := rehung.others e same
          refine ⟨q, parent.trans up, ?_⟩
          have still := kept e q same older listed
          rw [inodeOf, rehung.inode, name]
          by_cases here : (vfs.dentries q).inode = (vfs.dentries target).inode
          · rw [here] at still ⊢
            rw [entered]
            exact mem_append_left _ still
          · rw [rehung.elsewhere _ here]
            exact still
      rootName := (rehung.others rootDentry (below.symm)).1.trans mirrored.rootName }

lemma Mirrored.makeNode (spare : vfs.Spare) (grants : Nat → Bool) (path : CString) {mode : UInt32}
    (bytes : Option (List UInt8)) (size : Nat) {force : Bool} (named : force → ¬DotName (entryName path))
    (other : mode &&& vfsTypeMask ≠ vfsTypeDir) : Mirrored (vfsMakeNode grants vfs path mode bytes size force).1 := by
  have tree := mirrored.tree.makeNode spare grants path mode bytes size named
  obtain ⟨looked, lookups, same | ⟨parent, _, reached, directory, ⟨existing, found, kind, forced, remade⟩ |
    ⟨_, fresh, i, alloc, entered⟩⟩⟩ := vfsMakeNode_cases mirrored.tree.wired grants path mode bytes size force
  all_goals obtain rfl := mirrored.tree.lookedUp lookups
  · rw [same]
    exact mirrored
  · obtain ⟨_, entry, listed, name, rfl⟩ := mirrored.tree.wired.find found
    have root := mirrored.tree.entry_ne_root listed (name ▸ named forced)
    -- The node that is made anew was no directory, and so has no entries.
    have before := mirrored.orderly entry.inodeNumber
    have empty : (looked.inodes entry.inodeNumber).dirents = [] := by
      by_contra some
      exact kind (before.plain root (before.holder some))
    obtain ⟨_, _, _, frame⟩ := (vfsRemakeNode_sets remade).storageOnly
    have dirents := (vfsRemakeNode_sets remade).dirents
    refine mirrored.inodes tree (fun j => ?_) (by rw [frame]) (by rw [frame]) fun j _ => ?_
    · by_cases here : j = entry.inodeNumber
      · subst here
        refine .other ((dirents _).trans empty) ?_
        rwa [type, (vfsRemakeNode_sets remade).mode_eq]
      · rw [(vfsRemakeNode_sets remade).others here]
        exact mirrored.orderly j
    · rw [dirents]
      exact List.Subset.refl _
  · have readied := vfsFillNode_readied mirrored.tree.wired alloc mode bytes size
    have ready : Orderly i ((vfsFillNode fresh i mode bytes size).1.inodes i) := by
      refine .other ?_ ?_
      · rw [(vfsFillNode_sets fresh i mode bytes size).dirents, (vfsAllocInode_fresh alloc).inode]
      · rwa [type, (vfsFillNode_sets fresh i mode bytes size).mode_eq]
    exact mirrored.readiedEntered readied ready spare (reached.lt mirrored.tree.wired) (vfsSplitParent_length _)
      directory entered tree

lemma Mirrored.makeDirectory (spare : vfs.Spare) (grants : Nat → Bool) (path : CString) :
    Mirrored (vfsMakeDirectory grants vfs path).1 := by
  have tree := mirrored.tree.makeDirectory spare grants path
  obtain ⟨looked, lookups, same | ⟨parent, _, reached, directory, _, fresh, i, alloc, entered⟩⟩ :=
    vfsMakeDirectory_cases mirrored.tree.wired grants path
  all_goals obtain rfl := mirrored.tree.lookedUp lookups
  · rw [same]
    exact mirrored
  · have old := reached.lt mirrored.tree.wired
    have given := vfsAllocInode_fresh alloc
    have readied := vfsPrepareDirectory_readied mirrored.tree.wired alloc grants old
    have orderly : ∀ j, Orderly j (fresh.inodes j) := by
      intro j
      by_cases here : j = i
      · rw [here, given.inode]
        exact .other rfl (show ¬(0 : UInt32) &&& vfsTypeMask = vfsTypeDir by decide)
      · rw [given.others j here]
        exact mirrored.orderly j
    exact mirrored.readiedEntered readied
      (orderly_prepareDirectory orderly grants _ (by rw [given.inode]) i) spare old (vfsSplitParent_length _) directory
      entered tree

end Changes

/-- The calls that keep the dentries a mirror of the directories: they keep the tree and remove no name. -/
def VfsOp.KeepsNames (vfs : Vfs) : VfsOp → Prop
  | .chmod _ _ => False
  | .unlink path => ∀ d ∈ (vfsLookup vfs path).2, (vfs.inodeOf d).type = vfsTypeDir ∨ d = rootDentry
  | .rmdir path => ∀ d ∈ (vfsLookup vfs path).2, ((vfs.inodeOf d).mode ≠ vfsTypeDir ∨ d = rootDentry) ∨
    ∃ e ∈ (vfs.inodeOf d).dirents, ¬DotName e.name
  | op => op.KeepsTree vfs

lemma VfsOp.KeepsNames.tree (keeps : op.KeepsNames vfs) : op.KeepsTree vfs := by
  cases op
  all_goals first | exact keeps | trivial

/-- One call keeps the dentries a mirror of the directories. -/
theorem Mirrored.exec (mirrored : Mirrored vfs) (keeps : op.KeepsNames vfs)
    (step : op.exec vfs = some after) : Mirrored after := by
  have tree := mirrored.tree.exec keeps.tree step
  have handled : op.Handles → Mirrored after := fun handles => by
    obtain ⟨looked, lookups, rfl | ⟨fd, file, _, rfl⟩⟩ := handles.cases mirrored.tree.wired step
    all_goals obtain rfl := mirrored.tree.lookedUp lookups
    · exact mirrored
    · exact ⟨tree, mirrored.orderly, mirrored.listed, mirrored.rootName⟩
  cases op with
  | lookup | openFile | close | read | lseek => exact handled trivial
  | installFile path permissions bytes grants =>
    cases step
    apply mirrored.makeNode keeps.1 grants path _ _ (fun _ => keeps.2)
    rw [type_or_permissions (by decide)]
    decide
  | createFile path force grants | createSymlink _ path force grants =>
    cases step
    exact mirrored.makeNode keeps.1 grants path _ _ keeps.2 (by decide)
  | createDir path grants =>
    cases step
    exact mirrored.makeDirectory keeps grants path
  | write fd bytes =>
    cases step
    obtain same | ⟨i, _, _, ⟨_, _, same⟩ | same | ⟨_, _, same⟩⟩ := vfsCoreWrite_cases mirrored.tree.wired fd bytes
    · rwa [same]
    all_goals
      rw [same] at tree ⊢
      refine mirrored.inodes tree (fun j => ?_) rfl rfl fun j _ => ?_
    all_goals
      by_cases here : j = i
      · subst here
        simp only [setFile, setInode, store, update_self]
        first
        | exact ⟨(mirrored.orderly j).room, (mirrored.orderly j).plain, (mirrored.orderly j).holder⟩
        | exact List.Subset.refl _
      · simp only [setFile, setInode, store, update_of_ne here]
        first
        | exact mirrored.orderly j
        | exact List.Subset.refl _
  | chmod path mode => exact absurd keeps id
  | move src dest grants =>
    obtain ⟨after, result, move, same | ⟨d, p, target, old, below, link, directory, _, moved⟩⟩ :=
      mirrored.tree.move_cases keeps.1 grants src keeps.2
    all_goals
      rw [VfsOp.exec, move] at step
      cases step
    · exact same ▸ mirrored
    · exact mirrored.moved old below link directory moved tree
  | unlink path =>
    cases step
    have same : (vfsCoreUnlink vfs path).1 = vfs := by
      rw [vfsCoreUnlink, mirrored.tree.lookup_eq path]
      cases found : (vfsLookup vfs path).2 with
      | none => rfl
      | some d =>
        dsimp only
        split
        · rfl
        · rw [if_pos (keeps d found)]
    rwa [same]
  | rmdir path =>
    cases step
    have same : (vfsCoreRmdir vfs path).1 = vfs := by
      rw [vfsCoreRmdir, mirrored.tree.lookup_eq path]
      cases found : (vfsLookup vfs path).2 with
      | none => rfl
      | some d =>
        dsimp only
        rcases keeps d found with kind | ⟨e, listed, other⟩
        · rw [if_pos kind]
        · rw [if_pos (any_eq_true.mpr ⟨e, listed, by simpa [DotName] using other⟩), ite_self]
    rwa [same]

lemma vfsInitRoot_mirrored (hasData : Bool) {dataSize : Nat} (data : Nat → UInt8) (small : dataSize < 2 ^ 32) :
    Mirrored (vfsInitRoot hasData dataSize data) where
  tree := vfsInitRoot_tree hasData data small
  orderly := by
    intro i
    by_cases top : i = 0
    · subst top
      exact ⟨show 2 ≤ 32 by decide, fun apart => absurd rfl apart,
        fun _ => show vfsRootMode &&& vfsTypeMask = vfsTypeDir by decide⟩
    · refine .other ?_ ?_
      · simp [vfsInitRoot, vfsCacheInsert, setCache, update_of_ne top]
      · simp [vfsInitRoot, vfsCacheInsert, setCache, update_of_ne top, type, vfsTypeDir]
  listed := fun d below first => absurd (Nat.lt_one_iff.mp first) below
  rootName := rfl

/--
Along every run of calls that keep the names, lookups agree with the directories.

The run starts from the root alone.
-/
theorem lookups_agree_along {hasData : Bool} {dataSize : Nat} {data : Nat → UInt8} {run : List (VfsOp × Vfs)}
    (small : dataSize < 2 ^ 32) (calls : Along VfsCall (vfsInitRoot hasData dataSize data) run)
    (keep : Along (fun vfs op _ => op.KeepsNames vfs) (vfsInitRoot hasData dataSize data) run) :
    Visits (fun vfs => ∀ path, AbsolutePath path → PlainPath path → LookupAgrees vfs path)
      (vfsInitRoot hasData dataSize data) run := by
  refine visits_mono (fun _ (mirrored : Mirrored _) path absolute plain => mirrored.lookup absolute plain)
    (visits_of_invariant Mirrored (fun vfs op after mirrored step => ?_) (vfsInitRoot_mirrored hasData data small)
      (along_and calls keep))
  exact mirrored.exec step.2 step.1

/-- After two files are made, the first is found where the entries of the root lead to it. -/
theorem lookups_agree_along_created :
    LookupAgrees (vfsCoreCreateFile (fun _ => true) oneFile [slash, 98] false).1 [slash, 97] := by
  have calls : Along VfsCall freshVfs [(.createFile [slash, 97] false fun _ => true, oneFile),
    (.createFile [slash, 98] false fun _ => true, _)] := ⟨rfl, rfl, trivial⟩
  have visits := lookups_agree_along (by decide) calls
    ⟨⟨⟨0, by decide, by decide +kernel⟩, by simp⟩, ⟨⟨0, by decide, by decide +kernel⟩, by simp⟩, trivial⟩
  refine visits.2.2 [slash, 97] ⟨rfl, ?_, ?_⟩ ⟨by decide, ?_⟩
  all_goals
    decide

/-- A file that was removed is still found. -/
theorem removed_file_found : ∃ run, Along VfsCall freshVfs run ∧
    ¬Visits (fun vfs => ∀ path, AbsolutePath path → LookupAgrees vfs path) freshVfs run := by
  refine ⟨[(.createFile [slash, 97] false fun _ => true, oneFile),
    (.unlink [slash, 97], (vfsCoreUnlink oneFile [slash, 97]).1)],
    ⟨rfl, rfl, trivial⟩, fun agrees => ?_⟩
  have names : pathNames [slash, 97] = [[97]] := by decide
  have found := agrees.2.2 [slash, 97] ⟨rfl, by decide, by decide⟩
  unfold LookupAgrees at found
  revert found
  decide +kernel

end Galio
