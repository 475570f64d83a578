import Mathlib.Data.Finset.Card
import Galio.Lib.Run
import Galio.Fs.VfsPaths
import Galio.Fs.VfsSiblings

/-! Names and dentries form one tree while no dentry leaves the cache. -/

namespace Galio

open Function List

variable {d i parent p target : Nat} {name dest : CString} {entry : VfsDirent} {grants : Nat → Bool}

/-- A dentry stands for an entry of a directory. -/
structure Stands (vfs : Vfs) (d x : Nat) (entry : VfsDirent) : Prop where
  below : d ≠ rootDentry
  old : d < vfs.nextDentry
  inode : (vfs.dentries d).inode = entry.inodeNumber
  name : (vfs.dentries d).name = entry.name
  parent : ∃ p, (vfs.dentries d).parent = some p ∧ (vfs.dentries p).inode = x

/-- Every inode has at most one dentry, every dentry is cached, and every entry has a dentry. -/
structure Tree (vfs : Vfs) : Prop where
  wired : Wired vfs
  single : ∀ d e, d < vfs.nextDentry → e < vfs.nextDentry →
    (vfs.dentries d).inode = (vfs.dentries e).inode → d = e
  rootInode : (vfs.dentries rootDentry).inode = 0
  rootAlone : (vfs.dentries rootDentry).nextSibling = none
  rootType : (vfs.inodes 0).type = vfsTypeDir
  fits : ∀ d, d < vfs.nextDentry → (vfs.dentries d).name.length ≤ vfsNameRoom
  cached : ∀ d, d ≠ rootDentry → d < vfs.nextDentry → ∃ slot, slot < vfsMaxDentryCache ∧ vfs.cache slot = some d
  entry : ∀ x, ∀ entry ∈ (vfs.inodes x).dirents, ¬DotName entry.name → ∃ d, Stands vfs d x entry
  distinct : ∀ x, ((vfs.inodes x).dirents.map (·.name)).Nodup
  lists : ∃ children, ChildLists vfs children

variable {after fresh ready vfs : Vfs} {dir x : Nat} {dirents : List VfsDirent} {found : Bool}

lemma eraseP_name (distinct : (dirents.map (·.name)).Nodup)
    (listed : entry ∈ dirents.eraseP fun dirent => dirent.name == name) : entry.name ≠ name := by
  have gone : name ∉ (dirents.map (·.name)).erase name := distinct.not_mem_erase
  rw [erase_eq_eraseP', eraseP_map] at gone
  exact fun same => gone (mem_map.mpr ⟨entry, listed, same⟩)

lemma nodup_names_append {number : Nat}
    (distinct : (dirents.map (·.name)).Nodup) (absent : ∀ entry ∈ dirents, entry.name ≠ name) :
    ((dirents ++ [(⟨number, name⟩ : VfsDirent)]).map (·.name)).Nodup := by
  rw [map_append, nodup_append]
  refine ⟨distinct, nodup_singleton _, ?_⟩
  intro old member new single
  obtain ⟨entry, listed, rfl⟩ := mem_map.mp member
  rw [mem_singleton.mp single]
  exact absent entry listed

lemma vfsWalk_append (first second : List CString) : ∀ (vfs : Vfs) (d : Nat), vfsWalk vfs d (first ++ second) =
    match vfsWalk vfs d first with
    | (after, none) => (after, none)
    | (after, some e) => vfsWalk after e second := by
  induction first with
  | nil => exact fun _ _ => rfl
  | cons component rest ih =>
    intro vfs d
    rw [cons_append, vfsWalk, vfsWalk]
    split
    · exact ih vfs d
    split
    · exact ih vfs _
    · rcases vfsChild vfs d component with ⟨after, _ | child⟩
      · rfl
      · exact ih after child

lemma vfsDirentRemove_sublist (erased : vfsDirentRemove vfs dir name = (after, found)) (x : Nat) :
    (after.inodes x).dirents.Sublist (vfs.inodes x).dirents := by
  rcases vfsDirentRemove_cases erased with ⟨_, rfl⟩ | ⟨_, _, rfl⟩
  · exact List.Sublist.refl _
  · simp only [Vfs.setInode, update_apply]
    split
    · rename_i here
      rw [here]
      exact eraseP_sublist
    · exact List.Sublist.refl _

section Lookups

variable (tree : Tree vfs)

include tree

lemma Tree.cached_entry (old : d < vfs.nextDentry) (listed : entry ∈ (vfs.inodeOf d).dirents)
    (named : ¬DotName entry.name) : vfsCacheLookup vfs d entry.name ≠ none := by
  obtain ⟨e, stands⟩ := tree.entry _ entry listed named
  obtain ⟨p, link, inode⟩ := stands.parent
  obtain rfl := tree.single p d (tree.wired.parent e p link) old inode
  obtain ⟨slot, below, cached⟩ := tree.cached e stands.below stands.old
  intro missing
  exact vfsCacheLookup_none.mp missing slot e below cached ⟨link, stands.name⟩

lemma Tree.child_listed (old : d < vfs.nextDentry) (directory : (vfs.inodeOf d).type = vfsTypeDir)
    (listed : entry ∈ (vfs.inodeOf d).dirents) (named : ¬DotName entry.name) :
    ∃ child, vfsCacheLookup vfs d entry.name = some child ∧ vfsChild vfs d entry.name = (vfs, some child) := by
  have open_ : vfsCoreIsDirectory vfs (vfs.inodeOf d).number := by
    rw [Vfs.inodeOf, tree.wired.isDirectory (tree.wired.inode d old)]
    exact beq_iff_eq.mpr directory
  obtain ⟨child, cached⟩ := Option.ne_none_iff_exists'.mp (tree.cached_entry old listed named)
  exact ⟨child, cached, by simp [vfsChild, open_, cached]⟩

lemma Tree.child (old : d < vfs.nextDentry) (named : ¬DotName name) : (vfsChild vfs d name).1 = vfs := by
  unfold vfsChild
  split
  · rfl
  rcases cached : vfsCacheLookup vfs d name with _ | child
  · rcases found : vfsFindInodeInDir (vfs.inodeOf d) name with _ | inode
    · rfl
    · obtain ⟨_, entry, listed, rfl, _⟩ := tree.wired.find found
      exact absurd cached (tree.cached_entry old listed named)
  · rfl

lemma Tree.walk (components : List CString) : ∀ {d : Nat}, Descends vfs d → (vfsWalk vfs d components).1 = vfs := by
  induction components with
  | nil => exact fun _ => rfl
  | cons component rest ih =>
    intro d descends
    rw [vfsWalk]
    split
    · exact ih descends
    split
    · exact ih (descends.up tree.wired)
    rename_i first second
    have named : ¬DotName component := fun dots => dots.elim first second
    have same := tree.child (descends.lt tree.wired) named
    obtain ⟨_, _, reached⟩ := vfsChild_spec tree.wired descends component
    rcases made : vfsChild vfs d component with ⟨after, _ | child⟩
    all_goals
      rw [made] at same reached
      subst same
    · rfl
    · exact ih (reached child rfl)

lemma Tree.lookup (path : CString) : (vfsLookup vfs path).1 = vfs := tree.walk _ .root

lemma Tree.lookup_eq (path : CString) : vfsLookup vfs path = (vfs, (vfsLookup vfs path).2) :=
  Prod.ext (tree.lookup path) rfl

lemma Tree.lookup_descends {path : CString} (found : (vfsLookup vfs path).2 = some d) : Descends vfs d := by
  obtain ⟨_, _, reached⟩ := vfsLookup_spec tree.wired (tree.lookup_eq path)
  exact reached d found

lemma Tree.lookedUp (lookups : LookedUp vfs after) : after = vfs := by
  induction lookups with
  | refl => rfl
  | lookup path _ ih => rw [ih, tree.lookup path]

end Lookups

/-- The cache has an empty slot. -/
def Vfs.Spare (vfs : Vfs) : Prop := ∃ free, free < vfsMaxDentryCache ∧ vfs.cache free = none

/-- A dentry has a new name and parent, and the parent's directory an entry for it. -/
structure Rehung (vfs : Vfs) (d target : Nat) (name : CString) (after : Vfs) : Prop where
  wired : Wired after
  next : after.nextDentry = vfs.nextDentry
  inode : ∀ e, (after.dentries e).inode = (vfs.dentries e).inode
  renamed : (after.dentries d).name = name
  link : (after.dentries d).parent = some target
  others : ∀ e, e ≠ d → (after.dentries e).name = (vfs.dentries e).name ∧
    (after.dentries e).parent = (vfs.dentries e).parent
  elsewhere : ∀ x, x ≠ (vfs.dentries target).inode → after.inodes x = vfs.inodes x
  entered : ∃ capacity, ((vfs.inodeOf target).dirents.length ≤ (vfs.inodeOf target).direntCapacity →
      (vfs.inodeOf target).dirents.length + 1 ≤ capacity) ∧
    after.inodes (vfs.dentries target).inode = { (vfs.inodeOf target).setDirents
      ((vfs.inodeOf target).dirents ++ [⟨(vfs.dentries d).inode, name⟩]) with direntCapacity := capacity }
  cached : ∀ e, (∃ slot, slot < vfsMaxDentryCache ∧ vfs.cache slot = some e) →
    ∃ slot, slot < vfsMaxDentryCache ∧ after.cache slot = some e
  alone : (after.dentries rootDentry).nextSibling = none
  lists : ∃ children, ChildLists after children

/-- What moving an entry leads to: nothing, the entry put back, or the dentry moved. -/
inductive Moved (grants : Nat → Bool) (vfs : Vfs) (d p target : Nat) (name : CString) : Vfs → Prop where
  | refused : Moved grants vfs d p target name vfs
  | restored {removed : Vfs} :
      vfsDirentRemove vfs (vfs.dentries p).inode (vfs.dentries d).name = (removed, true) →
      Moved grants vfs d p target name
        (vfsDirentAdd grants removed (vfs.dentries p).inode (vfs.dentries d).name (vfs.dentries d).inode).1
  | rehung {removed after : Vfs} :
      vfsDirentRemove vfs (vfs.dentries p).inode (vfs.dentries d).name = (removed, true) →
      Rehung removed d target name after → Moved grants vfs d p target name after

section Changes

variable (tree : Tree vfs)

include tree

lemma Stands.kept (stands : Stands vfs d x entry) (next : vfs.nextDentry ≤ after.nextDentry)
    (same : ∀ e < vfs.nextDentry, (after.dentries e).name = (vfs.dentries e).name ∧
      (after.dentries e).parent = (vfs.dentries e).parent ∧ (after.dentries e).inode = (vfs.dentries e).inode) :
    Stands after d x entry := by
  obtain ⟨name, parent, inode⟩ := same d stands.old
  obtain ⟨p, link, above⟩ := stands.parent
  refine ⟨stands.below, stands.old.trans_le next, inode.trans stands.inode, name.trans stands.name,
    p, parent.trans link, ?_⟩
  rw [(same p (tree.wired.parent d p link)).2.2, above]

lemma Tree.inodes (wired : Wired after) (dentries : after.dentries = vfs.dentries)
    (next : after.nextDentry = vfs.nextDentry) (cache : after.cache = vfs.cache)
    (rootType : (after.inodes 0).type = vfsTypeDir)
    (entries : ∀ x, ∀ entry ∈ (after.inodes x).dirents, ¬DotName entry.name → ∃ d, Stands vfs d x entry)
    (distinct : ∀ x, ((after.inodes x).dirents.map (·.name)).Nodup) : Tree after where
  wired := wired
  single := by
    rw [dentries, next]
    exact tree.single
  rootInode := by rw [dentries, tree.rootInode]
  rootAlone := by rw [dentries, tree.rootAlone]
  rootType := rootType
  fits := by
    rw [dentries, next]
    exact tree.fits
  cached := by
    rw [next, cache]
    exact tree.cached
  entry := by
    intro x entry listed named
    obtain ⟨d, stands⟩ := entries x entry listed named
    exact ⟨d, stands.kept tree (Nat.le_of_eq next.symm) fun e _ => by simp [dentries]⟩
  distinct := distinct
  lists := by
    obtain ⟨children, lists⟩ := tree.lists
    exact ⟨children, lists.congr dentries next⟩

lemma Tree.adjust (i : Nat) {inode : VfsInode} (number : inode.number = (vfs.inodes i).number)
    (dirents : inode.dirents = (vfs.inodes i).dirents) (root : i = 0 → inode.type = vfsTypeDir) :
    Tree (vfs.setInode i inode) := by
  have same : ∀ x, ((vfs.setInode i inode).inodes x).dirents = (vfs.inodes x).dirents := by
    intro x
    simp only [Vfs.setInode, update_apply]
    split
    · rename_i here
      rw [here, dirents]
    · rfl
  refine tree.inodes (tree.wired.adjust i number dirents) rfl rfl rfl ?_ ?_ ?_
  · simp only [Vfs.setInode, update_apply]
    split
    · rename_i here
      exact root here.symm
    · exact tree.rootType
  · intro x entry listed
    rw [same] at listed
    exact tree.entry x entry listed
  · intro x
    rw [same]
    exact tree.distinct x

lemma Tree.direntRemove (erased : vfsDirentRemove vfs dir name = (after, found)) : Tree after := by
  have wired := tree.wired.direntRemove erased
  have dirents := vfsDirentRemove_sublist erased
  have rootType := (congrArg (· &&& vfsTypeMask) (mode_direntRemove erased 0)).trans tree.rootType
  obtain ⟨_, rfl⟩ := vfsDirentRemove_inodesOnly erased
  refine tree.inodes wired rfl rfl rfl rootType ?_ ?_
  · exact fun x entry listed => tree.entry x entry ((dirents x).subset listed)
  · exact fun x => (tree.distinct x).sublist ((dirents x).map _)

lemma Tree.nextDentry_lt (spare : vfs.Spare) : vfs.nextDentry < vfsMaxDentries := by
  obtain ⟨free, below, empty⟩ := spare
  -- The dentries other than the root are all met in the slots other than the empty one.
  have met : Set.SurjOn (fun slot => (vfs.cache slot).getD rootDentry)
      ((Finset.range vfsMaxDentryCache).erase free : Finset Nat) ((Finset.range vfs.nextDentry).erase rootDentry) := by
    intro d member
    simp only [Finset.coe_erase, Set.mem_sdiff, Finset.mem_coe, Finset.mem_range, Set.mem_singleton_iff] at member
    obtain ⟨slot, inside, cached⟩ := tree.cached d member.2 member.1
    refine ⟨slot, ?_, by simp [cached]⟩
    simp only [Finset.coe_erase, Set.mem_sdiff, Finset.mem_coe, Finset.mem_range]
    refine ⟨inside, ?_⟩
    rintro rfl
    exact absurd (empty.symm.trans cached) (by simp)
  have count := Finset.card_le_card_of_surjOn _ met
  rw [Finset.card_erase_of_mem (Finset.mem_range.mpr tree.wired.rooted),
    Finset.card_erase_of_mem (Finset.mem_range.mpr below), Finset.card_range, Finset.card_range] at count
  simp only [vfsMaxDentryCache, vfsMaxDentries] at count ⊢
  omega

lemma Tree.readied (readied : Readied vfs i ready) : Tree ready := by
  have rootOld : (0 : Nat) ≠ i := by
    rw [readied.index]
    have := tree.wired.inode rootDentry tree.wired.rooted
    omega
  refine tree.inodes readied.wired readied.dentries readied.nextDentry readied.cache ?_ ?_ ?_
  · rw [readied.others 0 rootOld, tree.rootType]
  · intro x entry listed named
    by_cases here : x = i
    · subst here
      exact absurd (readied.dots entry listed) named
    · rw [readied.others x here] at listed
      exact tree.entry x entry listed named
  · intro x
    by_cases here : x = i
    · subst here
      exact readied.distinct
    · rw [readied.others x here]
      exact tree.distinct x

/-- A node was entered in the directory of a dentry and linked to a new dentry. -/
structure LinkedNode (vfs after : Vfs) (name : CString) (parent i : Nat) : Prop where
  count : after.nextDentry = vfs.nextDentry + 1
  others : ∀ j, j ≠ (vfs.dentries parent).inode → after.inodes j = vfs.inodes j
  dirents : (after.inodes (vfs.dentries parent).inode).dirents = (vfs.inodeOf parent).dirents ++ [⟨i, name⟩]
  newest : after.dentries vfs.nextDentry = ⟨name, some parent, none, (vfs.dentries parent).firstChild, i⟩
  same : ∀ e, e < vfs.nextDentry → (after.dentries e).name = (vfs.dentries e).name ∧
    (after.dentries e).parent = (vfs.dentries e).parent ∧ (after.dentries e).inode = (vfs.dentries e).inode

variable {child : Nat}

omit tree in
lemma linkedNode_of_entry {entered : Vfs} (above : parent < vfs.nextDentry) (fits : name.length ≤ vfsNameRoom)
    (entry : vfsDirentAdd grants vfs (vfs.dentries parent).inode name i = (entered, true))
    (made : vfsCreateDentry entered parent name i = some (after, child)) : LinkedNode vfs after name parent i := by
  have short : name.take vfsNameRoom = name := take_of_length_le fits
  obtain ⟨⟨⟩, _⟩ | ⟨_, _, _, rfl⟩ := vfsDirentAdd_cases entry
  have looked := vfsCreateDentry_looked (by exact above) made
  obtain ⟨rfl, _, next, dentries⟩ := vfsCreateDentry_eq (by exact above) made
  refine ⟨next, fun j other => ?_, ?_, ?_, fun e old => ?_⟩
  · rw [looked.inodes]
    exact update_of_ne other ..
  · simp [looked.inodes, Vfs.setInode, VfsInode.setDirents, short, Vfs.inodeOf]
  · rw [dentries, if_neg (Nat.ne_of_gt above), short]
    exact if_pos rfl
  · exact ⟨looked.name e old, looked.parent e old, looked.inode e old⟩

lemma Tree.linked (spare : vfs.Spare) {entered : Vfs} (above : parent < vfs.nextDentry)
    (given : i < vfs.nextInode) (unclaimed : ∀ d < vfs.nextDentry, (vfs.dentries d).inode ≠ i)
    (fits : name.length ≤ vfsNameRoom) (absent : ∀ entry ∈ (vfs.inodeOf parent).dirents, entry.name ≠ name)
    (entry : vfsDirentAdd grants vfs (vfs.dentries parent).inode name i = (entered, true))
    (made : vfsCreateDentry entered parent name i = some (after, child)) : Tree after := by
  have wired := tree.wired.entered above given (.linked entry made)
  obtain ⟨count, others, dirents, newest, same⟩ := linkedNode_of_entry above fits entry made
  have modes := mode_direntAdd entry
  have adding := tree.wired.direntAdd given entry
  obtain ⟨inodes, rfl⟩ := vfsDirentAdd_inodesOnly entry
  have room : parent < Vfs.nextDentry { vfs with inodes := inodes } := above
  have looked := vfsCreateDentry_looked room made
  obtain ⟨rfl, _, _, dentries⟩ := vfsCreateDentry_eq room made
  obtain ⟨kept, newCached⟩ := vfsCreateDentry_cache (by exact spare) made
  have grown : vfs.nextDentry ≤ after.nextDentry := by omega
  have older : ∀ d < after.nextDentry, d ≠ vfs.nextDentry → d < vfs.nextDentry := by
    intro d old other
    omega
  exact {
    wired := wired
    single := by
      intro d e first second equal
      by_cases left : d = vfs.nextDentry
      · by_cases right : e = vfs.nextDentry
        · rw [left, right]
        · have old := older e second right
          rw [left, newest, (same e old).2.2] at equal
          exact absurd equal.symm (unclaimed e old)
      · have old := older d first left
        by_cases right : e = vfs.nextDentry
        · rw [right, newest, (same d old).2.2] at equal
          exact absurd equal (unclaimed d old)
        · rw [(same d old).2.2, (same e (older e second right)).2.2] at equal
          exact tree.single d e old (older e second right) equal
    rootInode := (same rootDentry tree.wired.rooted).2.2.trans tree.rootInode
    rootAlone := by
      rw [dentries]
      split
      · rename_i here
        rw [← here]
        exact tree.rootAlone
      · rw [if_neg (Nat.ne_of_lt tree.wired.rooted)]
        exact tree.rootAlone
    rootType := by
      rw [VfsInode.type, looked.inodes, modes]
      exact tree.rootType
    fits := by
      intro d old
      by_cases new : d = vfs.nextDentry
      · rw [new, newest]
        exact fits
      · rw [(same d (older d old new)).1]
        exact tree.fits d (older d old new)
    cached := by
      intro d apart old
      by_cases new : d = vfs.nextDentry
      · rw [new]
        exact newCached
      · obtain ⟨slot, below, cached⟩ := tree.cached d apart (by omega)
        exact ⟨slot, below, kept slot d cached⟩
    entry := by
      intro x entry listed named
      by_cases here : x = (vfs.dentries parent).inode
      · subst here
        rw [dirents] at listed
        rcases mem_append.mp listed with old | new
        · obtain ⟨d, stands⟩ := tree.entry _ entry old named
          exact ⟨d, stands.kept tree grown same⟩
        · obtain rfl := mem_singleton.mp new
          refine ⟨vfs.nextDentry, Nat.ne_of_gt tree.wired.rooted, by omega, by rw [newest], by rw [newest],
            parent, by rw [newest], (same parent above).2.2⟩
      · rw [others x here] at listed
        obtain ⟨d, stands⟩ := tree.entry _ entry listed named
        exact ⟨d, stands.kept tree grown same⟩
    distinct := by
      intro x
      by_cases here : x = (vfs.dentries parent).inode
      · subst here
        rw [dirents]
        exact nodup_names_append (tree.distinct _) absent
      · rw [others x here]
        exact tree.distinct x
    lists := by
      obtain ⟨children, lists⟩ := tree.lists
      have before : ChildLists { vfs with inodes := inodes } children := lists.congr rfl rfl
      exact ⟨_, before.createDentry adding made⟩ }

lemma Tree.createDentry_ne_none (spare : vfs.Spare) {entered : Vfs}
    (entry : vfsDirentAdd grants vfs dir name i = (entered, true)) :
    vfsCreateDentry entered parent name i ≠ none := by
  have left := tree.nextDentry_lt spare
  obtain ⟨_, rfl⟩ := vfsDirentAdd_inodesOnly entry
  intro made
  simp only [vfsCreateDentry, ite_eq_left_iff, reduceCtorEq, imp_false] at made
  omega

lemma Tree.entered (spare : vfs.Spare) (above : parent < vfs.nextDentry) (given : i < vfs.nextInode)
    (unclaimed : ∀ d < vfs.nextDentry, (vfs.dentries d).inode ≠ i) (fits : name.length ≤ vfsNameRoom)
    (absent : ∀ entry ∈ (vfs.inodeOf parent).dirents, entry.name ≠ name)
    (entered : Entered grants name parent i vfs after) : Tree after := by
  cases entered with
  | refused => exact tree
  | unlinked entry made => exact absurd made (tree.createDentry_ne_none spare entry)
  | linked entry made => exact tree.linked spare above given unclaimed fits absent entry made

lemma Tree.entry_ne_root (listed : entry ∈ (vfs.inodes x).dirents)
    (named : ¬DotName entry.name) : entry.inodeNumber ≠ 0 := by
  obtain ⟨d, stands⟩ := tree.entry x entry listed named
  intro root
  exact stands.below (tree.single d rootDentry stands.old tree.wired.rooted
    (stands.inode.trans (root.trans tree.rootInode.symm)))

lemma Tree.readiedEntered (readied : Readied vfs i ready) (spare : vfs.Spare) (above : parent < vfs.nextDentry)
    (fits : name.length ≤ vfsNameRoom) (absent : ∀ entry ∈ (vfs.inodeOf parent).dirents, entry.name ≠ name)
    (entered : Entered grants name parent i ready after) : Tree after := by
  refine (tree.readied readied).entered ?_ ?_ readied.lt ?_ fits ?_ entered
  · rwa [Vfs.Spare, readied.cache]
  · rwa [readied.nextDentry]
  · intro d old
    rw [readied.nextDentry] at old
    rw [readied.dentries, readied.index]
    exact Nat.ne_of_lt (tree.wired.inode d old)
  · have other : (vfs.dentries parent).inode ≠ i := by
      rw [readied.index]
      exact Nat.ne_of_lt (tree.wired.inode parent above)
    rw [Vfs.inodeOf, readied.dentries, readied.others _ other]
    exact absent

lemma Tree.makeNode (spare : vfs.Spare) (grants : Nat → Bool) (path : CString) (mode : UInt32)
    (bytes : Option (List UInt8)) (size : Nat) {force : Bool} (named : force → ¬DotName (entryName path)) :
    Tree (vfsMakeNode grants vfs path mode bytes size force).1 := by
  obtain ⟨looked, lookups, same | ⟨parent, _, reached, _, ⟨existing, found, _, forced, remade⟩ |
    ⟨found, fresh, i, alloc, entered⟩⟩⟩ := vfsMakeNode_cases tree.wired grants path mode bytes size force
  all_goals obtain rfl := tree.lookedUp lookups
  · rw [same]
    exact tree
  · obtain ⟨_, entry, listed, name, rfl⟩ := tree.wired.find found
    have root := tree.entry_ne_root listed (name ▸ named forced)
    obtain ⟨_, _, _, frame⟩ := (vfsRemakeNode_sets remade).storageOnly
    have dirents := (vfsRemakeNode_sets remade).dirents
    refine tree.inodes ((vfsRemakeNode_sets remade).wired tree.wired) (by rw [frame]) (by rw [frame])
      (by rw [frame]) ?_ ?_ ?_
    · rw [(vfsRemakeNode_sets remade).others (root.symm), tree.rootType]
    · intro x entry listed
      rw [dirents] at listed
      exact tree.entry x entry listed
    · intro x
      rw [dirents]
      exact tree.distinct x
  · exact tree.readiedEntered (vfsFillNode_readied tree.wired alloc mode bytes size) spare (reached.lt tree.wired)
      (vfsSplitParent_length _) (tree.wired.find_none found) entered

lemma Tree.makeDirectory (spare : vfs.Spare) (grants : Nat → Bool) (path : CString) :
    Tree (vfsMakeDirectory grants vfs path).1 := by
  obtain ⟨looked, lookups, same | ⟨parent, _, reached, _, found, fresh, i, alloc, entered⟩⟩ :=
    vfsMakeDirectory_cases tree.wired grants path
  all_goals obtain rfl := tree.lookedUp lookups
  · rw [same]
    exact tree
  · have old := reached.lt tree.wired
    refine tree.readiedEntered (vfsPrepareDirectory_readied tree.wired alloc grants old) spare old
      (vfsSplitParent_length _) (fun entry listed same => ?_) entered
    have different := find?_eq_none.mp found entry listed
    simp [same, entryName] at different

lemma Tree.removes (removes : Removes vfs after) : Tree after := by
  cases removes with
  | nothing lookups =>
    rw [tree.lookedUp lookups]
    exact tree
  | @entry looked _ d _ _ _ lookups reached below _ erased _ =>
    obtain rfl := tree.lookedUp lookups
    have removing := tree.direntRemove erased
    obtain ⟨_, rfl⟩ := vfsDirentRemove_inodesOnly erased
    refine removing.adjust _ rfl rfl fun root => ?_
    exact absurd (tree.single d rootDentry (reached.lt tree.wired) tree.wired.rooted (root.trans tree.rootInode.symm))
      below

lemma Tree.removed_entry (old : d < vfs.nextDentry) (link : (vfs.dentries d).parent = some p) {removed : Vfs}
    (erased : vfsDirentRemove vfs (vfs.dentries p).inode (vfs.dentries d).name = (removed, true)) :
    (∀ entry ∈ (removed.inodes (vfs.dentries p).inode).dirents, entry.name ≠ (vfs.dentries d).name) ∧
      ∀ x, ∀ entry ∈ (removed.inodes x).dirents, ¬DotName entry.name →
        entry.inodeNumber ≠ (vfs.dentries d).inode := by
  obtain ⟨⟨⟩, _⟩ | ⟨_, _, rfl⟩ := vfsDirentRemove_cases erased
  have here : ∀ entry ∈ (vfs.inodes (vfs.dentries p).inode).dirents.eraseP
      (fun dirent => dirent.name == (vfs.dentries d).name), entry.name ≠ (vfs.dentries d).name :=
    fun entry listed => eraseP_name (tree.distinct _) listed
  refine ⟨?_, fun x entry listed named same => ?_⟩
  · simpa [Vfs.setInode, VfsInode.setDirents] using here
  · simp only [Vfs.setInode, update_apply] at listed
    split at listed
    · -- The entry would be the dentry's own, which is the one removed.
      obtain ⟨e, stands⟩ := tree.entry _ entry (mem_of_mem_eraseP listed) named
      obtain rfl := tree.single e d stands.old old (stands.inode.trans same)
      exact here entry listed stands.name.symm
    · rename_i outside
      obtain ⟨e, stands⟩ := tree.entry _ entry listed named
      obtain rfl := tree.single e d stands.old old (stands.inode.trans same)
      obtain ⟨q, above, inode⟩ := stands.parent
      cases above.symm.trans link
      exact outside inode.symm

lemma Tree.relist {added : Bool} (old : d < vfs.nextDentry) (below : d ≠ rootDentry)
    (link : (vfs.dentries d).parent = some p)
    (absent : ∀ entry ∈ (vfs.inodes (vfs.dentries p).inode).dirents, entry.name ≠ (vfs.dentries d).name)
    (entry : vfsDirentAdd grants vfs (vfs.dentries p).inode (vfs.dentries d).name (vfs.dentries d).inode =
      (after, added)) : Tree after := by
  have wired := tree.wired.direntAdd (tree.wired.inode d old) entry
  have others : ∀ j, j ≠ (vfs.dentries p).inode → after.inodes j = vfs.inodes j :=
    fun j other => vfsDirentAdd_others entry other
  have dirents := vfsDirentAdd_dirents entry
  obtain ⟨_, frame⟩ := vfsDirentAdd_inodesOnly entry
  rw [take_of_length_le (tree.fits d old)] at dirents
  refine tree.inodes wired (by rw [frame]) (by rw [frame]) (by rw [frame]) ?_ ?_ ?_
  · rw [VfsInode.type, mode_direntAdd entry]
    exact tree.rootType
  · intro x entry listed named
    by_cases here : x = (vfs.dentries p).inode
    · subst here
      rcases dirents with same | added
      · rw [same] at listed
        exact tree.entry _ entry listed named
      · rw [added] at listed
        rcases mem_append.mp listed with before | new
        · exact tree.entry _ entry before named
        · obtain rfl := mem_singleton.mp new
          exact ⟨d, below, old, rfl, rfl, p, link, rfl⟩
    · rw [others x here] at listed
      exact tree.entry _ entry listed named
  · intro x
    by_cases here : x = (vfs.dentries p).inode
    · subst here
      rcases dirents with same | added
      · rw [same]
        exact tree.distinct _
      · rw [added]
        exact nodup_names_append (tree.distinct _) absent
    · rw [others x here]
      exact tree.distinct x

/-- A dentry without an entry gets a new name, a new parent and an entry. -/
theorem Tree.rehung (old : d < vfs.nextDentry) (below : d ≠ rootDentry) (fits : name.length ≤ vfsNameRoom)
    (unlisted : ∀ x, ∀ entry ∈ (vfs.inodes x).dirents, ¬DotName entry.name →
      entry.inodeNumber ≠ (vfs.dentries d).inode) (absent : ∀ entry ∈ (vfs.inodeOf target).dirents, entry.name ≠ name)
    (rehung : Rehung vfs d target name after) : Tree after := by
  -- The entries from before stand for other dentries.
  have kept : ∀ x, ∀ entry ∈ (vfs.inodes x).dirents, ¬DotName entry.name → ∃ e, Stands after e x entry := by
    intro x entry listed named
    obtain ⟨e, stands⟩ := tree.entry x entry listed named
    have other : e ≠ d := fun same => unlisted x entry listed named (same ▸ stands.inode.symm)
    obtain ⟨p, up, here⟩ := stands.parent
    obtain ⟨sameName, sameParent⟩ := rehung.others e other
    exact ⟨e, stands.below, rehung.next ▸ stands.old, (rehung.inode e).trans stands.inode,
      sameName.trans stands.name, p, sameParent.trans up, (rehung.inode p).trans here⟩
  obtain ⟨capacity, _, entered⟩ := rehung.entered
  exact {
    wired := rehung.wired
    single := by
      intro e f first second same
      rw [rehung.inode, rehung.inode] at same
      rw [rehung.next] at first second
      exact tree.single e f first second same
    rootInode := (rehung.inode rootDentry).trans tree.rootInode
    rootAlone := rehung.alone
    rootType := by
      by_cases here : 0 = (vfs.dentries target).inode
      · rw [here, entered]
        have type := tree.rootType
        rw [here] at type
        exact type
      · rw [rehung.elsewhere 0 here, tree.rootType]
    fits := by
      intro e older
      by_cases same : e = d
      · rw [same, rehung.renamed]
        exact fits
      · rw [(rehung.others e same).1]
        exact tree.fits e (rehung.next ▸ older)
    cached := fun e apart older => rehung.cached e (tree.cached e apart (rehung.next ▸ older))
    entry := by
      intro x entry listed named
      by_cases here : x = (vfs.dentries target).inode
      · subst here
        rw [entered] at listed
        rcases mem_append.mp listed with before | new
        · exact kept _ entry before named
        · obtain rfl := mem_singleton.mp new
          exact ⟨d, below, rehung.next ▸ old, rehung.inode d, rehung.renamed, target, rehung.link,
            rehung.inode target⟩
      · rw [rehung.elsewhere x here] at listed
        exact kept x entry listed named
    distinct := by
      intro x
      by_cases here : x = (vfs.dentries target).inode
      · subst here
        rw [entered]
        exact nodup_names_append (tree.distinct _) absent
      · rw [rehung.elsewhere x here]
        exact tree.distinct x
    lists := rehung.lists }

/-- A dentry is entered under another name, and linked below the directory's dentry. -/
theorem Tree.moveLinked (spare : vfs.Spare)
    {entered : Vfs} (old : d < vfs.nextDentry) (below : d ≠ rootDentry) (link : (vfs.dentries d).parent = some p)
    (above : target < vfs.nextDentry) (fits : name.length ≤ vfsNameRoom)
    (entry : vfsDirentAdd grants vfs (vfs.dentries target).inode name (vfs.dentries d).inode = (entered, true)) :
    ∃ taken, vfsUnlinkChildDentry entered p d = some taken ∧
      Rehung vfs d target name (vfsLinkChild (taken.setDentry d { taken.dentries d with name := name }) target d) := by
  have adding := tree.wired.direntAdd (tree.wired.inode d old) entry
  have elsewhere : ∀ x, x ≠ (vfs.dentries target).inode → entered.inodes x = vfs.inodes x :=
    fun x other => vfsDirentAdd_others entry other
  obtain ⟨⟨⟩, _⟩ | ⟨_, capacity, room, added⟩ := vfsDirentAdd_cases entry
  have dirents : entered.inodes (vfs.dentries target).inode = { (vfs.inodeOf target).setDirents
      ((vfs.inodeOf target).dirents ++ [⟨(vfs.dentries d).inode, name⟩]) with direntCapacity := capacity } := by
    simp [added, Vfs.setInode, take_of_length_le fits, Vfs.inodeOf]
  clear added
  obtain ⟨inodes, rfl⟩ := vfsDirentAdd_inodesOnly entry
  -- The dentry is taken out of its list, gets its name, and is put in front of the other list.
  obtain ⟨children, lists⟩ := tree.lists
  have before : ChildLists { vfs with inodes := inodes } children := lists.congr rfl rfl
  obtain ⟨taken, unlinked, erased, orphan, siblings⟩ := before.unlinkChild tree.wired.dentryRoom
    (tree.wired.parent d p link) ((lists.mem p d).mpr ⟨below, old, link⟩)
  refine ⟨taken, unlinked, ?_⟩
  obtain ⟨rest, fields⟩ := vfsUnlinkChildDentry_frame unlinked
  have kept := adding.unlinkChild below unlinked
  have next : taken.nextDentry = vfs.nextDentry := by rw [rest]
  have same : taken.inodes = inodes := by rw [rest]
  have cache : taken.cache = vfs.cache := by rw [rest]
  have wired : Wired (taken.setDentry d { taken.dentries d with name := name }) :=
    kept.setDentry d (fun old => kept.inode d old) (fun q up => kept.parent d q up) fun here => absurd here below
  have dentries := vfsLinkChild_dentries (taken.setDentry d { taken.dentries d with name := name }) target d
  have renamed := setDentry_name taken d name
  obtain ⟨free, inside, empty⟩ := spare
  obtain ⟨cached, _⟩ := vfsLinkChild_keeps (taken.setDentry d { taken.dentries d with name := name }) target d
    ⟨free, inside, .inl ((congrFun cache free).trans empty)⟩
  have relinked := (erased.rename d name).linkChild target (Nat.lt_of_lt_of_eq old next.symm) below
    (by rw [renamed, orphan])
  refine ⟨wired.linkChild (Nat.lt_of_lt_of_eq above next.symm) (Nat.lt_of_lt_of_eq old next.symm) below,
    next, ?_, ?_, ?_, ?_, ?_, ⟨capacity, room, ?_⟩, ?_, ?_, ⟨_, relinked⟩⟩
  · intro e
    rw [dentries, renamed]
    exact (fields e).2.1
  · rw [dentries, renamed]
    exact if_pos rfl
  · rw [dentries]
    exact if_pos rfl
  · intro e other
    rw [dentries, renamed]
    exact ⟨(if_neg other).trans (fields e).1, (if_neg other).trans ((fields e).2.2 other)⟩
  · intro x other
    exact (congrFun same x).trans (elsewhere x other)
  · exact (congrFun same _).trans dirents
  · rintro e ⟨slot, within, here⟩
    exact ⟨slot, within, cached slot e ((congrFun cache slot).trans here)⟩
  · rw [dentries, renamed]
    apply (if_neg (below.symm)).trans
    have outside : rootDentry ∉ children p := fun member => ((lists.mem p _).mp member).1 rfl
    exact (siblings rootDentry outside).trans tree.rootAlone

lemma Tree.moveEntry (spare : vfs.Spare) (grants : Nat → Bool)
    (old : d < vfs.nextDentry) (below : d ≠ rootDentry) (link : (vfs.dentries d).parent = some p)
    (above : target < vfs.nextDentry) (fits : name.length ≤ vfsNameRoom) :
    ∃ after moved, vfsMoveEntry grants vfs d p target name = some (after, moved) ∧
      Moved grants vfs d p target name after := by
  have number : (vfs.inodeOf d).number = (vfs.dentries d).inode := tree.wired.numbered _ (tree.wired.inode d old)
  unfold vfsMoveEntry
  dsimp only
  rw [number]
  rcases erased : vfsDirentRemove vfs (vfs.dentries p).inode (vfs.dentries d).name with ⟨removed, _ | _⟩
  · obtain ⟨_, rfl⟩ | ⟨⟨⟩, _⟩ := vfsDirentRemove_cases erased
    exact ⟨_, _, rfl, .refused⟩
  have removing := tree.direntRemove erased
  obtain ⟨inodes, rfl⟩ := vfsDirentRemove_inodesOnly erased
  dsimp only
  rcases entry : vfsDirentAdd grants { vfs with inodes := inodes } (vfs.dentries target).inode name
    (vfs.dentries d).inode with ⟨added, _ | _⟩
  · obtain ⟨_, rfl⟩ | ⟨⟨⟩, _⟩ := vfsDirentAdd_cases entry
    exact ⟨_, _, rfl, .restored erased⟩
  · obtain ⟨taken, unlinked, rehung⟩ := removing.moveLinked spare old below link above fits entry
    dsimp only
    rw [unlinked, take_of_length_le fits]
    exact ⟨_, _, rfl, .rehung erased rehung⟩

/-- Moving an entry to a directory without the name leaves a tree. -/
theorem Tree.moved (old : d < vfs.nextDentry) (below : d ≠ rootDentry) (link : (vfs.dentries d).parent = some p)
    (fits : name.length ≤ vfsNameRoom) (absent : ∀ entry ∈ (vfs.inodeOf target).dirents, entry.name ≠ name)
    (moved : Moved grants vfs d p target name after) : Tree after := by
  cases moved with
  | refused => exact tree
  | restored erased =>
    have removing := tree.direntRemove erased
    obtain ⟨gone, _⟩ := tree.removed_entry old link erased
    obtain ⟨inodes, rfl⟩ := vfsDirentRemove_inodesOnly erased
    exact removing.relist old below link gone rfl
  | rehung erased rehung =>
    have removing := tree.direntRemove erased
    have fewer := vfsDirentRemove_sublist erased
    obtain ⟨_, unlisted⟩ := tree.removed_entry old link erased
    obtain ⟨inodes, rfl⟩ := vfsDirentRemove_inodesOnly erased
    exact removing.rehung old below fits unlisted (fun entry listed => absent entry ((fewer _).subset listed)) rehung

/-- Where a path is not found but its directory is, the directory lacks its last name. -/
theorem Tree.absent (short : (lookupComponents dest).length < 256)
    (below : vfsNormalize dest ≠ [dot]) (dir : (vfsLookup vfs (vfsSplitParent dest).1).2 = some target)
    (directory : (vfs.inodeOf target).type = vfsTypeDir) (missing : (vfsLookup vfs dest).2 = none) :
    ∀ entry ∈ (vfs.inodeOf target).dirents, entry.name ≠ (vfsSplitParent dest).2 := by
  intro entry listed same
  obtain ⟨name, components, last⟩ := lookupComponents_split below
  rw [last] at same
  have old := (tree.lookup_descends dir).lt tree.wired
  rw [components, length_append, length_singleton] at short
  -- The walk to the path is the walk to its directory and one more component.
  have walked : vfsWalk vfs rootDentry ((lookupComponents (vfsSplitParent dest).1).map (·.take vfsNameRoom)) =
      (vfs, some target) := by
    apply Prod.ext (tree.walk _ .root)
    rw [vfsLookup] at dir
    dsimp only at dir
    rw [take_of_length_le (by rw [length_map]; omega), if_neg (by rw [length_map]; omega)] at dir
    exact dir
  rw [vfsLookup] at missing
  dsimp only at missing
  rw [components, map_append, take_of_length_le (by simp; omega), if_neg (by simp; omega),
    vfsWalk_append, walked] at missing
  simp only [map_cons, map_nil, vfsWalk] at missing
  by_cases named : DotName entry.name
  · rw [← same] at missing
    rcases named with single | double
    · simp [single] at missing
    · simp [double] at missing
  · rw [← same, if_neg fun single => named (.inl single), if_neg fun double => named (.inr double)] at missing
    obtain ⟨child, _, found⟩ := tree.child_listed old directory listed named
    simp [found] at missing

/-- Moving returns, and changes nothing or moves an entry to a directory without the name. -/
theorem Tree.move_cases (spare : vfs.Spare) (grants : Nat → Bool) (src : CString)
    (short : (lookupComponents dest).length < 256) :
    ∃ after moved, vfsCoreMove grants vfs src dest = some (after, moved) ∧ (after = vfs ∨
      ∃ d p target, d < vfs.nextDentry ∧ d ≠ rootDentry ∧ (vfs.dentries d).parent = some p ∧
        (vfs.inodeOf target).type = vfsTypeDir ∧
        (∀ entry ∈ (vfs.inodeOf target).dirents, entry.name ≠ (vfsSplitParent dest).2) ∧
        Moved grants vfs d p target (vfsSplitParent dest).2 after) := by
  unfold vfsCoreMove
  by_cases equal : src = dest
  · exact ⟨vfs, false, if_pos equal, .inl rfl⟩
  rw [if_neg equal]
  rw [tree.lookup_eq src]
  rcases found : (vfsLookup vfs src).2 with _ | d
  · exact ⟨vfs, false, rfl, .inl rfl⟩
  have old := (tree.lookup_descends found).lt tree.wired
  dsimp only
  rcases link : (vfs.dentries d).parent with _ | p
  · exact ⟨vfs, false, rfl, .inl rfl⟩
  dsimp only
  by_cases refused : d = rootDentry ∨ (vfsSplitParent dest).2 = []
  · exact ⟨vfs, false, if_pos refused, .inl rfl⟩
  rw [if_neg refused, tree.lookup_eq (vfsSplitParent dest).1]
  rw [not_or] at refused
  rcases dir : (vfsLookup vfs (vfsSplitParent dest).1).2 with _ | target
  · exact ⟨vfs, false, rfl, .inl rfl⟩
  dsimp only
  by_cases directory : (vfs.inodeOf target).mode = vfsTypeDir
  · rw [if_neg (not_not.mpr directory), tree.lookup_eq dest]
    rcases missing : (vfsLookup vfs dest).2 with _ | existing
    · have below : vfsNormalize dest ≠ [dot] := fun root => refused.2 (by simp [vfsSplitParent, root])
      have kind : (vfs.inodeOf target).type = vfsTypeDir := by
        rw [VfsInode.type, directory]
        rfl
      obtain ⟨after, result, move, moved⟩ := tree.moveEntry spare grants old refused.1 link
        ((tree.lookup_descends dir).lt tree.wired) (vfsSplitParent_length dest)
      exact ⟨after, result, move, .inr ⟨d, p, target, old, refused.1, link, kind,
        tree.absent short below dir kind missing, moved⟩⟩
    · exact ⟨vfs, false, rfl, .inl rfl⟩
  · exact ⟨vfs, false, if_pos directory, .inl rfl⟩

lemma Tree.move (spare : vfs.Spare) (grants : Nat → Bool) (src : CString)
    (short : (lookupComponents dest).length < 256) :
    ∃ after moved, vfsCoreMove grants vfs src dest = some (after, moved) ∧ Tree after := by
  obtain ⟨after, result, move, rfl | ⟨d, p, target, old, below, link, _, absent, moved⟩⟩ :=
    tree.move_cases spare grants src short
  · exact ⟨after, result, move, tree⟩
  · exact ⟨after, result, move, tree.moved old below link (vfsSplitParent_length dest) absent moved⟩

end Changes

end Galio
