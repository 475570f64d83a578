import Mathlib.Data.List.Basic
import Galio.Fs.Vfs

/-! What the functions of the file system in memory do to its tables. -/

namespace Galio

open Function List Option Vfs Nat

variable {before after : Vfs} {d i child : Nat} {name : CString}

/-- Indices lead to inodes and dentries that were handed out, and sizes have 32 bits. -/
structure Wired (vfs : Vfs) : Prop where
  small : vfs.dataSize < 2 ^ 32
  inodeRoom : vfs.nextInode ≤ vfsMaxInodes
  dentryRoom : vfs.nextDentry ≤ vfsMaxDentries
  numbered : ∀ i, i < vfs.nextInode → (vfs.inodes i).number = i
  unnumbered : ∀ i, vfs.nextInode ≤ i → (vfs.inodes i).number = 0xFFFFFFFF
  rooted : rootDentry < vfs.nextDentry
  rootLoop : (vfs.dentries rootDentry).parent = some rootDentry
  inode : ∀ d, d < vfs.nextDentry → (vfs.dentries d).inode < vfs.nextInode
  parent : ∀ d p, (vfs.dentries d).parent = some p → p < vfs.nextDentry
  cached : ∀ slot entry, vfs.cache slot = some entry → entry < vfs.nextDentry
  listed : ∀ i, ∀ dirent ∈ (vfs.inodes i).dirents, dirent.inodeNumber < vfs.nextInode
  handles : ∀ fd i, (vfs.files fd).inode = some i → i < vfs.nextInode

/-- What a lookup may change: dentries are added and linked, and the cache. -/
structure Looked (before after : Vfs) : Prop where
  inodes : after.inodes = before.inodes
  files : after.files = before.files
  data : after.data = before.data
  hasData : after.hasData = before.hasData
  dataSize : after.dataSize = before.dataSize
  dataTop : after.dataTop = before.dataTop
  nextInode : after.nextInode = before.nextInode
  nextDentry : before.nextDentry ≤ after.nextDentry
  name : ∀ d, d < before.nextDentry → (after.dentries d).name = (before.dentries d).name
  parent : ∀ d, d < before.nextDentry → (after.dentries d).parent = (before.dentries d).parent
  inode : ∀ d, d < before.nextDentry → (after.dentries d).inode = (before.dentries d).inode

lemma Looked.refl (vfs : Vfs) : Looked vfs vfs :=
  ⟨rfl, rfl, rfl, rfl, rfl, rfl, rfl, Nat.le_refl _, fun _ _ => rfl, fun _ _ => rfl, fun _ _ => rfl⟩

lemma Looked.trans {mid : Vfs} (first : Looked before mid) (second : Looked mid after) :
    Looked before after where
  inodes := second.inodes.trans first.inodes
  files := second.files.trans first.files
  data := second.data.trans first.data
  hasData := second.hasData.trans first.hasData
  dataSize := second.dataSize.trans first.dataSize
  dataTop := second.dataTop.trans first.dataTop
  nextInode := second.nextInode.trans first.nextInode
  nextDentry := Nat.le_trans first.nextDentry second.nextDentry
  name := fun d old => (second.name d (Nat.lt_of_lt_of_le old first.nextDentry)).trans (first.name d old)
  parent := fun d old => (second.parent d (Nat.lt_of_lt_of_le old first.nextDentry)).trans (first.parent d old)
  inode := fun d old => (second.inode d (Nat.lt_of_lt_of_le old first.nextDentry)).trans (first.inode d old)

lemma Looked.inodeOf (looked : Looked before after)
    (old : d < before.nextDentry) : after.inodeOf d = before.inodeOf d := by
  rw [Vfs.inodeOf, Vfs.inodeOf, looked.inodes, looked.inode d old]

/-- The dentries that are reached from the root through directories. -/
inductive Descends (vfs : Vfs) : Nat → Prop where
  | root : Descends vfs rootDentry
  | child {p c : Nat} : Descends vfs p → (vfs.inodeOf p).type = vfsTypeDir →
      (vfs.dentries c).parent = some p → c < vfs.nextDentry → Descends vfs c

variable {dir entry inode number : Nat} {grants : Nat → Bool} {path : CString} {result : Option Nat} {vfs : Vfs}

lemma Descends.lt (wired : Wired vfs) (descends : Descends vfs d) : d < vfs.nextDentry := by
  cases descends with
  | root => exact wired.rooted
  | child _ _ _ old => exact old

lemma Descends.parent {p : Nat} (descends : Descends vfs d) (below : d ≠ rootDentry)
    (parent : (vfs.dentries d).parent = some p) : Descends vfs p ∧ (vfs.inodeOf p).type = vfsTypeDir := by
  cases descends with
  | root => exact absurd rfl below
  | child above directory link _ =>
    cases parent.symm.trans link
    exact ⟨above, directory⟩

lemma Descends.up (wired : Wired vfs) (descends : Descends vfs d) :
    Descends vfs ((vfs.dentries d).parent.getD d) := by
  cases above : (vfs.dentries d).parent with
  | none => exact descends
  | some p =>
    by_cases top : d = rootDentry
    · subst top
      cases above.symm.trans wired.rootLoop
      exact descends
    · exact (descends.parent top above).1

lemma Looked.descends (looked : Looked before after) (wired : Wired before)
    (descends : Descends before d) : Descends after d := by
  induction descends with
  | root => exact .root
  | child above directory link old ih =>
    refine .child ih ?_ ((looked.parent _ old).trans link) (Nat.lt_of_lt_of_le old looked.nextDentry)
    rw [looked.inodeOf (above.lt wired), directory]

section Setters

variable (wired : Wired vfs)
include wired

lemma Wired.setCache (slot : Nat) (old : entry < vfs.nextDentry) : Wired (vfs.setCache slot entry) where
  __ := wired
  cached := by
    intro other found cached
    simp only [Vfs.setCache, update_apply] at cached
    split at cached
    · cases cached
      exact old
    · exact wired.cached other found cached

lemma Wired.setDentry (d : Nat) {dentry : VfsDentry} (inode : d < vfs.nextDentry → dentry.inode < vfs.nextInode)
    (parent : ∀ p, dentry.parent = some p → p < vfs.nextDentry)
    (loops : d = rootDentry → dentry.parent = some rootDentry) : Wired (vfs.setDentry d dentry) where
  __ := wired
  rootLoop := by
    simp only [Vfs.setDentry, update_apply]
    split
    · rename_i here
      exact loops here.symm
    · exact wired.rootLoop
  inode := by
    intro other old
    simp only [Vfs.setDentry, update_apply]
    split
    · rename_i here
      exact inode (here ▸ old)
    · exact wired.inode other old
  parent := by
    intro other p link
    simp only [Vfs.setDentry, update_apply] at link
    split at link
    · exact parent p link
    · exact wired.parent other p link

lemma Wired.setInode (i : Nat) {inode : VfsInode} (number : inode.number = (vfs.inodes i).number)
    (listed : ∀ dirent ∈ inode.dirents, dirent.inodeNumber < vfs.nextInode) : Wired (vfs.setInode i inode) where
  __ := wired
  numbered := by
    intro j old
    simp only [Vfs.setInode, update_apply]
    split
    · rename_i here
      rw [number, ← here, wired.numbered j old]
    · exact wired.numbered j old
  unnumbered := by
    intro j new
    simp only [Vfs.setInode, update_apply]
    split
    · rename_i here
      rw [number, ← here, wired.unnumbered j new]
    · exact wired.unnumbered j new
  listed := by
    intro j
    simp only [Vfs.setInode, update_apply]
    split
    · exact listed
    · exact wired.listed j

lemma Wired.setFile (fd : Nat) {file : VfsFile}
    (inode : ∀ i, file.inode = some i → i < vfs.nextInode) : Wired (vfs.setFile fd file) where
  __ := wired
  handles := by
    intro other i handle
    simp only [Vfs.setFile, update_apply] at handle
    split at handle
    · exact inode i handle
    · exact wired.handles other i handle

lemma Wired.store (offset : Nat) (bytes : List UInt8) : Wired (vfs.store offset bytes) :=
  { wired with }

lemma Wired.setTop (top : Nat) : Wired { vfs with dataTop := top } := { wired with }

lemma Wired.allocInode (alloc : vfsAllocInode vfs = some (after, i)) : Wired after := by
  simp only [vfsAllocInode, ge_iff_le, ite_none_left_eq_some, some.injEq, Prod.mk.injEq] at alloc
  obtain ⟨room, rfl, rfl⟩ := alloc
  exact {
    __ := wired
    inodeRoom := Nat.not_le.mp room
    numbered := by
      intro j old
      simp only [Vfs.setInode, update_apply] at old ⊢
      split
      · rename_i here
        exact here.symm
      · exact wired.numbered j (by omega)
    unnumbered := by
      intro j new
      simp only [Vfs.setInode, update_apply] at new ⊢
      rw [if_neg (by omega)]
      exact wired.unnumbered j (by omega)
    inode := fun d old => lt_succ_of_lt (wired.inode d old)
    listed := by
      intro j dirent mem
      simp only [Vfs.setInode, update_apply] at mem
      split at mem
      · simp at mem
      · exact lt_succ_of_lt (wired.listed j dirent mem)
    handles := fun fd j handle => lt_succ_of_lt (wired.handles fd j handle) }

end Setters

lemma mem_probes {idx slot : Nat} : slot ∈ probes idx ↔ slot < vfsMaxDentryCache := by
  simp only [probes, List.mem_map, mem_range]
  constructor
  · rintro ⟨probe, _, rfl⟩
    exact mod_lt _ (by decide)
  · intro below
    -- The slot is met on the way once around the table.
    refine ⟨(slot + vfsMaxDentryCache - idx % vfsMaxDentryCache) % vfsMaxDentryCache, mod_lt _ (by decide), ?_⟩
    simp only [vfsMaxDentryCache] at *
    omega

lemma vfsCacheLookup_some {parent : Nat} (found : vfsCacheLookup vfs parent name = some child) :
    (∃ slot < vfsMaxDentryCache, vfs.cache slot = some child) ∧
      (vfs.dentries child).parent = some parent ∧ (vfs.dentries child).name = name := by
  obtain ⟨slot, probed, filtered⟩ := exists_of_findSome?_eq_some found
  obtain ⟨cached, named⟩ := filter_eq_some_iff.mp filtered
  simp only [Vfs.named, Bool.and_eq_true, beq_iff_eq] at named
  exact ⟨⟨slot, mem_probes.mp probed, cached⟩, named⟩

lemma vfsCacheLookup_none {parent : Nat} : vfsCacheLookup vfs parent name = none ↔
      ∀ slot child, slot < vfsMaxDentryCache → vfs.cache slot = some child →
        ¬((vfs.dentries child).parent = some parent ∧ (vfs.dentries child).name = name) := by
  simp only [vfsCacheLookup, findSome?_eq_none_iff, mem_probes, filter_eq_none_iff, named,
    Bool.and_eq_true, beq_iff_eq]
  exact ⟨fun every slot child below cached => every slot below child cached,
    fun every slot below child cached => every slot child below cached⟩

lemma vfsCacheInsert_eq (vfs : Vfs) (entry : Nat) : ∃ slot < vfsMaxDentryCache,
    vfsCacheInsert vfs entry = vfs.setCache slot entry ∧
    ((∃ free < vfsMaxDentryCache, (vfs.cache free = none ∨ vfs.cache free = some entry)) →
      vfs.cache slot = none ∨ vfs.cache slot = some entry) := by
  unfold vfsCacheInsert
  dsimp only
  have hashed : vfsHashDentry ((vfs.dentries entry).parent.map fun p => (vfs.inodeOf p).number)
    (vfs.dentries entry).name < vfsMaxDentryCache := mod_lt _ (by decide)
  generalize vfsHashDentry ((vfs.dentries entry).parent.map fun p => (vfs.inodeOf p).number)
    (vfs.dentries entry).name = idx at hashed ⊢
  cases found : (probes idx).find? fun slot => vfs.cache slot == none || vfs.cache slot == some entry with
  | some slot =>
    have fits := find?_some found
    refine ⟨slot, mem_probes.mp (mem_of_find?_eq_some found), rfl, fun _ => ?_⟩
    simpa using fits
  | none =>
    refine ⟨idx, hashed, rfl, fun ⟨free, below, empty⟩ => ?_⟩
    have full := find?_eq_none.mp found free (mem_probes.mpr below)
    rcases empty with empty | empty <;> simp [empty] at full

lemma vfsCacheInsert_keeps (vfs : Vfs) (entry : Nat)
    (room : ∃ free < vfsMaxDentryCache, (vfs.cache free = none ∨ vfs.cache free = some entry)) :
    (∀ slot e, vfs.cache slot = some e → (vfsCacheInsert vfs entry).cache slot = some e) ∧
      ∃ slot < vfsMaxDentryCache, (vfsCacheInsert vfs entry).cache slot = some entry := by
  obtain ⟨slot, below, inserted, chosen⟩ := vfsCacheInsert_eq vfs entry
  rw [inserted]
  refine ⟨fun other e cached => ?_, slot, below, by simp [setCache]⟩
  simp only [setCache, update_apply]
  split
  · rename_i here
    subst here
    rcases chosen room with empty | same
    · exact absurd (empty.symm.trans cached) (by simp)
    · exact same.symm.trans cached
  · exact cached

lemma Wired.isDirectory (wired : Wired vfs) (old : i < vfs.nextInode) :
    vfsCoreIsDirectory vfs (vfs.inodes i).number = ((vfs.inodes i).type == vfsTypeDir) := by
  have room := wired.inodeRoom
  have only : ∀ j, ((vfs.inodes j).number == (vfs.inodes i).number) ↔ j = i := by
    intro j
    rw [beq_iff_eq, wired.numbered i old]
    constructor
    · intro same
      by_cases below : j < vfs.nextInode
      · rwa [wired.numbered j below] at same
      · rw [wired.unnumbered j (Nat.not_lt.mp below)] at same
        simp only [vfsMaxInodes] at room
        omega
    · rintro rfl
      exact wired.numbered j old
  unfold vfsCoreIsDirectory
  cases found : (range vfsMaxInodes).find? fun j => (vfs.inodes j).number == (vfs.inodes i).number with
  | some j =>
    have same := find?_some found
    simp only [(only j).mp same]
  | none =>
    have missing := find?_eq_none.mp found i (mem_range.mpr (Nat.lt_of_lt_of_le old room))
    exact absurd ((only i).mpr rfl) missing

lemma Wired.cacheInsert (wired : Wired vfs) (old : entry < vfs.nextDentry) : Wired (vfsCacheInsert vfs entry) := by
  obtain ⟨slot, _, inserted, _⟩ := vfsCacheInsert_eq vfs entry
  rw [inserted]
  exact wired.setCache slot old

lemma Wired.linkChild (wired : Wired vfs) {parent : Nat} (above : parent < vfs.nextDentry)
    (below : child < vfs.nextDentry) (apart : child ≠ rootDentry) : Wired (vfsLinkChild vfs parent child) := by
  have linked : Wired (vfs.setDentry child { vfs.dentries child with
      parent := some parent, nextSibling := (vfs.dentries parent).firstChild }) :=
    wired.setDentry child (fun _ => wired.inode child below) (fun p link => some.inj link ▸ above)
      fun here => absurd here apart
  refine Wired.cacheInsert (linked.setDentry parent ?_ ?_ ?_) below
  · exact fun _ => linked.inode parent above
  · exact linked.parent parent
  · rintro rfl
    exact linked.rootLoop

lemma vfsLinkChild_dentries (vfs : Vfs) (parent child d : Nat) :
    (vfsLinkChild vfs parent child).dentries d = { vfs.dentries d with
      parent := if d = child then some parent else (vfs.dentries d).parent
      nextSibling := if d = child then (vfs.dentries parent).firstChild else (vfs.dentries d).nextSibling
      firstChild := if d = parent then some child else (vfs.dentries d).firstChild } := by
  simp only [vfsLinkChild, adopt, vfsCacheInsert, setCache, setDentry, update_apply]
  by_cases below : d = child <;> by_cases above : d = parent
  · subst below above
    simp
  · subst below
    simp [above]
  · subst above
    simp [below]
  · simp [below, above]

lemma vfsCreateDentry_eq {parent : Nat}
    (above : parent < vfs.nextDentry) (made : vfsCreateDentry vfs parent name inode = some (after, child)) :
    child = vfs.nextDentry ∧ vfs.nextDentry < vfsMaxDentries ∧ after.nextDentry = vfs.nextDentry + 1 ∧
      ∀ d, after.dentries d = if d = parent then { vfs.dentries parent with firstChild := some child }
        else if d = child then
          ⟨name.take vfsNameRoom, some parent, none, (vfs.dentries parent).firstChild, inode⟩
        else vfs.dentries d := by
  simp only [vfsCreateDentry, ge_iff_le, ite_none_left_eq_some, some.injEq, Prod.mk.injEq] at made
  obtain ⟨room, rfl, rfl⟩ := made
  have apart : parent ≠ vfs.nextDentry := Nat.ne_of_lt above
  refine ⟨rfl, Nat.not_le.mp room, rfl, fun d => ?_⟩
  show (vfsLinkChild _ parent vfs.nextDentry).dentries d = _
  rw [vfsLinkChild_dentries]
  simp only [addDentry, setDentry, update_apply, apart, ite_false]
  by_cases above : d = parent
  · subst above
    simp [apart]
  · by_cases new : d = vfs.nextDentry <;> simp [above, new, apart.symm]

lemma vfsCreateDentry_looked {parent : Nat} (above : parent < vfs.nextDentry)
    (made : vfsCreateDentry vfs parent name inode = some (after, child)) : Looked vfs after := by
  obtain ⟨rfl, _, next, dentries⟩ := vfsCreateDentry_eq above made
  simp only [vfsCreateDentry, ge_iff_le, ite_none_left_eq_some, some.injEq, Prod.mk.injEq] at made
  obtain ⟨_, rfl, _⟩ := made
  have kept : ∀ d < vfs.nextDentry, d ≠ vfs.nextDentry := fun d old => Nat.ne_of_lt old
  refine ⟨rfl, rfl, rfl, rfl, rfl, rfl, rfl, by omega, ?_, ?_, ?_⟩ <;>
  · intro d old
    rw [dentries, if_neg (kept d old)]
    split
    · rename_i here
      rw [here]
    · rfl

lemma Wired.createDentry (wired : Wired vfs) {parent : Nat}
    (above : parent < vfs.nextDentry) (old : inode < vfs.nextInode)
    (made : vfsCreateDentry vfs parent name inode = some (after, child)) : Wired after := by
  simp only [vfsCreateDentry, ge_iff_le, ite_none_left_eq_some, some.injEq, Prod.mk.injEq] at made
  obtain ⟨room, rfl, rfl⟩ := made
  have fresh : Wired (vfs.setDentry vfs.nextDentry ⟨name.take vfsNameRoom, none, none, none, inode⟩) :=
    wired.setDentry vfs.nextDentry (fun _ => old) fun p link => by simp at link
      fun here => absurd here.symm (Nat.ne_of_lt wired.rooted)
  have counted : Wired (vfs.addDentry name inode) := {
    __ := fresh
    dentryRoom := Nat.not_le.mp room
    rooted := succ_pos _
    inode := by
      intro d below
      simp only [Vfs.addDentry, Vfs.setDentry, update_apply] at below ⊢
      split
      · exact old
      · exact wired.inode d (by omega)
    parent := fun d p link => lt_succ_of_lt (fresh.parent d p link)
    cached := fun slot entry cached => lt_succ_of_lt (wired.cached slot entry cached) }
  have last : vfs.nextDentry < vfs.nextDentry + 1 := lt_succ_self _
  exact (counted.linkChild (Nat.lt_succ_of_lt above) last (Nat.ne_of_gt wired.rooted)).cacheInsert last

lemma Wired.find (wired : Wired vfs) (found : vfsFindInodeInDir (vfs.inodes i) name = some number) :
    number < vfs.nextInode ∧ ∃ dirent ∈ (vfs.inodes i).dirents, dirent.name = name ∧ dirent.inodeNumber = number := by
  obtain ⟨mapped, _⟩ := filter_eq_some_iff.mp found
  obtain ⟨dirent, hit, rfl⟩ := map_eq_some_iff.mp mapped
  have mem := mem_of_find?_eq_some hit
  exact ⟨wired.listed i dirent mem, dirent, mem, by simpa using find?_some hit, rfl⟩

lemma Wired.find_none (wired : Wired vfs) (missing : vfsFindInodeInDir (vfs.inodes i) name = none) :
    ∀ dirent ∈ (vfs.inodes i).dirents, dirent.name ≠ name := by
  intro dirent listed same
  have room := wired.inodeRoom
  unfold vfsFindInodeInDir at missing
  cases hit : vfsFindDirent (vfs.inodes i) name with
  | none =>
    have different := find?_eq_none.mp hit dirent listed
    simp [same] at different
  | some found =>
    have old := wired.listed i found (mem_of_find?_eq_some hit)
    rw [hit, map_some, filter_some, if_pos (by simpa using Nat.lt_of_lt_of_le old room)] at missing
    simp at missing

lemma vfsChild_spec (wired : Wired vfs) {current : Nat} (descends : Descends vfs current) (component : CString) :
    Wired (vfsChild vfs current component).1 ∧ Looked vfs (vfsChild vfs current component).1 ∧
      ∀ child, (vfsChild vfs current component).2 = some child →
        Descends (vfsChild vfs current component).1 child := by
  have old := descends.lt wired
  have unchanged : ∀ found : Option Nat, (∀ child, found = some child → Descends vfs child) →
      Wired (vfs, found).1 ∧ Looked vfs (vfs, found).1 ∧
        ∀ child, (vfs, found).2 = some child → Descends (vfs, found).1 child :=
    fun found reached => ⟨wired, Looked.refl vfs, reached⟩
  unfold vfsChild
  split
  · exact unchanged none (by simp)
  rename_i directory
  have directory : (vfs.inodeOf current).type = vfsTypeDir := by
    rw [inodeOf, wired.isDirectory (wired.inode current old)] at directory
    simpa [inodeOf] using directory
  cases cached : vfsCacheLookup vfs current component with
  | some child =>
    obtain ⟨⟨slot, _, here⟩, link, _⟩ := vfsCacheLookup_some cached
    refine unchanged (some child) fun other same => ?_
    cases same
    exact .child descends directory link (wired.cached slot child here)
  | none =>
    cases found : vfsFindInodeInDir (vfs.inodeOf current) component with
    | none => exact unchanged none (by simp)
    | some inode =>
      cases made : vfsCreateDentry vfs current component inode with
      | none =>
        simp only [made]
        exact unchanged none (by simp)
      | some pair =>
        obtain ⟨after, child⟩ := pair
        have looked := vfsCreateDentry_looked old made
        obtain ⟨rfl, _, next, dentries⟩ := vfsCreateDentry_eq old made
        simp only [made]
        refine ⟨wired.createDentry old (wired.find found).1 made, looked, fun other same => ?_⟩
        cases same
        refine .child (looked.descends wired descends) ?_ ?_ (by omega)
        · rw [looked.inodeOf old, directory]
        · rw [dentries, if_neg (Nat.ne_of_gt old), if_pos rfl]

lemma vfsWalk_spec (components : List CString) : ∀ {vfs : Vfs} {current : Nat}, Wired vfs → Descends vfs current →
    Wired (vfsWalk vfs current components).1 ∧ Looked vfs (vfsWalk vfs current components).1 ∧
      ∀ d, (vfsWalk vfs current components).2 = some d → Descends (vfsWalk vfs current components).1 d := by
  induction components with
  | nil =>
    intro vfs current wired descends
    refine ⟨wired, Looked.refl vfs, fun d same => ?_⟩
    cases same
    exact descends
  | cons component rest ih =>
    intro vfs current wired descends
    rw [vfsWalk]
    split
    · exact ih wired descends
    split
    · exact ih wired (descends.up wired)
    obtain ⟨kept, looked, reached⟩ := vfsChild_spec wired descends component
    rcases made : vfsChild vfs current component with ⟨after, _ | child⟩
    · rw [made] at kept looked
      exact ⟨kept, looked, by simp⟩
    · rw [made] at kept looked reached
      obtain ⟨wired', looked', reached'⟩ := ih kept (reached child rfl)
      exact ⟨wired', looked.trans looked', reached'⟩

lemma vfsLookup_spec (wired : Wired vfs) (found : vfsLookup vfs path = (after, result)) :
    Wired after ∧ Looked vfs after ∧ ∀ d, result = some d → Descends after d := by
  cases found
  obtain ⟨kept, looked, reached⟩ := vfsWalk_spec
    (((lookupComponents path).map (·.take vfsNameRoom)).take 256) wired .root
  refine ⟨kept, looked, fun d found => reached d ?_⟩
  simp only [ite_none_left_eq_some] at found
  exact found.2

/-- The states that lookups lead to. -/
inductive LookedUp (vfs : Vfs) : Vfs → Prop where
  | refl : LookedUp vfs vfs
  | lookup {after : Vfs} (path : CString) : LookedUp vfs after → LookedUp vfs (vfsLookup after path).1

lemma LookedUp.spec (lookups : LookedUp vfs after) (wired : Wired vfs) : Wired after ∧ Looked vfs after := by
  induction lookups with
  | refl => exact ⟨wired, Looked.refl vfs⟩
  | lookup path _ ih =>
    obtain ⟨kept, looked, _⟩ := vfsLookup_spec ih.1 (rfl : vfsLookup _ path = _)
    exact ⟨kept, ih.2.trans looked⟩

lemma LookedUp.found (lookups : LookedUp vfs before)
    (found : vfsLookup before path = (after, result)) : LookedUp vfs after := by
  have next := lookups.lookup path
  rwa [found] at next

lemma vfsDirentAdd_cases {added : Bool}
    (entry : vfsDirentAdd grants vfs dir name number = (after, added)) : (added = false ∧ after = vfs) ∨
      (added = true ∧ ∃ capacity, ((vfs.inodes dir).dirents.length ≤ (vfs.inodes dir).direntCapacity →
          (vfs.inodes dir).dirents.length + 1 ≤ capacity) ∧ after = vfs.setInode dir { (vfs.inodes dir).setDirents
          ((vfs.inodes dir).dirents ++ [⟨number, name.take vfsNameRoom⟩]) with direntCapacity := capacity }) := by
  unfold vfsDirentAdd vfsReserveDirents at entry
  dsimp only at entry
  by_cases room : (vfs.inodes dir).dirents.length + 1 ≤ (vfs.inodes dir).direntCapacity
  · rw [if_pos room] at entry
    cases entry
    exact .inr ⟨rfl, _, fun _ => room, rfl⟩
  · rw [if_neg room] at entry
    cases granted : grants dir with
    | false =>
      rw [granted] at entry
      cases entry
      exact .inl ⟨rfl, rfl⟩
    | true =>
      rw [granted] at entry
      cases entry
      refine .inr ⟨rfl, if (vfs.inodes dir).direntCapacity ≠ 0 then (vfs.inodes dir).direntCapacity * 2 else 32,
        fun within => ?_, ?_⟩
      · split <;> omega
      · simp [setInode, VfsInode.setDirents]

lemma vfsDirentAdd_room (grants : Nat → Bool) (vfs : Vfs) (name : CString) (number : Nat)
    (room : (vfs.inodes dir).dirents.length + 1 ≤ (vfs.inodes dir).direntCapacity) :
    vfsDirentAdd grants vfs dir name number = (vfs.setInode dir ((vfs.inodes dir).setDirents
      ((vfs.inodes dir).dirents ++ [⟨number, name.take vfsNameRoom⟩])), true) := by
  unfold vfsDirentAdd vfsReserveDirents
  rw [if_pos room]

lemma vfsDirentRemove_cases {found : Bool}
    (erased : vfsDirentRemove vfs dir name = (after, found)) : (found = false ∧ after = vfs) ∨
      (found = true ∧ (∃ dirent ∈ (vfs.inodes dir).dirents, dirent.name = name) ∧
        after = vfs.setInode dir ((vfs.inodes dir).setDirents
          ((vfs.inodes dir).dirents.eraseP fun dirent => dirent.name == name))) := by
  unfold vfsDirentRemove at erased
  dsimp only at erased
  split at erased
  all_goals cases erased
  · rename_i listed
    exact .inr ⟨rfl, by simpa using listed, rfl⟩
  · exact .inl ⟨rfl, rfl⟩

/-- The end of a call that makes a node: the inode is entered and linked to a dentry. -/
inductive Entered (grants : Nat → Bool) (name : CString) (parent i : Nat) (ready : Vfs) : Vfs → Prop where
  | refused : Entered grants name parent i ready ready
  | unlinked {entered : Vfs} :
      vfsDirentAdd grants ready (ready.dentries parent).inode name i = (entered, true) →
      vfsCreateDentry entered parent name i = none → Entered grants name parent i ready entered
  | linked {entered after : Vfs} {child : Nat} :
      vfsDirentAdd grants ready (ready.dentries parent).inode name i = (entered, true) →
      vfsCreateDentry entered parent name i = some (after, child) → Entered grants name parent i ready after

/-- The name under which a path is entered in a directory. -/
def entryName (path : CString) : CString := (vfsSplitParent (vfsNormalize path)).2

lemma entered_of_match (grants : Nat → Bool) (name : CString) (parent i : Nat) (ready : Vfs) :
    Entered grants name parent i ready (match vfsDirentAdd grants ready (ready.dentries parent).inode name i with
        | (vfs, false) => ((vfs, none) : Vfs × Option Nat)
        | (vfs, true) =>
          match vfsCreateDentry vfs parent name i with
          | none => (vfs, none)
          | some (vfs, child) => (vfs, some child)).1 := by
  rcases added : vfsDirentAdd grants ready (ready.dentries parent).inode name i with ⟨entered, _ | _⟩
  · obtain ⟨_, rfl⟩ | ⟨⟨⟩, _⟩ := vfsDirentAdd_cases added
    exact .refused
  · dsimp only
    rcases made : vfsCreateDentry entered parent name i with _ | ⟨after, child⟩
    · exact .unlinked added made
    · exact .linked added made

lemma vfsMakeNode_cases (wired : Wired vfs) (grants : Nat → Bool) (path : CString) (mode : UInt32)
    (bytes : Option (List UInt8)) (size : Nat) (force : Bool) : ∃ looked, LookedUp vfs looked ∧
      ((vfsMakeNode grants vfs path mode bytes size force).1 = looked ∨
        ∃ parent, vfsLookup vfs (vfsSplitParent (vfsNormalize path)).1 = (looked, some parent) ∧
          Descends looked parent ∧ (looked.inodeOf parent).type = vfsTypeDir ∧
          ((∃ existing, vfsFindInodeInDir (looked.inodeOf parent) (entryName path) = some existing ∧
              (looked.inodes existing).mode ≠ vfsTypeDir ∧ force ∧ vfsRemakeNode looked existing mode bytes size =
                some (vfsMakeNode grants vfs path mode bytes size force).1) ∨
            (vfsFindInodeInDir (looked.inodeOf parent) (entryName path) = none ∧
              ∃ fresh i, vfsAllocInode looked = some (fresh, i) ∧
                Entered grants (entryName path) parent i (vfsFillNode fresh i mode bytes size).1
                  (vfsMakeNode grants vfs path mode bytes size force).1))) := by
  unfold vfsMakeNode entryName
  dsimp only
  rcases found : vfsLookup vfs (vfsSplitParent (vfsNormalize path)).1 with ⟨after, _ | parent⟩
  all_goals refine ⟨after, .found .refl found, ?_⟩
  · exact .inl rfl
  obtain ⟨_, _, reached⟩ := vfsLookup_spec wired found
  dsimp only
  split
  · exact .inl rfl
  rename_i directory
  rw [not_not] at directory
  cases entry : vfsFindInodeInDir (after.inodeOf parent) (vfsSplitParent (vfsNormalize path)).2 with
  | some existing =>
    dsimp only
    split
    · exact .inl rfl
    rename_i allowed
    rw [not_or] at allowed
    cases remade : vfsRemakeNode after existing mode bytes size with
    | none => exact .inl rfl
    | some _ =>
      exact .inr ⟨parent, rfl, reached parent rfl, directory,
        .inl ⟨existing, entry, allowed.1, by simpa using allowed.2, remade⟩⟩
  | none =>
    rcases _ : vfsAllocInode after with _ | ⟨fresh, i⟩
    · exact .inl rfl
    refine .inr ⟨parent, rfl, reached parent rfl, directory, .inr ⟨entry, fresh, i, rfl, ?_⟩⟩
    dsimp only
    rcases _ : vfsFillNode fresh i mode bytes size with ⟨ready, _ | _⟩
    · exact .refused
    · exact entered_of_match grants _ parent i ready

lemma vfsMakeDirectory_cases (wired : Wired vfs) (grants : Nat → Bool) (path : CString) :
    ∃ looked, LookedUp vfs looked ∧ ((vfsMakeDirectory grants vfs path).1 = looked ∨
        ∃ parent, vfsLookup vfs (vfsSplitParent (vfsNormalize path)).1 = (looked, some parent) ∧
          Descends looked parent ∧ (looked.inodeOf parent).type = vfsTypeDir ∧
          vfsFindDirent (looked.inodeOf parent) (entryName path) = none ∧
          ∃ fresh i, vfsAllocInode looked = some (fresh, i) ∧ Entered grants (entryName path) parent i
              (vfsPrepareDirectory grants fresh i (fresh.inodeOf parent).number)
              (vfsMakeDirectory grants vfs path).1) := by
  unfold vfsMakeDirectory entryName
  dsimp only
  split
  · exact ⟨_, .refl, .inl rfl⟩
  rcases found : vfsLookup vfs (vfsSplitParent (vfsNormalize path)).1 with ⟨after, _ | parent⟩
  all_goals refine ⟨after, .found .refl found, ?_⟩
  · exact .inl rfl
  obtain ⟨_, _, reached⟩ := vfsLookup_spec wired found
  dsimp only
  split
  · exact .inl rfl
  rename_i directory
  rw [not_not] at directory
  split
  · split <;> exact .inl rfl
  rename_i absent
  rcases _ : vfsAllocInode after with _ | ⟨fresh, i⟩
  · exact .inl rfl
  exact .inr ⟨parent, rfl, reached parent rfl, directory, by simpa using absent, fresh, i, rfl,
    entered_of_match grants _ parent i _⟩

/-- What removing a name does: lookups, and at most one entry goes and its node is adjusted. -/
inductive Removes (vfs : Vfs) : Vfs → Prop
  | nothing {looked : Vfs} : LookedUp vfs looked → Removes vfs looked
  | entry {looked removed : Vfs} {d parent : Nat} {links mode : UInt32} : LookedUp vfs looked →
      Descends looked d → d ≠ rootDentry → (looked.dentries d).parent = some parent →
      vfsDirentRemove looked (looked.dentries parent).inode (looked.dentries d).name = (removed, true) →
      (mode = 0 ∨ mode = (removed.inodeOf d).mode) →
      Removes vfs (removed.setInode (removed.dentries d).inode
        { removed.inodeOf d with linkCount := links, mode := mode })

lemma vfsCoreUnlink_removes (wired : Wired vfs) (path : CString) : Removes vfs (vfsCoreUnlink vfs path).1 := by
  unfold vfsCoreUnlink
  rcases found : vfsLookup vfs path with ⟨after, _ | d⟩
  all_goals
    have lookups : LookedUp vfs after := .found .refl found
    obtain ⟨_, _, reached⟩ := vfsLookup_spec wired found
  · exact .nothing lookups
  dsimp only
  cases link : (after.dentries d).parent with
  | none => exact .nothing lookups
  | some parent =>
    dsimp only
    split
    · exact .nothing lookups
    rename_i allowed
    rw [not_or] at allowed
    rcases erased : vfsDirentRemove after (after.dentries parent).inode (after.dentries d).name with
      ⟨removed, _ | _⟩
    · obtain ⟨_, rfl⟩ | ⟨⟨⟩, _⟩ := vfsDirentRemove_cases erased
      exact .nothing lookups
    · refine .entry lookups (reached d rfl) allowed.2 link erased ?_
      split
      · exact .inl rfl
      · exact .inr rfl

lemma vfsCoreRmdir_removes (wired : Wired vfs) (path : CString) : Removes vfs (vfsCoreRmdir vfs path).1 := by
  unfold vfsCoreRmdir
  rcases found : vfsLookup vfs path with ⟨after, _ | d⟩
  all_goals
    have lookups : LookedUp vfs after := .found .refl found
    obtain ⟨_, _, reached⟩ := vfsLookup_spec wired found
  · exact .nothing lookups
  dsimp only
  split
  · exact .nothing lookups
  rename_i allowed
  rw [not_or] at allowed
  split
  · exact .nothing lookups
  cases link : (after.dentries d).parent with
  | none => exact .nothing lookups
  | some parent =>
    dsimp only
    rcases erased : vfsDirentRemove after (after.dentries parent).inode (after.dentries d).name with
      ⟨removed, _ | _⟩
    · obtain ⟨_, rfl⟩ | ⟨⟨⟩, _⟩ := vfsDirentRemove_cases erased
      exact .nothing lookups
    · exact .entry lookups (reached d rfl) allowed.2 link erased (.inl rfl)

lemma vfsCoreMove_cases {moved : Bool} (wired : Wired vfs) {src dest : CString}
    (move : vfsCoreMove grants vfs src dest = some (after, moved)) : LookedUp vfs after ∨
      ∃ first second looked d srcParent target, LookedUp vfs looked ∧
        vfsLookup vfs src = (first, some d) ∧ vfsLookup first (vfsSplitParent dest).1 = (second, some target) ∧
        vfsLookup second dest = (looked, none) ∧
        Descends looked d ∧ d ≠ rootDentry ∧ (looked.dentries d).parent = some srcParent ∧
        Descends looked target ∧ (looked.inodeOf target).mode = vfsTypeDir ∧ (vfsSplitParent dest).2 ≠ [] ∧
        vfsMoveEntry grants looked d srcParent target (vfsSplitParent dest).2 = some (after, moved) := by
  unfold vfsCoreMove at move
  split at move
  · cases move
    exact .inl .refl
  rcases found1 : vfsLookup vfs src with ⟨first, _ | d⟩
  all_goals
    rw [found1] at move
    dsimp only at move
    obtain ⟨wired1, _, reached1⟩ := vfsLookup_spec wired found1
    have lookups1 : LookedUp vfs first := .found .refl found1
  · cases move
    exact .inl lookups1
  have descends := reached1 d rfl
  cases link : (first.dentries d).parent with
  | none =>
    rw [link] at move
    cases move
    exact .inl lookups1
  | some srcParent =>
    rw [link] at move
    dsimp only at move
    split at move
    · cases move
      exact .inl lookups1
    rename_i allowed
    rw [not_or] at allowed
    rcases found2 : vfsLookup first (vfsSplitParent dest).1 with ⟨second, _ | target⟩
    all_goals
      rw [found2] at move
      dsimp only at move
      obtain ⟨wired2, looked2, reached2⟩ := vfsLookup_spec wired1 found2
      have lookups2 := lookups1.found found2
    · cases move
      exact .inl lookups2
    split at move
    · cases move
      exact .inl lookups2
    rename_i directory
    rw [not_not] at directory
    rcases found3 : vfsLookup second dest with ⟨third, _ | existing⟩
    all_goals
      rw [found3] at move
      have lookups3 := lookups2.found found3
    · obtain ⟨_, looked3, _⟩ := vfsLookup_spec wired2 found3
      have reached := reached2 target rfl
      have later := looked2.trans looked3
      refine .inr ⟨first, second, third, d, srcParent, target, lookups3, rfl, found2, found3,
        later.descends wired1 descends, allowed.1, ?_, looked3.descends wired2 reached, ?_, allowed.2, move⟩
      · rw [later.parent d (descends.lt wired1), link]
      · rw [looked3.inodeOf (reached.lt wired2), directory]
    · cases move
      exact .inl lookups3

end Galio
