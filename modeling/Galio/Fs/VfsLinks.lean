import Mathlib.Data.Finite.Prod
import Galio.Fs.VfsReachable
import Galio.Lib.Recursion

/-! Following the symbolic links of the file system in memory. -/

namespace Galio

open Recursion Relation Set

/-- `vfs_core_read_path` in memory: the bytes copied, with no result if links are left to follow after a bound. -/
def vfsCoreReadPath : Nat → Vfs → CString → Nat → Option (Vfs × List UInt8)
  | 0, _, _, _ => none
  | links + 1, vfs, path, size =>
    match vfsLookup vfs path with
    | (vfs, none) => some (vfs, [])
    | (vfs, some d) =>
      let inode := vfs.inodeOf d
      if inode.type = vfsTypeSymlink then
        match vfsCoreReadlink vfs path with
        | (vfs, none) => some (vfs, [])
        | (vfs, some target) => vfsCoreReadPath links vfs target size
      else if inode.type ≠ vfsTypeFile ∨ min size inode.size = 0 ∨ inode.block = vfsInvalidOffset then some (vfs, [])
      else some (vfs, vfs.load inode.block (min size inode.size))

/-- The edges of the link graph: a path that names a link leads to the text of the link, with the names looked up. -/
def linkTarget (here : Vfs × CString) : Option (Vfs × CString) :=
  match vfsLookup here.1 here.2 with
  | (_, none) => none
  | (looked, some d) =>
    if (looked.inodeOf d).type = vfsTypeSymlink then
      match vfsCoreReadlink looked here.2 with
      | (_, none) => none
      | (read, some target) => some (read, target)
    else none

/-- The text in an inode. -/
def Vfs.linkText (vfs : Vfs) (i : Nat) : CString :=
  (vfs.load (vfs.inodes i).block (min (vfs.inodes i).size vfsPathRoom)).takeWhile fun byte => byte ≠ 0

variable {vfs after : Vfs} {here there : Vfs × CString}

/-- A step along a component makes a dentry or changes nothing. -/
theorem vfsChild_grows (vfs : Vfs) (current : Nat) (component : CString) : (vfsChild vfs current component).1 = vfs ∨
    (vfsChild vfs current component).1.nextDentry = vfs.nextDentry + 1 := by
  unfold vfsChild vfsCreateDentry
  split
  · exact .inl rfl
  split
  · exact .inl rfl
  split
  · exact .inl rfl
  by_cases full : vfs.nextDentry ≥ vfsMaxDentries
  · simp [full]
  · simp only [full, ite_false]
    exact .inr rfl

/-- A walk that makes no dentry changes nothing. -/
theorem vfsWalk_grows (components : List CString) : ∀ (vfs : Vfs) (current : Nat),
    (vfsWalk vfs current components).1 = vfs ∨ vfs.nextDentry < (vfsWalk vfs current components).1.nextDentry := by
  induction components with
  | nil => exact fun _ _ => .inl rfl
  | cons component rest ih =>
    intro vfs current
    rw [vfsWalk]
    split
    · exact ih vfs current
    split
    · exact ih vfs _
    have child := vfsChild_grows vfs current component
    rcases made : vfsChild vfs current component with ⟨after, _ | next⟩
    · rw [made] at child
      exact child.imp_right fun grown => by dsimp only at grown ⊢; omega
    · rw [made] at child
      dsimp only at child ⊢
      rcases child with rfl | grown
      · exact ih _ next
      · rcases ih after next with same | more
        · exact .inr (by rw [same]; omega)
        · exact .inr (by omega)

/-- So do lookups that make none. -/
theorem LookedUp.grows (lookups : LookedUp vfs after) : after = vfs ∨ vfs.nextDentry < after.nextDentry := by
  induction lookups with
  | refl => exact .inl rfl
  | @lookup mid path _ ih =>
    have walk : (vfsLookup mid path).1 = mid ∨ mid.nextDentry < (vfsLookup mid path).1.nextDentry :=
      vfsWalk_grows _ mid rootDentry
    rcases walk with same | more
    · rwa [same]
    · rcases ih with rfl | grown
      · exact .inr more
      · exact .inr (grown.trans more)

/-- What a step to a link's target is: lookups, and the text of some inode. -/
theorem linkTarget_some (wired : Wired here.1) (next : linkTarget here = some there) : LookedUp here.1 there.1 ∧
    ∃ i < here.1.nextInode, there.2 = here.1.linkText i := by
  unfold linkTarget at next
  rcases found : vfsLookup here.1 here.2 with ⟨looked, _ | d⟩
  · simp [found] at next
  rcases read : vfsCoreReadlink looked here.2 with ⟨after, _ | target⟩
  · simp [found, read] at next
  simp only [found, read, Option.ite_none_right_eq_some, Option.some.injEq] at next
  obtain ⟨-, rfl⟩ := next
  have lookups : LookedUp here.1 looked := .found .refl found
  refine ⟨lookups.readlink read, ?_⟩
  -- The text is read after a second lookup, which leaves the inodes and the data alone too.
  rcases again : vfsLookup looked here.2 with ⟨last, _ | e⟩
  · simp [vfsCoreReadlink, again] at read
  simp only [vfsCoreReadlink, again] at read
  split at read
  · simp at read
  obtain ⟨rfl, rfl⟩ := by simpa using read
  obtain ⟨kept, same⟩ := (lookups.found again).spec wired
  have old := ((vfsLookup_spec (lookups.spec wired).1 again).2.2 e rfl).lt kept
  refine ⟨(last.dentries e).inode, same.nextInode ▸ kept.inode e old, ?_⟩
  simp [Vfs.linkText, Vfs.inodeOf, Vfs.load, same.inodes, same.data]

/-- Links are followed by lookups, to the texts of inodes. -/
theorem linkTarget_path (wired : Wired here.1) (path : ReflTransGen (Edge linkTarget) here there) :
    LookedUp here.1 there.1 ∧ (there.2 = here.2 ∨ ∃ i < here.1.nextInode, there.2 = here.1.linkText i) := by
  induction path with
  | refl => exact ⟨.refl, .inl rfl⟩
  | tail _ next ih =>
    obtain ⟨kept, same⟩ := ih.1.spec wired
    obtain ⟨lookups, i, old, text⟩ := linkTarget_some kept next
    refine ⟨ih.1.trans lookups, .inr ⟨i, same.nextInode ▸ old, ?_⟩⟩
    rw [text]
    simp [Vfs.linkText, Vfs.load, same.inodes, same.data]

/-- The recursions follow the edges of the link graph. -/
theorem links_followed (flags : UInt32) (size : Nat) :
    Follows linkTarget (fun links here => vfsCoreOpenInternal links here.1 here.2 flags) ∧
      Follows linkTarget fun links here => vfsCoreReadPath links here.1 here.2 size := by
  constructor
  all_goals
    refine ⟨fun _ => rfl, fun links here => ?_⟩
    simp only [linkTarget, vfsCoreOpenInternal, vfsCoreReadPath]
    rcases vfsLookup here.1 here.2 with ⟨looked, _ | d⟩
    · rfl
    by_cases link : (looked.inodeOf d).type = vfsTypeSymlink
    · simp only [link, ite_true]
      rcases vfsCoreReadlink looked here.2 with ⟨read, _ | target⟩ <;> rfl
    · -- Both calls are over where there is no link.
      simp only [link, ite_false]
      split <;> rfl

/--
Opening and reading a path end exactly if no cycle of links can be reached from it.

Lookups may make dentries on the way, so a node of the link graph is a path with the file system it is looked up in.
-/
theorem links_end_iff (reached : Reachable vfs) (path : CString) (flags : UInt32) (size : Nat) :
    ((∃ links, (vfsCoreOpenInternal links vfs path flags).isSome) ∧
      ∃ links, (vfsCoreReadPath links vfs path size).isSome) ↔
        ¬∃ here, ReflTransGen (Edge linkTarget) (vfs, path) here ∧ TransGen (Edge linkTarget) here here := by
  obtain ⟨opens, reads⟩ := links_followed flags size
  simp only [opens.isSome_iff _ (vfs, path), reads.isSome_iff _ (vfs, path), and_self, ← not_forall]
  -- The paths that links lead to are texts of inodes, and a lookup that changes anything uses up a dentry.
  have finite := (finite_le_nat vfsMaxDentries).prod (((finite_lt_nat vfs.nextInode).image vfs.linkText).insert path)
  refine not_congr (endless_iff_cyclic (fun here => (here.1.nextDentry, here.2)) finite ?_ ?_)
  · intro here leads
    obtain ⟨lookups, text⟩ := linkTarget_path reached.wired leads
    refine ⟨(lookups.spec reached.wired).1.dentryRoom, text.imp_right ?_⟩
    rintro ⟨i, old, same⟩
    exact ⟨i, old, same.symm⟩
  · intro here leads there onward same
    obtain ⟨dentries, paths⟩ := Prod.mk.inj same
    have kept := ((linkTarget_path reached.wired leads).1.spec reached.wired).1
    rcases (linkTarget_path kept onward).1.grows with unchanged | more
    · exact Prod.ext unchanged.symm paths
    · omega

/-- The file system with one link. -/
def oneLink (target : CString) : Vfs :=
  (vfsCoreCreateSymlink (fun _ => true) (vfsInitRoot true 64 fun _ => 0) target [slash, 97] false).1

theorem oneLink_reachable (target : CString) : Reachable (oneLink target) :=
  .step (.createSymlink target [slash, 97] false fun _ => true) (.init (by decide)) rfl

/-- A link to the root directory is followed and ends there. -/
theorem links_end_iff_root : (linkTarget (oneLink [slash], [slash, 97])).isSome ∧
    (∃ links, (vfsCoreOpenInternal links (oneLink [slash]) [slash, 97] 0).isSome) ∧
      ∃ links, (vfsCoreReadPath links (oneLink [slash]) [slash, 97] 1).isSome := by
  refine ⟨by decide +kernel, (links_end_iff (oneLink_reachable _) _ _ _).mpr fun cyclic => ?_⟩
  obtain ⟨next, first, after, second, -⟩ := Cyclic.lasts cyclic 2
  have stops : ((linkTarget (oneLink [slash], [slash, 97])).bind linkTarget).isSome = false := by decide +kernel
  simp [first, second] at stops

/-- A link to itself is followed for ever. -/
theorem own_target_loops : ∃ vfs path, Reachable vfs ∧ ∀ links flags size,
    ¬(vfsCoreOpenInternal links vfs path flags).isSome ∧ ¬(vfsCoreReadPath links vfs path size).isSome := by
  -- The link's dentry is cached, so looking it up changes nothing.
  let ownTarget := oneLink [slash, 97]
  have names : lookupComponents [slash, 97] = [[97]] := by decide
  have directory : vfsCoreIsDirectory ownTarget (ownTarget.inodeOf rootDentry).number := by decide +kernel
  have cached : vfsCacheLookup ownTarget rootDentry [97] = some 1 := by decide +kernel
  have found : vfsLookup ownTarget [slash, 97] = (ownTarget, some 1) := by
    simp [vfsLookup, names, vfsWalk, vfsChild, directory, cached, vfsNameRoom, dot]
  have link : (ownTarget.inodeOf 1).type = vfsTypeSymlink := by decide +kernel
  have read : vfsCoreReadlink ownTarget [slash, 97] = (ownTarget, some [slash, 97]) := by
    refine Prod.ext ?_ (by decide +kernel)
    simp only [vfsCoreReadlink, found]
    split <;> rfl
  have onward : linkTarget (ownTarget, [slash, 97]) = some (ownTarget, [slash, 97]) := by
    simp [linkTarget, found, link, read]
  have endless : ∀ n, Lasts linkTarget n (ownTarget, [slash, 97]) := by
    intro n
    induction n with
    | zero => trivial
    | succ n ih => exact ⟨_, onward, ih⟩
  refine ⟨_, [slash, 97], oneLink_reachable [slash, 97], fun links flags size => ?_⟩
  obtain ⟨opens, reads⟩ := links_followed flags size
  exact ⟨fun ended => (opens.isSome_iff links _).mp ended (endless links),
    fun ended => (reads.isSome_iff links _).mp ended (endless links)⟩

end Galio
