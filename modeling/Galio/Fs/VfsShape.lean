import Galio.Fs.VfsTree
import Galio.Security.FileAccess

/-! Which runs of calls keep the names and the dentries a tree. -/

namespace Galio

open Transition List Option

/-- The dentries reached by first children and next siblings. -/
inductive Listed (vfs : Vfs) : Nat → Prop where
  | root : Listed vfs rootDentry
  | child {d c : Nat} : Listed vfs d → (vfs.dentries d).firstChild = some c → Listed vfs c
  | sibling {d e : Nat} : Listed vfs d → (vfs.dentries d).nextSibling = some e → Listed vfs e

/-- The dentries whose parents lead to the root, with the number of steps. -/
inductive Ascends (vfs : Vfs) : Nat → Nat → Prop where
  | root : Ascends vfs 0 rootDentry
  | step {steps d p : Nat} : Ascends vfs steps p → (vfs.dentries d).parent = some p → Ascends vfs (steps + 1) d

/-- The names along entries, dots apart, from the root to an inode. -/
inductive NamePath (vfs : Vfs) : List CString → Nat → Prop where
  | root : NamePath vfs [] (vfs.dentries rootDentry).inode
  | step {path : List CString} {x : Nat} {entry : VfsDirent} : NamePath vfs path x →
      entry ∈ (vfs.inodes x).dirents → ¬DotName entry.name → NamePath vfs (path ++ [entry.name]) entry.inodeNumber

/-- Dentries and names form a tree, and the loops along the parents come to an end. -/
structure TreeShaped (vfs : Vfs) : Prop where
  ascends : ∀ d, Listed vfs d → ∃ steps, Ascends vfs steps d
  built : ∀ d, Listed vfs d → ∃ steps path, vfsBuildPathFromDentry steps vfs d = some path
  checked : ∀ actor path access, ∃ steps result, securityCheckFileAccess steps actor vfs path access = some result
  onePath : ∀ i first second, NamePath vfs first i → NamePath vfs second i → first = second

variable {after vfs : Vfs} {d : Nat} {op : VfsOp}

lemma Ascends.built {steps : Nat} (ascends : Ascends vfs steps d) :
    ∀ path, ∃ result, vfsBuildPathLoop vfs (steps + 1) (some d) path = some result := by
  induction ascends with
  | root => exact fun path => ⟨path, rfl⟩
  | @step steps d p _ link ih =>
    intro path
    rw [vfsBuildPathLoop]
    split
    · exact ⟨path, rfl⟩
    · dsimp only
      rw [link]
      exact ih _

lemma Descends.checked (actor : Actor) {p : Nat} (descends : Descends vfs p)
    (directory : (vfs.inodeOf p).type = vfsTypeDir) :
    ∃ steps searched, securityCheckParents actor vfs steps (some p) = some searched := by
  induction descends with
  | root =>
    refine ⟨1, securityModeAllows actor (vfs.inodeOf rootDentry) 1, ?_⟩
    rw [securityCheckParents, if_neg (not_not.mpr directory)]
    cases securityModeAllows actor (vfs.inodeOf rootDentry) 1 <;> rfl
  | @child q p _ above link _ ih =>
    obtain ⟨steps, searched, checked⟩ := ih above
    refine ⟨steps + 1, ?_⟩
    rw [securityCheckParents, if_neg (not_not.mpr directory)]
    split
    · exact ⟨false, rfl⟩
    split
    · exact ⟨true, rfl⟩
    · exact ⟨searched, by rw [link, checked]⟩

section Shape

variable {vfs : Vfs} (tree : Tree vfs)

include tree

lemma Tree.listed {children : Nat → List Nat} (lists : ChildLists vfs children) (listed : Listed vfs d) :
    d = rootDentry ∨ ∃ p steps, Ascends vfs steps p ∧ d ∈ children p := by
  induction listed with
  | root => exact .inl rfl
  | @child d c _ first ih =>
    have above : d < vfs.nextDentry ∧ ∃ steps, Ascends vfs steps d := by
      rcases ih with rfl | ⟨p, steps, ascends, member⟩
      · exact ⟨tree.wired.rooted, 0, .root⟩
      · obtain ⟨_, old, link⟩ := (lists.mem p d).mp member
        exact ⟨old, steps + 1, .step ascends link⟩
    obtain ⟨old, steps, ascends⟩ := above
    have linked := lists.linked d old
    rw [first] at linked
    exact .inr ⟨d, steps, ascends, linked.head_mem⟩
  | @sibling d e _ next ih =>
    rcases ih with rfl | ⟨p, steps, ascends, member⟩
    · exact absurd (next.symm.trans tree.rootAlone) (by simp)
    · obtain ⟨_, _, link⟩ := (lists.mem p d).mp member
      exact .inr ⟨p, steps, ascends, (lists.linked p (tree.wired.parent d p link)).next_mem member next⟩

lemma Tree.ascends (listed : Listed vfs d) : ∃ steps, Ascends vfs steps d := by
  obtain ⟨children, lists⟩ := tree.lists
  rcases tree.listed lists listed with rfl | ⟨p, steps, ascends, member⟩
  · exact ⟨0, .root⟩
  · exact ⟨steps + 1, .step ascends ((lists.mem p d).mp member).2.2⟩

lemma Tree.checked (actor : Actor) (path : CString) (access : UInt32) :
    ∃ steps result, securityCheckFileAccess steps actor vfs path access = some result := by
  have root : (vfs.inodeOf rootDentry).type = vfsTypeDir := by
    rw [Vfs.inodeOf, tree.rootInode]
    exact tree.rootType
  unfold securityCheckFileAccess
  rw [tree.lookup_eq path]
  split
  · exact ⟨0, _, rfl⟩
  rcases found : (vfsLookup vfs path).2 with _ | d
  · exact ⟨0, _, rfl⟩
  dsimp only
  split
  · exact ⟨0, _, rfl⟩
  have parents : ∃ steps searched, securityCheckParents actor vfs steps (vfs.dentries d).parent = some searched := by
    cases tree.lookup_descends found with
    | root =>
      rw [tree.wired.rootLoop]
      exact Descends.root.checked actor root
    | child above directory link _ =>
      rw [link]
      exact above.checked actor directory
  obtain ⟨steps, searched, checked⟩ := parents
  exact ⟨steps, _, by rw [checked]; rfl⟩

/-- Every inode has one path of names. -/
theorem Tree.onePath {first : List CString} {i : Nat} (left : NamePath vfs first i) :
    ∀ {second : List CString}, NamePath vfs second i → first = second := by
  -- The last entries of both paths stand for the one dentry of the inode.
  induction left with
  | root =>
    intro second right
    rw [tree.rootInode] at right
    generalize top : (0 : Nat) = i at right
    cases right with
    | root => rfl
    | step _ listed named => exact absurd top.symm (tree.entry_ne_root listed named)
  | @step path x entry _ listed named ih =>
    intro second right
    generalize same : entry.inodeNumber = i at right
    cases right with
    | root => exact absurd (same.trans tree.rootInode) (tree.entry_ne_root listed named)
    | @step other y last before also plain =>
      obtain ⟨d, stands⟩ := tree.entry x entry listed named
      obtain ⟨e, twin⟩ := tree.entry y last also plain
      obtain rfl := tree.single d e stands.old twin.old (stands.inode.trans (same.trans twin.inode.symm))
      obtain ⟨p, link, above⟩ := stands.parent
      obtain ⟨q, up, upper⟩ := twin.parent
      cases link.symm.trans up
      obtain rfl := above.symm.trans upper
      rw [ih before, ← stands.name, ← twin.name]

lemma Tree.shaped : TreeShaped vfs where
  ascends := fun _ listed => tree.ascends listed
  built := by
    intro d listed
    obtain ⟨steps, ascends⟩ := tree.ascends listed
    obtain ⟨path, built⟩ := ascends.built []
    refine ⟨steps + 1, ?_⟩
    unfold vfsBuildPathFromDentry
    split
    · exact ⟨_, rfl⟩
    · exact ⟨_, by rw [built]; rfl⟩
  checked := tree.checked
  onePath := fun _ _ _ left right => tree.onePath left right

end Shape

/--
The calls that keep the tree. One that links a dentry needs an empty cache slot, no node is made anew under a dot
name, and no destination of a move is too deep.
-/
def VfsOp.KeepsTree (vfs : Vfs) : VfsOp → Prop
  | .installFile path _ _ _ => vfs.Spare ∧ ¬DotName (entryName path)
  | .createFile path force _ => vfs.Spare ∧ (force = true → ¬DotName (entryName path))
  | .createDir _ _ => vfs.Spare
  | .createSymlink _ path force _ => vfs.Spare ∧ (force = true → ¬DotName (entryName path))
  | .move _ dest _ => vfs.Spare ∧ (lookupComponents dest).length < 256
  | _ => True

lemma Tree.unseen (tree : Tree vfs) (wired : Wired after) (inodes : after.inodes = vfs.inodes)
    (dentries : after.dentries = vfs.dentries) (next : after.nextDentry = vfs.nextDentry)
    (cache : after.cache = vfs.cache) : Tree after := by
  refine tree.inodes wired dentries next cache ?_ ?_ ?_
  · rw [inodes]
    exact tree.rootType
  · rw [inodes]
    exact tree.entry
  · rw [inodes]
    exact tree.distinct

lemma Tree.exec (tree : Tree vfs) (keeps : op.KeepsTree vfs) (step : op.exec vfs = some after) : Tree after := by
  have wired := tree.wired.exec step
  have handled : op.Handles → Tree after := fun handles => by
    obtain ⟨looked, lookups, rfl | ⟨fd, file, _, rfl⟩⟩ := handles.cases tree.wired step
    all_goals obtain rfl := tree.lookedUp lookups
    · exact tree
    · exact tree.unseen wired rfl rfl rfl rfl
  cases op with
  | lookup | openFile | close | read | lseek => exact handled trivial
  | installFile path permissions bytes grants =>
    cases step
    exact tree.makeNode keeps.1 grants path _ _ _ fun _ => keeps.2
  | createFile path force grants | createSymlink _ path force grants =>
    cases step
    exact tree.makeNode keeps.1 grants path _ _ _ keeps.2
  | createDir path grants =>
    cases step
    exact tree.makeDirectory keeps grants path
  | write fd bytes =>
    cases step
    obtain same | ⟨i, _, regular, written⟩ := vfsCoreWrite_cases tree.wired fd bytes
    · rwa [same]
    have apart : i ≠ 0 := by
      rintro rfl
      exact absurd (regular.symm.trans tree.rootType) (by decide)
    obtain ⟨_, _, same⟩ | same | ⟨_, _, same⟩ := written
    all_goals
      rw [same] at wired ⊢
      refine Tree.unseen (tree.adjust i ?_ ?_ fun root => absurd root apart) wired rfl rfl rfl rfl
    all_goals rfl
  | chmod path mode =>
    cases step
    obtain ⟨looked, lookups, same | ⟨d, _, _, same⟩⟩ := vfsCoreChmod_cases tree.wired path mode
    all_goals
      obtain rfl := tree.lookedUp lookups
      rw [same]
    · exact tree
    · refine tree.adjust _ rfl rfl fun root => ?_
      have type : (looked.inodeOf d).type = vfsTypeDir := by
        rw [Vfs.inodeOf, root]
        exact tree.rootType
      exact (congrArg (fun bits => (bits ||| (mode &&& vfsPermMask)) &&& vfsTypeMask) type).trans
        (type_or_permissions (by decide) mode)
  | move src dest grants =>
    obtain ⟨after, moved, move, kept⟩ := tree.move keeps.1 grants src keeps.2
    rw [VfsOp.exec, move] at step
    cases step
    exact kept
  | unlink path =>
    cases step
    exact tree.removes (vfsCoreUnlink_removes tree.wired path)
  | rmdir path =>
    cases step
    exact tree.removes (vfsCoreRmdir_removes tree.wired path)

lemma vfsInitRoot_tree (hasData : Bool) {dataSize : Nat} (data : Nat → UInt8) (small : dataSize < 2 ^ 32) :
    Tree (vfsInitRoot hasData dataSize data) := by
  have wired := vfsInitRoot_wired hasData data small
  have only : ∀ d, d < (vfsInitRoot hasData dataSize data).nextDentry → d = rootDentry := fun d first =>
    Nat.lt_one_iff.mp first
  have dirents : ∀ x, ((vfsInitRoot hasData dataSize data).inodes x).dirents.Sublist
      [⟨0, [dot]⟩, ⟨0, [dot, dot]⟩] := by
    intro x
    by_cases top : x = 0
    · subst top
      exact List.Sublist.refl _
    · simp [vfsInitRoot, vfsCacheInsert, Vfs.setCache, Function.update_of_ne top]
  exact {
    wired := wired
    single := fun d e first second _ => (only d first).trans (only e second).symm
    rootInode := rfl
    rootAlone := rfl
    rootType := show vfsRootMode &&& vfsTypeMask = vfsTypeDir by decide
    fits := fun d first => by
      rw [only d first]
      exact Nat.zero_le _
    cached := fun d apart first => absurd (only d first) apart
    entry := by
      intro x entry listed named
      have member := (dirents x).subset listed
      simp only [mem_cons, not_mem_nil, or_false] at member
      rcases member with rfl | rfl
      · exact absurd (.inl rfl) named
      · exact absurd (.inr rfl) named
    distinct := fun x => (show [[dot], [dot, dot]].Nodup by decide).sublist ((dirents x).map (·.name))
    lists := by
      refine ⟨fun _ => [], ?_, fun _ => nodup_nil, fun p c => ?_⟩
      · intro p first
        rw [only p first]
        rfl
      · simp only [not_mem_nil, false_iff]
        rintro ⟨apart, first, _⟩
        exact apart (only c first) }

/-- A call that returns. -/
def VfsCall (vfs : Vfs) (op : VfsOp) (after : Vfs) : Prop := op.exec vfs = some after

/--
Along every run of calls that keep the tree, dentries and names are of the shape of one.

The run starts from the root alone.
-/
theorem calls_keep_tree_shape {hasData : Bool} {dataSize : Nat} {data : Nat → UInt8} {run : List (VfsOp × Vfs)}
    (small : dataSize < 2 ^ 32) (calls : Along VfsCall (vfsInitRoot hasData dataSize data) run)
    (keep : Along (fun vfs op _ => op.KeepsTree vfs) (vfsInitRoot hasData dataSize data) run) :
    Visits TreeShaped (vfsInitRoot hasData dataSize data) run := by
  refine visits_mono (fun _ tree => Tree.shaped tree) (visits_of_invariant Tree (fun vfs op after tree step => ?_)
    (vfsInitRoot_tree hasData data small) (along_and calls keep))
  exact tree.exec step.2 step.1

/-- A directory is made, another one, and the second is moved into the first. -/
theorem calls_keep_tree_shape_moved : ∃ run, run.length = 3 ∧ Along VfsCall freshVfs run ∧
    Visits TreeShaped freshVfs run := by
  have returned : ((VfsOp.move [slash, 98] [slash, 97, slash, 99] fun _ => true).exec
      (vfsMakeDirectory (fun _ => true) (vfsMakeDirectory (fun _ => true) freshVfs [slash, 97]).1
        [slash, 98]).1).isSome = true := by decide +kernel
  have calls : Along VfsCall freshVfs
      [(.createDir [slash, 97] fun _ => true, (vfsMakeDirectory (fun _ => true) freshVfs [slash, 97]).1),
        (.createDir [slash, 98] fun _ => true, (vfsMakeDirectory (fun _ => true)
          (vfsMakeDirectory (fun _ => true) freshVfs [slash, 97]).1 [slash, 98]).1),
        (.move [slash, 98] [slash, 97, slash, 99] fun _ => true, get _ returned)] :=
    ⟨rfl, rfl, (some_get returned).symm, trivial⟩
  refine ⟨_, rfl, calls, calls_keep_tree_shape (by decide) calls ⟨?_, ?_, ⟨?_, by decide⟩, trivial⟩⟩
  all_goals exact ⟨0, by decide, by decide +kernel⟩

lemma securityCheckParents_endless (actor : Actor)
    (file : (vfs.inodeOf rootDentry).type ≠ vfsTypeDir) (loop : (vfs.dentries rootDentry).parent = some rootDentry)
    (steps : Nat) : securityCheckParents actor vfs steps (some rootDentry) = none := by
  induction steps with
  | zero => rfl
  | succ steps ih => rw [securityCheckParents, if_pos file, loop, ih]

/-- A file made by force under the dot name of the root replaces the root, and checks do not come to an end. -/
theorem forced_dot_replaces_root : ∃ run, Along VfsCall freshVfs run ∧ ¬Visits TreeShaped freshVfs run := by
  refine ⟨[(.createFile [dot, slash, dot] true fun _ => true,
    (vfsCoreCreateFile (fun _ => true) freshVfs [dot, slash, dot] true).1)], ⟨rfl, trivial⟩, fun shaped => ?_⟩
  obtain ⟨steps, result, checked⟩ := shaped.2.checked ⟨1000, 1000, 0⟩ [slash] 4
  generalize replaced : (vfsCoreCreateFile (fun _ => true) freshVfs [dot, slash, dot] true).1 = vfs at checked
  have found : vfsLookup vfs [slash] = (vfs, some rootDentry) := rfl
  have file : (vfs.inodeOf rootDentry).type ≠ vfsTypeDir := by
    rw [← replaced]
    decide +kernel
  have loop : (vfs.dentries rootDentry).parent = some rootDentry := by
    rw [← replaced]
    decide +kernel
  have none := securityCheckParents_endless ⟨1000, 1000, 0⟩ file loop steps
  have plain : securityCapable ⟨1000, 1000, 0⟩ securityCapDacOverride = false := by decide
  have readable : ¬(4 : UInt32) &&& ~~~7 ≠ 0 := by decide
  rw [securityCheckFileAccess, if_neg readable] at checked
  simp [found, plain, loop, none] at checked

end Galio
