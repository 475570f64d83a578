import Galio.Fs.VfsLinks
import Galio.Fs.VfsShape

/-! When the permission checked by `syscall_open` is the one for the file that is opened. -/

namespace Galio

open Option Recursion Relation

/-- A process may search a directory and all those above it, up to the root. -/
inductive Searchable (actor : Actor) (vfs : Vfs) : Nat → Prop where
  | root : accessBits actor (vfs.inodeOf rootDentry) &&& 1 = 1 → Searchable actor vfs rootDentry
  | step {p q : Nat} : accessBits actor (vfs.inodeOf p) &&& 1 = 1 → (vfs.dentries p).parent = some q →
      Searchable actor vfs q → Searchable actor vfs p

/-- A process has an access to a dentry's inode and may search the directories above. -/
structure HasAccess (actor : Actor) (vfs : Vfs) (access : UInt32) (d : Nat) : Prop where
  bits : accessBits actor (vfs.inodeOf d) &&& access = access
  search : ∃ p, (vfs.dentries d).parent = some p ∧ Searchable actor vfs p

/-- A process has an access to an inode through one of its dentries. -/
def MayUse (actor : Actor) (vfs : Vfs) (access : UInt32) (i : Nat) : Prop :=
  ∃ d, (vfs.dentries d).inode = i ∧ HasAccess actor vfs access d

/-- The path that is checked is no link, and the open finds the dentry that was checked. -/
def Direct (vfs : Vfs) (path : CString) : Prop :=
  ∃ d, (vfsLookup vfs path).2 = some d ∧ (vfsLookup (vfsLookup vfs path).1 path).2 = some d ∧
    ((vfsLookup vfs path).1.inodeOf d).type ≠ vfsTypeSymlink

/-- The dentry that a path leads to through links, with the file system as the lookups leave it. -/
def LeadsTo (vfs : Vfs) (path : CString) (looked : Vfs) (d : Nat) : Prop :=
  ∃ last, ReflTransGen (Edge linkTarget) (vfs, path) last ∧ vfsLookup last.1 last.2 = (looked, some d) ∧
    (looked.inodeOf d).type ≠ vfsTypeSymlink

/-- A process may have what a handle gives. -/
def Permitted (actor : Actor) (access : UInt32) (after : Vfs) (handle : Nat) : Prop :=
  ∃ i, after.openInode handle = some i ∧ MayUse actor after access i

variable {access : UInt32} {actor : Actor} {after vfs : Vfs} {d links p steps : Nat} {path : CString}

section Check

variable (plain : securityCapable actor securityCapDacOverride = false)

include plain

lemma securityModeAllows_iff (inode : VfsInode) (access : UInt32) :
    securityModeAllows actor inode access ↔ accessBits actor inode &&& access = access := by
  simp [securityModeAllows, plain]

lemma Descends.searchable (descends : Descends vfs p) :
    ∀ {steps : Nat}, (vfs.inodeOf p).type = vfsTypeDir → securityCheckParents actor vfs steps (some p) = some true →
      Searchable actor vfs p := by
  induction descends with
  | root =>
    intro steps directory checked
    cases steps with
    | zero => simp [securityCheckParents] at checked
    | succ steps =>
      rw [securityCheckParents, if_neg (not_not.mpr directory)] at checked
      split at checked
      · simp at checked
      · rename_i allowed
        exact .root ((securityModeAllows_iff plain _ _).mp (by simpa using allowed))
  | @child q p _ above link _ ih =>
    intro steps directory checked
    cases steps with
    | zero => simp [securityCheckParents] at checked
    | succ steps =>
      rw [securityCheckParents, if_neg (not_not.mpr directory)] at checked
      split at checked
      · simp at checked
      rename_i allowed
      have bits := (securityModeAllows_iff plain (vfs.inodeOf p) 1).mp (by simpa using allowed)
      split at checked
      · rename_i top
        subst top
        exact .root bits
      · rw [link] at checked
        exact .step bits link (ih above checked)

lemma Searchable.checked (root : (vfs.inodeOf rootDentry).type = vfsTypeDir)
    (searchable : Searchable actor vfs p) : ∃ steps, securityCheckParents actor vfs steps (some p) = some true := by
  induction searchable with
  | root bits =>
    refine ⟨1, ?_⟩
    rw [securityCheckParents, if_neg (not_not.mpr root),
      if_neg (by simpa using (securityModeAllows_iff plain _ _).mpr bits), if_pos rfl]
  | @step p q bits link _ ih =>
    obtain ⟨steps, checked⟩ := ih
    refine ⟨steps + 1, ?_⟩
    rw [securityCheckParents, link, checked]
    split
    · rfl
    · rw [if_neg (by simpa using (securityModeAllows_iff plain _ _).mpr bits)]
      split <;> rfl

/-- The check of an access succeeds where the process has the access, and only there. -/
theorem securityCheckFileAccess_iff {looked : Vfs} (wired : Wired vfs)
    (root : (vfs.inodeOf rootDentry).type = vfsTypeDir) (mask : access &&& ~~~7 = 0)
    (found : vfsLookup vfs path = (looked, some d)) :
    (∃ steps, (securityCheckFileAccess steps actor vfs path access).map (·.2) = some true) ↔
      HasAccess actor looked access d := by
  obtain ⟨kept, frame, reached⟩ := vfsLookup_spec wired found
  have descends := reached d rfl
  have top : (looked.inodeOf rootDentry).type = vfsTypeDir := by rw [frame.inodeOf wired.rooted, root]
  have checked : ∀ steps, securityCheckFileAccess steps actor vfs path access =
      (securityCheckParents actor looked steps (looked.dentries d).parent).map fun searched =>
        (looked, searched && securityModeAllows actor (looked.inodeOf d) access) := by
    intro steps
    rw [securityCheckFileAccess, if_neg (not_not.mpr mask), found]
    simp [plain]
  -- The parent is a directory, the root's being the root itself.
  obtain ⟨p, link, above, directory⟩ : ∃ p, (looked.dentries d).parent = some p ∧ Descends looked p ∧
      (looked.inodeOf p).type = vfsTypeDir := by
    cases descends with
    | root => exact ⟨rootDentry, kept.rootLoop, .root, top⟩
    | child above directory link _ => exact ⟨_, link, above, directory⟩
  constructor
  · rintro ⟨steps, passed⟩
    rw [checked, link, Option.map_map, map_eq_some_iff] at passed
    obtain ⟨searched, walked, both⟩ := passed
    obtain ⟨rfl, allowed⟩ : searched ∧ securityModeAllows actor (looked.inodeOf d) access := by
      simpa using both
    exact ⟨(securityModeAllows_iff plain _ _).mp allowed, p, link, above.searchable plain directory walked⟩
  · rintro ⟨bits, q, up, searchable⟩
    cases up.symm.trans link
    obtain ⟨steps, walked⟩ := searchable.checked plain top
    refine ⟨steps, ?_⟩
    rw [checked, link, walked]
    simp [(securityModeAllows_iff plain _ _).mpr bits]

end Check

/-- In a tree every path that is no link is opened as it was checked. -/
theorem Tree.direct (tree : Tree vfs) (found : (vfsLookup vfs path).2 = some d)
    (file : (vfs.inodeOf d).type ≠ vfsTypeSymlink) : Direct vfs path := by
  refine ⟨d, found, ?_⟩
  rw [tree.lookup]
  exact ⟨found, file⟩

/-- A path leads to one dentry. -/
theorem LeadsTo.unique {looked other : Vfs} {e : Nat} (first : LeadsTo vfs path looked d)
    (second : LeadsTo vfs path other e) : looked = other ∧ d = e := by
  obtain ⟨last, reached, found, file⟩ := first
  obtain ⟨last', reached', found', file'⟩ := second
  -- No link is left to follow at the end.
  obtain rfl := end_unique reached (by simp [linkTarget, found, file]) reached' (by simp [linkTarget, found', file'])
  obtain ⟨rfl, same⟩ := Prod.mk.inj (found.symm.trans found')
  exact ⟨rfl, some.inj same⟩

/-- An open that succeeds takes a handle for what the path leads to. -/
theorem vfsCoreOpenInternal_end : ∀ {vfs after : Vfs} {path : CString} {flags : UInt32} {handle : Nat},
    vfsCoreOpenInternal links vfs path flags = some (after, some handle) → ∃ looked d, LeadsTo vfs path looked d ∧
      vfsTakeHandle looked (looked.dentries d).inode flags = (after, some handle) := by
  induction links with
  | zero =>
    intro vfs after path flags handle opened
    simp [vfsCoreOpenInternal] at opened
  | succ links ih =>
    intro vfs after path flags handle opened
    rw [vfsCoreOpenInternal] at opened
    rcases found : vfsLookup vfs path with ⟨looked, _ | d⟩
    all_goals
      rw [found] at opened
      dsimp only at opened
    · simp at opened
    by_cases link : (looked.inodeOf d).type = vfsTypeSymlink
    · rw [if_pos link] at opened
      rcases read : vfsCoreReadlink looked path with ⟨next, _ | target⟩
      all_goals
        rw [read] at opened
      · simp at opened
      obtain ⟨state, e, ⟨last, reached, rest⟩, held⟩ := ih opened
      have edge : Edge linkTarget (vfs, path) (next, target) := by simp [Edge, linkTarget, found, link, read]
      exact ⟨state, e, ⟨last, reached.head edge, rest⟩, held⟩
    · rw [if_neg link] at opened
      split at opened
      · exact ⟨looked, d, ⟨(vfs, path), .refl, found, link⟩, some.inj opened⟩
      · simp at opened

lemma syscallOpen_cases {fds table : Nat → Option Nat} {resolved : CString} {flags : UInt32} {fd : Nat}
    (opened : syscallOpen steps links actor fds vfs resolved flags = some (after, table, some fd)) :
    ∃ checked handle, securityCheckFileAccess steps actor vfs resolved (openAccess flags) = some (checked, true) ∧
      vfsCoreOpenInternal links checked resolved flags = some (after, some handle) ∧ table fd = some handle := by
  unfold syscallOpen at opened
  split at opened
  · simp at opened
  rename_i valid
  rcases check : securityCheckFileAccess steps actor vfs resolved (openAccess flags) with _ | ⟨checked, _ | _⟩
  all_goals rw [check] at opened; dsimp only at opened
  · simp at opened
  · simp at opened
  rw [vfsCoreOpenFlags, if_neg valid] at opened
  rcases internal : vfsCoreOpenInternal links checked resolved flags with _ | ⟨state, _ | handle⟩
  all_goals rw [internal] at opened; dsimp only at opened
  · simp at opened
  · simp at opened
  split at opened
  · obtain ⟨rfl, rfl, rfl⟩ := opened
    exact ⟨checked, handle, rfl, internal, Function.update_self ..⟩
  · simp at opened

lemma openAccess_mask (flags : UInt32) : openAccess flags &&& ~~~7 = 0 := by
  unfold openAccess
  split
  · decide
  · split <;> decide

lemma Descends.rootType (descends : Descends vfs d) (below : d ≠ rootDentry) :
    (vfs.inodeOf rootDentry).type = vfsTypeDir := by
  induction descends with
  | root => exact absurd rfl below
  | @child p _ _ directory _ _ ih =>
    by_cases top : p = rootDentry
    · exact top ▸ directory
    · exact ih top

lemma securityCheckFileAccess_root {checked : Vfs}
    (wired : Wired vfs) (plain : securityCapable actor securityCapDacOverride = false)
    (check : securityCheckFileAccess steps actor vfs path access = some (checked, true)) :
    checked = (vfsLookup vfs path).1 ∧ (vfs.inodeOf rootDentry).type = vfsTypeDir := by
  unfold securityCheckFileAccess at check
  split at check
  · simp at check
  rcases found : vfsLookup vfs path with ⟨looked, _ | d⟩
  all_goals rw [found] at check; dsimp only at check
  · simp at check
  obtain ⟨kept, frame, reached⟩ := vfsLookup_spec wired found
  rw [plain, if_neg (by simp), map_eq_some_iff] at check
  obtain ⟨searched, walked, result⟩ := check
  obtain ⟨rfl, _⟩ := Prod.mk.inj result
  refine ⟨rfl, ?_⟩
  rw [← frame.inodeOf wired.rooted]
  by_cases top : d = rootDentry
  · subst top
    rw [kept.rootLoop] at walked
    by_contra file
    rw [securityCheckParents_endless actor file kept.rootLoop] at walked
    simp at walked
  · exact (reached d rfl).rootType top

section Keep

variable {inside : Nat → Prop} (up : ∀ p q, (vfs.dentries p).parent = some q → inside q)
  (inodes : ∀ e, inside e → after.inodeOf e = vfs.inodeOf e)
  (parents : ∀ e, inside e → (after.dentries e).parent = (vfs.dentries e).parent)

include up inodes parents

/-- What a process may search stays so where the inodes and the parents do. -/
theorem Searchable.keep (searchable : Searchable actor vfs p) : inside p → Searchable actor after p := by
  induction searchable with
  | root bits => exact fun here => .root (inodes _ here ▸ bits)
  | @step p q bits link _ ih =>
    exact fun here => .step (inodes p here ▸ bits) (parents p here ▸ link) (ih (up p q link))

/-- So does the access to a dentry. -/
theorem HasAccess.keep (granted : HasAccess actor vfs access d) (here : inside d) : HasAccess actor after access d := by
  obtain ⟨bits, p, link, searchable⟩ := granted
  exact ⟨inodes d here ▸ bits, p, parents d here ▸ link, searchable.keep up inodes parents (up d p link)⟩

end Keep

/-- Taking a handle changes nothing of what a process may use. -/
theorem mayUse_setFile (actor : Actor) (vfs : Vfs) (access : UInt32) (slot : Nat) (file : VfsFile) (i : Nat) :
    MayUse actor (vfs.setFile slot file) access i ↔ MayUse actor vfs access i := by
  refine exists_congr fun d => and_congr_right fun _ => ⟨fun granted => ?_, fun granted => ?_⟩
  all_goals refine granted.keep (fun _ _ _ => trivial) ?_ ?_ trivial <;> exact fun _ _ => rfl

/-- A file system with a file and a link to it. -/
def linkedFile : Vfs := (vfsCoreCreateSymlink (fun _ => true) oneFile [slash, 97] [slash, 98] false).1

end Galio
