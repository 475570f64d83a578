import Mathlib.Data.List.Perm.Subperm
import Galio.Fs.VfsReachable

/-! The lists of children that the dentries form by their links. -/

namespace Galio

open Function List Option Vfs

/-- The links from each dentry to the next one in its list. -/
def Vfs.siblings (vfs : Vfs) (d : Nat) : Option Nat := (vfs.dentries d).nextSibling

/-- The children of each dentry are those that name it as parent, once each. -/
structure ChildLists (vfs : Vfs) (children : Nat → List Nat) : Prop where
  linked : ∀ p, p < vfs.nextDentry → Chain.Linked vfs.siblings (vfs.dentries p).firstChild (children p)
  distinct : ∀ p, (children p).Nodup
  mem : ∀ p c, c ∈ children p ↔ c ≠ rootDentry ∧ c < vfs.nextDentry ∧ (vfs.dentries c).parent = some p

lemma relink_firstChild (vfs : Vfs) (holder : Nat) (dentry : VfsDentry) (child d : Nat) :
    ((vfs.relink holder dentry child).dentries d).firstChild =
      if d = holder then dentry.firstChild else (vfs.dentries d).firstChild := by
  rw [relink_dentries]
  split_ifs <;> rfl

lemma relink_siblings (vfs : Vfs) (holder : Nat) (dentry : VfsDentry) (child d : Nat) :
    (vfs.relink holder dentry child).siblings d =
      if d = child then none else if d = holder then dentry.nextSibling else vfs.siblings d := by
  rw [siblings, relink_dentries]
  split_ifs <;> rfl

lemma setDentry_name (vfs : Vfs) (d : Nat) (name : CString) (e : Nat) :
    (vfs.setDentry d { vfs.dentries d with name := name }).dentries e =
      { vfs.dentries e with name := if e = d then name else (vfs.dentries e).name } := by
  simp only [setDentry, update_apply]
  split
  · rename_i here
    rw [here]
  · rfl

variable {child inode parent : Nat} {name : CString} {vfs after : Vfs}

section Lists

variable {children : Nat → List Nat} (lists : ChildLists vfs children)

include lists

lemma ChildLists.unique {p q c : Nat} (first : c ∈ children p) (second : c ∈ children q) : p = q :=
  some.inj (((lists.mem p c).mp first).2.2.symm.trans ((lists.mem q c).mp second).2.2)

lemma ChildLists.of_links (links : ∀ d, ((after.dentries d).firstChild, after.siblings d, (after.dentries d).parent) =
    ((vfs.dentries d).firstChild, vfs.siblings d, (vfs.dentries d).parent)) (next : after.nextDentry = vfs.nextDentry) :
    ChildLists after children := by
  simp only [Prod.mk.injEq] at links
  refine ⟨fun p old => ?_, lists.distinct, fun p c => ?_⟩
  · rw [(links p).1]
    exact (lists.linked p (next ▸ old)).congr fun d _ => (links d).2.1
  · rw [next, (links c).2.2]
    exact lists.mem p c

lemma ChildLists.congr (dentries : after.dentries = vfs.dentries) (next : after.nextDentry = vfs.nextDentry) :
    ChildLists after children :=
  lists.of_links (fun d => by rw [siblings, dentries]; rfl) next

lemma ChildLists.rename (d : Nat) (name : CString) :
    ChildLists (vfs.setDentry d { vfs.dentries d with name := name }) children :=
  lists.of_links (fun e => by rw [siblings, setDentry_name]; rfl) rfl

/-- The list of one dentry is replaced. -/
theorem ChildLists.replace {list : List Nat} (next : after.nextDentry = vfs.nextDentry)
    (firsts : ∀ p ≠ parent, (after.dentries p).firstChild = (vfs.dentries p).firstChild)
    (others : ∀ p ≠ parent, ∀ d ∈ children p, after.siblings d = vfs.siblings d)
    (parents : ∀ p ≠ parent, ∀ d, (after.dentries d).parent = some p ↔ (vfs.dentries d).parent = some p)
    (linked : parent < vfs.nextDentry → Chain.Linked after.siblings (after.dentries parent).firstChild list)
    (distinct : list.Nodup)
    (mem : ∀ d, d ∈ list ↔ d ≠ rootDentry ∧ d < vfs.nextDentry ∧ (after.dentries d).parent = some parent) :
    ChildLists after (update children parent list) := by
  refine ⟨fun p old => ?_, fun p => ?_, fun p d => ?_⟩ <;> by_cases here : p = parent
  · rw [here, update_self]
    exact linked (here ▸ next ▸ old)
  · rw [update_of_ne here, firsts p here]
    exact (lists.linked p (next ▸ old)).congr (others p here)
  · rwa [here, update_self]
  · rw [update_of_ne here]
    exact lists.distinct p
  · rw [here, update_self, next]
    exact mem d
  · rw [update_of_ne here, lists.mem, next, parents p here]

lemma ChildLists.linkChild (parent : Nat) (below : child < vfs.nextDentry) (apart : child ≠ rootDentry)
    (orphan : (vfs.dentries child).parent = none) :
    ChildLists (vfsLinkChild vfs parent child) (update children parent (child :: children parent)) := by
  have alone : ∀ p, child ∉ children p := by
    intro p member
    exact absurd (orphan.symm.trans ((lists.mem p child).mp member).2.2) (by simp)
  have dentries := vfsLinkChild_dentries vfs parent child
  have siblings : ∀ d, (vfsLinkChild vfs parent child).siblings d =
      if d = child then (vfs.dentries parent).firstChild else vfs.siblings d := by
    intro d
    rw [siblings, dentries]
    rfl
  have elsewhere : ∀ p, ∀ d ∈ children p, (vfsLinkChild vfs parent child).siblings d = vfs.siblings d := by
    intro p d member
    rw [siblings, if_neg]
    rintro rfl
    exact alone p member
  have link : ∀ c, ((vfsLinkChild vfs parent child).dentries c).parent =
      if c = child then some parent else (vfs.dentries c).parent := fun c => by rw [dentries]
  refine lists.replace rfl (fun p other => ?_) (fun p _ => elsewhere p) (fun p other c => ?_) (fun old => ?_)
    (nodup_cons.mpr ⟨alone parent, lists.distinct parent⟩) fun c => ?_
  · rw [dentries]
    exact if_neg other
  · rw [link]
    split
    · rename_i same
      simp [same, orphan, Ne.symm other]
    · rfl
  · have first : ((vfsLinkChild vfs parent child).dentries parent).firstChild = some child := by
      rw [dentries]
      exact if_pos rfl
    rw [first]
    refine Chain.Linked.push ((lists.linked parent old).congr (elsewhere parent)) ?_
    rw [siblings, if_pos rfl]
  · rw [link, mem_cons, lists.mem]
    by_cases same : c = child
    · simp [same, apart, below]
    · simp [same]

lemma ChildLists.length_le (p : Nat) : (children p).length ≤ vfs.nextDentry := by
  have within : children p ⊆ range vfs.nextDentry := fun c member =>
    mem_range.mpr ((lists.mem p c).mp member).2.1
  simpa using (subperm_of_subset (lists.distinct p) within).length_le

/-- A child is taken out by writing the dentry that leads to it. -/
theorem ChildLists.relinked {holder : Nat} {dentry : VfsDentry} (member : child ∈ children parent)
    (link : dentry.parent = (vfs.dentries holder).parent)
    (first : holder ≠ parent → dentry.firstChild = (vfs.dentries holder).firstChild)
    (next : holder ∉ children parent → dentry.nextSibling = vfs.siblings holder)
    (linked : Chain.Linked (vfs.relink holder dentry child).siblings
      ((vfs.relink holder dentry child).dentries parent).firstChild ((children parent).erase child)) :
    ChildLists (vfs.relink holder dentry child) (update children parent ((children parent).erase child)) ∧
      ((vfs.relink holder dentry child).dentries child).parent = none ∧
      ∀ d ∉ children parent, (vfs.relink holder dentry child).siblings d = vfs.siblings d := by
  have parents := fun d => relink_parent vfs holder dentry child d link
  have outside : ∀ d ∉ children parent, (vfs.relink holder dentry child).siblings d = vfs.siblings d := by
    intro d apart
    rw [relink_siblings, if_neg fun same : d = child => apart (same ▸ member)]
    split
    · rename_i held
      exact held ▸ next (held ▸ apart)
    · rfl
  refine ⟨lists.replace rfl (fun p other => ?_) (fun p other d inside => ?_) (fun p other d => ?_) (fun _ => linked)
    ((lists.distinct parent).erase child) fun d => ?_, by rw [parents, if_pos rfl], outside⟩
  · rw [relink_firstChild]
    split
    · rename_i held
      exact held ▸ first (held ▸ other)
    · rfl
  · exact outside d fun own => other (lists.unique inside own)
  · rw [parents]
    split
    · rename_i same
      simp [same, ((lists.mem parent child).mp member).2.2, Ne.symm other]
    · rfl
  · rw [(lists.distinct parent).mem_erase_iff, lists.mem, parents]
    by_cases taken : d = child <;> simp [taken]

/-- A child is taken out of its parent's list, and the walk along the siblings ends. -/
theorem ChildLists.unlinkChild (room : vfs.nextDentry ≤ vfsMaxDentries) (old : parent < vfs.nextDentry)
    (member : child ∈ children parent) : ∃ after, vfsUnlinkChildDentry vfs parent child = some after ∧
      ChildLists after (update children parent ((children parent).erase child)) ∧
      (after.dentries child).parent = none ∧
      ∀ d ∉ children parent, (after.dentries d).nextSibling = (vfs.dentries d).nextSibling := by
  have linked := lists.linked parent old
  have distinct := lists.distinct parent
  have short := lists.length_le parent
  cases order : children parent with
  | nil => simp [order] at member
  | cons first rest =>
    rw [order] at linked distinct short
    obtain ⟨head, tail⟩ := linked
    obtain ⟨fresh, _⟩ := nodup_cons.mp distinct
    unfold vfsUnlinkChildDentry
    rw [head]
    dsimp only
    by_cases start : first = child
    · -- The child is the first of the list.
      subst start
      rw [if_pos rfl]
      refine ⟨_, rfl, order ▸ lists.relinked member rfl (absurd rfl) (fun _ => rfl) ?_⟩
      rw [order, erase_cons_head, relink_firstChild, if_pos rfl]
      refine tail.congr fun d inside => ?_
      rw [relink_siblings, if_neg fun same : d = first => fresh (same ▸ inside)]
      split
      · rename_i held
        rw [held]
        rfl
      · rfl
    · -- The child is found behind another one.
      rw [if_neg start]
      have later : child ∈ rest := by
        rw [order] at member
        exact (mem_cons.mp member).resolve_left (Ne.symm start)
      have enough : rest.length ≤ vfsMaxDentries := by
        rw [length_cons] at short
        omega
      have whole : Chain.Linked vfs.siblings (some first) (first :: rest) := ⟨rfl, tail⟩
      obtain ⟨previous, held, link, walked⟩ := whole.before_eq later enough
      have found : siblingBefore vfs child vfsMaxDentries first = some (some previous) := walked
      rw [found]
      have inList : previous ∈ children parent := order ▸ held
      refine ⟨_, rfl, order ▸ lists.relinked member rfl (fun _ => rfl) (absurd inList) ?_⟩
      have begins : ((vfs.relink previous { vfs.dentries previous with
          nextSibling := (vfs.dentries child).nextSibling } child).dentries parent).firstChild = some first := by
        rw [relink_firstChild]
        split
        · rename_i same
          rw [← same]
          exact head
        · exact head
      rw [begins, order]
      refine (whole.unlink distinct held link).congr fun d inside => ?_
      rw [relink_siblings, if_neg, update_apply]
      · rfl
      · rintro rfl
        exact ((List.Nodup.mem_erase_iff distinct).mp inside).1 rfl

lemma ChildLists.createDentry (wired : Wired vfs)
    (made : vfsCreateDentry vfs parent name inode = some (after, child)) :
    ChildLists after (update children parent (child :: children parent)) := by
  simp only [vfsCreateDentry, ge_iff_le, ite_none_left_eq_some, some.injEq, Prod.mk.injEq] at made
  obtain ⟨_, rfl, rfl⟩ := made
  have fresh : ∀ p, vfs.nextDentry ∉ children p := fun p member =>
    Nat.lt_irrefl _ ((lists.mem p _).mp member).2.1
  -- Before it is linked the new dentry has no parent and no children.
  have counted : ChildLists (vfs.addDentry name inode) children := by
    unfold addDentry
    constructor
    · intro p old
      by_cases new : p = vfs.nextDentry
      · have none : children p = [] := by
          refine eq_nil_iff_forall_not_mem.mpr fun c member => ?_
          have := wired.parent c p ((lists.mem p c).mp member).2.2
          omega
        rw [none]
        simp [setDentry, new, Chain.Linked]
      · have first : (update vfs.dentries vfs.nextDentry
            ⟨name.take vfsNameRoom, none, none, none, inode⟩ p) = vfs.dentries p := update_of_ne new ..
        simp only [setDentry, first]
        simp only at old
        refine (lists.linked p (by omega)).congr fun d inside => ?_
        have other : d ≠ vfs.nextDentry := fun same => fresh p (same ▸ inside)
        simp [siblings, update_of_ne other]
    · exact lists.distinct
    · intro p c
      rw [lists.mem]
      by_cases new : c = vfs.nextDentry
      · simp [setDentry, new]
      simp only [setDentry, update_of_ne new]
      constructor
      all_goals
        rintro ⟨apart, old, link⟩
        exact ⟨apart, by omega, link⟩
  have linked := counted.linkChild parent (Nat.lt_succ_self _) (Nat.ne_of_gt wired.rooted)
    (by simp [addDentry, setDentry])
  obtain ⟨slot, -, inserted, -⟩ := vfsCacheInsert_eq (vfsLinkChild (vfs.addDentry name inode) parent vfs.nextDentry)
    vfs.nextDentry
  rw [inserted]
  exact linked.congr rfl rfl

end Lists

lemma vfsLinkChild_keeps (vfs : Vfs) (parent child : Nat)
    (room : ∃ free < vfsMaxDentryCache, (vfs.cache free = none ∨ vfs.cache free = some child)) :
    (∀ slot e, vfs.cache slot = some e → (vfsLinkChild vfs parent child).cache slot = some e) ∧
      ∃ slot < vfsMaxDentryCache, (vfsLinkChild vfs parent child).cache slot = some child :=
  vfsCacheInsert_keeps (vfs.adopt parent child) child room

lemma vfsCreateDentry_cache (spare : ∃ free < vfsMaxDentryCache, vfs.cache free = none)
    (made : vfsCreateDentry vfs parent name inode = some (after, child)) :
    (∀ slot e, vfs.cache slot = some e → after.cache slot = some e) ∧
      ∃ slot < vfsMaxDentryCache, after.cache slot = some child := by
  simp only [vfsCreateDentry, ite_none_left_eq_some] at made
  obtain ⟨_, rfl, rfl⟩ := made
  obtain ⟨free, below, empty⟩ := spare
  -- The dentry is inserted twice, the second time into the slot that holds it.
  obtain ⟨kept, slot, inside, here⟩ := vfsLinkChild_keeps (vfs.addDentry name inode) parent vfs.nextDentry
    ⟨free, below, .inl empty⟩
  obtain ⟨again, last⟩ := vfsCacheInsert_keeps _ vfs.nextDentry ⟨slot, inside, .inr here⟩
  exact ⟨fun other e cached => again other e (kept other e cached), last⟩

end Galio
