import Galio.Mm.ShmemPages

/-! The tables of `shmem.c`: what they say about segments, attachments and the pages of processes. -/

namespace Galio

open Function List ShmemSegment Nat

/-- A record of an attachment that names a segment. -/
def Shmem.Names (shmem : Shmem) (r id : Nat) : Prop :=
  r < shmMaxAttachments ∧ (shmem.attachments r).used = true ∧ (shmem.attachments r).shmid = id

instance (shmem : Shmem) (r id : Nat) : Decidable (shmem.Names r id) :=
  inferInstanceAs (Decidable (_ ∧ _ ∧ _))

/-- The records that name a segment. -/
def Shmem.namers (shmem : Shmem) (id : Nat) : Finset Nat :=
  (Finset.range shmMaxAttachments).filter fun r => shmem.Names r id

/-- The page of an attachment that shows a page of its segment. -/
def ShmemAttachment.page (attachment : ShmemAttachment) (k : Nat) : Nat := attachment.address + k * pageSize

/-- The segments and their frames; one that is being made has `filled` of them. -/
structure SegmentTable (filled : Nat → Nat) (shmem : Shmem) (frames : Finset Nat) : Prop where
  keys : ∀ i, i < shmMaxSegments → ∀ j, j < shmMaxSegments →
    (shmem.segments i).used = true → (shmem.segments j).used = true →
    (shmem.segments i).removed = false → (shmem.segments j).removed = false →
    (shmem.segments i).key = (shmem.segments j).key → (shmem.segments i).key ≠ 0 → i = j
  whole : ∀ id, id < shmMaxSegments → (shmem.segments id).used = true → ∀ k, k < filled id →
    (shmem.segments id).phys k = (shmem.segments id).frame k * frameSize
  listed : ∀ f, f ∈ frames ↔ ∃ id, id < shmMaxSegments ∧ (shmem.segments id).used = true ∧
    ∃ k, k < filled id ∧ f = (shmem.segments id).frame k
  distinct : ∀ i, i < shmMaxSegments → ∀ j, j < shmMaxSegments →
    (shmem.segments i).used = true → (shmem.segments j).used = true →
    ∀ k, k < filled i → ∀ l, l < filled j →
      (shmem.segments i).frame k = (shmem.segments j).frame l → i = j ∧ k = l
  small : ∀ id, id < shmMaxSegments → (shmem.segments id).used = true →
    (shmem.segments id).pages ≤ shmMaxPages
  nonzero : 0 ∉ frames

/-- The records of attachments name whole segments, and each segment counts them. -/
structure RecordTable (filled : Nat → Nat) (shmem : Shmem) : Prop where
  named : ∀ r, r < shmMaxAttachments → (shmem.attachments r).used = true →
    ∃ id, id < shmMaxSegments ∧ shmem.Names r id ∧ (shmem.segments id).used = true ∧
      filled id = (shmem.segments id).pages
  counted : ∀ id, id < shmMaxSegments → (shmem.segments id).used = true →
    (shmem.segments id).attachments.toNat = (shmem.namers id).card

/-- The pages of attachments lie in regions of their process, and are claimed while it lives. -/
structure AttachedPages (shmem : Shmem) (live : Finset Nat) (procs : Nat → ShmProcess)
    (claims : Finset Claim) : Prop where
  heap : ∀ r id, shmem.Names r id → ∀ k, k < (shmem.segments id).pages →
    HeapPage ((shmem.attachments r).page k)
  region : ∀ r id, shmem.Names r id → ∀ pd ∈ live, (procs pd).pid = (shmem.attachments r).pid →
    ∃ i, i < (procs pd).mmapCount ∧
      ((procs pd).mmapRegions i).start.toNat = (shmem.attachments r).address ∧
      ((procs pd).mmapRegions i).length.toNat = (shmem.segments id).pages * pageSize
  apart : ∀ r id s jd, shmem.Names r id → shmem.Names s jd → r ≠ s →
    (shmem.attachments r).pid = (shmem.attachments s).pid →
    ∀ k, k < (shmem.segments id).pages → ∀ l, l < (shmem.segments jd).pages →
      (shmem.attachments r).page k ≠ (shmem.attachments s).page l
  pids : ∀ pd ∈ live, ∀ q ∈ live, (procs pd).pid = (procs q).pid → pd = q
  claim : ∀ c, c ∈ claims ↔ c.pd ∈ live ∧ ∃ r id, shmem.Names r id ∧
    (shmem.attachments r).pid = (procs c.pd).pid ∧ ∃ k, k < (shmem.segments id).pages ∧
      c.page = (shmem.attachments r).page k ∧ c.frame = (shmem.segments id).frame k

variable {address i id j k pages r : Nat} {claims' : Finset Claim} {segment : ShmemSegment} {shmem : Shmem}
  {filled : Nat → Nat} {live : Finset Nat} {procs : Nat → ShmProcess} {claims : Finset Claim}
  {before after : Shmem}

lemma mem_namers : r ∈ shmem.namers id ↔ shmem.Names r id := by
  rw [Shmem.namers, Finset.mem_filter, Finset.mem_range]
  exact ⟨And.right, fun names => ⟨names.1, names⟩⟩

lemma namers_eq_empty (unnamed : ∀ r, ¬shmem.Names r id) : shmem.namers id = ∅ :=
  Finset.eq_empty_of_forall_notMem fun r mem => unnamed r (mem_namers.mp mem)

lemma Shmem.Names.unique {jd : Nat} (names : shmem.Names r id) (names' : shmem.Names r jd) : id = jd :=
  Int.ofNat.inj (names.2.2.symm.trans names'.2.2)

lemma namers_card_le (shmem : Shmem) (id : Nat) : (shmem.namers id).card ≤ shmMaxAttachments := by
  calc (shmem.namers id).card ≤ (Finset.range shmMaxAttachments).card := Finset.card_filter_le _ _
    _ = shmMaxAttachments := Finset.card_range _

section Facts

variable {frames : Finset Nat} (segments : SegmentTable filled shmem frames) (records : RecordTable filled shmem)

include records

lemma RecordTable.names (names : shmem.Names r id) : id < shmMaxSegments ∧
    (shmem.segments id).used ∧ filled id = (shmem.segments id).pages := by
  obtain ⟨jd, below, names', used, full⟩ := records.named r names.1 names.2.1
  rw [names.unique names']
  exact ⟨below, used, full⟩

include segments

lemma AttachedPages.claimed_le (pages : AttachedPages shmem live procs claims) (f : Nat) :
    claimed claims f ≤ shmMaxAttachments := by
  classical
  have chosen : ∀ c ∈ claims, ∃ r id, shmem.Names r id ∧ (shmem.attachments r).pid = (procs c.pd).pid ∧
      ∃ k, k < (shmem.segments id).pages ∧ c.page = (shmem.attachments r).page k ∧
        c.frame = (shmem.segments id).frame k := fun c mem => ((pages.claim c).mp mem).2
  choose! record theSegment names owner place small page frame using chosen
  rw [← Finset.card_range shmMaxAttachments]
  refine Finset.card_le_card_of_injOn record (fun c filtered => ?_) fun c left d right same => ?_
  · exact Finset.mem_coe.mpr (Finset.mem_range.mpr (names c (Finset.mem_of_mem_filter c filtered)).1)
  · -- One record has one page for a frame, and one process.
    obtain ⟨mem, onFrame⟩ := Finset.mem_filter.mp left
    obtain ⟨mem', onFrame'⟩ := Finset.mem_filter.mp right
    have both := names d mem'
    rw [← same] at both
    have one := (names c mem).unique both
    obtain ⟨below, used, full⟩ := records.names (names c mem)
    have processes : c.pd = d.pd := by
      apply pages.pids _ ((pages.claim c).mp mem).1 _ ((pages.claim d).mp mem').1
      rw [← owner c mem, ← owner d mem', same]
    have frames' : (shmem.segments (theSegment c)).frame (place c) =
        (shmem.segments (theSegment c)).frame (place d) := by
      have first := frame c mem
      have second := frame d mem'
      rw [← one] at second
      rw [← first, ← second, onFrame, onFrame']
    have inside := small d mem'
    rw [← one, ← full] at inside
    have places := (segments.distinct _ below _ below used used _ (by rw [full]; exact small c mem) _ inside
      frames').2
    have pagesSame : c.page = d.page := by
      rw [page c mem, page d mem', same, places]
    cases c
    cases d
    simp only at processes pagesSame onFrame onFrame'
    subst processes pagesSame onFrame
    rw [onFrame']

lemma AttachedPages.unclaimed (pages : AttachedPages shmem live procs claims) (below : id < shmMaxSegments)
    (used : (shmem.segments id).used) (inside : k < filled id)
    (unnamed : ∀ r, ¬shmem.Names r id) : claimed claims ((shmem.segments id).frame k) = 0 := by
  refine Finset.card_eq_zero.mpr (Finset.filter_eq_empty_iff.mpr fun c mem same => ?_)
  obtain ⟨_, r, jd, names, _, l, small, _, frame⟩ := (pages.claim c).mp mem
  obtain ⟨below', used', full⟩ := records.names names
  obtain ⟨rfl, _⟩ := segments.distinct id below jd below' used used' k inside l (by rw [full]; exact small)
    (same.symm.trans frame)
  exact unnamed r names

end Facts

lemma AttachedPages.sub (pages : AttachedPages before live procs claims)
    (kept : ∀ r j, after.Names r j → before.Names r j ∧ after.attachments r = before.attachments r ∧
      (after.segments j).pages = (before.segments j).pages)
    (claim : ∀ c, c ∈ claims' ↔ c.pd ∈ live ∧ ∃ r id, after.Names r id ∧
      (after.attachments r).pid = (procs c.pd).pid ∧ ∃ k, k < (after.segments id).pages ∧
        c.page = (after.attachments r).page k ∧ c.frame = (after.segments id).frame k) :
    AttachedPages after live procs claims' := by
  refine ⟨fun r j left => ?_, fun r j left => ?_, fun r j s l left left' => ?_, pages.pids, claim⟩
  all_goals obtain ⟨names, record, size⟩ := kept r j left
  · rw [record, size]
    exact pages.heap r j names
  · rw [record, size]
    exact pages.region r j names
  · obtain ⟨names', record', size'⟩ := kept s l left'
    rw [record, size, record', size']
    exact pages.apart r j s l names names'

/-- The frames of a segment. -/
def ShmemSegment.frames (segment : ShmemSegment) : List Nat := (List.range segment.pages).map segment.frame

/-- A segment that is the same but for attachments or removal. -/
structure SameSegment (before after : ShmemSegment) : Prop where
  used : after.used = before.used
  key : after.key = before.key
  pages : after.pages = before.pages
  phys : after.phys = before.phys
  removed : before.removed = true → after.removed = true

lemma SameSegment.refl (segment : ShmemSegment) : SameSegment segment segment := ⟨rfl, rfl, rfl, rfl, id⟩

lemma SameSegment.trans {first second third : ShmemSegment} (same : SameSegment first second)
    (same' : SameSegment second third) : SameSegment first third :=
  ⟨same'.used.trans same.used, same'.key.trans same.key, same'.pages.trans same.pages,
    same'.phys.trans same.phys, fun removed => same'.removed (same.removed removed)⟩

lemma SameSegment.frame {before after : ShmemSegment} (same : SameSegment before after) (k : Nat) :
    after.frame k = before.frame k := by
  rw [ShmemSegment.frame, ShmemSegment.frame, same.phys]

@[simp] lemma setSegment_self (shmem : Shmem) (id : Nat) (segment : ShmemSegment) :
    (shmem.setSegment id segment).segments id = segment := by
  simp [Shmem.setSegment]

lemma setSegment_other (shmem : Shmem) (segment : ShmemSegment) (other : j ≠ id) :
    (shmem.setSegment id segment).segments j = shmem.segments j := by
  simp [Shmem.setSegment, other]

lemma setSegment_same (same : SameSegment (shmem.segments id) segment) (j : Nat) :
    SameSegment (shmem.segments j) ((shmem.setSegment id segment).segments j) := by
  by_cases here : j = id
  · subst here
    rwa [setSegment_self]
  · rw [setSegment_other _ _ here]
    exact SameSegment.refl _

lemma setSegment_namers (shmem : Shmem) (id : Nat) (segment : ShmemSegment) (j : Nat) :
    (shmem.setSegment id segment).namers j = shmem.namers j := rfl

/-- A segment that keeps its key, its removal and the first of its frames. -/
structure SamePast (filled : Nat) (before after : ShmemSegment) : Prop where
  key : after.key = before.key
  removed : before.removed = true → after.removed = true
  phys : ∀ k, k < filled → after.phys k = before.phys k
  small : after.pages ≤ shmMaxPages

section Past

variable {frames frames' : Finset Nat} (segments : SegmentTable filled before frames)

include segments

lemma SegmentTable.sub (kept : ∀ j, (after.segments j).used → (before.segments j).used)
    (past : ∀ j < shmMaxSegments, (after.segments j).used →
      SamePast (filled j) (before.segments j) (after.segments j))
    (listed : ∀ f, f ∈ frames' ↔ ∃ id < shmMaxSegments, (after.segments id).used = true ∧
      ∃ k < filled id, f = (after.segments id).frame k) : SegmentTable filled after frames' := by
  have frame : ∀ j < shmMaxSegments, (after.segments j).used → ∀ k < filled j,
      (after.segments j).frame k = (before.segments j).frame k := fun j inTable used k inside => by
    rw [frame, frame, (past j inTable used).phys k inside]
  refine ⟨fun i inTable j inTable' used used' left left' keys nonzero => ?_, fun j inTable used k inside => ?_,
    listed, fun i inTable j inTable' used used' k inside l inside' equal => ?_,
    fun j inTable used => (past j inTable used).small, fun zero => ?_⟩
  · have first := past i inTable used
    have second := past j inTable' used'
    rw [first.key] at keys nonzero
    rw [second.key] at keys
    refine segments.keys i inTable j inTable' (kept i used) (kept j used') ?_ ?_ keys nonzero
    · exact Bool.eq_false_iff.mpr fun gone => absurd (first.removed gone) (by rw [left]; decide)
    · exact Bool.eq_false_iff.mpr fun gone => absurd (second.removed gone) (by rw [left']; decide)
  · rw [frame j inTable used k inside, (past j inTable used).phys k inside]
    exact segments.whole j inTable (kept j used) k inside
  · rw [frame i inTable used k inside, frame j inTable' used' l inside'] at equal
    exact segments.distinct i inTable j inTable' (kept i used) (kept j used') k inside l inside' equal
  · obtain ⟨j, inTable, used, k, inside, equal⟩ := (listed 0).mp zero
    rw [frame j inTable used k inside] at equal
    exact segments.nonzero ((segments.listed 0).mpr ⟨j, inTable, kept j used, k, inside, equal⟩)

lemma SegmentTable.same (used : ∀ j, (after.segments j).used = (before.segments j).used)
    (past : ∀ j < shmMaxSegments, (after.segments j).used →
      SamePast (filled j) (before.segments j) (after.segments j)) : SegmentTable filled after frames := by
  refine segments.sub (fun j held => used j ▸ held) past fun f => ?_
  rw [segments.listed]
  refine exists_congr fun j => and_congr_right fun inTable => ?_
  rw [used]
  refine and_congr_right fun held => exists_congr fun k => and_congr_right fun inside => ?_
  rw [frame, frame, (past j inTable ((used j).trans held)).phys k inside]

end Past

section Same

variable {frames : Finset Nat} (same : ∀ id, SameSegment (before.segments id) (after.segments id))

include same

lemma SegmentTable.carry (segments : SegmentTable filled before frames) : SegmentTable filled after frames :=
  segments.same (fun j => (same j).used) fun j inTable used =>
    ⟨(same j).key, (same j).removed, fun k _ => congrFun (same j).phys k,
      (same j).pages ▸ segments.small j inTable ((same j).used ▸ used)⟩

lemma RecordTable.carry (records : RecordTable filled before) (table : after.attachments = before.attachments)
    (counts : ∀ id, (after.segments id).attachments = (before.segments id).attachments) :
    RecordTable filled after := by
  have names : ∀ r id, after.Names r id ↔ before.Names r id := fun r id => by
    rw [Shmem.Names, Shmem.Names, table]
  refine ⟨fun r inTable used => ?_, fun id below used => ?_⟩
  · rw [table] at used
    obtain ⟨id, below, named, used', full⟩ := records.named r inTable used
    exact ⟨id, below, (names r id).mpr named, (same id).used.trans used', full.trans (same id).pages.symm⟩
  · rw [(same id).used] at used
    have namers : after.namers id = before.namers id := by
      ext r
      rw [mem_namers, mem_namers, names]
    rw [counts, namers]
    exact records.counted id below used

lemma AttachedPages.carry (pages : AttachedPages before live procs claims)
    (records : after.attachments = before.attachments) : AttachedPages after live procs claims := by
  have names : ∀ r id, after.Names r id ↔ before.Names r id := fun r id => by
    rw [Shmem.Names, Shmem.Names, records]
  refine pages.sub (fun r id named => ⟨(names r id).mp named, congrFun records r, (same id).pages⟩) fun c => ?_
  rw [pages.claim, records]
  refine and_congr_right fun _ => exists_congr fun r => exists_congr fun id => ?_
  rw [names, (same id).pages]
  simp only [(same id).frame]

end Same

section Clear

variable {frames : Finset Nat}

lemma used_ne_of_cleared (used : ((shmem.setSegment id .cleared).segments j).used) : j ≠ id := by
  rintro rfl
  rw [setSegment_self] at used
  exact absurd used (by decide)

lemma SegmentTable.clear (segments : SegmentTable filled shmem frames) (below : id < shmMaxSegments)
    (used : (shmem.segments id).used) (full : filled id = (shmem.segments id).pages) :
    SegmentTable filled (shmem.setSegment id .cleared) (frames.filter fun f => f ∉ (shmem.segments id).frames) := by
  refine segments.sub (fun j held => ?_) (fun j inTable held => ?_) fun f => ?_
  · rwa [setSegment_other _ _ (used_ne_of_cleared held)] at held
  · have other := used_ne_of_cleared held
    rw [setSegment_other _ _ other] at held ⊢
    exact ⟨rfl, fun removed => removed, fun _ _ => rfl, segments.small j inTable held⟩
  · rw [Finset.mem_filter, segments.listed]
    constructor
    · rintro ⟨⟨j, inTable, used', k, inside, rfl⟩, outside⟩
      have other : j ≠ id := by
        rintro rfl
        rw [full] at inside
        exact outside (mem_map.mpr ⟨k, mem_range.mpr inside, rfl⟩)
      refine ⟨j, inTable, ?_, k, inside, ?_⟩
      · rwa [setSegment_other _ _ other]
      · rw [setSegment_other _ _ other]
    · rintro ⟨j, inTable, used', k, inside, rfl⟩
      have other := used_ne_of_cleared used'
      rw [setSegment_other _ _ other] at used' ⊢
      refine ⟨⟨j, inTable, used', k, inside, rfl⟩, fun listed => other ?_⟩
      obtain ⟨l, inRange, same⟩ := mem_map.mp listed
      rw [mem_range, ← full] at inRange
      exact (segments.distinct id below j inTable used used' l inRange k inside same).1.symm

variable (unnamed : ∀ r, ¬shmem.Names r id)

include unnamed

lemma RecordTable.setUnnamed (records : RecordTable filled shmem) {filled' : Nat → Nat}
    (agree : ∀ j ≠ id, filled' j = filled j) (zero : segment.used → segment.attachments = 0) :
    RecordTable filled' (shmem.setSegment id segment) where
  named := fun r inTable used => by
    obtain ⟨j, below, names, used', full⟩ := records.named r inTable used
    have other : j ≠ id := by
      rintro rfl
      exact unnamed r names
    refine ⟨j, below, names, ?_⟩
    rw [setSegment_other _ _ other, agree j other]
    exact ⟨used', full⟩
  counted := fun j below used => by
    rw [setSegment_namers]
    by_cases same : j = id
    · subst same
      rw [setSegment_self] at used ⊢
      rw [zero used, namers_eq_empty unnamed]
      rfl
    · rw [setSegment_other _ _ same] at used ⊢
      exact records.counted j below used

lemma AttachedPages.setUnnamed (pages : AttachedPages shmem live procs claims) (segment : ShmemSegment) :
    AttachedPages (shmem.setSegment id segment) live procs claims := by
  have kept : ∀ {r j : Nat}, shmem.Names r j →
      (shmem.setSegment id segment).segments j = shmem.segments j := fun {r j} names =>
    setSegment_other _ _ fun same => unnamed r (same ▸ names)
  refine pages.sub (fun r j names => ⟨names, rfl, by rw [kept names]⟩) fun c => ?_
  rw [pages.claim]
  refine and_congr_right fun _ => exists_congr fun r => exists_congr fun j => and_congr_right fun names => ?_
  rw [kept names]
  rfl

end Clear

variable {slot : Nat}

section Drop

variable {frames : Finset Nat}

lemma dropAttachment_same (shmem : Shmem) (slot id j : Nat) :
    SameSegment (shmem.segments j) ((dropAttachment shmem slot id).segments j) :=
  setSegment_same (by exact ⟨rfl, rfl, rfl, rfl, fun gone => gone⟩) j

lemma dropAttachment_names : (dropAttachment shmem slot id).Names r j ↔ r ≠ slot ∧ shmem.Names r j := by
  unfold Shmem.Names dropAttachment
  by_cases same : r = slot
  · simp [same]
  · simp [same]

lemma dropAttachment_namers (j : Nat) : (dropAttachment shmem slot id).namers j = (shmem.namers j).erase slot := by
  ext r
  rw [mem_namers, Finset.mem_erase, mem_namers, dropAttachment_names]

lemma dropAttachment_attachments (other : r ≠ slot) :
    (dropAttachment shmem slot id).attachments r = shmem.attachments r := by
  simp [dropAttachment, other]

lemma RecordTable.attachments_ne_zero (records : RecordTable filled shmem) (names : shmem.Names slot id) :
    (shmem.segments id).attachments ≠ 0 := by
  intro zero
  obtain ⟨below, used, _⟩ := records.names names
  have counted := records.counted id below used
  rw [zero] at counted
  exact Finset.notMem_empty slot (Finset.card_eq_zero.mp counted.symm ▸ mem_namers.mpr names)

lemma RecordTable.drop (records : RecordTable filled shmem) (names : shmem.Names slot id) :
    RecordTable filled (dropAttachment shmem slot id) where
  named := fun r inTable used => by
    have other : r ≠ slot := by
      rintro rfl
      exact absurd used (by simp [dropAttachment])
    rw [dropAttachment_attachments other] at used
    obtain ⟨j, below, names', used', full⟩ := records.named r inTable used
    have same := dropAttachment_same shmem slot id j
    exact ⟨j, below, dropAttachment_names.mpr ⟨other, names'⟩, same.used.trans used', full.trans same.pages.symm⟩
  counted := fun j below used => by
    rw [(dropAttachment_same shmem slot id j).used] at used
    have counted := records.counted j below used
    rw [dropAttachment_namers]
    by_cases same : j = id
    · subst same
      have some := records.attachments_ne_zero names
      rw [Finset.card_erase_of_mem (mem_namers.mpr names), ← counted]
      simp only [dropAttachment, setSegment_self, some, ne_eq]
      apply UInt16.toNat_sub_of_le _ _
      exact one_le_iff_ne_zero.mpr fun zero => some (UInt16.toNat_inj.mp zero)
    · have absent : slot ∉ shmem.namers j := fun mem => same ((mem_namers.mp mem).unique names)
      rw [Finset.erase_eq_of_notMem absent, ← counted]
      simp only [dropAttachment, setSegment_other _ _ same]

lemma AttachedPages.drop (pages : AttachedPages shmem live procs claims) (names : shmem.Names slot id)
    (members : ∀ c, c ∈ claims' ↔ c ∈ claims ∧ ∀ k, k < (shmem.segments id).pages →
      (shmem.attachments slot).pid = (procs c.pd).pid → c.page ≠ (shmem.attachments slot).page k) :
    AttachedPages (dropAttachment shmem slot id) live procs claims' := by
  have same := dropAttachment_same shmem slot id
  refine pages.sub (fun r j left => ?_) fun c => ?_
  · obtain ⟨other, names'⟩ := dropAttachment_names.mp left
    exact ⟨names', dropAttachment_attachments other, (same j).pages⟩
  · rw [members, pages.claim]
    constructor
    · rintro ⟨⟨alive, r, j, names', owner, k, inside, page, frame⟩, outside⟩
      have other : r ≠ slot := by
        rintro rfl
        rw [names'.unique names] at inside
        exact outside k inside owner page
      refine ⟨alive, r, j, dropAttachment_names.mpr ⟨other, names'⟩, ?_⟩
      rw [dropAttachment_attachments other, (same j).pages]
      exact ⟨owner, k, inside, page, frame.trans ((same j).frame k).symm⟩
    · rintro ⟨alive, r, j, left, owner, k, inside, page, frame⟩
      obtain ⟨other, names'⟩ := dropAttachment_names.mp left
      rw [dropAttachment_attachments other] at owner page
      rw [(same j).pages] at inside
      rw [(same j).frame] at frame
      refine ⟨⟨alive, r, j, names', owner, k, inside, page, frame⟩, fun l small mine here => ?_⟩
      exact pages.apart r j slot id names' names other (owner.trans mine.symm) k inside l small
        (page.symm.trans here)

end Drop

section Make

variable {frames : Finset Nat}

variable (segments : SegmentTable filled shmem frames)
include segments

lemma SegmentTable.create (unused : (shmem.segments id).used = false)
    (alone : segment.key ≠ 0 → ∀ j < shmMaxSegments, (shmem.segments j).used →
      (shmem.segments j).removed = false → (shmem.segments j).key ≠ segment.key)
    (fits : segment.pages ≤ shmMaxPages) :
    SegmentTable (update filled id 0) (shmem.setSegment id segment) frames where
  keys := fun i inTable j inTable' used used' kept kept' keys nonzero => by
    by_cases first : i = id
    · by_cases second : j = id
      · rw [first, second]
      · subst first
        rw [setSegment_self] at keys nonzero
        rw [setSegment_other _ _ second] at used' kept' keys
        exact absurd keys.symm (alone nonzero j inTable' used' kept')
    · rw [setSegment_other _ _ first] at used kept keys nonzero
      by_cases second : j = id
      · subst second
        rw [setSegment_self] at keys
        exact absurd keys (alone (keys ▸ nonzero) i inTable used kept)
      · rw [setSegment_other _ _ second] at used' kept' keys
        exact segments.keys i inTable j inTable' used used' kept kept' keys nonzero
  whole := fun j inTable used k inside => by
    by_cases same : j = id
    · subst same
      rw [update_self] at inside
      exact absurd inside (not_lt_zero k)
    · rw [setSegment_other _ _ same] at used ⊢
      rw [update_of_ne same] at inside
      exact segments.whole j inTable used k inside
  listed := fun f => by
    rw [segments.listed]
    refine exists_congr fun j => and_congr_right fun _ => ?_
    by_cases same : j = id
    · subst same
      simp [unused]
    · rw [setSegment_other _ _ same, update_of_ne same]
  distinct := fun i inTable j inTable' used used' k inside l inside' => by
    have first : i ≠ id := by
      rintro rfl
      rw [update_self] at inside
      exact not_lt_zero k inside
    have second : j ≠ id := by
      rintro rfl
      rw [update_self] at inside'
      exact not_lt_zero l inside'
    rw [setSegment_other _ _ first] at used ⊢
    rw [setSegment_other _ _ second] at used' ⊢
    rw [update_of_ne first] at inside
    rw [update_of_ne second] at inside'
    exact segments.distinct i inTable j inTable' used used' k inside l inside'
  small := fun j inTable used => by
    by_cases same : j = id
    · subst same
      rw [setSegment_self]
      exact fits
    · rw [setSegment_other _ _ same] at used ⊢
      exact segments.small j inTable used
  nonzero := segments.nonzero

lemma SegmentTable.setPast
    (used : segment.used = (shmem.segments id).used) (past : SamePast (filled id) (shmem.segments id) segment) :
    SegmentTable filled (shmem.setSegment id segment) frames := by
  refine segments.same (fun j => ?_) fun j inTable held => ?_
  all_goals by_cases same : j = id
  · rw [same, setSegment_self, used]
  · rw [setSegment_other _ _ same]
  · subst same
    rwa [setSegment_self]
  · rw [setSegment_other _ _ same] at held ⊢
    exact ⟨rfl, fun removed => removed, fun _ _ => rfl, segments.small j inTable held⟩

lemma SegmentTable.extend (below : id < shmMaxSegments) (used : (shmem.segments id).used) {f : Nat}
    (phys : (shmem.segments id).phys (filled id) = f * frameSize) (fresh : f ∉ frames) (positive : f ≠ 0) :
    SegmentTable (update filled id (filled id + 1)) shmem (insert f frames) := by
  have frame : (shmem.segments id).frame (filled id) = f := by
    rw [frame, phys, address_div]
  -- A page that is filled now was filled before, or is the next one of the segment.
  have cases : ∀ j k, k < update filled id (filled id + 1) j ↔
      k < filled j ∨ j = id ∧ k = filled id := fun j k => by
    by_cases same : j = id
    · subst same
      rw [update_self]
      omega
    · simp [same]
  have outside : ∀ j < shmMaxSegments, (shmem.segments j).used → ∀ k < filled j,
      (shmem.segments j).frame k ≠ f := fun j inTable used k inside same =>
    fresh (same ▸ (segments.listed _).mpr ⟨j, inTable, used, k, inside, rfl⟩)
  refine ⟨segments.keys, fun j inTable used k inside => ?_, fun g => ?_,
    fun i inTable j inTable' held held' k inside l inside' same => ?_, segments.small,
    fun zero => (Finset.mem_insert.mp zero).elim (fun same => positive same.symm) segments.nonzero⟩
  · rcases (cases j k).mp inside with old | ⟨rfl, rfl⟩
    · exact segments.whole j inTable used k old
    · rw [frame, phys]
  · rw [Finset.mem_insert, segments.listed]
    constructor
    · rintro (rfl | ⟨j, inTable, used', k, inside, rfl⟩)
      · exact ⟨id, below, used, filled id, (cases id _).mpr (.inr ⟨rfl, rfl⟩), frame.symm⟩
      · exact ⟨j, inTable, used', k, (cases j k).mpr (.inl inside), rfl⟩
    · rintro ⟨j, inTable, used', k, inside, rfl⟩
      rcases (cases j k).mp inside with old | ⟨rfl, rfl⟩
      · exact .inr ⟨j, inTable, used', k, old, rfl⟩
      · exact .inl frame
  · rcases (cases i k).mp inside with old | ⟨rfl, rfl⟩
    · rcases (cases j l).mp inside' with old' | ⟨rfl, rfl⟩
      · exact segments.distinct i inTable j inTable' held held' k old l old' same
      · exact absurd (same.trans frame) (outside i inTable held k old)
    · rcases (cases j l).mp inside' with old' | ⟨rfl, rfl⟩
      · exact absurd (same.symm.trans frame) (outside j inTable' held' l old')
      · exact ⟨rfl, rfl⟩

end Make

section Address

variable {proc : ShmProcess} {start length : Nat}

lemma regionOverlaps_eq_false (clear : regionOverlaps proc start length = false)
    (bounded : start + length < 2 ^ 64) (recorded : i < proc.mmapCount)
    (some : (proc.mmapRegions i).length.toNat ≠ 0) :
    (proc.mmapRegions i).start.toNat + (proc.mmapRegions i).length.toNat ≤ start ∨
      start + length ≤ (proc.mmapRegions i).start.toNat := by
  simp only [regionOverlaps, Bool.or_eq_false_iff, any_eq_false, mem_range] at clear
  have region := clear.2 i recorded
  have nonzero : (proc.mmapRegions i).length ≠ 0 := fun zero => some (by rw [zero]; rfl)
  simp only [mod_eq_of_lt bounded, Bool.and_eq_true, bne_iff_ne, ne_eq, nonzero, not_false_eq_true,
    true_and, decide_eq_true_eq, not_and, not_lt] at region
  by_cases above : start < (proc.mmapRegions i).start.toNat + (proc.mmapRegions i).length.toNat
  · exact .inr (region above)
  · exact .inl (Nat.le_of_not_lt above)

lemma stretch_apart {other l : Nat}
    (clear : regionOverlaps proc start (pages * pageSize) = false) (below : start + pages * pageSize ≤ userHeapEnd)
    (recorded : i < proc.mmapCount) (first : (proc.mmapRegions i).start.toNat = address)
    (size : (proc.mmapRegions i).length.toNat = other * pageSize) (inside : k < pages) (inside' : l < other) :
    start + k * pageSize ≠ address + l * pageSize := by
  intro meet
  have apart := regionOverlaps_eq_false clear (below.trans_lt (by decide)) recorded (by
    rw [size]
    exact Nat.mul_ne_zero (by omega) (by decide))
  have less : k * pageSize < pages * pageSize := Nat.mul_lt_mul_of_pos_right inside (by decide)
  have less' : l * pageSize < other * pageSize := Nat.mul_lt_mul_of_pos_right inside' (by decide)
  omega

lemma findAddress_some {requested : Nat} (found : findAddress proc requested length = some address) :
    userHeapStart ≤ address ∧ address + length ≤ userHeapEnd ∧ address % pageSize = 0 ∧
      regionOverlaps proc address length = false := by
  have listed := mem_of_find?_eq_some found
  have clear := find?_some found
  obtain ⟨above, below, whole⟩ := mem_pagesUpTo.mp listed
  have aligned : (if requested ≠ 0 then pageAlignDown requested else pageAlignUp proc.brk.toNat) % pageSize = 0 := by
    split
    · exact mul_mod_left _ _
    · exact mul_mod_left _ _
  generalize (if requested ≠ 0 then pageAlignDown requested else pageAlignUp proc.brk.toNat) = first at *
  refine ⟨le_trans (le_max_right _ _) above, by omega, ?_, by simpa using clear⟩
  have start : max first userHeapStart % pageSize = 0 := by
    rcases le_total first userHeapStart with less | more
    · rw [max_eq_right less]
      decide
    · rw [max_eq_left more]
      exact aligned
  generalize max first userHeapStart = origin at start above whole
  simp only [pageSize] at start whole ⊢
  omega

lemma heapPage_attached (above : userHeapStart ≤ address)
    (below : address + pages * pageSize ≤ userHeapEnd) (aligned : address % pageSize = 0) (inside : k < pages) :
    HeapPage (address + k * pageSize) := by
  refine ⟨above.trans (le_add_right _ _), ?_, ?_⟩
  · have less : k * pageSize < pages * pageSize := Nat.mul_lt_mul_of_pos_right inside (by decide)
    omega
  · rw [add_mul_mod_self_right]
    exact aligned

end Address

section Add

variable {attachment : ShmemAttachment}

lemma addAttachment_same (shmem : Shmem) (slot id : Nat) (attachment : ShmemAttachment) (j : Nat) :
    SameSegment (shmem.segments j) ((addAttachment shmem slot id attachment).segments j) :=
  setSegment_same (by exact ⟨rfl, rfl, rfl, rfl, fun gone => gone⟩) j

lemma addAttachment_self : (addAttachment shmem slot id attachment).attachments slot = attachment := by
  simp [addAttachment]

lemma addAttachment_other (other : r ≠ slot) :
    (addAttachment shmem slot id attachment).attachments r = shmem.attachments r := by
  simp [addAttachment, other]

variable (inTable : slot < shmMaxAttachments) (unused : (shmem.attachments slot).used = false)
  (used : attachment.used = true) (shmid : attachment.shmid = id)

include unused in
lemma Shmem.Names.ne_of_unused (names : shmem.Names r j) : r ≠ slot := by
  rintro rfl
  exact absurd names.2.1 (by simp [unused])

include inTable unused used shmid

lemma addAttachment_names :
    (addAttachment shmem slot id attachment).Names r j ↔ r = slot ∧ j = id ∨ r ≠ slot ∧ shmem.Names r j := by
  by_cases same : r = slot
  · subst same
    rw [Shmem.Names, addAttachment_self, used, shmid]
    simp only [inTable, true_and, Int.ofNat_inj, ne_eq, not_true_eq_false, false_and, or_false]
    exact eq_comm
  · rw [Shmem.Names, addAttachment_other same]
    simp [same, Shmem.Names]

lemma addAttachment_namers (j : Nat) : (addAttachment shmem slot id attachment).namers j =
    if j = id then insert slot (shmem.namers j) else shmem.namers j := by
  ext r
  rw [mem_namers, addAttachment_names inTable unused used shmid]
  by_cases same : j = id
  · subst same
    rw [if_pos rfl, Finset.mem_insert, mem_namers]
    constructor
    · rintro (⟨rfl, _⟩ | ⟨_, names⟩)
      · exact .inl rfl
      · exact .inr names
    · rintro (rfl | names)
      · exact .inl ⟨rfl, rfl⟩
      · exact .inr ⟨names.ne_of_unused unused, names⟩
  · rw [if_neg same, mem_namers]
    constructor
    · rintro (⟨_, equal⟩ | ⟨_, names⟩)
      · exact absurd equal same
      · exact names
    · exact fun names => .inr ⟨names.ne_of_unused unused, names⟩

lemma RecordTable.add (records : RecordTable filled shmem) (below : id < shmMaxSegments)
    (live : (shmem.segments id).used) (full : filled id = (shmem.segments id).pages) :
    RecordTable filled (addAttachment shmem slot id attachment) where
  named := fun r within held => by
    by_cases same : r = slot
    · subst same
      have kept := addAttachment_same shmem r id attachment id
      exact ⟨id, below, (addAttachment_names inTable unused used shmid).mpr (.inl ⟨rfl, rfl⟩),
        kept.used.trans live, full.trans kept.pages.symm⟩
    · rw [addAttachment_other same] at held
      obtain ⟨j, below', names, live', full'⟩ := records.named r within held
      have kept := addAttachment_same shmem slot id attachment j
      exact ⟨j, below', (addAttachment_names inTable unused used shmid).mpr (.inr ⟨same, names⟩),
        kept.used.trans live', full'.trans kept.pages.symm⟩
  counted := fun j below' held => by
    rw [(addAttachment_same shmem slot id attachment j).used] at held
    have counted := records.counted j below' held
    rw [addAttachment_namers inTable unused used shmid]
    by_cases same : j = id
    · subst same
      have absent : slot ∉ shmem.namers j := fun mem =>
        (mem_namers.mp mem).ne_of_unused unused rfl
      have most := namers_card_le shmem j
      rw [if_pos rfl, Finset.card_insert_of_notMem absent, ← counted]
      simp only [addAttachment, setSegment_self]
      rw [UInt16.toNat_add, mod_eq_of_lt]
      · rfl
      · simp only [shmMaxAttachments, shmMaxSegments] at most
        show (shmem.segments j).attachments.toNat + 1 < 2 ^ 16
        omega
    · rw [if_neg same, ← counted]
      simp only [addAttachment, setSegment_other _ _ same]

end Add

lemma record_mmapRegions (proc : ShmProcess) (address length : Nat) (shmid : Int)
    (recorded : i < proc.mmapCount) : (proc.record address length shmid).mmapRegions i = proc.mmapRegions i := by
  simp [ShmProcess.record, Nat.ne_of_lt recorded]

section AddPages

variable {pd : Nat}

lemma AttachedPages.add (pages : AttachedPages shmem live procs claims) (inTable : slot < shmMaxAttachments)
    (unused : (shmem.attachments slot).used = false) (alive : pd ∈ live) (above : userHeapStart ≤ address)
    (below : address + (shmem.segments id).pages * pageSize ≤ userHeapEnd) (aligned : address % pageSize = 0)
    (clear : regionOverlaps (procs pd) address ((shmem.segments id).pages * pageSize) = false)
    (members : ∀ c, c ∈ claims' ↔ c ∈ claims ∨
      ∃ k, k < (shmem.segments id).pages ∧ c = (shmem.segments id).claim pd address k) :
    AttachedPages (addAttachment shmem slot id ⟨true, (procs pd).pid, id, address⟩) live
      (update procs pd ((procs pd).record address ((shmem.segments id).pages * pageSize) id)) claims' := by
  have same := addAttachment_same shmem slot id ⟨true, (procs pd).pid, id, address⟩
  have names : ∀ r j, (addAttachment shmem slot id ⟨true, (procs pd).pid, id, address⟩).Names r j ↔
      r = slot ∧ j = id ∨ r ≠ slot ∧ shmem.Names r j :=
    fun r j => addAttachment_names inTable unused rfl rfl
  have pid : ∀ q, (update procs pd
      ((procs pd).record address ((shmem.segments id).pages * pageSize) id) q).pid = (procs q).pid := fun q => by
    by_cases here : q = pd <;> simp [here, ShmProcess.record]
  -- The new stretch overlaps no region, so it shares no page with an older record of the process.
  have fresh : ∀ r j, shmem.Names r j → (shmem.attachments r).pid = (procs pd).pid →
      ∀ k, k < (shmem.segments id).pages → ∀ l, l < (shmem.segments j).pages →
        address + k * pageSize ≠ (shmem.attachments r).page l := by
    intro r j named owner k inside l inside'
    obtain ⟨i, recorded, first, size⟩ := pages.region r j named pd alive owner.symm
    exact stretch_apart clear below recorded first size inside inside'
  refine ⟨fun r j named k => ?_, fun r j named q living owner => ?_,
    fun r j s l named named' other owners k inside m inside' => ?_, fun p left q right equal => ?_, fun c => ?_⟩
  · rw [(same j).pages]
    rcases (names r j).mp named with ⟨rfl, rfl⟩ | ⟨other, old⟩
    · rw [addAttachment_self]
      exact heapPage_attached above below aligned
    · rw [addAttachment_other other]
      exact pages.heap r j old k
  · rw [pid] at owner
    rw [(same j).pages]
    rcases (names r j).mp named with ⟨rfl, rfl⟩ | ⟨other, old⟩
    · rw [addAttachment_self] at owner ⊢
      -- The process of the new record is the one that attaches.
      obtain rfl := pages.pids q living pd alive owner
      rw [update_self]
      refine ⟨(procs q).mmapCount, lt_succ_self _, ?_, ?_⟩
      all_goals
        simp only [ShmProcess.record, update_self]
        rw [UInt32.toNat_ofNat', mod_eq_of_lt]
        simp only [userHeapEnd] at below
        omega
    · rw [addAttachment_other other] at owner ⊢
      obtain ⟨i, recorded, first, size⟩ := pages.region r j old q living owner
      by_cases here : q = pd
      · subst here
        rw [update_self]
        refine ⟨i, lt_succ_of_lt recorded, ?_⟩
        rw [record_mmapRegions _ _ _ _ recorded]
        exact ⟨first, size⟩
      · rw [update_of_ne here]
        exact ⟨i, recorded, first, size⟩
  · rw [(same j).pages] at inside
    rw [(same l).pages] at inside'
    rcases (names r j).mp named with ⟨rfl, rfl⟩ | ⟨new, old⟩
    · rcases (names s l).mp named' with ⟨rfl, rfl⟩ | ⟨new', old'⟩
      · exact absurd rfl other
      · rw [addAttachment_self, addAttachment_other new'] at owners ⊢
        exact fresh s l old' owners.symm k inside m inside'
    · rcases (names s l).mp named' with ⟨rfl, rfl⟩ | ⟨new', old'⟩
      · rw [addAttachment_self, addAttachment_other new] at owners ⊢
        exact (fresh r j old owners m inside' k inside).symm
      · rw [addAttachment_other new, addAttachment_other new'] at owners ⊢
        exact pages.apart r j s l old old' other owners k inside m inside'
  · rw [pid, pid] at equal
    exact pages.pids p left q right equal
  · rw [members, pages.claim, pid]
    constructor
    · rintro (⟨living, r, j, old, owner, k, inside, page, frame⟩ | ⟨k, inside, rfl⟩)
      · have other := old.ne_of_unused unused
        refine ⟨living, r, j, (names r j).mpr (.inr ⟨other, old⟩), ?_⟩
        rw [addAttachment_other other, (same j).pages]
        exact ⟨owner, k, inside, page, frame.trans ((same j).frame k).symm⟩
      · refine ⟨alive, slot, id, (names slot id).mpr (.inl ⟨rfl, rfl⟩), ?_⟩
        rw [addAttachment_self, (same id).pages]
        exact ⟨rfl, k, inside, rfl, ((same id).frame k).symm⟩
    · rintro ⟨living, r, j, named, owner, k, inside, page, frame⟩
      rw [(same j).pages] at inside
      rw [(same j).frame] at frame
      rcases (names r j).mp named with ⟨rfl, rfl⟩ | ⟨other, old⟩
      · rw [addAttachment_self] at owner page
        have mine := pages.pids pd alive c.pd living owner
        refine .inr ⟨k, inside, ?_⟩
        cases c
        simp only at mine page frame
        rw [mine, page, frame]
        rfl
      · rw [addAttachment_other other] at owner page
        exact .inl ⟨living, r, j, old, owner, k, inside, page, frame⟩

lemma AttachedPages.exit (pages : AttachedPages shmem live procs claims) (pd : Nat) :
    AttachedPages shmem (live.erase pd) procs (claims.filter fun c => c.pd ≠ pd) where
  heap := pages.heap
  region := fun r j named q left => pages.region r j named q (Finset.mem_of_mem_erase left)
  apart := pages.apart
  pids := fun p left q right => pages.pids p (Finset.mem_of_mem_erase left) q (Finset.mem_of_mem_erase right)
  claim := fun c => by
    rw [Finset.mem_filter, pages.claim, Finset.mem_erase]
    exact ⟨fun ⟨⟨lives, held⟩, other⟩ => ⟨⟨other, lives⟩, held⟩, fun ⟨⟨other, lives⟩, held⟩ => ⟨⟨lives, held⟩, other⟩⟩

end AddPages

end Galio
