import Galio.Mm.ShmemTables

/-! How segments are released: at the last detachment, and when a process ends. -/

namespace Galio

open Pmem List

/-- Memory and the tables of `shmem.c` agree about frames and attached pages. -/
structure ShmLedger (kernel : Nat → Prop) (filled : Nat → Nat) (vm : Vm) (shmem : Shmem) (live : Finset Nat)
    (procs : Nat → ShmProcess) (frames : Finset Nat) (claims : Finset Claim) : Prop where
  memory : FrameClaims kernel vm live frames claims
  segments : SegmentTable filled shmem frames
  records : RecordTable filled shmem
  pages : AttachedPages shmem live procs claims

/-- A segment that was removed is there for its attachments only. -/
def Settled (shmem : Shmem) : Prop :=
  ∀ id, id < shmMaxSegments → (shmem.segments id).used = true → (shmem.segments id).removed = true →
    (shmem.segments id).attachments ≠ 0

lemma Settled.setSegment {shmem : Shmem} (settled : Settled shmem) {id : Nat} {segment : ShmemSegment}
    (kept : segment.removed = false) : Settled (shmem.setSegment id segment) := by
  intro j inTable held removed
  have other : j ≠ id := by
    rintro rfl
    rw [setSegment_self, kept] at removed
    simp at removed
  rw [setSegment_other _ _ other] at held removed ⊢
  exact settled j inTable held removed

/-- What detaching does: segments are kept, or were removed and their frames are free. -/
structure Survives (pmem : Pmem) (before after : Shmem) : Prop where
  segments : ∀ id, id < shmMaxSegments → (before.segments id).used = true →
    (SameSegment (before.segments id) (after.segments id) ∧
      (after.segments id).removed = (before.segments id).removed) ∨
    ((before.segments id).removed = true ∧ (after.segments id).used = false ∧
      ∀ f ∈ (before.segments id).frames, pmem.frameBitmap f = false)
  unused : ∀ id, (before.segments id).used = false → (after.segments id).used = false
  names : ∀ r id, after.Names r id → before.Names r id ∧ after.attachments r = before.attachments r

/-- Frames that were free still are. -/
def StillFree (before after : Pmem) : Prop :=
  ∀ f, before.frameBitmap f = false → after.frameBitmap f = false

lemma SameSegment.frames {before after : ShmemSegment} (same : SameSegment before after) :
    after.frames = before.frames := by
  rw [ShmemSegment.frames, same.pages]
  exact map_congr_left fun k _ => same.frame k

lemma Survives.refl (pmem : Pmem) (shmem : Shmem) : Survives pmem shmem shmem :=
  ⟨fun _ _ _ => .inl ⟨SameSegment.refl _, rfl⟩, fun _ unused => unused, fun _ _ names => ⟨names, rfl⟩⟩

lemma Survives.trans {first second : Pmem} {before mid after : Shmem} (earlier : Survives first before mid)
    (later : Survives second mid after) (free : StillFree first second) : Survives second before after where
  segments := fun id below used => by
    rcases earlier.segments id below used with ⟨same, removed⟩ | ⟨removed, gone, freed⟩
    · rcases later.segments id below (same.used.trans used) with ⟨same', removed'⟩ | ⟨removed', gone, freed⟩
      · exact .inl ⟨same.trans same', removed'.trans removed⟩
      · rw [same.frames] at freed
        exact .inr ⟨removed.symm.trans removed', gone, freed⟩
    · exact .inr ⟨removed, later.unused id gone, fun f listed => free f (freed f listed)⟩
  unused := fun id unused => later.unused id (earlier.unused id unused)
  names := fun r id names => by
    obtain ⟨names', same⟩ := later.names r id names
    obtain ⟨names'', same'⟩ := earlier.names r id names'
    exact ⟨names'', same.trans same'⟩

variable {shmem : Shmem} {id : Nat}

lemma segmentFromId_some {shmid : Int} : segmentFromId shmem shmid = some id ↔
      shmid = id ∧ id < shmMaxSegments ∧ (shmem.segments id).used := by
  unfold segmentFromId
  constructor
  · intro found
    split at found
    · simp at found
    rename_i valid
    cases found
    simp only [not_or, not_lt, Bool.not_eq_false] at valid
    exact ⟨(Int.toNat_of_nonneg valid.1).symm, by omega, valid.2.2⟩
  · rintro ⟨rfl, below, used⟩
    rw [if_neg]
    · simp
    · simp only [Int.toNat_natCast, used, not_or, not_lt]
      exact ⟨Int.natCast_nonneg id, by omega, by decide⟩

variable {pmem : Pmem}

lemma pmemFree_frame {addr : Nat} (tracked : addr / frameSize < maxFrames) :
    pmemFree pmem addr 1 = pmem.derefFrame (addr / frameSize) := by
  have small : addr / frameSize % 2 ^ 32 = addr / frameSize :=
    Nat.mod_eq_of_lt (tracked.trans (by decide))
  unfold pmemFree frameRange
  rw [range_one, map_singleton, Nat.add_zero, small]
  rfl

variable {kernel : Nat → Prop} {filled : Nat → Nat} {vm : Vm} {live frames : Finset Nat} {procs : Nat → ShmProcess}
  {claims : Finset Claim}

section Release

lemma releaseSegment_eq (below : id < shmMaxSegments) (used : (shmem.segments id).used)
    (zero : (shmem.segments id).attachments = 0)
    (tracked : ∀ k, k < (shmem.segments id).pages → (shmem.segments id).frame k < maxFrames) (pmem : Pmem) :
    releaseSegment pmem shmem id = (pmem.derefFrames (shmem.segments id).frames, shmem.setSegment id .cleared) := by
  have found := segmentFromId_some.mpr ⟨rfl, below, used⟩
  simp only [releaseSegment, found, zero, ne_eq, not_true_eq_false, ite_false]
  congr 1
  rw [ShmemSegment.frames, derefFrames, foldl_map]
  refine foldl_ext _ _ _ fun pmem k inRange => ?_
  exact pmemFree_frame (tracked k (mem_range.mp inRange))

variable (ledger : ShmLedger kernel filled vm shmem live procs frames claims) (below : id < shmMaxSegments)
  (used : (shmem.segments id).used = true) (full : filled id = (shmem.segments id).pages)

include ledger below used full

lemma ShmLedger.frame_mem {k : Nat} (inside : k < (shmem.segments id).pages) :
    (shmem.segments id).frame k ∈ frames :=
  (ledger.segments.listed _).mpr ⟨id, below, used, k, by rwa [full], rfl⟩

lemma ShmLedger.frames_nodup : (shmem.segments id).frames.Nodup := by
  refine List.Nodup.map_on (fun k inside l inside' same => ?_) nodup_range
  rw [mem_range, ← full] at inside inside'
  exact (ledger.segments.distinct id below id below used used k inside l inside' same).2

lemma ShmLedger.release (unnamed : ∀ r, ¬shmem.Names r id) :
    ShmLedger kernel filled { vm with pmem := vm.pmem.derefFrames (shmem.segments id).frames }
        (shmem.setSegment id .cleared) live procs (frames.filter fun f => f ∉ (shmem.segments id).frames) claims ∧
      ∀ f ∈ (shmem.segments id).frames,
        (vm.pmem.derefFrames (shmem.segments id).frames).frameBitmap f = false := by
  have inSegment : ∀ f ∈ (shmem.segments id).frames, f ∈ frames ∧ claimed claims f = 0 := by
    intro f listed
    obtain ⟨k, inRange, rfl⟩ := mem_map.mp listed
    have inside := mem_range.mp inRange
    exact ⟨ledger.frame_mem below used full inside,
      ledger.pages.unclaimed ledger.segments ledger.records below used (by rwa [full]) unnamed⟩
  obtain ⟨memory, freed⟩ := ledger.memory.dropAll (ledger.frames_nodup below used full)
    (fun f listed => (inSegment f listed).1) fun f listed => (inSegment f listed).2
  exact ⟨⟨memory, ledger.segments.clear below used full,
    ledger.records.setUnnamed unnamed (fun _ _ => rfl) (by decide), ledger.pages.setUnnamed unnamed _⟩, freed⟩

end Release

/-- The end of detaching: a segment that was removed goes with its last attachment. -/
def settleSegment (pmem : Pmem) (shmem : Shmem) (id : Nat) : Pmem × Shmem :=
  if (shmem.segments id).removed then releaseSegment pmem shmem id else (pmem, shmem)

section Settle

variable {later : List Nat}

/-- What a part of detaching leaves, with references that the teardown releases later counted as released. -/
abbrev DetachLeaves (kernel : Nat → Prop) (filled : Nat → Nat) (live : Finset Nat) (procs : Nat → ShmProcess)
    (claims : Finset Claim) (later : List Nat) (vm : Vm) (pmem : Pmem) (shmem : Shmem) (result : Pmem × Shmem) : Prop :=
  ∃ frames, ShmLedger kernel filled { vm with pmem := result.1.derefFrames later } result.2 live procs frames claims ∧
    Settled result.2 ∧ Survives (result.1.derefFrames later) shmem result.2 ∧
    StillFree (pmem.derefFrames later) (result.1.derefFrames later)

lemma ShmLedger.settle
    (ledger : ShmLedger kernel filled { vm with pmem := pmem.derefFrames later } shmem live procs frames claims)
    (below : id < shmMaxSegments) (used : (shmem.segments id).used) (full : filled id = (shmem.segments id).pages)
    (settled : ∀ j ≠ id, j < shmMaxSegments → (shmem.segments j).used →
      (shmem.segments j).removed → (shmem.segments j).attachments ≠ 0) :
    DetachLeaves kernel filled live procs claims later vm pmem shmem (settleSegment pmem shmem id) := by
  by_cases idle : (shmem.segments id).removed ∧ (shmem.segments id).attachments = 0
  · obtain ⟨removed, zero⟩ := idle
    have counted := ledger.records.counted id below used
    rw [zero] at counted
    have unnamed : ∀ r, ¬shmem.Names r id := fun r names =>
      Finset.notMem_empty r (Finset.card_eq_zero.mp counted.symm ▸ mem_namers.mpr names)
    have tracked : ∀ k, k < (shmem.segments id).pages → (shmem.segments id).frame k < maxFrames :=
      fun k inside => ledger.memory.ledger.tracked _ (ledger.frame_mem below used full inside)
    have outcome : settleSegment pmem shmem id =
        (pmem.derefFrames (shmem.segments id).frames, shmem.setSegment id .cleared) := by
      rw [settleSegment, if_pos removed, releaseSegment_eq below used zero tracked]
    obtain ⟨after, freed⟩ := ledger.release below used full unnamed
    have order := cell_derefFrames_comm (shmem.segments id).frames later pmem
    have bitmap : ∀ f, ((pmem.derefFrames (shmem.segments id).frames).derefFrames later).frameBitmap f =
        ((pmem.derefFrames later).derefFrames (shmem.segments id).frames).frameBitmap f := fun f => by
      rw [← cell_used, order, cell_used]
    rw [outcome]
    refine ⟨_, ⟨after.memory.congr order, after.segments, after.records, after.pages⟩, ?_, ⟨?_, ?_, ?_⟩, ?_⟩
    · intro j inTable held
      have other := used_ne_of_cleared held
      rw [setSegment_other _ _ other] at held ⊢
      exact settled j other inTable held
    · intro j _ _
      by_cases same : j = id
      · subst same
        refine .inr ⟨removed, by rw [setSegment_self]; rfl, fun f listed => ?_⟩
        rw [bitmap]
        exact freed f listed
      · rw [setSegment_other _ _ same]
        exact .inl ⟨SameSegment.refl _, rfl⟩
    · intro j unused
      by_cases same : j = id
      · rw [same, setSegment_self]
        rfl
      · rwa [setSegment_other _ _ same]
    · exact fun r j names => ⟨names, rfl⟩
    · intro f clear
      rw [bitmap]
      exact frameBitmap_derefFrames clear _
  · -- The segment was not removed, or still has attachments.
    have outcome : settleSegment pmem shmem id = (pmem, shmem) := by
      unfold settleSegment
      split
      · rename_i removed
        have some : (shmem.segments id).attachments ≠ 0 := fun zero => idle ⟨removed, zero⟩
        simp [releaseSegment, segmentFromId_some.mpr ⟨rfl, below, used⟩, some]
      · rfl
    rw [outcome]
    refine ⟨frames, ledger, fun j inTable held removed => ?_, Survives.refl _ _, fun _ clear => clear⟩
    by_cases same : j = id
    · subst same
      exact fun zero => idle ⟨removed, zero⟩
    · exact settled j same inTable held removed

lemma detachAttachment_eq {pid r : Nat} (names : shmem.Names r id) (below : id < shmMaxSegments)
    (used : (shmem.segments id).used) (owner : (shmem.attachments r).pid = pid)
    (some : (shmem.segments id).attachments ≠ 0) :
    detachAttachment pid (pmem, shmem) r = settleSegment pmem (dropAttachment shmem r id) id := by
  have found : segmentFromId shmem id = Option.some id := segmentFromId_some.mpr ⟨rfl, below, used⟩
  simp only [detachAttachment, settleSegment, dropAttachment, names.2.1, names.2.2, owner, found,
    beq_self_eq_true, Bool.and_self, ite_true, ne_eq, some, not_false_eq_true]
  rfl

lemma survives_dropAttachment (pmem : Pmem) (shmem : Shmem) (slot id : Nat) :
    Survives pmem shmem (dropAttachment shmem slot id) where
  segments := fun j _ _ => .inl ⟨dropAttachment_same shmem slot id j, by
    by_cases same : j = id
    · simp [dropAttachment, same]
    · simp [dropAttachment, setSegment_other _ _ same]⟩
  unused := fun j unused => (dropAttachment_same shmem slot id j).used.trans unused
  names := fun r j left => by
    obtain ⟨other, names⟩ := dropAttachment_names.mp left
    exact ⟨names, dropAttachment_attachments other⟩

lemma ShmLedger.dropSettle (later : List Nat) {slot : Nat} {claims' : Finset Claim}
    (ledger : ShmLedger kernel filled { vm with pmem := pmem.derefFrames later } shmem live procs frames claims)
    (settled : Settled shmem) (names : shmem.Names slot id) (vm' : Vm) (pmem' : Pmem)
    (memory : FrameClaims kernel { vm' with pmem := pmem'.derefFrames later } live frames claims')
    (members : ∀ c, c ∈ claims' ↔ c ∈ claims ∧ ∀ k, k < (shmem.segments id).pages →
      (shmem.attachments slot).pid = (procs c.pd).pid → c.page ≠ (shmem.attachments slot).page k) :
    DetachLeaves kernel filled live procs claims' later vm' pmem' shmem
      (settleSegment pmem' (dropAttachment shmem slot id) id) := by
  obtain ⟨below, used, full⟩ := ledger.records.names names
  have same := dropAttachment_same shmem slot id
  have dropped : ShmLedger kernel filled { vm' with pmem := pmem'.derefFrames later }
      (dropAttachment shmem slot id) live procs frames claims' :=
    ⟨memory, ledger.segments.carry same, ledger.records.drop names, ledger.pages.drop names members⟩
  obtain ⟨frames', after, settled', survives, free⟩ := dropped.settle below ((same id).used.trans used)
    (full.trans (same id).pages.symm) fun j other inTable held removed => by
      simp only [dropAttachment, setSegment_other _ _ other] at held removed ⊢
      exact settled j inTable held removed
  exact ⟨frames', after, settled', (survives_dropAttachment _ shmem slot id).trans survives free, free⟩

lemma ShmLedger.detachLoop (pid : Nat) (indices : List Nat)
    (ledger : ShmLedger kernel filled { vm with pmem := pmem.derefFrames later } shmem live procs frames claims)
    (settled : Settled shmem) (inTable : ∀ i ∈ indices, i < shmMaxAttachments)
    (gone : ∀ q ∈ live, (procs q).pid ≠ pid) : DetachLeaves kernel filled live procs claims later vm pmem shmem
      (indices.foldl (detachAttachment pid) (pmem, shmem)) := by
  induction indices generalizing pmem shmem frames with
  | nil => exact ⟨frames, ledger, settled, Survives.refl _ _, fun _ clear => clear⟩
  | cons r rest ih =>
    have within := inTable r mem_cons_self
    have others := fun i mem => inTable i (mem_cons_of_mem r mem)
    rw [foldl_cons]
    by_cases mine : (shmem.attachments r).used ∧ (shmem.attachments r).pid = pid
    · obtain ⟨held, owner⟩ := mine
      obtain ⟨id, below, names, used, _⟩ := ledger.records.named r within held
      obtain ⟨frames', after, settled', survives, free⟩ :=
        ledger.dropSettle later settled names vm pmem ledger.memory
          (fun c => ⟨fun mem => ⟨mem, fun k _ theirs => by
          have living := ((ledger.pages.claim c).mp mem).1
          exact absurd (theirs.symm.trans owner) (gone c.pd living)⟩, And.left⟩)
      rw [detachAttachment_eq names below used owner (ledger.records.attachments_ne_zero names)]
      obtain ⟨frames'', done, settled'', survives', free'⟩ := ih after settled' others
      exact ⟨frames'', done, settled'', survives.trans survives' free', fun f clear => free' f (free f clear)⟩
    · have skipped : detachAttachment pid (pmem, shmem) r = (pmem, shmem) := by
        simp only [detachAttachment]
        rw [if_neg (by simpa using mine)]
      rw [skipped]
      exact ih ledger settled others

end Settle

/-- The end of a process: the teardown releases each page of its attachments. -/
def ExitServed (state : ShmState) (pd : Nat) : Prop :=
  ∀ r id, state.shmem.Names r id → (state.shmem.attachments r).pid = (state.procs pd).pid →
    ∀ k, k < (state.shmem.segments id).pages →
      ClaimServed state.vm ((state.shmem.segments id).claim pd (state.shmem.attachments r).address k)

lemma processExit_eq (state : ShmState) (pd : Nat) : processExit state pd = { state with
      vm := { state.vm with
        pmem := (shmemDetachProcess state.vm.pmem state.shmem (state.procs pd).pid).1.derefFrames
          (teardownFrames state.vm pd) }
      shmem := (shmemDetachProcess state.vm.pmem state.shmem (state.procs pd).pid).2
      live := state.live.erase pd } := by
  unfold processExit processFreeAddressSpace
  generalize shmemDetachProcess state.vm.pmem state.shmem (state.procs pd).pid = result
  simp only [freeDirectory_eq]

lemma ShmLedger.exit {state : ShmState} {pd : Nat}
    (ledger : ShmLedger kernel filled state.vm state.shmem state.live state.procs frames claims)
    (settled : Settled state.shmem) (alive : pd ∈ state.live) (served : ExitServed state pd) :
    ∃ frames' claims', ShmLedger kernel filled (processExit state pd).vm (processExit state pd).shmem
        (processExit state pd).live (processExit state pd).procs frames' claims' ∧
      Settled (processExit state pd).shmem ∧
      Survives (processExit state pd).vm.pmem state.shmem (processExit state pd).shmem ∧
      StillFree state.vm.pmem (processExit state pd).vm.pmem := by
  have claimServed : ∀ c ∈ claims, c.pd = pd → ClaimServed state.vm c := by
    intro c mem mine
    obtain ⟨_, r, id, names, owner, k, inside, page, frame⟩ := (ledger.pages.claim c).mp mem
    rw [mine] at owner
    have goal := served r id names owner k inside
    cases c
    subst mine page frame
    exact goal
  have torn : ShmLedger kernel filled
      { state.vm with pmem := state.vm.pmem.derefFrames (teardownFrames state.vm pd) } state.shmem
      (state.live.erase pd) state.procs frames (claims.filter fun c => c.pd ≠ pd) :=
    ⟨ledger.memory.teardown alive claimServed, ledger.segments, ledger.records, ledger.pages.exit pd⟩
  obtain ⟨frames', after, settled', survives, free⟩ := torn.detachLoop (state.procs pd).pid
    (range (shmMaxSegments * 4)) settled (fun i mem => mem_range.mp mem) fun q left same => by
      have living := Finset.mem_of_mem_erase left
      exact Finset.ne_of_mem_erase left (ledger.pages.pids q living pd alive same)
  rw [processExit_eq, shmemDetachProcess]
  generalize foldl (detachAttachment (state.procs pd).pid) (state.vm.pmem, state.shmem)
    (range (shmMaxSegments * 4)) = result at after settled' survives free ⊢
  generalize teardownFrames state.vm pd = released at after survives free ⊢
  exact ⟨frames', _, after, settled', survives, fun f clear =>
    free f (frameBitmap_derefFrames clear _)⟩

end Galio
