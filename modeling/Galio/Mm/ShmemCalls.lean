import Galio.Mm.ShmemExit

/-! The shared-memory calls keep the ledger of segments. -/

namespace Galio

open Pmem List

/-- The state between calls: every segment has all its frames, and none is left over. -/
def ShmInvariant (kernel : Nat → Prop) (state : ShmState) : Prop :=
  ∃ filled frames claims,
    ShmLedger kernel filled state.vm state.shmem state.live state.procs frames claims ∧
      (∀ id, id < shmMaxSegments → (state.shmem.segments id).used = true →
        filled id = (state.shmem.segments id).pages) ∧
      Settled state.shmem

/--
What a call does to a segment: it stays, or was removed and is released, its frames free or in a segment the call
made.
-/
def SegmentsStep (before : ShmState) (op : ShmOp) (after : ShmState) : Prop :=
  ∀ id, id < shmMaxSegments → (before.shmem.segments id).used = true →
    SameSegment (before.shmem.segments id) (after.shmem.segments id) ∨
    ((before.shmem.segments id).removed = true ∨ op = .remove id) ∧
      (after.shmem.segments id).used = false ∧
      ∀ f ∈ (before.shmem.segments id).frames, after.vm.pmem.frameBitmap f = false ∨
        ∃ new, new < shmMaxSegments ∧ (before.shmem.segments new).used = false ∧
          (after.shmem.segments new).used = true ∧ (∀ r, ¬after.shmem.Names r new) ∧
          f ∈ (after.shmem.segments new).frames

lemma SegmentsStep.refl (state : ShmState) (op : ShmOp) : SegmentsStep state op state :=
  fun _ _ _ => .inl (SameSegment.refl _)

lemma Survives.left {pmem : Pmem} {before after : Shmem} (survives : Survives pmem before after) {id : Nat}
    (below : id < shmMaxSegments) (used : (after.segments id).used) :
    (before.segments id).used ∧ SameSegment (before.segments id) (after.segments id) ∧
      (after.segments id).removed = (before.segments id).removed := by
  by_cases old : (before.segments id).used
  · rcases survives.segments id below old with same | ⟨_, gone, _⟩
    · exact ⟨old, same⟩
    · exact absurd used (by rw [gone]; decide)
  · exact absurd used (by rw [survives.unused id (Bool.eq_false_iff.mpr old)]; decide)

lemma Survives.step {before after : ShmState} (survives : Survives after.vm.pmem before.shmem after.shmem)
    (op : ShmOp) : SegmentsStep before op after := by
  intro id below used
  rcases survives.segments id below used with ⟨same, _⟩ | ⟨removed, gone, freed⟩
  · exact .inl same
  · exact .inr ⟨.inl removed, gone, fun f listed => .inl (freed f listed)⟩

variable {kernel : Nat → Prop} {state : ShmState} {pd : Nat}

section Attach

lemma shmemAttach_cases (state : ShmState) (pd : Nat) (shmid : Int) (requested : Nat) :
    (shmemAttach state pd shmid requested).1 = state ∨
      ∃ id address slot, id < shmMaxSegments ∧ (state.shmem.segments id).used ∧
        (state.shmem.segments id).removed = false ∧
        findAddress (state.procs pd) requested ((state.shmem.segments id).pages * pageSize) = some address ∧
        slot < shmMaxAttachments ∧ (state.shmem.attachments slot).used = false ∧
        (shmemAttach state pd shmid requested).1 = { state with
          vm := (range (state.shmem.segments id).pages).foldl
            (attachPage pd address (state.shmem.segments id)) state.vm
          shmem := addAttachment state.shmem slot id ⟨true, (state.procs pd).pid, id, address⟩
          procs := Function.update state.procs pd
            ((state.procs pd).record address ((state.shmem.segments id).pages * pageSize) id) } := by
  unfold shmemAttach
  split
  · exact .inl rfl
  rename_i id found
  obtain ⟨rfl, below, used⟩ := segmentFromId_some.mp found
  dsimp only
  split
  · exact .inl rfl
  rename_i open'
  split
  · rename_i address slot place free
    refine .inr ⟨id, address, slot, below, used, ?_, place, ?_, ?_, rfl⟩
    · exact Bool.eq_false_iff.mpr fun removed => open' (.inl removed)
    · exact mem_range.mp (mem_of_find?_eq_some free)
    · simpa using find?_some free
  · exact .inl rfl

lemma ShmInvariant.attach (invariant : ShmInvariant kernel state) (alive : pd ∈ state.live)
    (shmid : Int) (requested : Nat) : ShmInvariant kernel (shmemAttach state pd shmid requested).1 ∧
      SegmentsStep state (.attach pd shmid requested) (shmemAttach state pd shmid requested).1 := by
  rcases shmemAttach_cases state pd shmid requested with
    same | ⟨id, address, slot, below, used, kept, place, inTable, unused, outcome⟩
  · rw [same]
    exact ⟨invariant, SegmentsStep.refl _ _⟩
  · obtain ⟨filled, frames, claims, ledger, full, settled⟩ := invariant
    obtain ⟨above, ends, aligned, clear⟩ := findAddress_some place
    have whole := full id below used
    -- No older claim of the process is on one of the pages.
    have fresh : ∀ k, k < (state.shmem.segments id).pages → ∀ d ∈ claims, d.pd = pd →
        d.page ≠ address + k * pageSize := by
      intro k inside d mem mine meet
      obtain ⟨_, r, j, names, owner, l, inside', page, _⟩ := (ledger.pages.claim d).mp mem
      rw [mine] at owner
      obtain ⟨i, recorded, first, size⟩ := ledger.pages.region r j names pd alive owner.symm
      exact stretch_apart clear ends recorded first size inside inside' (meet.symm.trans page)
    obtain ⟨claims', memory, members⟩ := ledger.memory.attachPages
      (state.shmem.segments id) address (nodup_range (n := (state.shmem.segments id).pages)) alive
      (fun k inRange => ledger.segments.whole id below used k (by rw [whole]; exact mem_range.mp inRange))
      (fun k inRange => ledger.frame_mem below used whole (mem_range.mp inRange))
      (fun k inRange => heapPage_attached above ends aligned (mem_range.mp inRange))
      (fun k inRange => fresh k (mem_range.mp inRange))
      (fun k inRange l inRange' same => (ledger.segments.distinct id below id below used used k
        (by rw [whole]; exact mem_range.mp inRange) l (by rw [whole]; exact mem_range.mp inRange')
        same).2)
      (fun k _ => Nat.lt_of_le_of_lt (ledger.pages.claimed_le ledger.segments ledger.records _) (by decide))
    have same := addAttachment_same state.shmem slot id ⟨true, (state.procs pd).pid, id, address⟩
    rw [outcome]
    refine ⟨⟨filled, frames, claims', ⟨memory, ledger.segments.carry same,
      ledger.records.add inTable unused rfl rfl below used whole,
      ledger.pages.add inTable unused alive above ends aligned clear fun c => ?_⟩, fun j within held => ?_,
      settled.setSegment kept⟩, fun j _ _ => .inl (same j)⟩
    · rw [members]
      simp only [mem_range]
    · rw [(same j).used] at held
      rw [(same j).pages]
      exact full j within held

end Attach

section Detach

lemma shmemDetach_cases (state : ShmState) (pd address : Nat) : (shmemDetach state pd address).1 = state ∨
      ∃ slot id : Nat, slot < shmMaxAttachments ∧ (state.shmem.attachments slot).used ∧
        (state.shmem.attachments slot).pid = (state.procs pd).pid ∧ (state.shmem.attachments slot).address = address ∧
        (state.shmem.attachments slot).shmid = id ∧ (shmemDetach state pd address).1 =
          let vm := (range (state.shmem.segments id).pages).foldl
            (detachPage pd address (state.shmem.segments id)) state.vm
          let settled := settleSegment vm.pmem (dropAttachment state.shmem slot id) id
          { state with vm := { vm with pmem := settled.1 }, shmem := settled.2 } := by
  unfold shmemDetach
  split
  · exact .inl rfl
  split
  · exact .inl rfl
  rename_i slot found
  dsimp only
  split
  · exact .inl rfl
  rename_i id named
  obtain ⟨shmid, _, _⟩ := segmentFromId_some.mp named
  have matched := find?_some found
  simp only [Bool.and_eq_true, beq_iff_eq] at matched
  refine .inr ⟨slot, id, mem_range.mp (mem_of_find?_eq_some found), matched.1.1, matched.1.2,
    matched.2, shmid, ?_⟩
  have removed : ((dropAttachment state.shmem slot id).segments id).removed =
      (state.shmem.segments id).removed := by
    simp [dropAttachment]
  rw [settleSegment, removed, shmid]
  split
  · rfl
  · rfl

lemma ShmInvariant.detach (invariant : ShmInvariant kernel state) (alive : pd ∈ state.live)
    (address : Nat) : ShmInvariant kernel (shmemDetach state pd address).1 ∧
      SegmentsStep state (.detach pd address) (shmemDetach state pd address).1 := by
  rcases shmemDetach_cases state pd address with
    same | ⟨slot, id, inTable, held, owner, rfl, shmid, outcome⟩
  · rw [same]
    exact ⟨invariant, SegmentsStep.refl _ _⟩
  · obtain ⟨filled, frames, claims, ledger, full, settled⟩ := invariant
    have names : state.shmem.Names slot id := ⟨inTable, held, shmid⟩
    have claimed : ∀ k, k < (state.shmem.segments id).pages →
        (state.shmem.segments id).claim pd (state.shmem.attachments slot).address k ∈ claims := fun k inside =>
      (ledger.pages.claim _).mpr ⟨alive, slot, id, names, owner, k, inside, rfl, rfl⟩
    obtain ⟨claims', memory, members⟩ := ledger.memory.detachPages
      (nodup_range (n := (state.shmem.segments id).pages))
      fun k inRange => claimed k (mem_range.mp inRange)
    generalize (range (state.shmem.segments id).pages).foldl
      (detachPage pd (state.shmem.attachments slot).address (state.shmem.segments id)) state.vm = vm
      at memory outcome
    obtain ⟨frames', after, settled', survives, _⟩ := ledger.dropSettle [] settled names vm vm.pmem
      memory fun c => by
        rw [members]
        refine and_congr_right fun mem => ⟨fun others k inside mine page => ?_, fun others k inRange same => ?_⟩
        · -- A claim of the process on one of the pages is the one that is given up.
          have living := ((ledger.pages.claim c).mp mem).1
          have process := ledger.pages.pids c.pd living pd alive (mine.symm.trans owner)
          exact others k (mem_range.mpr inside)
            (ledger.memory.ledger.unique c mem _ (claimed k inside) process page)
        · subst same
          exact others k (mem_range.mp inRange) owner rfl
    rw [outcome]
    refine ⟨⟨filled, frames', claims', after, fun j within used => ?_, settled'⟩, survives.step _⟩
    obtain ⟨old, same, _⟩ := survives.left within used
    rw [same.pages]
    exact full j within old

end Detach

section Remove

/-- The tables with a segment marked for removal. -/
abbrev Shmem.mark (shmem : Shmem) (id : Nat) : Shmem :=
  shmem.setSegment id { shmem.segments id with removed := true }

lemma shmemRemove_cases (state : ShmState) (shmid : Int) : (shmemRemove state shmid).1 = state ∨
      ∃ id : Nat, shmid = id ∧ id < shmMaxSegments ∧ (state.shmem.segments id).used ∧ (shmemRemove state shmid).1 =
          let settled := settleSegment state.vm.pmem (state.shmem.mark id) id
          { state with vm := { state.vm with pmem := settled.1 }, shmem := settled.2 } := by
  unfold shmemRemove
  split
  · exact .inl rfl
  rename_i id found
  obtain ⟨rfl, below, used⟩ := segmentFromId_some.mp found
  refine .inr ⟨id, rfl, below, used, ?_⟩
  dsimp only
  rw [settleSegment, setSegment_self]
  split
  · rfl
  rename_i some
  -- A segment with attachments is marked and left.
  have marked : segmentFromId (state.shmem.mark id) id = Option.some id :=
    segmentFromId_some.mpr ⟨rfl, below, by rw [setSegment_self]; exact used⟩
  have left : releaseSegment state.vm.pmem (state.shmem.mark id) id = (state.vm.pmem, state.shmem.mark id) := by
    simp only [releaseSegment, marked, setSegment_self, ne_eq, some, not_false_eq_true, ite_true]
  rw [left]
  rfl

lemma ShmInvariant.remove (invariant : ShmInvariant kernel state) (shmid : Int) :
    ShmInvariant kernel (shmemRemove state shmid).1 ∧
      SegmentsStep state (.remove shmid) (shmemRemove state shmid).1 := by
  rcases shmemRemove_cases state shmid with same | ⟨id, rfl, below, used, outcome⟩
  · rw [same]
    exact ⟨invariant, SegmentsStep.refl _ _⟩
  · obtain ⟨filled, frames, claims, ledger, full, settled⟩ := invariant
    have same : ∀ j, SameSegment (state.shmem.segments j) ((state.shmem.mark id).segments j) :=
      setSegment_same ⟨rfl, rfl, rfl, rfl, fun _ => rfl⟩
    have attachments : ∀ j, ((state.shmem.mark id).segments j).attachments =
        (state.shmem.segments j).attachments := fun j => by
      by_cases here : j = id
      · subst here
        rw [setSegment_self]
      · rw [setSegment_other _ _ here]
    have other : ∀ j ≠ id, (state.shmem.mark id).segments j = state.shmem.segments j :=
      fun j => setSegment_other _ _
    have table : (state.shmem.mark id).attachments = state.shmem.attachments := rfl
    generalize state.shmem.mark id = marked at same attachments other table outcome
    have markedLedger : ShmLedger kernel filled { state.vm with pmem := state.vm.pmem.derefFrames [] } marked
        state.live state.procs frames claims :=
      ⟨ledger.memory, ledger.segments.carry same, ledger.records.carry same table attachments,
        ledger.pages.carry same table⟩
    obtain ⟨frames', after, settled', survives, _⟩ := markedLedger.settle below ((same id).used.trans used)
      ((full id below used).trans (same id).pages.symm) fun j apart inTable held removed => by
        rw [other j apart] at held removed ⊢
        exact settled j inTable held removed
    rw [outcome]
    refine ⟨⟨filled, frames', claims, after, fun j within held => ?_, settled'⟩, fun j within held => ?_⟩
    · obtain ⟨old, kept, _⟩ := survives.left within held
      rw [(same j).used] at old
      rw [kept.pages, (same j).pages]
      exact full j within old
    · rcases survives.segments j within ((same j).used.trans held) with ⟨kept, _⟩ | ⟨removed, gone, freed⟩
      · exact .inl ((same j).trans kept)
      · refine .inr ⟨?_, gone, fun f listed => .inl (freed f ?_)⟩
        · by_cases here : j = id
          · exact .inr (by rw [here])
          · rw [other j here] at removed
            exact .inl removed
        · rwa [(same j).frames]

end Remove

lemma ShmInvariant.exit (invariant : ShmInvariant kernel state) (alive : pd ∈ state.live)
    (served : ExitServed state pd) :
    ShmInvariant kernel (processExit state pd) ∧ SegmentsStep state (.exit pd) (processExit state pd) := by
  obtain ⟨filled, frames, claims, ledger, full, settled⟩ := invariant
  obtain ⟨frames', claims', after, settled', survives, _⟩ := ledger.exit settled alive served
  refine ⟨⟨filled, frames', claims', after, fun j within held => ?_, settled'⟩, survives.step _⟩
  obtain ⟨old, same, _⟩ := survives.left within held
  rw [same.pages]
  exact full j within old

end Galio
