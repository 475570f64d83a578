import Galio.Process.ElfLaws
import Galio.Syscall.HeapRuns

/-! When the memory `elf_load` leaves reads as the file describes it. -/

namespace Galio

open List

variable {ph : ProgramHeader} {pages indices : List Nat} {i page addr : Nat}

lemma ElfImage.u16_lt (image : ElfImage) (offset : Nat) : image.u16 offset < 2 ^ 16 := by
  unfold ElfImage.u16
  omega

lemma ElfImage.u32_lt (image : ElfImage) (offset : Nat) : image.u32 offset < 2 ^ 32 := by
  have low := image.u16_lt offset
  have high := image.u16_lt (offset + 2)
  unfold ElfImage.u32
  omega

lemma checkedAdd_eq_some {a b c : Nat} (small : a < 2 ^ 32) (small' : b < 2 ^ 32) :
    checkedAdd a b = some c ↔ c = a + b ∧ a + b < 2 ^ 32 := by
  unfold checkedAdd
  dsimp only
  split
  · simp only [reduceCtorEq, false_iff]
    omega
  · rw [Option.some.injEq]
    omega

/-- An address in one of the pages of a segment. -/
def ProgramHeader.Covers (ph : ProgramHeader) (addr : Nat) : Prop :=
  pageAlignDown ph.pVaddr ≤ addr ∧ pageAlignDown addr < ph.pVaddr + ph.pMemsz
  deriving Decidable

/-- A segment the loader lets through. -/
structure SegmentFits (ph : ProgramHeader) : Prop where
  file : ph.pFilesz ≤ ph.pMemsz
  positive : 0 < ph.pMemsz
  above : userHeapStart - pageSize ≤ ph.pVaddr
  below : ph.pVaddr + ph.pMemsz ≤ userSpaceEnd + 1
  pages : segmentPages ph =
    some (pagesUpTo (pageAlignDown ph.pVaddr) (pageAlignDown (ph.pVaddr + ph.pMemsz + (pageSize - 1))))

lemma segmentPages_eq_some (vaddr : ph.pVaddr < 2 ^ 32) (memsz : ph.pMemsz < 2 ^ 32)
    (rounded : segmentPages ph = some pages) : pages = pagesUpTo (pageAlignDown ph.pVaddr)
      (pageAlignDown (ph.pVaddr + ph.pMemsz + (pageSize - 1))) := by
  have small : pageSize - 1 < 2 ^ 32 := by decide
  unfold segmentPages at rounded
  generalize pageSize - 1 = rounding at rounded small ⊢
  cases size : checkedAdd ph.pMemsz rounding with
  | none =>
    rw [size] at rounded
    simp at rounded
  | some total =>
    simp only [size] at rounded
    obtain ⟨rfl, fits⟩ := (checkedAdd_eq_some memsz small).mp size
    cases limit : checkedAdd ph.pVaddr (ph.pMemsz + rounding) with
    | none =>
      rw [limit] at rounded
      simp at rounded
    | some stop =>
      simp only [limit] at rounded
      obtain ⟨rfl, _⟩ := (checkedAdd_eq_some vaddr fits).mp limit
      cases rounded
      rw [Nat.add_assoc]

variable {after vm : Vm} {image : ElfImage} {j pd : Nat} {later : List Nat} {oomKill : Vm → Vm}

lemma segmentFits_of_accepted (accepted : segmentAccepted image i)
    (rounded : segmentPages (image.header i) = some pages) : SegmentFits (image.header i) := by
  have vaddr : (image.header i).pVaddr < 2 ^ 32 := image.u32_lt _
  have memsz : (image.header i).pMemsz < 2 ^ 32 := image.u32_lt _
  simp only [segmentAccepted, Bool.and_eq_true, decide_eq_true_eq] at accepted
  obtain ⟨⟨⟨file, _⟩, valid⟩, _⟩ := accepted
  unfold elfSegmentValid elfRangeValid at valid
  split at valid
  · simp at valid
  cases last : checkedAdd (image.header i).pVaddr ((image.header i).pMemsz - 1) with
  | none =>
    rw [last] at valid
    simp at valid
  | some value =>
    obtain ⟨rfl, _⟩ := (checkedAdd_eq_some vaddr (by omega)).mp last
    simp only [last, Bool.not_or, Bool.and_eq_true, Bool.not_eq_true', decide_eq_false_iff_not] at valid
    exact ⟨file, by omega, by omega, by omega,
      rounded.trans (congrArg some (segmentPages_eq_some vaddr memsz rounded))⟩

lemma SegmentFits.mem_pages (fits : SegmentFits ph) :
    page ∈ ph.pages ↔ pageAlignDown page = page ∧ ph.Covers page := by
  rw [ProgramHeader.pages, fits.pages, Option.getD_some, mem_pagesUpTo, ProgramHeader.Covers]
  simp only [pageAlignDown, pageSize]
  omega

lemma SegmentFits.imagePage (fits : SegmentFits ph)
    (covers : ph.Covers addr) (start : pageAlignDown addr = addr) : ImagePage addr := by
  obtain ⟨least, most⟩ := covers
  have above := fits.above
  have below := fits.below
  simp only [pageAlignDown, userHeapStart, pageSize] at above least
  refine ⟨?_, by omega⟩
  simp only [userHeapStart, pageSize]
  omega

lemma SegmentFits.covers_iff (fits : SegmentFits ph) :
    (∃ page ∈ ph.pages, pageAlignDown addr = pageAlignDown page) ↔ ph.Covers addr := by
  constructor
  · rintro ⟨page, mem, same⟩
    obtain ⟨start, least, most⟩ := fits.mem_pages.mp mem
    refine ⟨?_, by rwa [same]⟩
    simp only [pageAlignDown, pageSize] at same least ⊢
    omega
  · rintro ⟨least, most⟩
    have again : pageAlignDown (pageAlignDown addr) = pageAlignDown addr := by
      simp only [pageAlignDown, pageSize]
      omega
    refine ⟨pageAlignDown addr, fits.mem_pages.mpr ⟨again, ?_, by rwa [again]⟩, again.symm⟩
    simp only [pageAlignDown, pageSize] at least ⊢
    omega

lemma ProgramHeader.covers_byte (inside : j < ph.pMemsz) : ph.Covers (ph.pVaddr + j) := by
  constructor
  · simp only [pageAlignDown, pageSize]
    omega
  · simp only [pageAlignDown, pageSize]
    omega

lemma SegmentFits.byte_of_page (fits : SegmentFits ph) (mem : page ∈ ph.pages) :
    ∃ j < ph.pMemsz, pageAlignDown (ph.pVaddr + j) = pageAlignDown page := by
  obtain ⟨start, least, most⟩ := fits.mem_pages.mp mem
  by_cases first : ph.pVaddr ≤ page
  · refine ⟨page - ph.pVaddr, by omega, ?_⟩
    rw [Nat.add_sub_cancel' first]
  · refine ⟨0, fits.positive, ?_⟩
    rw [start]
    apply Nat.le_antisymm least
    rw [← start]
    exact Nat.mul_le_mul_right _ (Nat.div_le_div_right (by omega))

/-- What a segment makes of the byte at an address. -/
def segmentByte (image : ElfImage) (addr : Nat) (content : Option (BitVec 8)) (i : Nat) :
    Option (BitVec 8) :=
  let ph := image.header i
  if ph.pType ≠ ptLoad then content
  else if ph.pVaddr ≤ addr ∧ addr < ph.pVaddr + ph.pFilesz then
    some (image.data (ph.pOffset + (addr - ph.pVaddr)))
  else if ph.Covers addr then some 0
  else content

/-- Every segment of a list finds memory at its turn. -/
def SegmentsServed (oomKill : Vm → Vm) (pd : Nat) (image : ElfImage) (vm : Vm) : List Nat → Prop
  | [] => True
  | i :: rest =>
    ((image.header i).pType = ptLoad → PagesServed oomKill pd vm (image.header i).pages) ∧
      ∀ after, loadSegment oomKill vm pd image i = (after, true) →
        SegmentsServed oomKill pd image after rest

/-- What loading segments does to a directory, with the pages still to come. -/
structure SegmentsLoaded (before after : Vm) (pd : Nat) (image : ElfImage) (indices later : List Nat) :
    Prop where
  load : LoadSpace after pd
  grows : Grows before after pd
  linked : PagesLinked before pd (loadPages image indices ++ later) →
    (∀ addr, addr < 2 ^ 32 → after.userByte pd addr =
      indices.foldl (segmentByte image addr) (before.userByte pd addr)) ∧ PagesLinked after pd later
  stuck : ¬PagesLinked before pd (loadPages image indices ++ later) →
    (∃ page ∈ loadPages image indices, Stuck after pd page) ∨ ¬PagesLinked after pd later

lemma loadSegment_cases (goes : loadSegment oomKill vm pd image i = (after, true)) :
    (image.header i).pType ≠ ptLoad ∧ after = vm ∨
      (image.header i).pType = ptLoad ∧ segmentAccepted image i ∧ SegmentFits (image.header i) ∧
        (mapPages oomKill vm (some pd) (image.header i).pages).2 = (image.header i).pages.length ∧
        after = copySegment (mapPages oomKill vm (some pd) (image.header i).pages).1 pd image (image.header i) := by
  have most := mapPages_le oomKill vm (some pd) (image.header i).pages
  unfold loadSegment at goes
  dsimp only at goes
  split at goes
  · rename_i kind
    cases goes
    exact .inl ⟨kind, rfl⟩
  · rename_i kind
    refine .inr ⟨not_not.mp kind, ?_⟩
    split at goes
    · simp at goes
    rename_i accepted
    rw [Bool.not_eq_true, Bool.not_eq_false'] at accepted
    cases rounded : segmentPages (image.header i) with
    | none =>
      rw [rounded] at goes
      simp at goes
    | some pages =>
      have list : (image.header i).pages = pages := by rw [ProgramHeader.pages, rounded, Option.getD_some]
      rw [list] at most ⊢
      simp only [rounded] at goes
      split at goes
      · simp at goes
      · cases goes
        exact ⟨accepted, segmentFits_of_accepted accepted rounded, by omega, rfl⟩

section Segment

lemma LoadSpace.segment (load : LoadSpace vm pd) (goes : loadSegment oomKill vm pd image i = (after, true))
    (served : (image.header i).pType = ptLoad → PagesServed oomKill pd vm (image.header i).pages)
    (inside : ∀ page ∈ later, ImagePage page) : SegmentsLoaded vm after pd image [i] later := by
  rcases loadSegment_cases goes with ⟨kind, rfl⟩ | ⟨kind, _, fits, done, result⟩
  · have none : loadPages image [i] = [] := by simp [loadPages, kind]
    refine ⟨load, ⟨fun _ _ => rfl, fun _ _ _ => rfl⟩, fun linked => ⟨fun addr _ => ?_, ?_⟩,
      fun unlinked => .inr ?_⟩
    · simp [segmentByte, kind]
    · rwa [none] at linked
    · rwa [none] at unlinked
  · have list : loadPages image [i] = (image.header i).pages := by simp [loadPages, kind]
    have within : ∀ page ∈ (image.header i).pages ++ later, ImagePage page := by
      intro page mem
      rcases mem_append.mp mem with own | other
      · obtain ⟨start, covers⟩ := fits.mem_pages.mp own
        exact fits.imagePage covers start
      · exact inside page other
    have mapped := load.mapPages within (served kind) done
    have bytes : ∀ j, j < (image.header i).pFilesz → ImagePage ((image.header i).pVaddr + j) := by
      intro j small
      have above := fits.above
      have below := fits.below
      have file := fits.file
      exact ⟨by omega, by omega⟩
    have copied : Copied (Galio.mapPages oomKill vm (some pd) (image.header i).pages).1
        (copySegment (Galio.mapPages oomKill vm (some pd) (image.header i).pages).1 pd image
          (image.header i)) pd image (image.header i) (image.header i).pFilesz :=
      mapped.load.copied bytes
    have low : ∀ page ∈ later, page < 2 ^ 32 := fun page mem => (inside page mem).high.low
    rw [result]
    refine ⟨copied.load, mapped.grows.trans copied.same.grows, fun linked => ?_, fun unlinked => ?_⟩
    · rw [list] at linked
      obtain ⟨blank, laterLinked⟩ := mapped.linked linked
      refine ⟨fun addr small => ?_, (copied.same.pagesLinked low).mpr laterLinked⟩
      -- Each byte that is copied falls in a page mapped a moment ago.
      have alone : ∀ j, j < (image.header i).pFilesz →
          Exclusive (Galio.mapPages oomKill vm (some pd) (image.header i).pages).1 pd
            ((image.header i).pVaddr + j) := by
        intro j within'
        obtain ⟨page, mem, here⟩ := fits.covers_iff.mpr
          (ProgramHeader.covers_byte (within'.trans_le fits.file))
        exact (blank.exclusive page mem).page mapped.load.space (within page (by simp [mem])).high.low
          (bytes j within').high.low here
      rw [copied.bytes alone addr small, blank.bytes addr small, foldl_cons, segmentByte,
        if_neg (not_not.mpr kind)]
      exact if_congr Iff.rfl rfl (if_congr fits.covers_iff rfl rfl)
    · rw [list] at unlinked ⊢
      rcases mapped.stuck unlinked with ⟨page, mem, stuck⟩ | none
      · exact .inl ⟨page, mem, copied.same.grows.stuck (within page (by simp [mem])).high.low stuck⟩
      · exact .inr fun linked => none ((copied.same.pagesLinked low).mp linked)

lemma loadSegments_cons {rest : List Nat} (done : loadSegments oomKill vm pd image (i :: rest) = (after, true)) :
    ∃ mid, loadSegment oomKill vm pd image i = (mid, true) ∧
      loadSegments oomKill mid pd image rest = (after, true) := by
  rw [loadSegments] at done
  cases body : loadSegment oomKill vm pd image i with
  | mk mid goes =>
    cases goes with
    | false => simp [body] at done
    | true =>
      rw [body] at done
      exact ⟨mid, rfl, done⟩

lemma loadSegments_accepted (done : loadSegments oomKill vm pd image indices = (after, true))
    (mem : i ∈ indices) (kind : (image.header i).pType = ptLoad) :
    segmentAccepted image i ∧ SegmentFits (image.header i) := by
  induction indices generalizing vm with
  | nil => simp at mem
  | cons head rest ih =>
    obtain ⟨mid, goes, next⟩ := loadSegments_cons done
    rcases mem_cons.mp mem with rfl | inRest
    · rcases loadSegment_cases goes with ⟨other, _⟩ | ⟨_, accepted, fits, _⟩
      · exact absurd kind other
      · exact ⟨accepted, fits⟩
    · exact ih next inRest

lemma loadPages_inside (fits : ∀ i ∈ indices, (image.header i).pType = ptLoad → SegmentFits (image.header i))
    (mem : page ∈ loadPages image indices) : ImagePage page := by
  obtain ⟨i, listed, own⟩ := mem_flatMap.mp mem
  split at own
  · rename_i kind
    obtain ⟨start, covers⟩ := (fits i listed kind).mem_pages.mp own
    exact (fits i listed kind).imagePage covers start
  · simp at own

lemma LoadSpace.segments (load : LoadSpace vm pd) (done : loadSegments oomKill vm pd image indices = (after, true))
    (served : SegmentsServed oomKill pd image vm indices) : SegmentsLoaded vm after pd image indices [] := by
  induction indices generalizing vm with
  | nil =>
    cases done
    refine ⟨load, ⟨fun _ _ => rfl, fun _ _ _ => rfl⟩, fun linked => ⟨fun _ _ => rfl, linked⟩, .inr⟩
  | cons i rest ih =>
    have fits : ∀ k ∈ i :: rest, (image.header k).pType = ptLoad → SegmentFits (image.header k) :=
      fun k mem kind => (loadSegments_accepted done mem kind).2
    obtain ⟨mid, goes, next⟩ := loadSegments_cons done
    have first := load.segment goes served.1 fun page =>
      loadPages_inside fun k mem => fits k (mem_cons_of_mem i mem)
    have second := ih first.load next (served.2 mid goes)
    have split : loadPages image (i :: rest) = loadPages image [i] ++ loadPages image rest := by
      simp [loadPages]
    refine ⟨second.load, first.grows.trans second.grows, fun linked => ?_, fun unlinked => ?_⟩
    · rw [split, append_nil] at linked
      obtain ⟨bytes, restLinked⟩ := first.linked linked
      obtain ⟨bytes', nothing⟩ := second.linked (by rwa [append_nil])
      refine ⟨fun addr small => ?_, nothing⟩
      rw [bytes' addr small, bytes addr small, ← foldl_append, singleton_append]
    · rw [split, append_nil] at unlinked
      rw [split]
      rcases first.stuck unlinked with ⟨page, mem, stuck⟩ | none
      · have listed : page ∈ loadPages image (i :: rest) := by
          rw [split]
          exact mem_append_left _ mem
        have below := (loadPages_inside fits listed).high.low
        exact .inl ⟨page, mem_append_left _ mem, second.grows.stuck below stuck⟩
      · rcases second.stuck (by rwa [append_nil]) with ⟨page, mem, stuck⟩ | empty
        · exact .inl ⟨page, mem_append_right _ mem, stuck⟩
        · exact .inr empty

end Segment

/-- Every byte of a loaded segment reads as the file's, or as zero past the file's part. -/
def ImageReads (vm : Vm) (pd : Nat) (image : ElfImage) : Prop :=
  ∀ i, i < image.phnum → (image.header i).pType = ptLoad → ∀ j, j < (image.header i).pMemsz →
    vm.userByte pd ((image.header i).pVaddr + j) =
      some (if j < (image.header i).pFilesz then image.data ((image.header i).pOffset + j) else 0)

/-- The file's bytes in the pages of a later segment are zero. -/
def SharedBlank (image : ElfImage) : Prop :=
  ∀ l, l < image.phnum → (image.header l).pType = ptLoad →
    ∀ i, i < l → (image.header i).pType = ptLoad → ∀ j, j < (image.header i).pFilesz →
      (image.header l).Covers ((image.header i).pVaddr + j) → image.data ((image.header i).pOffset + j) = 0

lemma segments_apart {l : Nat} (order : i < l)
    (kind : (image.header i).pType = ptLoad) (accepted : segmentAccepted image l)
    (fits : SegmentFits (image.header i)) (fits' : SegmentFits (image.header l)) :
    (image.header i).pVaddr + (image.header i).pMemsz ≤ (image.header l).pVaddr ∨
      (image.header l).pVaddr + (image.header l).pMemsz ≤ (image.header i).pVaddr := by
  simp only [segmentAccepted, Bool.and_eq_true, Bool.not_eq_true'] at accepted
  have none := any_eq_false.mp accepted.2 i (mem_range.mpr order)
  have positive := fits.positive
  have positive' := fits'.positive
  have below := fits.below
  have below' := fits'.below
  simp only [userSpaceEnd] at below below'
  -- Neither end wraps, so the test compares the segments themselves.
  have last : (image.header i).last = (image.header i).pVaddr + (image.header i).pMemsz - 1 := by
    unfold ProgramHeader.last
    omega
  have last' : (image.header l).last = (image.header l).pVaddr + (image.header l).pMemsz - 1 := by
    unfold ProgramHeader.last
    omega
  rw [if_neg (by omega), decide_eq_true_eq] at none
  omega

lemma foldl_segmentByte {content : Option (BitVec 8)} (apart : ∀ l ∈ later, (image.header l).pType = ptLoad →
      ¬((image.header l).pVaddr ≤ addr ∧ addr < (image.header l).pVaddr + (image.header l).pFilesz)) :
    later.foldl (segmentByte image addr) content =
      if ∃ l ∈ later, (image.header l).pType = ptLoad ∧ (image.header l).Covers addr then some 0 else content := by
  induction later generalizing content with
  | nil => simp
  | cons l rest ih =>
    rw [foldl_cons, ih fun k mem => apart k (mem_cons_of_mem l mem)]
    by_cases covered : ∃ k ∈ rest, (image.header k).pType = ptLoad ∧ (image.header k).Covers addr
    · have any : ∃ k ∈ l :: rest, (image.header k).pType = ptLoad ∧ (image.header k).Covers addr :=
        covered.imp fun k here => ⟨mem_cons_of_mem l here.1, here.2⟩
      rw [if_pos covered, if_pos any]
    · rw [if_neg covered, segmentByte]
      by_cases kind : (image.header l).pType = ptLoad
      · rw [if_neg (not_not.mpr kind), if_neg (apart l mem_cons_self kind)]
        refine if_congr ⟨fun here => ⟨l, mem_cons_self, kind, here⟩, ?_⟩ rfl rfl
        rintro ⟨k, mem, here⟩
        rcases mem_cons.mp mem with rfl | inRest
        · exact here.2
        · exact absurd ⟨k, inRest, here⟩ covered
      · rw [if_pos kind, if_neg]
        rintro ⟨k, mem, here⟩
        rcases mem_cons.mp mem with rfl | inRest
        · exact kind here.1
        · exact covered ⟨k, inRest, here⟩

section Fold

variable
  (accepted : ∀ i, i < image.phnum → (image.header i).pType = ptLoad →
    segmentAccepted image i = true ∧ SegmentFits (image.header i))

include accepted

lemma fold_segments (listed : i < image.phnum) (kind : (image.header i).pType = ptLoad)
    (inside : j < (image.header i).pMemsz) (content : Option (BitVec 8)) :
    (range image.phnum).foldl (segmentByte image ((image.header i).pVaddr + j)) content =
      if ∃ l ∈ range image.phnum, i < l ∧ (image.header l).pType = ptLoad ∧
          (image.header l).Covers ((image.header i).pVaddr + j) then some 0
      else some (if j < (image.header i).pFilesz then image.data ((image.header i).pOffset + j) else 0) := by
  have split : range image.phnum =
      range i ++ [i] ++ (range (image.phnum - (i + 1))).map (i + 1 + ·) := by
    rw [← range_succ, ← range_add]
    congr 1
    omega
  have later : ∀ l, l ∈ (range (image.phnum - (i + 1))).map (i + 1 + ·) ↔ i < l ∧ l < image.phnum := by
    intro l
    simp only [mem_map, mem_range]
    exact ⟨fun ⟨k, small, same⟩ => by omega, fun bounds => ⟨l - (i + 1), by omega, by omega⟩⟩
  conv_lhs => rw [split]
  rw [foldl_append, foldl_append, foldl_segmentByte]
  · refine if_congr ?_ rfl ?_
    · refine exists_congr fun l => ?_
      rw [later, mem_range]
      tauto
    · -- Its own segment puts the byte in place, whatever was there.
      rw [foldl_cons, foldl_nil, segmentByte, if_neg (not_not.mpr kind)]
      have here : (image.header i).Covers ((image.header i).pVaddr + j) :=
        ProgramHeader.covers_byte inside
      by_cases file : j < (image.header i).pFilesz
      · rw [if_pos (by omega), if_pos file, Nat.add_sub_cancel_left]
      · rw [if_neg (by omega), if_neg file, if_pos here]
  · intro l mem kind' covers
    obtain ⟨order, below⟩ := (later l).mp mem
    obtain ⟨passed, fits'⟩ := accepted l below kind'
    have apart := segments_apart order kind passed (accepted i listed kind).2 fits'
    have file := fits'.file
    omega

end Fold

/-- A loop that ends well leaves the image where its pages are linked and shared pages are blank. -/
theorem LoadSpace.imageReads_iff (load : LoadSpace vm pd)
    (done : loadSegments oomKill vm pd image (range image.phnum) = (after, true))
    (served : SegmentsServed oomKill pd image vm (range image.phnum)) : ImageReads after pd image ↔
      PagesLinked vm pd (loadPages image (range image.phnum)) ∧ SharedBlank image := by
  have loaded := load.segments done served
  have accepted : ∀ i < image.phnum, (image.header i).pType = ptLoad →
      segmentAccepted image i ∧ SegmentFits (image.header i) :=
    fun i below => loadSegments_accepted done (mem_range.mpr below)
  have low : ∀ i < image.phnum, (image.header i).pType = ptLoad → ∀ j, j < (image.header i).pMemsz →
      (image.header i).pVaddr + j < 2 ^ 32 := by
    intro i below kind j inside
    have most := (accepted i below kind).2.below
    simp only [userSpaceEnd] at most
    omega
  by_cases linked : PagesLinked vm pd (loadPages image (range image.phnum))
  · obtain ⟨bytes, _⟩ := loaded.linked (by rwa [append_nil])
    rw [and_iff_right linked]
    constructor
    · intro reads l below kind i order kind' j file covers
      have listed := order.trans below
      have inside := file.trans_le (accepted i listed kind').2.file
      have byte := reads i listed kind' j inside
      rw [bytes _ (low i listed kind' j inside), fold_segments accepted listed kind' inside,
        if_pos ⟨l, mem_range.mpr below, order, kind, covers⟩, if_pos file] at byte
      exact (Option.some.inj byte).symm
    · intro blank i below kind j inside
      rw [bytes _ (low i below kind j inside), fold_segments accepted below kind inside]
      split
      · rename_i shared
        obtain ⟨l, below', order, kind', covers⟩ := shared
        split
        · rename_i file
          rw [blank l (mem_range.mp below') kind' i order kind j file covers]
        · rfl
      · rfl
  · refine ⟨fun reads => ?_, fun both => absurd both.1 linked⟩
    -- A page that is not reached holds a byte of its segment.
    rcases loaded.stuck (by rwa [append_nil]) with ⟨page, mem, stuck⟩ | none
    · obtain ⟨i, listed, own⟩ := mem_flatMap.mp mem
      split at own
      · rename_i kind
        have below := mem_range.mp listed
        obtain ⟨_, fits⟩ := accepted i below kind
        obtain ⟨start, covers⟩ := fits.mem_pages.mp own
        have small := (fits.imagePage covers start).high.low
        obtain ⟨j, inside, here⟩ := fits.byte_of_page own
        have unread := stuck.unread loaded.load.space small (low i below kind j inside) here
        rw [reads i below kind j inside] at unread
        simp at unread
      · simp at own
    · exact absurd (fun page mem => absurd mem (by simp)) none

lemma elfLoad_accepted (accepted : (elfLoad oomKill vm (some pd) (some image)).2 ≠ 0) :
    loadSegments oomKill vm pd image (range image.phnum) = ((elfLoad oomKill vm (some pd) (some image)).1, true) := by
  unfold elfLoad at accepted ⊢
  dsimp only at accepted ⊢
  split at accepted
  · exact absurd rfl accepted
  rename_i header
  rw [if_neg header]
  cases loop : loadSegments oomKill vm pd image (range image.phnum) with
  | mk after goes =>
    cases goes with
    | false => simp [loop] at accepted
    | true => rfl

/-- The bytes of a half word, lowest first. -/
def le16 (n : Nat) : List (BitVec 8) := [BitVec.ofNat 8 n, BitVec.ofNat 8 (n / 2 ^ 8)]

/-- The bytes of a word, lowest first. -/
def le32 (n : Nat) : List (BitVec 8) := le16 n ++ le16 (n / 2 ^ 16)

/-- A file with the given segments that starts at the first heap page, and bytes after its headers. -/
def elfFile (segments : List ProgramHeader) (content : List (BitVec 8)) : ElfImage :=
  let header := le32 elfMagic ++ [1, 1, 1] ++ List.replicate 9 0 ++ le16 2 ++ le16 3 ++ le32 1 ++
    le32 userHeapStart ++ le32 elfHeaderSize ++ le32 0 ++ le32 0 ++ le16 elfHeaderSize ++
    le16 programHeaderSize ++ le16 segments.length ++ le16 0 ++ le16 0 ++ le16 0
  let headers := segments.flatMap fun ph =>
    le32 ph.pType ++ le32 ph.pOffset ++ le32 ph.pVaddr ++ le32 0 ++ le32 ph.pFilesz ++ le32 ph.pMemsz ++
      le32 0 ++ le32 0
  let bytes := header ++ headers ++ content
  { data := fun n => bytes.getD n 0, size := bytes.length }

/-- The segment of one byte of the file at the first heap page. -/
def byteSegment (offset : Nat) : ProgramHeader :=
  { pType := ptLoad, pOffset := offset, pVaddr := 0x40000000, pFilesz := 1, pMemsz := 1 }

/-- The segment of the byte after it, with nothing in the file. -/
def bareSegment : ProgramHeader :=
  { pType := ptLoad, pOffset := 117, pVaddr := 0x40000001, pFilesz := 0, pMemsz := 1 }

/-- A file of one segment: three bytes, and two more in memory. -/
def textFile : ElfImage := elfFile [{ byteSegment 84 with pFilesz := 3, pMemsz := 5 }] [0x41, 0x42, 0x43]

/-- A file whose second segment starts right after the first, in the same page. -/
def sharedPageFile : ElfImage := elfFile [byteSegment 116, bareSegment] [0x41]

/--
An accepted file is loaded as it describes itself under two conditions.

The table of every page is reached by the processor, or made for a page of its own slot.
A later segment shares no page in which the file has a byte other than zero.
-/
theorem elf_load_builds_image {oomKill : Vm → Vm} {vm : Vm} {pd : Nat} {image : ElfImage}
    (load : LoadSpace vm pd) (available : SegmentsServed oomKill pd image vm (List.range image.phnum))
    (accepted : (elfLoad oomKill vm (some pd) (some image)).2 ≠ 0) :
    ImageReads (elfLoad oomKill vm (some pd) (some image)).1 pd image ↔
      PagesLinked vm pd (loadPages image (List.range image.phnum)) ∧ SharedBlank image :=
  load.imageReads_iff (elfLoad_accepted accepted) available

/-- The bytes of a file of one segment are loaded, and the rest of it is zero. -/
theorem elf_load_builds_text : ∃ vm, pagingCreateUserDirectory bootVm = (vm, some 1) ∧
    (elfLoad id vm (some 1) (some textFile)).2 = 0x40000000 ∧
      ImageReads (elfLoad id vm (some 1) (some textFile)).1 1 textFile := by
  obtain ⟨_, _, page⟩ := bootUser_firstPage
  have number : textFile.phnum = 1 := by decide +kernel
  have load : LoadSpace bootUser 1 := ⟨page.begins.space, page.begins.apart⟩
  have answer : (elfLoad id bootUser (some 1) (some textFile)).2 = 0x40000000 := by decide +kernel
  refine ⟨bootUser, bootVm_creates, answer, (elf_load_builds_image load ?_ (by rw [answer]; decide)).mpr ⟨?_, ?_⟩⟩
  · refine ⟨fun _ => ?_, fun _ _ => trivial⟩
    exact ⟨by simp [reclaim], page.served, trivial⟩
  · have all : loadPages textFile [0] = [0x40000000] := by
      rfl
    rw [number, range_one, all]
    intro p mem
    rw [mem_singleton] at mem
    subst mem
    obtain ⟨top, second, first, made⟩ := bootVm_made bootVm_creates
    refine .inr ⟨made.no_tables bootVm_largeKernel (by decide), fun found here => ?_⟩
    cases here
    rfl
  · intro l below _ i order
    omega

/-- The second segment of a page blanks what the first put there. -/
theorem elf_load_blanks_byte : ∃ vm, pagingCreateUserDirectory bootVm = (vm, some 1) ∧ LoadSpace vm 1 ∧
    SegmentsServed id 1 sharedPageFile vm (List.range sharedPageFile.phnum) ∧
      (elfLoad id vm (some 1) (some sharedPageFile)).2 = 0x40000000 ∧
        ¬ImageReads (elfLoad id vm (some 1) (some sharedPageFile)).1 1 sharedPageFile := by
  obtain ⟨_, _, page⟩ := bootUser_firstPage
  have load : LoadSpace bootUser 1 := ⟨page.begins.space, page.begins.apart⟩
  obtain ⟨answer, first⟩ : (elfLoad id bootUser (some 1) (some sharedPageFile)).2 = 0x40000000 ∧
      (elfLoad id bootUser (some 1) (some sharedPageFile)).1.userByte 1 0x40000000 ≠ some 0x41 := by decide +kernel
  have served : SegmentsServed id 1 sharedPageFile bootUser (range sharedPageFile.phnum) := by
    refine ⟨fun _ => ⟨by simp [reclaim], page.served, trivial⟩, fun next same => ⟨fun _ => ?_, fun _ _ => trivial⟩⟩
    -- The page is mapped already when the second segment comes.
    obtain rfl : (loadSegment id bootUser 1 sharedPageFile 0).1 = next := congrArg Prod.fst same
    exact ⟨by simp [reclaim], .inl (by decide +kernel), trivial⟩
  refine ⟨bootUser, bootVm_creates, load, served, answer, fun reads => first ?_⟩
  exact reads 0 (by decide +kernel) (by decide +kernel) 0 (by decide +kernel)

end Galio
