import Galio.Fs.VfsExtents
import Galio.Lib.Run

/-! Open files as byte streams with a position. -/

namespace Galio

open Transition List Option Vfs

/-- A file with bytes written from a position on; a gap before them is filled with zeros. -/
def splice (content : List UInt8) (pos : Nat) (bytes : List UInt8) : List UInt8 :=
  if bytes = [] then content
  else (content ++ List.replicate (pos - content.length) 0).take pos ++ bytes ++
    content.drop (pos + bytes.length)

/-- A call on an open file. -/
inductive FileOp where
  | write (fd : Nat) (bytes : List UInt8)
  | read (fd size : Nat)
  | lseek (fd : Nat) (offset whence : Int)

/-- The handle a call is made on. -/
def FileOp.fd : FileOp → Nat
  | .write fd _ => fd
  | .read fd _ => fd
  | .lseek fd _ _ => fd

/-- Carrying out a call. -/
def FileOp.exec (vfs : Vfs) : FileOp → Vfs
  | .write fd bytes => (vfsCoreWrite vfs fd bytes).1
  | .read fd size => (vfsCoreRead vfs fd size).1
  | .lseek fd offset whence => (vfsCoreLseek vfs fd offset whence).1

/-- A handle that was opened for reading and writing on a regular file. -/
structure OpenFile (vfs : Vfs) (fd i : Nat) : Prop where
  handle : vfs.openInode fd = some i
  flags : (vfs.files fd).flags &&& 3 = 2
  regular : (vfs.inodes i).type = vfsTypeFile

/-- There is room in memory for a number of bytes. -/
def Vfs.Available (vfs : Vfs) (size : Nat) : Prop :=
  vfs.hasData = true ∧ size ≤ vfs.dataSize - vfs.dataTop ∧ vfs.dataTop < vfsInvalidOffset

/-- Room can be decided. -/
instance (vfs : Vfs) (size : Nat) : Decidable (vfs.Available size) := inferInstanceAs (Decidable (_ ∧ _ ∧ _))

/-- Arguments of a call have 32 bits, and there is storage for what it writes. -/
def FileOp.Fits (before : Vfs) : FileOp → Prop
  | .write _ bytes => bytes.length < 2 ^ 32 ∧ before.Available bytes.length
  | .read _ size => size < 2 ^ 32
  | .lseek _ _ _ => True

/-- A call on a regular file. -/
structure FileStep (before : Vfs) (op : FileOp) (after : Vfs) : Prop where
  next : after = op.exec before
  opened : ∃ i, OpenFile before op.fd i
  fits : op.Fits before

/-- What a call on a positioned byte stream does. -/
def StreamLaw (before : Vfs) (op : FileOp) (after : Vfs) : Prop :=
  ∀ i, before.openInode op.fd = some i →
    match op with
    | .write fd bytes =>
      (vfsCoreWrite before fd bytes).2 = bytes.length ∧
        after.content i = splice (before.content i) (before.files fd).pos bytes ∧
        (after.files fd).pos = (before.files fd).pos + bytes.length
    | .read fd size =>
      (vfsCoreRead before fd size).2 = ((before.content i).drop (before.files fd).pos).take size ∧
        after.content i = before.content i ∧
        (after.files fd).pos = (before.files fd).pos + (vfsCoreRead before fd size).2.length
    | .lseek fd offset whence =>
      after.content i = before.content i ∧
        (after.files fd).pos = ((vfsCoreLseek before fd offset whence).2).getD (before.files fd).pos

/-- Writes that start at the beginning and cover the file, and reads whose end does not wrap around. -/
def FileOp.WholeFile (before : Vfs) (op : FileOp) : Prop :=
  ∀ i, before.openInode op.fd = some i →
    match op with
    | .write fd bytes => (before.files fd).pos = 0 ∧ (before.content i).length ≤ bytes.length
    | .read fd size => (before.content i).length ≤ (before.files fd).pos ∨
        (before.files fd).pos + size < 2 ^ 32
    | .lseek _ _ _ => True

@[simp] lemma length_load (vfs : Vfs) (offset size : Nat) : (vfs.load offset size).length = size := by
  simp [load]

lemma load_store (vfs : Vfs) (offset : Nat) (bytes : List UInt8) :
    (vfs.store offset bytes).load offset bytes.length = bytes := by
  refine ext_getElem (by simp) fun k inLoad inBytes => ?_
  simp [load, store, inBytes]

lemma drop_take_load (vfs : Vfs) (offset size pos count : Nat) (within : pos + count ≤ size) :
    ((vfs.load offset size).drop pos).take count = vfs.load (offset + pos) count := by
  refine ext_getElem (by simp; omega) fun k _ _ => ?_
  simp [load, Nat.add_assoc]

lemma content_stored (vfs : Vfs) (i offset : Nat) (bytes : List UInt8) (inode : VfsInode)
    (block : inode.block = offset) (size : inode.size = bytes.length) (valid : offset ≠ vfsInvalidOffset) :
    ((vfs.store offset bytes).setInode i inode).content i = bytes := by
  have stored := load_store vfs offset bytes
  simp only [content, setInode, Function.update_self, block, size, valid]
  exact stored

variable {vfs : Vfs} {fd i : Nat}

/-- After a write to an open file, the file consists of the bytes written. -/
theorem vfsCoreWrite_eq (opened : OpenFile vfs fd i) (bytes : List UInt8) (available : vfs.Available bytes.length) :
    (vfsCoreWrite vfs fd bytes).2 = bytes.length ∧ (vfsCoreWrite vfs fd bytes).1.content i = bytes ∧
      ((vfsCoreWrite vfs fd bytes).1.files fd).pos = bytes.length := by
  obtain ⟨hasData, room, top⟩ := available
  have writable : ¬(vfs.files fd).flags &&& 3 = 0 := by
    rw [opened.flags]
    decide
  unfold vfsCoreWrite
  simp only [opened.handle, writable, opened.regular, ne_eq, not_true_eq_false, ite_false]
  split
  · by_cases some : bytes.length > 0
    · -- The bytes go to the top of the data.
      have granted : vfsAllocateData vfs bytes.length =
          ({ vfs with dataTop := vfs.dataTop + bytes.length }, vfs.dataTop) := by
        rw [vfsAllocateData, if_neg (by omega), hasData, if_neg (by decide), if_neg (by omega)]
      have valid : vfs.dataTop ≠ vfsInvalidOffset := Nat.ne_of_lt top
      simp only [some, ite_true, granted, valid, ite_false]
      refine ⟨trivial, content_stored _ _ _ _ _ rfl rfl valid, by simp [setFile]⟩
    · have none : bytes = [] := eq_nil_of_length_eq_zero (by omega)
      subst none
      simp [setFile, setInode, content]
  · rename_i inPlace
    rw [not_or] at inPlace
    refine ⟨rfl, ?_, by simp [setFile]⟩
    exact content_stored _ _ _ _ _ rfl rfl inPlace.1

lemma splice_eq_self {content bytes : List UInt8} {pos : Nat} (start : pos = 0) :
    bytes = splice content pos bytes ↔ content.length ≤ bytes.length := by
  subst start
  unfold splice
  split
  · rename_i none
    subst none
    constructor
    · rintro rfl
      exact Nat.le_refl _
    · exact fun short => (eq_nil_of_length_eq_zero (Nat.le_zero.mp short)).symm
  · simp

lemma write_law_iff (opened : OpenFile vfs fd i) (bytes : List UInt8)
    (available : vfs.Available bytes.length) : StreamLaw vfs (.write fd bytes) (vfsCoreWrite vfs fd bytes).1 ↔
      FileOp.WholeFile vfs (.write fd bytes) := by
  obtain ⟨returned, content, pos⟩ := vfsCoreWrite_eq opened bytes available
  simp only [StreamLaw, FileOp.WholeFile, FileOp.fd, opened.handle, some.injEq, forall_eq', returned,
    content, true_and]
  constructor
  · rintro ⟨spliced, moved⟩
    have start : (vfs.files fd).pos = 0 := by omega
    exact ⟨start, (splice_eq_self start).mp spliced⟩
  · rintro ⟨start, covers⟩
    exact ⟨(splice_eq_self start).mpr covers, by omega⟩

/-- The bytes a read from a position counts in a file of a size. -/
def readCount (pos fileSize size : Nat) : Nat :=
  if (pos + size) % 2 ^ 32 > fileSize then fileSize - pos else size

section

variable (opened : OpenFile vfs fd i)
include opened

lemma vfsCoreRead_past (size : Nat)
    (past : (vfs.content i).length ≤ (vfs.files fd).pos) : vfsCoreRead vfs fd size = (vfs, []) := by
  unfold vfsCoreRead
  simp only [opened.handle]
  by_cases missing : (vfs.inodes i).block = vfsInvalidOffset
  · simp [missing]
  · simp only [content, missing, ite_false, length_load] at past
    simp [past]

lemma vfsCoreRead_eq (size : Nat) (inside : (vfs.files fd).pos < (vfs.content i).length) :
    vfs.content i = vfs.load (vfs.inodes i).block (vfs.inodes i).size ∧
      (vfsCoreRead vfs fd size).2 = vfs.load ((vfs.inodes i).block + (vfs.files fd).pos)
        (readCount (vfs.files fd).pos (vfs.inodes i).size size) ∧
      (vfsCoreRead vfs fd size).1.content i = vfs.content i ∧ ((vfsCoreRead vfs fd size).1.files fd).pos % 2 ^ 32 =
        ((vfs.files fd).pos + readCount (vfs.files fd).pos (vfs.inodes i).size size) % 2 ^ 32 ∧
      ((vfs.files fd).pos < 2 ^ 32 → ((vfsCoreRead vfs fd size).1.files fd).pos < 2 ^ 32) := by
  have readable : ¬(vfs.files fd).flags &&& 3 = 1 := by
    rw [opened.flags]
    decide
  have valid : (vfs.inodes i).block ≠ vfsInvalidOffset := by
    intro missing
    simp [content, missing] at inside
  have content : vfs.content i = vfs.load (vfs.inodes i).block (vfs.inodes i).size := by
    simp [content, valid]
  rw [content, length_load] at inside
  refine ⟨content, ?_⟩
  unfold vfsCoreRead readCount
  simp only [opened.handle, readable, opened.regular, ne_eq, not_true_eq_false,
    Nat.not_le.mpr inside, ite_false, valid, or_false]
  generalize (if ((vfs.files fd).pos + size) % 2 ^ 32 > (vfs.inodes i).size then
    (vfs.inodes i).size - (vfs.files fd).pos else size) = count
  split
  · rename_i nothing
    exact ⟨by simp [nothing, load], rfl, by simp [nothing], fun small => small⟩
  · refine ⟨rfl, rfl, ?_, fun _ => ?_⟩
    · simp [setFile]
    · simp only [setFile, Function.update_self]
      exact Nat.mod_lt _ (by decide)

/-- A read obeys the law exactly when its end does not wrap around. -/
theorem read_law_iff (reached : Reachable vfs) {size : Nat} (small : size < 2 ^ 32) :
    StreamLaw vfs (.read fd size) (vfsCoreRead vfs fd size).1 ↔ FileOp.WholeFile vfs (.read fd size) := by
  have bound := reached.content_lt i
  simp only [StreamLaw, FileOp.WholeFile, FileOp.fd, opened.handle, some.injEq, forall_eq']
  by_cases past : (vfs.content i).length ≤ (vfs.files fd).pos
  · simp [vfsCoreRead_past opened size past, past]
  obtain ⟨content, bytes, kept, moved, low⟩ := vfsCoreRead_eq opened size (Nat.not_le.mp past)
  have length : (vfs.content i).length = (vfs.inodes i).size := by rw [content, length_load]
  rw [bytes, kept, length_load]
  simp only [past, false_or, true_and]
  by_cases fits : (vfs.files fd).pos + size < 2 ^ 32
  · -- Without wrapping around the count stops at the end of the file.
    have count : readCount (vfs.files fd).pos (vfs.inodes i).size size =
        min size ((vfs.inodes i).size - (vfs.files fd).pos) := by
      rw [readCount]
      split <;> omega
    simp only [fits, iff_true]
    rw [count] at moved ⊢
    constructor
    · rw [content, ← drop_take_load vfs _ (vfs.inodes i).size _ _ (by omega)]
      exact ext_getElem (by simp) fun k _ _ => by simp
    · omega
  · -- Wrapping around lets the read run past the end of the file.
    have count : readCount (vfs.files fd).pos (vfs.inodes i).size size = size := by
      rw [readCount, if_neg (by omega)]
    simp only [fits, iff_false]
    rintro ⟨_, _⟩
    omega

lemma lseek_law (offset whence : Int) :
    StreamLaw vfs (.lseek fd offset whence) (vfsCoreLseek vfs fd offset whence).1 := by
  simp only [StreamLaw, FileOp.fd, opened.handle, some.injEq, forall_eq']
  unfold vfsCoreLseek
  simp only [opened.handle]
  split
  · exact ⟨rfl, rfl⟩
  · split
    · exact ⟨rfl, rfl⟩
    · exact ⟨rfl, by simp [setFile]⟩

end

/-- A seek is refused on a file that has permissions, as each file has that is created. -/
theorem vfsCoreLseek_created (handle : vfs.openInode fd = some i) (mode : (vfs.inodes i).mode = vfsFileMode)
    (offset whence : Int) : vfsCoreLseek vfs fd offset whence = (vfs, none) := by
  simp [vfsCoreLseek, handle, mode, vfsFileMode, vfsTypeFile]

/-- A call on a file as a call of the file system. -/
def FileOp.call : FileOp → VfsOp
  | .write fd bytes => .write fd bytes
  | .read fd size => .read fd size
  | .lseek fd offset whence => .lseek fd offset whence

/--
Along a run of calls on regular files each call is one on a byte stream exactly where writes cover the file.

Every write must start at position zero and be no shorter than the file, and no read may reach past the
last number of 32 bits.
-/
theorem file_streams_iff {start : Vfs} {run : List (FileOp × Vfs)} (reached : Reachable start)
    (steps : Along FileStep start run) :
    Along StreamLaw start run ↔ Along (fun before op _ => op.WholeFile before) start run := by
  refine along_iff Reachable (fun before op after reached step => ?_) reached steps
  obtain ⟨rfl, ⟨i, opened⟩, fits⟩ := step
  refine ⟨reached.step op.call (by cases op <;> rfl), ?_⟩
  cases op with
  | write fd bytes => exact write_law_iff opened bytes fits.2
  | read fd size => exact read_law_iff opened reached fits
  | lseek fd offset whence =>
    apply iff_of_true (lseek_law opened offset whence)
    intro j _
    trivial

/-- The file system with one empty file, open for reading and writing. -/
def openedFile : Vfs := (vfsTakeHandle (vfsLookup oneFile [slash, 97]).1 1 2).1

lemma openedFile_reachable : Reachable openedFile := by
  have made : Reachable oneFile := .step (.createFile [slash, 97] false fun _ => true) (.init (by decide)) rfl
  have opened := vfsCoreOpenInternal_file 0 oneFile [slash, 97] 2 (d := 1) (by decide +kernel) (by decide +kernel)
  have inode : ((vfsLookup oneFile [slash, 97]).1.dentries 1).inode = 1 := by decide +kernel
  rw [inode] at opened
  exact .step (.openFile [slash, 97] 2 1) made (congrArg (Option.map Prod.fst) opened)

lemma openedFile_opened : OpenFile openedFile 0 1 := by
  constructor <;> decide +kernel

/-- The first write to the empty file covers it, and obeys the law. -/
theorem file_streams_iff_first_write :
    Along StreamLaw openedFile [(.write 0 [97], (vfsCoreWrite openedFile 0 [97]).1)] := by
  have step : FileStep openedFile (.write 0 [97]) (vfsCoreWrite openedFile 0 [97]).1 :=
    ⟨rfl, ⟨1, openedFile_opened⟩, by decide, by decide +kernel⟩
  have steps : Along FileStep openedFile [(.write 0 [97], (vfsCoreWrite openedFile 0 [97]).1)] := ⟨step, trivial⟩
  refine (file_streams_iff openedFile_reachable steps).mpr ⟨fun i handle => ?_, trivial⟩
  obtain rfl : 1 = i := some.inj (openedFile_opened.handle.symm.trans handle)
  decide +kernel

/-- Of two writes in a row to an empty file only the second stays. -/
theorem second_write_replaces : ∃ start run, Reachable start ∧ Along FileStep start run ∧
    ¬Along StreamLaw start run := by
  have after : OpenFile (vfsCoreWrite openedFile 0 [97]).1 0 1 := by constructor <;> decide +kernel
  have first : FileStep openedFile (.write 0 [97]) (vfsCoreWrite openedFile 0 [97]).1 :=
    ⟨rfl, ⟨1, openedFile_opened⟩, by decide, by decide +kernel⟩
  have second : FileStep (vfsCoreWrite openedFile 0 [97]).1 (.write 0 [98])
      (vfsCoreWrite (vfsCoreWrite openedFile 0 [97]).1 0 [98]).1 :=
    ⟨rfl, ⟨1, after⟩, by decide, by decide +kernel⟩
  refine ⟨openedFile, [(.write 0 [97], _), (.write 0 [98], _)], openedFile_reachable,
    ⟨first, second, trivial⟩, fun law => ?_⟩
  have content : (vfsCoreWrite (vfsCoreWrite openedFile 0 [97]).1 0 [98]).1.content 1 =
      splice ((vfsCoreWrite openedFile 0 [97]).1.content 1) ((vfsCoreWrite openedFile 0 [97]).1.files 0).pos [98] :=
    (law.2.1 1 after.handle).2.1
  exact absurd content (by decide +kernel)

end Galio
