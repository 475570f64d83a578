import Mathlib.Algebra.Group.Int.Defs
import Mathlib.Algebra.Group.Nat.Defs
import Galio.Lib.Chain

/-! The file system in memory of `kernel/fs/vfs/vfs_core.c`. -/

namespace Galio

open Function

/-- A C string, without its final zero. -/
abbrev CString := List UInt8

/-- The byte of `/`. -/
def slash : UInt8 := 47

/-- The byte of a dot. -/
def dot : UInt8 := 46

def vfsTypeMask : UInt32 := 0xF000

def vfsTypeFile : UInt32 := 0x8000

def vfsTypeDir : UInt32 := 0x4000

def vfsTypeSymlink : UInt32 := 0xA000

def vfsTypeChardev : UInt32 := 0x2000

def vfsPermMask : UInt32 := 0x0FFF

/-- `VFS_TYPE_FILE | VFS_PERM_FILE_DEFAULT`. -/
def vfsFileMode : UInt32 := 0x81A4

/-- `VFS_TYPE_DIR | VFS_PERM_DIR_DEFAULT`, the mode of the root. -/
def vfsRootMode : UInt32 := 0x41ED

/-- `VFS_TYPE_SYMLINK | VFS_PERM_SYMLINK`. -/
def vfsSymlinkMode : UInt32 := 0xA1FF

def vfsMaxInodes : Nat := 1024

def vfsMaxDentries : Nat := 1024

def vfsMaxDentryCache : Nat := 512

def vfsMaxFileHandles : Nat := 64

/-- The bytes of a name that fit in `VFS_MAX_FILENAME`. -/
def vfsNameRoom : Nat := 255

/-- The bytes of a path that fit in `VFS_MAX_PATH`. -/
def vfsPathRoom : Nat := 511

def vfsInvalidOffset : Nat := 0xFFFFFFFF

/-- The size of a `vfs_core_dirent_t`. -/
def direntSize : Nat := 260

/-- `vfs_core_dirent_t`. -/
structure VfsDirent where
  inodeNumber : Nat
  name : CString

/-- The fields of `vfs_inode_t` in use, with `blocks[0]` for the blocks. -/
structure VfsInode where
  number : Nat
  mode : UInt32
  size : Nat
  uid : Nat
  gid : Nat
  linkCount : UInt32
  block : Nat
  direntCapacity : Nat
  dirents : List VfsDirent

/-- The type bits of a mode. -/
def VfsInode.type (inode : VfsInode) : UInt32 := inode.mode &&& vfsTypeMask

/-- `vfs_dentry_t`, by indices into the pools. -/
structure VfsDentry where
  name : CString
  parent : Option Nat
  firstChild : Option Nat
  nextSibling : Option Nat
  inode : Nat

/-- `vfs_file_t` without its device. -/
structure VfsFile where
  inode : Option Nat
  pos : Nat
  flags : UInt32
  refCount : Nat

/-- The static variables of `vfs_core.c`; the root is first in both tables. -/
structure Vfs where
  inodes : Nat → VfsInode
  dentries : Nat → VfsDentry
  files : Nat → VfsFile
  cache : Nat → Option Nat
  data : Nat → UInt8
  /-- Whether `vfs_data_ram` was allocated. -/
  hasData : Bool
  dataSize : Nat
  dataTop : Nat
  nextInode : Nat
  nextDentry : Nat

def rootDentry : Nat := 0

/-- An update of one inode. -/
def Vfs.setInode (vfs : Vfs) (i : Nat) (inode : VfsInode) : Vfs :=
  { vfs with inodes := update vfs.inodes i inode }

/-- An update of one dentry. -/
def Vfs.setDentry (vfs : Vfs) (d : Nat) (dentry : VfsDentry) : Vfs :=
  { vfs with dentries := update vfs.dentries d dentry }

/-- An update of one handle. -/
def Vfs.setFile (vfs : Vfs) (fd : Nat) (file : VfsFile) : Vfs :=
  { vfs with files := update vfs.files fd file }

/-- An update of one slot of the cache. -/
def Vfs.setCache (vfs : Vfs) (slot entry : Nat) : Vfs :=
  { vfs with cache := update vfs.cache slot (some entry) }

/-- `memcpy` into the data of files. -/
def Vfs.store (vfs : Vfs) (offset : Nat) (bytes : List UInt8) : Vfs :=
  { vfs with data := fun a =>
      if offset ≤ a ∧ a < offset + bytes.length then bytes.getD (a - offset) 0 else vfs.data a }

/-- The bytes of a stretch of the data. -/
def Vfs.load (vfs : Vfs) (offset size : Nat) : List UInt8 :=
  (List.range size).map fun i => vfs.data (offset + i)

/-- The inode of a dentry. -/
def Vfs.inodeOf (vfs : Vfs) (d : Nat) : VfsInode := vfs.inodes (vfs.dentries d).inode

/-- `vfs_core_is_directory` in memory: the first inode with the number decides. -/
@[irreducible] def vfsCoreIsDirectory (vfs : Vfs) (number : Nat) : Bool :=
  match (List.range vfsMaxInodes).find? fun i => (vfs.inodes i).number == number with
  | some i => (vfs.inodes i).type == vfsTypeDir
  | none => false

/-- `vfs_hash_dentry`, with the number of the parent's inode. -/
def vfsHashDentry (parent : Option Nat) (name : CString) : Nat :=
  let seed := match parent with
    | some number => (5381 * 33 + number) % 2 ^ 32
    | none => 5381
  name.foldl (fun hash byte => (hash * 33 + byte.toNat) % 2 ^ 32) seed % vfsMaxDentryCache

/-- The slots of the cache in the order a key probes them. -/
def probes (idx : Nat) : List Nat :=
  (List.range vfsMaxDentryCache).map fun probe => (idx + probe) % vfsMaxDentryCache

/-- Whether a dentry has a parent and a name. -/
def Vfs.named (vfs : Vfs) (parent : Nat) (name : CString) (entry : Nat) : Bool :=
  (vfs.dentries entry).parent == some parent && (vfs.dentries entry).name == name

def vfsCacheLookup (vfs : Vfs) (parent : Nat) (name : CString) : Option Nat :=
  (probes (vfsHashDentry (some (vfs.inodeOf parent).number) name)).findSome? fun slot =>
    (vfs.cache slot).filter (vfs.named parent name)

def vfsCacheInsert (vfs : Vfs) (entry : Nat) : Vfs :=
  let dentry := vfs.dentries entry
  let idx := vfsHashDentry (dentry.parent.map fun p => (vfs.inodeOf p).number) dentry.name
  let free := (probes idx).find? fun slot => vfs.cache slot == none || vfs.cache slot == some entry
  -- A full cache gives up the entry at the first slot.
  vfs.setCache (free.getD idx) entry

def vfsAllocInode (vfs : Vfs) : Option (Vfs × Nat) :=
  if vfs.nextInode ≥ vfsMaxInodes then none
  else
    let i := vfs.nextInode
    some ({ vfs.setInode i ⟨i, 0, 0, 0, 0, 1, vfsInvalidOffset, 0, []⟩ with nextInode := i + 1 }, i)

def vfsAllocateData (vfs : Vfs) (bytes : Nat) : Vfs × Nat :=
  if bytes = 0 then (vfs, 0)
  else if !vfs.hasData then (vfs, vfsInvalidOffset)
  else if bytes > vfs.dataSize - vfs.dataTop then (vfs, vfsInvalidOffset)
  else ({ vfs with dataTop := vfs.dataTop + bytes }, vfs.dataTop)

/--
`vfs_reserve_dirents` for one more entry, which the heap may refuse; the count is within the capacity, so one
doubling is enough.
-/
def vfsReserveDirents (grants : Nat → Bool) (vfs : Vfs) (dir : Nat) : Vfs × Bool :=
  let inode := vfs.inodes dir
  if inode.dirents.length + 1 ≤ inode.direntCapacity then (vfs, true)
  else if grants dir then
    let capacity := if inode.direntCapacity ≠ 0 then inode.direntCapacity * 2 else 32
    (vfs.setInode dir { inode with direntCapacity := capacity }, true)
  else (vfs, false)

def vfsFindDirent (inode : VfsInode) (name : CString) : Option VfsDirent :=
  inode.dirents.find? fun dirent => dirent.name == name

def vfsFindInodeInDir (inode : VfsInode) (name : CString) : Option Nat :=
  ((vfsFindDirent inode name).map (·.inodeNumber)).filter fun number => number < vfsMaxInodes

/-- The entries of a directory replaced, and its size with them. -/
def VfsInode.setDirents (inode : VfsInode) (dirents : List VfsDirent) : VfsInode :=
  { inode with dirents := dirents, size := dirents.length * direntSize }

/-- `vfs_dirent_add`, and whether it succeeds. -/
def vfsDirentAdd (grants : Nat → Bool) (vfs : Vfs) (dir : Nat) (name : CString) (number : Nat) :
    Vfs × Bool :=
  match vfsReserveDirents grants vfs dir with
  | (vfs, false) => (vfs, false)
  | (vfs, true) =>
    let inode := vfs.inodes dir
    (vfs.setInode dir (inode.setDirents (inode.dirents ++ [⟨number, name.take vfsNameRoom⟩])), true)

/-- `vfs_dirent_remove`, and whether it succeeds. -/
def vfsDirentRemove (vfs : Vfs) (dir : Nat) (name : CString) : Vfs × Bool :=
  let inode := vfs.inodes dir
  if inode.dirents.any fun dirent => dirent.name == name then
    (vfs.setInode dir (inode.setDirents (inode.dirents.eraseP fun dirent => dirent.name == name)), true)
  else (vfs, false)

/-- The links that `vfs_link_child` sets. -/
def Vfs.adopt (vfs : Vfs) (parent child : Nat) : Vfs :=
  let vfs := vfs.setDentry child { vfs.dentries child with
    parent := some parent, nextSibling := (vfs.dentries parent).firstChild }
  vfs.setDentry parent { vfs.dentries parent with firstChild := some child }

def vfsLinkChild (vfs : Vfs) (parent child : Nat) : Vfs := vfsCacheInsert (vfs.adopt parent child) child

/-- The dentry that `vfs_alloc_dentry` hands out, with its name and inode. -/
def Vfs.addDentry (vfs : Vfs) (name : CString) (inode : Nat) : Vfs :=
  { vfs.setDentry vfs.nextDentry ⟨name.take vfsNameRoom, none, none, none, inode⟩ with
    nextDentry := vfs.nextDentry + 1 }

/-- `vfs_create_dentry` below a parent. -/
def vfsCreateDentry (vfs : Vfs) (parent : Nat) (name : CString) (inode : Nat) : Option (Vfs × Nat) :=
  if vfs.nextDentry ≥ vfsMaxDentries then none
  else
    let d := vfs.nextDentry
    some (vfsCacheInsert (vfsLinkChild (vfs.addDentry name inode) parent d) d, d)

/--
The copying loop of `vfs_normalize`, with the byte before the rest and the room left; of several slashes the
first is kept.
-/
def copyPath : Option UInt8 → CString → Nat → CString
  | _, [], _ => []
  | _, _ :: _, 0 => []
  | before, byte :: rest, room + 1 =>
    if byte = slash ∧ before = some slash then copyPath (some byte) rest (room + 1)
    else byte :: copyPath (some byte) rest room

/-- The end of `vfs_normalize`, which drops a final slash. -/
def trimSlash (buffer : CString) : CString :=
  if buffer.length > 1 ∧ buffer.getLast? = some slash then buffer.dropLast else buffer

def vfsNormalize (path : CString) : CString :=
  -- What follows the slash of an absolute path, or of one that starts at the current directory.
  let below := match path with
    | first :: rest =>
      if first = slash then some rest
      else if first = dot then
        match rest with
        | [] => some []
        | second :: rest => if second = slash then some (slash :: rest) else none
      else none
    | [] => none
  match below with
  | some [] => [dot]
  | some rest => trimSlash (dot :: slash :: copyPath (some slash) rest (vfsPathRoom - 2))
  | none =>
    let buffer := copyPath none path vfsPathRoom
    if buffer = [] then [dot] else trimSlash buffer

/-- The components the loop of `vfs_lookup_internal` cuts off a path. -/
def pathComponents : CString → List CString
  | [] => []
  | [byte] => if byte = slash then [[]] else [[byte]]
  | byte :: next :: rest =>
    if byte = slash then [] :: pathComponents (next :: rest)
    else if next = slash then [byte] :: pathComponents rest
    else match pathComponents (next :: rest) with
      | [] => [[byte]]
      | component :: others => (byte :: component) :: others

/-- Where the last slash of a path stands. -/
def lastSlash (path : CString) : Option Nat :=
  (List.range path.length).reverse.find? fun i => path.getD i 0 == slash

def vfsSplitParent (path : CString) : CString × CString :=
  let normalized := vfsNormalize path
  if normalized = [dot] then ([dot], [])
  else
    match lastSlash normalized with
    | none => ([dot], normalized.take vfsNameRoom)
    | some at_ =>
      if at_ = 0 then ([dot], (normalized.drop 1).take vfsNameRoom)
      else if at_ = 1 ∧ normalized.head? = some dot then ([dot], (normalized.drop 2).take vfsNameRoom)
      else (normalized.take at_, (normalized.drop (at_ + 1)).take vfsNameRoom)

/-- A dentry's child under a name: cached, or made for the directory's entry. -/
def vfsChild (vfs : Vfs) (current : Nat) (component : CString) : Vfs × Option Nat :=
  if !vfsCoreIsDirectory vfs (vfs.inodeOf current).number then (vfs, none)
  else
    match vfsCacheLookup vfs current component with
    | some child => (vfs, some child)
    | none =>
      match vfsFindInodeInDir (vfs.inodeOf current) component with
      | none => (vfs, none)
      | some inode =>
        match vfsCreateDentry vfs current component inode with
        | none => (vfs, none)
        | some (vfs, child) => (vfs, some child)

/-- The loop of `vfs_lookup_internal`. -/
def vfsWalk (vfs : Vfs) (current : Nat) : List CString → Vfs × Option Nat
  | [] => (vfs, some current)
  | component :: rest =>
    if component = [dot] then vfsWalk vfs current rest
    else if component = [dot, dot] then
      vfsWalk vfs ((vfs.dentries current).parent.getD current) rest
    else
      match vfsChild vfs current component with
      | (vfs, none) => (vfs, none)
      | (vfs, some child) => vfsWalk vfs child rest

/-- The components of a normalised path, none for the root. -/
def normalComponents : CString → List CString
  | [byte] => if byte = dot ∨ byte = slash then [] else [[byte]]
  | first :: second :: rest =>
    if first = dot ∧ second = slash then pathComponents rest
    else if first = slash then pathComponents (second :: rest)
    else pathComponents (first :: second :: rest)
  | [] => []

/-- The components `vfs_lookup_internal` walks along. -/
def lookupComponents (path : CString) : List CString := normalComponents (vfsNormalize path)

/-- `vfs_lookup_internal`, which cuts components to their buffer and gives up at depth 256. -/
def vfsLookup (vfs : Vfs) (path : CString) : Vfs × Option Nat :=
  let components := (lookupComponents path).map (·.take vfsNameRoom)
  let (vfs, found) := vfsWalk vfs rootDentry (components.take 256)
  (vfs, if components.length ≥ 256 then none else found)

/-- The loop of `vfs_build_path_from_dentry`, with a bound on its passes. -/
def vfsBuildPathLoop (vfs : Vfs) : Nat → Option Nat → CString → Option CString
  | 0, _, _ => none
  | _ + 1, none, path => some path
  | steps + 1, some walker, path =>
    if walker = rootDentry then some path
    else
      let dentry := vfs.dentries walker
      vfsBuildPathLoop vfs steps dentry.parent ((slash :: dentry.name.take vfsNameRoom ++ path).take vfsPathRoom)

/-- `vfs_build_path_from_dentry`, with no result if its loop does not end. -/
def vfsBuildPathFromDentry (steps : Nat) (vfs : Vfs) (d : Nat) : Option CString :=
  if d = rootDentry then some [dot]
  else (vfsBuildPathLoop vfs steps (some d) []).map fun path => if path = [] then [dot] else path

/-- What `vfs_make_directory_internal` does to a new inode before it is entered. -/
def vfsPrepareDirectory (grants : Nat → Bool) (vfs : Vfs) (i parentNumber : Nat) : Vfs :=
  let vfs := vfs.setInode i { vfs.inodes i with mode := vfsTypeDir }
  let vfs := (vfsDirentAdd grants vfs i [dot] i).1
  (vfsDirentAdd grants vfs i [dot, dot] parentNumber).1

def vfsMakeDirectory (grants : Nat → Bool) (vfs : Vfs) (path : CString) : Vfs × Option Nat :=
  let normalized := vfsNormalize path
  if normalized = [dot] then (vfs, some rootDentry)
  else
    let (parentPath, name) := vfsSplitParent normalized
    match vfsLookup vfs parentPath with
    | (vfs, none) => (vfs, none)
    | (vfs, some parent) =>
      if (vfs.inodeOf parent).type ≠ vfsTypeDir then (vfs, none)
      else if (vfsFindDirent (vfs.inodeOf parent) name).isSome then
        match vfsFindInodeInDir (vfs.inodeOf parent) name with
        | none => (vfs, none)
        | some existing =>
          (vfs, if (vfs.inodes existing).type = vfsTypeDir then vfsCacheLookup vfs parent name else none)
      else
        match vfsAllocInode vfs with
        | none => (vfs, none)
        | some (vfs, inode) =>
          let vfs := vfsPrepareDirectory grants vfs inode (vfs.inodeOf parent).number
          match vfsDirentAdd grants vfs (vfs.dentries parent).inode name inode with
          | (vfs, false) => (vfs, none)
          | (vfs, true) =>
            match vfsCreateDentry vfs parent name inode with
            | none => (vfs, none)
            | some (vfs, child) => (vfs, some child)

/-- The bytes that are copied for a file: those given, or zeros. -/
def fileBytes (bytes : Option (List UInt8)) (size : Nat) : List UInt8 :=
  (bytes.getD (List.replicate size 0)).take size

/-- What `vfs_make_node_internal` does to a node that is made anew. -/
def vfsRemakeNode (vfs : Vfs) (existing : Nat) (mode : UInt32) (bytes : Option (List UInt8)) (size : Nat) :
    Option Vfs :=
  let inode := vfs.inodes existing
  if mode &&& vfsTypeMask = vfsTypeFile ∨ mode &&& vfsTypeMask = vfsTypeSymlink then
    if size > 0 ∧ inode.block ≠ vfsInvalidOffset ∧ size ≤ inode.size then
      -- The new bytes fit where the old ones are.
      let vfs := (bytes.map fun given => vfs.store inode.block (given.take size)).getD vfs
      some (vfs.setInode existing { inode with size := size, mode := mode })
    else
      let (vfs, offset) := vfsAllocateData vfs size
      if offset = vfsInvalidOffset then none
      else
        let vfs := (bytes.map fun given => vfs.store offset (given.take size)).getD vfs
        some (vfs.setInode existing { inode with block := offset, size := size, mode := mode })
  else if mode &&& vfsTypeMask = vfsTypeChardev then
    some (vfs.setInode existing { inode with size := 0, mode := mode })
  else some (vfs.setInode existing { inode with mode := mode })

/-- What `vfs_make_node_internal` does to a new inode before it is entered. -/
def vfsFillNode (vfs : Vfs) (i : Nat) (mode : UInt32) (bytes : Option (List UInt8)) (size : Nat) :
    Vfs × Bool :=
  let inode := { vfs.inodes i with mode := mode, size := size }
  let vfs := vfs.setInode i inode
  if mode &&& vfsTypeMask = vfsTypeFile ∨ mode &&& vfsTypeMask = vfsTypeSymlink then
    if size > 0 then
      let (vfs, offset) := vfsAllocateData vfs size
      if offset = vfsInvalidOffset then (vfs, false)
      else ((vfs.store offset (fileBytes bytes size)).setInode i { inode with block := offset }, true)
    else (vfs, true)
  else if mode &&& vfsTypeMask = vfsTypeChardev then (vfs.setInode i { inode with size := 0 }, true)
  else (vfs, true)

def vfsMakeNode (grants : Nat → Bool) (vfs : Vfs) (path : CString) (mode : UInt32)
    (bytes : Option (List UInt8)) (size : Nat) (force : Bool) : Vfs × Option Nat :=
  let (parentPath, name) := vfsSplitParent (vfsNormalize path)
  match vfsLookup vfs parentPath with
  | (vfs, none) => (vfs, none)
  | (vfs, some parent) =>
    if (vfs.inodeOf parent).type ≠ vfsTypeDir then (vfs, none)
    else
      match vfsFindInodeInDir (vfs.inodeOf parent) name with
      | some existing =>
        if (vfs.inodes existing).mode = vfsTypeDir ∨ !force then (vfs, none)
        else
          match vfsRemakeNode vfs existing mode bytes size with
          | none => (vfs, none)
          | some vfs => (vfs, vfsCacheLookup vfs parent name)
      | none =>
        match vfsAllocInode vfs with
        | none => (vfs, none)
        | some (vfs, inode) =>
          match vfsFillNode vfs inode mode bytes size with
          | (vfs, false) => (vfs, none)
          | (vfs, true) =>
            match vfsDirentAdd grants vfs (vfs.dentries parent).inode name inode with
            | (vfs, false) => (vfs, none)
            | (vfs, true) =>
              match vfsCreateDentry vfs parent name inode with
              | none => (vfs, none)
              | some (vfs, child) => (vfs, some child)

/-- The file that `vfs_build_from_initrd` makes of an entry. -/
def vfsInstallFile (grants : Nat → Bool) (vfs : Vfs) (path : CString) (permissions : UInt32)
    (bytes : List UInt8) : Vfs × Option Nat :=
  vfsMakeNode grants vfs path (vfsTypeFile ||| (permissions &&& vfsPermMask)) (some bytes) bytes.length true

/-- `vfs_core_create_file` in memory. -/
def vfsCoreCreateFile (grants : Nat → Bool) (vfs : Vfs) (path : CString) (force : Bool) : Vfs × Option Nat :=
  vfsMakeNode grants vfs path vfsFileMode none 0 force

/-- `vfs_core_create_symlink` in memory; the final zero of the target is kept. -/
def vfsCoreCreateSymlink (grants : Nat → Bool) (vfs : Vfs) (target path : CString) (force : Bool) :
    Vfs × Option Nat :=
  vfsMakeNode grants vfs path vfsSymlinkMode (some (target ++ [0])) (target.length + 1) force

/-- `vfs_core_readlink` into a path buffer: the bytes up to the first zero. -/
def vfsCoreReadlink (vfs : Vfs) (path : CString) : Vfs × Option CString :=
  match vfsLookup vfs path with
  | (vfs, none) => (vfs, none)
  | (vfs, some d) =>
    let inode := vfs.inodeOf d
    if inode.type ≠ vfsTypeSymlink ∨ inode.size = 0 ∨ inode.block = vfsInvalidOffset then (vfs, none)
    else
      let bytes := vfs.load inode.block (min inode.size vfsPathRoom)
      (vfs, some (bytes.takeWhile fun byte => byte ≠ 0))

/-- The end of `vfs_core_open_internal`: the first free handle is taken. -/
def vfsTakeHandle (vfs : Vfs) (inode : Nat) (flags : UInt32) : Vfs × Option Nat :=
  match (List.range vfsMaxFileHandles).find? fun fd => (vfs.files fd).refCount == 0 with
  | none => (vfs, none)
  | some fd => (vfs.setFile fd ⟨some inode, 0, flags, 1⟩, some fd)

/-- `vfs_core_open_internal` for files and links, with no result if links are left to follow after a bound. -/
def vfsCoreOpenInternal : Nat → Vfs → CString → UInt32 → Option (Vfs × Option Nat)
  | 0, _, _, _ => none
  | links + 1, vfs, path, flags =>
    match vfsLookup vfs path with
    | (vfs, none) => some (vfs, none)
    | (vfs, some d) =>
      if (vfs.inodeOf d).type = vfsTypeSymlink then
        match vfsCoreReadlink vfs path with
        | (vfs, none) => some (vfs, none)
        | (vfs, some target) => vfsCoreOpenInternal links vfs target flags
      else if (vfs.inodeOf d).type = vfsTypeFile then some (vfsTakeHandle vfs (vfs.dentries d).inode flags)
      else some (vfs, none)

def vfsCoreClose (vfs : Vfs) (fd : Nat) : Vfs :=
  let file := vfs.files fd
  if fd ≥ vfsMaxFileHandles ∨ file.refCount = 0 then vfs
  else if file.refCount = 1 then vfs.setFile fd ⟨none, 0, 0, 0⟩
  else vfs.setFile fd { file with refCount := file.refCount - 1 }

/-- The inode of a handle that is open. -/
def Vfs.openInode (vfs : Vfs) (fd : Nat) : Option Nat :=
  if fd ≥ vfsMaxFileHandles ∨ (vfs.files fd).refCount = 0 then none else (vfs.files fd).inode

/-- `vfs_core_write` for a file in memory, and the number it returns. -/
def vfsCoreWrite (vfs : Vfs) (fd : Nat) (bytes : List UInt8) : Vfs × Nat :=
  match vfs.openInode fd with
  | none => (vfs, 0)
  | some i =>
    let file := vfs.files fd
    let inode := vfs.inodes i
    if file.flags &&& 3 = 0 then (vfs, 2 ^ 32 - 1)
    else if inode.type ≠ vfsTypeFile then (vfs, 0)
    else if inode.block = vfsInvalidOffset ∨ bytes.length > inode.size then
      if bytes.length > 0 then
        let (vfs, offset) := vfsAllocateData vfs bytes.length
        if offset = vfsInvalidOffset then (vfs, 0)
        else
          let vfs := (vfs.store offset bytes).setInode i { inode with block := offset, size := bytes.length }
          (vfs.setFile fd { file with pos := bytes.length }, bytes.length)
      else
        let vfs := vfs.setInode i { inode with block := vfsInvalidOffset, size := 0 }
        (vfs.setFile fd { file with pos := 0 }, 0)
    else
      let vfs := (vfs.store inode.block bytes).setInode i { inode with size := bytes.length }
      (vfs.setFile fd { file with pos := bytes.length }, bytes.length)

/-- `vfs_core_read` of a file in memory: the bytes copied. -/
def vfsCoreRead (vfs : Vfs) (fd size : Nat) : Vfs × List UInt8 :=
  match vfs.openInode fd with
  | none => (vfs, [])
  | some i =>
    let file := vfs.files fd
    let inode := vfs.inodes i
    if file.flags &&& 3 = 1 ∨ inode.type ≠ vfsTypeFile ∨ file.pos ≥ inode.size then (vfs, [])
    else
      -- The sum is taken in 32 bits.
      let count := if (file.pos + size) % 2 ^ 32 > inode.size then inode.size - file.pos else size
      if count = 0 ∨ inode.block = vfsInvalidOffset then (vfs, [])
      else
        (vfs.setFile fd { file with pos := (file.pos + count) % 2 ^ 32 },
          vfs.load (inode.block + file.pos) count)

/-- `vfs_core_lseek`; a file with permission bits is not sought in. -/
def vfsCoreLseek (vfs : Vfs) (fd : Nat) (offset : Int) (whence : Int) : Vfs × Option Nat :=
  match vfs.openInode fd with
  | none => (vfs, none)
  | some i =>
    let file := vfs.files fd
    let inode := vfs.inodes i
    if inode.mode ≠ vfsTypeFile then (vfs, none)
    else
      let base : Option Int :=
        if whence = 0 then some 0 else if whence = 1 then some file.pos
        else if whence = 2 then some inode.size else none
      match base with
      | none => (vfs, none)
      | some base =>
        let pos := ((base + offset) % 2 ^ 32).toNat
        (vfs.setFile fd { file with pos := pos }, some pos)

/-- `vfs_core_chmod` in memory. -/
def vfsCoreChmod (vfs : Vfs) (path : CString) (mode : UInt32) : Vfs :=
  match vfsLookup vfs path with
  | (vfs, none) => vfs
  | (vfs, some d) =>
    let inode := vfs.inodeOf d
    vfs.setInode (vfs.dentries d).inode { inode with mode := inode.type ||| (mode &&& vfsPermMask) }

/-- The dentry that `vfs_unlink_child_dentry` finds before a child. -/
def siblingBefore (vfs : Vfs) (child : Nat) : Nat → Nat → Option (Option Nat) :=
  Chain.before (fun d => (vfs.dentries d).nextSibling) child

/-- A dentry without the links to its siblings and its parent. -/
def VfsDentry.detached (dentry : VfsDentry) : VfsDentry := { dentry with nextSibling := none, parent := none }

/-- A dentry is changed and a child detached. -/
def Vfs.relink (vfs : Vfs) (holder : Nat) (dentry : VfsDentry) (child : Nat) : Vfs :=
  let vfs := vfs.setDentry holder dentry
  vfs.setDentry child (vfs.dentries child).detached

/-- `vfs_unlink_child_dentry`, with no result if the siblings form a circle. -/
def vfsUnlinkChildDentry (vfs : Vfs) (parent child : Nat) : Option Vfs :=
  match (vfs.dentries parent).firstChild with
  | none => some vfs
  | some first =>
    if first = child then
      some (vfs.relink parent { vfs.dentries parent with firstChild := (vfs.dentries child).nextSibling } child)
    else
      match siblingBefore vfs child vfsMaxDentries first with
      | none => none
      | some none => some vfs
      | some (some before) =>
        some (vfs.relink before { vfs.dentries before with nextSibling := (vfs.dentries child).nextSibling } child)

/-- The end of `vfs_core_move`, once source and destination are found. -/
def vfsMoveEntry (grants : Nat → Bool) (vfs : Vfs) (src srcParent destParent : Nat) (destName : CString) :
    Option (Vfs × Bool) :=
  let name := (vfs.dentries src).name
  let number := (vfs.inodeOf src).number
  match vfsDirentRemove vfs (vfs.dentries srcParent).inode name with
  | (vfs, false) => some (vfs, false)
  | (vfs, true) =>
    match vfsDirentAdd grants vfs (vfs.dentries destParent).inode destName number with
    | (vfs, false) =>
      some ((vfsDirentAdd grants vfs (vfs.dentries srcParent).inode name number).1, false)
    | (vfs, true) =>
      match vfsUnlinkChildDentry vfs srcParent src with
      | none => none
      | some vfs =>
        let vfs := vfs.setDentry src { vfs.dentries src with name := destName.take vfsNameRoom }
        some (vfsLinkChild vfs destParent src, true)

/-- `vfs_core_move` in memory, and whether it succeeds. -/
def vfsCoreMove (grants : Nat → Bool) (vfs : Vfs) (src dest : CString) : Option (Vfs × Bool) :=
  if src = dest then some (vfs, false)
  else
    match vfsLookup vfs src with
    | (vfs, none) => some (vfs, false)
    | (vfs, some d) =>
      match (vfs.dentries d).parent with
      | none => some (vfs, false)
      | some srcParent =>
        let (destParent, destName) := vfsSplitParent dest
        if d = rootDentry ∨ destName = [] then some (vfs, false)
        else
          match vfsLookup vfs destParent with
          | (vfs, none) => some (vfs, false)
          | (vfs, some target) =>
            if (vfs.inodeOf target).mode ≠ vfsTypeDir then some (vfs, false)
            else
              match vfsLookup vfs dest with
              | (vfs, some _) => some (vfs, false)
              | (vfs, none) => vfsMoveEntry grants vfs d srcParent target destName

/-- `vfs_core_unlink` in memory, and whether it succeeds. -/
def vfsCoreUnlink (vfs : Vfs) (path : CString) : Vfs × Bool :=
  match vfsLookup vfs path with
  | (vfs, none) => (vfs, false)
  | (vfs, some d) =>
    match (vfs.dentries d).parent with
    | none => (vfs, false)
    | some parent =>
      if (vfs.inodeOf d).type = vfsTypeDir ∨ d = rootDentry then (vfs, false)
      else
        match vfsDirentRemove vfs (vfs.dentries parent).inode (vfs.dentries d).name with
        | (vfs, false) => (vfs, false)
        | (vfs, true) =>
          let inode := vfs.inodeOf d
          let links := inode.linkCount - 1
          (vfs.setInode (vfs.dentries d).inode { inode with
            linkCount := links, mode := if links = 0 then 0 else inode.mode }, true)

/-- `vfs_core_rmdir` in memory, and whether it succeeds. -/
def vfsCoreRmdir (vfs : Vfs) (path : CString) : Vfs × Bool :=
  match vfsLookup vfs path with
  | (vfs, none) => (vfs, false)
  | (vfs, some d) =>
    if (vfs.inodeOf d).mode ≠ vfsTypeDir ∨ d = rootDentry then (vfs, false)
    else if (vfs.inodeOf d).dirents.any fun e => e.name != [dot] && e.name != [dot, dot] then (vfs, false)
    else
      match (vfs.dentries d).parent with
      | none => (vfs, false)
      | some parent =>
        match vfsDirentRemove vfs (vfs.dentries parent).inode (vfs.dentries d).name with
        | (vfs, false) => (vfs, false)
        | (vfs, true) =>
          (vfs.setInode (vfs.dentries d).inode { vfs.inodeOf d with mode := 0 }, true)

/-- `vfs_reset_state` and `vfs_init_root`, with the data area of `vfs_build_from_initrd`. -/
def vfsInitRoot (hasData : Bool) (dataSize : Nat) (data : Nat → UInt8) : Vfs :=
  let empty : VfsInode := ⟨0xFFFFFFFF, 0, 0, 0, 0, 0, 0, 0, []⟩
  let root : VfsInode := ⟨0, vfsRootMode, 2 * direntSize, 0, 0, 1, vfsInvalidOffset, 32,
    [⟨0, [dot]⟩, ⟨0, [dot, dot]⟩]⟩
  let vfs : Vfs := {
    inodes := update (fun _ => empty) 0 root
    dentries := update (fun _ => ⟨[], none, none, none, 0⟩) 0 ⟨[], some 0, none, none, 0⟩
    files := fun _ => ⟨none, 0, 0, 0⟩
    cache := fun _ => none
    data := data, hasData := hasData, dataSize := dataSize, dataTop := 0, nextInode := 1, nextDentry := 1 }
  vfsCacheInsert vfs rootDentry

/-- A call of the file system in memory, with the inodes whose entries can grow. -/
inductive VfsOp where
  | installFile (path : CString) (permissions : UInt32) (bytes : List UInt8) (grants : Nat → Bool)
  | createFile (path : CString) (force : Bool) (grants : Nat → Bool)
  | createDir (path : CString) (grants : Nat → Bool)
  | createSymlink (target path : CString) (force : Bool) (grants : Nat → Bool)
  | lookup (path : CString)
  | openFile (path : CString) (flags : UInt32) (links : Nat)
  | close (fd : Nat)
  | write (fd : Nat) (bytes : List UInt8)
  | read (fd size : Nat)
  | lseek (fd : Nat) (offset whence : Int)
  | chmod (path : CString) (mode : UInt32)
  | move (src dest : CString) (grants : Nat → Bool)
  | unlink (path : CString)
  | rmdir (path : CString)

/-- Carrying out a call, with no result if it does not return. -/
def VfsOp.exec (vfs : Vfs) : VfsOp → Option Vfs
  | .installFile path permissions bytes grants => some (vfsInstallFile grants vfs path permissions bytes).1
  | .createFile path force grants => some (vfsCoreCreateFile grants vfs path force).1
  | .createDir path grants => some (vfsMakeDirectory grants vfs path).1
  | .createSymlink target path force grants => some (vfsCoreCreateSymlink grants vfs target path force).1
  | .lookup path => some (vfsLookup vfs path).1
  | .openFile path flags links => (vfsCoreOpenInternal links vfs path flags).map (·.1)
  | .close fd => some (vfsCoreClose vfs fd)
  | .write fd bytes => some (vfsCoreWrite vfs fd bytes).1
  | .read fd size => some (vfsCoreRead vfs fd size).1
  | .lseek fd offset whence => some (vfsCoreLseek vfs fd offset whence).1
  | .chmod path mode => some (vfsCoreChmod vfs path mode)
  | .move src dest grants => (vfsCoreMove grants vfs src dest).map (·.1)
  | .unlink path => some (vfsCoreUnlink vfs path).1
  | .rmdir path => some (vfsCoreRmdir vfs path).1

end Galio
