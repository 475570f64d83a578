import Galio.Fs.Vfs

/-! The permission checks of `kernel/security/security.c` for files in memory, and `syscall_open` behind them. -/

namespace Galio

/-- The fields of `process_t` that decide what a process may do to files. -/
structure Actor where
  uid : Nat
  gid : Nat
  capabilities : UInt64

def securityCapDacOverride : UInt64 := 4

def securityCapable (actor : Actor) (capability : UInt64) : Bool :=
  capability ≠ 0 && actor.capabilities &&& capability == capability

/-- The bits of a mode for a process: the owner's, the group's or the others'. -/
def accessBits (actor : Actor) (inode : VfsInode) : UInt32 :=
  let shift : UInt32 := if actor.uid = inode.uid then 6 else if actor.gid = inode.gid then 3 else 0
  (inode.mode >>> shift) &&& 7

def securityModeAllows (actor : Actor) (inode : VfsInode) (access : UInt32) : Bool :=
  securityCapable actor securityCapDacOverride || accessBits actor inode &&& access == access

/-- The loop of `security_check_file_access` over the parents, with a bound on its passes. -/
def securityCheckParents (actor : Actor) (vfs : Vfs) : Nat → Option Nat → Option Bool
  | 0, _ => none
  | _ + 1, none => some true
  | steps + 1, some parent =>
    -- A parent that is no directory is passed over before the root is looked for.
    if (vfs.inodeOf parent).type ≠ vfsTypeDir then
      securityCheckParents actor vfs steps (vfs.dentries parent).parent
    else if !securityModeAllows actor (vfs.inodeOf parent) 1 then some false
    else if parent = rootDentry then some true
    else securityCheckParents actor vfs steps (vfs.dentries parent).parent

/-- `security_check_file_access`, with no result if its loop does not end. -/
def securityCheckFileAccess (steps : Nat) (actor : Actor) (vfs : Vfs) (path : CString) (access : UInt32) :
    Option (Vfs × Bool) :=
  if access &&& ~~~7 ≠ 0 then some (vfs, false)
  else
    match vfsLookup vfs path with
    | (vfs, none) => some (vfs, false)
    | (vfs, some d) =>
      if securityCapable actor securityCapDacOverride then some (vfs, true)
      else
        (securityCheckParents actor vfs steps (vfs.dentries d).parent).map fun searched =>
          (vfs, searched && securityModeAllows actor (vfs.inodeOf d) access)

def processMaxFds : Nat := 16

/-- The access that the flags of an open ask for. -/
def openAccess (flags : UInt32) : UInt32 := if flags &&& 3 = 1 then 2 else if flags &&& 3 = 2 then 6 else 4

def vfsCoreOpenFlags (links : Nat) (vfs : Vfs) (path : CString) (flags : UInt32) : Option (Vfs × Option Nat) :=
  if flags &&& ~~~3 ≠ 0 ∨ flags &&& 3 > 2 then some (vfs, none) else vfsCoreOpenInternal links vfs path flags

/-- `syscall_open` past the path, with the descriptors of the process; no result while its loops go on. -/
def syscallOpen (steps links : Nat) (actor : Actor) (fds : Nat → Option Nat) (vfs : Vfs) (resolved : CString)
    (flags : UInt32) : Option (Vfs × (Nat → Option Nat) × Option Nat) :=
  -- A negative number of flags has high bits set.
  if flags &&& ~~~3 ≠ 0 ∨ flags &&& 3 > 2 then some (vfs, fds, none)
  else
    match securityCheckFileAccess steps actor vfs resolved (openAccess flags) with
    | none => none
    | some (vfs, false) => some (vfs, fds, none)
    | some (vfs, true) =>
      match vfsCoreOpenFlags links vfs resolved flags with
      | none => none
      | some (vfs, none) => some (vfs, fds, none)
      | some (vfs, some handle) =>
        match (List.range processMaxFds).find? fun fd => fds fd == none with
        | some fd => some (vfs, Function.update fds fd (some handle), some fd)
        | none => some (vfsCoreClose vfs handle, fds, none)

end Galio
