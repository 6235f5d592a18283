import Mathlib.Algebra.Order.Ring.Nat
import Mathlib.Logic.Function.Basic
import Xv6KernelEvent.Param

/-!
# Inodes and directories

The name space of `kernel/fs.c`: on-disk inodes, the in-memory inode table and
directory contents.  The data blocks of files are left out; a directory is the
list of its entries, slot by slot.  An in-memory inode agrees with its disk
copy whenever it is valid, since every change is followed by `iupdate`, so only
the reference count and the `valid` flag of the table are kept apart.

Programs run over `EStateM`: they return a value, or stop in a panic.
-/

namespace Xv6KernelEvent

def DIRSIZ : Nat := 14

def ROOTINO : Nat := 1

inductive InodeType where
  | free
  | dir
  | file
  | device
  deriving DecidableEq

/-- A directory entry name: the bytes before the NUL, at most `DIRSIZ`. -/
abbrev Name : Type := List UInt8

/-- `struct dirent`; `inum` is a `ushort`, 0 in an empty slot. -/
structure Dirent where
  inum : Nat
  name : Name
  deriving DecidableEq

/-- `struct dinode` without its data blocks.  `nlink` is the value of the
`short` modulo `2^16`. -/
structure Dinode where
  type : InodeType
  major : Int
  minor : Int
  nlink : Nat
  dirents : List Dirent

/-- An entry of `itable`; it is in use when `ref` is positive. -/
structure InCore where
  ref : Nat
  valid : Bool

/-- `struct file` of an inode or a device; `ip` is `none` for `FD_NONE`. -/
structure FileEntry where
  ref : Nat
  ip : Option Nat

/-- The file-system part of `struct proc`. -/
structure FsProc where
  cwd : Nat
  ofile : List (Option Nat)

/-- Why a system call does not return: a panic, or waiting for a lock that the
process itself holds. -/
inductive Halt where
  | ilock
  | ilockNoType
  | igetNoInodes
  | dirlookupNotDir
  | unlinkNlink
  | filedup
  | fileclose
  | blocked
  deriving DecidableEq

/-- The file system and its users. -/
structure FsState where
  ninodes : Nat
  dinode : Nat → Dinode
  incore : Nat → InCore
  ftable : List FileEntry
  procs : List (Option FsProc)

abbrev FsM (α : Type) : Type := EStateM Halt FsState α

namespace FsState

variable (state : FsState)

def type (inum : Nat) : InodeType := (state.dinode inum).type

def setDinode (inum : Nat) (dinode : Dinode) : FsState :=
  { state with dinode := Function.update state.dinode inum dinode }

def setInCore (inum : Nat) (entry : InCore) : FsState :=
  { state with incore := Function.update state.incore inum entry }

/-- How many entries of `itable` are in use. -/
def inUse : Nat :=
  (List.range state.ninodes).countP fun inum => decide (0 < (state.incore inum).ref)

end FsState

/-- `iget`. -/
def iget (inum : Nat) : FsM Unit := fun state =>
  let entry := state.incore inum
  if 0 < entry.ref then .ok () (state.setInCore inum { entry with ref := entry.ref + 1 })
  else if NINODE ≤ state.inUse then .error .igetNoInodes state
  else .ok () (state.setInCore inum { ref := 1, valid := false })

/-- `idup`. -/
def idup (inum : Nat) : FsM Unit := fun state =>
  let entry := state.incore inum
  .ok () (state.setInCore inum { entry with ref := entry.ref + 1 })

/-- `ilock`, for an inode that no other process has locked. -/
def ilock (inum : Nat) : FsM Unit := fun state =>
  let entry := state.incore inum
  if entry.ref < 1 then .error .ilock state
  else if entry.valid then .ok () state
  else
    let state := state.setInCore inum { entry with valid := true }
    if state.type inum = .free then .error .ilockNoType state
    else .ok () state

/-- `iput`.  Freeing truncates the inode and clears its type. -/
def iput (inum : Nat) : FsM Unit := fun state =>
  let entry := state.incore inum
  let dinode := state.dinode inum
  if entry.ref = 1 ∧ entry.valid = true ∧ dinode.nlink = 0 then
    let state := state.setDinode inum { dinode with type := .free, dirents := [] }
    .ok () (state.setInCore inum { ref := 0, valid := false })
  else .ok () (state.setInCore inum { entry with ref := entry.ref - 1 })

/-- The inode that `ialloc` picks. -/
def FsState.freeInode? (state : FsState) : Option Nat :=
  (List.range state.ninodes).find? fun inum => decide (1 ≤ inum) && decide (state.type inum = .free)

/-- The loop of `ialloc`: the inode picked is written with its new type. -/
def claimInode (type : InodeType) : FsM (Option Nat) := fun state =>
  match state.freeInode? with
  | none => .ok none state
  | some inum =>
    .ok (some inum) (state.setDinode inum
      { type := type, major := 0, minor := 0, nlink := 0, dirents := [] })

/-- `ialloc`. -/
def ialloc (type : InodeType) : FsM (Option Nat) := do
  match ← claimInode type with
  | none => pure none
  | some inum =>
    iget inum
    pure (some inum)

/-- The first live entry with a name: its slot and its inode. -/
def findEntry (name : Name) : List Dirent → Nat → Option (Nat × Nat)
  | [], _ => none
  | entry :: entries, slot =>
    if entry.inum ≠ 0 ∧ entry.name = name then some (slot, entry.inum)
    else findEntry name entries (slot + 1)

/-- `dirlookup`: the slot and the inode found, the inode referenced. -/
def dirlookup (dp : Nat) (name : Name) : FsM (Option (Nat × Nat)) := do
  let state ← get
  if state.type dp ≠ .dir then throw .dirlookupNotDir
  else
    match findEntry name (state.dinode dp).dirents 0 with
    | none => pure none
    | some (slot, inum) =>
      iget inum
      pure (some (slot, inum))

/-- The directory after `dirlink` has found a slot for an entry: the first
empty one, or a new one at the end if there is room. -/
def placeEntry (entry : Dirent) (room : Bool) : List Dirent → Option (List Dirent)
  | [] => if room then some [entry] else none
  | first :: rest =>
    if first.inum = 0 then some (entry :: rest)
    else (placeEntry entry room rest).map (first :: ·)

/-- The part of `dirlink` behind the lookup.  `room` says whether the directory
can grow: there is a free block if one is needed, and the file-size limit is
not reached. -/
def writeEntry (room : Nat → Bool) (dp : Nat) (name : Name) (inum : Nat) : FsM Bool := fun state =>
  let dinode := state.dinode dp
  match placeEntry { inum := inum % 2 ^ 16, name := name } (room dp) dinode.dirents with
  | none => .ok false state
  | some dirents => .ok true (state.setDinode dp { dinode with dirents := dirents })

/-- `dirlink`. -/
def dirlink (room : Nat → Bool) (dp : Nat) (name : Name) (inum : Nat) : FsM Bool := do
  match ← dirlookup dp name with
  | some (_, found) =>
    iput found
    pure false
  | none => writeEntry room dp name inum

end Xv6KernelEvent
