import Xv6KernelEvent.FileSystem.Inode

/-!
# System calls on the name space

Path lookup (`kernel/fs.c`) and the system calls of `kernel/sysfile.c` that
create, remove or hold names, with the file table of `kernel/file.c` and the
parts of `kfork` and `kexit` that touch them.  Each call runs to its end before
the next one starts.  A path is the list of its bytes before the NUL; `none`
stands for a string that could not be fetched from user space.
-/

namespace Xv6KernelEvent

def slash : UInt8 := 47

def dot : Name := [46]

def dotDot : Name := [46, 46]

/-- `skipelem`: the next path element, cut to `DIRSIZ` bytes, and the path
behind it without leading slashes. -/
def skipelem (path : List UInt8) : Option (Name × List UInt8) :=
  match path.dropWhile (· = slash) with
  | [] => none
  | first :: rest =>
    let path := first :: rest
    some ((path.takeWhile (· ≠ slash)).take DIRSIZ,
      (path.dropWhile (· ≠ slash)).dropWhile (· = slash))

/-- The elements that repeated `skipelem` calls yield.  Each call shortens the
path, so its length bounds their number. -/
def pathElements : Nat → List UInt8 → List Name
  | 0, _ => []
  | fuel + 1, path =>
    match skipelem path with
    | none => []
    | some (name, rest) => name :: pathElements fuel rest

/-- The loop of `namex` from a referenced inode on. -/
def namexLoop (nameiparent : Bool) : Nat → List Name → FsM (Option (Nat × Name))
  | ip, [] =>
    if nameiparent then do
      iput ip
      pure none
    else pure (some (ip, []))
  | ip, name :: names => do
    ilock ip
    let state ← get
    if state.type ip ≠ .dir then
      iput ip
      pure none
    else if nameiparent = true ∧ names = [] then pure (some (ip, name))
    else
      match ← dirlookup ip name with
      | none =>
        iput ip
        pure none
      | some (_, next) =>
        iput ip
        namexLoop nameiparent next names

/-- `namex`: the inode found, referenced, and the last element. -/
def namex (nameiparent : Bool) (cwd : Nat) (path : List UInt8) : FsM (Option (Nat × Name)) := do
  let start := if path.head? = some slash then ROOTINO else cwd
  if path.head? = some slash then iget ROOTINO else idup cwd
  namexLoop nameiparent start (pathElements path.length path)

/-- `ip->nlink++` with `iupdate`. -/
def incrementLinks (inum : Nat) : FsM Unit := fun state =>
  let dinode := state.dinode inum
  .ok () (state.setDinode inum { dinode with nlink := (dinode.nlink + 1) % 2 ^ 16 })

/-- `ip->nlink--` with `iupdate`. -/
def decrementLinks (inum : Nat) : FsM Unit := fun state =>
  let dinode := state.dinode inum
  .ok () (state.setDinode inum { dinode with nlink := (dinode.nlink + 2 ^ 16 - 1) % 2 ^ 16 })

def initInode (inum : Nat) (major minor : Int) (nlink : Nat) : FsM Unit :=
  fun state =>
    .ok () (state.setDinode inum
      { state.dinode inum with major := major, minor := minor, nlink := nlink })

def clearLinks (inum : Nat) : FsM Unit := fun state =>
  .ok () (state.setDinode inum { state.dinode inum with nlink := 0 })

/-- The entries `"."` and `".."` of a new directory. -/
def linkDots (room : Nat → Bool) (type : InodeType) (ip dp : Nat) : FsM Bool :=
  if type = .dir then do
    if ← dirlink room ip dot ip then dirlink room ip dotDot dp
    else pure false
  else pure true

/-- The entries that make a new inode part of the tree. -/
def nameNode (room : Nat → Bool) (dp : Nat) (name : Name) (type : InodeType)
    (ip : Nat) : FsM Bool := do
  if ← linkDots room type ip dp then dirlink room dp name ip
  else pure false

/-- The part of `create` that makes a new inode with a name that `dp` does
not have yet. -/
def createNode (room : Nat → Bool) (dp : Nat) (name : Name)
    (type : InodeType) (major minor : Int) : FsM (Option Nat) := do
  match ← ialloc type with
  | none =>
    iput dp
    pure none
  | some ip =>
    ilock ip
    initInode ip major minor 1
    if ← nameNode room dp name type ip then
      if type = .dir then incrementLinks dp else pure ()
      iput dp
      pure (some ip)
    else
      clearLinks ip
      iput ip
      iput dp
      pure none

/-- `create`: the new or existing inode, referenced. -/
def create (room : Nat → Bool) (cwd : Nat) (path : List UInt8)
    (type : InodeType) (major minor : Int) : FsM (Option Nat) := do
  match ← namex true cwd path with
  | none => pure none
  | some (dp, name) =>
    ilock dp
    match ← dirlookup dp name with
    | none => createNode room dp name type major minor
    | some (_, ip) =>
      iput dp
      ilock ip
      let state ← get
      if type = .file ∧ (state.type ip = .file ∨ state.type ip = .device) then pure (some ip)
      else
        iput ip
        pure none

/-- `isdirempty`. -/
def isdirempty (dirents : List Dirent) : Bool :=
  (dirents.drop 2).all fun entry => decide (entry.inum = 0)

/-- The part of `sys_link` that writes the new name of a file. -/
def linkName (room : Nat → Bool) (cwd : Nat) (new : List UInt8) (ip : Nat) : FsM Bool := do
  match ← namex true cwd new with
  | none => pure false
  | some (dp, name) =>
    ilock dp
    let linked ← dirlink room dp name ip
    iput dp
    pure linked

/-- `sys_link` from the fetched paths on. -/
def linkPaths (room : Nat → Bool) (cwd : Nat) (old new : List UInt8) : FsM Int := do
  match ← namex false cwd old with
  | none => pure (-1)
  | some (ip, _) =>
    ilock ip
    let state ← get
    if state.type ip = .dir then
      iput ip
      pure (-1)
    else
      incrementLinks ip
      if ← linkName room cwd new ip then
        iput ip
        pure 0
      else
        ilock ip
        decrementLinks ip
        iput ip
        pure (-1)

/-- The write of an empty entry over a slot. -/
def clearSlot (dp slot : Nat) : FsM Unit := fun state =>
  let dinode := state.dinode dp
  .ok () (state.setDinode dp
    { dinode with dirents := dinode.dirents.set slot { inum := 0, name := [] } })

/-- The part of `sys_unlink` behind the lookup of the entry. -/
def unlinkEntry (dp slot ip : Nat) : FsM Int := do
  ilock ip
  let state ← get
  let dinode := state.dinode ip
  if dinode.nlink = 0 ∨ 2 ^ 15 ≤ dinode.nlink then throw .unlinkNlink
  else if dinode.type = .dir ∧ isdirempty dinode.dirents = false then
    iput ip
    iput dp
    pure (-1)
  else
    clearSlot dp slot
    if dinode.type = .dir then decrementLinks dp else pure ()
    iput dp
    decrementLinks ip
    iput ip
    pure 0

/-- `sys_unlink` from the fetched path on. -/
def unlinkPath (cwd : Nat) (path : List UInt8) : FsM Int := do
  match ← namex true cwd path with
  | none => pure (-1)
  | some (dp, name) =>
    ilock dp
    if name = dot ∨ name = dotDot then
      iput dp
      pure (-1)
    else
      match ← dirlookup dp name with
      | none =>
        iput dp
        pure (-1)
      | some (slot, ip) => if ip = dp then throw .blocked else unlinkEntry dp slot ip

/-- `filealloc`. -/
def filealloc : FsM (Option Nat) := fun state =>
  match state.ftable.findIdx? (fun file => decide (file.ref = 0)) with
  | none => .ok none state
  | some index =>
    .ok (some index)
      { state with
        ftable := state.ftable.set index { ref := 1, ip := none } }

/-- `filedup`. -/
def filedup (index : Nat) : FsM Unit := fun state =>
  match state.ftable[index]? with
  | none => .error .filedup state
  | some file =>
    if file.ref < 1 then .error .filedup state
    else
      .ok ()
        { state with
          ftable := state.ftable.set index { file with ref := file.ref + 1 } }

/-- The part of `fileclose` under `ftable.lock`: the inode to put. -/
def dropFile (index : Nat) : FsM (Option Nat) := fun state =>
  match state.ftable[index]? with
  | none => .error .fileclose state
  | some file =>
    if file.ref < 1 then .error .fileclose state
    else if 1 < file.ref then
      .ok none
        { state with
          ftable := state.ftable.set index { file with ref := file.ref - 1 } }
    else
      .ok file.ip
        { state with
          ftable := state.ftable.set index { ref := 0, ip := none } }

/-- `fileclose`. -/
def fileclose (index : Nat) : FsM Unit := do
  match ← dropFile index with
  | none => pure ()
  | some ip => iput ip

def setProc (p : Nat) (proc : Option FsProc) : FsM Unit := fun state =>
  .ok () { state with procs := state.procs.set p proc }

/-- `fdalloc`: the first free descriptor of a process. -/
def fdalloc (p : Nat) (proc : FsProc) (index : Nat) : FsM (Option Nat) :=
  match proc.ofile.findIdx? (· = none) with
  | none => pure none
  | some fd => do
    setProc p (some { proc with ofile := proc.ofile.set fd (some index) })
    pure (some fd)

/-- `f->ip = ip`, the reference passing to the file. -/
def setFileInode (index ip : Nat) : FsM Unit := fun state =>
  .ok ()
    { state with
      ftable := state.ftable.modify index fun file => { file with ip := some ip } }

/-- The end of `sys_open`, with the referenced inode. -/
def openInode (p : Nat) (proc : FsProc) (ip : Nat) : FsM Int := do
  let state ← get
  let dinode := state.dinode ip
  if dinode.type = .device ∧ (dinode.major < 0 ∨ dinode.major ≥ NDEV) then
    iput ip
    pure (-1)
  else
    match ← filealloc with
    | none =>
      iput ip
      pure (-1)
    | some index =>
      match ← fdalloc p proc index with
      | none =>
        fileclose index
        iput ip
        pure (-1)
      | some fd =>
        setFileInode index ip
        pure fd

/-- `sys_open` from the fetched path on; `create` is the `O_CREATE` bit and
`readOnly` says that the mode is `O_RDONLY`. -/
def openPath (room : Nat → Bool) (p : Nat) (proc : FsProc)
    (path : List UInt8) (createFile readOnly : Bool) : FsM Int := do
  if createFile then
    match ← create room proc.cwd path .file 0 0 with
    | none => pure (-1)
    | some ip => openInode p proc ip
  else
    match ← namex false proc.cwd path with
    | none => pure (-1)
    | some (ip, _) =>
      ilock ip
      let state ← get
      if state.type ip = .dir ∧ readOnly = false then
        iput ip
        pure (-1)
      else openInode p proc ip

/-- `sys_mkdir` and `sys_mknod` from the fetched path on. -/
def makeNode (room : Nat → Bool) (proc : FsProc) (path : List UInt8)
    (type : InodeType) (major minor : Int) : FsM Int := do
  match ← create room proc.cwd path type major minor with
  | none => pure (-1)
  | some ip =>
    iput ip
    pure 0

/-- `sys_chdir` from the fetched path on. -/
def chdirPath (p : Nat) (proc : FsProc) (path : List UInt8) : FsM Int := do
  match ← namex false proc.cwd path with
  | none => pure (-1)
  | some (ip, _) =>
    ilock ip
    let state ← get
    if state.type ip ≠ .dir then
      iput ip
      pure (-1)
    else
      iput proc.cwd
      setProc p (some { proc with cwd := ip })
      pure 0

/-- `sys_close`. -/
def closeFd (p : Nat) (proc : FsProc) (fd : Nat) : FsM Int := do
  match proc.ofile[fd]? with
  | some (some index) => do
    setProc p (some { proc with ofile := proc.ofile.set fd none })
    fileclose index
    pure 0
  | _ => pure (-1)

/-- The files and the working directory that `kexit` gives up. -/
def exitProc (p : Nat) (proc : FsProc) : FsM Int := do
  (proc.ofile.filterMap id).forM fileclose
  iput proc.cwd
  setProc p none
  pure 0

def addProc (proc : FsProc) : FsM Unit := fun state =>
  .ok () { state with procs := state.procs ++ [some proc] }

/-- What a child gets from `kfork`. -/
def forkProc (proc : FsProc) : FsM Int := do
  (proc.ofile.filterMap id).forM filedup
  idup proc.cwd
  addProc proc
  pure 0

/-- `sys_dup`. -/
def dupFd (p : Nat) (proc : FsProc) (fd : Nat) : FsM Int := do
  match proc.ofile[fd]? with
  | some (some index) =>
    match ← fdalloc p proc index with
    | none => pure (-1)
    | some new =>
      filedup index
      pure new
  | _ => pure (-1)

/-- A system call with what user space and the disk contribute to it. -/
inductive FsCall where
  | open (path : Option (List UInt8)) (createFile readOnly : Bool) (room : Nat → Bool)
  | mkdir (path : Option (List UInt8)) (room : Nat → Bool)
  | mknod (path : Option (List UInt8)) (major minor : Int) (room : Nat → Bool)
  | link (old new : Option (List UInt8)) (room : Nat → Bool)
  | unlink (path : Option (List UInt8))
  | chdir (path : Option (List UInt8))
  | close (fd : Nat)
  | dup (fd : Nat)
  | fork
  | exit

def FsCall.perform (p : Nat) (proc : FsProc) : FsCall → FsM Int
  | .open (some path) createFile readOnly room => openPath room p proc path createFile readOnly
  | .mkdir (some path) room => makeNode room proc path .dir 0 0
  | .mknod (some path) major minor room => makeNode room proc path .device major minor
  | .link (some old) (some new) room => linkPaths room proc.cwd old new
  | .unlink (some path) => unlinkPath proc.cwd path
  | .chdir (some path) => chdirPath p proc path
  | .close fd => closeFd p proc fd
  | .dup fd => dupFd p proc fd
  | .fork => forkProc proc
  | .exit => exitProc p proc
  | _ => pure (-1)

/-- A call by process `p`; a process that has exited makes none. -/
def fsCall (p : Nat) (call : FsCall) : FsM Int := do
  let state ← get
  match state.procs[p]? with
  | some (some proc) => call.perform p proc
  | _ => pure (-1)

/-- A sequence of calls by any processes, up to the first one that does not
return. -/
def fsRun : List (Nat × FsCall) → FsM Unit
  | [] => pure ()
  | (p, call) :: calls => do
    let _ ← fsCall p call
    fsRun calls

end Xv6KernelEvent
