import Mathlib.Data.List.Basic
import Xv6KernelEvent.FileSystem.Calls
import Xv6KernelEvent.Library.Triple

/-!
# References to in-memory inodes

The in-memory references are exactly those of the working directories, the open
files and the system call that runs; each call hands over what it holds to one
of them, or gives it up.  But the file table and the process table admit more
of them than `itable` has entries.
-/

namespace Xv6KernelEvent

/-- The inode that a file holds a reference to. -/
def FileEntry.held (file : FileEntry) : Option Nat := if 0 < file.ref then file.ip else none

def holdersOf (procs : List (Option FsProc)) (ftable : List FileEntry) : List Nat :=
  procs.filterMap (Option.map FsProc.cwd) ++ ftable.filterMap FileEntry.held

/-- The inodes that processes and open files refer to. -/
def FsState.holders (state : FsState) : List Nat := holdersOf state.procs state.ftable

/-- The references between two system calls. -/
def FsState.Exact (state : FsState) : Prop :=
  ∀ inum, (state.incore inum).ref = state.holders.count inum

/-- Inside a system call, which holds `extra` besides the references of the
processes and of the files as they are now. -/
structure Recorded (procs : List (Option FsProc)) (extra : List Nat) (state : FsState) : Prop where
  sameProcs : state.procs = procs
  refs : ∀ inum, (state.incore inum).ref = (extra ++ holdersOf procs state.ftable).count inum

/-- What holds after a call that returns; it may also stop. -/
abbrev Returns {α : Type} (pre : FsState → Prop) (program : FsM α)
    (post : α → FsState → Prop) : Prop :=
  Triple pre program post fun _ _ => True

abbrev Retains {α : Type} (kept : FsState → Prop) (program : FsM α) : Prop :=
  Returns kept program fun _ => kept

/-- A call that ends with the right counts. -/
abbrev EndsExact {α : Type} (pre : FsState → Prop) (program : FsM α) : Prop :=
  Returns pre program fun _ => FsState.Exact

theorem count_filterMap_set
    {α : Type} (held : α → Option Nat) {items : List α} {index : Nat} {old : α}
    (found : items[index]? = some old) (new : α) (inum : Nat) :
    ((items.set index new).filterMap held).count inum + (held old).toList.count inum =
      (items.filterMap held).count inum + (held new).toList.count inum := by
  have split (item : α) (rest : List α) : ((item :: rest).filterMap held).count inum =
        (held item).toList.count inum + (rest.filterMap held).count inum := by
    cases holds : held item with
    | none => simp [holds]
    | some value =>
      rw [List.filterMap_cons_some holds]
      simp only [Option.toList_some, List.count_cons, List.count_nil]
      omega
  induction items generalizing index with
  | nil => simp at found
  | cons first rest induction =>
    cases index with
    | zero =>
      simp only [List.getElem?_cons_zero, Option.some.injEq] at found
      subst old
      rw [List.set_cons_zero, split, split]
      omega
    | succ index =>
      rw [List.getElem?_cons_succ] at found
      have tail := induction found
      rw [List.set_cons_succ, split, split]
      omega

variable {procs : List (Option FsProc)} {ftable : List FileEntry} {extra : List Nat}

theorem count_holdersOf_setProc {p : Nat} {old : Option FsProc} (found : procs[p]? = some old)
    (new : Option FsProc) (inum : Nat) :
    (holdersOf (procs.set p new) ftable).count inum + (old.map FsProc.cwd).toList.count inum =
      (holdersOf procs ftable).count inum + (new.map FsProc.cwd).toList.count inum := by
  have change := count_filterMap_set (Option.map FsProc.cwd) found new inum
  simp only [holdersOf, List.count_append]
  omega

theorem count_holdersOf_setFile {index : Nat} {old : FileEntry} (found : ftable[index]? = some old)
    (new : FileEntry) (inum : Nat) :
    (holdersOf procs (ftable.set index new)).count inum + old.held.toList.count inum =
      (holdersOf procs ftable).count inum + new.held.toList.count inum := by
  have change := count_filterMap_set FileEntry.held found new inum
  simp only [holdersOf, List.count_append]
  omega

namespace Recorded

variable (recorded : Recorded procs extra state)

include recorded

theorem of_count (same : ∀ inum, other.count inum = extra.count inum) :
    Recorded procs other state where
  sameProcs := recorded.sameProcs
  refs inum := by
    rw [recorded.refs inum, List.count_append, List.count_append, same inum]

theorem setInCore (here : entry.ref + extra.count inum = (state.incore inum).ref + after.count inum)
    (others : ∀ other, other ≠ inum → after.count other = extra.count other) :
    Recorded procs after (state.setInCore inum entry) where
  sameProcs := recorded.sameProcs
  refs other := by
    have before := recorded.refs other
    simp only [List.count_append] at before ⊢
    by_cases same : other = inum
    · subst same
      simp only [FsState.setInCore, Function.update_self]
      omega
    · rw [others other same]
      simpa [FsState.setInCore, same] using before

theorem retain (inum : Nat) (valid : Bool) :
    Recorded procs (inum :: extra) (state.setInCore inum
      { ref := (state.incore inum).ref + 1, valid := valid }) := by
  refine recorded.setInCore ?_ ?_
  · change (state.incore inum).ref + 1 + _ = _
    rw [List.count_cons_self]
    omega
  · intro other differs
    exact List.count_cons_of_ne differs.symm

theorem setDinode (inum : Nat) (dinode : Dinode) :
    Recorded procs extra (state.setDinode inum dinode) :=
  { recorded with }

end Recorded

theorem Recorded.swap (recorded : Recorded procs (first :: second :: extra) state) :
    Recorded procs (second :: first :: extra) state :=
  recorded.of_count fun inum => (List.Perm.swap first second extra).count_eq inum

theorem Recorded.exact (recorded : Recorded procs [] state) : state.Exact := by
  intro inum
  rw [recorded.refs inum, FsState.holders, recorded.sameProcs]
  rfl

theorem FsState.Exact.recorded (exact : state.Exact) : Recorded state.procs [] state :=
  ⟨rfl, exact⟩

/-! ## The inode operations -/

section

variable (inum : Nat)

include inum

theorem iget_recorded : Returns (Recorded procs extra) (iget inum)
      fun _ => Recorded procs (inum :: extra) := by
  intro state recorded
  simp only [iget]
  by_cases used : 0 < (state.incore inum).ref
  · rw [if_pos used]
    exact recorded.retain inum _
  · rw [if_neg used]
    by_cases full : NINODE ≤ state.inUse
    · rw [if_pos full]
      trivial
    · rw [if_neg full]
      have retained := recorded.retain inum false
      rwa [Nat.eq_zero_of_not_pos used] at retained

theorem idup_recorded : Returns (Recorded procs extra) (idup inum)
      fun _ => Recorded procs (inum :: extra) :=
  fun _ recorded => recorded.retain inum _

theorem ilock_recorded : Retains (Recorded procs extra) (ilock inum) := by
  intro state recorded
  simp only [ilock]
  by_cases unused : (state.incore inum).ref < 1
  · rw [if_pos unused]
    trivial
  · rw [if_neg unused]
    by_cases valid : (state.incore inum).valid = true
    · rw [if_pos valid]
      exact recorded
    · rw [if_neg valid]
      by_cases free : (state.setInCore inum
          { state.incore inum with valid := true }).type inum = .free
      · rw [if_pos free]
        trivial
      · rw [if_neg free]
        exact recorded.setInCore rfl fun _ _ => rfl

theorem iput_refs (state : FsState) : ∃ next, iput inum state = .ok () next ∧
    next.procs = state.procs ∧ next.ftable = state.ftable ∧
    ∀ other, (next.incore other).ref = (state.incore other).ref - [inum].count other := by
  have dropped (ref : Nat) (valid : Bool) (less : ref = (state.incore inum).ref - 1) (other : Nat) :
      ((state.setInCore inum { ref, valid }).incore other).ref =
        (state.incore other).ref - [inum].count other := by
    by_cases same : other = inum
    · subst same
      simpa [FsState.setInCore] using less
    · simp [FsState.setInCore, same, Ne.symm same]
  simp only [iput]
  by_cases last : (state.incore inum).ref = 1 ∧
      (state.incore inum).valid = true ∧ (state.dinode inum).nlink = 0
  · rw [if_pos last]
    exact ⟨_, rfl, rfl, rfl, dropped 0 false (by rw [last.1])⟩
  · rw [if_neg last]
    exact ⟨_, rfl, rfl, rfl, dropped _ _ rfl⟩

theorem iput_recorded : Returns (Recorded procs (inum :: extra)) (iput inum)
      fun _ => Recorded procs extra := by
  intro state recorded
  obtain ⟨next, ends, sameProcs, sameTable, refs⟩ := iput_refs inum state
  rw [ends]
  refine ⟨sameProcs.trans recorded.sameProcs, fun other => ?_⟩
  have before := recorded.refs other
  rw [refs other, sameTable]
  simp only [List.cons_append, List.count_append, List.count_cons, List.count_nil] at before ⊢
  omega

theorem incrementLinks_recorded : Retains (Recorded procs extra) (incrementLinks inum) :=
  fun _ recorded => recorded.setDinode inum _

theorem decrementLinks_recorded : Retains (Recorded procs extra) (decrementLinks inum) :=
  fun _ recorded => recorded.setDinode inum _

theorem initInode_recorded (major minor : Int) (nlink : Nat) :
    Retains (Recorded procs extra) (initInode inum major minor nlink) :=
  fun _ recorded => recorded.setDinode inum _

theorem clearLinks_recorded : Retains (Recorded procs extra) (clearLinks inum) :=
  fun _ recorded => recorded.setDinode inum _

end

theorem clearSlot_recorded (dp slot : Nat) : Retains (Recorded procs extra) (clearSlot dp slot) :=
  fun _ recorded => recorded.setDinode dp _

theorem claimInode_recorded (type : InodeType) :
    Retains (Recorded procs extra) (claimInode type) := by
  intro state recorded
  simp only [claimInode]
  cases state.freeInode? with
  | none => exact recorded
  | some inum => exact recorded.setDinode inum _

theorem writeEntry_recorded (room : Nat → Bool) (dp : Nat) (name : Name) (inum : Nat) :
    Retains (Recorded procs extra) (writeEntry room dp name inum) := by
  intro state recorded
  simp only [writeEntry]
  cases placeEntry { inum := inum % 2 ^ 16, name := name } (room dp)
      (state.dinode dp).dirents with
  | none => exact recorded
  | some dirents => exact recorded.setDinode dp _

theorem putAndReturn_recorded {α : Type} {after : α → List Nat} (inum : Nat) {value : α}
    (rest : after value = extra) :
    Returns (Recorded procs (inum :: extra)) (do iput inum; pure value)
      fun result => Recorded procs (after result) :=
  (iput_recorded inum).bind fun _ => Triple.pure fun _ recorded => rest ▸ recorded

theorem putAndReturn_exact (inum : Nat) (value : Int) :
    EndsExact (Recorded procs [inum]) (do iput inum; pure value) :=
  (iput_recorded inum).bind fun _ => Triple.pure fun _ => Recorded.exact

theorem ialloc_recorded (type : InodeType) :
    Returns (Recorded procs extra) (ialloc type)
      (fun result => Recorded procs (result.toList ++ extra)) := by
  refine (claimInode_recorded type).bind fun claimed => ?_
  cases claimed with
  | none => exact Triple.skip rfl
  | some inum =>
    exact (iget_recorded inum).bind fun _ => Triple.skip rfl

theorem dirlookup_recorded (dp : Nat) (name : Name) :
    Returns (Recorded procs extra) (dirlookup dp name)
      (fun result => Recorded procs ((result.map Prod.snd).toList ++ extra)) := by
  refine Triple.bind Triple.read fun value => ?_
  refine Triple.ite (fun _notDir => ?_) fun _isDir => ?_
  · exact Triple.throw fun _ _ => trivial
  · cases findEntry name (value.dinode dp).dirents 0 with
    | none => exact Triple.skip rfl
    | some found =>
      obtain ⟨slot, inum⟩ := found
      exact (iget_recorded inum).bind fun _ => Triple.skip rfl

theorem dirlink_recorded (room : Nat → Bool) (dp : Nat) (name : Name) (inum : Nat) :
    Retains (Recorded procs extra) (dirlink room dp name inum) := by
  refine (dirlookup_recorded dp name).bind fun found => ?_
  cases found with
  | none => exact writeEntry_recorded room dp name inum
  | some found => exact putAndReturn_recorded found.2 rfl

/-- `namex` has the inode that it is at and the next one. -/
theorem namexLoop_recorded (nameiparent : Bool) (ip : Nat) (names : List Name) :
    Returns (Recorded procs (ip :: extra)) (namexLoop nameiparent ip names)
      (fun result => Recorded procs ((result.map Prod.fst).toList ++ extra)) := by
  induction names generalizing ip with
  | nil =>
    unfold namexLoop
    refine Triple.ite (fun _parent => ?_) fun _itself => ?_
    · exact putAndReturn_recorded ip rfl
    · exact Triple.skip rfl
  | cons name names induction =>
    unfold namexLoop
    refine (ilock_recorded ip).bind fun _ => ?_
    refine Triple.bind Triple.read fun value => ?_
    refine Triple.ite (fun _notDir => ?_) fun _isDir => ?_
    · exact putAndReturn_recorded ip rfl
    · refine Triple.ite (fun _last => ?_) fun _inner => ?_
      · exact Triple.skip rfl
      · refine (dirlookup_recorded ip name).bind fun found => ?_
        cases found with
        | none => exact putAndReturn_recorded ip rfl
        | some found =>
          exact (iput_recorded ip).call (fun _ => Recorded.swap)
            fun _ => induction found.2

theorem namex_recorded (nameiparent : Bool) (cwd : Nat) (path : List UInt8) :
    Returns (Recorded procs extra) (namex nameiparent cwd path)
      (fun result => Recorded procs ((result.map Prod.fst).toList ++ extra)) := by
  unfold namex
  by_cases absolute : path.head? = some slash
  · simp only [if_pos absolute]
    exact (iget_recorded ROOTINO).bind fun _ =>
      namexLoop_recorded nameiparent ROOTINO _
  · simp only [if_neg absolute]
    exact (idup_recorded cwd).bind fun _ => namexLoop_recorded nameiparent cwd _

theorem linkDots_recorded (room : Nat → Bool) (type : InodeType) (ip dp : Nat) :
    Retains (Recorded procs extra) (linkDots room type ip dp) := by
  refine Triple.ite (fun _directory => ?_) fun _other => ?_
  · refine (dirlink_recorded room ip dot ip).bind fun linked => ?_
    cases linked with
    | true => exact dirlink_recorded room ip dotDot dp
    | false => exact Triple.skip rfl
  · exact Triple.skip rfl

theorem nameNode_recorded (room : Nat → Bool) (dp : Nat) (name : Name) (type : InodeType)
    (ip : Nat) :
    Retains (Recorded procs extra) (nameNode room dp name type ip) := by
  refine (linkDots_recorded room type ip dp).bind fun linked => ?_
  cases linked with
  | true => exact dirlink_recorded room dp name ip
  | false => exact Triple.skip rfl

/-- `create` has the directory and the new inode when it looks for a name. -/
theorem createNode_recorded (room : Nat → Bool) (dp : Nat) (name : Name) (type : InodeType)
    (major minor : Int) :
    Returns (Recorded procs (dp :: extra)) (createNode room dp name type major minor)
      (fun result => Recorded procs (result.toList ++ extra)) := by
  refine (ialloc_recorded type).bind fun allocated => ?_
  cases allocated with
  | none => exact putAndReturn_recorded dp rfl
  | some ip =>
    refine (ilock_recorded ip).bind fun _ => ?_
    refine (initInode_recorded ip major minor 1).bind fun _ => ?_
    refine (nameNode_recorded room dp name type ip).bind fun named => ?_
    cases named with
    | true =>
      have put : Returns (Recorded procs (ip :: dp :: extra)) (do iput dp; pure (some ip))
          (fun result => Recorded procs (result.toList ++ extra)) :=
        (putAndReturn_recorded dp rfl).before fun _ recorded => recorded.swap
      simp only [if_true]
      refine Triple.ite (fun _directory => ?_) fun _other => put
      exact (incrementLinks_recorded dp).bind fun _ => put
    | false =>
      refine (clearLinks_recorded ip).bind fun _ => ?_
      refine (iput_recorded ip).bind fun _ => ?_
      exact putAndReturn_recorded dp rfl

theorem create_recorded (room : Nat → Bool) (cwd : Nat) (path : List UInt8) (type : InodeType)
    (major minor : Int) :
    Returns (Recorded procs extra) (create room cwd path type major minor)
      (fun result => Recorded procs (result.toList ++ extra)) := by
  refine (namex_recorded true cwd path).bind fun parent => ?_
  cases parent with
  | none => exact Triple.skip rfl
  | some parent =>
    obtain ⟨dp, name⟩ := parent
    refine (ilock_recorded dp).bind fun _ => ?_
    refine (dirlookup_recorded dp name).bind fun found => ?_
    cases found with
    | none => exact createNode_recorded room dp name type major minor
    | some found =>
      obtain ⟨slot, ip⟩ := found
      refine (iput_recorded dp).call (fun _ => Recorded.swap) fun _ => ?_
      refine (ilock_recorded ip).bind fun _ => ?_
      refine Triple.bind Triple.read fun value => ?_
      refine Triple.ite (fun _usable => ?_) fun _other => ?_
      · exact Triple.skip rfl
      · exact putAndReturn_recorded ip rfl

/-- `sys_link` has the file when it looks for the new name. -/
theorem linkName_recorded (room : Nat → Bool) (cwd : Nat) (new : List UInt8) (ip : Nat) :
    Retains (Recorded procs extra) (linkName room cwd new ip) := by
  refine (namex_recorded true cwd new).bind fun parent => ?_
  cases parent with
  | none => exact Triple.skip rfl
  | some parent =>
    obtain ⟨dp, name⟩ := parent
    refine (ilock_recorded dp).bind fun _ => ?_
    refine (dirlink_recorded room dp name ip).bind fun linked => ?_
    exact putAndReturn_recorded dp rfl

theorem linkPaths_recorded (room : Nat → Bool) (cwd : Nat) (old new : List UInt8) :
    Retains (Recorded procs extra) (linkPaths room cwd old new) := by
  refine (namex_recorded false cwd old).bind fun file => ?_
  cases file with
  | none => exact Triple.skip rfl
  | some file =>
    obtain ⟨ip, _⟩ := file
    refine (ilock_recorded ip).bind fun _ => ?_
    refine Triple.bind Triple.read fun value => ?_
    refine Triple.ite (fun _directory => ?_) fun _file => ?_
    · exact putAndReturn_recorded ip rfl
    · refine (incrementLinks_recorded ip).bind fun _ => ?_
      refine (linkName_recorded room cwd new ip).bind fun linked => ?_
      cases linked with
      | true => exact putAndReturn_recorded ip rfl
      | false =>
        refine (ilock_recorded ip).bind fun _ => ?_
        refine (decrementLinks_recorded ip).bind fun _ => ?_
        exact putAndReturn_recorded ip rfl

theorem unlinkEntry_recorded (dp slot ip : Nat) :
    Returns (Recorded procs (ip :: dp :: extra)) (unlinkEntry dp slot ip)
      (fun _ => Recorded procs extra) := by
  refine (ilock_recorded ip).bind fun _ => ?_
  refine Triple.bind Triple.read fun value => ?_
  refine Triple.ite (fun _unlinked => ?_) fun _linked => ?_
  · exact Triple.throw fun _ _ => trivial
  · refine Triple.ite (fun _full => ?_) fun _empty => ?_
    · refine (iput_recorded ip).bind fun _ => ?_
      exact putAndReturn_recorded dp rfl
    · refine (clearSlot_recorded dp slot).bind fun _ => ?_
      have put : Returns (Recorded procs (ip :: dp :: extra))
          (do iput dp; decrementLinks ip; iput ip; pure (0 : Int))
          (fun _ => Recorded procs extra) := by
        refine (iput_recorded dp).call (fun _ => Recorded.swap) fun _ => ?_
        refine (decrementLinks_recorded ip).bind fun _ => ?_
        exact putAndReturn_recorded ip rfl
      refine Triple.ite (fun _directory => ?_) fun _other => put
      exact (decrementLinks_recorded dp).bind fun _ => put

theorem unlinkPath_recorded (cwd : Nat) (path : List UInt8) :
    Retains (Recorded procs extra) (unlinkPath cwd path) := by
  refine (namex_recorded true cwd path).bind fun parent => ?_
  cases parent with
  | none => exact Triple.skip rfl
  | some parent =>
    obtain ⟨dp, name⟩ := parent
    refine (ilock_recorded dp).bind fun _ => ?_
    refine Triple.ite (fun _dots => ?_) fun _other => ?_
    · exact putAndReturn_recorded dp rfl
    · refine (dirlookup_recorded dp name).bind fun found => ?_
      cases found with
      | none => exact putAndReturn_recorded dp rfl
      | some found =>
        refine Triple.ite (fun _self => ?_) fun _other => ?_
        · exact Triple.throw fun _ _ => trivial
        · exact unlinkEntry_recorded dp found.1 found.2

/-! ## Files and processes -/

theorem Recorded.setFile (recorded : Recorded procs extra state)
    (found : state.ftable[index]? = some old)
    (moved : ∀ inum, after.count inum + new.held.toList.count inum =
      extra.count inum + old.held.toList.count inum) :
    Recorded procs after { state with ftable := state.ftable.set index new } where
  sameProcs := recorded.sameProcs
  refs inum := by
    have before := recorded.refs inum
    have change := @count_holdersOf_setFile procs _ _ _ found new inum
    have moves := moved inum
    simp only [List.count_append] at before ⊢
    omega

theorem filealloc_recorded : Returns (Recorded procs extra) filealloc
      (fun result state => Recorded procs extra state ∧ ∀ index, result = some index →
          state.ftable[index]? = some { ref := 1, ip := none }) := by
  intro state recorded
  simp only [filealloc]
  cases found : state.ftable.findIdx? fun file => decide (file.ref = 0) with
  | none => exact ⟨recorded, by simp⟩
  | some index =>
    obtain ⟨below, unused, _⟩ := List.findIdx?_eq_some_iff_getElem.mp found
    have entry : state.ftable[index]? = some state.ftable[index] := List.getElem?_eq_getElem below
    have free : state.ftable[index].ref = 0 := by simpa using unused
    refine ⟨recorded.setFile entry fun inum => ?_, ?_⟩
    · simp [FileEntry.held, free]
    · intro other same
      cases same
      simp [below]

theorem filedup_recorded (index : Nat) : Retains (Recorded procs extra) (filedup index) := by
  intro state recorded
  simp only [filedup]
  cases found : state.ftable[index]? with
  | none => trivial
  | some file =>
    by_cases unused : file.ref < 1
    · simp only [if_pos unused]
    · simp only [if_neg unused]
      refine recorded.setFile found fun inum => ?_
      have used : 0 < file.ref := by omega
      simp [FileEntry.held, used]

theorem dropFile_recorded (index : Nat) : Returns (Recorded procs extra) (dropFile index)
      (fun result => Recorded procs (result.toList ++ extra)) := by
  intro state recorded
  simp only [dropFile]
  cases found : state.ftable[index]? with
  | none => trivial
  | some file =>
    by_cases unused : file.ref < 1
    · simp only [if_pos unused]
    · simp only [if_neg unused]
      have used : 0 < file.ref := by omega
      by_cases shared : 1 < file.ref
      · simp only [if_pos shared]
        refine recorded.setFile found fun inum => ?_
        have stillUsed : 0 < file.ref - 1 := by omega
        simp [FileEntry.held, used, stillUsed]
      · simp only [if_neg shared]
        refine recorded.setFile found fun inum => ?_
        simp only [FileEntry.held, used, if_true, ite_self,
          List.count_append, Option.toList_none, List.count_nil]
        omega

theorem fileclose_recorded (index : Nat) : Retains (Recorded procs extra) (fileclose index) := by
  refine (dropFile_recorded index).bind fun dropped => ?_
  cases dropped with
  | none => exact Triple.skip rfl
  | some ip => exact iput_recorded ip

theorem setFileInode_recorded (index ip : Nat) : Returns
      (fun state => Recorded procs (ip :: extra) state ∧
        state.ftable[index]? = some { ref := 1, ip := none })
      (setFileInode index ip) (fun _ => Recorded procs extra) := by
  rintro state ⟨recorded, entry⟩
  simp only [setFileInode]
  rw [List.modify_eq_set_getElem?, entry]
  refine recorded.setFile entry fun inum => ?_
  simp [FileEntry.held, List.count_cons]

section Call

variable {p : Nat} (found : procs[p]? = some (some proc))

include found

theorem Recorded.setProc (recorded : Recorded procs extra state) (new : Option FsProc)
    (moved : ∀ inum, after.count inum + (new.map FsProc.cwd).toList.count inum =
        extra.count inum + [proc.cwd].count inum) :
    Recorded (procs.set p new) after { state with procs := state.procs.set p new } where
  sameProcs := congrArg (List.set · p new) recorded.sameProcs
  refs inum := by
    have before := recorded.refs inum
    have change := @count_holdersOf_setProc _ state.ftable _ _ found new inum
    have moves := moved inum
    simp only [List.count_append, Option.map_some, Option.toList_some]
      at before change ⊢
    omega

theorem fdalloc_recorded (index : Nat) (table : List FileEntry → Prop) :
    Returns (fun state => Recorded procs extra state ∧ table state.ftable) (fdalloc p proc index)
      (fun _ state => Recorded state.procs extra state ∧ table state.ftable) := by
  simp only [fdalloc]
  cases proc.ofile.findIdx? (· = none) with
  | none =>
    refine Triple.pure fun state met => ⟨?_, met.2⟩
    rw [met.1.sameProcs]
    exact met.1
  | some fd =>
    refine Triple.bind ?_ fun _ => Triple.skip rfl
    rintro state ⟨recorded, entry⟩
    have moved := recorded.setProc found
      (some { proc with ofile := proc.ofile.set fd (some index) }) fun _ => rfl
    rw [← recorded.sameProcs] at moved
    exact ⟨moved, entry⟩

theorem openInode_exact (ip : Nat) : EndsExact (Recorded procs [ip]) (openInode p proc ip) := by
  refine Triple.bind Triple.read fun value => ?_
  refine Triple.ite (fun _badDevice => ?_) fun _opened => ?_
  · exact (putAndReturn_exact ip (-1))
  · refine filealloc_recorded.bind fun allocated => ?_
    cases allocated with
    | none => exact (putAndReturn_exact ip (-1)).before fun _ met => met.1
    | some index =>
      refine (fdalloc_recorded found index fun table =>
        table[index]? = some { ref := 1, ip := none }).call
        (fun _ met => ⟨met.1, met.2 index rfl⟩) fun fd => ?_
      refine Triple.ghost FsState.procs fun procs => ?_
      cases fd with
      | none =>
        refine Triple.call (@fileclose_recorded procs [ip] index) ?_
          fun _ => putAndReturn_exact ip (-1)
        rintro state ⟨rfl, recorded, _⟩
        exact recorded
      | some fd =>
        refine Triple.call (@setFileInode_recorded procs [] index ip) ?_
          fun _ => Triple.pure fun _ => Recorded.exact
        rintro state ⟨rfl, met⟩
        exact met

theorem openPath_exact (room : Nat → Bool) (path : List UInt8) (createFile readOnly : Bool) :
    EndsExact (Recorded procs []) (openPath room p proc path createFile readOnly) := by
  refine Triple.ite (fun _create => ?_) fun _existing => ?_
  · refine (create_recorded room _ path _ 0 0).bind fun result => ?_
    cases result with
    | none => exact Triple.pure fun _ => Recorded.exact
    | some ip => exact openInode_exact found ip
  · refine (namex_recorded false _ path).bind fun result => ?_
    cases result with
    | none => exact Triple.pure fun _ => Recorded.exact
    | some result =>
      refine (ilock_recorded result.1).bind fun _ => ?_
      refine Triple.bind Triple.read fun value => ?_
      refine Triple.ite (fun _directory => ?_) fun _allowed => ?_
      · exact (putAndReturn_exact result.1 (-1))
      · exact (openInode_exact found result.1)

omit found in
theorem makeNode_exact (room : Nat → Bool) (path : List UInt8) (type : InodeType)
    (major minor : Int) :
    EndsExact (Recorded procs []) (makeNode room proc path type major minor) := by
  refine (create_recorded room _ path type major minor).bind fun result => ?_
  cases result with
  | none => exact Triple.pure fun _ => Recorded.exact
  | some ip => exact putAndReturn_exact ip 0

/-- The working directory is given up before it is replaced. -/
theorem replaceCwd_exact (new : Option FsProc) (moved : ∀ inum,
      (new.map FsProc.cwd).toList.count inum = extra.count inum) :
    EndsExact (Recorded procs extra) (do iput proc.cwd; setProc p new; pure (0 : Int)) := by
  have without (ftable : List FileEntry) (inum : Nat) : (holdersOf procs ftable).count inum =
        (proc.cwd :: holdersOf (procs.set p none) ftable).count inum := by
    have change := @count_holdersOf_setProc procs ftable _ _ found none inum
    simpa [List.count_cons] using change.symm
  have start : Returns (Recorded procs extra) (iput proc.cwd) fun _ state =>
      state.procs = procs ∧ ∀ inum, (state.incore inum).ref + [proc.cwd].count inum =
        (extra ++ holdersOf procs state.ftable).count inum := by
    intro state recorded
    obtain ⟨next, ends, sameProcs, sameTable, refs⟩ := iput_refs proc.cwd state
    rw [ends]
    refine ⟨sameProcs.trans recorded.sameProcs, fun inum => ?_⟩
    have before := recorded.refs inum
    have counts := without state.ftable inum
    rw [refs inum, sameTable]
    simp only [List.count_append, List.count_cons, List.count_nil] at before counts ⊢
    omega
  refine Triple.bind start fun _ => Triple.bind ?_ fun _ => Triple.skip rfl
  rintro state ⟨sameProcs, refs⟩ inum
  have change := @count_holdersOf_setProc _ state.ftable _ _ found new inum
  have before := refs inum
  have moves := moved inum
  show (state.incore inum).ref = (holdersOf (state.procs.set p new) state.ftable).count inum
  rw [sameProcs]
  simp only [List.count_append, Option.map_some, Option.toList_some] at change before ⊢
  omega

theorem chdirPath_exact (path : List UInt8) :
    EndsExact (Recorded procs []) (chdirPath p proc path) := by
  refine (namex_recorded false _ path).bind fun result => ?_
  cases result with
  | none => exact Triple.pure fun _ => Recorded.exact
  | some result =>
    refine (ilock_recorded result.1).bind fun _ => ?_
    refine Triple.bind Triple.read fun value => ?_
    refine Triple.ite (fun _notDir => ?_) fun _isDir => ?_
    · exact (putAndReturn_exact result.1 (-1))
    · exact (replaceCwd_exact found (some { proc with cwd := result.1 })
        fun _ => rfl)

theorem closeFd_exact (fd : Nat) : EndsExact (Recorded procs []) (closeFd p proc fd) := by
  simp only [closeFd]
  split
  · refine Triple.bind (?_ : Triple _ _ (fun _ => Recorded (procs.set p
      (some { proc with ofile := proc.ofile.set fd none })) []) _) fun _ => ?_
    · intro state recorded
      exact recorded.setProc found _ fun _ => rfl
    · exact (fileclose_recorded _).bind fun _ => Triple.pure fun _ => Recorded.exact
  · exact Triple.pure fun _ => Recorded.exact

theorem dupFd_exact (fd : Nat) : EndsExact (Recorded procs []) (dupFd p proc fd) := by
  simp only [dupFd]
  split
  · rename_i index _
    refine (fdalloc_recorded found index fun _ => True).call
      (fun _ recorded => ⟨recorded, trivial⟩) fun new => ?_
    refine Triple.ghost FsState.procs fun procs => ?_
    cases new with
    | none => exact Triple.pure fun _ met => met.2.1.exact
    | some new =>
      refine Triple.call (@filedup_recorded procs [] index) ?_ fun _ =>
        Triple.pure fun _ => Recorded.exact
      rintro state ⟨rfl, recorded, _⟩
      exact recorded
  · exact Triple.pure fun _ => Recorded.exact

omit found in
theorem forkProc_exact : EndsExact (Recorded procs []) (forkProc proc) := by
  refine (Triple.forM fun index _ => filedup_recorded index).bind fun _ => ?_
  refine Triple.bind (?_ : Triple _ _ (fun _ => Recorded procs [proc.cwd]) _) fun _ => ?_
  · exact idup_recorded proc.cwd
  · refine Triple.bind ?_ fun _ => Triple.skip rfl
    intro state recorded inum
    have refs := recorded.refs inum
    show (state.incore inum).ref = (holdersOf (state.procs ++ [some proc]) state.ftable).count inum
    rw [refs, recorded.sameProcs]
    simp only [holdersOf, List.filterMap_append, List.count_append,
      List.filterMap_cons, List.filterMap_nil, Option.map_some]
    omega

theorem exitProc_exact : EndsExact (Recorded procs []) (exitProc p proc) :=
  (Triple.forM fun index _ => fileclose_recorded index).bind fun _ =>
    replaceCwd_exact found none fun _ => rfl

theorem FsCall.perform_exact (call : FsCall) :
    EndsExact (Recorded procs []) (call.perform p proc) := by
  have failed : EndsExact (Recorded procs []) (pure (-1 : Int)) :=
    Triple.pure fun _ => Recorded.exact
  cases call with
  | «open» path createFile readOnly room =>
    cases path with
    | none => exact failed
    | some path => exact openPath_exact found room path createFile readOnly
  | mkdir path room =>
    cases path with
    | none => exact failed
    | some path => exact makeNode_exact room path .dir 0 0
  | mknod path major minor room =>
    cases path with
    | none => exact failed
    | some path => exact makeNode_exact room path .device major minor
  | link old new room =>
    cases old with
    | none => exact failed
    | some old =>
      cases new with
      | none => exact failed
      | some new =>
        exact (linkPaths_recorded room _ old new).weaken (fun _ met => met) fun _ _ met => met.exact
  | unlink path =>
    cases path with
    | none => exact failed
    | some path =>
      exact (unlinkPath_recorded _ path).weaken (fun _ met => met) fun _ _ met => met.exact
  | chdir path =>
    cases path with
    | none => exact failed
    | some path => exact chdirPath_exact found path
  | close fd => exact closeFd_exact found fd
  | dup fd => exact dupFd_exact found fd
  | fork => exact forkProc_exact
  | exit => exact exitProc_exact found

end Call

theorem fsCall_exact (p : Nat) (call : FsCall) : EndsExact FsState.Exact (fsCall p call) := by
  refine Triple.bind Triple.get fun value => ?_
  cases found : value.procs[p]? with
  | none => exact Triple.pure fun _ met => met.2
  | some proc =>
    cases proc with
    | none => exact Triple.pure fun _ met => met.2
    | some proc =>
      refine (call.perform_exact found).before ?_
      rintro state ⟨rfl, exact⟩
      exact exact.recorded

theorem fsRun_exact (calls : List (Nat × FsCall)) : EndsExact FsState.Exact (fsRun calls) := by
  induction calls with
  | nil => exact Triple.skip rfl
  | cons entry calls induction => exact (fsCall_exact entry.1 entry.2).bind fun _ => induction

/-- A file system whose in-memory references are those of its users. -/
structure ReferencedFs where
  state : FsState
  exact : state.Exact

/-- No call loses or leaks a reference to an inode, however it returns. -/
theorem inode_references_are_exact (fs : ReferencedFs) (calls : List (Nat × FsCall))
    (after : FsState) (returns : fsRun calls fs.state = .ok () after) (inum : Nat) :
    (after.incore inum).ref = after.holders.count inum := by
  have run := fsRun_exact calls fs.state fs.exact
  rw [returns] at run
  exact run inum

/-- The state that a run of calls ends in, and why it stopped if it did. -/
def fsOutcome (calls : List (Nat × FsCall)) (state : FsState) : Option Halt × FsState :=
  match fsRun calls state with
  | .ok _ next => (none, next)
  | .error reason next => (some reason, next)

def rootDinode : Dinode where
  type := .dir
  major := 0
  minor := 0
  nlink := 1
  dirents := [{ inum := ROOTINO, name := dot }, { inum := ROOTINO, name := dotDot }]

/-- A disk with an empty root directory, and one process in it. -/
def emptyRoot : FsState where
  ninodes := 200
  dinode := fun inum =>
    if inum = ROOTINO then rootDinode
    else { type := .free, major := 0, minor := 0, nlink := 0, dirents := [] }
  incore := fun inum =>
    if inum = ROOTINO then { ref := 1, valid := true }
    else { ref := 0, valid := false }
  ftable := List.replicate 100 { ref := 0, ip := none }
  procs := [some { cwd := ROOTINO, ofile := List.replicate 16 none }]

/-- An empty disk with 64 inodes. -/
def smallRoot : FsState := { emptyRoot with ninodes := 64 }

theorem smallRoot_exact : smallRoot.Exact := by
  have holders : smallRoot.holders = [ROOTINO] := by decide
  intro inum
  rw [holders]
  by_cases root : inum = ROOTINO
  · simp [smallRoot, emptyRoot, root]
  · simp [smallRoot, emptyRoot, root, Ne.symm root]

def smallRootFs : ReferencedFs where
  state := smallRoot
  exact := smallRoot_exact

/-- Two letters for each number below 256. -/
def letters (k : Nat) : List UInt8 := [97 + UInt8.ofNat (k / 16), 97 + UInt8.ofNat (k % 16)]

def openNew (k : Nat) : Nat × FsCall :=
  (k / NOFILE, .open (some (letters k)) true false fun _ => true)

/-- A process has three children, and each opens new files of its own. -/
def openMany (files : Nat) : List (Nat × FsCall) :=
  [(0, .fork), (0, .fork), (0, .fork)] ++ (List.range files).map openNew

theorem inode_references_are_exact_openMany : ∃ after, fsRun (openMany 3) smallRoot = .ok () after ∧
    (after.incore ROOTINO).ref = after.holders.count ROOTINO := by
  have alive : (fsOutcome (openMany 3) smallRoot).1 = none := by decide +kernel
  rw [fsOutcome] at alive
  cases returns : fsRun (openMany 3) smallRoot with
  | ok value after => exact ⟨after, rfl, inode_references_are_exact smallRootFs _ after returns _⟩
  | error reason after =>
    rw [returns] at alive
    cases alive

/-- Four processes with 16 descriptors each open 49 files; then the lookup of a
path panics. -/
theorem iget_panics_on_fiftieth_file :
    (fsOutcome (openMany 49 ++ [(3, .open (some (letters 49)) true false
      fun _ => true)]) smallRoot).1 = some .igetNoInodes := by
  decide +kernel

end Xv6KernelEvent
