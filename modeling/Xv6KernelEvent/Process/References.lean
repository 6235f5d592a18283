import Xv6KernelEvent.Process.Possession

/-!
# References to inodes and open files

Every pointer of a process to an in-core inode and every open file is counted,
whatever system calls do with them.
-/

namespace Xv6KernelEvent.Process

open SpinThreads

variable {change : Update}

/-- The assignments to reference counts, open files and current directories. -/
def Update.IsFile : Update → Prop
  | filealloc _ _ | filedup _ _ | filedrop _ _ | bindInode _ _ _ | bindPipe _ _ _ | iref _ _
  | idup _ _ | idrop _ _ | chdir _ _ | leaveCwd _ => True
  | _ => False

/-- Nothing about files is different. -/
structure SameFiles (shared other : Shared) : Prop where
  irefs : other.irefs = shared.irefs
  frefs : other.frefs = shared.frefs
  fkind : other.fkind = shared.fkind
  ofile : ∀ q, (other.proc q).ofile = (shared.proc q).ofile
  cwd : ∀ q, (other.proc q).cwd = (shared.proc q).cwd

theorem Update.sameFiles (plain : ¬ change.IsFile) : SameFiles shared (change.apply shared) := by
  have records (q : Nat) : ((change.apply shared).proc q).ofile = (shared.proc q).ofile ∧
        ((change.apply shared).proc q).cwd = (shared.proc q).cwd := by
    rw [Update.apply_proc]
    split
    · cases change with
      | filealloc k p | filedup k p | filedrop k p | idup i np | chdir p i
      | leaveCwd p => exact absurd trivial plain
      | _ => exact ⟨rfl, rfl⟩
    · exact ⟨rfl, rfl⟩
  cases change with
  | filealloc k p | filedup k p | filedrop k p | bindInode k i p
  | bindPipe k i writable | iref i p | idup i np | idrop i p | chdir p i
  | leaveCwd p => exact absurd trivial plain
  | _ => exact ⟨rfl, rfl, rfl, fun q => (records q).1, fun q => (records q).2⟩

/-- Other assignments do not touch references either. -/
theorem Assigns.count_ref (assigns : Assigns me shared frame change after)
    (plain : ¬ change.IsFile) (i : Nat) :
    after.owns.count (.ref i) = frame.owns.count (.ref i) := by
  cases assigns with
  | allocproc => simp [Frame.owns, KforkPc.owns]
  | makes makes =>
    cases makes with
    | skip tame | setPipe tame _ | setCons tame _ => rw [tame.owns]
    | lockSleep running free => simp [Frame.owns, AcquiresleepPc.owns]
    | unlockSleep => simp [Frame.owns, ReleasesleepPc.owns]
    | allocpid => simp [Frame.owns, TablePc.owns, TableOp.gives, Errand.yields]
    | freeChild | reap running => simp [Frame.owns, KwaitPc.owns]
    | filealloc | filedup | idup | iref | idrop | filedropLast | filedrop
    | bindInode | bindPipe | chdir | leaveCwd => exact absurd trivial plain
    | _ => rfl

/-- The pointers that process `p` gains in a step are counted, those of other
processes too. -/
structure Balanced (shared other : Shared) (p : Nat) (frame after : Frame) : Prop where
  own : ∀ i, after.owns.count (.ref i) + (other.proc p).cwd.toList.count i +
      (shared.irefs i).count (.process p) ≤
    frame.owns.count (.ref i) + (shared.proc p).cwd.toList.count i +
      (other.irefs i).count (.process p)
  others : ∀ q, q ≠ p → ∀ i, (other.proc q).cwd.toList.count i +
      (shared.irefs i).count (.process q) ≤
    (shared.proc q).cwd.toList.count i + (other.irefs i).count (.process q)

theorem Balanced.of_same (owns : after.owns = frame.owns) (irefs : other.irefs = shared.irefs)
    (cwd : ∀ q, (other.proc q).cwd = (shared.proc q).cwd) :
    Balanced shared other p frame after := by
  refine ⟨?_, ?_⟩
  · intro i
    rw [owns, irefs, cwd]
  · intro q _ i
    rw [irefs, cwd]

theorem Update.apply_cwd (notDir : ∀ i, change ≠ .idup i q ∧ change ≠ .chdir q i)
    (notLeaving : change ≠ .leaveCwd q) :
    ((change.apply shared).proc q).cwd = (shared.proc q).cwd := by
  rw [Update.apply_proc]
  split
  · rename_i target
    cases change with
    | idup i np =>
      cases target
      exact absurd rfl (notDir i).1
    | chdir p i =>
      cases target
      exact absurd rfl (notDir i).2
    | leaveCwd p =>
      cases target
      exact absurd rfl notLeaving
    | _ => rfl
  · rfl

theorem Balanced.iref (none : frame.owns = []) (one : after.owns = [.ref i]) :
    Balanced shared ((Update.iref i p).apply shared) p frame after := by
  refine ⟨?_, ?_⟩
  · intro j
    rw [none, one]
    by_cases same : j = i
    · subst same
      simp [Update.apply]
      omega
    · simp [Update.apply, same, Ne.symm same]
  · intro q differs j
    by_cases same : j = i
    · subst same
      simp [Update.apply, Ne.symm differs]
    · simp [Update.apply, same]

theorem Balanced.idup (owns : after.owns = frame.owns) :
    Balanced shared ((Update.idup i np).apply shared) p frame after := by
  have each (q j : Nat) : (((Update.idup i np).apply shared).proc q).cwd.toList.count j +
          (shared.irefs j).count (.process q) ≤
        (shared.proc q).cwd.toList.count j +
          (((Update.idup i np).apply shared).irefs j).count (.process q) := by
    by_cases isChild : q = np
    · subst isChild
      by_cases same : j = i
      · subst same
        simp [Update.apply, Shared.setProc]
        omega
      · simp [Update.apply, Shared.setProc, same, Ne.symm same]
    · by_cases same : j = i
      · subst same
        simp [Update.apply, Shared.setProc, isChild, Ne.symm isChild]
      · simp [Update.apply, Shared.setProc, same, isChild]
  refine ⟨?_, fun q _ j => each q j⟩
  intro j
  rw [owns]
  have bound := each p j
  omega

theorem Balanced.idrop (one : frame.owns = [.ref i]) (none : after.owns = []) :
    Balanced shared ((Update.idrop i p).apply shared) p frame after := by
  refine ⟨?_, ?_⟩
  · intro j
    rw [none, one]
    by_cases same : j = i
    · subst same
      simp [Update.apply]
      omega
    · simp [Update.apply, same, Ne.symm same]
  · intro q differs j
    by_cases same : j = i
    · subst same
      simp [Update.apply, differs, List.count_erase_of_ne]
    · simp [Update.apply, same]

theorem Balanced.leaveCwd (cwd : (shared.proc p).cwd = some i)
    (none : frame.owns = []) (one : after.owns = [.ref i]) :
    Balanced shared ((Update.leaveCwd p).apply shared) p frame after := by
  refine ⟨?_, ?_⟩
  · intro j
    rw [none, one, cwd]
    by_cases same : j = i
    · subst same
      simp [Update.apply, Shared.setProc]
    · simp [Update.apply, Shared.setProc, Ne.symm same]
  · intro q differs j
    simp [Update.apply, Shared.setProc, differs]

theorem fs_count_ref (outer : Bool) (refs : List Nat) (locks : List FsLock)
    (pending : Option FsOp) (i : Nat) :
    (Frame.fs outer refs locks pending).owns.count (.ref i) = refs.count i := by
  have noLock : (locks.map fun lock => Resource.sleep lock.1).count (.ref i) = 0 := by
    rw [List.count_eq_zero]
    simp
  change (refs.map Resource.ref ++ _).count _ = _
  rw [List.count_append, noLock, Nat.add_zero]
  exact List.count_map_of_injective _ Resource.ref (fun _ _ => Resource.ref.inj) i

theorem Balanced.chdir (ref : i ∈ refs) (cwd : (shared.proc p).cwd = some old) :
    Balanced shared ((Update.chdir p i).apply shared) p
      (.fs true refs locks none) (.fs true (old :: refs.erase i) locks none) := by
  refine ⟨?_, ?_⟩
  · intro j
    have counted : 0 < refs.count i := List.count_pos_iff.mpr ref
    rw [fs_count_ref, fs_count_ref, cwd]
    simp only [Update.apply, Shared.setProc, Function.update_self,
      List.count_cons, Option.toList_some, List.count_nil, List.count_erase,
      beq_iff_eq]
    by_cases isOld : old = j
    · by_cases isNew : i = j
      · subst isNew
        simp [isOld]
        omega
      · simp [isOld, isNew]
    · by_cases isNew : i = j
      · subst isNew
        simp [isOld]
        omega
      · simp [isOld, isNew]
  · intro q differs j
    simp [Update.apply, Shared.setProc, differs]

theorem Balanced.bindInode (ref : i ∈ refs)
    (counted : refs.count i ≤ (shared.irefs i).count (.process p)) :
    Balanced shared ((Update.bindInode k i p).apply shared) p
      (.fs true refs locks none) (.fs true (refs.erase i) bound none) := by
  have positive : 0 < refs.count i := List.count_pos_iff.mpr ref
  have present : .process p ∈ shared.irefs i := List.count_pos_iff.mp (positive.trans_le counted)
  have exchanged : ((shared.irefs i).replace (.process p) (.file k)).Perm _ := perm_replace present
  refine ⟨?_, ?_⟩
  · intro j
    rw [fs_count_ref, fs_count_ref]
    by_cases same : j = i
    · subst same
      simp only [Update.apply, Function.update_self, exchanged.count_eq,
        List.count_erase_self, List.count_cons_of_ne (by simp : Holder.file k ≠ .process p)]
      omega
    · simp [Update.apply, same, List.count_erase_of_ne]
  · intro q differs j
    by_cases same : j = i
    · subst same
      simp only [Update.apply, Function.update_self]
      rw [count_replace_of_ne (by simpa using differs) (by simp)]
    · simp [Update.apply, same]

/-- The reference of a file that is closed for good goes to the process. -/
theorem Balanced.filedropLast (last : (shared.frefs k).erase p = [])
    (counted : ∀ i, shared.fkind k = .inode i → .file k ∈ shared.irefs i) :
    Balanced shared ((Update.filedrop k p).apply shared) p
      (.fileclose .drop k) (.fileclose (.releaseLast (shared.fkind k)) k) := by
  have cwd (q : Nat) : (((Update.filedrop k p).apply shared).proc q).cwd = (shared.proc q).cwd :=
    Update.apply_cwd (fun i => by simp) (by simp)
  have irefs (i : Nat) : ((Update.filedrop k p).apply shared).irefs i =
      if shared.fkind k = .inode i then (shared.irefs i).replace (.file k) (.process p)
      else shared.irefs i := by
    simp only [Update.apply, Shared.filedrop, last]
    cases shared.fkind k with
    | inode j =>
      by_cases same : i = j
      · subst same
        simp
      · simp [same, Ne.symm same]
    | _ => rfl
  refine ⟨?_, ?_⟩
  · intro i
    rw [cwd, irefs]
    by_cases kind : shared.fkind k = .inode i
    · rw [if_pos kind, kind, (perm_replace (counted i kind)).count_eq,
        List.count_cons_self, List.count_erase_of_ne (by simp)]
      simp [Frame.owns, FileclosePc.owns]
      omega
    · rw [if_neg kind]
      have none : (Frame.fileclose (.releaseLast (shared.fkind k)) k).owns.count (.ref i) = 0 := by
        cases found : shared.fkind k with
        | inode j =>
          rw [found] at kind
          refine List.count_eq_zero.mpr ?_
          simpa [Frame.owns, FileclosePc.owns, eq_comm] using kind
        | _ => rfl
      rw [none]
      simp
  · intro q differs i
    rw [cwd, irefs]
    split
    · rw [count_replace_of_ne (by simp) (by simpa using differs)]
    · exact le_rfl

/-- File operations keep the references counted. -/
theorem Makes.balanced (makes : Makes (some p) shared frame change after) (file : change.IsFile)
    (files : ∀ k i, shared.frefs k ≠ [] → shared.fkind k = .inode i → .file k ∈ shared.irefs i)
    (counted : ∀ i, frame.owns.count (.ref i) ≤ (shared.irefs i).count (.process p)) :
    Balanced shared (change.apply shared) p frame after := by
  have sameCwd (notDir : ∀ q i, change ≠ .idup i q ∧ change ≠ .chdir q i)
      (notLeaving : ∀ q, change ≠ .leaveCwd q) (q : Nat) :
      ((change.apply shared).proc q).cwd = (shared.proc q).cwd :=
    Update.apply_cwd (notDir q) (notLeaving q)
  cases makes with
  | filealloc running free | filedup used | bindPipe running isOpen fresh =>
    exact .of_same rfl rfl (sameCwd (by simp) (by simp))
  | @filedrop q k running others =>
    refine .of_same rfl ?_ (sameCwd (by simp) (by simp))
    simp only [Update.apply, Shared.filedrop]
    cases rest : (shared.frefs k).erase q with
    | nil => exact absurd rest others
    | cons _ _ => rfl
  | @filedropLast q k running used last =>
    cases running
    exact .filedropLast last fun i => files k i used
  | idup => exact .idup rfl
  | iref running =>
    cases running
    exact .iref rfl rfl
  | idrop running =>
    cases running
    exact .idrop rfl rfl
  | leaveCwd running cwd =>
    cases running
    exact .leaveCwd cwd rfl rfl
  | @bindInode q k i refs locks running ref isOpen fresh =>
    cases running
    refine .bindInode ref ?_
    rw [← fs_count_ref true refs locks none]
    exact counted i
  | chdir running ref unlocked cwd =>
    cases running
    exact .chdir ref cwd
  | _ => cases file

section

variable (counted : Counted shared)

include counted

theorem Counted.of_same (same : SameFiles shared other) : Counted other := by
  refine ⟨?_, ?_, ?_⟩
  · rw [same.frefs, same.fkind, same.irefs]
    exact counted.files
  · intro p k
    rw [same.frefs, same.ofile]
    exact counted.opened p k
  · rw [same.frefs, same.fkind]
    exact counted.closed

/-- Inode references that are added or exchanged. -/
theorem Counted.of_irefs (irefs : ∀ i k, .file k ∈ shared.irefs i → .file k ∈ other.irefs i)
    (frefs : other.frefs = shared.frefs) (fkind : other.fkind = shared.fkind)
    (ofile : ∀ q, (other.proc q).ofile = (shared.proc q).ofile) : Counted other := by
  refine ⟨?_, ?_, ?_⟩
  · intro k i used kind
    rw [frefs] at used
    rw [fkind] at kind
    exact irefs i k (counted.files k i used kind)
  · intro p k
    rw [frefs, ofile]
    exact counted.opened p k
  · rw [frefs, fkind]
    exact counted.closed

theorem Counted.open_used (isOpen : k ∈ (shared.proc p).ofile) : shared.frefs k ≠ [] := by
  intro none
  have bound := counted.opened p k
  rw [none, List.count_nil, Nat.le_zero, List.count_eq_zero] at bound
  exact bound isOpen

/-- A process that opens a file once more. -/
theorem Counted.of_open (frefs : other.frefs =
      Function.update shared.frefs k (p :: shared.frefs k))
    (fkind : other.fkind = shared.fkind) (irefs : other.irefs = shared.irefs)
    (mine : (other.proc p).ofile = k :: (shared.proc p).ofile)
    (others : ∀ q, q ≠ p → (other.proc q).ofile = (shared.proc q).ofile) : Counted other := by
  refine ⟨?_, ?_, ?_⟩
  · intro m i used kind
    rw [fkind] at kind
    rw [irefs]
    refine counted.files m i ?_ kind
    intro none
    rw [counted.closed m none] at kind
    cases kind
  · intro q m
    have bound := counted.opened q m
    rw [frefs]
    by_cases isFile : m = k
    · subst isFile
      rw [Function.update_self]
      by_cases isMine : q = p
      · subst isMine
        rw [mine, List.count_cons_self, List.count_cons_self]
        exact Nat.succ_le_succ bound
      · rw [others q isMine, List.count_cons_of_ne (Ne.symm isMine)]
        exact bound
    · rw [Function.update_of_ne isFile]
      by_cases isMine : q = p
      · subst isMine
        rw [mine, List.count_cons_of_ne (Ne.symm isFile)]
        exact bound
      · rw [others q isMine]
        exact bound
  · intro m none
    rw [fkind]
    by_cases isFile : m = k
    · subst isFile
      rw [frefs, Function.update_self] at none
      cases none
    · rw [frefs, Function.update_of_ne isFile] at none
      exact counted.closed m none

theorem Counted.filedrop (k p : Nat) : Counted ((Update.filedrop k p).apply shared) := by
  have kept (i m : Nat) (differs : m ≠ k ∨ (shared.frefs k).erase p ≠ [])
      (member : .file m ∈ shared.irefs i) :
      .file m ∈ ((Update.filedrop k p).apply shared).irefs i := by
    simp only [Update.apply, Shared.filedrop]
    cases rest : (shared.frefs k).erase p with
    | cons _ _ => exact member
    | nil =>
      have notClosed : Holder.file m ≠ .file k := by
        rcases differs with differs | others
        · simpa using differs
        · exact absurd rest others
      cases shared.fkind k with
      | inode j =>
        by_cases same : i = j
        · subst same
          simp only [Function.update_self]
          exact mem_replace_of_ne member notClosed
        · simpa [same] using member
      | _ => exact member
  refine ⟨?_, ?_, ?_⟩
  · intro m i used kind
    simp only [Update.apply, Shared.filedrop] at used kind
    by_cases isFile : m = k
    · subst isFile
      rw [Function.update_self] at used
      rw [if_neg used] at kind
      refine kept i m (.inr used) (counted.files m i ?_ kind)
      intro none
      rw [none] at used
      exact used rfl
    · rw [Function.update_of_ne isFile] at used
      refine kept i m (.inl isFile) (counted.files m i used ?_)
      split at kind
      · rwa [Function.update_of_ne isFile] at kind
      · exact kind
  · intro q m
    have bound := counted.opened q m
    simp only [Update.apply, Shared.filedrop, Shared.setProc]
    by_cases isFile : m = k
    · subst isFile
      rw [Function.update_self]
      by_cases isMine : q = p
      · subst isMine
        rw [Function.update_self, List.count_erase_self, List.count_erase_self]
        exact Nat.sub_le_sub_right bound 1
      · rw [Function.update_of_ne isMine, List.count_erase_of_ne isMine]
        exact bound
    · rw [Function.update_of_ne isFile]
      by_cases isMine : q = p
      · subst isMine
        rw [Function.update_self, List.count_erase_of_ne isFile]
        exact bound
      · rw [Function.update_of_ne isMine]
        exact bound
  · intro m none
    simp only [Update.apply, Shared.filedrop] at none ⊢
    by_cases isFile : m = k
    · subst isFile
      rw [Function.update_self] at none
      rw [if_pos none, Function.update_self]
    · rw [Function.update_of_ne isFile] at none
      split
      · rw [Function.update_of_ne isFile]
        exact counted.closed m none
      · exact counted.closed m none

/-- An open file that is not bound yet becomes one of an inode or of a pipe. -/
theorem Counted.of_bind (isOpen : k ∈ (shared.proc p).ofile) (frefs : other.frefs = shared.frefs)
    (fkind : other.fkind = Function.update shared.fkind k kind)
    (ofile : ∀ q, (other.proc q).ofile = (shared.proc q).ofile)
    (bound : ∀ i, kind = .inode i → .file k ∈ other.irefs i)
    (irefs : ∀ i m, .file m ∈ shared.irefs i → .file m ∈ other.irefs i) : Counted other := by
  refine ⟨?_, ?_, ?_⟩
  · intro m i used isInode
    rw [frefs] at used
    rw [fkind] at isInode
    by_cases isFile : m = k
    · subst isFile
      rw [Function.update_self] at isInode
      exact bound i isInode
    · rw [Function.update_of_ne isFile] at isInode
      exact irefs i m (counted.files m i used isInode)
  · intro q m
    rw [frefs, ofile]
    exact counted.opened q m
  · intro m none
    rw [frefs] at none
    rw [fkind]
    by_cases isFile : m = k
    · subst isFile
      exact absurd none (counted.open_used isOpen)
    · rw [Function.update_of_ne isFile]
      exact counted.closed m none

end

theorem Update.apply_ofile (notOpened : ∀ k, change ≠ .filealloc k q ∧ change ≠ .filedup k q)
    (notClosed : ∀ k, change ≠ .filedrop k q) :
    ((change.apply shared).proc q).ofile = (shared.proc q).ofile := by
  rw [Update.apply_proc]
  split
  · rename_i target
    cases change with
    | filealloc k p =>
      cases target
      exact absurd rfl (notOpened k).1
    | filedup k p =>
      cases target
      exact absurd rfl (notOpened k).2
    | filedrop k p =>
      cases target
      exact absurd rfl (notClosed k)
    | _ => rfl
  · rfl

theorem Makes.counted (makes : Makes (some p) shared frame change after)
    (file : change.IsFile) (counted : Counted shared)
    (refs : ∀ i, frame.owns.count (.ref i) ≤ (shared.irefs i).count (.process p)) :
    Counted (change.apply shared) := by
  have sameOfile (notOpened : ∀ q k, change ≠ .filealloc k q ∧ change ≠ .filedup k q)
      (notClosed : ∀ q k, change ≠ .filedrop k q) (q : Nat) :
      ((change.apply shared).proc q).ofile = (shared.proc q).ofile :=
    Update.apply_ofile (notOpened q) (notClosed q)
  cases makes with
  | @filealloc q k value running free =>
    refine counted.of_open (k := k) (p := q) ?_ rfl rfl ?_ ?_
    · rw [free]
      rfl
    · rw [Update.apply_target rfl]
      rfl
    · intro other differs
      exact congrArg Proc.ofile (Function.update_of_ne differs _ _)
  | @filedup k q used =>
    refine counted.of_open (k := k) (p := q) rfl rfl rfl ?_ ?_
    · rw [Update.apply_target rfl]
      rfl
    · intro other differs
      exact congrArg Proc.ofile (Function.update_of_ne differs _ _)
  | filedrop running others | filedropLast running used last => exact counted.filedrop _ _
  | bindPipe running isOpen fresh =>
    refine counted.of_bind isOpen rfl rfl (fun _ => rfl) ?_ fun _ _ => id
    intro i isInode
    cases isInode
  | @bindInode q k j refList locks running ref isOpen fresh =>
    cases running
    have positive : 0 < refList.count j := List.count_pos_iff.mpr ref
    have enough := refs j
    rw [fs_count_ref] at enough
    have present : .process p ∈ shared.irefs j := List.count_pos_iff.mp (positive.trans_le enough)
    refine counted.of_bind isOpen rfl rfl (fun _ => rfl) ?_ ?_
    · intro i isInode
      cases isInode
      simp only [Update.apply, Function.update_self]
      rw [(perm_replace present).mem_iff]
      exact List.mem_cons_self
    · exact fun i m => mem_update_of_mem fun member => mem_replace_of_ne member (by simp)
  | @idup i np =>
    exact counted.of_irefs (fun j k => mem_update_of_mem (List.mem_cons_of_mem _)) rfl rfl
      (sameOfile (by simp) (by simp))
  | @iref q i running =>
    exact counted.of_irefs (fun j k => mem_update_of_mem (List.mem_cons_of_mem _)) rfl rfl
      fun _ => rfl
  | @idrop q i running =>
    exact counted.of_irefs (fun j k => mem_update_of_mem (List.mem_erase_of_ne (by simp)).mpr)
      rfl rfl fun _ => rfl
  | leaveCwd running cwd | chdir running ref unlocked cwd =>
    exact counted.of_irefs (fun _ _ => id) rfl rfl (sameOfile (by simp) (by simp))
  | _ => cases file

theorem Makes.file_level (makes : Makes me shared frame change after) (file : change.IsFile) :
    0 < frame.level := by
  cases makes with
  | filealloc | filedup | idup | iref | idrop | filedropLast | filedrop
  | bindInode | bindPipe | chdir | leaveCwd => simp [Frame.level]
  | _ => cases file

theorem References.step (sane : Sane machine) (transition : Transition machine c input next) :
    References next := by
  obtain ⟨refs, counted⟩ := sane.references
  cases transition.handover sane.owned sane.slots with
  | quiet shared owns =>
    refine ⟨?_, shared ▸ counted⟩
    intro p i
    rw [shared, (owns _).count_eq]
    exact refs p i
  | @assigns frame after callers change top assigns shared others here =>
    have whole := threadOwns_top top
    by_cases file : change.IsFile
    · cases assigns with
      | makes makes =>
        obtain ⟨p, isProcess⟩ := process_of_level sane.owned
          top.mem (makes.file_level file)
        rw [isProcess] at makes others here whole
        have bound (i : Nat) : frame.owns.count (.ref i) ≤
            (machine.shared.irefs i).count (.process p) := by
          have all := refs p i
          rw [whole, List.count_append] at all
          omega
        have balanced := makes.balanced file counted.files bound
        refine ⟨?_, shared ▸ makes.counted file counted bound⟩
        intro q i
        have before := refs q i
        rw [shared]
        by_cases isMe : q = p
        · subst isMe
          have own := balanced.own i
          rw [whole, List.count_append] at before
          rw [here, List.count_append]
          omega
        · have other := balanced.others q isMe i
          rw [others (.process q) (by simpa using isMe)]
          omega
      | _ => cases file
    · have same : SameFiles machine.shared (change.apply machine.shared) := Update.sameFiles file
      refine ⟨?_, shared ▸ counted.of_same same⟩
      intro p i
      have before := refs p i
      rw [shared, same.irefs, same.cwd]
      by_cases current : .process p = (machine.cpu c).thread
      · rw [current, whole, List.count_append] at before
        rw [current, here, List.count_append, assigns.count_ref file]
        exact before
      · rw [others _ current]
        exact before

end Xv6KernelEvent.Process
