import Xv6KernelEvent.Library.Runs
import Xv6KernelEvent.Process.State

/-!
# Process ids as C integers

`nextpid` is an `int` that is never checked, so it overflows in the end.  Each
step here is a section of the source under the lock that guards it: the
creation and the end of a process, any other change of its state, and taking
and giving back sleep-locks.
-/

namespace Xv6KernelEvent.PidTable

open Runs

/-- `birth` counts the processes that were created before, and so tells two
processes apart even when they have the same pid. -/
structure Proc where
  state : Process.ProcState
  pid : Int32
  birth : Nat

/-- `struct sleeplock`, with the birth of the process that took it last. -/
structure Lock where
  locked : Bool
  pid : Int32
  acquirer : Nat

structure Table where
  proc : Nat → Proc
  nextpid : Int32
  births : Nat
  lock : Nat → Lock

def start : Table where
  proc := fun _ => { state := .unused, pid := 0, birth := 0 }
  nextpid := 1
  births := 0
  lock := fun _ => { locked := false, pid := 0, acquirer := 0 }

def Table.Live (table : Table) (i : Nat) : Prop := (table.proc i).state ≠ .unused

instance (table : Table) (i : Nat) : Decidable (table.Live i) :=
  inferInstanceAs (Decidable (_ ≠ _))

def Table.setProc (table : Table) (i : Nat) (proc : Proc) : Table :=
  { table with proc := Function.update table.proc i proc }

def Table.setLock (table : Table) (k : Nat) (lock : Lock) : Table :=
  { table with lock := Function.update table.lock k lock }

/-- `allocproc` with `allocpid`, up to its allocations of memory. -/
def allocproc (table : Table) : Option (Nat × Table) :=
  ((List.range NPROC).find? fun i => decide (¬table.Live i)).map fun i =>
    (i, Table.setProc { table with nextpid := table.nextpid + 1, births := table.births + 1 } i
      { state := .used, pid := table.nextpid, birth := table.births })

def freeproc (table : Table) (i : Nat) : Table :=
  table.setProc i { state := .unused, pid := 0, birth := 0 }

/-- `kfork`.  `copies` says whether there is memory for the child. -/
def kfork (copies : Bool) (table : Table) : Int32 × Table :=
  match allocproc table with
  | none => (-1, table)
  | some (i, table) =>
    if copies then ((table.proc i).pid, table.setProc i { table.proc i with state := .runnable })
    else (-1, freeproc table i)

/-- The end of `kwait`, when it has found a child. -/
def kwait (child : Nat) (table : Table) : Int32 × Table :=
  ((table.proc child).pid, freeproc table child)

/-- The process that `kkill` marks. -/
def kkill (pid : Int32) (table : Table) : Option Nat :=
  (List.range NPROC).find? fun i => (table.proc i).pid = pid

def holdingsleep (k i : Nat) (table : Table) : Bool :=
  (table.lock k).locked && (table.lock k).pid == (table.proc i).pid

inductive Step where
  | fork (copies : Bool)
  | wait (child : Nat)
  | move (i : Nat) (state : Process.ProcState)
  | acquiresleep (k i : Nat)
  | releasesleep (k : Nat)

def next (table : Table) : Step → Option Table
  | .fork copies => some (kfork copies table).2
  | .wait child => if (table.proc child).state = .zombie then some (kwait child table).2 else none
  | .move i state =>
    if table.Live i ∧ state ≠ .unused then some (table.setProc i { table.proc i with state })
    else none
  | .acquiresleep k i =>
    if table.Live i ∧ (table.lock k).locked = false then
      some (table.setLock k
        { locked := true, pid := (table.proc i).pid, acquirer := (table.proc i).birth })
    else none
  | .releasesleep k =>
    some (table.setLock k { locked := false, pid := 0, acquirer := (table.lock k).acquirer })

/-- `nextpid` does not overflow in this step. -/
def Fits (table : Table) : Step → Prop
  | .fork _ => table.nextpid < Int32.maxValue
  | _ => True

/-- What the kernel takes for granted of pids. -/
structure Identified (table : Table) : Prop where
  positive : ∀ i, table.Live i → 0 < (table.proc i).pid
  distinct : ∀ i j, table.Live i → table.Live j → (table.proc i).pid = (table.proc j).pid → i = j
  forked : ∀ i after, allocproc table = some (i, after) → 0 < (kfork true table).1
  waited : ∀ child, (table.proc child).state = .zombie → 0 < (kwait child table).1
  killed : ∀ i, table.Live i → kkill (table.proc i).pid table = some i
  holding : ∀ k i, table.Live i → holdingsleep k i table = true →
    (table.lock k).acquirer = (table.proc i).birth

/-- A pid is one more than the number of processes that are older. -/
structure Counted (table : Table) : Prop where
  nextpid : table.nextpid.toInt = table.births + 1
  pid : ∀ i, table.Live i → i < NPROC ∧
    (table.proc i).pid.toInt = (table.proc i).birth + 1 ∧ (table.proc i).birth < table.births
  unused : ∀ i, ¬table.Live i → (table.proc i).pid = 0
  apart : ∀ i j, table.Live i → table.Live j → (table.proc i).birth = (table.proc j).birth → i = j
  lock : ∀ k, (table.lock k).locked = true → (table.lock k).pid.toInt = (table.lock k).acquirer + 1

theorem toInt_succ (fits : pid < Int32.maxValue) : (pid + 1).toInt = pid.toInt + 1 := by
  rw [Int32.lt_iff_toInt_lt] at fits
  change pid.toInt < 2147483647 at fits
  have low := pid.minValue_le_toInt
  change -2147483648 ≤ pid.toInt at low
  rw [Int32.toInt_add]
  change (pid.toInt + 1).bmod (2 ^ 32) = pid.toInt + 1
  exact Int.bmod_eq_of_le (by omega) (by omega)

theorem proc_setProc (table : Table) (proc : Proc) :
    (table.setProc i proc).proc j = if j = i then proc else table.proc j :=
  Function.update_apply ..

namespace Counted

variable {table : Table} (counted : Counted table)

include counted

/-- A slot is emptied, or its process changes nothing but its state. -/
theorem setProc (i : Nat) (proc : Proc) (same : proc.state = .unused ∧ proc.pid = 0 ∨
      proc.state ≠ .unused ∧ table.Live i ∧ proc.pid = (table.proc i).pid ∧
        proc.birth = (table.proc i).birth) : Counted (table.setProc i proc) := by
  have live (j : Nat) (live : (table.setProc i proc).Live j) : table.Live j ∧
      ((table.setProc i proc).proc j).pid = (table.proc j).pid ∧
      ((table.setProc i proc).proc j).birth = (table.proc j).birth := by
    rw [Table.Live, proc_setProc] at live
    rw [proc_setProc]
    split at live
    · rename_i here
      subst here
      rw [if_pos rfl]
      exact (same.resolve_left fun emptied => live emptied.1).2
    · rename_i elsewhere
      rw [if_neg elsewhere]
      exact ⟨live, rfl, rfl⟩
  refine ⟨counted.nextpid, ?_, ?_, ?_, counted.lock⟩
  · intro j isLive
    obtain ⟨before, pid, birth⟩ := live j isLive
    rw [pid, birth]
    exact counted.pid j before
  · intro j notLive
    rw [Table.Live, proc_setProc] at notLive
    rw [proc_setProc]
    split
    · rename_i here
      subst here
      rw [if_pos rfl, not_not] at notLive
      exact (same.resolve_right fun kept => kept.1 notLive).2
    · rename_i elsewhere
      rw [if_neg elsewhere] at notLive
      exact counted.unused j notLive
  · intro j k liveJ liveK equal
    obtain ⟨beforeJ, _, birthJ⟩ := live j liveJ
    obtain ⟨beforeK, _, birthK⟩ := live k liveK
    rw [birthJ, birthK] at equal
    exact counted.apart j k beforeJ beforeK equal

theorem setLock (k : Nat) (lock : Lock)
    (right : lock.locked = true → lock.pid.toInt = lock.acquirer + 1) :
    Counted (table.setLock k lock) := by
  refine ⟨counted.nextpid, counted.pid, counted.unused, counted.apart, ?_⟩
  intro j locked
  have after : (table.setLock k lock).lock j = if j = k then lock else table.lock j :=
    Function.update_apply ..
  rw [after] at locked ⊢
  split at locked
  · rename_i here
    rw [if_pos here]
    exact right locked
  · rename_i elsewhere
    rw [if_neg elsewhere]
    exact counted.lock j locked

/-- A new process is younger than all others. -/
theorem allocproc (fits : table.nextpid < Int32.maxValue)
    (found : allocproc table = some (i, after)) : Counted after ∧ after.Live i := by
  obtain ⟨slot, free, made⟩ := Option.map_eq_some_iff.mp found
  obtain ⟨rfl, rfl⟩ := Prod.mk.inj made
  have inRange := List.mem_range.mp (List.mem_of_find?_eq_some free)
  have live (j : Nat) (isLive : Table.Live (Table.setProc { table with
        nextpid := table.nextpid + 1, births := table.births + 1 } slot
        { state := .used, pid := table.nextpid, birth := table.births }) j) :
      j = slot ∨ j ≠ slot ∧ table.Live j := by
    by_cases here : j = slot
    · exact .inl here
    · rw [Table.Live, proc_setProc, if_neg here] at isLive
      exact .inr ⟨here, isLive⟩
  refine ⟨⟨?_, ?_, ?_, ?_, counted.lock⟩, ?_⟩
  · change (table.nextpid + 1).toInt = ((table.births + 1 : Nat) : Int) + 1
    rw [toInt_succ fits, counted.nextpid]
    push_cast
    rfl
  · intro j isLive
    rw [proc_setProc]
    rcases live j isLive with rfl | ⟨elsewhere, before⟩
    · rw [if_pos rfl]
      exact ⟨inRange, counted.nextpid, Nat.lt_succ_self _⟩
    · rw [if_neg elsewhere]
      obtain ⟨low, pid, older⟩ := counted.pid j before
      exact ⟨low, pid, Nat.lt_succ_of_lt older⟩
  · intro j notLive
    rw [Table.Live, proc_setProc] at notLive
    rw [proc_setProc]
    split
    · rename_i here
      rw [if_pos here] at notLive
      exact absurd (by simp) notLive
    · rename_i elsewhere
      rw [if_neg elsewhere] at notLive
      exact counted.unused j notLive
  · intro j k liveJ liveK equal
    rw [proc_setProc, proc_setProc] at equal
    rcases live j liveJ with rfl | ⟨elsewhereJ, beforeJ⟩
    · rcases live k liveK with rfl | ⟨elsewhereK, beforeK⟩
      · rfl
      · rw [if_pos rfl, if_neg elsewhereK] at equal
        have older := (counted.pid k beforeK).2.2
        exact absurd equal older.ne'
    · rw [if_neg elsewhereJ] at equal
      rcases live k liveK with rfl | ⟨elsewhereK, beforeK⟩
      · rw [if_pos rfl] at equal
        have older := (counted.pid j beforeJ).2.2
        exact absurd equal older.ne
      · rw [if_neg elsewhereK] at equal
        exact counted.apart j k beforeJ beforeK equal
  · rw [Table.Live, proc_setProc, if_pos rfl]
    simp

theorem positive (isLive : table.Live i) : 0 < (table.proc i).pid := by
  rw [Int32.lt_iff_toInt_lt, (counted.pid i isLive).2.1]
  change (0 : Int) < _
  omega

theorem distinct (liveI : table.Live i) (liveJ : table.Live j)
    (equal : (table.proc i).pid = (table.proc j).pid) : i = j := by
  refine counted.apart i j liveI liveJ ?_
  have first := (counted.pid i liveI).2.1
  have second := (counted.pid j liveJ).2.1
  rw [equal, second] at first
  omega

theorem kkill (isLive : table.Live i) : kkill (table.proc i).pid table = some i := by
  have positive := counted.positive isLive
  have marks : (PidTable.kkill (table.proc i).pid table).isSome :=
    List.find?_isSome.mpr ⟨i, List.mem_range.mpr (counted.pid i isLive).1, by simp⟩
  obtain ⟨j, found⟩ := Option.isSome_iff_exists.mp marks
  rw [found]
  rw [PidTable.kkill] at found
  have equal : (table.proc j).pid = (table.proc i).pid := by simpa using List.find?_some found
  have liveJ : table.Live j := by
    by_contra notLive
    rw [← equal, counted.unused j notLive] at positive
    exact absurd positive (by decide)
  rw [counted.distinct liveJ isLive equal]

theorem identified : Identified table where
  positive _ isLive := counted.positive isLive
  distinct _ _ liveI liveJ equal := counted.distinct liveI liveJ equal
  forked := by
    intro i after found
    obtain ⟨slot, _, made⟩ := Option.map_eq_some_iff.mp found
    cases made
    rw [kfork, found]
    simp only [if_true, proc_setProc]
    rw [Int32.lt_iff_toInt_lt, counted.nextpid]
    change (0 : Int) < _
    omega
  waited child zombie := counted.positive (i := child) (by rw [Table.Live, zombie]; simp)
  killed _ isLive := counted.kkill isLive
  holding := by
    intro k i isLive holds
    obtain ⟨locked, equal⟩ := Bool.and_eq_true_iff.mp holds
    have taken := counted.lock k locked
    rw [beq_iff_eq.mp equal, (counted.pid i isLive).2.1] at taken
    omega

theorem next (fits : Fits table act) (taken : next table act = some after) : Counted after := by
  cases act with
  | fork copies =>
    cases taken
    rw [kfork]
    split
    · exact counted
    · rename_i made found
      obtain ⟨kept, isLive⟩ := counted.allocproc fits found
      split
      · exact kept.setProc _ _ (.inr ⟨nofun, isLive, rfl, rfl⟩)
      · exact kept.setProc _ _ (.inl ⟨rfl, rfl⟩)
  | wait child =>
    obtain ⟨_, made⟩ := Option.ite_none_right_eq_some.mp taken
    cases made
    exact counted.setProc _ _ (.inl ⟨rfl, rfl⟩)
  | move i state =>
    obtain ⟨⟨isLive, stays⟩, made⟩ := Option.ite_none_right_eq_some.mp taken
    cases made
    exact counted.setProc _ _ (.inr ⟨stays, isLive, rfl, rfl⟩)
  | acquiresleep k i =>
    obtain ⟨⟨isLive, _⟩, made⟩ := Option.ite_none_right_eq_some.mp taken
    cases made
    exact counted.setLock _ _ fun _ => (counted.pid i isLive).2.1
  | releasesleep k =>
    cases taken
    exact counted.setLock _ _ nofun

end Counted

theorem counted_start : Counted start :=
  ⟨rfl, fun _ isLive => absurd rfl isLive, fun _ _ => rfl, fun _ _ isLive => absurd rfl isLive,
    nofun⟩

/-- In every run in which `nextpid` does not overflow, pids identify
processes. -/
theorem pids_identify_processes (runs : run next start steps = some table)
    (fits : Along next Fits start steps) : Identified table :=
  (run_preserves (fun counted fits taken => Counted.next counted fits taken) runs fits
    counted_start).identified

/-- Two forks. -/
theorem pids_identify_processes_two :
    ∃ table, run next start [.fork true, .fork true] = some table ∧ Identified table :=
  ⟨_, rfl, pids_identify_processes (show run next start [.fork true, .fork true] = _ from rfl)
    ⟨show (1 : Int32) < Int32.maxValue by decide, show (2 : Int32) < Int32.maxValue by decide,
      trivial⟩⟩

/-- The table after `k` forks that ran out of memory. -/
def failed (k : Nat) : Table := { start with nextpid := Int32.ofInt (k + 1), births := k }

theorem run_failing_forks (j k : Nat) :
    run next (failed j) (List.replicate k (.fork false)) = some (failed (j + k)) := by
  induction k with
  | zero => rfl
  | succ k induction =>
    have first : allocproc (failed (j + k)) = some (0, Table.setProc
        { failed (j + k) with nextpid := Int32.ofInt (j + k + 1) + 1, births := j + k + 1 } 0
        { state := .used, pid := Int32.ofInt (j + k + 1), birth := j + k }) := by
      rfl
    have freed : (kfork false (failed (j + k))).2 = failed (j + k + 1) := by
      rw [kfork, first]
      simp [freeproc, Table.setProc, failed, start]
    rw [List.replicate_succ', run_concat, induction, Option.bind_some, ← Nat.add_assoc, ← freed]
    rfl

/-- After `2^31 - 1` failed forks, the next child gets a negative pid. -/
theorem pid_overflows : ∃ steps table, run next start steps = some table ∧ ¬Identified table := by
  refine ⟨List.replicate 2147483647 (.fork false) ++ [.fork true],
    (kfork true (failed 2147483647)).2, ?_, ?_⟩
  · rw [run_concat, show start = failed 0 from rfl, run_failing_forks]
    rfl
  · intro identified
    have positive := identified.positive 0 (by decide)
    exact absurd positive (by decide)

/-- One more fork succeeds, and the child exits. -/
def exited (k : Nat) : Table :=
  (kfork true (failed k)).2.setProc 0 { (kfork true (failed k)).2.proc 0 with state := .zombie }

/-- After `2^32` allocations the pids begin again: `kwait` returns the pid 1 of
the first child, and later the pid 1 of another one. -/
theorem pid_returned_twice : ∃ earlier later before after,
    run next start earlier = some before ∧ (before.proc 0).state = .zombie ∧
    run next before (.wait 0 :: later) = some after ∧ (after.proc 0).state = .zombie ∧
    (kwait 0 before).1 = (kwait 0 after).1 ∧ (before.proc 0).birth ≠ (after.proc 0).birth := by
  refine ⟨[.fork true, .move 0 .zombie],
    List.replicate 4294967295 (.fork false) ++ [.fork true] ++ [.move 0 .zombie],
    exited 0, exited 4294967296, rfl, rfl, ?_, rfl, by decide, by decide⟩
  have reaped : next (exited 0) (.wait 0) = some (failed 1) := by
    change some (freeproc (exited 0) 0) = _
    rw [exited, kfork, show allocproc (failed 0) = some (0, _) from rfl]
    simp [freeproc, Table.setProc, failed, start]
  rw [run, reaped, Option.bind_some, run_concat, run_concat, run_failing_forks]
  rfl

end Xv6KernelEvent.PidTable
