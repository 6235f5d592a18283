import Xv6KernelEvent.Device.ReadAttempts
import Xv6KernelEvent.Param

/-!
# Reading from a pipe

The critical section of `piperead` (`kernel/pipe.c`).  The reader holds
`pi->lock` from the moment its waiting loop ends until it returns, so one pass
is atomic; what happened to the pipe while it slept is covered by letting the
pass start from any pipe.
-/

namespace Xv6KernelEvent

theorem PIPESIZE_pos : 0 < PIPESIZE := by decide

/-- `struct pipe` without its lock.  The counters are `uint`s and wrap. -/
structure Pipe where
  data : Vector UInt8 PIPESIZE
  nread : UInt32
  nwrite : UInt32
  readopen : Bool
  writeopen : Bool

/-- The byte that a counter value names. -/
def Pipe.byte (pipe : Pipe) (counter : UInt32) : UInt8 :=
  pipe.data.get ⟨counter.toNat % PIPESIZE, Nat.mod_lt _ PIPESIZE_pos⟩

/-- How one pass of a reader ends. -/
structure PipeRead where
  value : Int
  pipe : Pipe
  space : UserSpace
  attempts : List Attempt

/-- The copying loop of `piperead`, entered with `remaining` iterations to go
and `i` bytes copied. -/
def pipereadCopy (alloc : Nat → Bool) (addr : Nat) : Nat → Nat → Pipe → UserSpace → PipeRead
  | 0, i, pipe, space => { value := i, pipe := pipe, space := space, attempts := [] }
  | remaining + 1, i, pipe, space =>
    if pipe.nread = pipe.nwrite then { value := i, pipe := pipe, space := space, attempts := [] }
    else
      let ch := pipe.byte pipe.nread
      let (result, space) := space.copyout alloc (addr + i) (fun _ => ch) 1
      if result = -1 then
        { value := if i = 0 then -1 else i
          pipe := pipe
          space := space
          attempts := [{ cursor := pipe.nread, copied := false }] }
      else
        let rest := pipereadCopy alloc addr remaining (i + 1)
          { pipe with nread := pipe.nread + 1 } space
        { rest with
          attempts := { cursor := pipe.nread, copied := true } :: rest.attempts }

/-- One pass of `piperead` under `pi->lock`: `none` when the reader goes to
sleep on the empty pipe. -/
def piperead (alloc : Nat → Bool) (killed : Bool) (addr : Nat) (n : Int)
    (pipe : Pipe) (space : UserSpace) : Option PipeRead :=
  if pipe.nread = pipe.nwrite ∧ pipe.writeopen = true then
    if killed then some { value := -1, pipe := pipe, space := space, attempts := [] }
    else none
  else some (pipereadCopy alloc addr n.toNat 0 pipe space)

/-- The copying loop never moves the cursor past a byte it failed to copy,
and never touches the stored bytes or the write cursor. -/
theorem pipereadCopy_keepsUndelivered (alloc : Nat → Bool) (addr remaining i : Nat) (pipe : Pipe)
    (space : UserSpace) :
    let read := pipereadCopy alloc addr remaining i pipe space
    KeepsUndelivered read.attempts read.pipe.nread ∧
      read.pipe.data = pipe.data ∧ read.pipe.nwrite = pipe.nwrite := by
  induction remaining generalizing i pipe space with
  | zero => simp [pipereadCopy, KeepsUndelivered]
  | succ remaining induction =>
    simp only [pipereadCopy]
    split
    · simp [KeepsUndelivered]
    · split
      · simp [KeepsUndelivered]
      · obtain ⟨keeps, data, nwrite⟩ := induction (i + 1) { pipe with nread := pipe.nread + 1 }
          (space.copyout alloc (addr + i) (fun _ => pipe.byte pipe.nread) 1).2
        refine ⟨?_, data, nwrite⟩
        intro attempt member failed
        rcases List.mem_cons.mp member with first | later
        · subst attempt
          simp at failed
        · exact keeps attempt later failed

/-- Whatever the pipe, the buffer address and the length, a pass of
`piperead` leaves every undelivered byte as the next one to be read. -/
theorem piperead_keepsUndelivered
    {alloc : Nat → Bool} {killed : Bool} {addr : Nat} {n : Int} {pipe : Pipe}
    {space : UserSpace} {read : PipeRead}
    (returns : piperead alloc killed addr n pipe space = some read) :
    KeepsUndelivered read.attempts read.pipe.nread ∧
      read.pipe.data = pipe.data ∧ read.pipe.nwrite = pipe.nwrite := by
  unfold piperead at returns
  split at returns
  · split at returns
    · simp only [Option.some.injEq] at returns
      rw [← returns]
      simp [KeepsUndelivered]
    · simp at returns
  · simp only [Option.some.injEq] at returns
    rw [← returns]
    exact pipereadCopy_keepsUndelivered alloc addr n.toNat 0 pipe space

end Xv6KernelEvent
