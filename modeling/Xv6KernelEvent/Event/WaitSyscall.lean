import Xv6KernelEvent.Device.Console
import Xv6KernelEvent.Device.Pipe
import Xv6KernelEvent.Event.PostSyscall
import Xv6KernelEvent.Event.QueueRefinement

/-!
# Waiting from user space, and undelivered data

`sys_kqueue_wait` removes an event, releases `kq.lock` and only then copies
the record to user space.  The main theorem compares the three consumers of
kernel queues on a failing copy: `piperead` keeps the byte, `consoleread` and
`sys_kqueue_wait` lose the item unless the buffer can be stored into.
-/

namespace Xv6KernelEvent

open CString

/-- `sizeof(struct event)`: `pid` at 0, `name` at 4, `timestamp` at 40. -/
def eventSize : Nat := 48

/-- The memory image of a record.  The four bytes between `name` and
`timestamp` are padding, whose contents C leaves open. -/
def Event.image (event : Event) (padding : Nat → UInt8) (offset : Nat) : UInt8 :=
  if offset < 4 then UInt8.ofNat (event.pid.toUInt32.toNat / 256 ^ offset)
  else if offset < 4 + MAXEVENTNAME then byteAt event.name (offset - 4)
  else if offset < 40 then padding offset
  else UInt8.ofNat (event.timestamp.toNat / 256 ^ (offset - 40))

/-- Critical sections executed by other processes. -/
def Kqueue.runCalls (kq : Kqueue) (calls : List Call) : Option Kqueue := do
  let session ← calls.foldlM Session.call { kq := kq, delivered := [] }
  some session.kq

structure WaitResult where
  value : Int
  kq : Kqueue
  space : UserSpace

/-- `sys_kqueue_wait` from the pass that ends the waiting loop on.  `between`
are the critical sections of other processes between the release of `kq.lock`
and the end of `copyout`. -/
def sysKqueueWait (alloc : Nat → Bool) (space : UserSpace) (evp : UInt64)
    (padding : Nat → UInt8) (between : List Call) (kq : Kqueue) :
    Option WaitResult := do
  let (event, taken) ← kqueueTake kq
  let after ← taken.runCalls between
  let (result, space) := space.copyout alloc evp.toNat (event.image padding) eventSize
  some
    { value := if result < 0 then -1 else 0
      kq := after
      space := space }

/-- A valid queue on which a waiter does not sleep. -/
structure PendingKqueue extends ValidKqueue where
  nonempty : kq.count ≠ 0

/-- A wait that returns -1 leaves the contents that the other processes'
calls alone would have left. -/
def SysKqueueWaitKeeps (alloc : Nat → Bool) (space : UserSpace) (evp : UInt64)
    (kq : Kqueue) : Prop :=
  ∀ padding between result, sysKqueueWait alloc space evp padding between kq = some result →
    result.value = -1 →
    ∃ kept, kq.runCalls between = some kept ∧ result.kq.contents = kept.contents

/-- No pass of `piperead` moves `nread` past a byte it failed to copy. -/
def PipereadKeeps (alloc : Nat → Bool) (space : UserSpace) (addr : Nat) (n : Int) : Prop :=
  ∀ killed pipe read, piperead alloc killed addr n pipe space = some read →
    KeepsUndelivered read.attempts read.pipe.nread ∧
      read.pipe.data = pipe.data ∧ read.pipe.nwrite = pipe.nwrite

/-- No pass of `consoleread` moves `cons.r` past a byte it failed to copy. -/
def ConsolereadKeeps (userDst : Bool) (alloc : Nat → Bool) (space : UserSpace)
    (dst : Nat) (n : Int) : Prop :=
  ∀ turns, ∀ pass ∈ consoleread userDst alloc dst n space turns,
    KeepsUndelivered pass.attempts pass.cons.r

@[simp] theorem Kqueue.runCalls_nil (kq : Kqueue) : kq.runCalls [] = some kq := rfl

/-- An event taken by a failing wait is gone, whatever it was. -/
theorem sysKqueueWait_keeps_iff (alloc : Nat → Bool) (space : UserSpace) (evp : UInt64)
    (queue : PendingKqueue) :
    SysKqueueWaitKeeps alloc space evp queue.kq ↔ space.Writable alloc evp.toNat eventSize := by
  obtain ⟨event, taken, takes, _valid, _events, pending⟩ :=
    kqueueTake_spec queue.valid queue.nonempty
  constructor
  · intro keeps
    by_contra unwritable
    have failed := (UserSpace.copyout_eq_neg_one_iff space alloc evp.toNat
      eventSize (event.image fun _ => 0)).mpr unwritable
    obtain ⟨kept, same, contents⟩ := keeps (fun _ => 0) [] _
      (by simp only [sysKqueueWait, takes]; rfl)
      (by simp [failed])
    simp only [Kqueue.runCalls_nil, Option.some.injEq] at same
    have lengths := congrArg List.length contents
    simp only [← same, Kqueue.contents, pending, List.length_map, List.length_cons] at lengths
    omega
  · intro writable padding between result returned failed
    have copied := (UserSpace.copyout_eq_zero_iff space alloc evp.toNat
      eventSize (event.image padding)).mpr writable
    simp only [sysKqueueWait, takes, Option.bind_eq_bind, Option.bind_some]
      at returned
    cases after : taken.runCalls between with
    | none => simp [after] at returned
    | some next =>
      simp only [after, Option.bind_some, Option.some.injEq, copied]
        at returned
      rw [← returned] at failed
      simp at failed

/-- Which consumers keep an item they fail to deliver.  A wait for an event
and a read from the console do so exactly if their buffers can be stored
into, so that no copy fails; a read from a pipe always does. -/
theorem undelivered_kept_iff_writable (alloc : Nat → Bool) (space : UserSpace) (evp : UInt64)
    (queue : PendingKqueue) (userDst : Bool) (dst : Nat) (n : Int) :
    (SysKqueueWaitKeeps alloc space evp queue.kq ↔ space.Writable alloc evp.toNat eventSize) ∧
    PipereadKeeps alloc space dst n ∧
    (ConsolereadKeeps userDst alloc space dst n ↔ BufferWritable userDst alloc space dst n.toNat) :=
  ⟨sysKqueueWait_keeps_iff alloc space evp queue,
    fun _killed _pipe _read returns => piperead_keepsUndelivered returns,
    consoleread_keepsUndelivered_iff userDst alloc dst n space⟩

/-- The queue after one post on the initial queue. -/
def oneEventKqueue : Kqueue :=
  { events := kqueueinit.events.set 0 (Event.zero.overwrite (fun _ => 0) 1 0)
    head := 0
    tail := 1
    count := 1 }

/-- A wait and a console read with a buffer at an unmapped address lose their
item. -/
theorem undelivered_lost_unmapped : kqueuePost (fun _ => 0) 1 0 kqueueinit = some oneEventKqueue ∧
      ¬SysKqueueWaitKeeps (fun _ => true) unmappedSpace 0 oneEventKqueue ∧
      ¬ConsolereadKeeps true (fun _ => true) unmappedSpace 0 1 := by
  have unmapped : ¬unmappedSpace.PageWritable (fun _ => true) 0 := by
    simp [UserSpace.PageWritable, unmappedSpace]
  refine ⟨by decide +kernel, ?_, ?_⟩
  · intro keeps
    have valid : oneEventKqueue.Valid := by constructor <;> decide +kernel
    have writable := (sysKqueueWait_keeps_iff _ _ _
      { kq := oneEventKqueue, valid := valid, nonempty := by decide }).mp keeps
    exact unmapped (writable 0 (by decide))
  · intro keeps
    have writable := (consoleread_keepsUndelivered_iff _ _ _ _ _).mp keeps rfl
    exact unmapped (writable 0 (by decide))

end Xv6KernelEvent
