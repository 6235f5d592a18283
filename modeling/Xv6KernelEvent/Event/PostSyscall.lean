import Xv6KernelEvent.Event.Queue
import Xv6KernelEvent.Memory.Copyinstr

/-!
# Posting from user space

`sys_kqueue_post` fetches a pid and a name and posts them.  It ignores the
result of `argstr`, so a name that cannot be fetched is posted as whatever the
kernel stack held.  The theorem below says exactly on which inputs the system
call behaves as a checked fetch would.
-/

namespace Xv6KernelEvent

open CString

/-- A queue that satisfies the cursor relation of every reachable queue. -/
structure ValidKqueue where
  kq : Kqueue
  valid : kq.Valid

/-- `argint`: the low 32 bits of an argument register. -/
def argint (register : UInt64) : Int32 := register.toUInt32.toInt32

/-- `fetchstr`: the length of the fetched string or -1, and the buffer. -/
def fetchstr {size : Nat} (space : UserSpace) (addr : Nat)
    (buffer : Vector UInt8 size) (max : Nat) : Int × Vector UInt8 size :=
  let (result, buffer) := copyinstr space buffer addr max
  if result < 0 then (-1, buffer)
  else (strnlen (byteAt buffer) size, buffer)

/-- `argstr`: the string whose address is in an argument register. -/
def argstr {size : Nat} (space : UserSpace) (register : UInt64)
    (buffer : Vector UInt8 size) (max : Nat) : Int × Vector UInt8 size :=
  fetchstr space register.toNat buffer max

/-- `sys_kqueue_post` with the argument registers `a0` and `a1`.  `stale` is
what the stack buffer `name` held before, and the queue is the one found when
`kq.lock` is acquired. -/
def sysKqueuePost (space : UserSpace) (a0 a1 : UInt64)
    (stale : Vector UInt8 MAXEVENTNAME) (time : UInt64) (kq : Kqueue) :
    Option (Int × Kqueue) := do
  let pid := argint a0
  let (_, name) := argstr space a1 stale MAXEVENTNAME
  let kq ← kqueuePost (byteAt name) pid time kq
  some (0, kq)

/-- A queue to which one event has been added, dropping the oldest event of a
full queue. -/
def AppendsEvent (before after : Kqueue) (event : EventView) : Prop :=
  after.contents = (if before.contents.length < NEVENT then before.contents
      else before.contents.tail) ++ [event]

/-- The intended effect: a name that is unreadable or has no NUL within the
limit is refused and leaves the queue alone; any other name is posted as it
stands in user memory. -/
def PostsCheckedName (space : UserSpace) (a0 a1 : UInt64) (time : UInt64)
    (kq : Kqueue) (outcome : Option (Int × Kqueue)) : Prop :=
  match space.string? a1.toNat MAXEVENTNAME with
  | none => outcome = some (-1, kq)
  | some name => ∃ next, outcome = some (0, next) ∧ AppendsEvent kq next
        { pid := argint a0, name := name, timestamp := time }

/-- The outcome depends on the arguments only: whatever the stack buffer held,
the same queue results. -/
def IgnoresStaleBuffer (space : UserSpace) (a0 a1 : UInt64)
    (stale : Vector UInt8 MAXEVENTNAME) (time : UInt64) (kq : Kqueue) : Prop :=
  ∀ other, sysKqueuePost space a0 a1 other time kq = sysKqueuePost space a0 a1 stale time kq

/-- After a successful fetch the buffer holds the string, whatever it held
before. -/
theorem argstr_string (found : space.string? a1.toNat MAXEVENTNAME = some name)
    (stale : Vector UInt8 MAXEVENTNAME) :
    ∀ offset, byteAt (argstr space a1 stale MAXEVENTNAME).2 offset =
        stringByte (byteAt stale) 0 name offset := by
  have fetched := copyinstr_spec space stale a1.toNat le_rfl
  simp only [found] at fetched
  intro offset
  simp only [argstr, fetchstr]
  split
  · exact fetched.2 offset
  · exact fetched.2 offset

theorem strnlen_argstr (found : space.string? a1.toNat MAXEVENTNAME = some name)
    (stale : Vector UInt8 MAXEVENTNAME) :
    strnlen (byteAt (argstr space a1 stale MAXEVENTNAME).2) (MAXEVENTNAME - 1) = name.length := by
  obtain ⟨short, nonzeros⟩ := UserSpace.string?_spec found
  have bytes := argstr_string found stale
  apply strnlen_eq
  · omega
  · intro offset below
    rw [bytes offset]
    simpa [stringByte, below] using nonzeros _ (List.getElem_mem below)
  · intro _below
    rw [bytes]
    simp [stringByte]

/-- The record written for a fetched name does not depend on the stale
buffer. -/
theorem overwrite_argstr_congr (found : space.string? a1.toNat MAXEVENTNAME = some name)
    (left right : Vector UInt8 MAXEVENTNAME) (old : Event) (pid : Int32) (time : UInt64) :
    old.overwrite (byteAt (argstr space a1 left MAXEVENTNAME).2) pid time =
      old.overwrite (byteAt (argstr space a1 right MAXEVENTNAME).2) pid time := by
  have names : safestrcpy old.name (byteAt (argstr space a1 left MAXEVENTNAME).2) MAXEVENTNAME =
      safestrcpy old.name (byteAt (argstr space a1 right MAXEVENTNAME).2) MAXEVENTNAME := by
    apply ext_byteAt
    intro offset _below
    rw [byteAt_safestrcpy _ _ MAXEVENTNAME_pos le_rfl,
      byteAt_safestrcpy _ _ MAXEVENTNAME_pos le_rfl,
      strnlen_argstr found left, strnlen_argstr found right]
    simp only [safestrcpyByte, argstr_string found left, argstr_string found right, stringByte]
    grind
  simp only [Event.overwrite, names]

theorem kqueuePost_congr (same : ∀ old : Event, old.overwrite left pid time =
      old.overwrite right pid time) (kq : Kqueue) :
    kqueuePost left pid time kq = kqueuePost right pid time kq := by
  simp only [kqueuePost, Kqueue.insert, same]

/-- `sys_kqueue_post` refuses malformed names and ignores the stale stack
buffer exactly when the name is readable and ends within `MAXEVENTNAME`
bytes.  On every other input it returns 0 and posts stale bytes. -/
theorem sysKqueuePost_checked_iff (space : UserSpace) (a0 a1 : UInt64)
    (stale : Vector UInt8 MAXEVENTNAME) (time : UInt64) (queue : ValidKqueue) :
    (PostsCheckedName space a0 a1 time queue.kq (sysKqueuePost space a0 a1 stale time queue.kq) ∧
      IgnoresStaleBuffer space a0 a1 stale time queue.kq) ↔
    ∃ name, space.string? a1.toNat MAXEVENTNAME = some name := by
  obtain ⟨next, posts, _valid, _events, pending⟩ :=
    kqueuePost_spec queue.valid (byteAt (argstr space a1 stale MAXEVENTNAME).2) (argint a0) time
  have outcome : sysKqueuePost space a0 a1 stale time queue.kq = some (0, next) := by
    simp [sysKqueuePost, posts]
  constructor
  · rintro ⟨checked, _ignores⟩
    cases found : space.string? a1.toNat MAXEVENTNAME with
    | none => simp [PostsCheckedName, found, outcome] at checked
    | some name => exact ⟨name, rfl⟩
  · rintro ⟨name, found⟩
    have nameText : text (byteAt (argstr space a1 stale MAXEVENTNAME).2)
        (MAXEVENTNAME - 1) = name := by
      apply List.ext_getElem
      · rw [length_text, strnlen_argstr found]
      · intro offset _leftBelow rightBelow
        simp [text, argstr_string found, stringByte, rightBelow]
    refine ⟨?_, ?_⟩
    · simp only [PostsCheckedName, found]
      refine ⟨next, outcome, ?_⟩
      simp only [AppendsEvent, Kqueue.contents, pending, List.map_append,
        List.map_cons, List.map_nil, Event.view_overwrite, nameText,
        List.length_map]
      split
      · rfl
      · rw [List.map_tail]
    · intro other
      simp only [sysKqueuePost]
      rw [kqueuePost_congr fun old => overwrite_argstr_congr found other stale old (argint a0) time]

/-- A process without any mapped page. -/
def unmappedSpace : UserSpace := { sz := 0, page := fun _ => none }

/-- A name at an unmapped address is accepted, and what is posted depends on
the stack buffer. -/
theorem sysKqueuePost_accepts_unreadable : ¬(PostsCheckedName unmappedSpace 1 0 0 kqueueinit
        (sysKqueuePost unmappedSpace 1 0 (Vector.replicate MAXEVENTNAME 65) 0 kqueueinit)) ∧
    ¬IgnoresStaleBuffer unmappedSpace 1 0 (Vector.replicate MAXEVENTNAME 65) 0 kqueueinit := by
  constructor
  · intro checked
    have unreadable : unmappedSpace.string? (0 : UInt64).toNat MAXEVENTNAME =
        none := by decide +kernel
    simp only [PostsCheckedName, unreadable] at checked
    have returned : (sysKqueuePost unmappedSpace 1 0
        (Vector.replicate MAXEVENTNAME 65) 0 kqueueinit).map Prod.fst =
        some 0 := by decide +kernel
    rw [checked] at returned
    simp at returned
  · intro ignores
    have same := congrArg (fun outcome => outcome.map fun result => result.2.contents)
      (ignores (Vector.replicate MAXEVENTNAME 66))
    revert same
    decide +kernel

end Xv6KernelEvent
