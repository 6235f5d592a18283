import Xv6KernelEvent.Event.Safestrcpy
import Xv6KernelEvent.Library.CircularBuffer

/-!
# The kernel event queue

`struct event`, `struct kqueue` and the critical sections of `kqueue_post` and
`kqueue_wait_internal` (`kernel/proc.h`, `kernel/proc.c`).  The cursors are C
`int`s, remainders truncate toward zero, and an index outside `events` is
undefined behaviour, which the functions report as `none`.

`Kqueue.Valid` relates the three cursors.  It holds after `kqueueinit` and is
kept by every call, so no run reaches undefined behaviour.
-/

namespace Xv6KernelEvent

open CString CircularBuffer

def NEVENT : Nat := 256

def MAXEVENTNAME : Nat := 32

instance : NeZero NEVENT := ⟨by decide⟩

theorem NEVENT_pos : 0 < NEVENT := by decide

theorem MAXEVENTNAME_pos : 0 < MAXEVENTNAME := by decide

/-- `struct event`. -/
structure Event where
  pid : Int32
  name : Vector UInt8 MAXEVENTNAME
  timestamp : UInt64
  deriving DecidableEq

/-- What a consumer understands of a record: its pid, its name up to the NUL
and its timestamp. -/
structure EventView where
  pid : Int32
  name : List UInt8
  timestamp : UInt64
  deriving DecidableEq

def Event.view (event : Event) : EventView :=
  { pid := event.pid
    name := text (byteAt event.name) MAXEVENTNAME
    timestamp := event.timestamp }

/-- `struct kqueue` without its lock. -/
structure Kqueue where
  events : Vector Event NEVENT
  head : Int
  tail : Int
  count : Int
  deriving DecidableEq

/-- An element of a zero-initialised global array. -/
def Event.zero : Event := { pid := 0, name := Vector.replicate MAXEVENTNAME 0, timestamp := 0 }

/-- The global `kq` after `kqueueinit`.  The initialiser only resets the
cursors; the records are those of the zero-initialised data segment. -/
def kqueueinit : Kqueue :=
  { events := Vector.replicate NEVENT Event.zero
    head := 0
    tail := 0
    count := 0 }

/-- The array element that a C index names. -/
def eventSlot? (index : Int) : Option (Fin NEVENT) :=
  if bounds : 0 ≤ index ∧ index < NEVENT then some ⟨index.toNat, by omega⟩
  else none

/-- The record `kqueue_post` leaves in a slot that held `old`. -/
def Event.overwrite (old : Event) (eventName : Nat → UInt8) (pid : Int32) (time : UInt64) : Event :=
  { pid := pid
    name := safestrcpy old.name eventName MAXEVENTNAME
    timestamp := time }

/-- The discard step of `kqueue_post`. -/
def Kqueue.discardIfFull (kq : Kqueue) : Kqueue :=
  if kq.count ≥ NEVENT then
    { kq with
      head := (kq.head + 1).tmod NEVENT
      count := kq.count - 1 }
  else kq

/-- The insertion step of `kqueue_post`, with the value of `r_time()`. -/
def Kqueue.insert (kq : Kqueue) (eventName : Nat → UInt8) (pid : Int32)
    (time : UInt64) : Option Kqueue := do
  let slot ← eventSlot? kq.tail
  some
    { kq with
      events := kq.events.set slot (kq.events[slot].overwrite eventName pid time)
      tail := (kq.tail + 1).tmod NEVENT
      count := kq.count + 1 }

/-- The critical section of `kqueue_post`. -/
def kqueuePost (eventName : Nat → UInt8) (pid : Int32) (time : UInt64)
    (kq : Kqueue) : Option Kqueue :=
  kq.discardIfFull.insert eventName pid time

/-- The part of `kqueue_wait_internal` behind its waiting loop, entered with
`count != 0`: the copied record and the queue without it. -/
def kqueueTake (kq : Kqueue) : Option (Event × Kqueue) := do
  let slot ← eventSlot? kq.head
  some (kq.events[slot],
    { kq with
      head := (kq.head + 1).tmod NEVENT
      count := kq.count - 1 })

/-- The relation between the cursors that every call keeps. -/
structure Kqueue.Valid (kq : Kqueue) : Prop where
  head_nonneg : 0 ≤ kq.head
  head_lt : kq.head < NEVENT
  count_nonneg : 0 ≤ kq.count
  count_le : kq.count ≤ NEVENT
  tail_eq : kq.tail = (kq.head + kq.count) % NEVENT

/-- The live records, oldest first. -/
def Kqueue.pending (kq : Kqueue) : List Event := window kq.events kq.head.toNat kq.count.toNat

/-- The live records as consumers understand them. -/
def Kqueue.contents (kq : Kqueue) : List EventView := kq.pending.map Event.view

@[simp] theorem Kqueue.length_pending (kq : Kqueue) : kq.pending.length = kq.count.toNat := by
  simp [Kqueue.pending]

theorem kqueueinit_valid : kqueueinit.Valid := by constructor <;> simp [kqueueinit, NEVENT]

@[simp] theorem kqueueinit_pending : kqueueinit.pending = [] := by simp [Kqueue.pending, kqueueinit]

theorem eventSlot?_of_bounds {index : Int} (nonneg : 0 ≤ index) (below : index < NEVENT) :
    eventSlot? index = some (position NEVENT index.toNat) := by
  have toNatBelow : index.toNat < NEVENT := by omega
  simp [eventSlot?, nonneg, below, position, Nat.mod_eq_of_lt toNatBelow]

/-- C remainders of cursors agree with mathematical ones. -/
theorem tmod_succ_of_nonneg {index : Int} (nonneg : 0 ≤ index) :
    (index + 1).tmod NEVENT = (index + 1) % NEVENT :=
  Int.tmod_eq_emod_of_nonneg (by omega)

namespace Kqueue.Valid

variable {kq : Kqueue}

section

variable (valid : kq.Valid)

include valid

theorem tail_nonneg : 0 ≤ kq.tail := by
  rw [valid.tail_eq]
  exact Int.emod_nonneg _ (by decide)

theorem tail_lt : kq.tail < NEVENT := by
  rw [valid.tail_eq]
  exact Int.emod_lt_of_pos _ (by decide)

/-- The write cursor names the cell just behind the live window. -/
theorem position_tail : position NEVENT kq.tail.toNat =
      position NEVENT (kq.head.toNat + kq.count.toNat) := by
  have headNonneg := valid.head_nonneg
  have countNonneg := valid.count_nonneg
  have tailNat : kq.tail.toNat = (kq.head.toNat + kq.count.toNat) % NEVENT := by
    have casted : ((kq.head.toNat + kq.count.toNat) % NEVENT : Nat) =
        (kq.head + kq.count) % (NEVENT : Int) := by
      push_cast
      rw [Int.toNat_of_nonneg headNonneg, Int.toNat_of_nonneg countNonneg]
    rw [valid.tail_eq, ← casted]
    exact Int.toNat_natCast _
  rw [tailNat]
  exact position_eq_iff.mpr (Nat.mod_mod _ _)

/-- The head cursor moves over one record. -/
theorem advance (nonempty : 0 < kq.count) : Valid
      { kq with
        head := (kq.head + 1).tmod NEVENT
        count := kq.count - 1 } := by
  have headNonneg := valid.head_nonneg
  have countLe := valid.count_le
  constructor
  · simpa [tmod_succ_of_nonneg headNonneg] using
      Int.emod_nonneg (kq.head + 1) (by decide : (NEVENT : Int) ≠ 0)
  · simpa [tmod_succ_of_nonneg headNonneg] using
      Int.emod_lt_of_pos (kq.head + 1) (by decide : (0 : Int) < NEVENT)
  · show 0 ≤ kq.count - 1
    omega
  · show kq.count - 1 ≤ NEVENT
    omega
  · show kq.tail = ((kq.head + 1).tmod NEVENT + (kq.count - 1)) % NEVENT
    rw [tmod_succ_of_nonneg headNonneg, Int.emod_add_emod, valid.tail_eq]
    congr 1
    omega

theorem pending_advance (nonempty : 0 < kq.count) :
    kq.pending = kq.events.get (position NEVENT kq.head.toNat) :: Kqueue.pending
        { kq with
          head := (kq.head + 1).tmod NEVENT
          count := kq.count - 1 } := by
  have headNonneg := valid.head_nonneg
  obtain ⟨rest, restEq⟩ : ∃ rest, kq.count.toNat = rest + 1 :=
    Nat.exists_eq_succ_of_ne_zero (by omega)
  have predecessor : (kq.count - 1).toNat = rest := by omega
  have headNat : ((kq.head + 1) % (NEVENT : Int)).toNat = (kq.head.toNat + 1) % NEVENT := by
    have casted : (((kq.head.toNat + 1) % NEVENT : Nat) : Int) =
        (kq.head + 1) % (NEVENT : Int) := by
      push_cast
      rw [Int.toNat_of_nonneg headNonneg]
    rw [← casted]
    exact Int.toNat_natCast _
  simp only [Kqueue.pending, restEq, window_succ, predecessor,
    tmod_succ_of_nonneg headNonneg, headNat, window_mod]
  rfl

theorem discardIfFull :
    kq.discardIfFull.Valid ∧ kq.discardIfFull.count < NEVENT ∧ kq.discardIfFull.pending =
        if kq.pending.length < NEVENT then kq.pending
        else kq.pending.tail := by
  have countLe := valid.count_le
  have countNonneg := valid.count_nonneg
  by_cases full : kq.count ≥ NEVENT
  · have nonempty : 0 < kq.count := by
      have := NEVENT_pos
      omega
    have notRoom : ¬kq.pending.length < NEVENT := by
      rw [Kqueue.length_pending]
      omega
    have discarded : kq.discardIfFull =
        { kq with
          head := (kq.head + 1).tmod NEVENT
          count := kq.count - 1 } := by
      simp [Kqueue.discardIfFull, full]
    rw [if_neg notRoom, discarded]
    refine ⟨valid.advance nonempty, ?_, ?_⟩
    · show kq.count - 1 < NEVENT
      omega
    · rw [valid.pending_advance nonempty]
      rfl
  · have kept : kq.discardIfFull = kq := by simp [Kqueue.discardIfFull, full]
    have room : kq.pending.length < NEVENT := by
      rw [Kqueue.length_pending]
      omega
    rw [if_pos room, kept]
    exact ⟨valid, by omega, rfl⟩

/-- Insertion into a queue with room appends one record, written over the
record that the write cursor names. -/
theorem insert (space : kq.count < NEVENT) (eventName : Nat → UInt8) (pid : Int32) (time : UInt64) :
    ∃ next, kq.insert eventName pid time = some next ∧ next.Valid ∧
      next.events = kq.events.set (position NEVENT kq.tail.toNat)
        ((kq.events.get (position NEVENT kq.tail.toNat)).overwrite eventName pid time)
        (Fin.isLt _) ∧
      next.pending = kq.pending ++ [(kq.events.get (position NEVENT kq.tail.toNat)).overwrite
          eventName pid time] := by
  have headNonneg := valid.head_nonneg
  have countNonneg := valid.count_nonneg
  have slot := eventSlot?_of_bounds valid.tail_nonneg valid.tail_lt
  have inserted : kq.insert eventName pid time = some
      { kq with
        events := kq.events.set (position NEVENT kq.tail.toNat)
          ((kq.events.get (position NEVENT kq.tail.toNat)).overwrite eventName pid time)
          (Fin.isLt _)
        tail := (kq.tail + 1).tmod NEVENT
        count := kq.count + 1 } := by
    rw [Kqueue.insert, slot]
    rfl
  refine ⟨_, inserted, ?_, rfl, ?_⟩
  · constructor
    · exact valid.head_nonneg
    · exact valid.head_lt
    · show 0 ≤ kq.count + 1
      omega
    · show kq.count + 1 ≤ NEVENT
      omega
    · show (kq.tail + 1).tmod NEVENT = (kq.head + (kq.count + 1)) % NEVENT
      rw [tmod_succ_of_nonneg valid.tail_nonneg, valid.tail_eq, Int.emod_add_emod]
      congr 1
      omega
  · have counted : (kq.count + 1).toNat = kq.count.toNat + 1 := by omega
    simp only [Kqueue.pending, counted, valid.position_tail]
    exact window_set_succ _ _ _ _ (by omega)

end

end Kqueue.Valid

@[simp] theorem Kqueue.discardIfFull_tail (kq : Kqueue) : kq.discardIfFull.tail = kq.tail := by
  unfold Kqueue.discardIfFull
  split <;> rfl

@[simp] theorem Kqueue.discardIfFull_events (kq : Kqueue) :
    kq.discardIfFull.events = kq.events := by
  unfold Kqueue.discardIfFull
  split <;> rfl

/-- A post always succeeds.  It drops the oldest record of a full queue and
appends one record, written over the slot that the write cursor names. -/
theorem kqueuePost_spec (valid : kq.Valid) (eventName : Nat → UInt8) (pid : Int32) (time : UInt64) :
    ∃ next, kqueuePost eventName pid time kq = some next ∧ next.Valid ∧
      next.events = kq.events.set (position NEVENT kq.tail.toNat)
        ((kq.events.get (position NEVENT kq.tail.toNat)).overwrite eventName pid time)
        (Fin.isLt _) ∧
      next.pending = (if kq.pending.length < NEVENT then kq.pending
          else kq.pending.tail) ++
        [(kq.events.get (position NEVENT kq.tail.toNat)).overwrite eventName pid time] := by
  obtain ⟨discardValid, space, kept⟩ := valid.discardIfFull
  obtain ⟨next, inserted, nextValid, events, pending⟩ :=
    discardValid.insert space eventName pid time
  simp only [Kqueue.discardIfFull_tail, Kqueue.discardIfFull_events]
    at events pending
  exact ⟨next, inserted, nextValid, events, by rw [pending, kept]⟩

/-- A completed wait hands out the oldest record and removes it. -/
theorem kqueueTake_spec {kq : Kqueue} (valid : kq.Valid) (nonempty : kq.count ≠ 0) :
    ∃ event next, kqueueTake kq = some (event, next) ∧ next.Valid ∧ next.events = kq.events ∧
      kq.pending = event :: next.pending := by
  have countNonneg := valid.count_nonneg
  have positive : 0 < kq.count := by omega
  have slot := eventSlot?_of_bounds valid.head_nonneg valid.head_lt
  refine ⟨_, _, by simp only [kqueueTake, slot]; rfl, valid.advance positive, rfl, ?_⟩
  exact valid.pending_advance positive

/-- The record written by a post shows exactly what was posted, with the name
cut to the field. -/
theorem Event.view_overwrite (old : Event) (eventName : Nat → UInt8) (pid : Int32) (time : UInt64) :
    (old.overwrite eventName pid time).view =
      { pid := pid
        name := text eventName (MAXEVENTNAME - 1)
        timestamp := time } := by
  simp only [Event.view, Event.overwrite]
  rw [text_safestrcpy old.name eventName MAXEVENTNAME_pos le_rfl]

end Xv6KernelEvent
