import Xv6KernelEvent.Device.Pipe
import Xv6KernelEvent.Library.CircularBuffer
import Xv6KernelEvent.Library.Runs

/-!
# Pipes as byte streams

`pipewrite`, `piperead` and `pipeclose` (`kernel/pipe.c`) on one pipe.  A call
holds `pi->lock` except while it sleeps, so what it does between two sleeps is
one step, whichever calls come between.  A sleeping writer goes on where it
stopped; a sleeping reader has moved nothing and starts again.

The counters wrap.  Beside the pipe are the bytes accepted from writers, in the
order of their acceptance, and the bytes delivered to readers.
-/

namespace Xv6KernelEvent

open CircularBuffer Runs

instance : NeZero PIPESIZE := ⟨by decide⟩

/-- `pi->data[pi->nwrite++ % PIPESIZE] = ch`. -/
def Pipe.put (pipe : Pipe) (ch : UInt8) : Pipe :=
  { pipe with
    data := pipe.data.set (position PIPESIZE pipe.nwrite.toNat) ch (Fin.isLt _)
    nwrite := pipe.nwrite + 1 }

/-- How the time of a writer under the lock ends. -/
inductive WriteEnd where
  | returned (value : Int)
  | asleep

structure PipeWrite where
  ending : WriteEnd
  pipe : Pipe
  accepted : List UInt8

/-- The loop of `pipewrite`, entered with `remaining` iterations to go and `i`
bytes written.  `fetch i` is the byte that `copyin` gets from `addr + i`. -/
def pipewriteLoop (killed : Nat → Bool) (fetch : Nat → Option UInt8) : Nat → Nat → Pipe → PipeWrite
  | 0, i, pipe => { ending := .returned i, pipe := pipe, accepted := [] }
  | remaining + 1, i, pipe =>
    if pipe.readopen = false ∨ killed i = true then
      { ending := .returned (-1), pipe := pipe, accepted := [] }
    else if pipe.nwrite = pipe.nread + UInt32.ofNat PIPESIZE then
      { ending := .asleep, pipe := pipe, accepted := [] }
    else
      match fetch i with
      | none => { ending := .returned i, pipe := pipe, accepted := [] }
      | some ch =>
        let rest := pipewriteLoop killed fetch remaining (i + 1) (pipe.put ch)
        { rest with accepted := ch :: rest.accepted }

/-- `pipewrite` of `n` bytes, of which `i` are written already, until it
sleeps or returns. -/
def pipewrite (killed : Nat → Bool) (fetch : Nat → Option UInt8) (n : Int)
    (i : Nat) (pipe : Pipe) : PipeWrite :=
  pipewriteLoop killed fetch (n - i).toNat i pipe

theorem pipewriteLoop_fetches (killed : Nat → Bool) (fetch : Nat → Option UInt8)
    (remaining i : Nat) (pipe : Pipe) (entry : UInt8 × Nat)
    (member : entry ∈ (pipewriteLoop killed fetch remaining i pipe).accepted.zipIdx i) :
    fetch entry.2 = some entry.1 := by
  induction remaining generalizing i pipe with
  | zero => simp [pipewriteLoop] at member
  | succ remaining induction =>
    rw [pipewriteLoop] at member
    split at member
    · simp at member
    · split at member
      · simp at member
      · split at member
        · simp at member
        · rename_i ch fetched
          rcases List.mem_cons.mp member with rfl | later
          · exact fetched
          · exact induction (i + 1) _ later

/-- `pipeclose` without the `kfree` of a pipe closed at both ends. -/
def pipeclose (writable : Bool) (pipe : Pipe) : Pipe :=
  if writable then { pipe with writeopen := false }
  else { pipe with readopen := false }

/-- The bytes in the ring, the oldest one first. -/
def Pipe.contents (pipe : Pipe) : List UInt8 :=
  window pipe.data pipe.nread.toNat (pipe.nwrite - pipe.nread).toNat

/-- The bytes that a pass of a reader delivered. -/
def PipeRead.delivered (read : PipeRead) : List UInt8 :=
  (read.attempts.filter Attempt.copied).map fun attempt => read.pipe.byte attempt.cursor

/-- A call of `pipewrite`. -/
inductive WriterCall where
  | idle
  | asleep (n : Int) (i : Nat)
  | finished (value : Int)

/-- A byte taken from a call of `pipewrite`, the `index`-th one of that call. -/
structure AcceptedByte where
  writer : Nat
  index : Nat
  byte : UInt8

structure PipeTraffic where
  pipe : Pipe
  writers : Nat → WriterCall
  accepted : List AcceptedByte
  delivered : List UInt8

inductive PipeStep where
  | write (writer : Nat) (n : Int) (killed : Nat → Bool) (fetch : Nat → Option UInt8)
  | resume (writer : Nat) (killed : Nat → Bool) (fetch : Nat → Option UInt8)
  | read (alloc : Nat → Bool) (killed : Bool) (addr : Nat) (n : Int) (space : UserSpace)
  | close (writable : Bool)

/-- The byte is what the writer of this step has in its memory at that index. -/
def PipeStep.Offers (entry : AcceptedByte) : PipeStep → Prop
  | .write writer _ _ fetch | .resume writer _ fetch =>
    entry.writer = writer ∧ fetch entry.index = some entry.byte
  | _ => False

namespace PipeTraffic

/-- What `pipealloc` leaves in the page that it got. -/
def initial (data : Vector UInt8 PIPESIZE) : PipeTraffic :=
  { pipe :=
      { data := data
        nread := 0
        nwrite := 0
        readopen := true
        writeopen := true }
    writers := fun _ => .idle
    accepted := []
    delivered := [] }

def accept (traffic : PipeTraffic) (writer : Nat) (n : Int) (i : Nat)
    (killed : Nat → Bool) (fetch : Nat → Option UInt8) : PipeTraffic :=
  let write := pipewrite killed fetch n i traffic.pipe
  { pipe := write.pipe
    writers := Function.update traffic.writers writer (match write.ending with
      | .asleep => .asleep n (i + write.accepted.length)
      | .returned value => .finished value)
    accepted := traffic.accepted ++ (write.accepted.zipIdx i).map
      fun (byte, index) => { writer := writer, index := index, byte := byte }
    delivered := traffic.delivered }

def next (traffic : PipeTraffic) : PipeStep → Option PipeTraffic
  | .write writer n killed fetch =>
    match traffic.writers writer with
    | .idle => some (traffic.accept writer n 0 killed fetch)
    | _ => none
  | .resume writer killed fetch =>
    match traffic.writers writer with
    | .asleep n i => some (traffic.accept writer n i killed fetch)
    | _ => none
  | .read alloc killed addr n space =>
    match piperead alloc killed addr n traffic.pipe space with
    | none => some traffic
    | some read =>
      some
        { traffic with
          pipe := read.pipe
          delivered := traffic.delivered ++ read.delivered }
  | .close writable => some { traffic with pipe := pipeclose writable traffic.pipe }

end PipeTraffic

/-- The pipe carries what was accepted and not delivered. -/
structure Carries (pipe : Pipe) (accepted delivered : List UInt8) : Prop where
  nwrite : pipe.nwrite = UInt32.ofNat accepted.length
  nread : pipe.nread = UInt32.ofNat delivered.length
  bound : accepted.length ≤ delivered.length + PIPESIZE
  bytes : accepted = delivered ++
    window pipe.data delivered.length (accepted.length - delivered.length)

/-- A counter names the cell of the number that it has wrapped from. -/
theorem position_ofNat (count : Nat) :
    position PIPESIZE (UInt32.ofNat count).toNat = position PIPESIZE count := by
  have divides : PIPESIZE ∣ 2 ^ 32 := by decide
  apply Fin.ext
  simp only [position, UInt32.toNat_ofNat']
  exact Nat.mod_mod_of_dvd count divides

theorem byte_eq_of_data {pipe other : Pipe} (data : pipe.data = other.data) (cursor : UInt32) :
    pipe.byte cursor = other.byte cursor := by
  rw [Pipe.byte, Pipe.byte, data]

/-- A byte that the loop copies out comes before those of the rest. -/
theorem pipereadCopy_delivered (alloc : Nat → Bool) (addr remaining i : Nat) (pipe : Pipe)
    (space : UserSpace) :
    let rest := pipereadCopy alloc addr remaining i { pipe with nread := pipe.nread + 1 } space
    { rest with attempts := { cursor := pipe.nread, copied := true } :: rest.attempts }.delivered =
      pipe.byte pipe.nread :: rest.delivered := by
  obtain ⟨_, data, _⟩ := pipereadCopy_keepsUndelivered alloc addr remaining i
    { pipe with nread := pipe.nread + 1 } space
  exact congrArg₂ List.cons (byte_eq_of_data data _) rfl

namespace Carries

variable {pipe : Pipe} {accepted delivered : List UInt8}

section

variable (carries : Carries pipe accepted delivered)

include carries

theorem le : delivered.length ≤ accepted.length := by
  have bytes := congrArg List.length carries.bytes
  rw [List.length_append] at bytes
  omega

theorem of_cells (data : other.data = pipe.data) (nread : other.nread = pipe.nread)
    (nwrite : other.nwrite = pipe.nwrite) : Carries other accepted delivered := by
  refine ⟨nwrite.trans carries.nwrite, nread.trans carries.nread, carries.bound, ?_⟩
  rw [data]
  exact carries.bytes

/-- The test for a full ring is exact, although the counters wrap. -/
theorem not_full (differs : pipe.nwrite ≠ pipe.nread + UInt32.ofNat PIPESIZE) :
    accepted.length < delivered.length + PIPESIZE := by
  refine Nat.lt_of_le_of_ne carries.bound ?_
  intro full
  rw [carries.nwrite, carries.nread, full] at differs
  exact differs (UInt32.ofNat_add delivered.length PIPESIZE)

theorem not_empty (differs : pipe.nread ≠ pipe.nwrite) : delivered.length < accepted.length := by
  refine Nat.lt_of_le_of_ne carries.le ?_
  intro same
  rw [carries.nwrite, carries.nread, same] at differs
  exact differs rfl

theorem put (room : accepted.length < delivered.length + PIPESIZE) (ch : UInt8) :
    Carries (pipe.put ch) (accepted ++ [ch]) delivered := by
  have order := carries.le
  refine ⟨?_, carries.nread, ?_, ?_⟩
  · rw [List.length_append, List.length_singleton, UInt32.ofNat_add, ← carries.nwrite]
    rfl
  · rw [List.length_append, List.length_singleton]
    exact room
  · have count : (accepted ++ [ch]).length - delivered.length =
        accepted.length - delivered.length + 1 := by
      rw [List.length_append, List.length_singleton]
      omega
    have cell : position PIPESIZE pipe.nwrite.toNat = position PIPESIZE
        (delivered.length + (accepted.length - delivered.length)) := by
      rw [carries.nwrite, position_ofNat, Nat.add_sub_cancel' order]
    have written := window_set_succ pipe.data delivered.length
      (accepted.length - delivered.length) ch (by omega)
    rw [count]
    simp only [Pipe.put, cell]
    rw [written, ← List.append_assoc, ← carries.bytes]

theorem take (some : delivered.length < accepted.length) :
    Carries { pipe with nread := pipe.nread + 1 } accepted
      (delivered ++ [pipe.byte pipe.nread]) := by
  have count : accepted.length - delivered.length =
      accepted.length - (delivered.length + 1) + 1 := by omega
  have bytes := carries.bytes
  have bound := carries.bound
  rw [count, window_succ] at bytes
  have cell : position PIPESIZE pipe.nread.toNat = position PIPESIZE delivered.length := by
    rw [carries.nread, position_ofNat]
  have head : pipe.byte pipe.nread = pipe.data[position PIPESIZE delivered.length] := by
    simp only [← cell]
    rfl
  refine ⟨carries.nwrite, ?_, ?_, ?_⟩
  · rw [List.length_append, List.length_singleton, UInt32.ofNat_add, ← carries.nread]
    rfl
  · rw [List.length_append, List.length_singleton]
    omega
  · rw [List.length_append, List.length_singleton, List.append_assoc, head]
    exact bytes

theorem write (killed : Nat → Bool) (fetch : Nat → Option UInt8) (remaining i : Nat) :
    Carries (pipewriteLoop killed fetch remaining i pipe).pipe
      (accepted ++ (pipewriteLoop killed fetch remaining i pipe).accepted)
      delivered := by
  induction remaining generalizing i pipe accepted with
  | zero => simpa [pipewriteLoop] using carries
  | succ remaining induction =>
    simp only [pipewriteLoop]
    split
    · simpa using carries
    · split
      · simpa using carries
      · rename_i differs
        split
        · simpa using carries
        · rename_i ch _
          have later := induction (carries.put (carries.not_full differs) ch) (i + 1)
          rwa [List.append_assoc] at later

theorem read (alloc : Nat → Bool) (addr remaining i : Nat) (space : UserSpace) :
    let read := pipereadCopy alloc addr remaining i pipe space
    Carries read.pipe accepted (delivered ++ read.delivered) := by
  induction remaining generalizing i pipe delivered space with
  | zero => simpa [pipereadCopy, PipeRead.delivered] using carries
  | succ remaining induction =>
    simp only [pipereadCopy]
    split
    · simpa [PipeRead.delivered] using carries
    · rename_i differs
      split
      · simpa [PipeRead.delivered] using carries
      · have later := induction (carries.take (carries.not_empty differs)) (i + 1)
          (space.copyout alloc (addr + i) (fun _ => pipe.byte pipe.nread) 1).2
        simp only [List.append_assoc] at later
        rwa [pipereadCopy_delivered]

theorem contents :
    (pipe.nwrite - pipe.nread).toNat ≤ PIPESIZE ∧ accepted = delivered ++ pipe.contents := by
  have order := carries.le
  have bound := carries.bound
  have small : accepted.length - delivered.length < 2 ^ 32 := by
    have : PIPESIZE < 2 ^ 32 := by decide
    omega
  have difference : (pipe.nwrite - pipe.nread).toNat = accepted.length - delivered.length := by
    have split : accepted.length =
        delivered.length + (accepted.length - delivered.length) := by omega
    rw [carries.nwrite, carries.nread, split, UInt32.ofNat_add,
      UInt32.add_comm, UInt32.add_sub_cancel, UInt32.toNat_ofNat',
      Nat.add_sub_cancel_left, Nat.mod_eq_of_lt small]
  have start : window pipe.data pipe.nread.toNat = window pipe.data delivered.length := by
    funext count
    rw [← window_mod, ← window_mod pipe.data delivered.length, carries.nread]
    have cell := congrArg Fin.val (position_ofNat delivered.length)
    simp only [position] at cell
    rw [cell]
  refine ⟨by omega, ?_⟩
  rw [Pipe.contents, difference, start]
  exact carries.bytes

end

end Carries

/-- What `pipewrite` has taken from each call so far, first bytes first. -/
def InOrder (traffic : PipeTraffic) : Prop :=
  ∀ writer, match traffic.writers writer with
    | .idle => traffic.accepted.filter (·.writer = writer) = []
    | .asleep _ i =>
      ((traffic.accepted.filter (·.writer = writer)).map AcceptedByte.index) = List.range i
    | .finished _ => ∃ count, ((traffic.accepted.filter (·.writer = writer)).map
          AcceptedByte.index) = List.range count

namespace PipeTraffic

variable {traffic after : PipeTraffic}

structure Streams (traffic : PipeTraffic) : Prop where
  carries : Carries traffic.pipe (traffic.accepted.map AcceptedByte.byte) traffic.delivered
  ordered : InOrder traffic

theorem initial_streams (data : Vector UInt8 PIPESIZE) : (initial data).Streams := by
  refine ⟨⟨rfl, rfl, ?_, ?_⟩, ?_⟩
  · simp [initial]
  · simp [initial]
  · intro writer
    rfl

/-- A step that takes nothing from writers. -/
theorem Streams.of_pipe (streams : traffic.Streams) {pipe : Pipe} {delivered : List UInt8}
    (carries : Carries pipe (traffic.accepted.map AcceptedByte.byte) delivered) :
    Streams { traffic with pipe := pipe, delivered := delivered } :=
  ⟨carries, streams.ordered⟩

theorem accepted_bytes (writer i : Nat) (bytes : List UInt8) :
    (((bytes.zipIdx i).map fun (byte, index) =>
      ({ writer := writer, index := index, byte := byte } :
        AcceptedByte)).map AcceptedByte.byte) = bytes := by
  rw [List.map_map]
  exact List.zipIdx_map_fst i bytes

theorem accepted_indices (writer i : Nat) (bytes : List UInt8) :
    (((bytes.zipIdx i).map fun (byte, index) =>
      ({ writer := writer, index := index, byte := byte } : AcceptedByte)).map AcceptedByte.index) =
      List.range' i bytes.length := by
  rw [List.map_map]
  exact List.zipIdx_map_snd i bytes

theorem accepted_filter (writer other i : Nat) (bytes : List UInt8) :
    (((bytes.zipIdx i).map fun (byte, index) =>
      ({ writer := writer, index := index, byte := byte } :
        AcceptedByte)).filter (·.writer = other)) =
      if writer = other then (bytes.zipIdx i).map fun (byte, index) =>
        { writer := writer, index := index, byte := byte }
      else [] := by
  split
  · rename_i same
    rw [List.filter_eq_self]
    intro entry member
    obtain ⟨pair, _, rfl⟩ := List.mem_map.mp member
    exact decide_eq_true same
  · rename_i differs
    rw [List.filter_eq_nil_iff]
    intro entry member
    obtain ⟨pair, _, rfl⟩ := List.mem_map.mp member
    simpa using differs

theorem accept_indices (taken : ((traffic.accepted.filter (·.writer = writer)).map
      AcceptedByte.index) = List.range i) :
    (((traffic.accept writer n i killed fetch).accepted.filter
      (·.writer = writer)).map AcceptedByte.index) = List.range
        (i + (pipewrite killed fetch n i traffic.pipe).accepted.length) := by
  simp only [PipeTraffic.accept, List.filter_append, accepted_filter, if_true,
    List.map_append, taken, accepted_indices]
  have joined (count : Nat) :
      List.range' 0 i ++ List.range' (0 + i) count = List.range' 0 (i + count) :=
    List.range'_append_1
  rw [List.range_eq_range', List.range_eq_range', ← joined, Nat.zero_add]

theorem accept_others (differs : writer ≠ other) :
    (traffic.accept writer n i killed fetch).accepted.filter
      (·.writer = other) = traffic.accepted.filter (·.writer = other) := by
  simp only [PipeTraffic.accept, List.filter_append, accepted_filter,
    if_neg differs, List.append_nil]

/-- A writer goes on behind the bytes that were taken from it. -/
theorem Streams.accept (streams : traffic.Streams)
    (taken : ((traffic.accepted.filter (·.writer = writer)).map AcceptedByte.index) = List.range i)
    (killed : Nat → Bool) (fetch : Nat → Option UInt8) :
    (traffic.accept writer n i killed fetch).Streams := by
  constructor
  · simp only [PipeTraffic.accept, List.map_append, accepted_bytes]
    exact streams.carries.write killed fetch _ i
  · intro other
    by_cases same : writer = other
    · subst other
      have indices : (((traffic.accept writer n i killed
          fetch).accepted.filter (·.writer = writer)).map
            AcceptedByte.index) = _ := accept_indices taken
      have call : (traffic.accept writer n i killed fetch).writers writer =
          match (pipewrite killed fetch n i traffic.pipe).ending with
          | .asleep => .asleep n (i + (pipewrite killed fetch n i traffic.pipe).accepted.length)
          | .returned value => .finished value := Function.update_self ..
      cases ending : (pipewrite killed fetch n i traffic.pipe).ending with
      | asleep =>
        rw [ending] at call
        rw [call]
        exact indices
      | returned value =>
        rw [ending] at call
        rw [call]
        exact ⟨_, indices⟩
    · have call : (traffic.accept writer n i killed fetch).writers other = traffic.writers other :=
        Function.update_of_ne (fun equal => same equal.symm) _ _
      rw [call, accept_others same]
      exact streams.ordered other

theorem accept_offers (traffic : PipeTraffic) (writer i : Nat) (n : Int) (killed : Nat → Bool)
    (fetch : Nat → Option UInt8) : ∃ taken,
    (traffic.accept writer n i killed fetch).accepted = traffic.accepted ++ taken ∧
      ∀ entry ∈ taken, entry.writer = writer ∧ fetch entry.index = some entry.byte := by
  refine ⟨_, rfl, fun entry member => ?_⟩
  obtain ⟨⟨byte, index⟩, found, rfl⟩ := List.mem_map.mp member
  exact ⟨rfl, pipewriteLoop_fetches _ _ _ _ _ _ found⟩

/-- Only a writer adds bytes, and they are its own. -/
theorem next_offers (steps : traffic.next step = some after) :
    ∃ taken, after.accepted = traffic.accepted ++ taken ∧ ∀ entry ∈ taken, step.Offers entry := by
  cases step with
  | write writer n killed fetch =>
    simp only [PipeTraffic.next] at steps
    split at steps
    · cases steps
      exact accept_offers ..
    · cases steps
  | resume writer killed fetch =>
    simp only [PipeTraffic.next] at steps
    split at steps
    · cases steps
      exact accept_offers ..
    · cases steps
  | read alloc killed addr n space =>
    simp only [PipeTraffic.next] at steps
    split at steps
    · cases steps
      exact ⟨[], by simp⟩
    · cases steps
      exact ⟨[], by simp⟩
  | close writable =>
    cases steps
    exact ⟨[], by simp⟩

/-- A pass of a reader delivers the next bytes. -/
theorem Streams.read (streams : traffic.Streams) {read : PipeRead}
    (returns : piperead alloc killed addr n traffic.pipe space = some read) :
    Streams { traffic with
      pipe := read.pipe
      delivered := traffic.delivered ++ read.delivered } := by
  apply streams.of_pipe
  unfold piperead at returns
  split at returns
  · split at returns
    · cases returns
      simpa [PipeRead.delivered] using streams.carries
    · cases returns
  · cases returns
    exact streams.carries.read alloc addr n.toNat 0 space

theorem Streams.next (streams : traffic.Streams)
    (steps : traffic.next step = some after) : after.Streams := by
  cases step with
  | write writer n killed fetch =>
    cases call : traffic.writers writer with
    | idle =>
      simp only [PipeTraffic.next, call, Option.some.injEq] at steps
      subst steps
      have none := streams.ordered writer
      rw [call] at none
      refine streams.accept ?_ killed fetch
      rw [none]
      rfl
    | _ => simp [PipeTraffic.next, call] at steps
  | resume writer killed fetch =>
    cases call : traffic.writers writer with
    | idle | finished value => simp [PipeTraffic.next, call] at steps
    | asleep n i =>
      simp only [PipeTraffic.next, call, Option.some.injEq] at steps
      subst steps
      have taken := streams.ordered writer
      rw [call] at taken
      exact streams.accept taken killed fetch
  | read alloc killed addr n space =>
    cases returns : piperead alloc killed addr n traffic.pipe space with
    | none =>
      simp only [PipeTraffic.next, returns, Option.some.injEq] at steps
      exact steps ▸ streams
    | some read =>
      simp only [PipeTraffic.next, returns, Option.some.injEq] at steps
      subst steps
      exact streams.read returns
  | close writable =>
    simp only [PipeTraffic.next, Option.some.injEq] at steps
    subst steps
    apply streams.of_pipe
    cases writable with
    | false | true => exact streams.carries.of_cells rfl rfl rfl

end PipeTraffic

theorem pipereadCopy_value (alloc : Nat → Bool) (addr remaining i : Nat) (pipe : Pipe)
    (space : UserSpace) :
    let read := pipereadCopy alloc addr remaining i pipe space
    read.value = i + read.delivered.length ∨ i = 0 ∧ read.value = -1 ∧ read.delivered = [] := by
  induction remaining generalizing i pipe space with
  | zero => simp [pipereadCopy, PipeRead.delivered]
  | succ remaining induction =>
    simp only [pipereadCopy]
    split
    · simp [PipeRead.delivered]
    · split
      · by_cases first : i = 0
        · simp [PipeRead.delivered, first]
        · simp [PipeRead.delivered, first]
      · rcases induction (i + 1) { pipe with nread := pipe.nread + 1 }
          (space.copyout alloc (addr + i) (fun _ => pipe.byte pipe.nread) 1).2 with more | first
        · left
          rw [pipereadCopy_delivered, List.length_cons]
          simp only [more]
          push_cast
          omega
        · exact absurd first.1 (Nat.succ_ne_zero i)

/-- The delivered bytes stand in the reader's memory, one behind the other; the
rest of it is as before. -/
structure ReadInto (addr : Nat) (before : UserSpace) (delivered : List UInt8)
    (after : UserSpace) : Prop where
  stores : ∀ i byte, delivered[i]? = some byte → after.load (addr + i) = some byte
  keeps : ∀ va byte, (va < addr ∨ addr + delivered.length ≤ va) →
    before.load va = some byte → after.load va = some byte

theorem ReadInto.nil (kept : ∀ va byte, before.load va = some byte → after.load va = some byte) :
    ReadInto addr before [] after :=
  ⟨nofun, fun va byte _ => kept va byte⟩

theorem ReadInto.cons (stored : next.load addr = some byte)
    (kept : ∀ va old, va ≠ addr → before.load va = some old → next.load va = some old)
    (rest : ReadInto (addr + 1) next bytes after) : ReadInto addr before (byte :: bytes) after := by
  constructor
  · intro i old delivered
    cases i with
    | zero =>
      cases delivered
      exact rest.keeps addr byte (.inl (Nat.lt_succ_self addr)) stored
    | succ i =>
      rw [Nat.add_comm i, ← Nat.add_assoc]
      exact rest.stores i old delivered
  · intro va old outside loaded
    rw [List.length_cons] at outside
    exact rest.keeps va old (by omega) (kept va old (by omega) loaded)

theorem pipereadCopy_readInto (alloc : Nat → Bool) (addr remaining i : Nat) (pipe : Pipe)
    (space : UserSpace) :
    let read := pipereadCopy alloc addr remaining i pipe space
    ReadInto (addr + i) space read.delivered read.space := by
  induction remaining generalizing i pipe space with
  | zero => exact .nil fun va byte loaded => loaded
  | succ remaining induction =>
    obtain ⟨stored, kept⟩ := space.load_copyout_byte alloc (addr + i) (pipe.byte pipe.nread)
    simp only [pipereadCopy]
    split
    · exact .nil fun va byte loaded => loaded
    · split
      · rename_i failed
        exact .nil fun va byte => kept va byte (.inl failed)
      · rename_i success
        rw [pipereadCopy_delivered]
        exact .cons (stored success) (fun va old other => kept va old (.inr other))
          (induction (i + 1) _ _)

/-- A reader that asks for something is told that there is nothing only at
the end of the stream. -/
theorem piperead_zero {alloc : Nat → Bool} {killed : Bool} {addr : Nat} {n : Int} {pipe : Pipe}
    {space : UserSpace} {read : PipeRead}
    (returns : piperead alloc killed addr n pipe space = some read)
    (positive : 0 < n) (zero : read.value = 0) :
    pipe.nread = pipe.nwrite ∧ pipe.writeopen = false := by
  unfold piperead at returns
  split at returns
  · split at returns
    · cases returns
      simp at zero
    · cases returns
  · rename_i open_or_filled
    cases returns
    obtain ⟨remaining, count⟩ : ∃ remaining, n.toNat = remaining + 1 := ⟨n.toNat - 1, by omega⟩
    rw [count] at zero
    simp only [pipereadCopy] at zero
    split at zero
    · rename_i empty
      refine ⟨empty, ?_⟩
      simpa [empty] using open_or_filled
    · split at zero
      · simp at zero
      · simp only at zero
        rcases pipereadCopy_value alloc addr remaining 1 { pipe with nread := pipe.nread + 1 }
            (space.copyout alloc (addr + 0) (fun _ => pipe.byte pipe.nread) 1).2 with more | first
        · rw [zero_add] at zero
          omega
        · omega

theorem piperead_readInto {read : PipeRead}
    (returns : piperead alloc killed addr n pipe space = some read) :
    ReadInto addr space read.delivered read.space := by
  unfold piperead at returns
  split at returns
  · split at returns
    · cases returns
      exact .nil fun va byte loaded => loaded
    · cases returns
  · cases returns
    exact pipereadCopy_readInto alloc addr n.toNat 0 pipe space

/-- What a call of `piperead` returns is the number of bytes it delivered. -/
theorem piperead_value {alloc : Nat → Bool} {killed : Bool} {addr : Nat} {n : Int} {pipe : Pipe}
    {space : UserSpace} {read : PipeRead}
    (returns : piperead alloc killed addr n pipe space = some read) :
    read.value = read.delivered.length ∨ read.value = -1 ∧ read.delivered = [] := by
  unfold piperead at returns
  split at returns
  · split at returns
    · cases returns
      exact .inr ⟨rfl, rfl⟩
    · cases returns
  · cases returns
    rcases pipereadCopy_value alloc addr n.toNat 0 pipe space with more | none
    · left
      simpa using more
    · exact .inr none.2

open PipeTraffic in
/-- Whatever calls of `pipewrite`, `piperead` and `pipeclose` run on a pipe and
however they interleave: the counters are at most `PIPESIZE` apart, the bytes
accepted are those delivered and then those in the ring, and the bytes of each
call are taken in its own order, each one as the writer has it in its memory.
A reader has the delivered bytes in its memory, is told how many they are, and
gets zero only at the end of the stream. -/
theorem pipes_are_fifo_streams {data : Vector UInt8 PIPESIZE} {steps : List PipeStep}
    {traffic : PipeTraffic}
    (runs : run PipeTraffic.next (PipeTraffic.initial data) steps = some traffic) :
    (traffic.pipe.nwrite - traffic.pipe.nread).toNat ≤ PIPESIZE ∧
      traffic.accepted.map AcceptedByte.byte = traffic.delivered ++ traffic.pipe.contents ∧
      (∀ writer, ∃ count, ((traffic.accepted.filter (·.writer = writer)).map
          AcceptedByte.index) = List.range count) ∧
      (∀ (step : PipeStep) (after : PipeTraffic), traffic.next step = some after →
        ∃ taken, after.accepted = traffic.accepted ++ taken ∧
          ∀ entry ∈ taken, step.Offers entry) ∧
      ∀ (alloc : Nat → Bool) (killed : Bool) (addr : Nat) (n : Int)
        (space : UserSpace) (read : PipeRead),
        piperead alloc killed addr n traffic.pipe space = some read →
        ReadInto addr space read.delivered read.space ∧
        (read.value = read.delivered.length ∨ read.value = -1 ∧ read.delivered = []) ∧
        (0 < n → read.value = 0 → traffic.pipe.contents = [] ∧ traffic.pipe.writeopen = false) := by
  have streams : traffic.Streams :=
    run_invariant (fun streams steps => streams.next steps) runs (initial_streams data)
  obtain ⟨apart, bytes⟩ := streams.carries.contents
  refine ⟨apart, bytes, ?_, fun step after => next_offers, ?_⟩
  · intro writer
    have taken := streams.ordered writer
    cases call : traffic.writers writer with
    | idle =>
      rw [call] at taken
      exact ⟨0, by rw [taken]; rfl⟩
    | asleep n i =>
      rw [call] at taken
      exact ⟨i, taken⟩
    | finished value =>
      rw [call] at taken
      exact taken
  · intro alloc killed addr n space read returns
    refine ⟨piperead_readInto returns, piperead_value returns, fun positive zero => ?_⟩
    obtain ⟨empty, closed⟩ := piperead_zero returns positive zero
    refine ⟨?_, closed⟩
    rw [Pipe.contents, empty, UInt32.sub_self]
    rfl

/-- A process whose first page is not mapped yet. -/
def freshReader : UserSpace := { sz := PGSIZE, page := fun _ => none }

/-- Two writers take turns with a reader that asks for two bytes. -/
def twoWriters : List PipeStep :=
  [.write 1 1 (fun _ => false) (fun _ => some 7),
    .write 2 2 (fun _ => false) (fun i => some (UInt8.ofNat i)),
    .read (fun _ => true) false 0 2 freshReader]

theorem pipes_are_fifo_streams_twoWriters : ∃ traffic read,
      run PipeTraffic.next (.initial (Vector.replicate PIPESIZE 0)) twoWriters = some traffic ∧
      traffic.delivered = [7, 0] ∧
      [7, 0, 1] = traffic.delivered ++ traffic.pipe.contents ∧
      piperead (fun _ => true) false 5 2 traffic.pipe freshReader = some read ∧
      read.space.load 5 = some 1 := by
  have facts : (run PipeTraffic.next (.initial (Vector.replicate PIPESIZE 0)) twoWriters).any
      (fun traffic => decide (traffic.delivered = [7, 0] ∧
        traffic.accepted.map AcceptedByte.byte = [7, 0, 1] ∧
        (piperead (fun _ => true) false 5 2 traffic.pipe freshReader).any
          fun read => decide (read.delivered = [1]))) = true := by
    decide +kernel
  rw [Option.any_eq_true] at facts
  obtain ⟨traffic, runs, found⟩ := facts
  obtain ⟨delivered, accepted, reads⟩ := of_decide_eq_true found
  rw [Option.any_eq_true] at reads
  obtain ⟨read, returns, last⟩ := reads
  obtain ⟨_, bytes, _, _, reader⟩ := pipes_are_fifo_streams runs
  have stored := (reader _ _ _ _ _ _ returns).1.stores 0 1 (by rw [of_decide_eq_true last]; rfl)
  exact ⟨traffic, read, runs, delivered, accepted ▸ bytes, returns, stored⟩

end Xv6KernelEvent
