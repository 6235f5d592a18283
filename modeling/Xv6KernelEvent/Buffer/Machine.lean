import Xv6KernelEvent.Buffer.Cache
import Xv6KernelEvent.Log.Protocol

/-!
# The log over the buffer cache

The log of `kernel/log.c` with its buffers in the `NBUF` slots of
`kernel/bio.c`.  A `bread` takes its buffer when the sleep-lock is free; an
iteration of `write_log` or `install_trans` reads its two blocks, writes one
and releases both.  `bget` may find no buffer to recycle, which stops the
machine.

Contents, references and holders are also those of a `LogMachine`, the `view`
of the machine, in which slots do not matter.
-/

namespace Xv6KernelEvent

open LinkedRing

/-- `log.dev`. -/
def LOGDEV : Nat := 1

/-- How a `bread` goes on. -/
inductive Bread where
  | panics
  | waits
  | reads (index : Fin NBUF) (cache : BufferCache)

namespace BufferCache

/-- `bread` of a block of the log's device. -/
def bread (cache : BufferCache) (disk : Nat → Block) (block : Nat) : Bread :=
  match cache.bget LOGDEV block with
  | none => .panics
  | some (index, cache) =>
    let buf := cache.buf index
    if buf.holder = none then
      if buf.valid then .reads index cache
      else .reads index (cache.setBuf index { buf with valid := true, data := disk block })
    else .waits

end BufferCache

structure BufferedLog where
  start : Nat
  disk : Nat → Block
  cache : BufferCache
  lh : List Nat
  outstanding : Nat
  phase : LogPhase
  active : List Nat
  unlogged : List Nat

def CacheBuf.view (buf : CacheBuf) : Buf :=
  { data := buf.data, refcnt := buf.refcnt.toNat, holder := buf.holder }

/-- The buffer of a block. -/
def BufferCache.lookup (cache : BufferCache) (block : Nat) : Option Buf :=
  (cache.findCached LOGDEV block).map fun index => (cache.buf index).view

namespace BufferedLog

variable (log : BufferedLog)

def view : LogMachine :=
  { start := log.start
    disk := log.disk
    cache := log.cache.lookup
    lh := log.lh
    outstanding := log.outstanding
    phase := log.phase
    active := log.active
    unlogged := log.unlogged }

def panic : BufferedLog := { log with phase := .stopped }

def setPhase (phase : LogPhase) : BufferedLog := { log with phase := phase }

/-- `begin_op` and `end_op` use no buffers. -/
def adopt (machine : LogMachine) : BufferedLog :=
  { log with
    outstanding := machine.outstanding
    phase := machine.phase
    active := machine.active }

def bread (process block : Nat) : Option BufferedLog :=
  match log.cache.bread log.disk block with
  | .panics => some log.panic
  | .waits => none
  | .reads index cache =>
    some
      { log with
        cache := cache.setBuf index { cache.buf index with holder := some process } }

/-- The buffer of a block that the process has read and not released. -/
def held (process block : Nat) : Option (Fin NBUF) := do
  let index ← log.cache.findCached LOGDEV block
  if (log.cache.buf index).holder = some process then some index else none

def brelse (process block : Nat) : Option BufferedLog := do
  let index ← log.held process block
  some { log with cache := log.cache.brelse index }

def modify (process block : Nat) (data : Block) : Option BufferedLog := do
  let index ← log.held process block
  some
    { log with
      cache := log.cache.setBuf index { log.cache.buf index with data := data }
      unlogged := block :: log.unlogged }

def logWrite (process block : Nat) : Option BufferedLog := do
  let index ← log.held process block
  if log.lh.length ≥ LOGBLOCKS then some log.panic
  else if log.outstanding < 1 then some log.panic
  else if block ∈ log.lh then some { log with unlogged := log.unlogged.filter (· ≠ block) }
  else
    some
      { log with
        cache := log.cache.bpin index
        lh := log.lh ++ [block]
        unlogged := log.unlogged.filter (· ≠ block) }

/-- Two `bread`s, the second one with the first buffer locked. -/
def breadTwo (first second : Nat) (finish : Fin NBUF → Fin NBUF → BufferCache → BufferedLog) :
    Option BufferedLog :=
  match log.cache.bread log.disk first with
  | .panics => some log.panic
  | .waits => none
  | .reads one cache =>
    match cache.bread log.disk second with
    | .panics => some log.panic
    | .waits => none
    | .reads two cache => if two = one then none else some (finish one two cache)

/-- An iteration of `write_log`. -/
def writeLogBlock (tail block : Nat) : Option BufferedLog :=
  log.breadTwo (log.start + tail + 1) block fun target source cache =>
    let data := (cache.buf source).data
    let copied := cache.setBuf target { cache.buf target with data := data }
    { log with
      disk := Function.update log.disk (log.start + tail + 1) data
      cache := (copied.brelse source).brelse target }

/-- An iteration of `install_trans(0)`. -/
def installBlock (tail block : Nat) : Option BufferedLog :=
  log.breadTwo (log.start + tail + 1) block fun lbuf dbuf cache =>
    let data := (cache.buf lbuf).data
    let copied := cache.setBuf dbuf { cache.buf dbuf with data := data }
    { log with
      disk := Function.update log.disk block data
      cache := ((copied.bunpin dbuf).brelse lbuf).brelse dbuf }

def writeHead : Option BufferedLog :=
  match log.cache.bread log.disk log.start with
  | .panics => some log.panic
  | .waits => none
  | .reads index cache =>
    let data := Header.put log.lh (cache.buf index).data
    let written := cache.setBuf index { cache.buf index with data := data }
    some
      { log with
        disk := Function.update log.disk log.start data
        cache := written.brelse index }

/-- The commit goes on unless it has stopped. -/
def goOn (phase : LogPhase) : BufferedLog :=
  if log.phase = .stopped then log else log.setPhase phase

/-- The next step of `commit` and of the end of `end_op`. -/
def commit : Option BufferedLog :=
  match log.phase with
  | .committing (.writeLog tail) =>
    match log.lh[tail]? with
    | some block => do
      let next ← log.writeLogBlock tail block
      some (next.goOn (.committing (.writeLog (tail + 1))))
    | none => some (log.setPhase (.committing .writeHead))
  | .committing .writeHead => do
    let next ← log.writeHead
    some (next.goOn (.committing (.installTrans 0)))
  | .committing (.installTrans tail) =>
    match log.lh[tail]? with
    | some block => do
      let next ← log.installBlock tail block
      some (next.goOn (.committing (.installTrans (tail + 1))))
    | none => some { log with lh := [], phase := .committing .clearHead }
  | .committing .clearHead => do
    let next ← log.writeHead
    some (next.goOn (.committing .finish))
  | .committing .finish => some (log.setPhase .running)
  | _ => none

/-- Buffers are recycled by `bget` only, and the log has been recovered. -/
def perform : LogStep → Option BufferedLog
  | .beginOp process => (log.view.beginOp process).map log.adopt
  | .bread process block => log.bread process block
  | .modify process block data => log.modify process block data
  | .logWrite process block => log.logWrite process block
  | .brelse process block => log.brelse process block
  | .endOp process => (log.view.endOp process).map log.adopt
  | .evict _ => none
  | .commit => log.commit
  | .recover | .crash => none

/-- The machine after `binit` and the recovery of the log. -/
def initial (start : Nat) (disk : Nat → Block) : BufferedLog :=
  { start := start
    disk := disk
    cache := .binit
    lh := []
    outstanding := 0
    phase := .running
    active := []
    unlogged := [] }

end BufferedLog

end Xv6KernelEvent
