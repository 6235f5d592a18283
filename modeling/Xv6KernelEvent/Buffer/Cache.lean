import Mathlib.Data.List.FinRange
import Mathlib.Data.List.Induction
import Xv6KernelEvent.Library.LinkedRing
import Xv6KernelEvent.Log.Header

/-!
# The buffer cache

`kernel/bio.c`: `NBUF` buffers on a ring of `prev` and `next` links, searched
from the head for a block and from its other end for a buffer to recycle.  The
parts of `bget` and `brelse` under `bcache.lock` are single steps here, and so
are `bpin` and `bunpin`.
-/

namespace Xv6KernelEvent

open LinkedRing

def NBUF : Nat := MAXOPBLOCKS * 3

instance : NeZero NBUF := ⟨by decide⟩

/-- `struct buf` without its links.  `holder` is the process that holds its
sleep-lock. -/
structure CacheBuf where
  valid : Bool
  dev : Nat
  blockno : Nat
  refcnt : UInt32
  data : Block
  holder : Option Nat

/-- A buffer of `bcache.buf`, or `bcache.head`. -/
abbrev BufNode : Type := Option (Fin NBUF)

structure BufferCache where
  buf : Fin NBUF → CacheBuf
  links : Links BufNode

namespace BufferCache

def head : BufNode := none

/-- Static storage is zero. -/
def zeroBuf : CacheBuf :=
  { valid := false
    dev := 0
    blockno := 0
    refcnt := 0
    data := Vector.replicate BSIZE 0
    holder := none }

/-- `binit` after some of its iterations. -/
def binitLinks (done : List (Fin NBUF)) : Links BufNode :=
  done.foldl (fun links index => links.insertAfter head (some index))
    { prev := fun _ => head, next := fun _ => head }

def binit : BufferCache := { buf := fun _ => zeroBuf, links := binitLinks (List.finRange NBUF) }

variable (cache : BufferCache)

def setBuf (index : Fin NBUF) (buf : CacheBuf) : BufferCache :=
  { cache with buf := Function.update cache.buf index buf }

/-- The buffer holds the block. -/
def caches (dev blockno : Nat) (node : BufNode) : Bool :=
  node.any fun index => decide ((cache.buf index).dev = dev ∧ (cache.buf index).blockno = blockno)

def unreferenced (node : BufNode) : Bool :=
  node.any fun index => decide ((cache.buf index).refcnt = 0)

/-- The first loop of `bget`. -/
def findCached (dev blockno : Nat) : Option (Fin NBUF) :=
  (Links.search cache.links.next head (cache.caches dev blockno) (NBUF + 1)
    (cache.links.next head)).join

/-- The second loop of `bget`. -/
def findUnused : Option (Fin NBUF) :=
  (Links.search cache.links.prev head cache.unreferenced (NBUF + 1) (cache.links.prev head)).join

/-- `bget` up to its `acquiresleep`; `none` is the panic `"bget: no
buffers"`. -/
def bget (dev blockno : Nat) : Option (Fin NBUF × BufferCache) :=
  match cache.findCached dev blockno with
  | some index =>
    let buf := cache.buf index
    some (index, cache.setBuf index { buf with refcnt := buf.refcnt + 1 })
  | none =>
    match cache.findUnused with
    | some index =>
      some (index, cache.setBuf index
        { cache.buf index with
          dev := dev
          blockno := blockno
          valid := false
          refcnt := 1 })
    | none => none

/-- `brelse` by the holder of the sleep-lock. -/
def brelse (index : Fin NBUF) : BufferCache :=
  let buf := cache.buf index
  let released := cache.setBuf index { buf with refcnt := buf.refcnt - 1, holder := none }
  if buf.refcnt - 1 = 0 then
    { released with
      links := (cache.links.unlink (some index)).insertAfter head (some index) }
  else released

def bpin (index : Fin NBUF) : BufferCache :=
  let buf := cache.buf index
  cache.setBuf index { buf with refcnt := buf.refcnt + 1 }

def bunpin (index : Fin NBUF) : BufferCache :=
  let buf := cache.buf index
  cache.setBuf index { buf with refcnt := buf.refcnt - 1 }

/-- The links form one ring of the head and all buffers, in this order from
`head.next`. -/
structure Ordered (order : List (Fin NBUF)) : Prop where
  ring : cache.links.IsRing head (order.map some)
  complete : ∀ index, index ∈ order

variable {cache}

section

variable {order : List (Fin NBUF)}

section

variable (ordered : cache.Ordered order)

include ordered

theorem Ordered.nodup : order.Nodup :=
  (List.nodup_cons.mp ordered.ring.distinct).2.of_map some

theorem Ordered.perm : order.Perm (List.finRange NBUF) := by
  rw [List.perm_ext_iff_of_nodup ordered.nodup (List.nodup_finRange NBUF)]
  intro index
  simp [ordered.complete index]

theorem Ordered.length : order.length = NBUF := by
  rw [ordered.perm.length_eq, List.length_finRange]

theorem Ordered.of_links {other : BufferCache}
    (links : other.links = cache.links) : other.Ordered order := by
  refine ⟨?_, ordered.complete⟩
  rw [links]
  exact ordered.ring

theorem Ordered.findCached (dev blockno : Nat) :
    cache.findCached dev blockno = order.find? fun index => decide ((cache.buf index).dev = dev ∧
        (cache.buf index).blockno = blockno) := by
  rw [BufferCache.findCached, ordered.ring.search_next _ (by simp [ordered.length]), List.find?_map]
  cases found : order.find? (cache.caches dev blockno ∘ some) with
  | none | some index => exact found.symm

theorem Ordered.findUnused : cache.findUnused =
      order.reverse.find? fun index =>
        decide ((cache.buf index).refcnt = 0) := by
  rw [BufferCache.findUnused, ordered.ring.search_prev _
    (by simp [ordered.length]), ← List.map_reverse, List.find?_map]
  cases found : order.reverse.find? (cache.unreferenced ∘ some) with
  | none | some index => exact found.symm

/-- The buffer goes to the front. -/
theorem Ordered.move (index : Fin NBUF) :
    ((cache.links.unlink (some index)).insertAfter head (some index)).IsRing
        head ((index :: order.erase index).map some) := by
  obtain ⟨front, back, rfl⟩ := List.append_of_mem (ordered.complete index)
  have nodup := ordered.nodup
  have absent : index ∉ front := by
    intro member
    exact (List.nodup_append.mp nodup).2.2 index member index List.mem_cons_self rfl
  have ring := ordered.ring
  rw [List.map_append, List.map_cons] at ring
  rw [List.erase_append_right _ absent, List.erase_cons_head, List.map_cons, List.map_append]
  refine ring.unlink.insertAfter ?_
  obtain ⟨away, inner⟩ := List.nodup_cons.mp ring.distinct
  intro member
  rcases List.mem_cons.mp member with isHead | inside
  · cases isHead
  · have split := List.nodup_append.mp nodup
    simp only [List.mem_append, List.mem_map, Option.some.injEq, exists_eq_right] at inside
    rcases inside with early | late
    · exact absent early
    · exact (List.nodup_cons.mp split.2.1).1 late

end

end

theorem binitLinks_ring (done : List (Fin NBUF)) (nodup : done.Nodup) :
    (binitLinks done).IsRing head (done.reverse.map some) := by
  induction done using List.reverseRecOn with
  | nil => exact ⟨⟨rfl, rfl⟩, List.nodup_singleton _⟩
  | append_singleton done index induction =>
    obtain ⟨earlier, -, apart⟩ := List.nodup_append.mp nodup
    rw [binitLinks, List.foldl_append, List.reverse_append]
    refine (induction earlier).insertAfter ?_
    intro member
    rcases List.mem_cons.mp member with isHead | inside
    · cases isHead
    · obtain ⟨other, found, same⟩ := List.mem_map.mp inside
      rw [List.mem_reverse] at found
      exact apart other found index (by simp) (Option.some.inj same)

theorem binit_ordered : binit.Ordered (List.finRange NBUF).reverse :=
  ⟨binitLinks_ring _ (List.nodup_finRange NBUF), by simp⟩

end BufferCache

end Xv6KernelEvent
