import Xv6KernelEvent.Library.Custody
import Xv6KernelEvent.Log.Header

/-!
# Blocks and inodes

The storage layer of `kernel/fs.c`: the free map, the block lists of inodes, and
reading and writing their contents.  A block is what `bread` returns for it.
Inodes are the valid ones in memory; `iupdate`, which copies them to disk, is
left out.

Block numbers and sizes are 32-bit words in the source.  They are natural
numbers here, with the remainder taken where a sum may wrap.
-/

namespace Xv6KernelEvent

open CString Custody

def NDIRECT : Nat := 12

def NINDIRECT : Nat := BSIZE / 4

def MAXFILE : Nat := NDIRECT + NINDIRECT

/-- Bitmap bits per block. -/
def BPB : Nat := BSIZE * 8

/-- The fields of `struct superblock` that these functions use. -/
structure Superblock where
  size : Nat
  nblocks : Nat
  ninodes : Nat
  bmapstart : Nat

namespace Superblock

/-- The first data block; the blocks before it hold metadata. -/
def datastart (sb : Superblock) : Nat := sb.size - sb.nblocks

/-- `BBLOCK(b, sb)`. -/
def bblock (sb : Superblock) (b : Nat) : Nat := b / BPB + sb.bmapstart

end Superblock

/-- An inode; it is allocated if its type is not 0. -/
structure Inode where
  type : Nat
  size : Nat
  addrs : Nat → Nat

structure Volume where
  block : Nat → Block
  inode : Nat → Inode

namespace Volume

def setBlock (vol : Volume) (number : Nat) (data : Block) : Volume :=
  { vol with block := Function.update vol.block number data }

def setInode (vol : Volume) (inum : Nat) (ip : Inode) : Volume :=
  { vol with inode := Function.update vol.inode inum ip }

/-- `1 << (bi % 8)`. -/
def mask (b : Nat) : UInt8 := 1 <<< UInt8.ofNat (b % 8)

/-- `bp->data[bi/8]` for the bit of block `b`. -/
def bitmapByte (sb : Superblock) (vol : Volume) (b : Nat) : UInt8 :=
  byteAt (vol.block (sb.bblock b)) (b % BPB / 8)

def setBitmapByte (sb : Superblock) (vol : Volume) (b : Nat) (byte : UInt8) : Volume :=
  vol.setBlock (sb.bblock b) ((vol.block (sb.bblock b)).setIfInBounds (b % BPB / 8) byte)

/-- The bit of block `b` is set. -/
def inUse (sb : Superblock) (vol : Volume) (b : Nat) : Bool := vol.bitmapByte sb b &&& mask b != 0

def zeroBlock : Block := Vector.replicate BSIZE 0

def bzero (vol : Volume) (b : Nat) : Volume := vol.setBlock b zeroBlock

/-- `balloc`.  Its two loops together visit the blocks one after the other. -/
def balloc (sb : Superblock) (vol : Volume) : Nat × Volume :=
  match (List.range sb.size).find? fun b => !vol.inUse sb b with
  | none => (0, vol)
  | some b => (b, (vol.setBitmapByte sb b (vol.bitmapByte sb b ||| mask b)).bzero b)

def bfree (sb : Superblock) (b : Nat) (vol : Volume) : Except String Volume :=
  if vol.bitmapByte sb b &&& mask b = 0 then .error "freeing free block"
  else .ok (vol.setBitmapByte sb b (vol.bitmapByte sb b &&& ~~~mask b))

def setAddr (vol : Volume) (inum index addr : Nat) : Volume :=
  vol.setInode inum
    { vol.inode inum with
      addrs := Function.update (vol.inode inum).addrs index addr }

/-- `ip->addrs[index]`, allocated if it is 0. -/
def mapAddr (sb : Superblock) (inum index : Nat) (vol : Volume) : Nat × Volume :=
  if (vol.inode inum).addrs index = 0 then
    match vol.balloc sb with
    | (0, vol) => (0, vol)
    | (addr, vol) => (addr, vol.setAddr inum index addr)
  else ((vol.inode inum).addrs index, vol)

/-- `a[bn]` of the indirect block `number`, allocated if it is 0. -/
def mapEntry (sb : Superblock) (number bn : Nat) (vol : Volume) : Nat × Volume :=
  if Header.word (vol.block number) bn = 0 then
    match vol.balloc sb with
    | (0, vol) => (0, vol)
    | (addr, vol) => (addr, vol.setBlock number (Header.setWord (vol.block number) bn addr))
  else (Header.word (vol.block number) bn, vol)

def bmap (sb : Superblock) (inum bn : Nat) (vol : Volume) : Except String (Nat × Volume) :=
  if bn < NDIRECT then .ok (vol.mapAddr sb inum bn)
  else if bn - NDIRECT < NINDIRECT then
    match vol.mapAddr sb inum NDIRECT with
    | (0, vol) => .ok (0, vol)
    | (addr, vol) => .ok (vol.mapEntry sb addr (bn - NDIRECT))
  else .error "bmap: out of range"

/-- `bfree` of the non-zero addresses of a list. -/
def bfreeAll (sb : Superblock) : List Nat → Volume → Except String Volume
  | [], vol => .ok vol
  | addr :: addrs, vol =>
    if addr = 0 then bfreeAll sb addrs vol
    else
      match vol.bfree sb addr with
      | .error reason => .error reason
      | .ok vol => bfreeAll sb addrs vol

/-- The blocks of the indirect block, and the indirect block itself. -/
def itruncIndirect (sb : Superblock) (addr : Nat) (vol : Volume) : Except String Volume :=
  if addr = 0 then .ok vol
  else
    match vol.bfreeAll sb ((List.range NINDIRECT).map (Header.word (vol.block addr))) with
    | .error reason => .error reason
    | .ok vol => vol.bfree sb addr

/-- `itrunc`.  The addresses that it clears one by one are cleared at its
end. -/
def itrunc (sb : Superblock) (inum : Nat) (vol : Volume) : Except String Volume :=
  let ip := vol.inode inum
  match vol.bfreeAll sb ((List.range NDIRECT).map ip.addrs) with
  | .error reason => .error reason
  | .ok vol =>
    match vol.itruncIndirect sb (ip.addrs NDIRECT) with
    | .error reason => .error reason
    | .ok vol => .ok (vol.setInode inum { ip with size := 0, addrs := fun _ => 0 })

/-- What `iput` does to an inode without links and other references. -/
def iputFree (sb : Superblock) (inum : Nat) (vol : Volume) : Except String Volume :=
  match vol.itrunc sb inum with
  | .error reason => .error reason
  | .ok vol => .ok (vol.setInode inum { vol.inode inum with type := 0 })

/-- `ialloc`, with the number of the inode. -/
def ialloc (sb : Superblock) (type : Nat) (vol : Volume) : Option Nat × Volume :=
  match (List.range sb.ninodes).find? fun inum =>
    decide (1 ≤ inum) && decide ((vol.inode inum).type = 0) with
  | none => (none, vol)
  | some inum => (some inum, vol.setInode inum { type := type, size := 0, addrs := fun _ => 0 })

/-- What `either_copyin` brought: the bytes that it stored, and whether these
are all. -/
structure Fetched where
  data : List UInt8
  complete : Bool

/-- Bytes stored in a block. -/
def storeBytes (data : Block) (start : Nat) (bytes : List UInt8) : Block :=
  Vector.ofFn fun position : Fin BSIZE =>
    if start ≤ position.val ∧ position.val < start + bytes.length then
      bytes.getD (position.val - start) 0
    else byteAt data position.val

/-- The loop of `writei`; `fetch src m` is the outcome of `either_copyin`. -/
def writeiLoop (sb : Superblock) (fetch : Nat → Nat → Fetched) (inum : Nat) :
    (fuel : Nat) → (tot off src n : Nat) → Volume → Except String (Nat × Nat × Volume)
  | 0, tot, off, _, _, vol => .ok (tot, off, vol)
  | fuel + 1, tot, off, src, n, vol =>
    if tot < n then
      match vol.bmap sb inum (off / BSIZE) with
      | .error reason => .error reason
      | .ok (addr, vol) =>
        if addr = 0 then .ok (tot, off, vol)
        else
          let m := min (n - tot) (BSIZE - off % BSIZE)
          let fetched := fetch src m
          let vol := vol.setBlock addr (storeBytes (vol.block addr) (off % BSIZE) fetched.data)
          if fetched.complete then writeiLoop sb fetch inum fuel (tot + m) (off + m) (src + m) n vol
          else .ok (tot, off, vol)
    else .ok (tot, off, vol)

def writei (sb : Superblock) (fetch : Nat → Nat → Fetched) (inum src off n : Nat)
    (vol : Volume) : Except String (Int × Volume) :=
  let ip := vol.inode inum
  if off > ip.size ∨ (off + n) % 2 ^ 32 < off then .ok (-1, vol)
  else if (off + n) % 2 ^ 32 > MAXFILE * BSIZE then .ok (-1, vol)
  else
    match vol.writeiLoop sb fetch inum n 0 off src n with
    | .error reason => .error reason
    | .ok (tot, off, vol) =>
      let ip := vol.inode inum
      .ok (tot, if off > ip.size then vol.setInode inum { ip with size := off }
        else vol)

/-- The loop of `readi`; `accepts dst m` says whether `either_copyout`
succeeds. -/
def readiLoop (sb : Superblock) (accepts : Nat → Nat → Bool) (inum : Nat) :
    (fuel : Nat) → (tot off dst n : Nat) → List UInt8 → Volume →
      Except String (Int × List UInt8 × Volume)
  | 0, tot, _, _, _, data, vol => .ok (tot, data, vol)
  | fuel + 1, tot, off, dst, n, data, vol =>
    if tot < n then
      match vol.bmap sb inum (off / BSIZE) with
      | .error reason => .error reason
      | .ok (addr, vol) =>
        if addr = 0 then .ok (tot, data, vol)
        else
          let m := min (n - tot) (BSIZE - off % BSIZE)
          if accepts dst m then
            readiLoop sb accepts inum fuel (tot + m) (off + m) (dst + m) n
              (data ++ (List.range m).map fun index =>
                byteAt (vol.block addr) (off % BSIZE + index)) vol
          else .ok (-1, data, vol)
    else .ok (tot, data, vol)

/-- `readi`, with the bytes that it delivered. -/
def readi (sb : Superblock) (accepts : Nat → Nat → Bool) (inum dst off n : Nat)
    (vol : Volume) : Except String (Int × List UInt8 × Volume) :=
  let ip := vol.inode inum
  if off > ip.size ∨ (off + n) % 2 ^ 32 < off then .ok (0, [], vol)
  else
    let n := if (off + n) % 2 ^ 32 > ip.size then ip.size - off else n
    vol.readiLoop sb accepts inum n 0 off dst n []

end Volume

end Xv6KernelEvent
