/-
This file models the buffer cache of `kernel/bio.c` and the disk in memory below it
(`kernel/memide.c`). The functions are cut where other processes can come between. The counter of
disk reads, the pid kept in a sleep lock, and `qnext` are left out.
-/

import Xk.Counting
import Xk.Params
import Xk.Ring

namespace Xk

/-! ### Buffers and the disk -/

/-- `struct buf`, with the two bits of its `flags` and the `locked` field of its sleep lock. -/
structure Buf where
  valid : Bool
  dirty : Bool
  dev : UInt32
  blockno : UInt32
  locked : Bool
  refcnt : Nat
  data : Block

/-- A pointer to a buffer; `none` is `&bcache.head`. -/
abbrev BufPtr := Option (Fin nbuf)

/-- The file system image linked into the kernel. The kernel lives in the top two gigabytes of the
address space, so offsets into the image fit a `uint`. -/
structure DiskImage where
  disksize : Nat
  original : Nat → UInt8
  linked : disksize * bsize < 2 ^ 31

/-- `bcache` with its list, the disk, and the two variables of crash testing. -/
structure Bcache where
  buf : Fin nbuf → Buf
  links : Ring.Links BufPtr
  memdisk : Nat → UInt8
  crashnEnable : Bool
  crashn : Int

def Bcache.setBuf (cache : Bcache) (b : Fin nbuf) (buf : Buf) : Bcache :=
  { cache with buf := Function.update cache.buf b buf }

/-- The block at a byte offset of the disk. -/
def readBlock (memdisk : Nat → UInt8) (p : Nat) : Block := fun index => memdisk (p + index)

/-- The disk after `memmove(p, data, BSIZE)`. -/
def writeBlock (memdisk : Nat → UInt8) (p : Nat) (data : Block) : Nat → UInt8 := fun address =>
  if inBlock : p ≤ address ∧ address - p < bsize then data ⟨address - p, inBlock.2⟩
  else memdisk address

/-- The offset `b->blockno * BSIZE`, a product of `uint`s. -/
def blockOffset (blockno : UInt32) : Nat := (blockno * 512).toNat

/-- `iderw(b)`. -/
def iderw (image : DiskImage) (cache : Bcache) (b : Fin nbuf) : Except Halt Bcache :=
  let buf := cache.buf b
  let p := blockOffset buf.blockno
  if buf.locked = false then .error (.panic "iderw: buf not locked")
  else if buf.valid ∧ buf.dirty = false then .error (.panic "iderw: nothing to do")
  else if buf.dev ≠ 1 then .error (.panic "iderw: request not for disk 1")
  else if image.disksize ≤ buf.blockno.toNat then .error (.panic "iderw: block out of range")
  else if buf.dirty then
    .ok { cache.setBuf b { buf with dirty := false, valid := true } with
      memdisk := writeBlock cache.memdisk p buf.data }
  else .ok (cache.setBuf b { buf with data := readBlock cache.memdisk p, valid := true })

/-! ### The functions of `bio.c` -/

def Buf.zero : Buf := ⟨false, false, 0, 0, false, 0, fun _ => 0⟩

/-- The list before the loop of `binit`: the head points at itself, the rest is zeroed memory. -/
def emptyLinks : Ring.Links BufPtr := ⟨fun _ => none, fun _ => none⟩

/-- `binit()`, on the zeroed cache: every buffer is put in after the head. -/
def binit (image : DiskImage) : Bcache where
  buf := fun _ => .zero
  links := (List.finRange nbuf).foldl (fun links b => links.insert none (some b)) emptyLinks
  memdisk := image.original
  crashnEnable := false
  crashn := 0

/-- The test of the first loop of `bget`. -/
def Bcache.caches (cache : Bcache) (dev blockno : UInt32) : BufPtr → Bool
  | none => false
  | some b => (cache.buf b).dev = dev ∧ (cache.buf b).blockno = blockno

/-- The test of the second loop of `bget`. -/
def Bcache.reusable (cache : Bcache) : BufPtr → Bool
  | none => false
  | some b => (cache.buf b).refcnt = 0 ∧ (cache.buf b).dirty = false

/-- `bget(dev, blockno)` up to `acquiresleep`; `none` when one of its loops does not end. A list of
`NBUF` buffers is passed in `NBUF + 1` turns. -/
def bget (cache : Bcache) (dev blockno : UInt32) : Option (Except Halt (Fin nbuf × Bcache)) :=
  match Ring.search cache.links.next none (cache.caches dev blockno) (nbuf + 1)
      (cache.links.next none) with
  | some (some (some b)) =>
    some (.ok (b, cache.setBuf b { cache.buf b with refcnt := (cache.buf b).refcnt + 1 }))
  | some none =>
    match Ring.search cache.links.prev none cache.reusable (nbuf + 1) (cache.links.prev none) with
    | some (some (some b)) =>
      some (.ok (b, cache.setBuf b { cache.buf b with
        dev := dev, blockno := blockno, valid := false, dirty := false, refcnt := 1 }))
    | some none => some (.error (.panic "bget: no buffers"))
    | _ => none
  | _ => none

/-- The rest of `bread`, with the sleep lock held. -/
def breadLocked (image : DiskImage) (cache : Bcache) (b : Fin nbuf) : Except Halt Bcache :=
  if (cache.buf b).valid then .ok cache else iderw image cache b

/-- `bwrite(b)` up to `iderw`. -/
def bwriteMark (cache : Bcache) (b : Fin nbuf) : Except Halt Bcache :=
  let counted := if cache.crashnEnable then { cache with crashn := cache.crashn - 1 } else cache
  if counted.crashnEnable ∧ counted.crashn < 0 then .error .reboot
  else if (counted.buf b).locked = false then .error (.panic "bwrite")
  else .ok (counted.setBuf b { counted.buf b with dirty := true })

/-- `brelse(b)` up to the release of the sleep lock. -/
def brelseUnlock (cache : Bcache) (b : Fin nbuf) : Except Halt Bcache :=
  if (cache.buf b).locked = false then .error (.panic "brelse")
  else .ok (cache.setBuf b { cache.buf b with locked := false })

/-- The section of `brelse`: with the last reference the buffer moves to the front of the list. -/
def brelseSection (cache : Bcache) (b : Fin nbuf) : Bcache :=
  let dropped := cache.setBuf b { cache.buf b with refcnt := (cache.buf b).refcnt - 1 }
  if (dropped.buf b).refcnt = 0 then
    { dropped with links := (dropped.links.unlink (some b)).insert none (some b) }
  else dropped

end Xk
