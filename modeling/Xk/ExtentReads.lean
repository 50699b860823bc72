/-
This file proves what `readi` returns for a range inside the first extent of an inode: all files
that `mkfs` makes are of this kind. There the bytes of the file are one range of the disk, and a
read of `n` bytes at `off` is `n` bytes of that range.
-/

import Xk.FileSystem
import Xk.Outcome

namespace Xk

open Outcome

variable {a n tot : UInt32} {disk : Disk} {extent : Extent}

/-! ### Words -/

/-- A sum of words that stays in range is the sum of the numbers. -/
theorem toNat_add_of_lt {b : UInt32} (inRange : a.toNat + b.toNat < 2 ^ 32) :
    (a + b).toNat = a.toNat + b.toNat := by
  rw [UInt32.toNat_add, Nat.mod_eq_of_lt inRange]

/-- The bytes of a number of blocks that fit a disk. -/
theorem toNat_mul_bsize (inRange : a.toNat * bsize < 2 ^ 32) :
    (a * 512).toNat = a.toNat * bsize := by
  simp_all

theorem toInt_of_lt (inRange : a.toNat < 2 ^ 31) : a.toBitVec.toInt = a.toNat := by
  grind [UInt32.toNat_toBitVec]

theorem Disk.disksize_lt (disk : Disk) : disk.disksize < 4194304 :=
  Nat.lt_of_mul_lt_mul_right (a := bsize) disk.linked

theorem bread_of_lt {blockno : UInt32} (inRange : blockno.toNat < disk.disksize) :
    bread disk blockno = .ok (Bytes.load disk.bytes (blockno.toNat * bsize) bsize) := by
  have offset : blockno.toNat * 512 < 2 ^ 32 := by
    have linked := disk.disksize_lt
    omega
  rw [bread, if_neg (Nat.not_le.mpr inRange), blockOffset, toNat_mul_bsize offset]

/-! ### The first extent -/

/-- The extent is a run of blocks of the disk. -/
def Extent.OnDisk (extent : Extent) (disk : Disk) : Prop :=
  extent.startblkno.toNat + extent.nblocks.toNat ≤ disk.disksize

/-- The address of the first byte of an extent. -/
def Extent.address (extent : Extent) : Nat := extent.startblkno.toNat * bsize

/-- The number of bytes of an extent. -/
def Extent.bytes (extent : Extent) : Nat := extent.nblocks.toNat * bsize

section

variable (onDisk : extent.OnDisk disk)
include onDisk

theorem Extent.OnDisk.bytes_lt :
    extent.bytes < 2 ^ 31 := by
  have linked := disk.disksize_lt
  unfold Extent.OnDisk at onDisk
  show extent.nblocks.toNat * 512 < 4194304 * 512
  omega

theorem Extent.OnDisk.toNat_bytes :
    (extent.nblocks * 512).toNat = extent.bytes :=
  toNat_mul_bsize (onDisk.bytes_lt.trans (by decide))

theorem Extent.OnDisk.lt_iff {size : UInt32} :
    size < extent.nblocks * 512 ↔ size.toNat < extent.bytes := by
  rw [UInt32.lt_iff_toNat_lt, onDisk.toNat_bytes]

/-- The number of the block that holds an offset of the extent. -/
theorem Extent.OnDisk.block {size : UInt32} (inside : size.toNat < extent.bytes) :
    (extent.startblkno + size / 512).toNat = extent.startblkno.toNat + size.toNat / bsize ∧
      extent.startblkno.toNat + size.toNat / bsize < disk.disksize := by
  have linked := disk.disksize_lt
  unfold Extent.OnDisk at onDisk
  unfold Extent.bytes at inside
  have block : (size / 512).toNat = size.toNat / bsize := UInt32.toNat_div size 512
  constructor
  · grind [toNat_add_of_lt]
  · unfold bsize at *
    omega

/-- The block that holds an offset of the extent. -/
theorem Extent.OnDisk.bread {size : UInt32} (inside : size.toNat < extent.bytes) :
    bread disk (extent.startblkno + size / 512) =
      .ok (Bytes.load disk.bytes (extent.address + size.toNat / bsize * bsize) bsize) := by
  obtain ⟨number, inDisk⟩ := onDisk.block inside
  rw [bread_of_lt, number, Nat.add_mul, Extent.address]
  rwa [number]

end

/-- The bytes that a turn of the loops of `readi` and `writei` copies: up to the end of the block or
of the request. -/
def chunk (n size tot : UInt32) : UInt32 := min (n - tot) (512 - size % 512)

/-- A turn copies something, inside of one block, and the counters move on without wrapping. -/
structure ChunkCopied (n size tot m : UInt32) : Prop where
  positive : 0 < m.toNat
  within : size.toNat % bsize + m.toNat ≤ bsize
  nextSize : (size + m).toNat = size.toNat + m.toNat
  nextTot : (tot + m).toNat = tot.toNat + m.toNat
  left : n.toNat - tot.toNat = m.toNat + (n.toNat - (tot + m).toNat)

theorem toNat_chunk {n size tot : UInt32} (more : tot < n) :
    (chunk n size tot).toNat = min (n.toNat - tot.toNat) (bsize - size.toNat % bsize) := by
  have inBlock : (size % 512).toNat = size.toNat % bsize := UInt32.toNat_mod size 512
  have bound := Nat.mod_lt size.toNat (show 0 < bsize by decide)
  have toEnd : (512 - size % 512).toNat = bsize - size.toNat % bsize := by
    grind [UInt32.toNat_sub_of_le]
  rw [chunk, UInt32.toNat_min, toEnd, UInt32.toNat_sub_of_le _ _ (UInt32.le_of_lt more)]

theorem chunk_copied {size : UInt32} (more : tot < n)
    (inRange : size.toNat + (n.toNat - tot.toNat) < 2 ^ 32) :
    ChunkCopied n size tot (chunk n size tot) := by
  have moreNat : tot.toNat < n.toNat := UInt32.lt_iff_toNat_lt.mp more
  have bound := Nat.mod_lt size.toNat (show 0 < bsize by decide)
  have copied := @toNat_chunk n size tot more
  have nextTot : (tot + chunk n size tot).toNat = tot.toNat + (chunk n size tot).toNat := by
    have limit := n.toNat_lt
    exact toNat_add_of_lt (by omega)
  exact ⟨by omega, by omega, toNat_add_of_lt (by omega), nextTot, by omega⟩

theorem chunk_within {size : UInt32} (more : tot < n) :
    (size % 512).toNat + (chunk n size tot).toNat ≤ bsize := by
  grind [UInt32.toNat_mod, toNat_chunk]

theorem chunk_pos {n size tot : UInt32} (more : tot < n) : 0 < (chunk n size tot).toNat := by
  grind [toNat_chunk, UInt32.lt_iff_toNat_lt]

/-- A turn of the loop of `readi` that copies. -/
theorem readLoop_copies (onDisk : extent.OnDisk disk) {rest : List Extent} {turns : Nat}
    {size off : UInt32} (more : tot < n) (inside : size.toNat < extent.bytes) :
    readLoop disk n (turns + 1) (extent :: rest) size off tot = (do
      let others ← readLoop disk n turns (extent :: rest) (size + chunk n size tot)
        (off + chunk n size tot) (tot + chunk n size tot)
      return Bytes.load disk.bytes (extent.address + size.toNat) (chunk n size tot).toNat ++
        others) := by
  have inBlock : (size % 512).toNat = size.toNat % bsize := UInt32.toNat_mod size 512
  rw [readLoop, if_pos more]
  simp only [if_pos (onDisk.lt_iff.mpr inside), onDisk.bread inside, ok_bind]
  rw [← chunk, inBlock, Bytes.take_drop_load disk.bytes (inBlock ▸ chunk_within more),
    Nat.add_assoc, Nat.div_add_mod']

/-- The loop of `readi` while it stays in one extent. -/
theorem readLoop_inside (onDisk : extent.OnDisk disk) (rest : List Extent) (n : UInt32)
    (turns : Nat) (size off tot : UInt32) (enough : n.toNat - tot.toNat < turns)
    (begun : tot.toNat ≤ n.toNat) (inside : size.toNat + (n.toNat - tot.toNat) ≤ extent.bytes) :
    readLoop disk n turns (extent :: rest) size off tot =
      .ok (Bytes.load disk.bytes (extent.address + size.toNat) (n.toNat - tot.toNat)) := by
  induction turns generalizing size off tot with
  | zero => exact absurd enough (Nat.not_lt_zero _)
  | succ turns inductionHypothesis =>
    by_cases more : tot < n
    · have moreNat : tot.toNat < n.toNat := UInt32.lt_iff_toNat_lt.mp more
      have bytes := onDisk.bytes_lt
      obtain ⟨positive, _, nextSize, nextTot, left⟩ :=
        chunk_copied more (show size.toNat + (n.toNat - tot.toNat) < 2 ^ 32 by omega)
      rw [readLoop_copies onDisk more (by omega), inductionHypothesis _ _ _ (by omega) (by omega)
        (by omega), left, Bytes.load_add, nextSize, Nat.add_assoc]
      rfl
    · have done : n.toNat - tot.toNat = 0 := by
        rw [UInt32.lt_iff_toNat_lt] at more
        omega
      rw [readLoop, if_neg more, done, Bytes.load_zero]

/-- The seek to an offset of the first extent. -/
theorem seekExtent_first {ip : Inode} (first : ip.data.head = extent) (onDisk : extent.OnDisk disk)
    {off : UInt32} (inside : off.toNat ≤ extent.bytes) :
    ∃ rest, ip.data.toList = extent :: rest ∧
      seekExtent (extent :: rest) 0 off = .ok (extent :: rest, off) := by
  have stays : ¬ 0 + extent.nblocks * 512 < off := by
    rw [UInt32.zero_add, UInt32.lt_iff_toNat_lt, onDisk.toNat_bytes]
    omega
  rw [← List.Vector.cons_head_tail ip.data, first]
  exact ⟨_, rfl, by rw [seekExtent, if_neg stays, UInt32.sub_zero]⟩

/-- A read inside the first extent of an inode that begins inside of the file or at its end. -/
theorem readi_first {fs : FileSystem} {ip : Inode} {extent : Extent} (notDevice : ip.type ≠ tDev)
    (first : ip.data.head = extent) (onDisk : extent.OnDisk fs.disk) (locked : ip.locked = true)
    {off n : UInt32} (begun : off.toNat ≤ ip.size.toNat)
    (inside : off.toNat + n.toNat ≤ extent.bytes) :
    readi fs ip off n =
      .ok (n.toNat, Bytes.load fs.disk.bytes (extent.address + off.toNat) n.toNat) := by
  have bytes := onDisk.bytes_lt
  have sum : (off + n).toNat = off.toNat + n.toNat := toNat_add_of_lt (by omega)
  have accepted : ¬ (ip.size < off ∨ off + n < off) := by grind [UInt32.lt_iff_toNat_lt]
  obtain ⟨rest, extents, sought⟩ := seekExtent_first first onDisk
    ((Nat.le_add_right _ _).trans inside)
  have read := readLoop_inside onDisk rest n (n.toNat + extentN + 1) off off 0
    (by rw [UInt32.toNat_zero]; omega) (Nat.zero_le _) (by rw [UInt32.toNat_zero]; omega)
  rw [UInt32.toNat_zero, Nat.sub_zero] at read
  rw [readi, if_neg (by simp [locked]), if_neg notDevice, if_neg accepted, extents, sought]
  show Except.bind (readLoop fs.disk n (n.toNat + extentN + 1) (extent :: rest) off off 0) _ = _
  rw [read]
  show Except.ok _ = Except.ok _
  rw [toInt_of_lt (by omega)]

/-- The inode is not a device, and its size fits its first extent, which is on the disk. -/
structure Inode.InFirst (ip : Inode) (disk : Disk) (extent : Extent) : Prop where
  notDevice : ip.type ≠ tDev
  first : ip.data.head = extent
  onDisk : extent.OnDisk disk
  fits : ip.size.toNat ≤ extent.bytes

/-- A read inside an extent that holds the whole file. -/
theorem readi_inside {fs : FileSystem} {ip : Inode} (inFirst : ip.InFirst fs.disk extent)
    (locked : ip.locked = true) {off : UInt32} (inside : off.toNat + n.toNat ≤ ip.size.toNat) :
    readi fs ip off n =
      .ok (n.toNat, Bytes.load fs.disk.bytes (extent.address + off.toNat) n.toNat) :=
  readi_first inFirst.notDevice inFirst.first inFirst.onDisk locked
    ((Nat.le_add_right _ _).trans inside) (inside.trans inFirst.fits)

end Xk
