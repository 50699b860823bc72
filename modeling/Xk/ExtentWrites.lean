/-
This file proves what `writei` does for a range inside the first extent of an inode. There the bytes
of the file are one range of the disk, and a write of `n` bytes at `off` changes this part of the
range and nothing else: not the inode, and no other byte of the disk.
-/

import Xk.ExtentReads

namespace Xk

open Outcome

/-- The disk after `bytes` are written to a range of it. -/
def Disk.store (disk : Disk) (address : Nat) (bytes : List UInt8) : Disk :=
  { disk with bytes := Bytes.write disk.bytes address bytes }

/-- A block after a part of it is changed in a buffer. -/
theorem copyIn_load (disk : Disk) (start : Nat) {offset m : UInt32} {src : List UInt8}
    (within : offset.toNat + m.toNat ≤ bsize) (long : m.toNat ≤ src.length) :
    ∃ changed, copyIn (Bytes.load disk.bytes start bsize) src offset m = .ok changed ∧
      Bytes.write disk.bytes start changed =
        Bytes.write disk.bytes (start + offset.toNat) (src.take m.toNat) := by
  have length : (src.take m.toNat).length = m.toNat := by
    rw [List.length_take, min_eq_left long]
  refine ⟨_, by rw [copyIn, if_neg (Nat.not_lt.mpr long)], ?_⟩
  refine Eq.trans ?_ (Bytes.write_patch disk.bytes
    (show offset.toNat + (src.take m.toNat).length ≤ bsize by rwa [length]))
  rw [length]

/-- Writing back a block with a part of it changed is a change of this part. -/
theorem copyIn_bwrite {disk : Disk} {blockno offset m : UInt32} {block src : List UInt8}
    (isRead : bread disk blockno = .ok block) (within : offset.toNat + m.toNat ≤ bsize)
    (long : m.toNat ≤ src.length) :
    ∃ changed, copyIn block src offset m = .ok changed ∧ bwrite disk blockno changed =
      disk.store (blockOffset blockno + offset.toNat) (src.take m.toNat) := by
  have isBlock : block = Bytes.load disk.bytes (blockOffset blockno) bsize := by grind [bread]
  obtain ⟨changed, isChanged, written⟩ := copyIn_load disk (blockOffset blockno) within long
  rw [← isBlock] at isChanged
  exact ⟨changed, isChanged, by rw [bwrite, written, Disk.store]⟩

section Turns

variable {n : UInt32} {turns : Nat} {disk : Disk} {extent : Extent} {rest : List Extent}
  {size off tot : UInt32} {src : List UInt8}

/-- A turn of the loop of `writei` that copies. -/
theorem writeLoop_copies (more : tot < n) (inside : size < extent.nblocks * 512)
    {block : List UInt8} (isRead : bread disk (extent.startblkno + off / 512) = .ok block)
    (long : (chunk n size tot).toNat ≤ src.length) :
    writeLoop n (turns + 1) disk (extent :: rest) size off tot src =
      writeLoop n turns
        (disk.store (blockOffset (extent.startblkno + off / 512) + (size % 512).toNat)
          (src.take (chunk n size tot).toNat))
        (extent :: rest) (size + chunk n size tot) (off + chunk n size tot)
        (tot + chunk n size tot) (src.drop (chunk n size tot).toNat) := by
  obtain ⟨changed, copied, stored⟩ := copyIn_bwrite isRead (chunk_within more) long
  rw [writeLoop, if_pos more]
  simp only [if_pos inside, isRead, ok_bind]
  rw [← chunk, copied, ok_bind, stored]

/-- A turn at the same offset as in the file. -/
theorem Extent.OnDisk.writeLoop_copies (onDisk : extent.OnDisk disk) (more : tot < n)
    (inside : size.toNat < extent.bytes) (long : (chunk n size tot).toNat ≤ src.length) :
    writeLoop n (turns + 1) disk (extent :: rest) size size tot src =
      writeLoop n turns
        (disk.store (extent.address + size.toNat) (src.take (chunk n size tot).toNat))
        (extent :: rest) (size + chunk n size tot) (size + chunk n size tot)
        (tot + chunk n size tot) (src.drop (chunk n size tot).toNat) := by
  have linked := disk.disksize_lt
  obtain ⟨number, inDisk⟩ := onDisk.block inside
  have inBlock : (size % 512).toNat = size.toNat % bsize := UInt32.toNat_mod size 512
  have offset : blockOffset (extent.startblkno + size / 512) =
      extent.address + size.toNat / bsize * bsize := by
    grind [blockOffset, toNat_mul_bsize, Extent.address]
  rw [Xk.writeLoop_copies more (onDisk.lt_iff.mpr inside) (onDisk.bread inside) long, offset,
    inBlock, Nat.add_assoc, Nat.div_add_mod']

end Turns

/-- The loop of `writei` while it stays in one extent, at the same offset as in the file. -/
theorem writeLoop_inside {extent : Extent} (rest : List Extent) (n : UInt32) (turns : Nat)
    {disk : Disk} (onDisk : extent.OnDisk disk) (size tot : UInt32) (src : List UInt8)
    (enough : n.toNat - tot.toNat < turns) (begun : tot.toNat ≤ n.toNat)
    (inside : size.toNat + (n.toNat - tot.toNat) ≤ extent.bytes)
    (long : n.toNat - tot.toNat ≤ src.length) :
    writeLoop n turns disk (extent :: rest) size size tot src =
      .ok (disk.store (extent.address + size.toNat) (src.take (n.toNat - tot.toNat)),
        src.drop (n.toNat - tot.toNat)) := by
  induction turns generalizing disk size tot src with
  | zero => exact absurd enough (Nat.not_lt_zero _)
  | succ turns inductionHypothesis =>
    by_cases more : tot < n
    · have moreNat : tot.toNat < n.toNat := UInt32.lt_iff_toNat_lt.mp more
      have bytes := onDisk.bytes_lt
      obtain ⟨positive, _, nextSize, nextTot, left⟩ :=
        chunk_copied more (show size.toNat + (n.toNat - tot.toNat) < 2 ^ 32 by omega)
      have longEnough : (chunk n size tot).toNat ≤ src.length := by omega
      have stillOnDisk : extent.OnDisk (disk.store (extent.address + size.toNat)
          (src.take (chunk n size tot).toNat)) := onDisk
      rw [onDisk.writeLoop_copies more (by omega) longEnough,
        inductionHypothesis stillOnDisk _ _ _ (by omega) (by omega) (by omega)
          (by rw [List.length_drop]; omega)]
      rw [left, nextSize, List.drop_drop, List.take_add, Disk.store, Disk.store, Disk.store,
        Bytes.write_append, List.length_take, min_eq_left longEnough, Nat.add_assoc]
    · have done : n.toNat - tot.toNat = 0 := by
        rw [UInt32.lt_iff_toNat_lt] at more
        omega
      rw [writeLoop, if_neg more, done, List.take_zero, List.drop_zero, Disk.store,
        Bytes.write_nil]

/-- A write inside the first extent of an inode that has room for it. -/
theorem writei_inside {fs : FileSystem} {ip : Inode} {extent : Extent} (notDevice : ip.type ≠ tDev)
    (first : ip.data.head = extent) (onDisk : extent.OnDisk fs.disk) (locked : ip.locked = true)
    {src : List UInt8} {off n : UInt32} (inside : off.toNat + n.toNat ≤ extent.bytes)
    (room : off.toNat + n.toNat ≤ (getCapacity ip).toNat) (long : n.toNat ≤ src.length) :
    writei fs ip src off n =
      .ok (n.toNat, { fs with
        disk := fs.disk.store (extent.address + off.toNat) (src.take n.toNat) }, ip) := by
  have bytes := onDisk.bytes_lt
  have sum : (off + n).toNat = off.toNat + n.toNat := toNat_add_of_lt (by omega)
  have accepted : ¬ off + n < off := by
    rw [UInt32.lt_iff_toNat_lt, sum]
    omega
  have fits : ¬ getCapacity ip < off + n := by
    rw [UInt32.lt_iff_toNat_lt, sum]
    omega
  obtain ⟨rest, extents, sought⟩ := seekExtent_first first onDisk
    ((Nat.le_add_right _ _).trans inside)
  have written := writeLoop_inside rest n (n.toNat + extentN + 1) onDisk off 0 src
    (by rw [UInt32.toNat_zero]; omega) (Nat.zero_le _) (by rw [UInt32.toNat_zero]; omega)
    (by rw [UInt32.toNat_zero]; omega)
  rw [UInt32.toNat_zero, Nat.sub_zero] at written
  rw [writei, if_neg (by simp [locked]), if_neg notDevice, if_neg accepted]
  simp only [if_neg fits]
  rw [extents, sought, ok_bind]
  simp only [written, ok_bind]
  rw [if_neg (by decide), toInt_of_lt (by omega)]
  rfl

end Xk
