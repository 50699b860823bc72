/-
This file proves what `writei` reports when the disk is full.

`getfreestartblkno` returns 0 when it finds no free byte in the bitmap, and `appendi` takes this for
the number of a block: the new extent begins with the boot block. `appendi` returns the length that
it was called with in every case, so `writei` returns the length of the request.
-/

import Xk.Appending

namespace Xk

open Outcome

/-- The bytes that a write to a file must not change: those of the boot block, the superblock and the
bitmap, of the inode file and of other files. -/
def Protected (fs : FileSystem) (others : List Extent) (place : Nat) : Prop :=
  place < fs.sb.inodestart.toNat * bsize ∨
    ∃ extent ∈ fs.inodefile.data.toList ++ others,
      extent.address ≤ place ∧ place < extent.address + extent.bytes

/-- `writei` returns -1 or less than the length, changes no protected byte, and gives the inode no
extent with one. -/
def ReportsFull (fs : FileSystem) (others : List Extent) (ip : Inode) (src : List UInt8)
    (off n : UInt32) : Prop :=
  ∃ result after inode, writei fs ip src off n = .ok (result, after, inode) ∧
    (result = -1 ∨ 0 ≤ result ∧ result < n.toNat) ∧
    (∀ place, Protected fs others place → after.disk.bytes place = fs.disk.bytes place) ∧
    ∀ extent ∈ inode.data.toList, extent ∉ ip.data.toList → ∀ place,
      extent.address ≤ place → place < extent.address + extent.bytes → ¬ Protected fs others place

/-- The first loop runs past the array for an offset behind the extents. -/
theorem seekExtent_behind {extents : List Extent} {size off : UInt32}
    (behind : size.toNat + totalBytes extents < off.toNat) :
    seekExtent extents size off = .error .undefined := by
  induction extents generalizing size with
  | nil => rfl
  | cons first extents inductionHypothesis =>
    rw [totalBytes_cons] at behind
    have limit := off.toNat_lt
    have isFirst := first.toNat_bytes (show first.bytes < 2 ^ 32 by omega)
    have sum : (size + first.nblocks * 512).toNat = size.toNat + first.bytes := by
      rw [toNat_add_of_lt (by omega), isFirst]
    have passes : size + first.nblocks * 512 < off := by
      rw [UInt32.lt_iff_toNat_lt, sum]
      omega
    rw [seekExtent, if_pos passes]
    exact inductionHypothesis (by omega)

section Results

variable {fs : FileSystem} {ip : Inode} (regular : ip.Regular fs.disk) {off n : UInt32}
  (inRange : off.toNat + n.toNat < 2 ^ 32) {src : List UInt8} {result : Int} {after : FileSystem}
  {inode : Inode} (written : writei fs ip src off n = .ok (result, after, inode))
include regular inRange written

/-- A write past the end that returns does not begin behind the end. -/
theorem begins_inside : off.toNat ≤ totalBytes ip.data.toList := by
  by_contra behind
  have capacity := regular.toNat_getCapacity
  have accepted : ¬ off + n < off := by
    rw [UInt32.lt_iff_toNat_lt, toNat_add_of_lt inRange]
    omega
  rw [writei, if_neg (by simp [regular.locked]), if_neg regular.notDevice, if_neg accepted,
    seekExtent_behind (by rw [UInt32.toNat_zero]; omega)] at written
  cases written

variable (grows : totalBytes ip.data.toList < off.toNat + n.toNat)
include grows

/-- A write past the end that returns has not returned less than the length. -/
theorem result_not_short : ¬ (result = -1 ∨ 0 ≤ result ∧ result < n.toNat) := by
  have short := regular.short
  have begun := begins_inside regular inRange written
  obtain ⟨count, append, isCount, isAppend, writes⟩ := regular.writei_grows begun grows inRange
  rw [writes] at written
  obtain ⟨_, _, written⟩ := ok_of_bind written
  obtain ⟨_, appended, written⟩ := ok_of_bind written
  have isResult : result = n.toBitVec.toInt := (ok_pair written).1.symm
  have bound : append.toNat ≤ extentN * bsize := by
    rw [appendi] at appended
    split at appended
    · cases appended
    · have bound := appendiLoop_bound appended
      rw [UInt32.toNat_zero, Nat.sub_zero] at bound
      exact bound.trans (Nat.mul_le_mul_right _ (Nat.sub_le _ _))
  change append.toNat ≤ 3584 at bound
  have toInt : n.toBitVec.toInt = n.toNat ∨ n.toBitVec.toInt = n.toNat - 2 ^ 32 := by
    rw [BitVec.toInt_eq_toNat_cond]
    split_ifs
    · exact Or.inl rfl
    · exact Or.inr rfl
  omega

/-- A write from the end on that returns has given the inode the blocks from the boot block on. -/
theorem gets_bootBlock (inDisk : fs.sb.inodestart.toNat ≤ fs.disk.disksize)
    (full : ∀ i j, ¬ FreeByte fs.disk fs.sb i j)
    (atEnd : off.toNat = totalBytes ip.data.toList) : ⟨0, 8⟩ ∈ inode.data.toList := by
  obtain ⟨count, append, isCount, isAppend, writes⟩ :=
    regular.writei_grows atEnd.le grows inRange
  have nothing : count.toNat = 0 := by omega
  rw [writes, regular.fillExtents_alone atEnd.le isCount (Or.inl atEnd) (by omega), nothing,
    List.take_zero, List.drop_zero, Disk.store, Bytes.write_nil, ok_bind] at written
  obtain ⟨⟨disk, extents⟩, appended, written⟩ := ok_of_bind written
  obtain ⟨_, _, rfl⟩ := ok_pair written |>.imp_right Prod.mk.inj
  rw [appendi] at appended
  split at appended
  · cases appended
  · rename_i data isFound
    have more : (0 : UInt32) < append := by grind [UInt32.lt_iff_toNat_lt]
    obtain ⟨inArray, extent, filled, isFilled, turn⟩ := appendiLoop_turn more appended
    have isUnused : (ip.data.get ⟨data, inArray⟩).nblocks = 0 := by
      grind [List.findIdx?_eq_some_iff_getElem, List.Vector.get_eq_get_toList]
    obtain ⟨startblkno, found, rfl⟩ := fillSlot_unused isUnused isFilled
    have isZero : startblkno = 0 := by
      rcases @getfreestartblkno_spec fs.disk fs.sb inDisk with ⟨isFull, _⟩ | ⟨i, j, isFree, _⟩
      · simp_all
      · exact absurd isFree (full i j)
    subst isZero
    have kept : extents.get ⟨data, inArray⟩ = ⟨0, 8⟩ := by
      grind [appendiLoop_keeps, List.Vector.get_set_same]
    show ⟨0, 8⟩ ∈ extents.toList
    rw [← kept, List.Vector.get_eq_get_toList]
    exact List.get_mem _ _

end Results

/-- A write that needs a new extent reports that there are no free blocks only if it is refused for a
length that wraps. If it begins at the end of the extents and returns, then the inode has got the
blocks from the boot block on. -/
theorem writei_full_iff {fs : FileSystem} {ip : Inode} (stored : ip.Stored fs.disk)
    (apart : ip.data.toList.Pairwise Extent.Apart)
    (inDisk : fs.sb.inodestart.toNat ≤ fs.disk.disksize)
    (full : ∀ i j, ¬ FreeByte fs.disk fs.sb i j) {off n : UInt32}
    (grows : (getCapacity ip).toNat < off.toNat + n.toNat) (others : List Extent)
    (src : List UInt8) :
    (ReportsFull fs others ip src off n ↔ 2 ^ 32 ≤ off.toNat + n.toNat) ∧
      (off.toNat = (getCapacity ip).toNat → off.toNat + n.toNat < 2 ^ 32 →
        ∀ result after inode, writei fs ip src off n = .ok (result, after, inode) →
          ⟨0, 8⟩ ∈ inode.data.toList) := by
  have regular := stored.regular apart
  rw [regular.toNat_getCapacity] at grows ⊢
  refine ⟨⟨fun ⟨result, after, inode, written, short, _⟩ => ?_, fun wraps => ?_⟩, ?_⟩
  · by_contra noWrap
    exact result_not_short regular (Nat.lt_of_not_le noWrap) written grows short
  · have refused : off + n < off := by
      have limit := n.toNat_lt
      rw [UInt32.lt_iff_toNat_lt, UInt32.toNat_add]
      omega
    refine ⟨-1, fs, ip, ?_, Or.inl rfl, fun _ _ => rfl, fun extent member new => absurd member new⟩
    rw [writei, if_neg (by simp [regular.locked]), if_neg regular.notDevice, if_pos refused]
  · grind [gets_bootBlock]

/-- A disk of forty blocks with no zero byte in the bitmap. -/
def noneFree : FileSystem :=
  { sixteenFree with disk := { sixteenFree.disk with
      bytes := fun place => if 1024 ≤ place ∧ place < 1536 then 0xff else 0 } }

theorem noneFree_full (i j : Nat) : ¬ FreeByte noneFree.disk noneFree.sb i j := by
  rintro ⟨start, inMap, inBlock, isZero⟩
  change 2 ≤ i at start
  change i < 3 at inMap
  obtain rfl : i = 2 := by omega
  change j < 512 at inBlock
  change (if 1024 ≤ 2 * 512 + j ∧ 2 * 512 + j < 1536 then (0xff : UInt8) else 0) = 0 at isZero
  rw [if_pos (by omega)] at isZero
  exact absurd isZero (by decide)

theorem writei_full_iff_noneFree :
    ReportsFull noneFree [] emptyFile [7] 0 1 ↔ 2 ^ 32 ≤ (0 : UInt32).toNat + (1 : UInt32).toNat :=
  (@writei_full_iff noneFree emptyFile ⟨Or.inl rfl, rfl, emptyFile_stored.onDisk⟩ emptyFile_apart
    (by decide) noneFree_full 0 1 (by decide) [] [7]).1

/-- One byte goes to the boot block, and the result is the length. -/
theorem writei_bootBlock : (∀ i j, ¬ FreeByte noneFree.disk noneFree.sb i j) ∧
    (writei noneFree emptyFile [7] 0 1).toOption.map (fun (count, after, ip) =>
      (count, ip.data.head, noneFree.disk.bytes 0, after.disk.bytes 0)) =
      some (1, ⟨0, 8⟩, 0, 7) := by
  exact ⟨noneFree_full, by decide +kernel⟩

end Xk
