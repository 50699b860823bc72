/-
This file asks which blocks `getfreestartblkno` hands out on the disks that `mkfs` makes.

`mkfs` ends with `balloc`, which marks the first `used` blocks in a bitmap that was zero. A zero
byte is eight blocks that are free. The kernel searches the blocks of the bitmap from the last one
down, but each of them from its first byte up, and the blocks that it gives for a byte are not those
that `mkfs` has marked with it: the byte `j` of the last block stands for eight blocks that end `8 *
j` blocks before the end of the disk. From one block of the bitmap to the next one before it, these
numbers move by 512 blocks only, while a block of the bitmap has 512 bytes for 4096 blocks.
-/

import Xk.MkfsAllocation
import Xk.MkfsReadBack

namespace Xk

open Outcome

/-! ### The bitmap that `mkfs` leaves -/

/-- The number of the bytes of a block of the bitmap that `balloc` marks, when the block is for the
blocks from `first` on. It may be more than the block has. -/
def markedBytes (used first : Nat) : Nat := (used - first + 7) / 8

theorem byte_eq_zero_iff (byte : UInt8) : byte = 0 ↔ ∀ k < 8, byte.toNat.testBit k = false := by
  constructor
  · simp_all
  · intro unmarked
    apply UInt8.toNat_inj.mp
    apply Nat.eq_of_testBit_eq
    intro k
    rw [UInt8.toNat_zero, Nat.zero_testBit]
    rcases Nat.lt_or_ge k 8 with inByte | above
    · exact unmarked k inByte
    · exact Nat.testBit_lt_two_pow
        (byte.toNat_lt.trans_le (Nat.pow_le_pow_right (by decide) above))

/-! ### The search -/

/-- The bytes of block `i` of the disk that are zero are those from `count` on. -/
def Disk.Marked (disk : Disk) (i count : Nat) : Prop :=
  ∀ j, j < bsize → (disk.bytes (i * bsize + j) = 0 ↔ count ≤ j)

/-- The disk after a byte is marked. -/
def Disk.mark (disk : Disk) (address : Nat) : Disk :=
  { disk with bytes := Function.update disk.bytes address 0xff }

/-- A byte is zero when the first of the blocks that it stands for is not marked. -/
theorem balloc_marked {image : Image} (unmapped : image.Unmapped) {used : Nat}
    (inRange : used ≤ fssize) {disk : Disk} (linked : disk.Linked (balloc image used)) {b : Nat}
    (inBitmap : b < nbitmap) : disk.Marked (2 + b) (markedBytes used (b * (bsize * 8))) := by
  intro j inBlock
  change b < 25 at inBitmap
  change j < 512 at inBlock
  have marks (k : Nat) (inByte : k < 8) :
      ((balloc image used).bytes ((2 + b) * bsize + j)).toNat.testBit k =
        decide (8 * (b * 512 + j) + k < used) := by
    have isPlace : 2 * bsize + (8 * (b * 512 + j) + k) / 8 = (2 + b) * bsize + j := by
      unfold bsize
      omega
    have isBit : (8 * (b * 512 + j) + k) % 8 = k := by omega
    have marked := balloc_marks unmapped (inRange.trans (by decide))
      (show 8 * (b * 512 + j) + k < 25 * 4096 by omega)
    rwa [Image.marks, isPlace, isBit] at marked
  rw [linked.bytes, byte_eq_zero_iff, markedBytes]
  constructor
  · intro unmarked
    have first := (marks 0 (by decide)).symm.trans (unmarked 0 (by decide))
    rw [decide_eq_false_iff_not] at first
    unfold bsize
    omega
  · grind

theorem Disk.Marked.mark {disk : Disk} {i count : Nat} (marked : disk.Marked i count) :
    (disk.mark (i * bsize + count)).Marked i (count + 1) := by
  intro j inBlock
  show Function.update disk.bytes (i * bsize + count) 0xff (i * bsize + j) = 0 ↔ _
  by_cases isNew : j = count
  · grind
  · rw [Function.update_of_ne (by omega), marked j inBlock]
    omega

theorem Disk.Marked.mark_other {disk : Disk} {i other count total : Nat}
    (marked : disk.Marked i count) (inBlock : total < bsize) (different : i ≠ other) :
    (disk.mark (other * bsize + total)).Marked i count := by
  intro j inRange
  show Function.update disk.bytes (other * bsize + total) 0xff (i * bsize + j) = 0 ↔ _
  rw [Function.update_of_ne, marked j inRange]
  unfold bsize at *
  omega

/-- Changing one byte of a block through a buffer is changing the byte. -/
theorem write_set_load (bytes : Nat → UInt8) (start : Nat) {j : Nat} (inBlock : j < bsize)
    (byte : UInt8) : Bytes.write bytes start ((Bytes.load bytes start bsize).set j byte) =
      Function.update bytes (start + j) byte := by
  funext address
  by_cases isByte : address = start + j
  · subst isByte
    rw [Function.update_self]
    apply Bytes.write_of_inside
    rw [List.getElem?_set, if_pos rfl, if_pos]
    rwa [Bytes.load_length]
  · rw [Function.update_of_ne isByte]
    by_cases inside : start ≤ address ∧ address - start < bsize
    · obtain ⟨index, rfl⟩ := Nat.exists_eq_add_of_le inside.1
      apply Bytes.write_of_inside
      rw [List.getElem?_set, if_neg (by omega), Bytes.load_getElem?, if_pos (by omega)]
    · grind [Bytes.write_of_outside, Bytes.load_length]

/-- The first of the blocks that `getfreestartblkno` gives for the byte `j` of block `i`. -/
def extentStart (sb : Superblock) (i j : Nat) : UInt32 :=
  sb.nblocks + sb.inodestart - (sb.inodestart - 1 - UInt32.ofNat i) * 512 - UInt32.ofNat (j + 1) * 8

section Scan

variable {disk : Disk} {sb : Superblock} {i count : Nat}

theorem bread_map (inDisk : i < disk.disksize) :
    bread disk (UInt32.ofNat i) = .ok (Bytes.load disk.bytes (i * bsize) bsize) ∧
      blockOffset (UInt32.ofNat i) = i * bsize := by
  have small := disk.disksize_lt
  have toNat : (UInt32.ofNat i).toNat = i := by
    rw [UInt32.toNat_ofNat']
    omega
  constructor
  · rw [bread_of_lt (by rwa [toNat]), toNat]
  · grind [blockOffset, toNat_mul_bsize]

theorem findIdx_load (marked : disk.Marked i count) (room : count < bsize) :
    (Bytes.load disk.bytes (i * bsize) bsize).findIdx? (· = 0) = some count := by
  rw [List.findIdx?_eq_some_iff_getElem]
  refine ⟨(Bytes.load_length disk.bytes _ _).symm ▸ room, ?_, fun j before => ?_⟩
  · simpa [Bytes.load] using (marked count room).mpr le_rfl
  · have notZero := (marked j (before.trans room)).not.mpr (Nat.not_le.mpr before)
    simpa [Bytes.load] using notZero

/-- A block of the bitmap with a zero byte. -/
theorem freeScan_found (inDisk : i < disk.disksize) (inMap : sb.bmapstart.toNat ≤ i)
    (marked : disk.Marked i count) (room : count < bsize) :
    freeScan disk sb (i + 1) = .ok (extentStart sb i count, disk.mark (i * bsize + count)) := by
  obtain ⟨read, offset⟩ := bread_map inDisk
  rw [freeScan, if_neg (Nat.not_lt.mpr inMap), read, ok_bind, findIdx_load marked room]
  show Except.ok _ = Except.ok _
  rw [bwrite, offset, write_set_load disk.bytes _ room]
  rfl

/-- A block of the bitmap without a zero byte. -/
theorem freeScan_full (inDisk : i < disk.disksize) (inMap : sb.bmapstart.toNat ≤ i)
    (marked : disk.Marked i count) (full : bsize ≤ count) :
    freeScan disk sb (i + 1) = freeScan disk sb i := by
  obtain ⟨read, offset⟩ := bread_map inDisk
  have absent : (Bytes.load disk.bytes (i * bsize) bsize).findIdx? (· = 0) = none := by
    rw [List.findIdx?_eq_none_iff]
    intro byte isIn
    obtain ⟨j, inBlock, rfl⟩ := List.mem_map.mp isIn
    have inRange := List.mem_range.mp inBlock
    have notZero := (marked j inRange).not.mpr (Nat.not_le.mpr (inRange.trans_le full))
    simpa using notZero
  rw [freeScan, if_neg (Nat.not_lt.mpr inMap), read, ok_bind, absent]

end Scan

/-! ### Successive calls -/

/-- What a number of calls of `getfreestartblkno` return. -/
def allocateExtents (sb : Superblock) : Nat → Disk → Except Halt (List UInt32 × Disk)
  | 0, disk => .ok ([], disk)
  | calls + 1, disk => do
    let (start, disk) ← getfreestartblkno disk sb
    let (starts, disk) ← allocateExtents sb calls disk
    return (start :: starts, disk)

theorem allocateExtents_add {sb : Superblock} {first : Nat} (second : Nat) {disk middle : Disk}
    {starts : List UInt32} (runs : allocateExtents sb first disk = .ok (starts, middle)) :
    allocateExtents sb (first + second) disk = (do
      let (more, after) ← allocateExtents sb second middle
      return (starts ++ more, after)) := by
  induction first generalizing disk starts with
  | zero =>
    obtain ⟨rfl, rfl⟩ := ok_pair runs
    rw [Nat.zero_add]
    cases allocateExtents sb second disk <;> rfl
  | succ first inductionHypothesis =>
    obtain ⟨⟨start, next⟩, found, runs⟩ := ok_of_bind runs
    obtain ⟨⟨others, last⟩, runsRest, returned⟩ := ok_of_bind runs
    obtain ⟨rfl, rfl⟩ := ok_pair returned
    rw [Nat.succ_add, allocateExtents, found, ok_bind]
    dsimp only
    rw [inductionHypothesis runsRest]
    cases allocateExtents sb second last <;> rfl

/-- The numbers that belong to the last block of the bitmap. -/
theorem extentStart_last {j : Nat} (inBlock : j < bsize) :
    (extentStart mkfsSb 26 j).toNat = fssize - 8 * (j + 1) := by
  have inRange : j < 512 := inBlock
  have isTop : mkfsSb.nblocks + mkfsSb.inodestart -
      (mkfsSb.inodestart - 1 - UInt32.ofNat 26) * 512 = 100000 := by decide
  have isCount : (UInt32.ofNat (j + 1) * 8).toNat = 8 * (j + 1) := by
    grind [UInt32.toNat_mul, UInt32.toNat_ofNat']
  rw [extentStart, isTop, UInt32.toNat_sub_of_le, isCount]
  · rfl
  · grind [UInt32.le_iff_toNat_le]

/-- One block of the bitmap further down, the numbers are those of 64 bytes further on. -/
theorem extentStart_before (j : Nat) :
    extentStart mkfsSb 25 j = extentStart mkfsSb 26 (j + 64) := by
  grind [UInt32.ofNat_add, extentStart]

/-- The calls that find a zero byte in the last block of the bitmap. -/
theorem allocateExtents_last (calls : Nat) : ∀ {disk : Disk} {count : Nat},
    disk.disksize = fssize → disk.Marked 26 count → count + calls ≤ bsize →
    ∃ after, allocateExtents mkfsSb calls disk =
        .ok ((List.range calls).map fun index => extentStart mkfsSb 26 (count + index), after) ∧
      after.disksize = fssize ∧ after.Marked 26 (count + calls) ∧
      ∀ i total, i ≠ 26 → disk.Marked i total → after.Marked i total := by
  induction calls with
  | zero =>
    intro disk count isFull marked _
    exact ⟨disk, rfl, isFull, marked, fun _ _ _ isMarked => isMarked⟩
  | succ calls inductionHypothesis =>
    intro disk count isFull marked room
    have inBlock : count < bsize := by omega
    have found : getfreestartblkno disk mkfsSb =
        .ok (extentStart mkfsSb 26 count, disk.mark (26 * bsize + count)) :=
      freeScan_found (i := 26) (by rw [isFull]; decide) (by decide) marked inBlock
    have isFullNext : (disk.mark (26 * bsize + count)).disksize = fssize := isFull
    obtain ⟨after, runs, isFullAfter, markedAfter, others⟩ :=
      inductionHypothesis isFullNext marked.mark (by omega)
    refine ⟨after, ?_, isFullAfter, ?_, fun i total different isMarked =>
      others i total different (isMarked.mark_other inBlock different)⟩
    · rw [allocateExtents, found, ok_bind]
      dsimp only
      rw [runs, ok_bind, List.range_succ_eq_map, List.map_cons, List.map_map]
      refine congrArg (fun starts => Except.ok (extentStart mkfsSb 26 count :: starts, after)) ?_
      refine List.map_congr_left fun index _ => ?_
      rw [Function.comp_apply, Nat.add_assoc, Nat.add_comm 1]
    · grind

/-- The call after all bytes of the last block are marked. -/
theorem getfreestartblkno_before {disk : Disk} {full count : Nat} (isFull : disk.disksize = fssize)
    (noneLeft : disk.Marked 26 full) (enough : bsize ≤ full) (marked : disk.Marked 25 count)
    (room : count < bsize) : getfreestartblkno disk mkfsSb =
      .ok (extentStart mkfsSb 26 (count + 64), disk.mark (25 * bsize + count)) := by
  have inDisk : ∀ {i}, i ≤ 26 → i < disk.disksize := fun small => by
    grind
  rw [← extentStart_before]
  exact (freeScan_full (inDisk le_rfl) (by decide) noneLeft enough).trans
    (freeScan_found (inDisk (by decide)) (by decide) marked room)

/-! ### What is handed out -/

/-- The ranges of eight blocks are apart from each other and from the first `used` blocks of the
disk, and are on the disk. -/
def ExtentsApart (used : Nat) (starts : List UInt32) : Prop :=
  starts.Pairwise (fun start other =>
    start.toNat + 8 ≤ other.toNat ∨ other.toNat + 8 ≤ start.toNat) ∧
    ∀ start ∈ starts, used ≤ start.toNat ∧ start.toNat + 8 ≤ mkfsSb.size.toNat

/-- The zero bytes that are before the first one that is found: those of the last block of the
bitmap that `balloc` has marked. -/
def markedLast (used : Nat) : Nat := markedBytes used (24 * (bsize * 8))

/-- What the calls hand out while there are zero bytes in the last block of the bitmap. -/
theorem extentsApart_last {used count calls : Nat} (room : count + calls ≤ bsize)
    (free : used + 8 * (count + calls) ≤ fssize) :
    ExtentsApart used
      ((List.range calls).map fun index => extentStart mkfsSb 26 (count + index)) := by
  constructor
  · grind [List.Pairwise.imp_of_mem, extentStart_last, List.pairwise_lt_range]
  · intro start isIn
    obtain ⟨index, isIndex, rfl⟩ := List.mem_map.mp isIn
    have inRange := List.mem_range.mp isIndex
    rw [extentStart_last (by omega)]
    show used ≤ fssize - 8 * (count + index + 1) ∧ fssize - 8 * (count + index + 1) + 8 ≤ fssize
    unfold bsize fssize at *
    omega

/-- The last of the calls that find a byte in the last block hands out the lowest blocks. -/
theorem ExtentsApart.free {used count calls : Nat} {more : List UInt32}
    (room : count + calls ≤ bsize) (some : 0 < calls) (apart : ExtentsApart used
      ((List.range calls).map (fun index => extentStart mkfsSb 26 (count + index)) ++ more)) :
    used + 8 * (count + calls) ≤ fssize := by
  have isIn : extentStart mkfsSb 26 (count + (calls - 1)) ∈
      (List.range calls).map (fun index => extentStart mkfsSb 26 (count + index)) ++ more :=
    List.mem_append_left _ (List.mem_map.mpr ⟨calls - 1, List.mem_range.mpr (by omega), rfl⟩)
  have above := (apart.2 _ isIn).1
  rw [extentStart_last (by omega)] at above
  unfold bsize fssize at *
  omega

/-- On every disk with the bitmap that `balloc` leaves for its first `used` blocks, what a number of
calls hand out is apart from each other and from those blocks exactly as long as there are zero
bytes in the last block of the bitmap and the blocks that belong to them are behind those that are
used. -/
theorem allocateExtents_apart_iff {image : Image} (full : image.length = imageBytes)
    (unmapped : image.Unmapped) {used : Nat} (inRange : used ≤ fssize) {disk after : Disk}
    (linked : disk.Linked (balloc image used)) {calls : Nat} {starts : List UInt32}
    (runs : allocateExtents mkfsSb calls disk = .ok (starts, after)) :
    ExtentsApart used starts ↔ calls = 0 ∨
      markedLast used + calls ≤ bsize ∧ used + 8 * (markedLast used + calls) ≤ fssize := by
  have inMap : (0 : UInt32).toNat * (bsize * 8) + used ≤ nbitmap * (bsize * 8) := by grind
  have isFull : disk.disksize = fssize := by
    rw [linked.disksize, show (balloc image used).length = imageBytes from
      (ballocLoop_frame used image 0 used full inMap).1]
    exact Nat.mul_div_cancel _ (by decide)
  have markedTop : disk.Marked 26 (markedLast used) :=
    balloc_marked unmapped inRange linked (b := 24) (by decide)
  have markedNext : disk.Marked 25 (markedBytes used (23 * (bsize * 8))) :=
    balloc_marked unmapped inRange linked (b := 23) (by decide)
  have isMarked : markedLast used = (used - 98304 + 7) / 8 := rfl
  have isNext : markedBytes used (23 * (bsize * 8)) = (used - 94208 + 7) / 8 := rfl
  have isSize : fssize = 100000 := rfl
  have isBlock : bsize = 512 := rfl
  constructor
  · intro apart
    by_cases isNone : calls = 0
    · exact Or.inl isNone
    refine Or.inr ?_
    obtain ⟨middle, first, isFullMiddle, markedMiddle, others⟩ := allocateExtents_last
      (min calls (bsize - markedLast used)) isFull markedTop (by omega)
    have split : calls = min calls (bsize - markedLast used) +
        (calls - min calls (bsize - markedLast used)) := by omega
    rw [split, allocateExtents_add _ first] at runs
    obtain ⟨⟨more, last⟩, second, returned⟩ := ok_of_bind runs
    obtain ⟨rfl, rfl⟩ := ok_pair returned
    have free := apart.free (by omega) (by omega)
    by_cases enough : markedLast used + calls ≤ bsize
    · exact ⟨enough, by omega⟩
    -- the next call gives the blocks of an earlier one
    exfalso
    obtain ⟨rest, isRest⟩ : ∃ rest, calls - min calls (bsize - markedLast used) = rest + 1 :=
      ⟨calls - min calls (bsize - markedLast used) - 1, by omega⟩
    rw [isRest, allocateExtents, getfreestartblkno_before isFullMiddle markedMiddle (by omega)
      (others 25 _ (by decide) markedNext) (by omega), ok_bind] at second
    obtain ⟨⟨later, final⟩, -, returned⟩ := ok_of_bind second
    obtain ⟨rfl, rfl⟩ := ok_pair returned
    have twice := (List.pairwise_append.mp apart.1).2.2 _ (List.mem_map.mpr
      ⟨markedBytes used (23 * (bsize * 8)) + 64, List.mem_range.mpr (by omega), rfl⟩) _
      List.mem_cons_self
    rw [show markedLast used = 0 by omega, Nat.zero_add] at twice
    omega
  · rintro (rfl | ⟨room, free⟩)
    · obtain ⟨rfl, rfl⟩ := ok_pair runs
      exact ⟨List.Pairwise.nil, nofun⟩
    · obtain ⟨last, first, -⟩ := allocateExtents_last calls isFull markedTop room
      obtain ⟨rfl, rfl⟩ := ok_pair (first.symm.trans runs)
      exact extentsApart_last room free

/-- A disk on which `mkfs` has marked the 29 blocks that it needs without any file. -/
def bareDisk : Disk := ⟨fssize, (balloc ⟨imageBytes, fun _ => 0⟩ 29).bytes, fssize_linked⟩

theorem bareDisk_linked : bareDisk.Linked (balloc ⟨imageBytes, fun _ => 0⟩ 29) := by
  have length : (balloc ⟨imageBytes, fun _ => 0⟩ 29).length = imageBytes :=
    (ballocLoop_frame 29 _ 0 29 rfl (by decide)).1
  refine ⟨?_, rfl⟩
  rw [length]
  exact (Nat.mul_div_cancel _ (by decide)).symm

theorem bareDisk_marked : bareDisk.Marked 26 0 ∧ bareDisk.Marked 25 0 :=
  ⟨balloc_marked (fun _ _ _ => rfl) (by decide) bareDisk_linked (b := 24) (by decide),
    balloc_marked (fun _ _ _ => rfl) (by decide) bareDisk_linked (b := 23) (by decide)⟩

theorem allocateExtents_apart_iff_bareDisk : ∃ starts after,
    allocateExtents mkfsSb 512 bareDisk = .ok (starts, after) ∧ ExtentsApart 29 starts := by
  obtain ⟨after, runs, -⟩ := allocateExtents_last 512 rfl bareDisk_marked.1 (by decide)
  refine ⟨_, after, runs, ?_⟩
  exact (allocateExtents_apart_iff rfl (fun _ _ _ => rfl) (by decide) bareDisk_linked runs).mpr
    (by decide)

/-- The call number 513 gives the blocks that the call number 65 has given. -/
theorem allocateExtents_twice : ∃ starts after,
    allocateExtents mkfsSb 513 bareDisk = .ok (starts, after) ∧ 0 ∉ starts ∧
      starts[64]? = some 99480 ∧ starts[512]? = some 99480 ∧ ¬ ExtentsApart 29 starts := by
  obtain ⟨middle, first, isFull, marked, others⟩ :=
    allocateExtents_last 512 rfl bareDisk_marked.1 (by decide)
  have next := getfreestartblkno_before isFull marked (by decide)
    (others 25 0 (by decide) bareDisk_marked.2) (by decide)
  have second : allocateExtents mkfsSb 1 middle =
      .ok ([extentStart mkfsSb 26 64], middle.mark (25 * bsize + 0)) := by
    rw [allocateExtents, next]
    rfl
  have runs := allocateExtents_add 1 first
  rw [second] at runs
  have isStart : extentStart mkfsSb 26 64 = 99480 := by decide
  have early : ((List.range 512).map (fun index => extentStart mkfsSb 26 (0 + index)) ++
      [extentStart mkfsSb 26 64])[64]? = some 99480 := by
    simp_all
  have late : ((List.range 512).map (fun index => extentStart mkfsSb 26 (0 + index)) ++
      [extentStart mkfsSb 26 64])[512]? = some 99480 := by
    simp_all
  refine ⟨_, _, runs, fun isIn => ?_, early, late, fun apart => ?_⟩
  · rcases List.mem_append.mp isIn with isIn | isIn
    · obtain ⟨index, isIndex, isZero⟩ := List.mem_map.mp isIn
      have inRange := List.mem_range.mp isIndex
      have toNat := extentStart_last (show 0 + index < bsize by unfold bsize; omega)
      rw [isZero] at toNat
      unfold fssize at toNat
      change 0 = _ at toNat
      omega
    · grind
  have twice := (List.pairwise_append.mp apart.1).2.2 _ (List.mem_map.mpr
    ⟨64, List.mem_range.mpr (by decide), rfl⟩) _ List.mem_cons_self
  rw [Nat.zero_add] at twice
  omega

end Xk
