/-
This file compares two runs of `writei` that differ in one byte of the source.

The loops of `writei` and `appendi` take every turn from the extents and from lengths, and the
search for free blocks only asks which bytes of the bitmap are zero. So two sources that differ in
one byte, with no zero at this place in either, are written by the same turns, and the disks that
they leave differ in one byte at most. A theorem about where a byte must be found then says where
the one place of the difference is.
-/

import Xk.ExtentAllocation
import Xk.Overwriting

namespace Xk

open Outcome

/-! ### Disks that differ in one byte -/

/-- The disks differ at `place` at most, and neither is zero there if they do. -/
structure Differ (place : Nat) (disk other : Disk) : Prop where
  disksize : other.disksize = disk.disksize
  same : ∀ address, address ≠ place → other.bytes address = disk.bytes address
  zero : other.bytes place = 0 ↔ disk.bytes place = 0

namespace Differ

variable {place : Nat} {disk other : Disk} (differ : Differ place disk other)
include differ

theorem store (start : Nat) (cells : List UInt8) :
    Differ place (disk.store start cells) (other.store start cells) := by
  have written : ∀ address, (other.store start cells).bytes address =
      (disk.store start cells).bytes address ∨
        ((other.store start cells).bytes address = other.bytes address ∧
          (disk.store start cells).bytes address = disk.bytes address) := by
    intro address
    simp only [Disk.store_bytes, Bytes.write]
    split_ifs
    · grind
    · exact Or.inr ⟨rfl, rfl⟩
  refine ⟨differ.disksize, fun address different => ?_, ?_⟩
  · grind [Differ]
  · grind [Differ]

theorem mark (address : Nat) : Differ place (disk.mark address) (other.mark address) := by
  refine ⟨differ.disksize, fun somewhere different => ?_, ?_⟩
  · show Function.update _ _ _ _ = Function.update _ _ _ _
    by_cases here : somewhere = address
    · rw [here, Function.update_self, Function.update_self]
    · rw [Function.update_of_ne here, Function.update_of_ne here, differ.same _ different]
  · show Function.update _ _ _ _ = _ ↔ Function.update _ _ _ _ = _
    by_cases here : place = address
    · rw [here, Function.update_self, Function.update_self]
    · rw [Function.update_of_ne here, Function.update_of_ne here, differ.zero]

theorem bread_ok {blockno : UInt32} {block : List UInt8} (isRead : bread disk blockno = .ok block) :
    block = Bytes.load disk.bytes (blockOffset blockno) bsize ∧
      bread other blockno = .ok (Bytes.load other.bytes (blockOffset blockno) bsize) := by
  grind [bread, Differ]

/-- The search for a zero byte has the same result. -/
theorem freeScan {sb : Superblock} {count : Nat} {startblkno : UInt32} {after : Disk}
    (found : freeScan disk sb count = .ok (startblkno, after)) :
    ∃ otherAfter, Xk.freeScan other sb count = .ok (startblkno, otherAfter) ∧
      Differ place after otherAfter := by
  induction count with
  | zero =>
    obtain ⟨rfl, rfl⟩ := ok_pair found
    exact ⟨other, rfl, differ⟩
  | succ i inductionHypothesis =>
    rw [Xk.freeScan] at found ⊢
    split_ifs at found ⊢
    · grind
    · obtain ⟨block, isRead, found⟩ := ok_of_bind found
      obtain ⟨isBlock, otherRead⟩ := differ.bread_ok isRead
      rw [isBlock] at found
      have sameIndex : (Bytes.load other.bytes (blockOffset (UInt32.ofNat i)) bsize).findIdx?
            (· = 0) =
          (Bytes.load disk.bytes (blockOffset (UInt32.ofNat i)) bsize).findIdx? (· = 0) := by
        have sameZeros : ∀ start : Nat,
            (fun cell : UInt8 => decide (cell = 0)) ∘ (fun index => other.bytes (start + index)) =
              (fun cell => decide (cell = 0)) ∘ fun index => disk.bytes (start + index) := by
          grind [Differ]
        rw [Bytes.load, Bytes.load, List.findIdx?_map, List.findIdx?_map, sameZeros]
      rw [otherRead, ok_bind, sameIndex]
      cases isFound :
          (Bytes.load disk.bytes (blockOffset (UInt32.ofNat i)) bsize).findIdx? (· = 0) with
      | none => grind
      | some j =>
        rw [isFound] at found
        obtain ⟨rfl, rfl⟩ := ok_pair found
        have inBlock : j < bsize := by grind [List.findIdx?_eq_some_iff_getElem, Bytes.load_length]
        refine ⟨_, rfl, ?_⟩
        have marked := differ.mark (blockOffset (UInt32.ofNat i) + j)
        simp only [Disk.mark] at marked
        simp only [bwrite, write_set_load _ _ inBlock]
        exact marked

end Differ

/-- The extent of a slot, which gets blocks if it has none. -/
def fillSlot (sb : Superblock) (disk : Disk) (extent : Extent) : Except Halt (Extent × Disk) :=
  if extent.nblocks = 0 then do
    let (startblkno, disk) ← getfreestartblkno disk sb
    return (⟨startblkno, 8⟩, disk)
  else return (extent, disk)

section Turns

variable {sb : Superblock} {append : UInt32} {turns : Nat} {disk : Disk} {extents : Extents}
  {data : Nat} {size tot : UInt32} {src : List UInt8}

theorem appendiLoop_done (done : ¬ tot < append) :
    appendiLoop sb append (turns + 1) disk extents data size tot src = .ok (disk, extents) := by
  rw [appendiLoop, if_neg done]

section More

variable (more : tot < append)
include more

theorem appendiLoop_succ (inArray : data < extentN) :
    appendiLoop sb append (turns + 1) disk extents data size tot src = (do
      let (extent, disk) ← fillSlot sb disk (extents.get ⟨data, inArray⟩)
      if size < extent.nblocks * 512 then do
        let block ← bread disk (extent.startblkno + size / 512)
        let changed ← copyIn block src (size % 512) (chunk append size tot)
        appendiLoop sb append turns (bwrite disk (extent.startblkno + size / 512) changed)
          (extents.set ⟨data, inArray⟩ extent) (data + 1) (size + chunk append size tot)
          (tot + chunk append size tot) (src.drop (chunk append size tot).toNat)
      else
        appendiLoop sb append turns disk (extents.set ⟨data, inArray⟩ extent) (data + 2) 0 tot
          src) := by
  rw [appendiLoop, if_pos more, dif_pos inArray, fillSlot]
  by_cases empty : (extents.get ⟨data, inArray⟩).nblocks = 0
  · simp only [if_pos empty, bind_assoc, pure_bind]
    rfl
  · simp only [if_neg empty, pure_bind]
    rfl

variable {inArray : data < extentN} {extent : Extent} {filled : Disk}
  (isFilled : fillSlot sb disk (extents.get ⟨data, inArray⟩) = .ok (extent, filled))
include isFilled

theorem appendiLoop_moves (behind : ¬ size < extent.nblocks * 512) :
    appendiLoop sb append (turns + 1) disk extents data size tot src =
      appendiLoop sb append turns filled (extents.set ⟨data, inArray⟩ extent) (data + 2) 0 tot
        src := by
  grind [appendiLoop_succ, ok_bind]

theorem appendiLoop_copies (inside : size < extent.nblocks * 512) {block : List UInt8}
    (isRead : bread filled (extent.startblkno + size / 512) = .ok block)
    (long : (chunk append size tot).toNat ≤ src.length) :
    appendiLoop sb append (turns + 1) disk extents data size tot src =
      appendiLoop sb append turns
        (filled.store (blockOffset (extent.startblkno + size / 512) + (size % 512).toNat)
          (src.take (chunk append size tot).toNat))
        (extents.set ⟨data, inArray⟩ extent) (data + 1) (size + chunk append size tot)
        (tot + chunk append size tot) (src.drop (chunk append size tot).toNat) := by
  obtain ⟨changed, copied, stored⟩ := copyIn_bwrite isRead (chunk_within more) long
  rw [appendiLoop_succ more inArray, isFilled, ok_bind]
  dsimp only
  rw [if_pos inside, isRead, ok_bind, copied, ok_bind, stored]

end More

/-- What a turn of the loop that comes to an end does. -/
theorem appendiLoop_turn {result : Disk × Extents} (more : tot < append)
    (appended : appendiLoop sb append (turns + 1) disk extents data size tot src = .ok result) :
    ∃ (inArray : data < extentN) (extent : Extent) (filled : Disk),
      fillSlot sb disk (extents.get ⟨data, inArray⟩) = .ok (extent, filled) ∧
      ((¬ size < extent.nblocks * 512 ∧
        appendiLoop sb append turns filled (extents.set ⟨data, inArray⟩ extent) (data + 2) 0 tot
          src = .ok result) ∨
      (size < extent.nblocks * 512 ∧
        (∃ block, bread filled (extent.startblkno + size / 512) = .ok block) ∧
        (chunk append size tot).toNat ≤ src.length ∧
        appendiLoop sb append turns
          (filled.store (blockOffset (extent.startblkno + size / 512) + (size % 512).toNat)
            (src.take (chunk append size tot).toNat))
          (extents.set ⟨data, inArray⟩ extent) (data + 1) (size + chunk append size tot)
          (tot + chunk append size tot) (src.drop (chunk append size tot).toNat) =
            .ok result)) := by
  by_cases inArray : data < extentN
  · have ran := appended
    rw [appendiLoop_succ more inArray] at ran
    obtain ⟨⟨extent, filled⟩, isFilled, ran⟩ := ok_of_bind ran
    refine ⟨inArray, extent, filled, isFilled, ?_⟩
    by_cases inside : size < extent.nblocks * 512
    · dsimp only at ran
      rw [if_pos inside] at ran
      obtain ⟨block, isRead, ran⟩ := ok_of_bind ran
      obtain ⟨changed, copied, _⟩ := ok_of_bind ran
      refine Or.inr ⟨inside, ⟨block, isRead⟩, copyIn_ok copied, ?_⟩
      rwa [appendiLoop_copies more isFilled inside isRead (copyIn_ok copied)] at appended
    · grind
  · grind [appendiLoop]

/-- The slots before the one of a turn stay as they are. -/
theorem appendiLoop_keeps {after : Disk} {extentsAfter : Extents}
    (appended : appendiLoop sb append turns disk extents data size tot src =
      .ok (after, extentsAfter)) (slot : Fin extentN) (before : slot.val < data) :
    extentsAfter.get slot = extents.get slot := by
  induction turns generalizing disk extents data size tot src with
  | zero => cases appended
  | succ turns inductionHypothesis =>
    by_cases more : tot < append
    · obtain ⟨inArray, extent, filled, _, ⟨_, moved⟩ | ⟨_, _, _, copied⟩⟩ :=
        appendiLoop_turn more appended
      all_goals
        rw [inductionHypothesis (by assumption) (by omega),
          List.Vector.get_set_of_ne fun same => lt_irrefl _ (same ▸ before)]
    · grind [appendiLoop_done]

/-- The loop comes to an end only if there are slots for every block of the source. -/
theorem appendiLoop_bound {result : Disk × Extents}
    (appended : appendiLoop sb append turns disk extents data size tot src = .ok result) :
    append.toNat - tot.toNat ≤ (extentN - data) * bsize := by
  induction turns generalizing disk extents data size tot src with
  | zero => cases appended
  | succ turns inductionHypothesis =>
    by_cases more : tot < append
    · have moreNat : tot.toNat < append.toNat := UInt32.lt_iff_toNat_lt.mp more
      obtain ⟨inArray, extent, filled, _, ⟨_, moved⟩ | ⟨_, _, _, copied⟩⟩ :=
        appendiLoop_turn more appended
      · grind
      · grind [toNat_chunk, UInt32.toNat_lt, toNat_add_of_lt]
    · rw [UInt32.lt_iff_toNat_lt] at more
      omega

end Turns

/-! ### Two runs of `appendi` -/

theorem Differ.fillSlot {place : Nat} {disk other : Disk} (differ : Differ place disk other)
    {sb : Superblock} {slot extent : Extent} {filled : Disk}
    (isFilled : fillSlot sb disk slot = .ok (extent, filled)) :
    ∃ otherFilled, Xk.fillSlot sb other slot = .ok (extent, otherFilled) ∧
      Differ place filled otherFilled := by
  rw [Xk.fillSlot] at isFilled ⊢
  split_ifs at isFilled ⊢
  · obtain ⟨⟨startblkno, after⟩, found, isFilled⟩ := ok_of_bind isFilled
    obtain ⟨rfl, rfl⟩ := ok_pair isFilled
    obtain ⟨otherAfter, otherFound, differAfter⟩ := differ.freeScan found
    refine ⟨otherAfter, ?_, differAfter⟩
    rw [getfreestartblkno, otherFound]
    rfl
  · obtain ⟨rfl, rfl⟩ := ok_pair isFilled
    exact ⟨other, rfl, differ⟩

/-- Two runs on disks that differ in one byte. -/
theorem Differ.appendiLoop {place : Nat} {disk other : Disk} (differ : Differ place disk other)
    {sb : Superblock} {append : UInt32} {turns : Nat} {extents extentsAfter : Extents} {data : Nat}
    {size tot : UInt32} {src : List UInt8} {after : Disk}
    (appended : appendiLoop sb append turns disk extents data size tot src =
      .ok (after, extentsAfter)) :
    ∃ otherAfter, Xk.appendiLoop sb append turns other extents data size tot src =
      .ok (otherAfter, extentsAfter) ∧ Differ place after otherAfter := by
  induction turns generalizing disk other extents data size tot src with
  | zero => cases appended
  | succ turns inductionHypothesis =>
    by_cases more : tot < append
    · obtain ⟨inArray, extent, filled, isFilled, ⟨behind, moved⟩ |
        ⟨inside, ⟨block, isRead⟩, long, copied⟩⟩ := appendiLoop_turn more appended
      · grind [fillSlot, appendiLoop_moves]
      · obtain ⟨otherFilled, otherIsFilled, differFilled⟩ := differ.fillSlot isFilled
        rw [appendiLoop_copies more otherIsFilled inside (differFilled.bread_ok isRead).2 long]
        exact inductionHypothesis (differFilled.store _ _) copied
    · grind [appendiLoop_done]

end Xk
