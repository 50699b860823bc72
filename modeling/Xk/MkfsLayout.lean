/-
This file proves what image `mkfs` makes: where each inode, each directory entry and the contents
of each file stand, and that `mkfs` succeeds exactly as long as the files fit.

An inode or a part of a file is written by rewriting whole sectors, which amounts to writing its
own range of the image. The loops then keep every range that was written before: all of them are
apart from the inode, the directory entry and the data of the file at hand.
-/

import Xk.Mkfs

namespace Xk

variable {sec inum off startblkno : UInt32} {image : Image} {din : Dinode} {count : Nat}
  {p : List UInt8}

/-! ### Sectors -/

/-- The bytes of the image. -/
def imageBytes : Nat := fssize * bsize

/-- The image after `bytes` are written to a range inside it. -/
def Image.store (image : Image) (address : Nat) (bytes : List UInt8) : Image :=
  { image with bytes := Bytes.write image.bytes address bytes }

@[simp] theorem Image.store_bytes (image : Image) (address : Nat) (bytes : List UInt8) :
    (image.store address bytes).bytes = Bytes.write image.bytes address bytes := rfl

theorem sectorOffset_of_le (inRange : sec.toNat ≤ fssize) :
    sectorOffset sec = sec.toNat * bsize := by
  grind [sectorOffset, UInt32.toNat_mul]

theorem rsect_of_lt (full : image.length = imageBytes) (inRange : sec.toNat < fssize) :
    rsect image sec = .ok (Bytes.load image.bytes (sec.toNat * bsize) bsize) := by
  grind [imageBytes, rsect, sectorOffset_of_le]

/-- A sector behind the end of the image whose offset does not wrap. -/
theorem rsect_of_ge (full : image.length = imageBytes) (behind : fssize ≤ sec.toNat)
    (inRange : sec.toNat * bsize < 2 ^ 32) :
    rsect image sec = .error .read := by
  have offset : sectorOffset sec = sec.toNat * bsize := by grind [sectorOffset, UInt32.toNat_mul]
  have outside : ¬ sectorOffset sec + bsize ≤ image.length := by grind [imageBytes]
  rw [rsect, if_neg outside]

/-- Changing a part of a sector through a buffer is writing the part. -/
theorem wsect_patch (full : image.length = imageBytes) (inRange : sec.toNat < fssize) {offset : Nat}
    {bytes : List UInt8} (inside : offset + bytes.length ≤ bsize) :
    wsect image sec (patch (Bytes.load image.bytes (sec.toNat * bsize) bsize) offset bytes) =
      image.store (sec.toNat * bsize + offset) bytes := by
  have fits : sec.toNat * bsize + bsize ≤ image.length := by grind [imageBytes]
  rw [wsect, sectorOffset_of_le inRange.le, max_eq_left fits, patch, Bytes.write_patch _ inside]
  rfl

/-! ### Inodes -/

/-- The address of an inode. -/
def inodeAddress (inum : Nat) : Nat := nmeta * bsize + inum * dinodeSize

/-- The inodes for which the image has room behind the bitmap. -/
abbrev maxInodes : Nat := (fssize - nmeta) * ipb

theorem inodeSector_toNat (inRange : inum.toNat ≤ maxInodes) :
    (inodeSector inum).toNat = nmeta + inum.toNat / ipb := by
  have sector : inum.toNat * dinodeSize / bsize = inum.toNat / ipb := by grind
  rw [inodeSector, sector, UInt32.toNat_add, UInt32.toNat_ofNat']
  show (27 + inum.toNat / 8 % 2 ^ 32) % 2 ^ 32 = 27 + inum.toNat / 8
  change inum.toNat ≤ 799784 at inRange
  omega

theorem inodeSector_lt (inRange : inum.toNat < maxInodes) :
    (inodeSector inum).toNat < fssize := by
  grind [inodeSector_toNat]

theorem inodeSector_address (inRange : inum.toNat < maxInodes) :
    (inodeSector inum).toNat * bsize + inodeInSector inum = inodeAddress inum.toNat := by
  rw [inodeSector_toNat inRange.le]
  show (27 + inum.toNat / 8) * 512 + inum.toNat % 8 * 64 = 27 * 512 + inum.toNat * 64
  omega

theorem inodeInSector_le (inum : UInt32) : inodeInSector inum + dinodeSize ≤ bsize := by
  show inum.toNat % 8 * 64 + 64 ≤ 512
  omega

theorem winode_eq (full : image.length = imageBytes) (inRange : inum.toNat < maxInodes)
    (din : Dinode) :
    winode image inum din = .ok (image.store (inodeAddress inum.toNat) din.encode) := by
  have inside : inodeInSector inum + din.encode.length ≤ bsize := by
    rw [din.encode_length]
    exact inodeInSector_le inum
  rw [winode, rsect_of_lt full (inodeSector_lt inRange)]
  show Except.ok _ = Except.ok _
  rw [wsect_patch full (inodeSector_lt inRange) inside, inodeSector_address inRange]

/-- There is no sector for the inode behind the last one. -/
theorem winode_of_full (full : image.length = imageBytes) (isNext : inum.toNat = maxInodes)
    (din : Dinode) : winode image inum din = .error .read := by
  have sector : (inodeSector inum).toNat = fssize := by
    rw [inodeSector_toNat isNext.le, isNext]
    decide
  rw [winode, rsect_of_ge full sector.ge (by rw [sector]; decide)]
  rfl

/-- The image has this inode. -/
def Image.HasInode (image : Image) (inum : Nat) (din : Dinode) : Prop :=
  Bytes.Holds image.bytes (inodeAddress inum) din.encode

theorem rinode_eq (full : image.length = imageBytes) (inRange : inum.toNat < maxInodes)
    (has : image.HasInode inum.toNat din) :
    rinode image inum = .ok din := by
  rw [rinode, rsect_of_lt full (inodeSector_lt inRange)]
  show Except.ok _ = Except.ok _
  have read : Bytes.load image.bytes (inodeAddress inum.toNat) dinodeSize = din.encode := by
    rw [← din.encode_length]
    exact has
  rw [Bytes.take_drop_load image.bytes (inodeInSector_le inum), inodeSector_address inRange, read,
    din.decode_encode]

theorem Image.hasInode_store (image : Image) (inum : Nat) (din : Dinode) :
    (image.store (inodeAddress inum) din.encode).HasInode inum din :=
  Bytes.holds_write image.bytes _ _

/-! ### Appending -/

theorem Image.store_append (image : Image) (address : Nat) (first second : List UInt8) :
    image.store address (first ++ second) =
      (image.store address first).store (address + first.length) second := by
  simp only [Image.store, Bytes.write_append]

/-- An offset on the disk moves on without wrapping. -/
theorem toNat_add_ofNat_of_le (inRange : off.toNat + count ≤ imageBytes) :
    (off + UInt32.ofNat count).toNat = off.toNat + count := by
  grind [UInt32.toNat_add, UInt32.toNat_ofNat', imageBytes]

/-- The sector of an offset in a file. -/
theorem appendSector (inRange : startblkno.toNat * bsize + off.toNat < 2 ^ 32) :
    (startblkno + off / 512).toNat = startblkno.toNat + off.toNat / bsize := by
  grind [UInt32.toNat_add, UInt32.toNat_div]

theorem appendSector_lt (inRange : startblkno.toNat * bsize + off.toNat < imageBytes) :
    startblkno.toNat + off.toNat / bsize < fssize := by
  have block := Nat.div_lt_of_lt_mul (k := fssize) (by rwa [Nat.mul_comm] : _ < bsize * fssize)
  rwa [Nat.mul_comm, Nat.mul_add_div (by decide)] at block

theorem appendSector_ge (behind : imageBytes ≤ startblkno.toNat * bsize + off.toNat) :
    fssize ≤ startblkno.toNat + off.toNat / bsize := by
  grind [imageBytes]

theorem sectorEnd_le {start off blocks : Nat} (inRange : start + off / bsize < blocks)
    (inSector : count ≤ bsize - off % bsize) : start * bsize + off + count ≤ blocks * bsize := by
  unfold bsize at *
  omega

/-- One turn of the loop of `iappend`: it writes up to the end of the sector or of the data. -/
theorem appendLoop_turn {turns : Nat} (full : image.length = imageBytes) {byte : UInt8}
    {bytes : List UInt8} (inRange : startblkno.toNat * bsize + off.toNat < imageBytes) {n1 : Nat}
    (isMin : n1 = min (byte :: bytes).length (bsize - off.toNat % bsize)) :
    appendLoop startblkno (turns + 1) image off (byte :: bytes) =
      appendLoop startblkno turns
        (image.store (startblkno.toNat * bsize + off.toNat) ((byte :: bytes).take n1))
        (off + UInt32.ofNat n1) ((byte :: bytes).drop n1) := by
  have sector := appendSector (inRange.trans (by decide))
  have sectorLt : (startblkno + off / 512).toNat < fssize := by
    rw [sector]
    exact appendSector_lt inRange
  have block : (off / 512 * 512).toNat = off.toNat / bsize * bsize := by
    grind [UInt32.toNat_mul, UInt32.toNat_div]
  have inSector : (off - off / 512 * 512).toNat = off.toNat % bsize := by
    grind [UInt32.toNat_sub_of_le]
  have toEnd : ((off / 512 + 1) * 512 - off).toNat = bsize - off.toNat % bsize := by
    have next : ((off / 512 + 1) * 512).toNat = off.toNat / bsize * bsize + bsize := by
      grind [UInt32.toNat_mul, UInt32.toNat_add]
    rw [UInt32.toNat_sub_of_le, next]
    · grind
    · grind [UInt32.le_iff_toNat_le]
  have inside : off.toNat % bsize + ((byte :: bytes).take n1).length ≤ bsize := by grind
  have address : (startblkno + off / 512).toNat * bsize + off.toNat % bsize =
      startblkno.toNat * bsize + off.toNat := by
    rw [sector, Nat.add_mul, Nat.add_assoc, Nat.div_add_mod']
  rw [appendLoop, rsect_of_lt full sectorLt, toEnd, ← isMin, inSector]
  show appendLoop _ _ (wsect _ _ _) _ _ = _
  rw [wsect_patch full sectorLt inside, address]

/-- The loop of `iappend` while the file fits on the disk: it writes one range. -/
theorem appendLoop_of_fits (startblkno : UInt32) (turns : Nat) (image : Image)
    (full : image.length = imageBytes) (off : UInt32) (p : List UInt8) (enough : p.length ≤ turns)
    (fits : startblkno.toNat * bsize + off.toNat + p.length ≤ imageBytes) :
    appendLoop startblkno turns image off p =
      .ok (image.store (startblkno.toNat * bsize + off.toNat) p,
        UInt32.ofNat (off.toNat + p.length)) := by
  induction turns generalizing image off p with
  | zero =>
    obtain rfl : p = [] := List.eq_nil_of_length_eq_zero (Nat.le_zero.mp enough)
    simp [appendLoop, Image.store]
  | succ turns inductionHypothesis =>
    cases p with
    | nil => simp [appendLoop, Image.store]
    | cons byte bytes =>
      set p := byte :: bytes with isCons
      have positive : 0 < p.length := List.length_pos_of_ne_nil (List.cons_ne_nil byte bytes)
      set n1 := min p.length (bsize - off.toNat % bsize) with isMin
      have bound := Nat.mod_lt off.toNat (show 0 < bsize by decide)
      have someByte : 0 < n1 := by omega
      have taken : (p.take n1).length = n1 := List.length_take_of_le (by omega)
      have dropped : (p.drop n1).length = p.length - n1 := List.length_drop
      have nextOff : (off + UInt32.ofNat n1).toNat = off.toNat + n1 :=
        toNat_add_ofNat_of_le (by omega)
      rw [isCons, appendLoop_turn full (by omega) isMin, ← isCons,
        inductionHypothesis (image.store _ _) (by exact full) _ _ (by omega) (by omega), nextOff,
        dropped, ← Nat.add_assoc (startblkno.toNat * bsize)]
      have whole :=
        image.store_append (startblkno.toNat * bsize + off.toNat) (p.take n1) (p.drop n1)
      rw [taken, List.take_append_drop] at whole
      rw [whole, Nat.add_assoc off.toNat, Nat.add_sub_cancel' (by omega)]

/-- The loop of `iappend` fails when the file runs over the end of the disk, or begins there. -/
theorem appendLoop_of_full (startblkno : UInt32) (turns : Nat) (image : Image)
    (full : image.length = imageBytes) (off : UInt32) (p : List UInt8) (notEmpty : p ≠ [])
    (inRange : startblkno.toNat * bsize + off.toNat < 2 ^ 32)
    (tooLong : imageBytes < startblkno.toNat * bsize + off.toNat + p.length) :
    appendLoop startblkno turns image off p = .error .read := by
  induction turns generalizing image off p with
  | zero =>
    cases p with
    | nil => exact absurd rfl notEmpty
    | cons => rfl
  | succ turns inductionHypothesis =>
    cases p with
    | nil => exact absurd rfl notEmpty
    | cons byte bytes =>
      rcases Nat.lt_or_ge (startblkno.toNat * bsize + off.toNat) imageBytes with inImage | behind
      · set n1 := min (byte :: bytes).length (bsize - off.toNat % bsize) with isMin
        have dropped : ((byte :: bytes).drop n1).length = (byte :: bytes).length - n1 :=
          List.length_drop
        -- the sector ends on the disk, so the next turn begins there
        have sectorEnd : startblkno.toNat * bsize + off.toNat + n1 ≤ imageBytes := by
          exact sectorEnd_le (appendSector_lt inImage) (isMin ▸ min_le_right _ _)
        have nextOff : (off + UInt32.ofNat n1).toNat = off.toNat + n1 :=
          toNat_add_ofNat_of_le (le_trans (by omega) sectorEnd)
        rw [appendLoop_turn full inImage isMin]
        apply inductionHypothesis (image.store _ _) (by exact full)
        · grind
        · rw [nextOff, ← Nat.add_assoc]
          exact sectorEnd.trans_lt (by decide)
        · omega
      · have sector := appendSector inRange
        have sectorBehind : fssize ≤ (startblkno + off / 512).toNat := by
          rw [sector]
          exact appendSector_ge behind
        have inWord : (startblkno + off / 512).toNat * bsize < 2 ^ 32 := by grind
        rw [appendLoop, rsect_of_ge full sectorBehind inWord]
        rfl

/-- The address at which the next byte of a file goes. -/
def Dinode.endAddress (din : Dinode) : Nat :=
  din.data.head.startblkno.toNat * bsize + din.size.toNat

/-- The inode after its file grew. -/
def Dinode.grow (din : Dinode) (count : Nat) : Dinode :=
  { din with size := UInt32.ofNat (din.size.toNat + count) }

@[simp] theorem Dinode.grow_zero (din : Dinode) : din.grow 0 = din := by simp [Dinode.grow]

theorem Dinode.grow_size (inRange : din.endAddress + count ≤ imageBytes) :
    (din.grow count).size.toNat = din.size.toNat + count := by
  show (UInt32.ofNat (din.size.toNat + count)).toNat = _
  rw [UInt32.toNat_ofNat']
  apply Nat.mod_eq_of_lt
  unfold Dinode.endAddress imageBytes fssize bsize at inRange
  omega

theorem Dinode.endAddress_grow (inRange : din.endAddress + count ≤ imageBytes) :
    (din.grow count).endAddress = din.endAddress + count := by
  rw [Dinode.endAddress, Dinode.grow_size inRange, Dinode.endAddress, Nat.add_assoc]
  rfl

theorem Dinode.grow_grow {first second : Nat} (inRange : din.endAddress + first ≤ imageBytes) :
    (din.grow first).grow second = din.grow (first + second) := by
  rw [Dinode.grow, Dinode.grow_size inRange, Dinode.grow, Dinode.grow, Nat.add_assoc]

/-- `after` is `before` with `p` appended to the file of an inode. -/
structure Image.Appended (before after : Image) (inum : Nat) (din : Dinode) (p : List UInt8) :
    Prop where
  length : after.length = before.length
  inode : after.HasInode inum (din.grow p.length)
  data : Bytes.Holds after.bytes din.endAddress p
  others : ∀ address, (address < inodeAddress inum ∨ inodeAddress inum + dinodeSize ≤ address) →
    (address < din.endAddress ∨ din.endAddress + p.length ≤ address) →
    after.bytes address = before.bytes address

theorem iappend_of_fits (full : image.length = imageBytes) (inRange : inum.toNat < maxInodes)
    (has : image.HasInode inum.toNat din)
    (behind : inodeAddress inum.toNat + dinodeSize ≤ din.endAddress)
    (fits : din.endAddress + p.length ≤ imageBytes) :
    ∃ after, iappend image inum p = .ok after ∧ image.Appended after inum.toNat din p := by
  have inodeEnd : inodeAddress inum.toNat + (din.grow p.length).encode.length =
      inodeAddress inum.toNat + dinodeSize := by
    rw [Dinode.encode_length]
  refine ⟨(image.store din.endAddress p).store (inodeAddress inum.toNat)
    (din.grow p.length).encode, ?_, rfl, Image.hasInode_store _ _ _, ?_, ?_⟩
  · rw [iappend, rinode_eq full inRange has]
    show Except.bind (appendLoop din.data.head.startblkno p.length image din.size p) _ = _
    rw [appendLoop_of_fits _ _ image full din.size p le_rfl fits]
    exact winode_eq (by exact full) inRange _
  · exact Bytes.Holds.write_of_apart (Bytes.holds_write image.bytes din.endAddress p)
      (Or.inr (inodeEnd.trans_le behind))
  · intro address outsideInode outsideData
    rw [← inodeEnd] at outsideInode
    rw [Image.store_bytes, Bytes.write_of_outside _ outsideInode, Image.store_bytes,
      Bytes.write_of_outside _ outsideData]

theorem iappend_of_full (full : image.length = imageBytes) (inRange : inum.toNat < maxInodes)
    (has : image.HasInode inum.toNat din) (endInRange : din.endAddress < 2 ^ 32) (notEmpty : p ≠ [])
    (tooLong : imageBytes < din.endAddress + p.length) :
    iappend image inum p = .error .read := by
  rw [iappend, rinode_eq full inRange has]
  show Except.bind (appendLoop din.data.head.startblkno p.length image din.size p) _ = _
  rw [appendLoop_of_full _ _ image full din.size p notEmpty endInRange tooLong]
  rfl

theorem Image.Appended.refl {inum : Nat} (has : image.HasInode inum din) :
    image.Appended image inum din [] :=
  ⟨rfl, by rwa [List.length_nil, din.grow_zero], Bytes.holds_nil _ _, fun _ _ _ => rfl⟩

theorem Image.Appended.trans {before between after : Image} {inum : Nat} {first second : List UInt8}
    (left : before.Appended between inum din first)
    (right : between.Appended after inum (din.grow first.length) second)
    (behind : inodeAddress inum + dinodeSize ≤ din.endAddress)
    (fits : din.endAddress + first.length ≤ imageBytes) :
    before.Appended after inum din (first ++ second) := by
  have endAddress := Dinode.endAddress_grow fits
  have data := right.data
  have others := right.others
  rw [endAddress] at data others
  refine ⟨right.length.trans left.length, ?_, Bytes.holds_append_iff.mpr ⟨?_, data⟩, ?_⟩
  · grind [Dinode.grow_grow, Image.Appended]
  · grind [Bytes.Holds.congr, Image.Appended]
  · grind [others]

/-- The loop over what `read` returns. -/
theorem appendAll_of_fits (inRange : inum.toNat < maxInodes) (chunks : List (List UInt8))
    (full : image.length = imageBytes) (has : image.HasInode inum.toNat din)
    (behind : inodeAddress inum.toNat + dinodeSize ≤ din.endAddress)
    (fits : din.endAddress + chunks.flatten.length ≤ imageBytes) :
    ∃ after, chunks.foldlM (fun image chunk => iappend image inum chunk) image = .ok after ∧
      image.Appended after inum.toNat din chunks.flatten := by
  induction chunks generalizing image din with
  | nil => exact ⟨image, rfl, .refl has⟩
  | cons chunk chunks inductionHypothesis =>
    rw [List.flatten_cons, List.length_append] at fits
    have chunkFits : din.endAddress + chunk.length ≤ imageBytes := by omega
    have endAddress := Dinode.endAddress_grow chunkFits
    obtain ⟨between, appended, left⟩ := iappend_of_fits full inRange has behind chunkFits
    obtain ⟨after, rest, right⟩ := inductionHypothesis (left.length.trans full) left.inode
      (by omega) (by omega)
    refine ⟨after, ?_, left.trans right behind chunkFits⟩
    rw [List.foldlM_cons, appended]
    exact rest

theorem appendAll_of_full (inRange : inum.toNat < maxInodes) (chunks : List (List UInt8))
    (full : image.length = imageBytes) (has : image.HasInode inum.toNat din)
    (behind : inodeAddress inum.toNat + dinodeSize ≤ din.endAddress)
    (endInRange : din.endAddress < 2 ^ 32) (notEmpty : chunks ≠ [])
    (sized : ∀ chunk ∈ chunks, 0 < chunk.length)
    (tooLong : imageBytes < din.endAddress + chunks.flatten.length) :
    chunks.foldlM (fun image chunk => iappend image inum chunk) image = .error .read := by
  induction chunks generalizing image din with
  | nil => exact absurd rfl notEmpty
  | cons chunk chunks inductionHypothesis =>
    rw [List.flatten_cons, List.length_append] at tooLong
    rw [List.foldlM_cons]
    by_cases chunkFits : din.endAddress + chunk.length ≤ imageBytes
    · have endAddress := Dinode.endAddress_grow chunkFits
      obtain ⟨between, appended, left⟩ := iappend_of_fits full inRange has behind chunkFits
      rw [appended]
      refine inductionHypothesis (left.length.trans full) left.inode (by omega) ?_ ?_
        (fun later member => sized later (List.mem_cons_of_mem chunk member)) (by omega)
      · rw [endAddress]
        exact chunkFits.trans_lt (by decide)
      · grind
    · have chunkNotEmpty : chunk ≠ [] :=
        List.ne_nil_of_length_pos (sized chunk List.mem_cons_self)
      rw [iappend_of_full full inRange has endInRange chunkNotEmpty (Nat.lt_of_not_le chunkFits)]
      rfl

/-! ### The parts of the image -/

/-- The first block of the root directory, for a number of inodes. -/
def rootStart (count : Nat) : Nat := nmeta + inodefileBlocks count

/-- The first block of the files. -/
def dataStart (count : Nat) : Nat := rootStart count + blocksOf (count * direntSize)

theorem le_blocksOf (size : Nat) : size ≤ blocksOf size * bsize := by
  unfold blocksOf bsize
  split_ifs <;> omega

theorem blocksOf_pos {size : Nat} (positive : 0 < size) : 0 < blocksOf size := by
  unfold blocksOf bsize
  split_ifs <;> omega

theorem le_inodefileBlocks (count : Nat) :
    count * dinodeSize ≤ inodefileBlocks count * bsize := by
  show count * 64 ≤ (if count / 8 = 0 ∨ count * 64 % 512 ≠ 0 then count / 8 + 1
    else count / 8) * 512
  split_ifs <;> omega

theorem inodeAddress_le {inum : Nat} (inRange : inum < count) :
    inodeAddress inum + dinodeSize ≤ rootStart count * bsize := by
  have blocks : count * 64 ≤ inodefileBlocks count * 512 := le_inodefileBlocks count
  show 27 * 512 + inum * 64 + 64 ≤ (27 + inodefileBlocks count) * 512
  omega

theorem directory_le (count : Nat) :
    rootStart count * bsize + count * direntSize ≤ dataStart count * bsize := by
  rw [dataStart, Nat.add_mul]
  exact Nat.add_le_add_left (le_blocksOf _) _

theorem rootStart_le (few : count ≤ maxInodes) : rootStart count ≤ fssize := by
  show 27 + (if count / 8 = 0 ∨ count * 64 % 512 ≠ 0 then count / 8 + 1 else count / 8) ≤ 100000
  change count ≤ 799784 at few
  split_ifs <;> omega

theorem dataStart_lt (few : count ≤ maxInodes) : dataStart count < 2 * fssize := by
  grind [rootStart_le, blocksOf, dataStart]

/-- When the directory fits, the inodes do. -/
theorem le_maxInodes (fits : dataStart count ≤ fssize) : count ≤ maxInodes := by
  change 27 + (if count / 8 = 0 ∨ count * 64 % 512 ≠ 0 then count / 8 + 1 else count / 8) +
    (count * 16 / 512 + if count * 16 % 512 = 0 then 0 else 1) ≤ 100000 at fits
  show count ≤ 799784
  split_ifs at fits <;> omega

theorem superblock_le (inum : Nat) : bsize + mkfsSb.encode.length ≤ inodeAddress inum := by
  rw [Superblock.encode_length]
  show 512 + 16 ≤ 27 * 512 + inum * 64
  omega

theorem inodeAddress_apart {inum other : Nat} (different : inum ≠ other) :
    inodeAddress inum + dinodeSize ≤ inodeAddress other ∨
      inodeAddress other + dinodeSize ≤ inodeAddress inum := by
  show 27 * 512 + inum * 64 + 64 ≤ 27 * 512 + other * 64 ∨
    27 * 512 + other * 64 + 64 ≤ 27 * 512 + inum * 64
  omega

theorem inodeAddress_ge (inum : Nat) : nmeta * bsize ≤ inodeAddress inum := Nat.le_add_right _ _

theorem rootStart_ge (count : Nat) : nmeta * bsize ≤ rootStart count * bsize :=
  Nat.mul_le_mul_right bsize (Nat.le_add_right _ _)

attribute [irreducible] inodeAddress rootStart dataStart

/-- The image has the super block, the inodes below `count` that are given, the bytes of the root
directory, and pieces of data behind it. -/
structure Image.Holding (image : Image) (count : Nat) (inodes : Nat → Option Dinode)
    (directory : List UInt8) (data : List (Nat × List UInt8)) : Prop where
  length : image.length = imageBytes
  super : Bytes.Holds image.bytes bsize mkfsSb.encode
  inode : ∀ inum din, inodes inum = some din → inum < count ∧ image.HasInode inum din
  root : Bytes.Holds image.bytes (rootStart count * bsize) directory
  room : directory.length ≤ count * direntSize
  data : ∀ piece ∈ data, dataStart count * bsize ≤ piece.1 ∧ Bytes.Holds image.bytes piece.1 piece.2

/-- The bytes of the bitmap are zero. -/
def Image.Unmapped (image : Image) : Prop :=
  ∀ address, 2 * bsize ≤ address → address < nmeta * bsize → image.bytes address = 0

/-- The image before its bitmap is written. -/
structure Image.Building (image : Image) (count : Nat) (inodes : Nat → Option Dinode)
    (directory : List UInt8) (data : List (Nat × List UInt8)) : Prop
    extends image.Holding count inodes directory data where
  unmapped : image.Unmapped

section Building

variable {image after : Image} {count : Nat} {inodes : Nat → Option Dinode}
  {directory : List UInt8} {data : List (Nat × List UInt8)}

section

variable (building : image.Building count inodes directory data)
include building

theorem Image.Building.directoryEnd_le :
    rootStart count * bsize + directory.length ≤ dataStart count * bsize :=
  (Nat.add_le_add_left building.room _).trans (directory_le count)

/-- A change of one inode and of a range behind the directory in which no data is. -/
theorem Image.Building.of_change {inum : Nat} (start length : Nat) (inRange : inum < count)
    (full : after.length = image.length) (has : after.HasInode inum din)
    (behind : rootStart count * bsize + directory.length ≤ start)
    (apart : ∀ piece ∈ data, piece.1 + piece.2.length ≤ start ∨ start + length ≤ piece.1)
    (others : ∀ address, address < inodeAddress inum ∨ inodeAddress inum + dinodeSize ≤ address →
      address < start ∨ start + length ≤ address → after.bytes address = image.bytes address) :
    after.Building count (Function.update inodes inum (some din)) directory data := by
  have inodeEnd := inodeAddress_le inRange
  have directoryEnd := directory_le count
  refine ⟨⟨full.trans building.length, ?_, fun other stored isStored => ?_, ?_, building.room, ?_⟩,
    fun address above below => ?_⟩
  · grind [Bytes.Holds.congr, Image.Holding, Image.Building, superblock_le]
  · by_cases same : other = inum
    · grind
    · rw [Function.update_of_ne same] at isStored
      obtain ⟨otherInRange, otherHas⟩ := building.inode other stored isStored
      have otherEnd := inodeAddress_le otherInRange
      have inodesApart := inodeAddress_apart same
      refine ⟨otherInRange, otherHas.congr fun address above below => ?_⟩
      rw [stored.encode_length] at below
      exact others address (by omega) (by omega)
  · grind [Bytes.Holds.congr, Image.Holding, Image.Building]
  · grind [Image.Holding, Image.Building, Bytes.Holds.congr]
  · have inodeBehind := inodeAddress_ge inum
    have rootBehind := rootStart_ge count
    rw [others address (by omega) (by omega)]
    exact building.unmapped address above below

theorem Image.Building.store {inum : Nat} (inRange : inum < count) (din : Dinode) :
    (image.store (inodeAddress inum) din.encode).Building count
      (Function.update inodes inum (some din)) directory data := by
  refine building.of_change (rootStart count * bsize + directory.length) 0 inRange rfl
    (image.hasInode_store inum din) le_rfl (fun piece member => Or.inr ?_)
    fun address outside _ => ?_
  · rw [Nat.add_zero]
    exact building.directoryEnd_le.trans (building.data piece member).1
  · rw [← din.encode_length] at outside
    exact Bytes.write_of_outside image.bytes outside

/-- An append to the root directory. -/
theorem Image.Building.appendDirectory {inum : Nat} (inRange : inum < count)
    (appended : image.Appended after inum din p)
    (atEnd : din.endAddress = rootStart count * bsize + directory.length)
    (room : directory.length + p.length ≤ count * direntSize) :
    after.Building count (Function.update inodes inum (some (din.grow p.length)))
      (directory ++ p) data := by
  have changed := building.of_change din.endAddress p.length inRange appended.length appended.inode
    atEnd.ge
    (fun piece member => Or.inr ?_) appended.others
  · grind [Image.Holding, Image.Building, Bytes.holds_append_iff, Image.Appended]
  · rw [atEnd, Nat.add_assoc]
    exact ((Nat.add_le_add_left room _).trans (directory_le count)).trans
      (building.data piece member).1

/-- An append to a file behind all data. -/
theorem Image.Building.appendData {inum : Nat} (inRange : inum < count)
    (appended : image.Appended after inum din p) (behind : dataStart count * bsize ≤ din.endAddress)
    (last : ∀ piece ∈ data, piece.1 + piece.2.length ≤ din.endAddress) :
    after.Building count (Function.update inodes inum (some (din.grow p.length)))
      directory (data ++ [(din.endAddress, p)]) := by
  have changed := building.of_change din.endAddress p.length inRange appended.length appended.inode
    (building.directoryEnd_le.trans behind) (fun piece member => Or.inl (last piece member))
    appended.others
  refine ⟨⟨changed.length, changed.super, changed.inode, changed.root, changed.room, ?_⟩,
    changed.unmapped⟩
  intro piece member
  rcases List.mem_append.mp member with old | new
  · exact changed.data piece old
  · grind [Image.Appended]

end

end Building

end Xk
