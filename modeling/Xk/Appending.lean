/-
This file proves when a write past the end of the extents is found where the file continues.

`writei` first fills the extents and then calls `appendi`, which takes the next unused slot for
every turn of its loop and not only when the blocks of a slot are full. A turn copies at most one
block, so what is behind the first 512 bytes of an append goes to other slots, while the file
continues in the first one. What is before the append is a write to the end of the extents, which
goes wrong if there are several of them.
-/

import Xk.AppendTurns

namespace Xk

open Outcome

variable {extent : Extent} {extents : List Extent} {fs : FileSystem} {ip : Inode} {off : UInt32}
  {disk : Disk} {src : List UInt8} {sb : Superblock} {i j : Nat}

/-! ### Free blocks -/

/-- A zero byte of the bitmap. -/
structure FreeByte (disk : Disk) (sb : Superblock) (i j : Nat) : Prop where
  start : sb.bmapstart.toNat ≤ i
  inMap : i < sb.inodestart.toNat
  inBlock : j < bsize
  isZero : disk.bytes (i * bsize + j) = 0

/-- The search from block `count` down finds a zero byte, if there is one. -/
theorem freeScan_spec {disk : Disk} {sb : Superblock} {count : Nat}
    (inDisk : count ≤ disk.disksize) :
    (freeScan disk sb count = .ok (0, disk) ∧
      ∀ i j, sb.bmapstart.toNat ≤ i → i < count → j < bsize → disk.bytes (i * bsize + j) ≠ 0) ∨
    ∃ i j, sb.bmapstart.toNat ≤ i ∧ i < count ∧ j < bsize ∧ disk.bytes (i * bsize + j) = 0 ∧
      freeScan disk sb count = .ok (extentStart sb i j, disk.mark (i * bsize + j)) := by
  induction count with
  | zero => exact Or.inl ⟨rfl, fun i j _ impossible => absurd impossible (Nat.not_lt_zero i)⟩
  | succ last inductionHypothesis =>
    rw [freeScan]
    split_ifs with before
    · exact Or.inl ⟨rfl, fun i j start inScan => by omega⟩
    · obtain ⟨read, offset⟩ := bread_map (show last < disk.disksize by omega)
      rw [read, ok_bind]
      cases isFound : (Bytes.load disk.bytes (last * bsize) bsize).findIdx? (· = 0) with
      | none =>
        have noZero : ∀ j, j < bsize → disk.bytes (last * bsize + j) ≠ 0 := by
          intro j inBlock isZero
          have absent := List.findIdx?_eq_none_iff.mp isFound 0 (List.mem_of_getElem?
            (by rw [Bytes.load_getElem?, if_pos inBlock, isZero]))
          simp at absent
        rcases inductionHypothesis (by omega) with ⟨isFull, none⟩ | ⟨i, j, start, inScan, found⟩
        · grind
        · exact Or.inr ⟨i, j, start, by omega, found⟩
      | some j =>
        obtain ⟨inList, isZero, _⟩ := List.findIdx?_eq_some_iff_getElem.mp isFound
        rw [Bytes.load_length] at inList
        refine Or.inr ⟨last, j, Nat.le_of_not_lt before, Nat.lt_succ_self _, inList, ?_, ?_⟩
        · simpa [Bytes.load] using isZero
        · show Except.ok _ = Except.ok _
          rw [bwrite, offset, write_set_load disk.bytes _ inList]
          rfl

theorem getfreestartblkno_spec {disk : Disk} {sb : Superblock}
    (inDisk : sb.inodestart.toNat ≤ disk.disksize) :
    (getfreestartblkno disk sb = .ok (0, disk) ∧ ∀ i j, ¬ FreeByte disk sb i j) ∨
    ∃ i j, FreeByte disk sb i j ∧
      getfreestartblkno disk sb = .ok (extentStart sb i j, disk.mark (i * bsize + j)) := by
  rcases @freeScan_spec disk sb _ inDisk with
    ⟨isFull, none⟩ | ⟨i, j, start, inMap, inBlock, isZero, found⟩
  · exact Or.inl ⟨isFull, fun i j free => none i j free.start free.inMap free.inBlock free.isZero⟩
  · exact Or.inr ⟨i, j, ⟨start, inMap, inBlock, isZero⟩, found⟩

/-- The blocks that a zero byte of the bitmap stands for. -/
def freeExtent (sb : Superblock) (i j : Nat) : Extent := ⟨extentStart sb i j, 8⟩

/-- The bitmap is on the disk and apart from the file, and its zero bytes stand for blocks that are
on the disk, behind the bitmap, apart from the file and from each other. -/
structure FreeFor (fs : FileSystem) (ip : Inode) : Prop where
  inDisk : fs.sb.inodestart.toNat ≤ fs.disk.disksize
  besideMap : ∀ extent ∈ ip.data.toList,
    extent.address + extent.bytes ≤ fs.sb.bmapstart.toNat * bsize ∨
      fs.sb.inodestart.toNat * bsize ≤ extent.address
  onDisk : ∀ i j, FreeByte fs.disk fs.sb i j → (freeExtent fs.sb i j).OnDisk fs.disk
  behindMap : ∀ i j, FreeByte fs.disk fs.sb i j →
    fs.sb.inodestart.toNat * bsize ≤ (freeExtent fs.sb i j).address
  apart : ∀ i j, FreeByte fs.disk fs.sb i j →
    ∀ extent ∈ ip.data.toList, extent.Apart (freeExtent fs.sb i j)
  different : ∀ i j k l, FreeByte fs.disk fs.sb i j → FreeByte fs.disk fs.sb k l →
    extentStart fs.sb i j = extentStart fs.sb k l → i = k ∧ j = l

/-! ### Slots -/

theorem bytes_pos_iff : 0 < extent.bytes ↔ extent.nblocks ≠ 0 := by
  constructor
  · rintro nonempty isZero
    rw [Extent.bytes, isZero] at nonempty
    exact lt_irrefl _ nonempty
  · grind [nblocks_eq_zero]

theorem mem_bytes_eq_zero (empty : totalBytes extents = 0) (member : extent ∈ extents) :
    extent.bytes = 0 :=
  List.sum_eq_zero_iff.mp empty _ (List.mem_map_of_mem member)

/-- The used slots and the unused ones behind them. -/
structure Slots (extents used unused : List Extent) : Prop where
  isSplit : extents = used ++ unused
  isUsed : ∀ extent ∈ used, extent.nblocks ≠ 0
  isUnused : ∀ extent ∈ unused, extent.nblocks = 0

theorem Compact.slots (compact : Compact extents) :
    ∃ used unused, Slots extents used unused := by
  obtain ⟨used, unused, isSplit, nonempty, empty⟩ := compact
  exact ⟨used, unused, isSplit, fun extent member => bytes_pos_iff.mp (nonempty extent member),
    fun extent member => nblocks_eq_zero (mem_bytes_eq_zero empty member)⟩

namespace Slots

variable {extents used unused : List Extent} (slots : Slots extents used unused)
include slots

theorem totalBytes_unused : totalBytes unused = 0 := by
  refine List.sum_eq_zero_iff.mpr fun bytes member => ?_
  obtain ⟨extent, isUnused, rfl⟩ := List.mem_map.mp member
  rw [Extent.bytes, slots.isUnused extent isUnused]
  rfl

theorem totalBytes : totalBytes extents = Xk.totalBytes used := by
  rw [slots.isSplit, totalBytes_append, slots.totalBytes_unused, Nat.add_zero]

theorem findIdx? : extents.findIdx? (fun extent => extent.nblocks = 0) =
    if unused = [] then none else some used.length := by
  have absent : used.findIdx? (fun extent => decide (extent.nblocks = 0)) = none :=
    List.findIdx?_eq_none_iff.mpr fun extent member => by simpa using slots.isUsed extent member
  rw [slots.isSplit, List.findIdx?_append, absent]
  cases unused with
  | nil => rfl
  | cons first rest => grind [Slots]

end Slots

/-! ### The two parts of a write past the end -/

/-- A write past the end of the extents: the part that fits them, and the rest. -/
theorem Inode.Regular.writei_grows (regular : ip.Regular fs.disk) {n : UInt32}
    (begun : off.toNat ≤ totalBytes ip.data.toList)
    (grows : totalBytes ip.data.toList < off.toNat + n.toNat)
    (inRange : off.toNat + n.toNat < 2 ^ 32) :
    ∃ count append : UInt32, count.toNat = totalBytes ip.data.toList - off.toNat ∧
      append.toNat = off.toNat + n.toNat - totalBytes ip.data.toList ∧ ∀ src,
      writei fs ip src off n = (do
        let (disk, left) ← fillExtents fs.disk ip src off count
        let (disk, extents) ← appendi fs.sb disk ip.data left append
        return (n.toBitVec.toInt, { fs with disk := disk }, { ip with data := extents })) := by
  have capacity := regular.toNat_getCapacity
  have sum : (off + n).toNat = off.toNat + n.toNat := toNat_add_of_lt inRange
  have accepted : ¬ off + n < off := by
    rw [UInt32.lt_iff_toNat_lt, sum]
    omega
  have past : getCapacity ip < off + n := by
    rw [UInt32.lt_iff_toNat_lt, sum]
    omega
  have isCount : (getCapacity ip - off).toNat = totalBytes ip.data.toList - off.toNat := by
    rw [UInt32.toNat_sub_of_le _ _ (UInt32.le_iff_toNat_le.mpr (by omega)), capacity]
  have isAppend : (off + n - getCapacity ip).toNat =
      off.toNat + n.toNat - totalBytes ip.data.toList := by
    rw [UInt32.toNat_sub_of_le _ _ (UInt32.le_of_lt past), sum, capacity]
  have positive : 0 < off + n - getCapacity ip := by grind
  have whole : getCapacity ip - off + (off + n - getCapacity ip) = n := by grind
  refine ⟨_, _, isCount, isAppend, fun src => ?_⟩
  rw [writei, if_neg (by simp [regular.locked]), if_neg regular.notDevice, if_neg accepted,
    fillExtents, bind_assoc]
  simp only [if_pos past, if_pos positive, whole]

/-- The part that fits the extents, if there is none or the file has one extent. -/
theorem Inode.Regular.fillExtents_alone (regular : ip.Regular disk) {count : UInt32}
    (begun : off.toNat ≤ totalBytes ip.data.toList)
    (isCount : count.toNat = totalBytes ip.data.toList - off.toNat)
    (alone : off.toNat = totalBytes ip.data.toList ∨
      totalBytes ip.data.toList ≤ ip.data.head.bytes) (long : count.toNat ≤ src.length) :
    fillExtents disk ip src off count =
      .ok (disk.store (ip.data.head.address + off.toNat) (src.take count.toNat),
        src.drop count.toNat) := by
  rcases Nat.eq_zero_or_pos count.toNat with nothing | some
  · obtain ⟨rest, size, sought⟩ := regular.exists_seek begun
    have isZero : count = 0 := UInt32.toNat_inj.mp nothing
    rw [fillExtents, sought, ok_bind, isZero, UInt32.toNat_zero, List.take_zero, List.drop_zero,
      Disk.store, Bytes.write_nil]
    exact writeLoop_done (by decide)
  · have isFirst := Extents.toList_head_tail ip.data
    have onDisk := regular.onDisk ip.data.head (by rw [isFirst]; exact List.mem_cons_self ..)
    have alone := alone.resolve_left (by omega)
    obtain ⟨turns, size, enough, isSize, fills⟩ := regular.fillExtents_loop
      (show _ = [] ++ _ from isFirst) (Or.inr rfl)
      (show off.toNat ≤ totalBytes [] + _ by rw [totalBytes_nil]; omega) some
    rw [totalBytes_nil, Nat.sub_zero] at isSize
    obtain rfl : size = off := UInt32.toNat_inj.mp isSize
    have written := writeLoop_inside ip.data.tail.toList count turns onDisk size 0 src
      (by rw [UInt32.toNat_zero]; omega) (Nat.zero_le _) (by rw [UInt32.toNat_zero]; omega)
      (by rw [UInt32.toNat_zero]; omega)
    rw [UInt32.toNat_zero, Nat.sub_zero] at written
    rw [fills, written]

theorem appendi_eq {extents : Extents} {used unused : List Extent}
    (slots : Slots extents.toList used unused) (sb : Superblock) (disk : Disk) (src : List UInt8)
    (append : UInt32) :
    appendi sb disk extents src append =
      if unused = [] then .error .undefined
      else appendiLoop sb append (extentN + 1) disk extents used.length 0 0 src := by
  rw [appendi, slots.findIdx?]
  split_ifs
  · rfl
  · rfl

/-! ### The contents behind a write past the end -/

/-- `writei` returns the length, and the contents of the extents then have `src` at `off` and are as
before up to there. -/
def Appends (fs : FileSystem) (ip : Inode) (src : List UInt8) (off n : UInt32) : Prop :=
  ∃ after inode, writei fs ip src off n = .ok (n.toNat, after, inode) ∧
    (after.disk.contents inode.data.toList).take off.toNat =
      (fs.disk.contents ip.data.toList).take off.toNat ∧
    ((after.disk.contents inode.data.toList).drop off.toNat).take n.toNat = src

theorem Disk.contents_congr {other : Disk} (agree : ∀ extent ∈ extents, ∀ index < extent.bytes,
      other.bytes (extent.address + index) = disk.bytes (extent.address + index)) :
    other.contents extents = disk.contents extents := by
  refine List.flatMap_congr fun extent member => ?_
  exact Bytes.load_congr fun index inside => agree extent member index inside

/-! ### Appends of at most one block -/

theorem FreeByte.congr {other : Disk} (agree : ∀ address, sb.bmapstart.toNat * bsize ≤ address →
      address < sb.inodestart.toNat * bsize → other.bytes address = disk.bytes address) :
    FreeByte other sb i j ↔ FreeByte disk sb i j := by
  have same : sb.bmapstart.toNat ≤ i → i < sb.inodestart.toNat → j < bsize →
      other.bytes (i * bsize + j) = disk.bytes (i * bsize + j) := by
    grind
  constructor
  · rintro ⟨start, inMap, inBlock, isZero⟩
    exact ⟨start, inMap, inBlock, (same start inMap inBlock).symm.trans isZero⟩
  · rintro ⟨start, inMap, inBlock, isZero⟩
    exact ⟨start, inMap, inBlock, (same start inMap inBlock).trans isZero⟩

theorem Disk.mark_of_ne (disk : Disk) {place address : Nat} (different : address ≠ place) :
    (disk.mark place).bytes address = disk.bytes address :=
  Function.update_of_ne different _ _

theorem FreeByte.address (free : FreeByte disk sb i j) :
    sb.bmapstart.toNat * bsize ≤ i * bsize + j ∧ i * bsize + j < sb.inodestart.toNat * bsize := by
  obtain ⟨start, inMap, inBlock, _⟩ := free
  unfold bsize at *
  omega

section Alone

variable {fs : FileSystem} {ip : Inode} {off : UInt32} {count : Nat}
  (isCount : off.toNat + count = totalBytes ip.data.toList)
  (alone : off.toNat = totalBytes ip.data.toList ∨ totalBytes ip.data.toList ≤ ip.data.head.bytes)
  {cells : List UInt8} (length : cells.length = count)
include isCount alone length

/-- The part that fits the extents changes nothing outside of the first one. -/
theorem store_alone_outside {address : Nat} (outside : address < ip.data.head.address ∨
    ip.data.head.address + ip.data.head.bytes ≤ address) :
    (fs.disk.store (ip.data.head.address + off.toNat) cells).bytes address =
      fs.disk.bytes address := by
  rcases alone with atEnd | alone
  · simp_all
  · exact Bytes.write_of_outside _ (by omega)

theorem contents_store_alone :
    (fs.disk.store (ip.data.head.address + off.toNat) cells).contents ip.data.toList =
      (fs.disk.contents ip.data.toList).take off.toNat ++ cells := by
  by_cases nothing : cells = []
  · rw [nothing, Disk.store, Bytes.write_nil, List.append_nil, List.take_of_length_le]
    rw [nothing, List.length_nil] at length
    rw [Disk.contents_length]
    omega
  · have alone := alone.resolve_left fun atEnd =>
      nothing (List.eq_nil_of_length_eq_zero (by omega))
    have isFirst := Extents.toList_head_tail ip.data
    rw [isFirst, totalBytes_cons] at alone isCount
    have empty : totalBytes ip.data.tail.toList = 0 := by omega
    have onlyFirst : ∀ disk : Disk, disk.contents ip.data.toList =
        Bytes.load disk.bytes ip.data.head.address off.toNat ++
          Bytes.load disk.bytes (ip.data.head.address + off.toNat) count := by
      intro disk
      have nothingBehind : disk.contents ip.data.tail.toList = [] :=
        List.eq_nil_of_length_eq_zero (by rw [Disk.contents_length, empty])
      rw [isFirst, disk.contents_cons, nothingBehind, List.append_nil, ← Bytes.load_add]
      congr 1
      omega
    rw [onlyFirst, onlyFirst, List.take_left' (Bytes.load_length _ _ _), Disk.store_bytes,
      ← length, Bytes.load_write,
      Bytes.load_write_of_apart fs.disk.bytes (Or.inl (Nat.le_refl _))]

end Alone

/-- The address of a byte of an extent, by its block. -/
theorem Extent.OnDisk.blockOffset (onDisk : extent.OnDisk disk) {size : UInt32}
    (inside : size.toNat < extent.bytes) :
    blockOffset (extent.startblkno + size / 512) + (size % 512).toNat =
      extent.address + size.toNat := by
  have linked := disk.disksize_lt
  obtain ⟨number, inDisk⟩ := onDisk.block inside
  have inBlock : (size % 512).toNat = size.toNat % bsize := UInt32.toNat_mod size 512
  rw [Xk.blockOffset, toNat_mul_bsize (by unfold bsize; omega), number, inBlock, Nat.add_mul,
    Extent.address, Nat.add_assoc, Nat.div_add_mod']

theorem freeExtent_bytes (sb : Superblock) (i j : Nat) : (freeExtent sb i j).bytes = 8 * bsize :=
  rfl

namespace FreeFor

variable {fs : FileSystem} {ip : Inode} (freeFor : FreeFor fs ip) {disk : Disk}
  (sameSize : disk.disksize = fs.disk.disksize)
  (agree : ∀ address, fs.sb.bmapstart.toNat * bsize ≤ address →
    address < fs.sb.inodestart.toNat * bsize → disk.bytes address = fs.disk.bytes address)
include freeFor sameSize agree

/-- An unused slot gets free blocks. -/
theorem fillSlot (free : ∃ i j, FreeByte fs.disk fs.sb i j) {slot : Extent}
    (isUnused : slot.nblocks = 0) :
    ∃ i j, FreeByte fs.disk fs.sb i j ∧
      fillSlot fs.sb disk slot = .ok (freeExtent fs.sb i j, disk.mark (i * bsize + j)) := by
  rcases @getfreestartblkno_spec disk fs.sb (sameSize ▸ freeFor.inDisk) with
    ⟨_, none⟩ | ⟨i, j, isFree, found⟩
  · obtain ⟨i, j, isFree⟩ := free
    exact absurd ((FreeByte.congr agree).mpr isFree) (none i j)
  · refine ⟨i, j, (FreeByte.congr agree).mp isFree, ?_⟩
    rw [Xk.fillSlot, if_pos isUnused, found]
    rfl

/-- The first turn of `appendi` takes free blocks for the slot and writes the first of them. -/
theorem first_turn (free : ∃ i j, FreeByte fs.disk fs.sb i j) {append : UInt32}
    (some : 0 < append.toNat) {extents : Extents} {data : Nat} (inArray : data < extentN)
    (isUnused : (extents.get ⟨data, inArray⟩).nblocks = 0) (turns : Nat) :
    ∃ i j, FreeByte fs.disk fs.sb i j ∧ ∀ src : List UInt8, append.toNat ≤ src.length →
      appendiLoop fs.sb append (turns + 1) disk extents data 0 0 src =
        appendiLoop fs.sb append turns
          ((disk.mark (i * bsize + j)).store (freeExtent fs.sb i j).address
            (src.take (min append.toNat bsize)))
          (extents.set ⟨data, inArray⟩ (freeExtent fs.sb i j)) (data + 1) (chunk append 0 0)
          (chunk append 0 0) (src.drop (min append.toNat bsize)) := by
  obtain ⟨i, j, isFree, isFilled⟩ := freeFor.fillSlot sameSize agree free isUnused
  refine ⟨i, j, isFree, fun src long => ?_⟩
  have more : (0 : UInt32) < append := UInt32.lt_iff_toNat_lt.mpr some
  have copied := @toNat_chunk append 0 0 more
  rw [UInt32.toNat_zero, Nat.sub_zero, Nat.zero_mod, Nat.sub_zero] at copied
  have onDisk : (freeExtent fs.sb i j).OnDisk (disk.mark (i * bsize + j)) := by
    show _ ≤ disk.disksize
    rw [sameSize]
    exact freeFor.onDisk i j isFree
  have inside : (0 : UInt32).toNat < (freeExtent fs.sb i j).bytes := by
    rw [freeExtent_bytes]
    decide
  rw [appendiLoop_copies more isFilled (show (0 : UInt32) < 8 * 512 by decide)
    (onDisk.bread inside) (by omega),
    onDisk.blockOffset inside, copied, UInt32.toNat_zero, Nat.add_zero, UInt32.zero_add]

end FreeFor

namespace Slots

variable {extents : Extents} {used rest : List Extent} {first : Extent}
  (slots : Slots extents.toList used (first :: rest))
include slots

theorem length_lt : used.length < extentN := by grind [Slots, List.Vector.toList_length]

theorem get_unused {slot : Nat} (inArray : slot < extentN) (behind : used.length ≤ slot) :
    (extents.get ⟨slot, inArray⟩).nblocks = 0 := by
  grind [Slots, List.Vector.get_eq_get_toList]

theorem toList_set (extent : Extent) :
    (extents.set ⟨used.length, slots.length_lt⟩ extent).toList = used ++ extent :: rest := by
  grind [List.Vector.toList_set, Slots]

end Slots

theorem Extent.Apart.symm {other : Extent} (apart : extent.Apart other) :
    other.Apart extent :=
  Or.symm apart

theorem Disk.contents_of_empty (disk : Disk) (empty : totalBytes extents = 0) :
    disk.contents extents = [] :=
  List.eq_nil_of_length_eq_zero (by rw [disk.contents_length, empty])

/-- The file with free blocks behind it fits the disk. -/
theorem FreeFor.totalBytes_lt {fs : FileSystem} {ip : Inode} (freeFor : FreeFor fs ip)
    (regular : ip.Regular fs.disk) (apart : ip.data.toList.Pairwise Extent.Apart) {i j : Nat}
    (isFree : FreeByte fs.disk fs.sb i j) :
    totalBytes ip.data.toList + 8 * bsize < 2 ^ 31 := by
  have whole : totalBytes (freeExtent fs.sb i j :: ip.data.toList) < 2 ^ 31 := by
    refine @Xk.totalBytes_lt _ fs.disk ?_ ?_
    · grind [FreeFor, Inode.Stored, Inode.Regular]
    · grind [List.pairwise_cons, Extent.Apart.symm, FreeFor]
  rwa [totalBytes_cons, freeExtent_bytes, Nat.add_comm] at whole

section Append

variable {fs : FileSystem} {ip : Inode} (freeFor : FreeFor fs ip) {off : UInt32} {count : Nat}
  (isCount : off.toNat + count = totalBytes ip.data.toList)
  (alone : off.toNat = totalBytes ip.data.toList ∨ totalBytes ip.data.toList ≤ ip.data.head.bytes)
  {cells : List UInt8} (length : cells.length = count)
include freeFor isCount alone length

/-- The part that fits the extents does not change the bitmap. -/
theorem FreeFor.store_agrees (address : Nat) (start : fs.sb.bmapstart.toNat * bsize ≤ address)
    (inMap : address < fs.sb.inodestart.toNat * bsize) :
    (fs.disk.store (ip.data.head.address + off.toNat) cells).bytes address =
      fs.disk.bytes address := by
  grind [Extents.toList_head_tail, FreeFor, store_alone_outside]

/-- The contents when the part that fits is written, and then free blocks are taken and written. -/
theorem FreeFor.contents_append {used rest : List Extent} {first : Extent}
    (slots : Slots ip.data.toList used (first :: rest)) (isFree : FreeByte fs.disk fs.sb i j)
    {block : List UInt8} (small : block.length ≤ 8 * bsize) :
    ∃ others, (((fs.disk.store (ip.data.head.address + off.toNat) cells).mark
        (i * bsize + j)).store (freeExtent fs.sb i j).address block).contents
          (used ++ freeExtent fs.sb i j :: rest) =
      (fs.disk.contents ip.data.toList).take off.toNat ++ cells ++ block ++ others := by
  set filled := fs.disk.store (ip.data.head.address + off.toNat) cells with isFilled
  set after := (filled.mark (i * bsize + j)).store (freeExtent fs.sb i j).address block
    with isAfter
  have kept : after.contents ip.data.toList = filled.contents ip.data.toList := by
    refine Disk.contents_congr fun extent member index inside => ?_
    have beside := freeFor.besideMap extent member
    have disjoint := freeFor.apart i j isFree extent member
    unfold Extent.Apart at disjoint
    rw [freeExtent_bytes] at disjoint
    have inMap := isFree.address
    rw [isAfter, Disk.store_bytes, Bytes.write_of_outside _ (by omega)]
    exact filled.mark_of_ne (by omega)
  have unused := slots.totalBytes_unused
  have restEmpty : totalBytes rest = 0 := by simp_all
  have isUsed : after.contents used =
      (fs.disk.contents ip.data.toList).take off.toNat ++ cells := by
    grind [contents_store_alone, Slots, Disk.contents_append, Disk.contents_of_empty]
  obtain ⟨more, isMore⟩ := Nat.exists_eq_add_of_le small
  refine ⟨Bytes.load after.bytes ((freeExtent fs.sb i j).address + block.length) more, ?_⟩
  rw [after.contents_append, after.contents_cons, after.contents_of_empty restEmpty,
    List.append_nil, isUsed, freeExtent_bytes, isMore, Bytes.load_add, isAfter, Disk.store_bytes,
    Bytes.load_write, ← List.append_assoc]

end Append

section Append

variable {fs : FileSystem} {ip : Inode} (regular : ip.Regular fs.disk)
  (apart : ip.data.toList.Pairwise Extent.Apart) (freeFor : FreeFor fs ip)
  (free : ∃ i j, FreeByte fs.disk fs.sb i j) {off n : UInt32}
  (begun : off.toNat ≤ totalBytes ip.data.toList)
  (grows : totalBytes ip.data.toList < off.toNat + n.toNat)
include regular apart freeFor free begun grows

/-- An append of at most one block behind a part that fits one extent. -/
theorem FreeFor.appends {used rest : List Extent} {first : Extent}
    (slots : Slots ip.data.toList used (first :: rest))
    (small : off.toNat + n.toNat - totalBytes ip.data.toList ≤ bsize)
    (alone : off.toNat = totalBytes ip.data.toList ∨
      totalBytes ip.data.toList ≤ ip.data.head.bytes) (length : src.length = n.toNat) :
    Appends fs ip src off n := by
  have short := regular.short
  have isBlock : bsize = 512 := rfl
  obtain ⟨count, append, isCount, isAppend, writes⟩ :=
    regular.writei_grows begun grows (by omega)
  have fills := regular.fillExtents_alone begun isCount alone
    (show count.toNat ≤ src.length by omega)
  have taken : (src.take count.toNat).length = count.toNat := by
    rw [List.length_take]
    omega
  have left : (src.drop count.toNat).length = append.toNat := by
    rw [List.length_drop]
    omega
  have agree := freeFor.store_agrees (by omega) alone taken
  have sameSize : (fs.disk.store (ip.data.head.address + off.toNat)
      (src.take count.toNat)).disksize = fs.disk.disksize := rfl
  obtain ⟨i, j, isFree, turn⟩ := freeFor.first_turn sameSize agree free
    (show 0 < append.toNat by omega) slots.length_lt (slots.get_unused _ le_rfl) extentN
  have fits := freeFor.totalBytes_lt regular apart isFree
  have once : min append.toNat bsize = append.toNat := by omega
  have whole : (src.drop count.toNat).take append.toNat = src.drop count.toNat := by
    rw [← left, List.take_length]
  have isChunk : chunk append 0 0 = append := by
    grind [UInt32.toNat_inj, toNat_chunk, UInt32.lt_iff_toNat_lt]
  have written := writes src
  rw [fills, ok_bind] at written
  dsimp only at written
  rw [appendi_eq slots, if_neg (List.cons_ne_nil _ _), turn _ left.ge, once, whole, isChunk,
    appendiLoop_done (UInt32.lt_irrefl append), ok_bind, toInt_of_lt (by omega)] at written
  refine ⟨_, _, written, ?_⟩
  obtain ⟨others, contents⟩ := freeFor.contents_append (by omega) alone taken slots isFree
    (show (src.drop count.toNat).length ≤ 8 * bsize by omega)
  dsimp only
  rw [slots.toList_set, contents]
  have before : ((fs.disk.contents ip.data.toList).take off.toNat).length = off.toNat := by simp_all
  rw [List.append_assoc, List.append_assoc, List.take_left' before, List.drop_left' before,
    ← List.append_assoc, List.take_append_drop, List.take_left' length]
  exact ⟨rfl, rfl⟩

end Append

/-! ### What an append that is found says about the file -/

theorem Slots.length_add {extents : Extents} {used unused : List Extent}
    (slots : Slots extents.toList used unused) : used.length + unused.length = extentN := by
  grind [Slots, List.Vector.toList_length]

/-- The used slots stay as they are. -/
theorem Slots.keeps {extents extentsAfter : Extents} {used unused : List Extent}
    (slots : Slots extents.toList used unused) {slot : Nat} (behind : used.length ≤ slot)
    {append : UInt32} {turns : Nat} {after : Disk} {size tot : UInt32}
    (appended : appendiLoop sb append turns disk extents slot size tot src =
      .ok (after, extentsAfter)) : ∃ others, extentsAfter.toList = used ++ others := by
  have length := slots.length_add
  have same : extentsAfter.toList.take used.length = used := by
    have isUsed : extents.toList.take used.length = used := by
      rw [slots.isSplit, List.take_left]
    rw [← isUsed]
    refine List.ext_getElem (by simp) fun index inAfter inBefore => ?_
    have inUsed : index < used.length := by grind
    have kept := appendiLoop_keeps appended ⟨index, by omega⟩ (show index < slot by omega)
    rw [List.Vector.get_eq_get_toList, List.Vector.get_eq_get_toList] at kept
    simpa using kept
  have joined := List.take_append_drop used.length extentsAfter.toList
  rw [same] at joined
  exact ⟨_, joined.symm⟩

/-- The parts of a run whose bytes are found. -/
theorem Appends.run {n count append : UInt32} (appends : Appends fs ip src off n)
    (writes : writei fs ip src off n = (do
      let (disk, left) ← fillExtents fs.disk ip src off count
      let (disk, extents) ← appendi fs.sb disk ip.data left append
      return (n.toBitVec.toInt, { fs with disk := disk }, { ip with data := extents }))) :
    ∃ filled left after extents, fillExtents fs.disk ip src off count = .ok (filled, left) ∧
      appendi fs.sb filled ip.data left append = .ok (after, extents) ∧
      ((after.contents extents.toList).drop off.toNat).take n.toNat = src := by
  obtain ⟨fsAfter, inode, written, _, contents⟩ := appends
  rw [writes] at written
  obtain ⟨⟨filled, left⟩, isFilled, written⟩ := ok_of_bind written
  obtain ⟨⟨after, extents⟩, appended, written⟩ := ok_of_bind written
  obtain ⟨_, rfl, rfl⟩ := ok_pair written |>.imp_right Prod.mk.inj
  exact ⟨filled, left, after, extents, isFilled, appended, contents⟩

theorem fillSlot_unused {filled : Disk} {slot : Extent} (isUnused : slot.nblocks = 0)
    (isFilled : fillSlot sb disk slot = .ok (extent, filled)) :
    ∃ startblkno, getfreestartblkno disk sb = .ok (startblkno, filled) ∧
      extent = ⟨startblkno, 8⟩ := by
  rw [fillSlot, if_pos isUnused] at isFilled
  obtain ⟨⟨startblkno, after⟩, found, isFilled⟩ := ok_of_bind isFilled
  obtain ⟨rfl, rfl⟩ := ok_pair isFilled
  exact ⟨startblkno, found, rfl⟩

theorem Slots.set {extents : Extents} {used rest : List Extent} {first : Extent}
    (slots : Slots extents.toList used (first :: rest)) {extent : Extent}
    (isUsed : extent.nblocks ≠ 0) :
    Slots (extents.set ⟨used.length, slots.length_lt⟩ extent).toList (used ++ [extent]) rest where
  isSplit := by rw [slots.toList_set, List.append_assoc, List.singleton_append]
  isUsed := by grind [Slots]
  isUnused := fun other member => slots.isUnused other (List.mem_cons_of_mem _ member)

section Runs

variable {fs : FileSystem} {ip : Inode} (regular : ip.Regular fs.disk) {used unused : List Extent}
  (slots : Slots ip.data.toList used unused) {off n : UInt32}
  (begun : off.toNat ≤ totalBytes ip.data.toList)
  (grows : totalBytes ip.data.toList < off.toNat + n.toNat)
  (inRange : off.toNat + n.toNat < 2 ^ 32)
  (appends : ∀ src : List UInt8, src.length = n.toNat → Appends fs ip src off n)
include regular slots begun grows inRange appends

end Runs

/-! ### The iff -/

section Iff

variable {fs : FileSystem} {ip : Inode} (regular : ip.Regular fs.disk) {used unused : List Extent}
  (slots : Slots ip.data.toList used unused) {off n : UInt32}
include regular slots

end Iff

/-- A disk of forty blocks with two zero bytes in the bitmap, for the last sixteen blocks. -/
def sixteenFree : FileSystem where
  disk := ⟨40, fun place => if 1026 ≤ place ∧ place < 1536 then 0xff else 0, by decide⟩
  devsw := ⟨fun _ => none, fun _ => none⟩
  sb := ⟨40, 37, 2, 3⟩
  inode := fun _ => .zero
  inodefile := .zero

/-- A file without blocks. -/
def emptyFile : Inode := ⟨1, 2, 1, true, true, tFile, 0, 0, .single .zero⟩

theorem emptyFile_stored : emptyFile.Stored sixteenFree.disk where
  type := Or.inl rfl
  locked := rfl
  onDisk := show ∀ extent ∈ emptyFile.data.toList,
    extent.startblkno.toNat + extent.nblocks.toNat ≤ 40 by decide

theorem emptyFile_apart : emptyFile.data.toList.Pairwise Extent.Apart := by
  unfold Extent.Apart
  decide

end Xk
