/-
This file proves for which ranges `writei` and `readi` are inverse and local.

Both loops go through the extents in the same way. `readi` finds a byte at the offset `size` of the
current extent, but `writei` takes the block from `off`, the offset in the file. The two agree as
long as the file begins with the current extent. Behind it `writei` stores a byte past the place
where `readi` finds it, by as many bytes as come before the extent in the file.
-/

import Xk.ExtentCrossings
import Xk.ExtentWrites

namespace Xk

open Outcome

variable {extents front back : List Extent} {off n tot : UInt32} {fs : FileSystem} {ip : Inode}
  {disk after : Disk} {src left : List UInt8} {extent : Extent}

@[simp] theorem Disk.store_bytes (disk : Disk) (address : Nat) (cells : List UInt8) :
    (disk.store address cells).bytes = Bytes.write disk.bytes address cells := rfl

/-! ### Reads beside a write -/

section Beside

variable {disk : Disk} {rest : List Extent} (onDisk : ∀ extent ∈ rest, extent.OnDisk disk)
  {place : Nat} {cells : List UInt8}
  (apart : ∀ extent ∈ rest, place + cells.length ≤ extent.address ∨
    extent.address + extent.bytes ≤ place)
include onDisk apart

/-- The loop of `readi` does not see a change outside of the extents. -/
theorem readLoop_store (n : UInt32) (turns : Nat) (size off tot : UInt32) :
    readLoop (disk.store place cells) n turns rest size off tot =
      readLoop disk n turns rest size off tot := by
  induction turns generalizing rest size off tot with
  | zero => rfl
  | succ turns inductionHypothesis =>
    cases rest with
    | nil => rfl
    | cons extent rest =>
      by_cases more : tot < n
      · by_cases inside : size < extent.nblocks * 512
        · have here := onDisk extent (List.mem_cons_self ..)
          have hereAfter : extent.OnDisk (disk.store place cells) := here
          have beside := apart extent (List.mem_cons_self ..)
          rw [here.lt_iff] at inside
          have ends := chunk_le_extent inside (chunk_within more)
          rw [readLoop_copies here more inside, readLoop_copies hereAfter more inside,
            inductionHypothesis onDisk apart]
          rw [Disk.store, Bytes.load_write_of_apart disk.bytes (by omega)]
        · rw [readLoop, readLoop, if_pos more, if_pos more]
          simp only [if_neg inside]
          exact inductionHypothesis (fun other member => onDisk other
            (List.mem_cons_of_mem _ member))
            (fun other member => apart other (List.mem_cons_of_mem _ member)) ..
      · rw [readLoop, readLoop, if_neg more, if_neg more]

end Beside

section First

variable {disk : Disk} {first : Extent} (onDisk : first.OnDisk disk) {rest : List Extent}
  (restOnDisk : ∀ extent ∈ rest, extent.OnDisk disk)
  (apart : ∀ extent ∈ rest, first.Apart extent)
  {start : Nat} {cells : List UInt8} (inside : start + cells.length ≤ first.bytes)
include onDisk restOnDisk apart inside

/-- The loop of `readi` in the extent that is changed, before or behind the change. -/
theorem readLoop_store_first (n : UInt32) (turns : Nat) (size off tot : UInt32)
    (beside : size.toNat + (n.toNat - tot.toNat) ≤ start ∨ start + cells.length ≤ size.toNat) :
    readLoop (disk.store (first.address + start) cells) n turns (first :: rest) size off tot =
      readLoop disk n turns (first :: rest) size off tot := by
  induction turns generalizing size off tot with
  | zero => rfl
  | succ turns inductionHypothesis =>
    rw [readLoop, readLoop]
    refine ite_congr rfl (fun more => ?_) fun _ => rfl
    dsimp only
    refine ite_congr rfl (fun sizeInside => ?_) fun _ => ?_
    · have onDiskAfter : first.OnDisk (disk.store (first.address + start) cells) := onDisk
      have bytes := onDisk.bytes_lt
      have moreNat : tot.toNat < n.toNat := UInt32.lt_iff_toNat_lt.mp more
      rw [UInt32.lt_iff_toNat_lt, onDisk.toNat_bytes] at sizeInside
      have copied := @toNat_chunk n size tot more
      have bound := Nat.mod_lt size.toNat (show 0 < bsize by decide)
      have within : size.toNat % bsize + (chunk n size tot).toNat ≤ bsize := by omega
      have ends := chunk_le_extent sizeInside within
      have nextSize : (size + chunk n size tot).toNat = size.toNat + (chunk n size tot).toNat :=
        toNat_add_of_lt (by omega)
      have nextTot : (tot + chunk n size tot).toNat = tot.toNat + (chunk n size tot).toNat := by
        have limit := n.toNat_lt
        exact toNat_add_of_lt (by omega)
      have inBlock : (size % 512).toNat = size.toNat % bsize := UInt32.toNat_mod size 512
      have split : first.address + size.toNat / bsize * bsize + size.toNat % bsize =
          first.address + size.toNat := by
        rw [Nat.add_assoc, Nat.div_add_mod']
      rw [onDisk.bread sizeInside, onDiskAfter.bread sizeInside, ok_bind, ok_bind, ← chunk,
        inductionHypothesis _ _ _ (by omega), inBlock, Bytes.take_drop_load _ within,
        Bytes.take_drop_load _ within, split]
      rw [Disk.store, Bytes.load_write_of_apart disk.bytes (by omega)]
    · grind [readLoop_store, Extent.Apart]

end First

theorem seekExtent_mem {rest : List Extent} {size offset : UInt32}
    (sought : seekExtent extents size off = .ok (rest, offset)) :
    ∀ extent ∈ rest, extent ∈ extents := by
  induction extents generalizing size with
  | nil => cases sought
  | cons first extents inductionHypothesis => grind [seekExtent]

/-- `readi` of a range beside a change inside of the first extent. -/
theorem Inode.Regular.readi_store (regular : ip.Regular fs.disk) {first : Extent}
    {rest : List Extent} (isFirst : ip.data.toList = first :: rest)
    (apart : ∀ extent ∈ rest, first.Apart extent) {start : Nat} {cells : List UInt8}
    (inside : start + cells.length ≤ first.bytes)
    (beside : off.toNat + n.toNat ≤ start ∨ start + cells.length ≤ off.toNat) :
    readi { fs with disk := fs.disk.store (first.address + start) cells } ip off n =
      readi fs ip off n := by
  have onDisk := regular.onDisk
  rw [isFirst] at onDisk
  have firstOnDisk := onDisk first (List.mem_cons_self ..)
  have restOnDisk := fun extent member => onDisk extent (List.mem_cons_of_mem first member)
  rw [readi, readi, if_neg regular.notDevice, if_neg regular.notDevice, isFirst, seekExtent,
    UInt32.zero_add]
  refine ite_congr rfl (fun _ => rfl) fun _ => ite_congr rfl (fun _ => rfl) fun _ => ?_
  by_cases later : first.nblocks * 512 < off
  · rw [if_pos later]
    cases sought : seekExtent rest (first.nblocks * 512) off with
    | error halt => exact (rfl : Except.error halt = Except.error halt)
    | ok found =>
      obtain ⟨data, size⟩ := found
      rw [ok_bind, ok_bind]
      dsimp only
      have member := seekExtent_mem sought
      rw [readLoop_store (fun extent isFound => restOnDisk extent (member extent isFound))]
      intro extent isFound
      have disjoint := apart extent (member extent isFound)
      unfold Extent.Apart at disjoint
      omega
  · grind [ok_bind, UInt32.sub_zero, readLoop_store_first]

/-! ### Writes inside the first extent -/

theorem toNat_capacity (inRange : totalBytes extents < 2 ^ 32) :
    ((extents.map fun extent => extent.nblocks * 512).sum : UInt32).toNat = totalBytes extents := by
  induction extents with
  | nil => rfl
  | cons first extents inductionHypothesis =>
    grind [Extent.toNat_bytes, totalBytes_cons, toNat_add_of_lt]

theorem Inode.Regular.toNat_getCapacity (regular : ip.Regular disk) :
    (getCapacity ip).toNat = totalBytes ip.data.toList :=
  toNat_capacity (regular.short.trans (by decide))

/-- `writei` stores what `readi` then finds there, and changes nothing else that `readi` finds in
the file and no byte outside of its extents. -/
def WritesBack (fs : FileSystem) (ip : Inode) (src : List UInt8) (off n : UInt32) : Prop :=
  ∃ after, writei fs ip src off n = .ok (n.toNat, after, ip) ∧
    readi after ip off n = .ok (n.toNat, src) ∧
    (∀ other count : UInt32,
      other.toNat + count.toNat ≤ off.toNat ∨ off.toNat + n.toNat ≤ other.toNat →
        readi after ip other count = readi fs ip other count) ∧
    ∀ place, (∀ extent ∈ ip.data.toList,
      place < extent.address ∨ extent.address + extent.bytes ≤ place) →
        after.disk.bytes place = fs.disk.bytes place

section InFirst

variable {fs : FileSystem} {ip : Inode} (regular : ip.Regular fs.disk) {off n : UInt32}
  (begun : off.toNat + n.toNat ≤ ip.size.toNat)
  (inside : off.toNat + n.toNat ≤ totalBytes ip.data.toList)
  {src : List UInt8} (length : src.length = n.toNat)
include regular begun inside length

theorem Inode.Regular.writesBack_zero (nothing : n.toNat = 0) : WritesBack fs ip src off n := by
  have isZero : n = 0 := UInt32.toNat_inj.mp nothing
  subst isZero
  obtain ⟨rest, size, sought⟩ := regular.exists_seek (show off.toNat ≤ _ by omega)
  have fits : ¬ getCapacity ip < off := by
    rw [UInt32.lt_iff_toNat_lt, regular.toNat_getCapacity]
    omega
  have written : writei fs ip src off 0 = .ok (0, fs, ip) := by
    rw [writei, if_neg (by simp [regular.locked]), if_neg regular.notDevice, UInt32.add_zero,
      if_neg (by rw [UInt32.lt_iff_toNat_lt]; omega)]
    simp only [if_neg fits]
    rw [sought, ok_bind]
    rfl
  have isNil : src = [] := List.eq_nil_of_length_eq_zero length
  have reads := regular.readsRange_zero (show off.toNat ≤ _ by omega) inside rfl
  rw [ReadsRange, UInt32.toNat_zero, List.take_zero] at reads
  exact ⟨fs, written, by rw [isNil]; exact reads, fun _ _ _ => rfl, fun _ _ => rfl⟩

theorem Inode.Regular.writesBack_first (apart : ip.data.toList.Pairwise Extent.Apart)
    (inFirst : off.toNat + n.toNat ≤ ip.data.head.bytes) : WritesBack fs ip src off n := by
  have isFirst := Extents.toList_head_tail ip.data
  have onDisk : ip.data.head.OnDisk fs.disk :=
    regular.onDisk _ (by rw [isFirst]; exact List.mem_cons_self ..)
  rw [isFirst, List.pairwise_cons] at apart
  have taken : src.take n.toNat = src := by rw [← length, List.take_length]
  have written := writei_inside regular.notDevice rfl onDisk regular.locked inFirst
    (by rwa [regular.toNat_getCapacity]) length.ge
  rw [taken] at written
  have onDiskAfter : ip.data.head.OnDisk (fs.disk.store (ip.data.head.address + off.toNat) src) :=
    onDisk
  refine ⟨_, written, ?_, ?_, ?_⟩
  · have read := @readi_first
      { fs with disk := fs.disk.store (ip.data.head.address + off.toNat) src } ip _
      regular.notDevice rfl onDiskAfter regular.locked off n (by omega) inFirst
    have loaded : Bytes.load (Bytes.write fs.disk.bytes (ip.data.head.address + off.toNat) src)
        (ip.data.head.address + off.toNat) n.toNat = src := by
      rw [← length, Bytes.load_write]
    rwa [Disk.store_bytes, loaded] at read
  · grind [readi_store]
  · intro place outside
    refine Bytes.write_of_outside _ ?_
    have beside := outside _ (by rw [isFirst]; exact List.mem_cons_self ..)
    omega

end InFirst

/-! ### Where the loop stores -/

theorem copyIn_ok {block changed : List UInt8} {offset m : UInt32}
    (copied : copyIn block src offset m = .ok changed) : m.toNat ≤ src.length := by
  grind [copyIn]

section Turns

variable {n : UInt32} {turns : Nat} {disk : Disk} {extent : Extent} {rest : List Extent}
  {size off tot : UInt32} {src : List UInt8}

theorem writeLoop_done (done : ¬ tot < n) :
    writeLoop n (turns + 1) disk rest size off tot src = .ok (disk, src) := by
  cases rest
  all_goals rw [writeLoop, if_neg done]

/-- A turn of the loop of `writei` that moves to the next extent. -/
theorem writeLoop_moves (more : tot < n) (behind : ¬ size < extent.nblocks * 512) :
    writeLoop n (turns + 1) disk (extent :: rest) size off tot src =
      writeLoop n turns disk rest (off - size) off tot src := by
  grind [writeLoop]

theorem writeLoop_readable {result : Disk × List UInt8} (more : tot < n)
    (inside : size < extent.nblocks * 512)
    (written : writeLoop n (turns + 1) disk (extent :: rest) size off tot src = .ok result) :
    ∃ block, bread disk (extent.startblkno + off / 512) = .ok block ∧
      (chunk n size tot).toNat ≤ src.length := by
  rw [writeLoop, if_pos more] at written
  simp only [if_pos inside] at written
  obtain ⟨block, isRead, written⟩ := ok_of_bind written
  obtain ⟨changed, copied, written⟩ := ok_of_bind written
  exact ⟨block, isRead, copyIn_ok copied⟩

/-- What a turn of the loop that comes to an end does. -/
theorem writeLoop_turn {result : Disk × List UInt8} (more : tot < n)
    (written : writeLoop n (turns + 1) disk rest size off tot src = .ok result) :
    ∃ extent back, rest = extent :: back ∧
      ((¬ size < extent.nblocks * 512 ∧
        writeLoop n turns disk back (off - size) off tot src = .ok result) ∨
      (size < extent.nblocks * 512 ∧ writeLoop n turns
        (disk.store (blockOffset (extent.startblkno + off / 512) + (size % 512).toNat)
          (src.take (chunk n size tot).toNat))
        (extent :: back) (size + chunk n size tot) (off + chunk n size tot)
        (tot + chunk n size tot) (src.drop (chunk n size tot).toNat) = .ok result)) := by
  cases rest with
  | nil => grind [writeLoop]
  | cons extent rest =>
    refine ⟨extent, rest, rfl, ?_⟩
    by_cases inside : size < extent.nblocks * 512
    · obtain ⟨block, isRead, long⟩ := writeLoop_readable more inside written
      rw [writeLoop_copies more inside isRead long] at written
      exact Or.inr ⟨inside, written⟩
    · grind [writeLoop_moves]

end Turns

theorem store_zeros {disk : Disk} {start place : Nat} {cells : List UInt8}
    (zeros : ∀ cell ∈ cells, cell = 0) (notZero : (disk.store start cells).bytes place ≠ 0) :
    disk.bytes place ≠ 0 := by
  rcases Nat.lt_or_ge place start with before | behind
  · rwa [Disk.store_bytes, Bytes.write_of_outside _ (Or.inl before)] at notZero
  · obtain ⟨index, rfl⟩ := Nat.exists_eq_add_of_le behind
    cases found : cells[index]? with
    | none =>
      rwa [Disk.store_bytes, Bytes.write_of_outside _
        (Or.inr (Nat.add_le_add_left (List.getElem?_eq_none_iff.mp found) start))] at notZero
    | some cell =>
      rw [Disk.store_bytes, Bytes.write_of_inside _ start found] at notZero
      exact absurd (zeros cell (List.mem_of_getElem? found)) notZero

/-- Writing zeros leaves no other byte that is not zero. -/
theorem writeLoop_zeros {turns : Nat} {rest : List Extent} {size : UInt32}
    (zeros : ∀ cell ∈ src, cell = 0)
    (written : writeLoop n turns disk rest size off tot src = .ok (after, left)) {place : Nat}
    (notZero : after.bytes place ≠ 0) : disk.bytes place ≠ 0 := by
  induction turns generalizing disk rest size off tot src with
  | zero => cases written
  | succ turns inductionHypothesis => grind [writeLoop_turn, store_zeros, writeLoop_done]

theorem writeLoop_disksize {turns : Nat} {rest : List Extent} {size : UInt32}
    (written : writeLoop n turns disk rest size off tot src = .ok (after, left)) :
    after.disksize = disk.disksize := by
  induction turns generalizing disk rest size off tot src with
  | zero => cases written
  | succ turns inductionHypothesis =>
    by_cases more : tot < n
    · obtain ⟨extent, back, _, ⟨_, moved⟩ | ⟨_, copied⟩⟩ := writeLoop_turn more written
      · exact inductionHypothesis moved
      · exact (inductionHypothesis copied).trans rfl
    · grind [writeLoop_done]

/-- Where the loop of `writei` stores the first byte, if all others are zero. -/
theorem writeLoop_landing {turns : Nat} {rest : List Extent} {size : UInt32} {mark : UInt8}
    (zeros : ∀ cell ∈ src, cell = 0) (more : tot < n)
    (written : writeLoop n turns disk rest size off tot (mark :: src) = .ok (after, left)) :
    ∃ extent s, landing rest size off = some (extent, s) ∧ ∀ place, after.bytes place ≠ 0 →
      disk.bytes place ≠ 0 ∨
        place = blockOffset (extent.startblkno + off / 512) + (s % 512).toNat := by
  induction turns generalizing rest size with
  | zero => cases written
  | succ turns inductionHypothesis =>
    obtain ⟨extent, back, rfl, ⟨behind, moved⟩ | ⟨inside, copied⟩⟩ := writeLoop_turn more written
    · grind [landing]
    · rw [landing, if_pos inside]
      refine ⟨extent, size, rfl, fun place notZero => ?_⟩
      obtain ⟨count, isCount⟩ := Nat.exists_eq_succ_of_ne_zero (@chunk_pos n size tot more).ne'
      rw [isCount, List.take_succ_cons, List.drop_succ_cons] at copied
      have stored := writeLoop_zeros (fun cell member => zeros cell (List.mem_of_mem_drop member))
        copied notZero
      by_cases here : place = blockOffset (extent.startblkno + off / 512) + (size % 512).toNat
      · exact Or.inr here
      · refine Or.inl ?_
        rw [← List.singleton_append, Disk.store_bytes, Bytes.write_append] at stored
        have others := @store_zeros (disk.store _ [mark]) _ _ _
          (fun cell member => zeros cell (List.mem_of_mem_take member)) stored
        rwa [Disk.store_bytes, Bytes.write_of_outside] at others
        rw [List.length_singleton]
        omega

/-- The loop of `writei` up to the end of the extent that the file begins with. -/
theorem writeLoop_cross (rest : List Extent) (n : UInt32) (turns : Nat)
    (onDisk : extent.OnDisk disk) (size tot : UInt32) (src : List UInt8)
    (enough : n.toNat - tot.toNat + rest.length < turns) (inside : size.toNat ≤ extent.bytes)
    (more : extent.bytes - size.toNat < n.toNat - tot.toNat) (short : n.toNat < 2 ^ 31)
    (long : extent.bytes - size.toNat ≤ src.length) :
    ∃ (fewer : Nat) (nextOff nextTot : UInt32), nextOff.toNat = extent.bytes ∧
      nextTot.toNat = tot.toNat + (extent.bytes - size.toNat) ∧
      writeLoop n turns disk (extent :: rest) size size tot src =
        writeLoop n fewer (disk.store (extent.address + size.toNat)
          (src.take (extent.bytes - size.toNat))) rest 0 nextOff nextTot
          (src.drop (extent.bytes - size.toNat)) := by
  have bytes := onDisk.bytes_lt
  induction turns generalizing disk size tot src with
  | zero => exact absurd enough (Nat.not_lt_zero _)
  | succ turns inductionHypothesis =>
    have moreTot : tot < n := by
      rw [UInt32.lt_iff_toNat_lt]
      omega
    rcases Nat.lt_or_eq_of_le inside with sizeInside | atEnd
    · obtain ⟨positive, within, nextSize, nextTot, left⟩ :=
        chunk_copied moreTot (show size.toNat + (n.toNat - tot.toNat) < 2 ^ 32 by omega)
      have ends := chunk_le_extent sizeInside within
      have longEnough : (chunk n size tot).toNat ≤ src.length := by omega
      have stillOnDisk : extent.OnDisk (disk.store (extent.address + size.toNat)
          (src.take (chunk n size tot).toNat)) := onDisk
      obtain ⟨fewer, lastOff, lastTot, isOff, isTot, continues⟩ :=
        inductionHypothesis stillOnDisk (size + chunk n size tot) (tot + chunk n size tot)
          (src.drop (chunk n size tot).toNat) (by omega) (by omega) (by omega)
          (by rw [List.length_drop]; omega)
      refine ⟨fewer, lastOff, lastTot, isOff, by omega, ?_⟩
      have part : extent.bytes - size.toNat =
          (chunk n size tot).toNat + (extent.bytes - (size + chunk n size tot).toNat) := by
        omega
      rw [onDisk.writeLoop_copies moreTot sizeInside longEnough, continues, part, List.take_add,
        List.drop_drop, nextSize]
      simp only [Disk.store]
      rw [Bytes.write_append, List.length_take, min_eq_left longEnough, Nat.add_assoc]
    · have atEndWord : ¬ size < extent.nblocks * 512 := by
        rw [onDisk.lt_iff]
        omega
      refine ⟨turns, size, tot, atEnd, by omega, ?_⟩
      rw [writeLoop_moves moreTot atEndWord, atEnd, Nat.sub_self, List.take_zero, List.drop_zero,
        Disk.store, Bytes.write_nil, UInt32.sub_self]

theorem writeLoop_gap {gap : List Extent} (empty : totalBytes gap = 0) (more : tot < n)
    (turns : Nat) (disk : Disk) (rest : List Extent) (size off : UInt32) (src : List UInt8) :
    writeLoop n (turns + gap.length) disk (gap ++ rest) size off tot src =
      writeLoop n turns disk rest (behindGap gap.length size off) off tot src := by
  induction gap generalizing size with
  | nil => rfl
  | cons first gap inductionHypothesis =>
    rw [totalBytes_cons, Nat.add_eq_zero_iff] at empty
    have moves : ¬ size < first.nblocks * 512 := by grind [nblocks_eq_zero]
    rw [List.length_cons, ← Nat.add_assoc, List.cons_append, writeLoop_moves more moves,
      behindGap_succ, ← inductionHypothesis empty.2]

/-- The two loops of `writei`, up to what is appended. -/
def fillExtents (disk : Disk) (ip : Inode) (src : List UInt8) (off n : UInt32) :
    Except Halt (Disk × List UInt8) := do
  let (data, size) ← seekExtent ip.data.toList 0 off
  writeLoop n (n.toNat + extentN + 1) disk data size off 0 src

/-- A write that is not empty comes to the extent with the offset. -/
theorem Inode.Regular.fillExtents_loop (regular : ip.Regular disk)
    (isSplit : ip.data.toList = front ++ extent :: back)
    (start : totalBytes front < off.toNat ∨ totalBytes front = 0)
    (inFirst : off.toNat ≤ totalBytes front + extent.bytes) (some : 0 < n.toNat) :
    ∃ (turns : Nat) (size : UInt32), n.toNat + back.length < turns ∧
      size.toNat = off.toNat - totalBytes front ∧ ∀ src,
      fillExtents disk ip src off n = writeLoop n turns disk (extent :: back) size off 0 src := by
  obtain ⟨gap, size, sought, empty, shorter, isSize⟩ := regular.seek isSplit start inFirst
  have length : front.length + (back.length + 1) = extentN := by grind [List.Vector.toList_length]
  have more : (0 : UInt32) < n := UInt32.lt_iff_toNat_lt.mpr some
  obtain ⟨turns, isTurns⟩ : ∃ turns, n.toNat + extentN + 1 = turns + gap.length :=
    ⟨n.toNat + extentN + 1 - gap.length, by omega⟩
  refine ⟨turns, behindGap gap.length size off, by omega, isSize, fun src => ?_⟩
  rw [fillExtents, sought, ok_bind]
  dsimp only
  rw [isTurns, writeLoop_gap empty more]

/-- A write that fits the extents. -/
theorem Inode.Regular.writei_fits (regular : ip.Regular fs.disk)
    (inside : off.toNat + n.toNat ≤ totalBytes ip.data.toList) (src : List UInt8) :
    writei fs ip src off n = (do
      let (disk, _) ← fillExtents fs.disk ip src off n
      return ((n.toNat : Int), { fs with disk := disk }, ip)) := by
  have short := regular.short
  have sum : (off + n).toNat = off.toNat + n.toNat := toNat_add_of_lt (by omega)
  have accepted : ¬ off + n < off := by
    rw [UInt32.lt_iff_toNat_lt, sum]
    omega
  have fits : ¬ getCapacity ip < off + n := by
    rw [UInt32.lt_iff_toNat_lt, regular.toNat_getCapacity, sum]
    omega
  rw [writei, if_neg (by simp [regular.locked]), if_neg regular.notDevice, if_neg accepted,
    fillExtents, bind_assoc]
  simp only [if_neg fits]
  refine bind_congr fun sought => bind_congr fun written => ?_
  rw [if_neg (by decide), toInt_of_lt (by omega)]

/-! ### Writes behind the first extent -/

/-- The extents that are in use come first. -/
def Compact (extents : List Extent) : Prop :=
  ∃ used unused, extents = used ++ unused ∧ (∀ extent ∈ used, 0 < extent.bytes) ∧
    totalBytes unused = 0

theorem Compact.head_nonempty {first : Extent} {rest : List Extent}
    (compact : Compact (first :: rest)) (some : 0 < totalBytes (first :: rest)) :
    0 < first.bytes := by
  obtain ⟨used, unused, isSplit, nonempty, empty⟩ := compact
  cases used with
  | nil => grind
  | cons other used => grind

theorem Compact.tail {first : Extent} {rest : List Extent} (compact : Compact (first :: rest)) :
    Compact rest := by
  obtain ⟨used, unused, isSplit, nonempty, empty⟩ := compact
  cases used with
  | nil =>
    rw [List.nil_append] at isSplit
    rw [← isSplit, totalBytes_cons, Nat.add_eq_zero_iff] at empty
    exact ⟨[], rest, rfl, fun _ member => absurd member List.not_mem_nil, empty.2⟩
  | cons other used =>
    exact ⟨used, unused, (List.cons.inj isSplit).2,
      fun extent member => nonempty extent (List.mem_cons_of_mem _ member), empty⟩

/-- Where `writei` stores the byte at which the loops land, it is the place where `readi` finds it
only if the file and the extent have this byte in blocks of the same number. -/
theorem stored_at_landing (onDisk : extent.OnDisk disk) {s : UInt32} (inRange : off.toNat < 2 ^ 31)
    (same : extent.address + s.toNat =
      blockOffset (extent.startblkno + off / 512) + (s % 512).toNat) :
    off.toNat / bsize = s.toNat / bsize := by
  have linked := disk.disksize_lt
  unfold Extent.OnDisk at onDisk
  have block : (off / 512).toNat = off.toNat / bsize := UInt32.toNat_div off 512
  have inBlock : (s % 512).toNat = s.toNat % bsize := UInt32.toNat_mod s 512
  have number : (extent.startblkno + off / 512).toNat =
      extent.startblkno.toNat + off.toNat / bsize := by
    grind [toNat_add_of_lt]
  rw [blockOffset, toNat_mul_bsize (by rw [number]; unfold bsize; omega), number, inBlock,
    Extent.address, Nat.add_mul] at same
  unfold bsize at *
  omega

/-- The bytes of a write that has one byte that is not zero. -/
def single (before after : Nat) : List UInt8 :=
  List.replicate before 0 ++ 1 :: List.replicate after 0

theorem single_zero (after : Nat) : single 0 after = 1 :: List.replicate after 0 := rfl

theorem single_drop (before after : Nat) :
    (single before after).drop before = 1 :: List.replicate after 0 :=
  List.drop_left' List.length_replicate

theorem single_take (before after : Nat) :
    (single before after).take before = List.replicate before 0 :=
  List.take_left' List.length_replicate

theorem single_length (before after : Nat) :
    (single before after).length = before + (after + 1) := by
  simp [single]

theorem bsize_le_totalBytes (some : 0 < totalBytes extents) :
    bsize ≤ totalBytes extents := by
  have whole : bsize ∣ totalBytes extents := by
    refine List.dvd_sum fun bytes member => ?_
    obtain ⟨extent, _, rfl⟩ := List.mem_map.mp member
    exact ⟨extent.nblocks.toNat, Nat.mul_comm _ _⟩
  exact Nat.le_of_dvd some whole

theorem Extent.bsize_le_bytes (some : 0 < extent.bytes) :
    bsize ≤ extent.bytes := by
  unfold Extent.bytes bsize at *
  omega

section Behind

variable {fs : FileSystem} {ip : Inode} (regular : ip.Regular fs.disk) {off n : UInt32}
  (begun : off.toNat + n.toNat ≤ ip.size.toNat)
  (inside : off.toNat + n.toNat ≤ totalBytes ip.data.toList) (some : 0 < n.toNat)
include regular begun inside some

/-- The loops of a write and of the read behind it, from the same extent on. -/
theorem Inode.Regular.loops (isSplit : ip.data.toList = front ++ extent :: back)
    (start : totalBytes front < off.toNat ∨ totalBytes front = 0)
    (inFirst : off.toNat ≤ totalBytes front + extent.bytes)
    (writesBack : WritesBack fs ip src off n) :
    ∃ (turns : Nat) (size : UInt32) (disk : Disk) (left : List UInt8),
      n.toNat + back.length < turns ∧ size.toNat = off.toNat - totalBytes front ∧
      (∀ other ∈ extent :: back, other.OnDisk disk) ∧
      writeLoop n turns fs.disk (extent :: back) size off 0 src = .ok (disk, left) ∧
      ∃ turns, n.toNat + back.length < turns ∧
        readLoop disk n turns (extent :: back) size off 0 = .ok src := by
  obtain ⟨after, written, read, _⟩ := writesBack
  obtain ⟨turns, size, enough, isSize, writes⟩ :=
    regular.fillExtents_loop isSplit start inFirst some
  rw [regular.writei_fits inside, writes] at written
  obtain ⟨⟨disk, left⟩, isWritten, written⟩ := ok_of_bind written
  have isAfter : after.disk = disk := by
    rw [← (Prod.mk.inj (ok_pair written).2).1]
  have sameSize := writeLoop_disksize isWritten
  obtain ⟨readTurns, readSize, readEnough, isReadSize, reads⟩ :=
    regular.readi_loop isSplit start inFirst after (by omega) some inside
  rw [UInt32.toNat_inj.mp (isReadSize.trans isSize.symm)] at reads
  rw [reads, isAfter] at read
  obtain ⟨bytes, isRead, read⟩ := ok_of_bind read
  rw [(ok_pair read).2] at isRead
  refine ⟨turns, size, disk, left, enough, isSize, fun other member => ?_, isWritten, readTurns,
    readEnough, isRead⟩
  unfold Extent.OnDisk
  rw [sameSize]
  refine regular.onDisk other ?_
  rw [isSplit]
  exact List.mem_append_right _ member

end Behind

section Behind

variable {fs : FileSystem} {ip : Inode} (regular : ip.Regular fs.disk) {off n : UInt32}
  (begun : off.toNat + n.toNat ≤ ip.size.toNat)
  (inside : off.toNat + n.toNat ≤ totalBytes ip.data.toList) (some : 0 < n.toNat)
include regular begun inside some

/-- A write that begins in a later extent. -/
theorem Inode.Regular.not_writesBack_later (isSplit : ip.data.toList = front ++ extent :: back)
    (nonempty : 0 < extent.bytes) (start : totalBytes front < off.toNat)
    (later : 0 < totalBytes front) (inFirst : off.toNat ≤ totalBytes front + extent.bytes) :
    ¬ WritesBack (fs.withBytes fun _ => 0) ip (single 0 (n.toNat - 1)) off n := by
  intro writesBack
  have short := regular.short
  have more : (0 : UInt32) < n := UInt32.lt_iff_toNat_lt.mpr some
  obtain ⟨_, size, disk, left, _, isSize, onDisk, written, _, _, read⟩ :=
    (regular.withBytes _).loops begun inside some isSplit (Or.inl start) inFirst writesBack
  rw [single_zero] at written read
  obtain ⟨found, s, lands, marks⟩ :=
    writeLoop_landing (fun cell member => List.eq_of_mem_replicate member) more written
  obtain ⟨_, _, alsoLands, head⟩ := readLoop_landing onDisk more read
  rw [lands] at alsoLands
  obtain ⟨rfl, rfl⟩ := Prod.mk.inj (Option.some_inj.mp alsoLands)
  rw [List.head?_cons, Option.some_inj] at head
  obtain ⟨isMember, _, isOffset⟩ := landing_eq_some lands
  have same := (marks _ (by rw [← head]; decide)).resolve_left fun notZero => notZero rfl
  have sameBlock := stored_at_landing (onDisk found isMember)
    (show off.toNat < 2 ^ 31 by omega) same
  have frontBytes := bsize_le_totalBytes later
  have extentBytes := extent.bsize_le_bytes nonempty
  -- the offset in the extent is less than the one in the file by a block at least
  have less : s.toNat + bsize ≤ off.toNat := by
    have sizeLess : size.toNat + bsize ≤ off.toNat := by omega
    by_cases here : size < extent.nblocks * 512
    · grind [landing]
    · rw [UInt32.lt_iff_toNat_lt, (onDisk extent (List.mem_cons_self ..)).toNat_bytes] at here
      rcases isOffset with rfl | rfl
      · exact sizeLess
      · grind [UInt32.toNat_sub_of_le, UInt32.le_iff_toNat_le]
  unfold bsize at *
  omega

/-- A write that goes past the end of the first extent. -/
theorem Inode.Regular.not_writesBack_cross {first second : Extent} {rest : List Extent}
    (isSplit : ip.data.toList = first :: second :: rest) (nonempty : 0 < first.bytes)
    (secondNonempty : 0 < second.bytes)
    (inFirst : off.toNat ≤ first.bytes) (crosses : first.bytes < off.toNat + n.toNat) :
    ¬ WritesBack (fs.withBytes fun _ => 0) ip
      (single (first.bytes - off.toNat) (off.toNat + n.toNat - first.bytes - 1)) off n := by
  intro writesBack
  have short := regular.short
  obtain ⟨_, size, disk, left, enough, isSize, onDisk, written, _, readEnough, read⟩ :=
    (regular.withBytes _).loops begun inside some
      (show _ = [] ++ first :: second :: rest from isSplit)
      (Or.inr rfl) (by rw [totalBytes_nil, Nat.zero_add]; exact inFirst) writesBack
  rw [totalBytes_nil, Nat.sub_zero] at isSize
  obtain rfl : size = off := UInt32.toNat_inj.mp isSize
  have firstOnDisk := onDisk first (List.mem_cons_self ..)
  have bytes := firstOnDisk.bytes_lt
  obtain ⟨_, writeOff, writeTot, isWriteOff, isWriteTot, writes⟩ :=
    writeLoop_cross (second :: rest) n _
      ((regular.withBytes fun _ => 0).onDisk first (by rw [isSplit]; exact List.mem_cons_self ..))
      size 0 (single (first.bytes - size.toNat) (size.toNat + n.toNat - first.bytes - 1))
      (by rw [UInt32.toNat_zero]; exact enough) inFirst
        (by rw [UInt32.toNat_zero]; omega) (by omega)
      (by rw [single_length]; omega)
  obtain ⟨_, readOff, readTot, _, isReadOff, isReadTot, reads⟩ :=
    readLoop_cross firstOnDisk (second :: rest) n _ size size 0
      (by rw [UInt32.toNat_zero]; exact readEnough) inFirst (by rw [UInt32.toNat_zero]; omega)
      (by omega) (by omega)
  rw [UInt32.toNat_zero, Nat.zero_add] at isWriteTot isReadTot
  rw [writes, single_drop, single_take] at written
  rw [reads, UInt32.sub_self] at read
  obtain ⟨others, isRead, read⟩ := ok_of_bind read
  have isOthers : others = 1 :: List.replicate (size.toNat + n.toNat - first.bytes - 1) 0 :=
    (List.append_inj (Except.ok.inj read) (by simp)).2
  have secondOnDisk := onDisk second (by simp)
  have nonemptyWord : 0 < second.nblocks * 512 := by
    rw [UInt32.lt_iff_toNat_lt, secondOnDisk.toNat_bytes]
    exact secondNonempty
  obtain ⟨_, _, lands, marks⟩ := writeLoop_landing
    (fun cell member => List.eq_of_mem_replicate member)
    (show writeTot < n by rw [UInt32.lt_iff_toNat_lt]; omega) written
  obtain ⟨_, _, alsoLands, head⟩ := readLoop_landing
    (fun other member => onDisk other (List.mem_cons_of_mem _ member))
    (show readTot < n by rw [UInt32.lt_iff_toNat_lt]; omega) isRead
  rw [landing, if_pos nonemptyWord] at lands alsoLands
  obtain ⟨rfl, rfl⟩ := Prod.mk.inj (Option.some_inj.mp lands)
  obtain ⟨rfl, rfl⟩ := Prod.mk.inj (Option.some_inj.mp alsoLands)
  rw [isOthers, List.head?_cons, Option.some_inj] at head
  have same := (marks _ (by rw [← head]; decide)).resolve_left fun notZero =>
    store_zeros (fun cell member => List.eq_of_mem_replicate member) notZero rfl
  have sameBlock := stored_at_landing secondOnDisk (show writeOff.toNat < 2 ^ 31 by omega) same
  have firstBytes := first.bsize_le_bytes nonempty
  rw [UInt32.toNat_zero, isWriteOff] at sameBlock
  unfold bsize at *
  omega

end Behind

/-- Where the extents in use come first and a write behind the first extent is read back whatever
its bytes are, there is none. -/
theorem Inode.Regular.inFirst_of_writesBack (regular : ip.Regular fs.disk)
    (begun : off.toNat + n.toNat ≤ ip.size.toNat)
    (inside : off.toNat + n.toNat ≤ totalBytes ip.data.toList) (compact : Compact ip.data.toList)
    (writesBack : ∀ bytes src, src.length = n.toNat →
      WritesBack (fs.withBytes bytes) ip src off n) :
    n = 0 ∨ off.toNat + n.toNat ≤ ip.data.head.bytes := by
  by_contra outside
  rw [not_or, Nat.not_le] at outside
  have some : 0 < n.toNat := Nat.pos_of_ne_zero fun isZero => outside.1 (UInt32.toNat_inj.mp isZero)
  have isFirst := Extents.toList_head_tail ip.data
  have firstNonempty : 0 < ip.data.head.bytes := by grind [Compact.head_nonempty]
  rcases Nat.lt_or_ge ip.data.head.bytes off.toNat with later | inFirst
  · obtain ⟨front, extent, back, isSplit, nonempty, start, within⟩ :=
      exists_start (show 0 < totalBytes ip.data.toList by omega) (show off.toNat ≤ _ by omega)
    have frontBytes : ip.data.head.bytes ≤ totalBytes front := by
      cases front with
      | nil => grind [totalBytes_nil]
      | cons first front => simp_all
    exact regular.not_writesBack_later begun inside some isSplit nonempty
      (start.resolve_right (by omega)) (by omega) within
      (writesBack _ _ (by rw [single_length]; omega))
  · have total : totalBytes ip.data.toList = ip.data.head.bytes + totalBytes
      ip.data.tail.toList := by
      rw [isFirst, totalBytes_cons]
    cases isRest : ip.data.tail.toList with
    | nil =>
      rw [isRest, totalBytes_nil] at total
      omega
    | cons second rest =>
      rw [isRest] at isFirst total
      rw [isFirst] at compact
      exact regular.not_writesBack_cross begun inside some isFirst firstNonempty
        (compact.tail.head_nonempty (by omega)) inFirst outside.2
        (writesBack _ _ (by rw [single_length]; omega))

/-- `writei` and `readi` are inverse and local for every range inside of the first extent. Where the
extents in use come first they are so for no other range that is not empty. -/
theorem writei_readi_iff {fs : FileSystem} {ip : Inode} (stored : ip.Stored fs.disk)
    (apart : ip.data.toList.Pairwise Extent.Apart) {off n : UInt32}
    (begun : off.toNat + n.toNat ≤ ip.size.toNat)
    (inside : off.toNat + n.toNat ≤ (getCapacity ip).toNat) :
    (n = 0 ∨ off.toNat + n.toNat ≤ ip.data.head.bytes →
      ∀ bytes src, src.length = n.toNat → WritesBack (fs.withBytes bytes) ip src off n) ∧
    (Compact ip.data.toList →
      ((∀ bytes src, src.length = n.toNat → WritesBack (fs.withBytes bytes) ip src off n) ↔
        n = 0 ∨ off.toNat + n.toNat ≤ ip.data.head.bytes)) := by
  have regular := stored.regular apart
  rw [regular.toNat_getCapacity] at inside
  have enough : n = 0 ∨ off.toNat + n.toNat ≤ ip.data.head.bytes →
      ∀ bytes src, src.length = n.toNat → WritesBack (fs.withBytes bytes) ip src off n := by
    rintro (rfl | inFirst) bytes src length
    · exact (regular.withBytes bytes).writesBack_zero begun inside length rfl
    · exact (regular.withBytes bytes).writesBack_first begun inside length apart inFirst
  exact ⟨enough, fun compact => ⟨regular.inFirst_of_writesBack begun inside compact, enough⟩⟩

theorem threeExtents_apart : threeExtents.data.toList.Pairwise Extent.Apart := by
  unfold Extent.Apart
  decide

theorem writei_readi_iff_first : 100 + 3 ≤ threeExtents.data.head.bytes ∧
    WritesBack (fourBlocks.withBytes fun _ => 0) threeExtents [1, 2, 3] 100 3 :=
  ⟨by decide, (@writei_readi_iff fourBlocks threeExtents threeExtents_stored
    threeExtents_apart 100 3
    (by decide) (by decide)).1 (Or.inr (by decide)) _ _ rfl⟩

/-- A byte for the second extent is stored in the third one, and `readi` does not find it. -/
theorem writei_second : threeExtents.data.toList.Pairwise Extent.Apart ∧
    600 + 1 ≤ threeExtents.size.toNat ∧ 600 + 1 ≤ (getCapacity threeExtents).toNat ∧
    ((do
      let (count, after, ip) ← writei fourBlocks threeExtents [1] 600 1
      let (_, found) ← readi after ip 600 1
      let (_, next) ← readi after ip 1112 1
      return (count, found, next)) = Except.ok ((1 : Int), [0], [1])) ∧
    ¬ WritesBack fourBlocks threeExtents [1] 600 1 := by
  have ran : (do
      let (count, after, ip) ← writei fourBlocks threeExtents [1] 600 1
      let (_, found) ← readi after ip 600 1
      let (_, next) ← readi after ip 1112 1
      return (count, found, next)) = Except.ok ((1 : Int), [0], [1]) := by
    decide +kernel
  refine ⟨threeExtents_apart, by decide, by decide, ran, ?_⟩
  rintro ⟨after, written, read, _⟩
  rw [written, ok_bind] at ran
  dsimp only at ran
  rw [read, ok_bind] at ran
  obtain ⟨⟨_, next⟩, _, ran⟩ := ok_of_bind ran
  cases ran

end Xk
