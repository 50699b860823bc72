/-
This file proves for which ranges `readi` reads the concatenation of the extents of an inode.

The loop of `readi` keeps the offset in the current extent in `size`. At the end of the extent it sets
`size` to `off - size`, which is the place in the file where this extent begins, and not `0`. So the
loop goes on rightly from an extent that the file begins with, and wrongly from every other one: it
lands behind the first byte of an extent, and it stays so from there on, since `off - size` and
`size` then change places at every further extent.
-/

import Xk.ExtentReads

namespace Xk

open Outcome

variable {extent : Extent} {disk : Disk} {off n tot : UInt32} {back extents : List Extent}
  {ip : Inode} {fs : FileSystem}

/-! ### The contents of extents -/

/-- The bytes of extents. -/
def totalBytes (extents : List Extent) : Nat := (extents.map Extent.bytes).sum

/-- The contents of the blocks of extents, in order. -/
def Disk.contents (disk : Disk) (extents : List Extent) : List UInt8 :=
  extents.flatMap fun extent => Bytes.load disk.bytes extent.address extent.bytes

@[simp] theorem totalBytes_nil : totalBytes [] = 0 := rfl

@[simp] theorem totalBytes_cons (extent : Extent) (extents : List Extent) :
    totalBytes (extent :: extents) = extent.bytes + totalBytes extents := by
  rw [totalBytes, List.map_cons, List.sum_cons, ← totalBytes]

@[simp] theorem totalBytes_append (front back : List Extent) :
    totalBytes (front ++ back) = totalBytes front + totalBytes back := by
  rw [totalBytes, List.map_append, List.sum_append, ← totalBytes, ← totalBytes]

theorem Disk.contents_append (disk : Disk) (front back : List Extent) :
    disk.contents (front ++ back) = disk.contents front ++ disk.contents back :=
  List.flatMap_append

theorem Disk.contents_cons (disk : Disk) (extent : Extent) (extents : List Extent) :
    disk.contents (extent :: extents) =
      Bytes.load disk.bytes extent.address extent.bytes ++ disk.contents extents :=
  List.flatMap_cons

@[simp] theorem Disk.contents_length (disk : Disk) (extents : List Extent) :
    (disk.contents extents).length = totalBytes extents := by
  induction extents with
  | nil => rfl
  | cons extent extents inductionHypothesis =>
    grind [contents_cons, Bytes.load_length, totalBytes_cons]

/-- The part of the contents that is in one extent. -/
theorem Disk.contents_part (disk : Disk) (front : List Extent) {extent : Extent}
    (back : List Extent) {off n : Nat} (begun : totalBytes front ≤ off)
    (inside : off + n ≤ totalBytes front + extent.bytes) :
    ((disk.contents (front ++ extent :: back)).drop off).take n =
      Bytes.load disk.bytes (extent.address + (off - totalBytes front)) n := by
  rw [disk.contents_append, disk.contents_cons, List.drop_append, disk.contents_length,
    List.drop_eq_nil_of_le (by rwa [disk.contents_length]), List.nil_append,
    List.drop_append_of_le_length (by rw [Bytes.load_length]; omega),
    List.take_append_of_le_length (by rw [List.length_drop, Bytes.load_length]; omega)]
  exact Bytes.take_drop_load disk.bytes (by omega)

/-- The parts of the contents before and behind the end of an extent. -/
theorem Disk.contents_cross (disk : Disk) (front : List Extent) {extent : Extent}
    (back : List Extent) {off n : Nat} (begun : totalBytes front ≤ off)
    (inside : off ≤ totalBytes front + extent.bytes)
    (behind : totalBytes front + extent.bytes ≤ off + n) :
    ((disk.contents (front ++ extent :: back)).drop off).take n =
      Bytes.load disk.bytes (extent.address + (off - totalBytes front))
          (totalBytes front + extent.bytes - off) ++
        (disk.contents back).take (off + n - (totalBytes front + extent.bytes)) := by
  obtain ⟨rest, isRest⟩ := Nat.exists_eq_add_of_le behind
  rw [show n = (totalBytes front + extent.bytes - off) + rest by omega, List.take_add,
    disk.contents_part front back begun (by omega), List.drop_drop,
    show off + (totalBytes front + extent.bytes - off) =
      totalBytes (front ++ [extent]) by simp; omega,
    show front ++ extent :: back = (front ++ [extent]) ++ back by simp, disk.contents_append,
    List.drop_left' (disk.contents_length _)]
  congr 2
  omega

theorem Extents.toList_head_tail (extents : Extents) :
    extents.toList = extents.head :: extents.tail.toList := by
  rw [← List.Vector.toList_cons, List.Vector.cons_head_tail]

/-! ### Seeking -/

theorem Extent.toNat_bytes (inRange : extent.bytes < 2 ^ 32) :
    (extent.nblocks * 512).toNat = extent.bytes :=
  toNat_mul_bsize inRange

/-- The first loop of `readi` and `writei` stops at the first extent that ends at `off` or behind. -/
theorem seekExtent_split {front : List Extent} {extent : Extent} (back : List Extent)
    {size off : UInt32} (inRange : size.toNat + totalBytes (front ++ [extent]) < 2 ^ 32)
    (begun : front = [] ∨ size.toNat + totalBytes front < off.toNat)
    (above : size ≤ off) (inside : off.toNat ≤ size.toNat + totalBytes (front ++ [extent])) :
    ∃ rest : UInt32, seekExtent (front ++ extent :: back) size off = .ok (extent :: back, rest) ∧
      rest.toNat = off.toNat - (size.toNat + totalBytes front) := by
  induction front generalizing size with
  | nil =>
    rw [List.nil_append, totalBytes_cons, totalBytes_nil] at inRange inside
    have sum : (size + extent.nblocks * 512).toNat = size.toNat + extent.bytes := by
      grind [toNat_add_of_lt, Extent.toNat_bytes]
    refine ⟨off - size, ?_, ?_⟩
    · grind [seekExtent, UInt32.lt_iff_toNat_lt]
    · simp_all
  | cons first front inductionHypothesis =>
    simp only [List.cons_append, totalBytes_cons] at inRange begun inside
    have begun := begun.resolve_left (List.cons_ne_nil _ _)
    have sum : (size + first.nblocks * 512).toNat = size.toNat + first.bytes := by
      rw [toNat_add_of_lt, Extent.toNat_bytes]
      all_goals first | omega | (rw [Extent.toNat_bytes] <;> omega)
    have passes : size + first.nblocks * 512 < off := by
      rw [UInt32.lt_iff_toNat_lt, sum]
      omega
    rw [List.cons_append, seekExtent, if_pos passes, totalBytes_cons, ← Nat.add_assoc, ← sum]
    refine inductionHypothesis ?_ (Or.inr ?_) (UInt32.le_of_lt passes) ?_
    all_goals rw [sum]; omega

/-! ### The end of an extent -/

/-- A chunk does not go past the end of the extent that it begins in. -/
theorem chunk_le_extent {size m : Nat} (inside : size < extent.bytes)
    (within : size % bsize + m ≤ bsize) : size + m ≤ extent.bytes := by
  unfold Extent.bytes bsize at *
  omega

theorem move_invariant (off size m : UInt32) : off + m - (size + m) = off - size := by grind

/-- The loop of `readi` up to the end of an extent, and the move to the next one. -/
theorem readLoop_cross (onDisk : extent.OnDisk disk) (rest : List Extent) (n : UInt32) (turns : Nat)
    (size off tot : UInt32) (enough : n.toNat - tot.toNat + rest.length < turns)
    (inside : size.toNat ≤ extent.bytes) (more : extent.bytes - size.toNat < n.toNat - tot.toNat)
    (inRange : off.toNat + (extent.bytes - size.toNat) < 2 ^ 32) (short : n.toNat < 2 ^ 31) :
    ∃ (fewer : Nat) (nextOff nextTot : UInt32), n.toNat - nextTot.toNat + rest.length ≤ fewer ∧
      nextOff.toNat = off.toNat + (extent.bytes - size.toNat) ∧
      nextTot.toNat = tot.toNat + (extent.bytes - size.toNat) ∧
      readLoop disk n turns (extent :: rest) size off tot = (do
        let others ← readLoop disk n fewer rest (off - size) nextOff nextTot
        return Bytes.load disk.bytes (extent.address + size.toNat) (extent.bytes - size.toNat) ++
          others) := by
  have bytes := onDisk.bytes_lt
  induction turns generalizing size off tot with
  | zero => exact absurd enough (Nat.not_lt_zero _)
  | succ turns inductionHypothesis =>
    have moreTot : tot < n := by
      rw [UInt32.lt_iff_toNat_lt]
      omega
    rcases Nat.lt_or_eq_of_le inside with sizeInside | atEnd
    · obtain ⟨positive, within, nextSize, nextTot, left⟩ :=
        chunk_copied moreTot (show size.toNat + (n.toNat - tot.toNat) < 2 ^ 32 by omega)
      have ends := chunk_le_extent sizeInside within
      have nextOff : (off + chunk n size tot).toNat = off.toNat + (chunk n size tot).toNat :=
        toNat_add_of_lt (by omega)
      obtain ⟨fewer, lastOff, lastTot, enoughLeft, isOff, isTot, continues⟩ :=
        inductionHypothesis (size + chunk n size tot) (off + chunk n size tot)
          (tot + chunk n size tot) (by omega) (by omega) (by omega) (by omega)
      refine ⟨fewer, lastOff, lastTot, enoughLeft, by omega, by omega, ?_⟩
      rw [readLoop_copies onDisk moreTot sizeInside, continues, move_invariant, bind_assoc]
      refine bind_congr fun others => ?_
      rw [pure_bind, nextSize, ← List.append_assoc, ← Nat.add_assoc, ← Bytes.load_add]
      congr 3
      omega
    · have atEndWord : ¬ size < extent.nblocks * 512 := by
        rw [onDisk.lt_iff]
        omega
      refine ⟨turns, off, tot, by omega, by omega, by omega, ?_⟩
      rw [readLoop, if_pos moreTot, atEnd, Nat.sub_self, Bytes.load_zero]
      simp only [if_neg atEndWord, List.nil_append]
      exact (bind_pure _).symm

/-! ### Where the loop lands -/

/-- The extent and the offset in it at which the loops of `readi` and `writei` copy next. -/
def landing : List Extent → UInt32 → UInt32 → Option (Extent × UInt32)
  | [], _, _ => none
  | extent :: rest, size, off =>
    if size < extent.nblocks * 512 then some (extent, size) else landing rest (off - size) off

/-- The offset is the one at the start, or that to which it changes at every move. -/
theorem landing_eq_some {rest : List Extent} {size s : UInt32}
    (lands : landing rest size off = some (extent, s)) :
    extent ∈ rest ∧ s < extent.nblocks * 512 ∧ (s = size ∨ s = off - size) := by
  induction rest generalizing size with
  | nil => cases lands
  | cons first rest inductionHypothesis => grind [landing]

/-- The offset with which the loop comes out of a number of empty extents. -/
def behindGap (count : Nat) (size off : UInt32) : UInt32 :=
  if Even count then size else off - size

theorem behindGap_succ (count : Nat) (size off : UInt32) :
    behindGap (count + 1) size off = behindGap count (off - size) off := by
  grind [behindGap]

theorem nblocks_eq_zero (empty : extent.bytes = 0) : extent.nblocks = 0 := by
  apply UInt32.toNat_inj.mp
  unfold Extent.bytes bsize at empty
  show _ = 0
  omega

section Gap

variable {gap : List Extent} (empty : totalBytes gap = 0)
include empty

theorem landing_gap (rest : List Extent) (size off : UInt32) :
    landing (gap ++ rest) size off = landing rest (behindGap gap.length size off) off := by
  induction gap generalizing size with
  | nil => rfl
  | cons first gap inductionHypothesis =>
    rw [totalBytes_cons, Nat.add_eq_zero_iff] at empty
    have moves : ¬ size < first.nblocks * 512 := by grind [nblocks_eq_zero]
    rw [List.cons_append, landing, if_neg moves, inductionHypothesis empty.2, List.length_cons,
      behindGap_succ]

theorem readLoop_gap (disk : Disk) (more : tot < n) (turns : Nat) (rest : List Extent)
    (size off : UInt32) :
    readLoop disk n (turns + gap.length) (gap ++ rest) size off tot =
      readLoop disk n turns rest (behindGap gap.length size off) off tot := by
  induction gap generalizing size with
  | nil => rfl
  | cons first gap inductionHypothesis =>
    rw [totalBytes_cons, Nat.add_eq_zero_iff] at empty
    have moves : ¬ size < first.nblocks * 512 := by grind [nblocks_eq_zero]
    rw [List.length_cons, ← Nat.add_assoc, List.cons_append, readLoop, if_pos more, behindGap_succ,
      ← inductionHypothesis empty.2]
    simp only [if_neg moves]

end Gap

/-- The first byte that the loop of `readi` copies is the one where it lands. -/
theorem readLoop_landing {turns : Nat} {rest : List Extent} {size : UInt32} {bytes : List UInt8}
    (onDisk : ∀ extent ∈ rest, extent.OnDisk disk) (more : tot < n)
    (read : readLoop disk n turns rest size off tot = .ok bytes) :
    ∃ extent s, landing rest size off = some (extent, s) ∧
      bytes.head? = some (disk.bytes (extent.address + s.toNat)) := by
  induction turns generalizing rest size with
  | zero => cases read
  | succ turns inductionHypothesis =>
    cases rest with
    | nil => grind [readLoop]
    | cons extent rest =>
      rw [landing]
      split_ifs with inside
      · have extentOnDisk := onDisk extent (List.mem_cons_self ..)
        rw [readLoop_copies extentOnDisk more (extentOnDisk.lt_iff.mp inside)] at read
        obtain ⟨others, _, read⟩ := ok_of_bind read
        refine ⟨extent, size, rfl, ?_⟩
        rw [← Except.ok.inj read, List.head?_append, List.head?_eq_getElem?, Bytes.load_getElem?,
          if_pos (chunk_pos more), Option.some_or, Nat.add_zero]
      · grind [readLoop]

/-! ### Landing astray -/

/-- Two extents have no byte in common. -/
def Extent.Apart (extent other : Extent) : Prop :=
  extent.address + extent.bytes ≤ other.address ∨ other.address + other.bytes ≤ extent.address

/-- A loop that comes out of empty extents behind the first byte of the next extent does not land on
this byte. -/
theorem landing_astray {gap : List Extent} {next : Extent} {size s : UInt32}
    (empty : totalBytes gap = 0) (nonempty : 0 < next.bytes)
    (apart : ∀ other ∈ back, next.Apart other)
    (inRange : ∀ other ∈ next :: back, other.bytes < 2 ^ 32)
    (behind : behindGap gap.length size off ≠ 0)
    (lands : landing (gap ++ next :: back) size off = some (extent, s)) :
    extent.address + s.toNat ≠ next.address := by
  rw [landing_gap empty, landing] at lands
  split_ifs at lands
  · obtain ⟨rfl, rfl⟩ := Prod.mk.inj (Option.some_inj.mp lands)
    have positive : behindGap gap.length size off ≠ 0 → 0 < (behindGap gap.length size off).toNat :=
      fun notZero => Nat.pos_of_ne_zero fun zero => notZero (UInt32.toNat_inj.mp zero)
    have := positive behind
    omega
  · obtain ⟨member, within, _⟩ := landing_eq_some lands
    have disjoint := apart extent member
    rw [UInt32.lt_iff_toNat_lt,
      Extent.toNat_bytes (inRange extent (List.mem_cons_of_mem _ member))] at within
    unfold Extent.Apart at disjoint
    omega

/-- What is left of a file has a first byte that is not in an empty extent. -/
theorem exists_next (some : 0 < totalBytes extents) :
    ∃ gap next back, extents = gap ++ next :: back ∧ totalBytes gap = 0 ∧ 0 < next.bytes := by
  induction extents with
  | nil => exact absurd some (lt_irrefl 0)
  | cons first extents inductionHypothesis =>
    rcases Nat.eq_zero_or_pos first.bytes with isEmpty | nonempty
    · grind [totalBytes_cons]
    · exact ⟨[], first, extents, rfl, rfl, nonempty⟩

/-- The extent that `readi` begins with. -/
theorem exists_start {off : Nat} (some : 0 < totalBytes extents) (inside : off ≤ totalBytes extents)
    :
    ∃ front extent back, extents = front ++ extent :: back ∧ 0 < extent.bytes ∧
      (totalBytes front < off ∨ totalBytes front = 0) ∧
      off ≤ totalBytes front + extent.bytes := by
  induction extents generalizing off with
  | nil => exact absurd some (lt_irrefl 0)
  | cons first extents inductionHypothesis =>
    rw [totalBytes_cons] at some inside
    rcases Nat.eq_zero_or_pos first.bytes with isEmpty | nonempty
    · obtain ⟨front, extent, back, rfl, nonempty, begun, inFirst⟩ :=
        @inductionHypothesis off (by omega) (by omega)
      refine ⟨first :: front, extent, back, rfl, nonempty, ?_, ?_⟩
      all_goals rwa [totalBytes_cons, isEmpty, Nat.zero_add]
    · rcases Nat.lt_or_ge first.bytes off with later | here
      · obtain ⟨front, extent, back, rfl, nonempty, begun, inFirst⟩ :=
          @inductionHypothesis (off - first.bytes) (by omega) (by omega)
        refine ⟨first :: front, extent, back, rfl, nonempty, Or.inl ?_, ?_⟩
        all_goals
          rw [totalBytes_cons]
          omega
      · exact ⟨[], first, extents, rfl, nonempty, Or.inr rfl, by rw [totalBytes_nil]; omega⟩

/-! ### Reading a file -/

/-- A regular file or a directory that is locked, with its extents on the disk. -/
structure Inode.Stored (ip : Inode) (disk : Disk) : Prop where
  type : ip.type = tFile ∨ ip.type = tDir
  locked : ip.locked = true
  onDisk : ∀ extent ∈ ip.data.toList, extent.OnDisk disk

/-- An inode with a length that an `int` can hold. -/
structure Inode.Regular (ip : Inode) (disk : Disk) : Prop extends ip.Stored disk where
  short : totalBytes ip.data.toList < 2 ^ 31

/-- The addresses of the bytes of extents. -/
def addresses (extents : List Extent) : Finset Nat :=
  extents.foldr (fun extent others => Finset.Ico extent.address (extent.address + extent.bytes) ∪
    others) ∅

theorem mem_addresses {place : Nat} :
    place ∈ addresses extents ↔
      ∃ extent ∈ extents, extent.address ≤ place ∧ place < extent.address + extent.bytes := by
  induction extents with
  | nil => simp [addresses]
  | cons first extents inductionHypothesis => grind [addresses]

theorem card_addresses (apart : extents.Pairwise Extent.Apart) :
    (addresses extents).card = totalBytes extents := by
  induction apart with
  | nil => rfl
  | @cons first extents firstApart _ inductionHypothesis =>
    have disjoint : Disjoint (Finset.Ico first.address (first.address + first.bytes))
        (addresses extents) := by
      rw [Finset.disjoint_left]
      intro place here there
      obtain ⟨other, member, above, below⟩ := mem_addresses.mp there
      have := firstApart other member
      rw [Finset.mem_Ico] at here
      unfold Extent.Apart at this
      omega
    show (_ ∪ addresses extents).card = _
    rw [Finset.card_union_of_disjoint disjoint, inductionHypothesis, Nat.card_Ico,
      Nat.add_sub_cancel_left, totalBytes_cons]

/-- Extents that are apart have no more bytes together than the disk. -/
theorem totalBytes_lt {extents : List Extent} {disk : Disk}
    (onDisk : ∀ extent ∈ extents, extent.OnDisk disk) (apart : extents.Pairwise Extent.Apart) :
    totalBytes extents < 2 ^ 31 := by
  have inDisk : addresses extents ⊆ Finset.range (disk.disksize * bsize) := by
    intro place isPlace
    obtain ⟨extent, member, _, below⟩ := mem_addresses.mp isPlace
    have blocks : extent.startblkno.toNat + extent.nblocks.toNat ≤ disk.disksize :=
      onDisk extent member
    rw [Extent.address, Extent.bytes, ← Nat.add_mul] at below
    exact Finset.mem_range.mpr (below.trans_le (Nat.mul_le_mul_right bsize blocks))
  have fits := Finset.card_le_card inDisk
  rw [card_addresses apart, Finset.card_range] at fits
  exact fits.trans_lt disk.linked

theorem Inode.Stored.regular (stored : ip.Stored disk)
    (apart : ip.data.toList.Pairwise Extent.Apart) : ip.Regular disk :=
  ⟨stored, totalBytes_lt stored.onDisk apart⟩

theorem Inode.Stored.notDevice (stored : ip.Stored disk) :
    ip.type ≠ tDev := by
  grind [Inode.Stored]

section Reading

variable {disk : Disk} {ip : Inode} (regular : ip.Regular disk) {off n : UInt32}
  {front back : List Extent} {extent : Extent} (isSplit : ip.data.toList = front ++ extent :: back)
  (start : totalBytes front < off.toNat ∨ totalBytes front = 0)
  (inFirst : off.toNat ≤ totalBytes front + extent.bytes)
include regular isSplit start inFirst

/-- The first loop comes to the extent with the offset, or to an empty one before it. -/
theorem Inode.Regular.seek : ∃ (gap : List Extent) (size : UInt32),
    seekExtent ip.data.toList 0 off = .ok (gap ++ extent :: back, size) ∧ totalBytes gap = 0 ∧
      gap.length ≤ front.length ∧
      (behindGap gap.length size off).toNat = off.toNat - totalBytes front := by
  have short := regular.short
  rw [isSplit, totalBytes_append, totalBytes_cons] at short
  by_cases direct : front = [] ∨ totalBytes front < off.toNat
  · obtain ⟨size, sought, isSize⟩ := @seekExtent_split front extent back 0 off
      (by rw [UInt32.toNat_zero, totalBytes_append, totalBytes_cons, totalBytes_nil]; omega)
      (by rwa [UInt32.toNat_zero, Nat.zero_add]) UInt32.zero_le
      (by rw [UInt32.toNat_zero, totalBytes_append, totalBytes_cons, totalBytes_nil]; omega)
    rw [UInt32.toNat_zero, Nat.zero_add] at isSize
    exact ⟨[], size, by rw [isSplit]; exact sought, rfl, Nat.zero_le _, isSize⟩
  · rw [not_or] at direct
    obtain ⟨first, others, rfl⟩ := List.exists_cons_of_ne_nil direct.1
    have isZero : totalBytes (first :: others) = 0 := start.resolve_left direct.2
    have offZero : off = 0 := UInt32.toNat_inj.mp (by rw [UInt32.toNat_zero]; omega)
    rw [totalBytes_cons, Nat.add_eq_zero_iff] at isZero
    refine ⟨first :: others, 0, ?_, by rw [totalBytes_cons]; omega, le_rfl, ?_⟩
    · grind [seekExtent]
    · grind [behindGap]

/-- A read that is not empty comes to the extent with the offset. -/
theorem Inode.Regular.readi_loop (fs : FileSystem)
    (begun : off.toNat ≤ ip.size.toNat) (some : 0 < n.toNat)
    (inside : off.toNat + n.toNat ≤ totalBytes ip.data.toList) :
    ∃ (turns : Nat) (size : UInt32), n.toNat + back.length < turns ∧
      size.toNat = off.toNat - totalBytes front ∧
      readi fs ip off n = (do
        let bytes ← readLoop fs.disk n turns (extent :: back) size off 0
        return ((n.toNat : Int), bytes)) := by
  have short := regular.short
  obtain ⟨gap, size, sought, empty, shorter, isSize⟩ := regular.seek isSplit start inFirst
  have length : front.length + (back.length + 1) = extentN := by grind [List.Vector.toList_length]
  have sum : (off + n).toNat = off.toNat + n.toNat := toNat_add_of_lt (by omega)
  have accepted : ¬ (ip.size < off ∨ off + n < off) := by grind [UInt32.lt_iff_toNat_lt]
  have more : (0 : UInt32) < n := UInt32.lt_iff_toNat_lt.mpr some
  obtain ⟨turns, isTurns⟩ : ∃ turns, n.toNat + extentN + 1 = turns + gap.length :=
    ⟨n.toNat + extentN + 1 - gap.length, by omega⟩
  refine ⟨turns, behindGap gap.length size off, by omega, isSize, ?_⟩
  rw [readi, if_neg (by simp [regular.locked]), if_neg regular.notDevice, if_neg accepted, sought,
    ok_bind]
  dsimp only
  rw [isTurns, readLoop_gap empty fs.disk more, toInt_of_lt (by omega)]

end Reading

/-- The first loop comes to an end for every offset inside of the extents. -/
theorem Inode.Regular.exists_seek (regular : ip.Regular disk)
    (inside : off.toNat ≤ totalBytes ip.data.toList) :
    ∃ rest size, seekExtent ip.data.toList 0 off = .ok (rest, size) := by
  rcases Nat.eq_zero_or_pos (totalBytes ip.data.toList) with empty | some
  · obtain ⟨gap, size, sought, _⟩ := regular.seek
      (show _ = [] ++ _ from ip.data.toList_head_tail) (Or.inr rfl) (show off.toNat ≤ _ by omega)
    exact ⟨_, size, sought⟩
  · grind [exists_start, seek]

/-! ### Behind the end of an extent -/

theorem append_bind_eq_ok_iff {read : Except Halt (List UInt8)} {first others : List UInt8} :
    (do let bytes ← read; return first ++ bytes) = Except.ok (first ++ others) ↔
      read = .ok others := by
  constructor
  · intro copied
    obtain ⟨bytes, isRead, copied⟩ := ok_of_bind copied
    rw [isRead, List.append_cancel_left (Except.ok.inj copied)]
  · intro isRead
    rw [isRead]
    rfl

/-- `readi` copies the bytes of the contents of the inode. -/
def ReadsRange (fs : FileSystem) (ip : Inode) (off n : UInt32) : Prop :=
  readi fs ip off n =
    .ok (n.toNat, ((fs.disk.contents ip.data.toList).drop off.toNat).take n.toNat)

/-- The loop of `readi` copies the contents of `rest` from their first byte on, as many as are
missing. -/
def ReadsRest (disk : Disk) (n : UInt32) (turns : Nat) (rest : List Extent)
    (size off tot : UInt32) : Prop :=
  readLoop disk n turns rest size off tot =
    .ok ((disk.contents rest).take (n.toNat - tot.toNat))

/-- A read that goes past the end of the extent that it begins in. -/
theorem Inode.Regular.readsRange_cross (regular : ip.Regular fs.disk) {front : List Extent}
    (isSplit : ip.data.toList = front ++ extent :: back)
    (start : totalBytes front < off.toNat ∨ totalBytes front = 0)
    (inFirst : off.toNat ≤ totalBytes front + extent.bytes) (begun : off.toNat ≤ ip.size.toNat)
    (crosses : totalBytes front + extent.bytes < off.toNat + n.toNat)
    (inside : off.toNat + n.toNat ≤ totalBytes ip.data.toList) :
    ∃ (turns : Nat) (size nextOff tot : UInt32), size.toNat = totalBytes front ∧
      nextOff.toNat = totalBytes front + extent.bytes ∧
      n.toNat - tot.toNat = off.toNat + n.toNat - (totalBytes front + extent.bytes) ∧
      n.toNat - tot.toNat + back.length ≤ turns ∧
      (ReadsRange fs ip off n ↔ ReadsRest fs.disk n turns back size nextOff tot) := by
  have short := regular.short
  obtain ⟨turns, size, enough, isSize, read⟩ :=
    regular.readi_loop isSplit start inFirst fs begun (by omega) inside
  have member : extent ∈ ip.data.toList := by grind
  have offSize : (off - size).toNat = totalBytes front := by
    rw [UInt32.toNat_sub_of_le _ _ (UInt32.le_iff_toNat_le.mpr (by omega))]
    omega
  obtain ⟨fewer, nextOff, tot, enoughLeft, isOff, isTot, continues⟩ :=
    readLoop_cross (regular.onDisk extent member) back n turns size off 0
      (by rw [UInt32.toNat_zero]; omega) (by omega) (by rw [UInt32.toNat_zero]; omega) (by omega)
      (by omega)
  rw [UInt32.toNat_zero, Nat.zero_add] at isTot
  refine ⟨fewer, off - size, nextOff, tot, offSize, by omega, by omega, enoughLeft, ?_⟩
  have missing : off.toNat + n.toNat - (totalBytes front + extent.bytes) =
      n.toNat - tot.toNat := by
    omega
  have here : totalBytes front + extent.bytes - off.toNat = extent.bytes - size.toNat := by omega
  rw [ReadsRange, isSplit, fs.disk.contents_cross front back (by omega) inFirst (by omega), missing,
    here, ← isSize, ReadsRest, ← append_bind_eq_ok_iff, ← continues, read]
  constructor
  · intro copied
    obtain ⟨bytes, isRead, copied⟩ := ok_of_bind copied
    rw [isRead, (ok_pair copied).2]
  · intro isRead
    rw [isRead]
    rfl

section Gap

variable {gap : List Extent} (empty : totalBytes gap = 0)
include empty

theorem Disk.contents_gap (disk : Disk) (rest : List Extent) :
    disk.contents (gap ++ rest) = disk.contents rest := by
  grind [contents_length, contents_append]

variable {disk : Disk} {n size off tot : UInt32} {turns : Nat} {next : Extent}
  {back : List Extent} (onDisk : next.OnDisk disk)
  (enough : n.toNat - tot.toNat + (gap ++ next :: back).length ≤ turns)
  (first : behindGap gap.length size off = 0)
include onDisk enough first

/-- The loop copies the contents rightly from an extent that it begins at its first byte. -/
theorem readsRest_inside (more : tot.toNat < n.toNat)
    (inside : n.toNat - tot.toNat ≤ next.bytes) :
    ReadsRest disk n turns (gap ++ next :: back) size off tot := by
  rw [List.length_append, List.length_cons] at enough
  obtain ⟨fewer, rfl⟩ : ∃ fewer, turns = fewer + gap.length := ⟨turns - gap.length, by omega⟩
  rw [ReadsRest, readLoop_gap empty disk (UInt32.lt_iff_toNat_lt.mpr more), first,
    disk.contents_gap empty,
    readLoop_inside onDisk back n fewer 0 off tot (by omega) (by omega)
      (by rw [UInt32.toNat_zero]; omega)]
  have part := @Disk.contents_part disk [] next back 0 (n.toNat - tot.toNat)
    (Nat.zero_le _) (by rw [totalBytes_nil]; omega)
  rw [List.nil_append, List.drop_zero] at part
  rw [part]
  rfl

/-- The loop comes to the end of an extent that it begins at its first byte. -/
theorem readsRest_cross (crosses : next.bytes < n.toNat - tot.toNat)
    (inRange : off.toNat + next.bytes < 2 ^ 32) (short : n.toNat < 2 ^ 31)
    (reads : ReadsRest disk n turns (gap ++ next :: back) size off tot) :
    ∃ (fewer : Nat) (nextOff nextTot : UInt32), nextOff.toNat = off.toNat + next.bytes ∧
      nextTot.toNat = tot.toNat + next.bytes ∧
      ReadsRest disk n fewer back off nextOff nextTot := by
  rw [List.length_append, List.length_cons] at enough
  obtain ⟨turns, rfl⟩ : ∃ fewer, turns = fewer + gap.length := ⟨turns - gap.length, by omega⟩
  rw [ReadsRest, readLoop_gap empty disk (UInt32.lt_iff_toNat_lt.mpr (by omega)), first,
    disk.contents_gap empty] at reads
  obtain ⟨fewer, nextOff, nextTot, _, isOff, isTot, continues⟩ :=
    readLoop_cross onDisk back n turns 0 off tot (by omega) (by rw [UInt32.toNat_zero]; omega)
      (by rw [UInt32.toNat_zero]; omega) (by rw [UInt32.toNat_zero]; omega) short
  rw [UInt32.toNat_zero, Nat.sub_zero] at isOff isTot
  refine ⟨fewer, nextOff, nextTot, isOff, isTot, ?_⟩
  have cut := @Disk.contents_cross disk [] next back 0 (n.toNat - tot.toNat)
    (Nat.zero_le _) (Nat.zero_le _) (by rw [totalBytes_nil]; omega)
  rw [List.nil_append, List.drop_zero, totalBytes_nil] at cut
  rw [cut, continues, UInt32.toNat_zero, UInt32.sub_zero,
    show 0 + next.bytes - 0 = next.bytes - 0 by omega, append_bind_eq_ok_iff] at reads
  rw [ReadsRest, reads]
  congr 2
  omega

end Gap

/-! ### The ranges that are read rightly -/

/-- The range lies in one extent. At the end of an extent a range begins in this extent and not in
the next one. -/
def InOne (extents : List Extent) (off n : Nat) : Prop :=
  ∃ front extent back, extents = front ++ extent :: back ∧
    (totalBytes front < off ∨ totalBytes front = 0) ∧
    off + n ≤ totalBytes front + extent.bytes

/-- The range lies in the first two extents that have blocks, with an even number of empty ones
between them. -/
def InFirstTwo (extents : List Extent) (off n : Nat) : Prop :=
  ∃ front first gap second back, extents = front ++ first :: (gap ++ second :: back) ∧
    totalBytes front = 0 ∧ totalBytes gap = 0 ∧ Even gap.length ∧ off ≤ first.bytes ∧
    off + n ≤ first.bytes + second.bytes

/-- The loop of `readi` crosses no end of an extent other than that of the first one. -/
def Straight (extents : List Extent) (off n : Nat) : Prop :=
  n = 0 ∨ InOne extents off n ∨ InFirstTwo extents off n

section Straight

variable {fs : FileSystem} {ip : Inode} (regular : ip.Regular fs.disk) {off n : UInt32}
  (begun : off.toNat ≤ ip.size.toNat)
  (inside : off.toNat + n.toNat ≤ totalBytes ip.data.toList)
include regular begun inside

theorem Inode.Regular.readsRange_zero (nothing : n.toNat = 0) : ReadsRange fs ip off n := by
  have isZero : n = 0 := UInt32.toNat_inj.mp nothing
  subst isZero
  obtain ⟨rest, size, sought⟩ := regular.exists_seek (show off.toNat ≤ _ by omega)
  have accepted : ¬ (ip.size < off ∨ off + 0 < off) := by grind [UInt32.lt_iff_toNat_lt]
  rw [ReadsRange, readi, if_neg (by simp [regular.locked]), if_neg regular.notDevice,
    if_neg accepted, sought, ok_bind, UInt32.toNat_zero, List.take_zero]
  rfl

theorem Inode.Regular.readsRange_of_inOne (some : 0 < n.toNat)
    (inOne : InOne ip.data.toList off.toNat n.toNat) : ReadsRange fs ip off n := by
  obtain ⟨front, extent, back, isSplit, start, within⟩ := inOne
  obtain ⟨turns, size, enough, isSize, read⟩ :=
    regular.readi_loop isSplit start (by omega) fs begun some inside
  have member : extent ∈ ip.data.toList := by grind
  rw [ReadsRange, read, readLoop_inside (regular.onDisk extent member) back n turns size off 0
    (by rw [UInt32.toNat_zero]; omega) (Nat.zero_le _) (by rw [UInt32.toNat_zero]; omega), isSplit,
    fs.disk.contents_part front back (by omega) within, isSize, UInt32.toNat_zero, Nat.sub_zero]
  rfl

theorem Inode.Regular.readsRange_of_inFirstTwo (some : 0 < n.toNat)
    (inFirstTwo : InFirstTwo ip.data.toList off.toNat n.toNat) : ReadsRange fs ip off n := by
  obtain ⟨front, first, gap, second, back, isSplit, isFront, empty, even, inFirst, within⟩ :=
    inFirstTwo
  by_cases crosses : first.bytes < off.toNat + n.toNat
  · obtain ⟨turns, size, nextOff, tot, isSize, isOff, missing, enough, iff⟩ :=
      regular.readsRange_cross isSplit (Or.inr isFront) (by omega) begun (by omega) inside
    have member : second ∈ ip.data.toList := by
      rw [isSplit]
      simp
    have isZero : size = 0 := UInt32.toNat_inj.mp (by rw [isSize, isFront, UInt32.toNat_zero])
    refine iff.mpr (readsRest_inside empty (regular.onDisk second member) enough ?_ (by omega)
      (by omega))
    rw [behindGap, if_pos even, isZero]
  · exact regular.readsRange_of_inOne begun inside some
      ⟨front, first, _, isSplit, Or.inr isFront, by omega⟩

theorem Inode.Regular.readsRange_of_straight
    (straight : Straight ip.data.toList off.toNat n.toNat) : ReadsRange fs ip off n := by
  rcases Nat.eq_zero_or_pos n.toNat with nothing | some
  · exact regular.readsRange_zero begun inside nothing
  · rcases straight with nothing | inOne | inFirstTwo
    · exact regular.readsRange_zero begun inside nothing
    · exact regular.readsRange_of_inOne begun inside some inOne
    · exact regular.readsRange_of_inFirstTwo begun inside some inFirstTwo

end Straight

/-! ### The ranges that are read wrongly -/

/-- The file system with other bytes on the disk. -/
def FileSystem.withBytes (fs : FileSystem) (bytes : Nat → UInt8) : FileSystem :=
  { fs with disk := { fs.disk with bytes := bytes } }

theorem Inode.Regular.withBytes (regular : ip.Regular fs.disk) (bytes : Nat → UInt8) :
    ip.Regular (fs.withBytes bytes).disk :=
  ⟨⟨regular.type, regular.locked, regular.onDisk⟩, regular.short⟩

/-- A disk with one byte that is not zero. -/
def marked (address : Nat) : Nat → UInt8 := fun place => if place = address then 1 else 0

/-- A loop that lands astray does not copy the first byte of the next extent. -/
theorem not_readsRest {size : UInt32} {turns : Nat} {gap : List Extent} {next : Extent}
    (isMarked : disk.bytes = marked next.address) (empty : totalBytes gap = 0)
    (nonempty : 0 < next.bytes) (apart : ∀ other ∈ back, next.Apart other)
    (onDisk : ∀ extent ∈ gap ++ next :: back, extent.OnDisk disk)
    (behind : behindGap gap.length size off ≠ 0) (more : tot.toNat < n.toNat) :
    ¬ ReadsRest disk n turns (gap ++ next :: back) size off tot := by
  intro reads
  obtain ⟨extent, s, lands, head⟩ :=
    readLoop_landing onDisk (UInt32.lt_iff_toNat_lt.mpr more) reads
  have inRange : ∀ other ∈ next :: back, other.bytes < 2 ^ 32 := fun other member =>
    (onDisk other (List.mem_append_right _ member)).bytes_lt.trans (by decide)
  have astray := landing_astray empty nonempty apart inRange behind lands
  have isFirst : (Bytes.load disk.bytes next.address next.bytes).head? = some 1 := by
    rw [List.head?_eq_getElem?, Bytes.load_getElem?, if_pos nonempty, isMarked, Nat.add_zero,
      marked, if_pos rfl]
  rw [List.head?_take, if_neg (by omega), disk.contents_gap empty, disk.contents_cons,
    List.head?_append, isFirst, isMarked, marked, if_neg astray] at head
  cases head

theorem behindGap_ne_zero {count : Nat} {size : UInt32} (less : size.toNat < off.toNat)
    (positive : Even count → 0 < size.toNat) : behindGap count size off ≠ 0 := by
  intro isZero
  unfold behindGap at isZero
  split_ifs at isZero with even
  · simp_all
  · grind

theorem apart_behind {front : List Extent} {next : Extent}
    (apart : (front ++ next :: back).Pairwise Extent.Apart) : ∀ other ∈ back, next.Apart other :=
  (List.pairwise_cons.mp (List.pairwise_append.mp apart).2.1).1

/-- Where the extents are apart and `readi` reads the contents whatever they are, the loop comes to
the first byte of every extent that it crosses to. -/
theorem Inode.Regular.straight_of_reads (regular : ip.Regular fs.disk)
    (begun : off.toNat ≤ ip.size.toNat) (inside : off.toNat + n.toNat ≤ totalBytes ip.data.toList)
    (apart : ip.data.toList.Pairwise Extent.Apart)
    (reads : ∀ bytes, ReadsRange (fs.withBytes bytes) ip off n) :
    Straight ip.data.toList off.toNat n.toNat := by
  by_contra notStraight
  rw [Straight, not_or, not_or] at notStraight
  obtain ⟨some, notInOne, notInFirstTwo⟩ := notStraight
  have short := regular.short
  have onDisk := fun bytes => (regular.withBytes bytes).onDisk
  obtain ⟨front, first, back, isSplit, nonempty, start, inFirst⟩ :=
    exists_start (show 0 < totalBytes ip.data.toList by omega) (show off.toNat ≤ _ by omega)
  have crosses : totalBytes front + first.bytes < off.toNat + n.toNat :=
    Nat.lt_of_not_le fun within => notInOne ⟨front, first, back, isSplit, start, within⟩
  have total : totalBytes ip.data.toList = totalBytes front + (first.bytes + totalBytes back) := by
    rw [isSplit, totalBytes_append, totalBytes_cons]
  obtain ⟨gap, second, behind, rfl, empty, secondNonempty⟩ :=
    exists_next (show 0 < totalBytes back by omega)
  rw [totalBytes_append, totalBytes_cons, empty] at total
  have cross := fun bytes => (regular.withBytes bytes).readsRange_cross isSplit start inFirst begun
    crosses inside
  have isSecond : ip.data.toList = (front ++ first :: gap) ++ second :: behind := by
    rw [isSplit]
    simp
  have member : ∀ extent ∈ gap ++ second :: behind, extent ∈ ip.data.toList := by grind
  by_cases direct : totalBytes front = 0 ∧ Even gap.length
  · -- the loop is right in the second extent, and goes astray behind it
    have later : first.bytes + second.bytes < off.toNat + n.toNat :=
      Nat.lt_of_not_le fun within => notInFirstTwo ⟨front, first, gap, second, behind, isSplit,
        direct.1, empty, direct.2, by omega, within⟩
    obtain ⟨nextGap, third, last, rfl, nextEmpty, thirdNonempty⟩ :=
      exists_next (show 0 < totalBytes behind by omega)
    rw [totalBytes_append, totalBytes_cons, nextEmpty] at total
    obtain ⟨turns, size, nextOff, tot, isSize, isOff, missing, enough, iff⟩ :=
      cross (marked third.address)
    have isZero : behindGap gap.length size nextOff = 0 := by
      rw [behindGap, if_pos direct.2]
      exact UInt32.toNat_inj.mp (by rw [isSize, direct.1, UInt32.toNat_zero])
    obtain ⟨fewer, lastOff, lastTot, isLastOff, isLastTot, rest⟩ :=
      readsRest_cross empty (onDisk _ second (member second (by simp))) enough isZero (by omega)
        (by omega) (by omega) (iff.mp (reads _))
    have isThird : ip.data.toList = (front ++ first :: (gap ++ second :: nextGap)) ++
        third :: last := by
      rw [isSplit]
      simp
    rw [isThird] at apart
    refine not_readsRest rfl nextEmpty thirdNonempty (apart_behind apart) ?_ ?_ (by omega) rest
    · grind
    · exact behindGap_ne_zero (by omega) fun _ => by omega
  · obtain ⟨turns, size, nextOff, tot, isSize, isOff, missing, enough, iff⟩ :=
      cross (marked second.address)
    rw [isSecond] at apart
    refine not_readsRest rfl empty secondNonempty (apart_behind apart)
      (fun extent isMember => onDisk _ extent (member extent isMember)) ?_ (by omega)
      (iff.mp (reads _))
    refine behindGap_ne_zero (by omega) fun even => ?_
    have notZero : totalBytes front ≠ 0 := fun isZero => direct ⟨isZero, even⟩
    omega

/-- `readi` reads the concatenation of the extents where its loop crosses no end of an extent other
than that of the first one. Where the extents are apart it does so nowhere else: for every other
range there are contents of the disk for which it stores other bytes, or runs past the array. -/
theorem readi_contents_iff {fs : FileSystem} {ip : Inode} (stored : ip.Stored fs.disk)
    {off n : UInt32} (begun : off.toNat ≤ ip.size.toNat)
    (inside : off.toNat + n.toNat ≤ totalBytes ip.data.toList) :
    (totalBytes ip.data.toList < 2 ^ 31 → Straight ip.data.toList off.toNat n.toNat →
      ∀ bytes, ReadsRange (fs.withBytes bytes) ip off n) ∧
    (ip.data.toList.Pairwise Extent.Apart →
      ((∀ bytes, ReadsRange (fs.withBytes bytes) ip off n) ↔
        Straight ip.data.toList off.toNat n.toNat)) := by
  have reads : ip.Regular fs.disk → Straight ip.data.toList off.toNat n.toNat →
      ∀ bytes, ReadsRange (fs.withBytes bytes) ip off n := fun regular straight bytes =>
    (regular.withBytes bytes).readsRange_of_straight begun inside straight
  refine ⟨fun short => reads ⟨stored, short⟩, fun apart => ?_⟩
  have regular := stored.regular apart
  exact ⟨regular.straight_of_reads begun inside apart, reads regular⟩

/-- A disk of four blocks, all zero. -/
def fourBlocks : FileSystem where
  disk := ⟨4, fun _ => 0, by decide⟩
  devsw := ⟨fun _ => none, fun _ => none⟩
  sb := ⟨4, 0, 0, 0⟩
  inode := fun _ => .zero
  inodefile := .zero

/-- A file of three extents of one block each. -/
def threeExtents : Inode where
  dev := 1
  inum := 2
  ref := 1
  valid := true
  locked := true
  type := tFile
  devid := 0
  size := 1536
  data := ⟨[⟨1, 1⟩, ⟨2, 1⟩, ⟨3, 1⟩, .zero, .zero, .zero, .zero], rfl⟩

theorem threeExtents_stored : threeExtents.Stored fourBlocks.disk where
  type := Or.inl rfl
  locked := rfl
  onDisk := show ∀ extent ∈ threeExtents.data.toList,
    extent.startblkno.toNat + extent.nblocks.toNat ≤ 4 by decide

theorem readi_contents_iff_firstTwo :
    Straight threeExtents.data.toList 500 24 ∧
      ReadsRange (fourBlocks.withBytes (marked 1024)) threeExtents 500 24 :=
  have straight : Straight threeExtents.data.toList 500 24 :=
    Or.inr (Or.inr ⟨[], ⟨1, 1⟩, [], ⟨2, 1⟩, [⟨3, 1⟩, .zero, .zero, .zero, .zero], rfl, rfl, rfl,
      by decide, by decide, by decide⟩)
  ⟨straight, (@readi_contents_iff fourBlocks threeExtents threeExtents_stored 500 24 (by decide)
    (by decide)).1 (by decide) straight _⟩

/-- The byte behind the end of the second extent is not found. -/
theorem readi_behind_second : threeExtents.data.toList.Pairwise Extent.Apart ∧
    1023 + 2 ≤ threeExtents.size.toNat ∧ 1023 + 2 ≤ totalBytes threeExtents.data.toList ∧
    readi fourBlocks threeExtents 1023 2 = .error .undefined ∧
    ¬ ReadsRange fourBlocks threeExtents 1023 2 := by
  have undefined : readi fourBlocks threeExtents 1023 2 = .error .undefined := by rfl
  refine ⟨?_, by decide, by decide, undefined, ?_⟩
  · unfold Extent.Apart
    decide
  · grind [ReadsRange]

end Xk
