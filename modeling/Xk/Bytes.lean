/-
This file is a small library of byte storage: a store maps addresses to cells, a range of it is
read as a list and written from a list, and numbers are kept in it as little-endian bytes.

The rules are the ones of a disk image: a range that was written reads back, a range apart from it
is unchanged, ranges join, and rewriting a whole block of which only a part changed is writing the
part.
-/

import Mathlib

namespace Bytes

variable {Cell : Type*}

/-! ### Ranges of a store -/

/-- The cells at addresses `[start, start + length)`. -/
def load (store : Nat → Cell) (start length : Nat) : List Cell :=
  (List.range length).map fun index => store (start + index)

/-- The store with `cells` written from address `start` on. -/
def write (store : Nat → Cell) (start : Nat) (cells : List Cell) : Nat → Cell :=
  fun address => if start ≤ address then (cells[address - start]?).getD (store address)
    else store address

@[simp] theorem load_length (store : Nat → Cell) (start length : Nat) :
    (load store start length).length = length := by
  simp [load]

@[simp] theorem load_zero (store : Nat → Cell) (start : Nat) : load store start 0 = [] := rfl

@[simp] theorem load_getElem? (store : Nat → Cell) (start length index : Nat) :
    (load store start length)[index]? =
      if index < length then some (store (start + index)) else none := by
  grind [load]

/-- Two stores that agree on a range read alike there. -/
theorem load_congr {store other : Nat → Cell} {start length : Nat}
    (agree : ∀ index, index < length → store (start + index) = other (start + index)) :
    load store start length = load other start length := by
  apply List.map_congr_left
  intro index member
  exact agree index (List.mem_range.mp member)

theorem load_add (store : Nat → Cell) (start first second : Nat) :
    load store start (first + second) =
      load store start first ++ load store (start + first) second := by
  simp only [load, List.range_add, List.map_append, List.map_map]
  congr 1
  apply List.map_congr_left
  intro index _
  rw [Function.comp_apply, Nat.add_assoc]

/-- A part of a range that was read is the range at its own address. -/
theorem take_drop_load (store : Nat → Cell) {start length offset count : Nat}
    (inside : offset + count ≤ length) :
    ((load store start length).drop offset).take count = load store (start + offset) count := by
  grind [Nat.exists_eq_add_of_le, load_add, load_length]

/-- Cells outside the written range are the old ones. -/
theorem write_of_outside (store : Nat → Cell) {start address : Nat} {cells : List Cell}
    (outside : address < start ∨ start + cells.length ≤ address) :
    write store start cells address = store address := by
  grind [write]

/-- Cells inside the written range are the written ones. -/
theorem write_of_inside (store : Nat → Cell) (start : Nat) {index : Nat} {cells : List Cell}
    {cell : Cell} (inside : cells[index]? = some cell) :
    write store start cells (start + index) = cell := by
  grind [write]

theorem write_replicate (cell : Cell) (start count : Nat) :
    write (fun _ => cell) start (List.replicate count cell) = fun _ => cell := by
  funext address
  by_cases inside : start ≤ address ∧ address < start + count
  · obtain ⟨index, rfl⟩ := Nat.exists_eq_add_of_le inside.1
    exact write_of_inside _ start (by rw [List.getElem?_replicate, if_pos (by omega)])
  · grind [write_of_outside]

@[simp] theorem write_nil (store : Nat → Cell) (start : Nat) : write store start [] = store := by
  funext address
  simp [write]

@[simp] theorem load_write (store : Nat → Cell) (start : Nat) (cells : List Cell) :
    load (write store start cells) start cells.length = cells := by
  apply List.ext_getElem?
  intro index
  rw [load_getElem?]
  split_ifs with inside
  · rw [write_of_inside store start (List.getElem?_eq_getElem inside), List.getElem?_eq_getElem]
  · exact (List.getElem?_eq_none (Nat.le_of_not_lt inside)).symm

theorem load_write_of_apart (store : Nat → Cell) {start from' length : Nat} {cells : List Cell}
    (apart : from' + length ≤ start ∨ start + cells.length ≤ from') :
    load (write store start cells) from' length = load store from' length := by
  grind [load_congr, write_of_outside]

theorem write_append (store : Nat → Cell) (start : Nat) (first second : List Cell) :
    write store start (first ++ second) =
      write (write store start first) (start + first.length) second := by
  funext address
  by_cases behind : start + first.length ≤ address
  · grind [write]
  · grind [write]

/-- Replacing a part of a block and writing the whole block back is writing the part. -/
theorem write_patch (store : Nat → Cell) {start length offset : Nat} {cells : List Cell}
    (inside : offset + cells.length ≤ length) :
    write store start ((load store start length).take offset ++ cells ++
      (load store start length).drop (offset + cells.length)) =
      write store (start + offset) cells := by
  obtain ⟨rest, rfl⟩ := Nat.exists_eq_add_of_le inside
  have front : (load store start (offset + cells.length + rest)).take offset =
      load store start offset := by
    rw [Nat.add_assoc, load_add, List.take_left' (load_length store start offset)]
  have back : (load store start (offset + cells.length + rest)).drop (offset + cells.length) =
      load store (start + (offset + cells.length)) rest := by
    rw [load_add, List.drop_left' (load_length store start _)]
  -- writing back what was read changes nothing
  have same : ∀ (before : Nat → Cell) (place size : Nat),
      (∀ index, index < size → before (place + index) = store (place + index)) →
      write before place (load store place size) = before := by
    intro before place size agree
    funext address
    by_cases within : place ≤ address ∧ address < place + size
    · obtain ⟨index, rfl⟩ := Nat.exists_eq_add_of_le within.1
      have bound : index < size := Nat.lt_of_add_lt_add_left within.2
      rw [agree index bound, write_of_inside before place]
      rw [load_getElem?, if_pos bound]
    · apply write_of_outside
      rw [load_length]
      omega
  rw [front, back, write_append, write_append, same store start offset fun _ _ => rfl,
    load_length, List.length_append, load_length]
  apply same
  intro index _
  apply write_of_outside
  omega

/-! ### Known ranges -/

/-- The store has `cells` from address `start` on. -/
def Holds (store : Nat → Cell) (start : Nat) (cells : List Cell) : Prop :=
  load store start cells.length = cells

theorem holds_write (store : Nat → Cell) (start : Nat) (cells : List Cell) :
    Holds (write store start cells) start cells :=
  load_write store start cells

theorem holds_nil (store : Nat → Cell) (start : Nat) : Holds store start [] := rfl

/-- A store that agrees with another on a range holds there what the other holds. -/
theorem Holds.congr {store other : Nat → Cell} {start : Nat} {cells : List Cell}
    (holds : Holds store start cells)
    (agree : ∀ address, start ≤ address → address < start + cells.length →
      other address = store address) : Holds other start cells := by
  refine Eq.trans (load_congr fun index inside => ?_) holds
  exact agree _ (Nat.le_add_right start index) (Nat.add_lt_add_left inside start)

theorem Holds.write_of_apart {store : Nat → Cell} {start place : Nat} {cells written : List Cell}
    (holds : Holds store start cells)
    (apart : start + cells.length ≤ place ∨ place + written.length ≤ start) :
    Holds (write store place written) start cells := by
  grind [congr, Bytes.write_of_outside]

theorem holds_append_iff {store : Nat → Cell} {start : Nat} {first second : List Cell} :
    Holds store start (first ++ second) ↔
      Holds store start first ∧ Holds store (start + first.length) second := by
  rw [Holds, List.length_append, load_add]
  constructor
  · intro joined
    exact List.append_inj joined (load_length store start first.length)
  · rintro ⟨left, right⟩
    rw [left, right]

/-- Records of one size stand at multiples of it. -/
theorem Holds.record {Record : Type*} {store : Nat → Cell} {start size : Nat}
    {encode : Record → List Cell} (sized : ∀ record, (encode record).length = size)
    {records : List Record} (holds : Holds store start (records.flatMap encode)) {index : Nat}
    {record : Record} (isRecord : records[index]? = some record) :
    Holds store (start + index * size) (encode record) := by
  induction records generalizing start index with
  | nil => cases isRecord
  | cons first records inductionHypothesis =>
    rw [List.flatMap_cons, holds_append_iff, sized] at holds
    cases index with
    | zero => grind
    | succ index => grind

/-- A part of a known range. -/
theorem Holds.load_part {store : Nat → Cell} {start : Nat} {cells : List Cell}
    (holds : Holds store start cells) {offset count : Nat}
    (inside : offset + count ≤ cells.length) :
    load store (start + offset) count = (cells.drop offset).take count := by
  rw [← take_drop_load store inside, holds]

/-! ### Numbers as little-endian bytes -/

/-- The `width` low bytes of a number, the lowest first. -/
def little : Nat → Nat → List UInt8
  | 0, _ => []
  | width + 1, number => UInt8.ofNat number :: little width (number / 256)

/-- The number that bytes denote, the lowest first. -/
def value : List UInt8 → Nat
  | [] => 0
  | byte :: bytes => byte.toNat + 256 * value bytes

@[simp] theorem little_length (width number : Nat) : (little width number).length = width := by
  induction width generalizing number with
  | zero => rfl
  | succ width inductionHypothesis => rw [little, List.length_cons, inductionHypothesis]

theorem value_little (width number : Nat) : value (little width number) = number % 256 ^ width := by
  induction width generalizing number with
  | zero => simp [little, value, Nat.mod_one]
  | succ width inductionHypothesis =>
    rw [little, value, inductionHypothesis, pow_succ', Nat.mod_mul]
    simp

/-- The number in the `width` bytes at `offset` of a record. -/
def field (record : List UInt8) (offset width : Nat) : Nat :=
  value ((record.drop offset).take width)

theorem field_little (width number : Nat) (rest : List UInt8) :
    field (little width number ++ rest) 0 width = number % 256 ^ width := by
  rw [field, List.drop_zero, List.take_left' (little_length width number), value_little]

theorem field_append {front : List UInt8} {offset : Nat} (length : front.length = offset)
    (rest : List UInt8) (further width : Nat) :
    field (front ++ rest) (offset + further) width = field rest further width := by
  rw [field, field, ← length, ← List.drop_drop, List.drop_left]

end Bytes
