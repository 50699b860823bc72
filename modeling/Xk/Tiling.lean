/-
This file sets up lists of ranges each of which begins where the one before it ends. They add up,
they do not overlap, and they leave nothing out.
-/

import Mathlib

namespace Tiling

/-- A range of positions, by its first one and its length. -/
structure Range where
  first : Int
  length : Nat

/-- The positions of a range. -/
def Range.positions (range : Range) : Set Int := Set.Ico range.first (range.first + range.length)

/-- The ranges go from one position to another without a gap. -/
def Tiles : Int → List Range → Int → Prop
  | first, [], last => first = last
  | first, range :: rest, last =>
    range.first = first ∧ Tiles (first + range.length) rest last

variable {first middle last : Int} {ranges : List Range}

theorem Tiles.concat (tiles : Tiles first ranges middle) (length : Nat) :
    Tiles first (ranges ++ [⟨middle, length⟩]) (middle + length) := by
  induction ranges generalizing first with
  | nil =>
    obtain rfl : first = middle := tiles
    exact ⟨rfl, rfl⟩
  | cons range rest inductionHypothesis => exact ⟨tiles.1, inductionHypothesis tiles.2⟩

/-- The ranges add up. -/
theorem Tiles.last_eq (tiles : Tiles first ranges last) :
    last = first + (ranges.map fun range => (range.length : Int)).sum := by
  induction ranges generalizing first with
  | nil =>
    obtain rfl : first = last := tiles
    simp
  | cons range rest inductionHypothesis =>
    rw [inductionHypothesis tiles.2, List.map_cons, List.sum_cons, add_assoc]

theorem Tiles.le (tiles : Tiles first ranges last) : first ≤ last := by
  induction ranges generalizing first with
  | nil => exact le_of_eq tiles
  | cons range rest inductionHypothesis =>
    have later := inductionHypothesis tiles.2
    omega

/-- The ranges leave nothing out. -/
theorem Tiles.mem_iff (tiles : Tiles first ranges last) {position : Int} :
    (∃ range ∈ ranges, position ∈ range.positions) ↔ first ≤ position ∧ position < last := by
  induction ranges generalizing first with
  | nil =>
    obtain rfl : first = last := tiles
    simp only [List.not_mem_nil, false_and, exists_false, false_iff]
    omega
  | cons range rest inductionHypothesis =>
    obtain ⟨isFirst, tiles⟩ := tiles
    have later := tiles.le
    simp only [List.mem_cons, exists_eq_or_imp, inductionHypothesis tiles]
    rw [Range.positions, Set.mem_Ico, isFirst]
    omega

/-- The ranges do not overlap. -/
theorem Tiles.pairwise (tiles : Tiles first ranges last) :
    ranges.Pairwise fun left right => Disjoint left.positions right.positions := by
  induction ranges generalizing first with
  | nil => exact .nil
  | cons range rest inductionHypothesis =>
    obtain ⟨isFirst, tiles⟩ := tiles
    refine .cons (fun other isOther => ?_) (inductionHypothesis tiles)
    rw [Set.disjoint_left]
    intro position inRange inOther
    have later := (tiles.mem_iff.mp ⟨other, isOther, inOther⟩).1
    have sooner : position < range.first + range.length := inRange.2
    omega

end Tiling
