/-
This file counts the places of a table that hold a given kind of value. A table is a
function on its indices and one assignment is a `Function.update`; the one rule is how much
an assignment moves the count, which depends only on the old and the new value at the
assigned place.
-/

import Mathlib

namespace Counting

variable {Index Value : Type*}

/-- The number of places of a table, among the given ones, whose value has a property. -/
def places (indices : Finset Index) (table : Index → Value) (Kind : Value → Prop)
    [DecidablePred Kind] : Nat :=
  (indices.filter fun index => Kind (table index)).card

variable (indices : Finset Index) (table : Index → Value) (Kind : Value → Prop)
  [DecidablePred Kind]

/-- The count is zero exactly when no place has the property. -/
theorem places_eq_zero_iff :
    places indices table Kind = 0 ↔ ∀ index ∈ indices, ¬ Kind (table index) := by
  rw [places, Finset.card_eq_zero, Finset.filter_eq_empty_iff]

theorem places_mono {table other : Index → Value}
    (implies : ∀ index ∈ indices, Kind (table index) → Kind (other index)) :
    places indices table Kind ≤ places indices other Kind := by
  refine Finset.card_le_card fun index member => ?_
  obtain ⟨isIndex, isKind⟩ := Finset.mem_filter.mp member
  exact Finset.mem_filter.mpr ⟨isIndex, implies index isIndex isKind⟩

/-- The count depends on the table only through which places have the property. -/
theorem places_congr {table other : Index → Value}
    (same : ∀ index ∈ indices, Kind (table index) ↔ Kind (other index)) :
    places indices table Kind = places indices other Kind := by
  unfold places
  rw [Finset.filter_congr same]

/-- Two places with the property count as two. -/
theorem two_le_places {first second : Index} (different : first ≠ second)
    (inFirst : first ∈ indices) (inSecond : second ∈ indices) (isFirst : Kind (table first))
    (isSecond : Kind (table second)) : 2 ≤ places indices table Kind :=
  Finset.one_lt_card.mpr ⟨first, Finset.mem_filter.mpr ⟨inFirst, isFirst⟩, second,
    Finset.mem_filter.mpr ⟨inSecond, isSecond⟩, different⟩

variable [DecidableEq Index]

/-- An assignment takes away the old value's share of the count and adds the new one's. -/
theorem places_update {index : Index} (member : index ∈ indices) (value : Value) :
    places indices (Function.update table index value) Kind +
        (if Kind (table index) then 1 else 0) =
      places indices table Kind + (if Kind value then 1 else 0) := by
  simp only [places, Finset.card_filter]
  have rest : ∑ other ∈ indices.erase index,
        (if Kind (Function.update table index value other) then 1 else 0) =
      ∑ other ∈ indices.erase index, if Kind (table other) then 1 else 0 := by
    grind [Finset.sum_congr]
  rw [← Finset.add_sum_erase indices _ member, ← Finset.add_sum_erase indices _ member,
    Function.update_self, rest]
  omega

end Counting
