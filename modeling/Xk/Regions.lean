/-
This file models the bounds of the three virtual regions of a process (`inc/vspace.h`) and
the test `vregioncontains` of `kernel/vspace.c` that user pointers go through. Addresses are
natural numbers below `2 ^ 64` and every sum or difference the code forms in a `uint64_t` is
reduced where the code reduces it.
-/

import Xk.Allocator

namespace Xk

/-- The direction a region grows in. -/
inductive VrDirection
  | up
  | down
deriving DecidableEq

/-- The bounds of a `struct vregion`. -/
structure RegionBounds where
  dir : VrDirection
  vaBase : Nat
  size : Nat
deriving DecidableEq

/-- `KERNBASE`, the first address of the kernel. -/
def kernBase : Nat := 0xFFFFFFFF80000000

/-- `VRTOP(r)`. -/
def RegionBounds.vrTop (region : RegionBounds) : Nat :=
  match region.dir with
  | .up => (region.vaBase + region.size) % 2 ^ 64
  | .down => region.vaBase

/-- `VRBOT(r)`. -/
def RegionBounds.vrBot (region : RegionBounds) : Nat :=
  match region.dir with
  | .up => region.vaBase
  | .down => (region.vaBase + 2 ^ 64 - region.size) % 2 ^ 64

/-- The addresses of a region. -/
def RegionBounds.Has (region : RegionBounds) (address : Nat) : Prop :=
  region.vrBot ≤ address ∧ address < region.vrTop

/-- `vregioncontains(vr, va, size)`. The `int` size is converted to `uint64_t` and the sum
with `va` wraps. -/
def vregioncontains (region : RegionBounds) (va : UInt64) (size : Int32) : Bool :=
  if size = 0 ∧ va.toNat = region.vrTop then false
  else decide (region.vrBot ≤ va.toNat ∧
    (va.toNat + toUint64 size.toInt) % 2 ^ 64 ≤ region.vrTop)

/-- The region table of a process. Its regions are ranges of user addresses. -/
structure UserSpace where
  regions : Fin 3 → RegionBounds
  ordered : ∀ index, (regions index).vrBot ≤ (regions index).vrTop
  user : ∀ index, (regions index).vrTop ≤ kernBase

/-- The addresses inside one of the three regions. -/
def UserSpace.Has (space : UserSpace) (address : Nat) : Prop :=
  ∃ index, (space.regions index).Has address

theorem UserSpace.Has.below_kernBase {space : UserSpace} {address : Nat}
    (inside : space.Has address) : address < kernBase := by
  obtain ⟨index, _, below⟩ := inside
  exact lt_of_lt_of_le below (space.user index)

/-- Every address of `[va, va + length)`, in 64-bit arithmetic, is inside a region and below
the kernel. -/
def UserSpace.HasRange (space : UserSpace) (va : UInt64) (length : Nat) : Prop :=
  ∀ offset < length, space.Has ((va.toNat + offset) % 2 ^ 64) ∧
    (va.toNat + offset) % 2 ^ 64 < kernBase

/-- The end of `[va, va + length)` wraps around to the top of a region or below it. -/
def UserSpace.WrapsInto (space : UserSpace) (va : UInt64) (length : Nat) : Prop :=
  2 ^ 64 ≤ va.toNat + length ∧
    ∃ index, va.toNat + length - 2 ^ 64 ≤ (space.regions index).vrTop

theorem toUint64_toInt (size : Int32) (nonneg : 0 ≤ size.toInt) :
    toUint64 size.toInt = size.toInt.toNat := by
  have bound := Int32.toInt_lt size
  unfold toUint64
  omega

/-- A range that `vregioncontains` accepts and whose end does not wrap lies in the region. -/
theorem has_of_vregioncontains {region : RegionBounds} {va : UInt64} {size : Int32}
    (nonneg : 0 ≤ size.toInt) (accepted : vregioncontains region va size = true)
    (noWrap : va.toNat + size.toInt.toNat < 2 ^ 64) (offset : Nat)
    (inside : offset < size.toInt.toNat) : region.Has ((va.toNat + offset) % 2 ^ 64) := by
  unfold vregioncontains at accepted
  split at accepted
  · exact absurd accepted Bool.false_ne_true
  · rw [decide_eq_true_eq, toUint64_toInt size nonneg, Nat.mod_eq_of_lt noWrap] at accepted
    rw [Nat.mod_eq_of_lt (by omega)]
    exact ⟨by omega, by omega⟩

/-- A range whose end wraps into a region is accepted by `vregioncontains`. -/
theorem vregioncontains_of_wraps (space : UserSpace) {va : UInt64} {size : Int32}
    (nonneg : 0 ≤ size.toInt) (index : Fin 3) (wraps : 2 ^ 64 ≤ va.toNat + size.toInt.toNat)
    (into : va.toNat + size.toInt.toNat - 2 ^ 64 ≤ (space.regions index).vrTop) :
    vregioncontains (space.regions index) va size = true := by
  have bound := Int32.toInt_lt size
  have vaBound := va.toNat_lt
  have ordered := space.ordered index
  have user := space.user index
  unfold kernBase at user
  unfold vregioncontains
  rw [if_neg, decide_eq_true_eq, toUint64_toInt size nonneg]
  · omega
  · rintro ⟨_, top⟩
    omega

end Xk
