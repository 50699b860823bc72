/-
This file proves `memmove` of `kernel/string.c`. The copy is made in place, byte by byte, so that a
turn of a loop may overwrite a byte of the source. Each loop reads a byte before it or a turn before
it has overwritten it, upwards where the destination does not begin inside of the source and
downwards where it does; the test that chooses between the two compares pointers that wrap.
-/

import Xk.Params

namespace Xk

/-- The number of addresses. -/
def addressSpace : Nat := 2 ^ 64

/-- The loop `while (n-- > 0) *d++ = *s++`. -/
def copyUp : Nat → Nat → Nat → (Nat → UInt8) → Nat → UInt8
  | 0, _, _, memory => memory
  | n + 1, d, s, memory =>
    copyUp n ((d + 1) % addressSpace) ((s + 1) % addressSpace)
      (Function.update memory d (memory s))

/-- The loop `while (n-- > 0) *--d = *--s`. -/
def copyDown : Nat → Nat → Nat → (Nat → UInt8) → Nat → UInt8
  | 0, _, _, memory => memory
  | n + 1, d, s, memory =>
    let d := (d + addressSpace - 1) % addressSpace
    let s := (s + addressSpace - 1) % addressSpace
    copyDown n d s (Function.update memory d (memory s))

/-- `memmove(dst, src, n)`. -/
def memmove (memory : Nat → UInt8) (dst src : Nat) (n : UInt32) : Nat → UInt8 :=
  let srcEnd := (src + n.toNat) % addressSpace
  if src < dst ∧ dst < srcEnd then
    copyDown n.toNat ((dst + n.toNat) % addressSpace) srcEnd memory
  else copyUp n.toNat dst src memory

/-- The bytes of the source stand in the destination, and nothing else has changed. -/
structure Moved (memory after : Nat → UInt8) (dst src n : Nat) : Prop where
  inside : ∀ i < n, after (dst + i) = memory (src + i)
  outside : ∀ address, ¬ (dst ≤ address ∧ address < dst + n) → after address = memory address

section Loops

variable {memory : Nat → UInt8} {dst src n : Nat}

/-- Upwards a turn overwrites a byte that no later turn reads, if the destination begins below the
source or behind it. -/
theorem copyUp_moved (dstFits : dst + n ≤ addressSpace) (srcFits : src + n ≤ addressSpace)
    (apart : dst ≤ src ∨ src + n ≤ dst) : Moved memory (copyUp n dst src memory) dst src n := by
  induction n generalizing dst src memory with
  | zero => exact ⟨fun i less => absurd less (Nat.not_lt_zero i), fun _ _ => rfl⟩
  | succ n inductionHypothesis =>
    cases n with
    | zero =>
      refine ⟨fun i less => ?_, fun address away => ?_⟩
      · obtain rfl : i = 0 := by omega
        exact Function.update_self dst _ memory
      · exact Function.update_of_ne (by omega) _ memory
    | succ n =>
      have rest := @inductionHypothesis (Function.update memory dst (memory src)) (dst + 1)
        (src + 1) (by omega) (by omega) (by omega)
      rw [copyUp, Nat.mod_eq_of_lt (by omega), Nat.mod_eq_of_lt (by omega)]
      refine ⟨fun i less => ?_, fun address away => ?_⟩
      · cases i with
        | zero =>
          rw [rest.outside _ (by omega)]
          exact Function.update_self dst _ memory
        | succ i =>
          rw [← Nat.add_assoc, Nat.add_right_comm, rest.inside i (by omega), Nat.add_right_comm,
            Nat.add_assoc]
          exact Function.update_of_ne (by omega) _ memory
      · rw [rest.outside address (by omega)]
        exact Function.update_of_ne (by omega) _ memory

/-- Downwards the same holds if the destination begins above the source. -/
theorem copyDown_moved (dstFits : dst + n ≤ addressSpace) (above : src < dst) :
    Moved memory (copyDown n ((dst + n) % addressSpace) ((src + n) % addressSpace) memory) dst src
      n := by
  induction n generalizing memory with
  | zero => exact ⟨fun i less => absurd less (Nat.not_lt_zero i), fun _ _ => rfl⟩
  | succ n inductionHypothesis =>
    have rest := @inductionHypothesis (Function.update memory (dst + n) (memory (src + n)))
      (by omega)
    have back {pointer : Nat} (fits : pointer + (n + 1) ≤ addressSpace) :
        ((pointer + (n + 1)) % addressSpace + addressSpace - 1) % addressSpace =
          (pointer + n) % addressSpace := by
      unfold addressSpace at *
      omega
    rw [copyDown, back dstFits, back (by omega)]
    rw [Nat.mod_eq_of_lt (by omega : dst + n < addressSpace),
      Nat.mod_eq_of_lt (by omega : src + n < addressSpace)] at rest ⊢
    refine ⟨fun i less => ?_, fun address away => ?_⟩
    · by_cases last : i = n
      · rw [last, rest.outside _ (by omega)]
        exact Function.update_self (dst + n) _ memory
      · rw [rest.inside i (by omega)]
        exact Function.update_of_ne (by omega) _ memory
    · rw [rest.outside address (by omega)]
      exact Function.update_of_ne (by omega) _ memory

end Loops

/-- `memmove` is right for all ranges inside of the address space, whether they overlap or not. -/
theorem memmove_moved (memory : Nat → UInt8) (dst src : Nat) (n : UInt32)
    (dstFits : dst + n.toNat ≤ addressSpace) (srcFits : src + n.toNat ≤ addressSpace) :
    (∀ i < n.toNat, memmove memory dst src n (dst + i) = memory (src + i)) ∧
      ∀ address, ¬ (dst ≤ address ∧ address < dst + n.toNat) →
        memmove memory dst src n address = memory address := by
  suffices moved : Moved memory (memmove memory dst src n) dst src n.toNat from
    ⟨moved.inside, moved.outside⟩
  unfold memmove
  dsimp only
  split_ifs with overlaps
  · exact copyDown_moved dstFits overlaps.1
  · refine copyUp_moved dstFits srcFits ?_
    -- where the end of the source wraps, the destination cannot begin above the source
    by_contra inside
    have wrapless : (src + n.toNat) % addressSpace = src + n.toNat := Nat.mod_eq_of_lt (by omega)
    exact overlaps (by omega)

/-- Three bytes, one place upwards. -/
theorem memmove_moved_overlap :
    (∀ i < 3, memmove (fun address => address.toUInt8) 11 10 3 (11 + i) = (10 + i).toUInt8) ∧
      memmove (fun address => address.toUInt8) 11 10 3 10 = 10 := by
  have moved := memmove_moved (fun address => address.toUInt8) 11 10 3 (by decide) (by decide)
  exact ⟨moved.1, moved.2 10 (by decide)⟩

end Xk
