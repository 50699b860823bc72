/-
This file proves that a ring buffer is a queue. The buffer is an array that is indexed modulo its
capacity by two counters that only grow, and the queue is what the array holds between them. The
two rules are that a value stored at the second counter joins the end of the queue, and that the
value at the first counter leaves its front. Over whole streams this says that what has been taken
out, followed by what the buffer holds, is what has been put in.
-/

import Mathlib

namespace RingBuffer

variable {Value : Type*} {capacity : Nat} [NeZero capacity]

/-- The place of the array that a counter stands for. -/
def place (capacity : Nat) [NeZero capacity] (counter : Nat) : Fin capacity :=
  Fin.ofNat capacity counter

/-- The values between two counters. -/
def contents (buffer : Fin capacity → Value) (head tail : Nat) : List Value :=
  (List.range' head (tail - head)).map fun counter => buffer (place capacity counter)

/-- Two counters less than the capacity apart have different places. -/
theorem place_ne {first second : Nat} (less : first < second)
    (near : second - first < capacity) : place capacity first ≠ place capacity second := by
  intro same
  have residues : first % capacity = second % capacity := congrArg Fin.val same
  have divides : capacity ∣ second - first := (Nat.modEq_iff_dvd' less.le).mp residues
  exact absurd (Nat.le_of_dvd (Nat.sub_pos_of_lt less) divides) (Nat.not_le.mpr near)

/-- A counter that wraps at a multiple of the capacity keeps its place. -/
theorem place_mod {modulus : Nat} (divides : capacity ∣ modulus) (counter : Nat) :
    place capacity (counter % modulus) = place capacity counter :=
  Fin.ext (Nat.mod_mod_of_dvd counter divides)

section

variable (buffer : Fin capacity → Value)
include buffer

theorem contents_self (head : Nat) :
    contents buffer head head = [] := by
  rw [contents, Nat.sub_self]
  rfl

/-- The value at the first counter is the front of the queue. -/
theorem contents_pop {head tail : Nat} (filled : head < tail) :
    contents buffer head tail =
      buffer (place capacity head) :: contents buffer (head + 1) tail := by
  have size : tail - head = tail - (head + 1) + 1 := by omega
  rw [contents, size, List.range'_succ]
  rfl

/-- When the second counter goes back, the end of the queue leaves it. -/
theorem contents_concat {head tail : Nat} (ordered : head ≤ tail) :
    contents buffer head (tail + 1) =
      contents buffer head tail ++ [buffer (place capacity tail)] := by
  have size : tail + 1 - head = tail - head + 1 := by omega
  have last : head + 1 * (tail - head) = tail := by omega
  rw [contents, size, List.range'_concat, List.map_append, last]
  rfl

/-- A value stored at the second counter is the new end of the queue. -/
theorem contents_push {head tail : Nat} (ordered : head ≤ tail) (room : tail - head < capacity)
    (value : Value) :
    contents (Function.update buffer (place capacity tail) value) head (tail + 1) =
      contents buffer head tail ++ [value] := by
  rw [contents_concat _ ordered, Function.update_self]
  congr 1
  refine List.map_congr_left fun counter member => ?_
  have between := List.mem_range'_1.mp member
  exact Function.update_of_ne (place_ne (by omega) (by omega)) _ _

end

/-! ### Streams -/

/-- What has been taken out, followed by what the buffer holds, is what has been put in, and the
buffer has not been overrun. The counters are the lengths of the two streams. -/
structure Carries (buffer : Fin capacity → Value) (stored delivered : List Value) : Prop where
  ordered : delivered.length ≤ stored.length
  fits : stored.length - delivered.length ≤ capacity
  stream : delivered ++ contents buffer delivered.length stored.length = stored

variable {buffer : Fin capacity → Value} {stored delivered : List Value}

theorem Carries.empty (buffer : Fin capacity → Value) : Carries buffer [] [] :=
  ⟨le_rfl, Nat.zero_le _, contents_self buffer 0⟩

theorem Carries.push (carries : Carries buffer stored delivered)
    (room : stored.length - delivered.length < capacity) (value : Value) :
    Carries (Function.update buffer (place capacity stored.length) value) (stored ++ [value])
      delivered where
  ordered := by grind [RingBuffer.Carries]
  fits := by grind
  stream := by
    rw [List.length_append, List.length_singleton, contents_push buffer carries.ordered room,
      ← List.append_assoc, carries.stream]

/-- The last value that has been put in is given up, and its place in the array is free again. -/
theorem Carries.unpush {value : Value} (carries : Carries buffer (stored ++ [value]) delivered)
    (kept : delivered.length ≤ stored.length) : Carries buffer stored delivered := by
  have fits := carries.fits
  have stream := carries.stream
  rw [List.length_append, List.length_singleton] at fits stream
  rw [contents_concat buffer kept, ← List.append_assoc] at stream
  exact ⟨kept, by omega, (List.append_inj_left' stream rfl)⟩

/-- The last value that has been put in is the one before the second counter. -/
theorem Carries.last {value : Value} (carries : Carries buffer (stored ++ [value]) delivered)
    (kept : delivered.length ≤ stored.length) : buffer (place capacity stored.length) = value := by
  have stream := carries.stream
  rw [List.length_append, List.length_singleton, contents_concat buffer kept,
    ← List.append_assoc] at stream
  exact List.singleton_inj.mp (List.append_inj_right' stream rfl)

/-- The value at the first counter is the next one of those that have been put in. -/
theorem Carries.next {value : Value} {rest : List Value}
    (carries : Carries buffer (delivered ++ value :: rest) delivered) :
    buffer (place capacity delivered.length) = value := by
  grind [RingBuffer.Carries, contents_pop, List.append_cancel_left]

theorem Carries.pop (carries : Carries buffer stored delivered)
    (filled : delivered.length < stored.length) :
    Carries buffer stored (delivered ++ [buffer (place capacity delivered.length)]) where
  ordered := by grind
  fits := by grind [RingBuffer.Carries]
  stream := by grind [RingBuffer.Carries, contents_pop]

/-- What has been taken out is a prefix of what has been put in. -/
theorem Carries.begins (carries : Carries buffer stored delivered) :
    delivered <+: stored :=
  ⟨_, carries.stream⟩

end RingBuffer
