/-
This file proves exactly when the validation of user pointers in `kernel/syscall.c` is sound.
`argptr`, the two fetchers that `syscall_gen_fetcher` generates and `fetchstr` all ask
`vregioncontains` whether a range lies in a region. `fetchstr` asks about the empty range and
then stops at the top of the region, which is sound. The others pass a length, and the end of
the range is computed in wrapping 64-bit arithmetic: a range that starts in the kernel and
whose end wraps around to at most the top of a region is accepted.
-/

import Xk.Regions

namespace Xk

/-! ### Fetching arguments -/

/-- The argument registers of a `struct trap_frame`. -/
structure ArgumentRegisters where
  rdi : UInt64
  rsi : UInt64
  rdx : UInt64
  rcx : UInt64
  r8 : UInt64
  r9 : UInt64

def fetcharg (registers : ArgumentRegisters) : Nat → Except Halt UInt64
  | 0 => .ok registers.rdi
  | 1 => .ok registers.rsi
  | 2 => .ok registers.rdx
  | 3 => .ok registers.rcx
  | 4 => .ok registers.r8
  | 5 => .ok registers.r9
  | _ => .error (.panic "more than 6 arguments for a syscall")

/-- The first region, in table order, that contains a range. -/
def UserSpace.firstContaining (space : UserSpace) (va : UInt64) (size : Int32) :
    Option (Fin 3) :=
  (List.finRange 3).find? fun index => vregioncontains (space.regions index) va size

/-- `argptr(n, &pp, size)`: the pointer that is stored in `*pp` when the call returns `0`, and
`none` when it returns `-1`. -/
def argptr (registers : ArgumentRegisters) (space : UserSpace) (n : Nat) (size : Int32) :
    Except Halt (Option UInt64) := do
  let pointer ← fetcharg registers n
  if size < 0 then
    return none
  return (space.firstContaining pointer size).map fun _ => pointer

/-- The little-endian word of `count` bytes at an address. -/
def loadWord (load : UInt64 → UInt8) (address : UInt64) : Nat → Nat
  | 0 => 0
  | count + 1 => (load address).toNat + 256 * loadWord load (address + 1) count

/-- The body `syscall_gen_fetcher` generates for a type of `width` bytes. -/
def fetchWord (width : Nat) (load : UInt64 → UInt8) (space : UserSpace) (address : UInt64) :
    Option Nat :=
  (space.firstContaining address (Int32.ofNat width)).map fun _ => loadWord load address width

/-- `fetchint(addr, &i)`. -/
def fetchint (load : UInt64 → UInt8) (space : UserSpace) (address : UInt64) : Option Nat :=
  fetchWord 4 load space address

/-- `fetchint64_t(addr, &i)`. -/
def fetchint64 (load : UInt64 → UInt8) (space : UserSpace) (address : UInt64) : Option Nat :=
  fetchWord 8 load space address

/-- The scan of `fetchstr` from `address` to the top of one region that contains it: the
distance to the first NUL byte. -/
def scanString (load : UInt64 → UInt8) (region : RegionBounds) (address : UInt64) :
    Option Nat :=
  if vregioncontains region address 0 then
    (List.range (region.vrTop - address.toNat)).find? fun offset =>
      load (address + UInt64.ofNat offset) = 0
  else none

/-- `fetchstr(addr, &p)`: the length of the string as an `int`, or `-1`. The pointer stored in
`*pp` is `addr`. -/
def fetchstr (load : UInt64 → UInt8) (space : UserSpace) (address : UInt64) : Int :=
  match (List.finRange 3).findSome? fun index =>
    scanString load (space.regions index) address with
  | some length => wrapInt length
  | none => -1

/-! ### Soundness of the checks -/

/-- The checks are sound at an argument: whatever a successful call lets the kernel touch lies
inside the process's regions, and so below the kernel. -/
structure PointerChecksSound (registers : ArgumentRegisters) (space : UserSpace)
    (load : UInt64 → UInt8) (n : Nat) (size : Int32) : Prop where
  argptr_sound : ∀ pointer, argptr registers space n size = .ok (some pointer) →
    fetcharg registers n = .ok pointer ∧ space.HasRange pointer size.toInt.toNat
  fetchint_sound : ∀ address word, fetcharg registers n = .ok address →
    fetchint load space address = some word → space.HasRange address 4
  fetchint64_sound : ∀ address word, fetcharg registers n = .ok address →
    fetchint64 load space address = some word → space.HasRange address 8
  fetchstr_sound : ∀ address, fetcharg registers n = .ok address →
    0 ≤ fetchstr load space address →
    space.HasRange address ((fetchstr load space address).toNat + 1)

/-- The lengths that are checked for a pointer argument: its size, unless that is negative,
and the widths of the two fetchers. -/
def checkedLengths (size : Int32) : List Nat :=
  if size < 0 then [4, 8] else [size.toInt.toNat, 4, 8]

theorem firstContaining_isSome (space : UserSpace) (va : UInt64) (size : Int32) :
    (∃ index, space.firstContaining va size = some index) ↔
      ∃ index, vregioncontains (space.regions index) va size = true := by
  rw [← Option.isSome_iff_exists, UserSpace.firstContaining, List.find?_isSome]
  simp only [List.mem_finRange, true_and]

/-- A range with a length that fits an `int` is accepted only if it lies in the regions,
exactly when its end does not wrap into a region. -/
theorem accepted_hasRange_iff (space : UserSpace) (va : UInt64) (size : Int32)
    (nonneg : 0 ≤ size.toInt) :
    ((∃ index, vregioncontains (space.regions index) va size = true) →
        space.HasRange va size.toInt.toNat) ↔
      ¬ space.WrapsInto va size.toInt.toNat := by
  have bound := Int32.toInt_lt size
  have vaBound := va.toNat_lt
  constructor
  · rintro sound ⟨wraps, index, into⟩
    have below := (sound ⟨index, vregioncontains_of_wraps space nonneg index wraps into⟩ 0
      (by omega)).2
    unfold kernBase at below
    omega
  · rintro noWrap ⟨index, accepted⟩ offset inside
    have fits : va.toNat + size.toInt.toNat < 2 ^ 64 := by
      by_contra wraps
      refine noWrap ⟨by omega, index, ?_⟩
      unfold vregioncontains at accepted
      split at accepted
      · exact absurd accepted Bool.false_ne_true
      · rw [decide_eq_true_eq, toUint64_toInt size nonneg] at accepted
        omega
    have has : space.Has _ := ⟨index, has_of_vregioncontains nonneg accepted fits offset inside⟩
    exact ⟨has, has.below_kernBase⟩

/-- A generated fetcher is sound exactly when the word does not wrap into a region. -/
theorem fetchWord_sound_iff (width : Nat) (small : width < 2 ^ 31) (load : UInt64 → UInt8)
    (space : UserSpace) (address : UInt64) :
    (∀ word, fetchWord width load space address = some word → space.HasRange address width) ↔
      ¬ space.WrapsInto address width := by
  have value : (Int32.ofNat width).toInt = width := Int32.toInt_ofNat_of_lt small
  have range := accepted_hasRange_iff space address (Int32.ofNat width) (by omega)
  rw [value, Int.toNat_natCast] at range
  rw [← range, ← firstContaining_isSome]
  constructor
  · rintro sound ⟨index, found⟩
    exact sound (loadWord load address width) (by rw [fetchWord, found]; rfl)
  · intro sound word fetched
    obtain ⟨index, found, _⟩ := Option.map_eq_some_iff.mp fetched
    exact sound ⟨index, found⟩

theorem argptr_sound_iff (registers : ArgumentRegisters) (space : UserSpace) (n : Nat)
    (size : Int32) (va : UInt64) (argument : fetcharg registers n = .ok va) :
    (∀ pointer, argptr registers space n size = .ok (some pointer) →
        fetcharg registers n = .ok pointer ∧ space.HasRange pointer size.toInt.toNat) ↔
      (¬ size < 0 → ¬ space.WrapsInto va size.toInt.toNat) := by
  by_cases negative : size < 0
  · have rejected : argptr registers space n size = .ok none := by
      rw [argptr, argument]
      show (if size < 0 then Except.ok none else _) = _
      rw [if_pos negative]
    simp [rejected, negative]
  · have result : argptr registers space n size =
        .ok ((space.firstContaining va size).map fun _ => va) := by
      rw [argptr, argument]
      show (if size < 0 then Except.ok none else _) = _
      rw [if_neg negative]
      rfl
    have nonneg : 0 ≤ size.toInt := by
      rw [Int32.lt_iff_toInt_lt] at negative
      simpa using negative
    rw [result, ← accepted_hasRange_iff space va size nonneg, ← firstContaining_isSome]
    constructor
    · rintro sound _ ⟨index, found⟩
      exact (sound va (by rw [found]; rfl)).2
    · intro sound pointer found
      obtain ⟨index, accepted, rfl⟩ := Option.map_eq_some_iff.mp (Except.ok.inj found)
      exact ⟨argument, sound negative ⟨index, accepted⟩⟩

/-- `fetchstr` never reads outside the region it found the string in. -/
theorem fetchstr_hasRange (load : UInt64 → UInt8) (space : UserSpace) (address : UInt64)
    (found : 0 ≤ fetchstr load space address) :
    space.HasRange address ((fetchstr load space address).toNat + 1) := by
  unfold fetchstr at found ⊢
  cases scan : (List.finRange 3).findSome? fun index =>
      scanString load (space.regions index) address with
  | none =>
    rw [scan] at found
    exact absurd found (by decide)
  | some length =>
    rw [scan] at found
    obtain ⟨index, _, scanned⟩ := List.exists_of_findSome?_eq_some scan
    rw [scanString, Option.ite_none_right_eq_some] at scanned
    obtain ⟨contained, search⟩ := scanned
    have distance := List.mem_range.mp (List.mem_of_find?_eq_some search)
    have truncated : wrapInt length ≤ length := by
      simp only [wrapInt] at found ⊢
      omega
    unfold vregioncontains at contained
    split at contained
    · exact absurd contained Bool.false_ne_true
    · rw [decide_eq_true_eq] at contained
      have user := space.user index
      unfold kernBase at user
      intro offset inside
      have inLength : offset ≤ length := by
        simp only at inside found truncated
        omega
      rw [Nat.mod_eq_of_lt (by omega)]
      have has : space.Has (address.toNat + offset) := ⟨index, by omega, by omega⟩
      exact ⟨has, has.below_kernBase⟩

/-- The checks on a pointer argument are sound exactly when no checked length makes the end of
the range wrap around to the top of a region or below it. -/
theorem pointerChecksSound_iff (registers : ArgumentRegisters) (space : UserSpace)
    (load : UInt64 → UInt8) (n : Nat) (size : Int32) :
    PointerChecksSound registers space load n size ↔
      ∀ va, fetcharg registers n = .ok va →
        ∀ length ∈ checkedLengths size, ¬ space.WrapsInto va length := by
  constructor
  · rintro ⟨pointers, words, longs, _⟩ va argument length member
    have pointer := (argptr_sound_iff registers space n size va argument).mp pointers
    have word := (fetchWord_sound_iff 4 (by decide) load space va).mp
      fun word fetched => words va word argument fetched
    have long := (fetchWord_sound_iff 8 (by decide) load space va).mp
      fun word fetched => longs va word argument fetched
    unfold checkedLengths at member
    split at member
    · simp only [List.mem_cons, List.not_mem_nil, or_false] at member
      rcases member with rfl | rfl
      · exact word
      · exact long
    · rename_i nonneg
      simp only [List.mem_cons, List.not_mem_nil, or_false] at member
      rcases member with rfl | rfl | rfl
      · exact pointer nonneg
      · exact word
      · exact long
  · intro noWrap
    have width : 4 ∈ checkedLengths size ∧ 8 ∈ checkedLengths size := by
      unfold checkedLengths
      split <;> simp
    refine ⟨fun pointer returned => ?_, fun address word argument fetched => ?_,
      fun address word argument fetched => ?_, fun address _ found =>
        fetchstr_hasRange load space address found⟩
    · cases argument : fetcharg registers n with
      | error halt =>
        rw [argptr, argument] at returned
        cases returned
      | ok va =>
        rw [← argument]
        refine (argptr_sound_iff registers space n size va argument).mpr (fun nonneg => ?_)
          pointer returned
        refine noWrap va argument _ ?_
        rw [checkedLengths, if_neg nonneg]
        exact List.mem_cons_self
    · exact (fetchWord_sound_iff 4 (by decide) load space address).mpr
        (noWrap address argument 4 width.1) word fetched
    · exact (fetchWord_sound_iff 8 (by decide) load space address).mpr
        (noWrap address argument 8 width.2) word fetched

/-- The regions of a program with one page of code, no heap and one page of stack. -/
def smallSpace : UserSpace where
  regions := ![⟨.up, 0, 4096⟩, ⟨.up, 4096, 0⟩, ⟨.down, 0x80000000, 4096⟩]
  ordered := by decide
  user := by decide

/-- A `read` into kernel text: the buffer `0xFFFFFFFF80100000` with a length whose end wraps to
address zero passes `argptr`. -/
theorem kernelText_not_sound : ¬ PointerChecksSound ⟨0, 0xFFFFFFFF80100000, 0x7FF00000, 0, 0, 0⟩
    smallSpace (fun _ => 0) 1 0x7FF00000 := by
  rintro ⟨pointers, _⟩
  have accepted := (pointers 0xFFFFFFFF80100000 (by decide)).2 0 (by decide)
  exact absurd accepted.2 (by decide)

end Xk
