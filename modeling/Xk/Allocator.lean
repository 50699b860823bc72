/-
This file models the physical page allocator of `kernel/kalloc.c`: the core map with one
entry per page, `mem_init` and `freerange` at boot, `kalloc` and `kfree`, and the two
counters `free_pages` and `pages_in_use` that the allocator keeps beside the map.

A kernel virtual address is written as its offset from `KERNBASE`, so `P2V` and `V2P` do
not show; only the one product the code forms in a 32-bit `int` before it converts it,
`npages * PGSIZE`, is wrapped where the code wraps it. A reference count is a C `int` too,
but every unit of it is one `vpage_info` or one kernel owner and both live in pages of
their own, so it stays below `2 ^ 31` and a natural number models it.
-/

import Xk.Counting
import Xk.Params

namespace Xk

/-! ### Machine integers and pages -/

/-- Bytes mapped by a page, `PGSIZE`. -/
def pgSize : Nat := 4096

/-- `PGROUNDUP`: the first page boundary at or above an address. -/
def pgRoundUp (address : Nat) : Nat := (address + (pgSize - 1)) / pgSize * pgSize

/-- The value a C `int` holds after a computation, with the wrap-around of `-fwrapv`. -/
def wrapInt (value : Int) : Int := (value + 2 ^ 31) % 2 ^ 32 - 2 ^ 31

/-- The conversion to `uint64_t`. -/
def toUint64 (value : Int) : Nat := (value % 2 ^ 64).toNat

theorem wrapInt_of_lt (value : Int) (low : 0 ≤ value) (high : value < 2 ^ 31) :
    wrapInt value = value := by
  unfold wrapInt
  omega

theorem toUint64_of_nonneg (value : Int) (low : 0 ≤ value) (high : value < 2 ^ 64) :
    (toUint64 value : Int) = value := by
  unfold toUint64
  omega

/-- The contents of one physical page. -/
abbrev Frame := Fin pgSize → UInt8

/-- `memset(page, value, PGSIZE)`. -/
def memsetFrame (value : UInt8) : Frame := fun _ => value

/-! ### The state of the allocator -/

/-- What the boot code hands to the allocator: the number of pages `detect_memory` found and
the physical address of `_end`, the first byte after the kernel image. -/
structure Boot where
  npages : Nat
  kernelEnd : Nat
  /-- `detect_memory` clips memory to `-KERNBASE` bytes. -/
  clipped : npages ≤ 2 ^ 19
  /-- The kernel is linked with its data in the top two gigabytes, the core map included. -/
  linked : kernelEnd + pgRoundUp (npages * 24) < 2 ^ 31

/-- `struct core_map_entry`; its size is 24 bytes. -/
structure CoreMapEntry where
  available : Bool
  user : Bool
  va : Nat
  refCount : Nat
deriving DecidableEq

/-- The entry of a page that `memset(core_map, 0, ...)` leaves. -/
def CoreMapEntry.zero : CoreMapEntry := ⟨false, false, 0, 0⟩

/-- Physical memory as the allocator keeps it. -/
structure Memory where
  boot : Boot
  coreMap : Nat → CoreMapEntry
  pagesInUse : Int
  freePages : Int
  frame : Nat → Frame

/-- The physical address just above the core map, where the managed pages start. -/
def Boot.vstart (boot : Boot) : Nat := boot.kernelEnd + pgRoundUp (boot.npages * 24)

/-- The first page the allocator manages. -/
def Boot.firstPage (boot : Boot) : Nat := pgRoundUp boot.vstart / pgSize

/-- A managed page: one from the end of the core map to the end of memory. -/
def Boot.Managed (boot : Boot) (page : Nat) : Prop := boot.firstPage ≤ page ∧ page < boot.npages

instance (boot : Boot) (page : Nat) : Decidable (boot.Managed page) :=
  inferInstanceAs (Decidable (_ ∧ _))

/-- The number of pages that are available. -/
def Memory.availablePages (memory : Memory) : Nat :=
  Counting.places (Finset.range memory.boot.npages) memory.coreMap
    fun entry => entry.available = true

/-- A page that `kalloc` handed out and no `kfree` has given back. -/
def Memory.Allocated (memory : Memory) (page : Nat) : Prop :=
  memory.boot.Managed page ∧ (memory.coreMap page).available = false

instance (memory : Memory) (page : Nat) : Decidable (memory.Allocated page) :=
  inferInstanceAs (Decidable (_ ∧ _))

/-! ### The operations -/

/-- The core map and the counters after `kalloc` takes a page. -/
def takePage (memory : Memory) (page : Nat) : Memory :=
  { memory with
    coreMap := Function.update memory.coreMap page
      { memory.coreMap page with available := false, refCount := 1 }
    pagesInUse := memory.pagesInUse + 1
    freePages := memory.freePages - 1 }

/-- `kalloc`: take the first available page. The page number stands for the address
`P2V(page2pa(&core_map[i]))`, and `none` for the null pointer. -/
def kalloc (memory : Memory) : Option (Nat × Memory) :=
  ((List.range memory.boot.npages).find? fun page => (memory.coreMap page).available).map
    fun page => (page, takePage memory page)

/-- The core map, the counters and the page itself, filled with junk to catch dangling
references, after its last reference is dropped. -/
def releasePage (memory : Memory) (page : Nat) : Memory :=
  { memory with
    coreMap := Function.update memory.coreMap page
      { available := true, user := false, va := 0, refCount := 0 }
    pagesInUse := memory.pagesInUse - 1
    freePages := memory.freePages + 1
    frame := Function.update memory.frame page (memsetFrame 2) }

/-- The decrement `ref_count--` of `kfree` and of the copy-on-write branch of `trap`. -/
def decRef (memory : Memory) (page : Nat) : Memory :=
  { memory with
    coreMap := Function.update memory.coreMap page
      { memory.coreMap page with refCount := (memory.coreMap page).refCount - 1 } }

/-- The increment `entry->ref_count++` of `copy_vpi_page`. -/
def incRef (memory : Memory) (page : Nat) : Memory :=
  { memory with
    coreMap := Function.update memory.coreMap page
      { memory.coreMap page with refCount := (memory.coreMap page).refCount + 1 } }

/-- The part of `kfree` under the lock. A page whose count is already `0` is released as
well, which is how `mem_init` hands over the pages. -/
def dropReference (memory : Memory) (page : Nat) : Memory :=
  if (memory.coreMap page).refCount - 1 = 0 then releasePage memory page
  else decRef memory page

/-- `kfree(v)`. -/
def kfree (memory : Memory) (v : Int) : Except Halt Memory :=
  if v % pgSize ≠ 0 ∨ v < memory.boot.kernelEnd ∨
      toUint64 (wrapInt (memory.boot.npages * pgSize)) ≤ toUint64 v then
    .error (.panic "kfree")
  else if memory.boot.npages ≤ v.toNat / pgSize then
    .error (.panic "pa2page called with invalid pa")
  else
    .ok (dropReference memory (v.toNat / pgSize))

/-- `freerange(vstart, vend)`: free every whole page of the range. -/
def freerange (memory : Memory) (vstart : Nat) (vend : Int) : Except Halt Memory :=
  let start : Int := pgRoundUp vstart
  (List.range ((vend - start) / pgSize).toNat).foldlM
    (fun memory (k : Nat) => kfree memory (start + (k * pgSize : Nat))) memory

/-- `mem_init(_end)`: clear the core map, free every page above it, and set the counters. -/
def memInit (boot : Boot) (frame : Nat → Frame) : Except Halt Memory := do
  let vend := wrapInt (boot.npages * pgSize)
  let memory ← freerange ⟨boot, fun _ => .zero, 0, 0, frame⟩ boot.vstart vend
  return { memory with freePages := (vend - boot.vstart) / pgSize, pagesInUse := 0 }

/-! ### What the operations do -/

/-- `kalloc` hands out an available page. -/
theorem kalloc_eq_some {memory next : Memory} {page : Nat}
    (allocated : kalloc memory = some (page, next)) :
    page < memory.boot.npages ∧ (memory.coreMap page).available = true ∧
      next = takePage memory page := by
  unfold kalloc at allocated
  obtain ⟨found, search, result⟩ := Option.map_eq_some_iff.mp allocated
  obtain ⟨rfl, rfl⟩ := Prod.mk.inj result
  exact ⟨List.mem_range.mp (List.mem_of_find?_eq_some search),
    List.find?_some (p := fun page => (memory.coreMap page).available) search, rfl⟩

/-- `kalloc` returns the null pointer exactly when no page is available. -/
theorem kalloc_eq_none_iff (memory : Memory) :
    kalloc memory = none ↔
      ∀ page < memory.boot.npages, (memory.coreMap page).available = false := by
  grind [kalloc, Option.map_eq_none_iff]

/-- The last reference to a page makes it available. -/
theorem dropReference_last (memory : Memory) (page : Nat)
    (last : (memory.coreMap page).refCount ≤ 1) :
    dropReference memory page = releasePage memory page := by
  rw [dropReference, if_pos (by omega)]

/-- Any other reference is only counted down. -/
theorem dropReference_shared (memory : Memory) (page : Nat)
    (shared : 1 < (memory.coreMap page).refCount) :
    dropReference memory page = decRef memory page := by
  rw [dropReference, if_neg (by omega)]

/-! ### Boots whose page count survives the conversion -/

/-- The boots on which `mem_init` computes the end of memory right: `npages * PGSIZE` fits
an `int`, and the core map ends below it. -/
def Boot.Sound (boot : Boot) : Prop :=
  boot.npages < 2 ^ 19 ∧ boot.vstart ≤ boot.npages * pgSize

instance (boot : Boot) : Decidable boot.Sound := inferInstanceAs (Decidable (_ ∧ _))

theorem firstPage_mul (boot : Boot) : boot.firstPage * pgSize = pgRoundUp boot.vstart := by
  simp only [Boot.firstPage, pgRoundUp, pgSize]
  omega

/-- On a sound boot `kfree` of a managed page drops one reference to it. -/
theorem kfree_managed (memory : Memory) (page : Nat) (sound : memory.boot.Sound)
    (managed : memory.boot.Managed page) :
    kfree memory (page * pgSize : Nat) = .ok (dropReference memory page) := by
  obtain ⟨small, _⟩ := sound
  obtain ⟨low, high⟩ := managed
  have first := firstPage_mul memory.boot
  have above : memory.boot.kernelEnd ≤ page * pgSize := by grind [pgSize, Boot.vstart, pgRoundUp]
  have wrapped : wrapInt (memory.boot.npages * pgSize) = memory.boot.npages * pgSize :=
    wrapInt_of_lt _ (by unfold pgSize; omega) (by unfold pgSize; omega)
  have limit := toUint64_of_nonneg (memory.boot.npages * pgSize)
    (by unfold pgSize; omega) (by unfold pgSize; omega)
  have address := toUint64_of_nonneg (page * pgSize : Nat)
    (by unfold pgSize; omega) (by unfold pgSize; omega)
  have number : ((page * pgSize : Nat) : Int).toNat / pgSize = page := by
    unfold pgSize
    omega
  unfold kfree
  rw [wrapped, number, if_neg, if_neg (by omega)]
  unfold pgSize at *
  omega

end Xk
