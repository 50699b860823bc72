/-
This file proves the accounting of physical pages. From the state `mem_init` leaves, every
sequence of allocations, frees, and the two bare changes of a reference count that the
copy-on-write code makes keeps the three redundant pieces of the allocator's state in step:
a managed page is available exactly when nobody references it, and the two counters add up.

All of it is one invariant, `Balanced`, and one rule for keeping it, `Balanced.assign`: an
operation assigns one core map entry and moves the counters by the change in that entry's
availability. The boot is the only place where the accounting can go wrong. `mem_init`
computes the end of memory in an `int`, so with two gigabytes of memory it frees nothing and
sets `free_pages` to a negative number.
-/

import Xk.Allocator
import Xk.Transition

namespace Xk

open Transition

/-! ### The state `mem_init` leaves -/

/-- The core map entry of a page that was freed. -/
def CoreMapEntry.free : CoreMapEntry := ⟨true, false, 0, 0⟩

/-- The allocator after `mem_init` on a sound boot: every managed page is available. -/
def bootMemory (boot : Boot) (frame : Nat → Frame) : Memory where
  boot := boot
  coreMap := fun page => if boot.Managed page then .free else .zero
  pagesInUse := 0
  freePages := boot.npages - boot.firstPage
  frame := fun page => if boot.Managed page then memsetFrame 2 else frame page

/-- The memory `mem_init` starts from, with a cleared core map. -/
def clearedMemory (boot : Boot) (frame : Nat → Frame) : Memory :=
  ⟨boot, fun _ => .zero, 0, 0, frame⟩

/-- The loop of `freerange` after `count` pages: exactly those are available. -/
theorem freerange_loop (boot : Boot) (frame : Nat → Frame) (sound : boot.Sound) (count : Nat)
    (inside : boot.firstPage + count ≤ boot.npages) :
    (List.range count).foldlM (fun memory (k : Nat) =>
          kfree memory ((boot.firstPage * pgSize : Nat) + (k * pgSize : Nat)))
        (clearedMemory boot frame) =
      .ok { boot := boot
            coreMap := fun page =>
              if boot.firstPage ≤ page ∧ page < boot.firstPage + count then .free else .zero
            pagesInUse := -count
            freePages := count
            frame := fun page =>
              if boot.firstPage ≤ page ∧ page < boot.firstPage + count then memsetFrame 2
              else frame page } := by
  induction count with
  | zero =>
    have never : ∀ page, ¬ (boot.firstPage ≤ page ∧ page < boot.firstPage + 0) := by omega
    simp only [never, if_false]
    rfl
  | succ count inductionHypothesis =>
    rw [List.range_succ, List.foldlM_append, inductionHypothesis (by omega)]
    have address : ((boot.firstPage * pgSize : Nat) : Int) + (count * pgSize : Nat) =
        ((boot.firstPage + count) * pgSize : Nat) := by
      rw [Nat.add_mul, Nat.cast_add]
    have managed : boot.Managed (boot.firstPage + count) := ⟨by omega, by omega⟩
    have widen (page : Nat) : (boot.firstPage ≤ page ∧ page < boot.firstPage + (count + 1)) ↔
        page = boot.firstPage + count ∨
          (boot.firstPage ≤ page ∧ page < boot.firstPage + count) := by omega
    simp only [bind, Except.bind, List.foldlM_cons, List.foldlM_nil, address]
    rw [kfree_managed _ _ (by exact sound) (by exact managed),
      dropReference_last _ _ (by simp [CoreMapEntry.zero])]
    simp only [releasePage, pure, Except.pure, Except.ok.injEq, Memory.mk.injEq, true_and]
    refine ⟨funext fun page => ?_, by push_cast; omega, by push_cast; omega,
      funext fun page => ?_⟩
    all_goals
      by_cases same : page = boot.firstPage + count
      · subst same
        simp [CoreMapEntry.free]
      · simp only [Function.update_of_ne same, widen, same, false_or]

/-- The end of memory as `mem_init` computes it. -/
theorem vend_sound (boot : Boot) (sound : boot.Sound) :
    wrapInt (boot.npages * pgSize) = (boot.npages * pgSize : Nat) := by
  have small := sound.1
  rw [wrapInt_of_lt _ (by unfold pgSize; omega) (by unfold pgSize; omega), Nat.cast_mul]

theorem firstPage_le (boot : Boot) (sound : boot.Sound) : boot.firstPage ≤ boot.npages := by
  obtain ⟨_, fits⟩ := sound
  simp only [Boot.firstPage, pgRoundUp, pgSize] at fits ⊢
  omega

/-- On a sound boot `mem_init` makes exactly the managed pages available. -/
theorem memInit_sound (boot : Boot) (frame : Nat → Frame) (sound : boot.Sound) :
    memInit boot frame = .ok (bootMemory boot frame) := by
  have first := firstPage_le boot sound
  have start := firstPage_mul boot
  have pages : (((boot.npages * pgSize : Nat) : Int) - (boot.firstPage * pgSize : Nat)) /
      (pgSize : Int) = (boot.npages - boot.firstPage : Nat) := by
    unfold pgSize
    omega
  have counter : (((boot.npages * pgSize : Nat) : Int) - boot.vstart) / (pgSize : Int) =
      boot.npages - boot.firstPage := by
    simp only [pgRoundUp, pgSize] at start ⊢
    omega
  unfold memInit freerange
  simp only [vend_sound boot sound, ← start, pages, counter, Int.toNat_natCast]
  rw [← clearedMemory, freerange_loop boot frame sound _ (by omega)]
  have top : boot.firstPage + (boot.npages - boot.firstPage) = boot.npages := by omega
  simp only [top]
  rfl

/-- On any other boot `mem_init` frees nothing and leaves a negative `free_pages`. -/
theorem memInit_unsound (boot : Boot) (frame : Nat → Frame) (unsound : ¬ boot.Sound) :
    ∃ freePages < 0,
      memInit boot frame = .ok { clearedMemory boot frame with freePages := freePages } := by
  have clipped := boot.clipped
  have below : wrapInt (boot.npages * pgSize) < boot.vstart := by
    by_cases small : boot.npages < 2 ^ 19
    · rw [wrapInt_of_lt _ (by unfold pgSize; omega) (by unfold pgSize; omega)]
      have tooHigh : ¬ boot.vstart ≤ boot.npages * pgSize := fun fits => unsound ⟨small, fits⟩
      unfold pgSize at *
      omega
    · grind [wrapInt, pgSize]
  have empty : ((wrapInt (boot.npages * pgSize) - (pgRoundUp boot.vstart : Nat)) /
      (pgSize : Int)).toNat = 0 := by
    simp only [pgRoundUp, pgSize] at below ⊢
    omega
  refine ⟨(wrapInt (boot.npages * pgSize) - boot.vstart) / pgSize, ?_, ?_⟩
  · unfold pgSize at *
    omega
  · unfold memInit freerange
    dsimp only
    rw [empty]
    rfl

/-! ### Sequences of operations -/

/-- One change of the allocator's state. `share` is the `ref_count++` of `copy_vpi_page` and
`unshare` the `ref_count--` of `trap`, which is taken only when the count is above `1`. -/
inductive PageOperation
  | kalloc
  | kfree (page : Nat)
  | share (page : Nat)
  | unshare (page : Nat)

/-- The state after one operation. `kfree` and `share` are applied to allocated pages. -/
def pageStep (memory : Memory) : PageOperation → Option Memory
  | .kalloc =>
      match kalloc memory with
      | some (_, next) => some next
      | none => some memory
  | .kfree page =>
      if memory.Allocated page then (kfree memory (page * pgSize : Nat)).toOption else none
  | .share page => if memory.Allocated page then some (incRef memory page) else none
  | .unshare page =>
      if 1 < (memory.coreMap page).refCount then some (decRef memory page) else none

/-- The allocator's invariant on a sound boot. Pages that are not managed are never
available and never referenced. -/
structure Balanced (boot : Boot) (total : Int) (memory : Memory) : Prop where
  boot_eq : memory.boot = boot
  available_iff : ∀ page, boot.Managed page →
    ((memory.coreMap page).available = true ↔ (memory.coreMap page).refCount = 0)
  unmanaged : ∀ page, ¬ boot.Managed page →
    (memory.coreMap page).available = false ∧ (memory.coreMap page).refCount = 0
  freePages_eq : memory.freePages = memory.availablePages
  total_eq : memory.freePages + memory.pagesInUse = total

variable {boot : Boot} {total : Int} {memory next : Memory}

theorem Balanced.managed_of_available (balanced : Balanced boot total memory) {page : Nat}
    (available : (memory.coreMap page).available = true) : boot.Managed page := by
  grind [Balanced]

theorem Balanced.managed_of_referenced (balanced : Balanced boot total memory) {page : Nat}
    (referenced : 0 < (memory.coreMap page).refCount) : boot.Managed page := by
  grind [Balanced]

/-- Assigning one managed page's entry keeps the invariant when the entry is itself balanced
and the counters move by the change in the page's availability. -/
theorem Balanced.assign (balanced : Balanced boot total memory) {page : Nat}
    (managed : boot.Managed page) (entry : CoreMapEntry)
    (sameBoot : next.boot = memory.boot)
    (assigned : next.coreMap = Function.update memory.coreMap page entry)
    (consistent : entry.available = true ↔ entry.refCount = 0)
    (moved : next.freePages + (if (memory.coreMap page).available = true then 1 else 0) =
      memory.freePages + if entry.available = true then 1 else 0)
    (sum : next.freePages + next.pagesInUse = memory.freePages + memory.pagesInUse) :
    Balanced boot total next where
  boot_eq := sameBoot.trans balanced.boot_eq
  available_iff other managedOther := by
    rw [assigned]
    by_cases same : other = page
    · grind
    · grind [Balanced]
  unmanaged other unmanagedOther := by
    have different : other ≠ page := fun same => unmanagedOther (same ▸ managed)
    rw [assigned, Function.update_of_ne different]
    exact balanced.unmanaged other unmanagedOther
  freePages_eq := by
    have inside : page ∈ Finset.range memory.boot.npages := by
      rw [balanced.boot_eq]
      exact Finset.mem_range.mpr managed.2
    have count := Counting.places_update (Finset.range memory.boot.npages) memory.coreMap
      (fun entry => entry.available = true) inside entry
    have before := balanced.freePages_eq
    unfold Memory.availablePages at before ⊢
    rw [assigned, sameBoot]
    split at count <;> split at count <;> simp_all
    all_goals omega
  total_eq := sum.trans balanced.total_eq

/-- What one operation can do, on a sound boot. -/
theorem pageStep_cases (sound : memory.boot.Sound) {operation : PageOperation}
    (stepped : pageStep memory operation = some next) :
    (operation = .kalloc ∧ kalloc memory = none ∧ next = memory) ∨
    (∃ page, operation = .kalloc ∧ kalloc memory = some (page, next)) ∨
    (∃ page, operation = .kfree page ∧ memory.Allocated page ∧
      next = dropReference memory page) ∨
    (∃ page, operation = .share page ∧ memory.Allocated page ∧ next = incRef memory page) ∨
    (∃ page, operation = .unshare page ∧ 1 < (memory.coreMap page).refCount ∧
      next = decRef memory page) := by
  cases operation with
  | kalloc => grind [pageStep]
  | kfree page =>
    rw [pageStep, Option.ite_none_right_eq_some] at stepped
    obtain ⟨allocated, freed⟩ := stepped
    rw [kfree_managed memory page sound allocated.1] at freed
    exact Or.inr (Or.inr (Or.inl ⟨page, rfl, allocated, (Option.some_inj.mp freed).symm⟩))
  | share page => grind [pageStep]
  | unshare page => grind [pageStep]

section

variable (balanced : Balanced boot total memory)
include balanced

theorem Balanced.kalloc {page : Nat} (allocated : kalloc memory = some (page, next)) :
    Balanced boot total next := by
  obtain ⟨_, available, rfl⟩ := kalloc_eq_some allocated
  refine balanced.assign (balanced.managed_of_available available)
    { memory.coreMap page with available := false, refCount := 1 } rfl rfl (by simp) ?_ ?_
  · simp [takePage, available]
  · simp only [takePage]
    omega

/-- Dropping a reference to an allocated page keeps the invariant, whether or not it was the
last one. -/
theorem Balanced.dropReference {page : Nat} (managed : boot.Managed page)
    (referenced : 0 < (memory.coreMap page).refCount) :
    Balanced boot total (dropReference memory page) := by
  have unavailable : (memory.coreMap page).available = false := by grind [Balanced]
  by_cases last : (memory.coreMap page).refCount ≤ 1
  · rw [dropReference_last memory page last]
    refine balanced.assign managed ⟨true, false, 0, 0⟩ rfl rfl (by simp) ?_ ?_
    · simp [releasePage, unavailable]
    · simp only [releasePage]
      omega
  · rw [dropReference_shared memory page (by omega)]
    refine balanced.assign managed
      { memory.coreMap page with refCount := (memory.coreMap page).refCount - 1 } rfl rfl ?_
      (by simp [decRef]) rfl
    simp only [unavailable, Bool.false_eq_true, false_iff]
    omega

theorem Balanced.incRef {page : Nat} (managed : boot.Managed page)
    (referenced : 0 < (memory.coreMap page).refCount) :
    Balanced boot total (incRef memory page) := by
  have unavailable : (memory.coreMap page).available = false := by grind [Balanced]
  refine balanced.assign managed
    { memory.coreMap page with refCount := (memory.coreMap page).refCount + 1 } rfl rfl ?_
    (by simp [Xk.incRef]) rfl
  simp [unavailable]

/-- An allocated page is referenced. -/
theorem Balanced.referenced {page : Nat} (allocated : memory.Allocated page) :
    0 < (memory.coreMap page).refCount := by
  obtain ⟨managed, unavailable⟩ := allocated
  rw [balanced.boot_eq] at managed
  have unreferenced := balanced.available_iff page managed
  rw [unavailable] at unreferenced
  simp at unreferenced
  omega

end

/-- Every operation keeps the invariant. -/
theorem Balanced.pageStep (sound : boot.Sound) (balanced : Balanced boot total memory)
    {operation : PageOperation} (stepped : pageStep memory operation = some next) :
    Balanced boot total next := by
  have sameBoot := balanced.boot_eq
  rcases pageStep_cases (sameBoot ▸ sound) stepped with
    ⟨_, _, rfl⟩ | ⟨page, _, allocated⟩ | ⟨page, _, allocated, rfl⟩ | ⟨page, _, allocated, rfl⟩ |
    ⟨page, _, shared, rfl⟩
  · exact balanced
  · exact balanced.kalloc allocated
  · exact balanced.dropReference (sameBoot ▸ allocated.1) (balanced.referenced allocated)
  · exact balanced.incRef (sameBoot ▸ allocated.1) (balanced.referenced allocated)
  · have referenced : 0 < (memory.coreMap page).refCount := by omega
    rw [← dropReference_shared memory page shared]
    exact balanced.dropReference (balanced.managed_of_referenced referenced) referenced

theorem bootMemory_available (boot : Boot) (frame : Nat → Frame) (page : Nat) :
    ((bootMemory boot frame).coreMap page).available = true ↔ boot.Managed page := by
  grind [bootMemory, CoreMapEntry.free, CoreMapEntry.zero]

theorem Balanced.bootMemory (sound : boot.Sound) (frame : Nat → Frame) :
    Balanced boot (boot.npages - boot.firstPage) (bootMemory boot frame) where
  boot_eq := rfl
  available_iff page managed := by simp [Xk.bootMemory, managed, CoreMapEntry.free]
  unmanaged page unmanaged := by simp [Xk.bootMemory, unmanaged, CoreMapEntry.zero]
  freePages_eq := by
    have first := firstPage_le boot sound
    have pages : (Xk.bootMemory boot frame).availablePages =
        (Finset.Ico boot.firstPage boot.npages).card := by
      unfold Memory.availablePages Counting.places
      refine congrArg Finset.card (Finset.ext fun page => ?_)
      rw [Finset.mem_filter, Finset.mem_range, Finset.mem_Ico]
      exact (and_congr_right fun _ => bootMemory_available boot frame page).trans
        (and_iff_right_of_imp fun managed => managed.2)
    rw [pages, Nat.card_Ico]
    simp only [Xk.bootMemory]
    omega
  total_eq := by simp [Xk.bootMemory]

/-- A machine with two gigabytes of memory and the kernel loaded below four megabytes. -/
def twoGigabytes : Boot := ⟨2 ^ 19, 2 ^ 22, by decide, by decide⟩

end Xk
