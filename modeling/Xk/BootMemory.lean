/-
This file models how the kernel learns of its memory: `e820_init` copies the memory map of the boot
loader, `detect_memory` reduces it to the one number `npages`, and `mem_init` frees all pages from
the end of the core map to there. It proves for which maps the pages are counted right, and for
which maps `kalloc` hands out usable memory only.

A map is any list of ranges with their types. The reduction forgets the types and the holes, so that
every page below the highest end is handed out, and it does not notice a sum that wraps around. With
two gigabytes the end of memory does not fit an `int`, and no page is ever handed out.
-/

import Xk.Bytes
import Xk.PageAccounting

namespace Xk

open Transition

/-! ### The memory map -/

/-- `struct e820_entry`. -/
structure E820Entry where
  addr : UInt64
  len : UInt64
  type : UInt32
deriving DecidableEq

/-- `E820_AVAILABLE`. -/
def e820Available : UInt32 := 1

/-- `E820_NR_MAX`. -/
def e820NrMax : Nat := 64

/-- `sizeof(struct multiboot_mmap_entry)`: the size, and what is copied of the entry. -/
def mmapEntryBytes : UInt64 := 24

/-- What `e820_init` copies of the `multiboot_mmap_entry` at an address. -/
def mmapEntry (memory : Nat → UInt8) (addr : Nat) : E820Entry where
  addr := .ofNat (Bytes.value (Bytes.load memory (addr + 4) 8))
  len := .ofNat (Bytes.value (Bytes.load memory (addr + 12) 8))
  type := .ofNat (Bytes.value (Bytes.load memory (addr + 20) 4))

/-- The loop of `e820_init` from `addr` on, with room for a number of entries. -/
def e820Loop (memory : Nat → UInt8) (addrEnd : UInt64) :
    Nat → UInt64 → Except Halt (List E820Entry)
  | room, addr =>
    if addr < addrEnd then
      if addrEnd - addr < mmapEntryBytes then
        .error (.panic "assertion failed: 'addr_end - addr >= sizeof(*e)' at kernel/e820.c:55")
      else match room with
        | 0 => .error (.panic "assertion failed: 'i < E820_NR_MAX' at kernel/e820.c:59")
        | room + 1 => do
          -- the sum with the size is one of 32 bits
          let size := UInt32.ofNat (Bytes.value (Bytes.load memory addr.toNat 4))
          let rest ← e820Loop memory addrEnd room (addr + (size + 4).toUInt64)
          return mmapEntry memory addr.toNat :: rest
    else .ok []

/-- `e820_init(mbi_pa)`. -/
def e820Init (memory : Nat → UInt8) (mbi : Nat) : Except Halt (List E820Entry) :=
  let word offset := UInt32.ofNat (Bytes.value (Bytes.load memory (mbi + offset) 4))
  if word 0 &&& 0x40 = 0 then
    .error (.panic "assertion failed: 'mbi->flags & MULTIBOOT_INFO_MEM_MAP' at kernel/e820.c:44")
  else e820Loop memory (word 48 + word 44).toUInt64 e820NrMax (word 48).toUInt64

/-- `mem_max`, which is `-KERNBASE`. -/
def memMax : UInt64 := 0x80000000

/-- `detect_memory()`: the number of pages below the highest end of a range. -/
def detectMemory (map : List E820Entry) : Nat :=
  let mem := map.foldl (fun mem e => if memMax ≤ e.addr then mem else max mem (e.addr + e.len)) 0
  (min mem memMax / 4096).toNat

/-! ### Counting the pages -/

/-- The highest end is below a bound when all ends are that count. -/
theorem highestEnd_lt_iff (map : List E820Entry) (mem : UInt64) :
    map.foldl (fun mem e => if memMax ≤ e.addr then mem else max mem (e.addr + e.len)) mem <
        memMax ↔
      mem < memMax ∧ ∀ e ∈ map, e.addr < memMax → e.addr + e.len < memMax := by
  induction map generalizing mem with
  | nil => simp
  | cons e map inductionHypothesis =>
    rw [List.foldl_cons, inductionHypothesis, List.forall_mem_cons]
    by_cases above : memMax ≤ e.addr
    · rw [if_pos above]
      simp [UInt64.not_lt.mpr above]
    · have both : max mem (e.addr + e.len) < memMax ↔ mem < memMax ∧ e.addr + e.len < memMax := by
        simp only [UInt64.lt_iff_toNat_lt, UInt64.toNat_max, max_lt_iff]
      rw [if_neg above, both, and_assoc]
      simp [UInt64.not_le.mp above]

theorem detectMemory_lt_iff (map : List E820Entry) :
    detectMemory map < 2 ^ 19 ↔ ∀ e ∈ map, e.addr < memMax → e.addr + e.len < memMax := by
  have highest := highestEnd_lt_iff map 0
  rw [and_iff_right (by decide)] at highest
  rw [← highest, detectMemory, UInt64.toNat_div, UInt64.toNat_min, UInt64.lt_iff_toNat_lt]
  show min _ 2147483648 / 4096 < 524288 ↔ _ < 2147483648
  omega

/-- The pages are counted right: no sum of `detect_memory` and no product of `mem_init` overflows,
and after `mem_init` the pages from the end of the core map on are available and counted. -/
structure Boot.CountsPages (boot : Boot) (map : List E820Entry) (frame : Nat → Frame) : Prop where
  sums : ∀ e ∈ map, e.addr < memMax → e.addr.toNat + e.len.toNat < 2 ^ 64
  product : boot.npages * pgSize < 2 ^ 31
  pages : ∃ memory, memInit boot frame = .ok memory ∧
    (∀ page, (memory.coreMap page).available = true ↔ boot.Managed page) ∧
    memory.freePages = memory.availablePages

/-- The pages are counted right exactly for the maps where no range that begins below two gigabytes
reaches up to there. -/
theorem countsPages_iff (boot : Boot) (map : List E820Entry) (frame : Nat → Frame)
    (detected : boot.npages = detectMemory map) (fits : boot.vstart ≤ boot.npages * pgSize) :
    boot.CountsPages map frame ↔
      ∀ e ∈ map, e.addr < memMax → e.addr.toNat + e.len.toNat < 2 ^ 31 := by
  have small : boot.npages < 2 ^ 19 ↔ _ := detected ▸ detectMemory_lt_iff map
  constructor
  · rintro ⟨sums, product, _⟩ e member below
    have ends := small.mp (by unfold pgSize at product; omega) e member below
    rwa [UInt64.lt_iff_toNat_lt, UInt64.toNat_add, Nat.mod_eq_of_lt (sums e member below)] at ends
  · intro short
    have sound : boot.Sound := by
      refine ⟨small.mpr fun e member below => ?_, fits⟩
      have sum := short e member below
      rw [UInt64.lt_iff_toNat_lt, UInt64.toNat_add, Nat.mod_eq_of_lt (sum.trans (by decide))]
      exact sum
    exact {
      sums := fun e member below => (short e member below).trans (by decide)
      product := by have := sound.1; unfold pgSize; omega
      pages := ⟨bootMemory boot frame, memInit_sound boot frame sound,
        bootMemory_available boot frame, (Balanced.bootMemory sound frame).freePages_eq⟩ }

/-- A machine with sixteen megabytes of memory and the kernel loaded below four. -/
def sixteenMegabytes : Boot := ⟨4096, 2 ^ 22, by decide, by decide⟩

theorem sixteenMegabytes_countsPages :
    sixteenMegabytes.CountsPages [⟨0, 0x1000000, e820Available⟩] fun _ => memsetFrame 0 :=
  (countsPages_iff sixteenMegabytes [⟨0, 0x1000000, e820Available⟩] _ (by decide) (by decide)).mpr
    (by decide)

theorem twoGigabytes_not_countsPages :
    twoGigabytes.npages = detectMemory [⟨0, 0x80000000, e820Available⟩] ∧
      ¬ twoGigabytes.CountsPages [⟨0, 0x80000000, e820Available⟩] fun _ => memsetFrame 0 :=
  ⟨by decide, fun counted => absurd counted.product (by decide)⟩

/-! ### The pages that are handed out -/

/-- An operation that frees or shares a page only if it is in use. -/
def useStep (memory : Memory) : PageOperation → Option Memory
  | .kalloc => pageStep memory .kalloc
  | .unshare page => pageStep memory (.unshare page)
  | .kfree page =>
    if (memory.coreMap page).refCount = 0 then none else pageStep memory (.kfree page)
  | .share page =>
    if (memory.coreMap page).refCount = 0 then none else pageStep memory (.share page)

/-- A page that `kalloc` can return after `mem_init`. -/
def Boot.CanReturn (boot : Boot) (frame : Nat → Frame) (page : Nat) : Prop :=
  ∃ initial operations memory next, memInit boot frame = .ok initial ∧
    run useStep initial operations = some memory ∧ kalloc memory = some (page, next)

theorem pageStep_of_useStep {memory next : Memory} {operation : PageOperation}
    (stepped : useStep memory operation = some next) : pageStep memory operation = some next := by
  cases operation <;> grind [useStep]

/-- With a core map that is cleared nothing can be done. -/
theorem useStep_cleared {memory next : Memory} {operation : PageOperation}
    (stepped : useStep memory operation = some next) (cleared : memory.coreMap = fun _ => .zero) :
    next.coreMap = fun _ => .zero := by
  have full : kalloc memory = none := (kalloc_eq_none_iff memory).mpr fun page _ => by
    rw [cleared]
    rfl
  cases operation <;> simp_all [useStep, pageStep, CoreMapEntry.zero]

theorem takePage_available (memory : Memory) (page other : Nat) :
    ((takePage memory page).coreMap other).available = true ↔
      other ≠ page ∧ (memory.coreMap other).available = true := by
  by_cases same : other = page <;> simp [takePage, same]

/-- `kalloc` returns the first of the pages that are available. -/
theorem kalloc_first {memory : Memory} {first : Nat} (inside : first < memory.boot.npages)
    (available : ∀ page, (memory.coreMap page).available = true ↔
      first ≤ page ∧ page < memory.boot.npages) :
    kalloc memory = some (first, takePage memory first) := by
  refine Option.map_eq_some_iff.mpr ⟨first, ?_, rfl⟩
  rw [List.find?_range_eq_some]
  refine ⟨(available first).mpr ⟨le_rfl, inside⟩, List.mem_range.mpr inside, fun page before => ?_⟩
  have notAvailable := mt (available page).mp fun both => Nat.not_lt.mpr both.1 before
  rw [Bool.eq_false_of_not_eq_true notAvailable]
  rfl

/-- After a number of calls of `kalloc` the pages from there on are available. -/
theorem run_kallocs (boot : Boot) (frame : Nat → Frame) (count : Nat)
    (inside : boot.firstPage + count ≤ boot.npages) :
    ∃ memory, run useStep (bootMemory boot frame) (List.replicate count .kalloc) = some memory ∧
      memory.boot = boot ∧ ∀ page, (memory.coreMap page).available = true ↔
        boot.firstPage + count ≤ page ∧ page < boot.npages := by
  induction count with
  | zero => exact ⟨_, rfl, rfl, bootMemory_available boot frame⟩
  | succ count inductionHypothesis =>
    obtain ⟨memory, runs, isBoot, available⟩ := inductionHypothesis (by omega)
    have taken : kalloc memory = some (boot.firstPage + count, _) :=
      kalloc_first (by rw [isBoot]; omega) (by rw [isBoot]; exact available)
    refine ⟨takePage memory (boot.firstPage + count), ?_, isBoot, fun page => ?_⟩
    · rw [List.replicate_succ', run_append, runs, Option.bind_some, run_cons, useStep, pageStep,
        taken, Option.bind_some, run_nil]
    · rw [takePage_available, available]
      omega

theorem canReturn_iff (boot : Boot) (frame : Nat → Frame) (page : Nat) :
    boot.CanReturn frame page ↔ boot.npages < 2 ^ 19 ∧ boot.Managed page := by
  constructor
  · rintro ⟨initial, operations, memory, next, booted, runs, returned⟩
    have available := (kalloc_eq_some returned).2.1
    by_cases sound : boot.Sound
    · rw [memInit_sound boot frame sound, Except.ok.injEq] at booted
      have balanced := run_invariant (Balanced boot _) (fun _ _ _ stepped balanced =>
        balanced.pageStep sound (pageStep_of_useStep stepped)) runs
        (booted ▸ Balanced.bootMemory sound frame)
      exact ⟨sound.1, balanced.managed_of_available available⟩
    · obtain ⟨_, _, cleared⟩ := memInit_unsound boot frame sound
      rw [cleared, Except.ok.injEq] at booted
      have isZero := run_invariant (fun memory : Memory => memory.coreMap = fun _ => .zero)
        (fun _ _ _ => useStep_cleared) runs (booted ▸ rfl)
      rw [isZero] at available
      exact absurd available Bool.false_ne_true
  · rintro ⟨small, first, last⟩
    have sound : boot.Sound := by
      have start := firstPage_mul boot
      refine ⟨small, ?_⟩
      simp only [pgRoundUp, pgSize] at start ⊢
      omega
    obtain ⟨memory, runs, isBoot, available⟩ :=
      run_kallocs boot frame (page - boot.firstPage) (by omega)
    rw [Nat.add_sub_cancel' first] at available
    exact ⟨_, _, memory, _, memInit_sound boot frame sound, runs,
      kalloc_first (isBoot ▸ last) (isBoot ▸ available)⟩

/-- The address is in the range of an entry. -/
def E820Entry.Covers (e : E820Entry) (address : Nat) : Prop :=
  e.addr.toNat ≤ address ∧ address < e.addr.toNat + e.len.toNat

/-- The page is inside of ranges of available memory, and meets no other range. -/
def UsableRam (map : List E820Entry) (page : Nat) : Prop :=
  ∀ address, address / pgSize = page →
    (∃ e ∈ map, e.Covers address) ∧ ∀ e ∈ map, e.Covers address → e.type = e820Available

/-- `kalloc` returns usable memory only, exactly if a range that begins below two gigabytes reaches
up to there, so that there is nothing to return, or all pages behind the core map are usable. -/
theorem kalloc_usable_iff (boot : Boot) (map : List E820Entry) (frame : Nat → Frame)
    (detected : boot.npages = detectMemory map) :
    (∀ page, boot.CanReturn frame page → UsableRam map page) ↔
      (∃ e ∈ map, e.addr < memMax ∧ memMax ≤ e.addr + e.len) ∨
        ∀ page, boot.Managed page → UsableRam map page := by
  have small : boot.npages < 2 ^ 19 ↔ _ := detected ▸ detectMemory_lt_iff map
  simp only [canReturn_iff]
  by_cases short : boot.npages < 2 ^ 19
  · have none : ¬ ∃ e ∈ map, e.addr < memMax ∧ memMax ≤ e.addr + e.len :=
      fun ⟨e, member, below, reaches⟩ =>
        UInt64.not_le.mpr (small.mp short e member below) reaches
    rw [or_iff_right none]
    exact forall_congr' fun page => by rw [and_iff_right short]
  · have long := mt small.mpr short
    push Not at long
    obtain ⟨e, member, below, reaches⟩ := long
    exact iff_of_true (fun page both => absurd both.1 short)
      (Or.inl ⟨e, member, below, UInt64.not_lt.mp reaches⟩)

/-- Sixteen megabytes, of which the firmware keeps the sixth. -/
def reservedMap : List E820Entry := [⟨0, 0x1000000, e820Available⟩, ⟨0x500000, 0x100000, 2⟩]

/-- The structures that the boot loader leaves for `reservedMap`: the information at 0, and the
entries behind it. -/
def reservedMemory : Nat → UInt8 :=
  Bytes.write (fun _ => 0) 0 (Bytes.little 44 0x40 ++ Bytes.little 4 48 ++ Bytes.little 4 52 ++
    reservedMap.flatMap fun e => Bytes.little 4 20 ++ Bytes.little 8 e.addr.toNat ++
      Bytes.little 8 e.len.toNat ++ Bytes.little 4 e.type.toNat)

theorem sixteenMegabytes_usable :
    sixteenMegabytes.npages = detectMemory [⟨0, 0x1000000, e820Available⟩] ∧
      ∀ page, sixteenMegabytes.CanReturn (fun _ => memsetFrame 0) page →
        UsableRam [⟨0, 0x1000000, e820Available⟩] page := by
  refine ⟨by decide, (kalloc_usable_iff sixteenMegabytes _ _ (by decide)).mpr
    (Or.inr fun page managed address isPage => ?_)⟩
  obtain ⟨_, below⟩ := managed
  refine ⟨⟨_, List.mem_singleton_self _, Nat.zero_le _, ?_⟩, fun e member _ => ?_⟩
  · change address < 16777216
    change page < 4096 at below
    unfold pgSize at isPage
    omega
  · rw [List.mem_singleton.mp member]

theorem reserved_returned : e820Init reservedMemory 0 = .ok reservedMap ∧
    sixteenMegabytes.npages = detectMemory reservedMap ∧
    sixteenMegabytes.CanReturn (fun _ => memsetFrame 0) 1280 ∧ ¬ UsableRam reservedMap 1280 := by
  refine ⟨by decide +kernel, by decide, (canReturn_iff ..).mpr ⟨by decide, by decide⟩, ?_⟩
  intro usable
  exact absurd ((usable 0x500000 (by decide)).2 ⟨0x500000, 0x100000, 2⟩ (by decide)
    ⟨by decide, by decide⟩) (by decide)

end Xk
