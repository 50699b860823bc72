/-
This file keeps the books of physical pages. A page is owned once for every page table, descriptor
page or kernel stack it is used as, and once for every used `vpage_info` that names it. The owners
of all pages together are two multisets, the kernel's and the users', and a ledger says that the
reference count of every page is the number of its owners and that no page has owners of both kinds.

Every function of the kernel that takes and gives back pages of its own, such as `vspaceinvalidate`,
keeps the pages of the users as they are. `Ram.Keeps` says what such a function starts and ends
with: the kernel's pages, a fixed multiset of the users' pages with fixed contents, and whether
`kalloc` is known to have failed. The rules for single pages carry over to page tables by the
account of `Radix`.
-/

import Xk.Invalidate
import Xk.PageAccounting

namespace Xk

open Radix Outcome

/-! ### The ledger -/

/-- The reference count of every page is the number of its owners. -/
structure Ledger (ram : Ram) (kernel user : Multiset Nat) : Prop where
  sound : ram.boot.Sound
  balanced : ∃ total, Balanced ram.boot total ram.memory
  counts : ∀ page, (ram.memory.coreMap page).refCount = kernel.count page + user.count page
  apart : ∀ page ∈ user, page ∉ kernel

/-- The allocator's invariant looks at the availability and the count of an entry only. -/
theorem Balanced.congr {boot : Boot} {total : Int} {memory next : Memory}
    (balanced : Balanced boot total memory) (sameBoot : next.boot = memory.boot)
    (sameAvailable : ∀ page, (next.coreMap page).available = (memory.coreMap page).available)
    (sameCount : ∀ page, (next.coreMap page).refCount = (memory.coreMap page).refCount)
    (sameFree : next.freePages = memory.freePages)
    (sameInUse : next.pagesInUse = memory.pagesInUse) : Balanced boot total next where
  boot_eq := sameBoot.trans balanced.boot_eq
  available_iff page managed := by grind [Balanced]
  unmanaged page unmanaged := by grind [unmanaged]
  freePages_eq := by grind [Balanced, Memory.availablePages, Counting.places_congr]
  total_eq := by grind [Balanced]

section Ledger

variable {ram after : Ram} {kernel user : Multiset Nat} {page : Nat}

/-- A page with an owner is managed and not available. -/
theorem Ledger.allocated (ledger : Ledger ram kernel user) (owned : page ∈ kernel + user) :
    ram.memory.Allocated page := by
  obtain ⟨total, balanced⟩ := ledger.balanced
  have referenced : 0 < (ram.memory.coreMap page).refCount := by grind [Ledger, Multiset.count_pos]
  have managed := balanced.managed_of_referenced referenced
  refine ⟨managed, ?_⟩
  rw [← Bool.not_eq_true, balanced.available_iff page managed]
  exact referenced.ne'

/-- A ledger depends on the availability and the count of the entries only. -/
theorem Ledger.congr (ledger : Ledger ram kernel user) (sameBoot : after.boot = ram.boot)
    (sameAvailable : ∀ page,
      (after.memory.coreMap page).available = (ram.memory.coreMap page).available)
    (sameCount : ∀ page,
      (after.memory.coreMap page).refCount = (ram.memory.coreMap page).refCount)
    (sameFree : after.memory.freePages = ram.memory.freePages)
    (sameInUse : after.memory.pagesInUse = ram.memory.pagesInUse) :
    Ledger after kernel user := by
  obtain ⟨total, balanced⟩ := ledger.balanced
  refine ⟨by rw [sameBoot]; exact ledger.sound, ⟨total, ?_⟩, fun page => ?_, ledger.apart⟩
  · rw [sameBoot]
    exact balanced.congr sameBoot sameAvailable sameCount sameFree sameInUse
  · rw [sameCount, ledger.counts]

theorem Ram.take_eq (taken : ram.take = some (page, after)) :
    Xk.kalloc ram.memory = some (page, after.memory) ∧
      after = { ram with memory := takePage ram.memory page } := by
  obtain ⟨⟨found, memory⟩, allocated, same⟩ := Option.map_eq_some_iff.mp taken
  obtain ⟨rfl, rfl⟩ := Prod.mk.inj same
  obtain ⟨-, -, rfl⟩ := kalloc_eq_some allocated
  exact ⟨allocated, rfl⟩

section

variable (ledger : Ledger ram kernel user)
include ledger

section

variable (taken : ram.take = some (page, after))
include taken

/-- The page that `kalloc` returns has no owner. -/
theorem Ledger.fresh :
    page ∉ kernel + user := by
  obtain ⟨-, available, -⟩ := kalloc_eq_some (Ram.take_eq taken).1
  intro owned
  rw [(ledger.allocated owned).2] at available
  exact Bool.false_ne_true available

/-- The page that `kalloc` returns gets an owner. -/
theorem Ledger.take {kernelAfter userAfter : Multiset Nat}
    (more : kernelAfter + userAfter = page ::ₘ (kernel + user))
    (apart : ∀ owned ∈ userAfter, owned ∉ kernelAfter) : Ledger after kernelAfter userAfter := by
  obtain ⟨total, balanced⟩ := ledger.balanced
  obtain ⟨allocated, same⟩ := Ram.take_eq taken
  have free := Multiset.count_eq_zero.mpr (ledger.fresh taken)
  refine ⟨?_, ⟨total, ?_⟩, fun other => ?_, apart⟩
  · rw [same]
    exact ledger.sound
  · have kept := balanced.kalloc allocated
    rw [same] at kept ⊢
    exact kept
  · rw [← Multiset.count_add, more, same]
    dsimp only [takePage]
    by_cases isPage : other = page
    · rw [isPage, Function.update_self, Multiset.count_cons_self, free]
    · grind [Multiset.count_cons_of_ne, Multiset.count_add, Ledger]

theorem Ledger.takeKernel :
    Ledger after (page ::ₘ kernel) user := by
  refine ledger.take taken (Multiset.cons_add page kernel user) fun owned inUser => ?_
  rw [Multiset.mem_cons, not_or]
  refine ⟨?_, ledger.apart owned inUser⟩
  rintro rfl
  exact ledger.fresh taken (Multiset.mem_add.mpr (Or.inr inUser))

theorem Ledger.takeUser :
    Ledger after kernel (page ::ₘ user) := by
  refine ledger.take taken (Multiset.add_cons page kernel user) fun owned inUser => ?_
  rcases Multiset.mem_cons.mp inUser with rfl | inUser
  · exact fun inKernel => ledger.fresh taken (Multiset.mem_add.mpr (Or.inl inKernel))
  · exact ledger.apart owned inUser

end

theorem Ledger.setFrame (page : Nat) (frame : Frame) :
    Ledger (ram.setFrame page frame) kernel user :=
  ledger.congr rfl (fun _ => rfl) (fun _ => rfl) rfl rfl

end

end Ledger

/-! ### Functions that use pages of the kernel -/

/-- The kernel has the given pages, the users' pages have the given contents, and `kalloc` has
failed if it is known to. -/
structure Ram.Keeps (user : Multiset Nat) (contents : Nat → Frame) (hungry : Prop) (ram : Ram)
    (kernel : Multiset Nat) : Prop where
  ledger : Ledger ram kernel user
  frames : ∀ page ∈ user, ram.memory.frame page = contents page
  starved : hungry → ram.starved = true

/-- Any error is admitted. -/
def Anyhow (_ : Halt) : Prop := True

section Keeps

variable {user : Multiset Nat} {contents : Nat → Frame} {hungry : Prop} {ram after : Ram}
  {kernel extra : Multiset Nat} {page : Nat}

theorem Ram.Keeps.take (keeps : ram.Keeps user contents hungry kernel)
    (taken : ram.take = some (page, after)) :
    after.Keeps user contents hungry (page ::ₘ kernel) := by
  refine ⟨keeps.ledger.takeKernel taken, ?_, ?_⟩
  · rw [(Ram.take_eq taken).2]
    exact keeps.frames
  · rw [(Ram.take_eq taken).2]
    exact keeps.starved

theorem Ram.Keeps.starve (keeps : ram.Keeps user contents hungry kernel) :
    Ram.Keeps user contents True { ram with starved := true } kernel :=
  ⟨keeps.ledger.congr rfl (fun _ => rfl) (fun _ => rfl) rfl rfl, keeps.frames, fun _ => rfl⟩

end Keeps

end Xk
