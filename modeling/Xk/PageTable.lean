/-
This file models the page tables of `kernel/x86_64vm.c`: `walkpml4`, `mappages`,
`find_next_possible_page` and `freevm_pdpt`. A page table is a radix tree of height 3 over tables of
512 entries, and a virtual address is a path in it. An entry that has `PTE_P` set at one of the upper
three levels is a table there, since only `walkpml4` sets them, and with the same flags everywhere;
the entries of the last level are kept with their flags.

The functions take pages from the allocator and give them back, so they pass on a `Ram`: the memory,
the address of the symbol `data`, and whether `kalloc` has ever returned the null pointer, which
only statements look at. The contents of a page that holds a table are the table here and not bytes.
That no page is used for two purposes is part of what is proved about the address spaces.
-/

import Xk.Allocator
import Xk.Radix

namespace Xk

open Radix

/-! ### Memory for the kernel -/

/-- Physical memory, the physical address of `data`, where the kernel's text ends, and whether
`kalloc` has failed so far. -/
structure Ram where
  memory : Memory
  data : Nat
  starved : Bool

/-- `kalloc()`. -/
def Ram.kalloc (ram : Ram) : Option Nat × Ram :=
  match Xk.kalloc ram.memory with
  | none => (none, { ram with starved := true })
  | some (page, memory) => (some page, { ram with memory := memory })

/-- `kalloc()` on a path where the null pointer leads to a panic. -/
def Ram.take (ram : Ram) : Option (Nat × Ram) :=
  (Xk.kalloc ram.memory).map fun (page, memory) => (page, { ram with memory := memory })

/-- `kfree(P2V(page << PT_SHIFT))`. -/
def Ram.kfree (ram : Ram) (page : Nat) : Except Halt Ram := do
  let memory ← Xk.kfree ram.memory (page * pgSize : Nat)
  return { ram with memory := memory }

/-- The entry of a page in the core map, `pa2page(page << PT_SHIFT)`. -/
def Ram.pa2page (ram : Ram) (page : Nat) : Except Halt CoreMapEntry :=
  if ram.memory.boot.npages ≤ page then .error (.panic "pa2page called with invalid pa")
  else .ok (ram.memory.coreMap page)

def Ram.setEntry (ram : Ram) (page : Nat) (entry : CoreMapEntry) : Ram :=
  { ram with memory := { ram.memory with
      coreMap := Function.update ram.memory.coreMap page entry } }

/-- The contents of a page. -/
def Ram.setFrame (ram : Ram) (page : Nat) (frame : Frame) : Ram :=
  { ram with memory := { ram.memory with
      frame := Function.update ram.memory.frame page frame } }

/-- `mark_user_mem(page << PT_SHIFT, va)`. -/
def Ram.markUserMem (ram : Ram) (page va : Nat) : Except Halt Ram := do
  let entry ← ram.pa2page page
  return ram.setEntry page { entry with user := true, va := va }

/-! ### Entries and paths -/

/-- The flags `PTE_P`, `PTE_W` and `PTE_U`. -/
structure Perms where
  present : Bool
  writable : Bool
  user : Bool
deriving DecidableEq

/-- A page table entry, `PTE(ppn << PT_SHIFT, perm)`. -/
structure Pte extends Perms where
  ppn : Nat
deriving DecidableEq

def Pte.zero : Pte := ⟨⟨false, false, false⟩, 0⟩

/-- `PT_INDEX`, `PD_INDEX`, `PDPT_INDEX` and `PML4_INDEX`, for the levels from 0 to 3. -/
def tableIndex (va level : Nat) : Fin 512 :=
  ⟨va / 2 ^ (12 + 9 * level) % 512, Nat.mod_lt _ (by decide)⟩

/-- The path of an address in a page table. -/
def walkPath (va : Nat) : Path 512 := tableIndex va

abbrev Pml4 := Trie 512 Pte 3

/-- `walkpml4(pml4, va, 0)`: the entry, unless a table is missing. -/
def walkpml4 (pml4 : Pml4) (va : Nat) : Option Pte := pml4.find (walkPath va)

/-! ### Mapping -/

/-- One turn of the loop of `mappages`. -/
def mapPage (ram : Ram) (pml4 : Pml4) (virtPn phyPn : Nat) (perm : Perms) (kern : Bool) :
    Except Halt (Pml4 × Ram) :=
  let path := walkPath (virtPn * pgSize)
  -- `walkpml4(pml4, virt_pn << PT_SHIFT, 1)`
  match pml4.ensure Ram.take .zero path ram with
  | none => .error (.panic "not enough memory")
  | some (pml4, ram) =>
    if (pml4.value .zero path).present then .error (.panic "remap")
    else do
      let mapped := pml4.store path ⟨perm, phyPn⟩
      let ram ← if kern then .ok ram else ram.markUserMem phyPn (virtPn * pgSize)
      return (mapped, ram)

/-- `mappages(pml4, virt_pn, num_page, phy_pn, perm, kern)`. -/
def mappages (ram : Ram) (pml4 : Pml4) (virtPn numPage phyPn : Nat) (perm : Perms) (kern : Bool) :
    Except Halt (Pml4 × Ram) :=
  (List.range numPage).foldlM (fun (pml4, ram) i =>
    mapPage ram pml4 (virtPn + i) (phyPn + i) perm kern) (pml4, ram)

/-! ### Unmapping -/

/-- `PGADDR(l4, l3, d, 0, 0)`. -/
def pgAddr (l4 l3 d : Nat) : Nat := l4 <<< 39 ||| l3 <<< 30 ||| d <<< 21

/-- `find_next_possible_page(pml4, va)`. The indices are put together with `|`, so that an index of
512 does not carry into an odd index above it. -/
def findNextPossiblePage (pml4 : Pml4) (va : Nat) : Except Halt Nat :=
  let l4 := tableIndex va 3
  let l3 := tableIndex va 2
  let d := tableIndex va 1
  match pml4.entry l4 with
  | .absent => .ok (pgAddr (l4 + 1) 0 0 - pgSize)
  | .node _ pdpt =>
    match pdpt l3 with
    | .absent => .ok (pgAddr l4 (l3 + 1) 0 - pgSize)
    | .node _ pgdir =>
      match pgdir d with
      | .absent => .ok (pgAddr l4 l3 (d + 1) - pgSize)
      | .leaves _ _ => .error (.panic "level is not missing")

/-- `SZ_4G`. -/
def sz4G : Nat := 2 ^ 32

/-- `freevm_pdpt(pdpt)`, and `freevm_pgdir` for the tables below it. -/
def freevmPdpt (ram : Ram) (pdpt : Trie 512 Pte 2) : Except Halt Ram :=
  pdpt.release Ram.kfree ram

end Xk
