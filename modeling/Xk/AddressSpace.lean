/-
This file models the address spaces of `kernel/vspace.c`. A region has its bounds and a chain of
descriptor pages with one `vpage_info` for each page of the region, counted up from the bottom of
the code and the heap and down from the top of the stack. `va2vpage_info` makes the chain longer
where it ends too early. The hardware page table is rebuilt from the regions by `vspaceinvalidate`.

Where the code uses the pointer that a failed `kalloc` returned, the model stops with
`Halt.noMemory`.
-/

import Xk.PageTable
import Xk.Regions

namespace Xk

open Radix

/-! ### Regions -/

/-- `struct vpage_info`. Its size is 24 bytes. -/
structure VpageInfo where
  used : Bool
  ppn : Nat
  present : Bool
  writable : Bool
  cowPage : Bool
deriving DecidableEq

def VpageInfo.zero : VpageInfo := ⟨false, 0, false, false, false⟩

/-- `VPIPPAGE`, the `vpage_info`s of one descriptor page. -/
abbrev vpippage : Nat := 169

/-- `struct vpi_page`, with the page it is in. -/
structure VpiPage where
  frame : Nat
  infos : Fin vpippage → VpageInfo

/-- A cleared descriptor page. -/
def VpiPage.cleared (frame : Nat) : VpiPage := ⟨frame, fun _ => .zero⟩

/-- `struct vregion`, with the descriptor pages that `pages` leads to. -/
structure Vregion extends RegionBounds where
  pages : List VpiPage

/-- `VR_CODE`, `VR_HEAP` and `VR_USTACK`. -/
abbrev vrCode : Fin 3 := 0

@[inherit_doc vrCode]
abbrev vrHeap : Fin 3 := 1

@[inherit_doc vrCode]
abbrev vrUstack : Fin 3 := 2

/-- `struct vspace`. -/
structure Vspace where
  regions : Fin 3 → Vregion
  pgtbl : Pml4

/-- The place of an index in its descriptor page. -/
def vpiSlot (idx : Nat) : Fin vpippage := ⟨idx % vpippage, Nat.mod_lt _ (by decide)⟩

/-- The `vpage_info` with an index, where a missing descriptor page counts as a cleared one. -/
def Vregion.info (vr : Vregion) (idx : Nat) : VpageInfo :=
  match vr.pages[idx / vpippage]? with
  | none => .zero
  | some page => page.infos (vpiSlot idx)

def Vregion.setInfo (vr : Vregion) (idx : Nat) (info : VpageInfo) : Vregion :=
  { vr with pages := vr.pages.modify (idx / vpippage) fun page =>
      { page with infos := Function.update page.infos (vpiSlot idx) info } }

def Vspace.setRegion (vs : Vspace) (index : Fin 3) (vr : Vregion) : Vspace :=
  { vs with regions := Function.update vs.regions index vr }

/-- `va2vpi_idx(r, va)`. The index is an `int` that the loop of `va2vpage_info` compares as an
unsigned number. -/
def va2vpiIdx (vr : RegionBounds) (va : Nat) : Nat :=
  match vr.dir with
  | .up => (va + 2 ^ 64 - vr.vaBase) % 2 ^ 64 / pgSize % 2 ^ 32
  | .down => (vr.vaBase + 2 ^ 64 - 1 - va) % 2 ^ 64 / pgSize % 2 ^ 32

/-- `x86perms(vpi)`. -/
def x86perms (vpi : VpageInfo) : Perms := ⟨vpi.present, vpi.writable, true⟩

/-- The loop of `va2vpage_info` that appends descriptor pages. It stops where `kalloc` fails, and
keeps the pages it has appended. -/
def growChain : Nat → List VpiPage → Ram → Bool × List VpiPage × Ram
  | 0, pages, ram => (true, pages, ram)
  | missing + 1, pages, ram =>
    match ram.kalloc with
    | (none, ram) => (false, pages, ram)
    | (some frame, ram) => growChain missing (pages ++ [.cleared frame]) ram

/-- The descriptor page that `va2vpage_info` starts from. -/
def firstVpiPage (ram : Ram) (vr : Vregion) : Except Halt (Vregion × Ram) :=
  if vr.pages = [] then
    match ram.kalloc with
    | (none, _) => .error .noMemory
    | (some frame, ram) => .ok ({ vr with pages := [.cleared frame] }, ram)
  else .ok (vr, ram)

/-- `va2vpage_info(vr, va)`: the index of the `vpage_info`, or the null pointer. -/
def va2vpageInfo (ram : Ram) (vr : Vregion) (va : Nat) :
    Except Halt (Option Nat × Vregion × Ram) := do
  let (vr, ram) ← firstVpiPage ram vr
  let idx := va2vpiIdx vr.toRegionBounds va
  let (found, pages, ram) := growChain (idx / vpippage + 1 - vr.pages.length) vr.pages ram
  return (if found then some idx else none, { vr with pages := pages }, ram)

/-- `va2vregion(vs, va)`. -/
def va2vregion (vs : Vspace) (va : Nat) : Option (Fin 3) :=
  (List.finRange 3).find? fun index =>
    (vs.regions index).vrBot ≤ va ∧ va < (vs.regions index).vrTop

/-! ### Adding pages -/

theorem le_pgRoundUp (address : Nat) : address ≤ pgRoundUp address := by
  unfold pgRoundUp pgSize
  omega

theorem pgRoundUp_aligned (address : Nat) : pgRoundUp address % pgSize = 0 :=
  Nat.mul_mod_left _ pgSize

theorem pgRoundUp_of_aligned {address : Nat} (aligned : address % pgSize = 0) :
    pgRoundUp address = address := by
  unfold pgRoundUp
  unfold pgSize at *
  omega

/-- The number of pages that a loop from `start` to `stop` by pages visits. -/
def pageSteps (start stop : Nat) : Nat := (stop - start + (pgSize - 1)) / pgSize

/-- The loop of `vregionaddmap` over the given number of pages from `a` on. When a page cannot be
added the address is returned. -/
def addmapLoop (present writable : Bool) :
    Nat → Nat → Vregion → Ram → Except Halt (Option Nat × Vregion × Ram)
  | 0, _, vr, ram => .ok (none, vr, ram)
  | steps + 1, a, vr, ram => do
    let (vpi, vr, ram) ← va2vpageInfo ram vr a
    match vpi with
    | none => return (some a, vr, ram)
    | some idx =>
      match ram.kalloc with
      | (none, ram) => return (some a, vr, ram)
      | (some mem, ram) =>
        let info := { vr.info idx with
          used := true, present := present, writable := writable, ppn := mem }
        addmapLoop present writable steps (a + pgSize) (vr.setInfo idx info)
          (ram.setFrame mem (memsetFrame 0))

/-- The loop behind `addmap_failure`, down from `a`. The address is unsigned, so that for a range
that starts at 0 the loop does not end there. -/
def addmapFailure (start : Nat) : Nat → Nat → Vregion → Ram → Except Halt (Vregion × Ram)
  | 0, _, _, _ => .error .undefined
  | turns + 1, a, vr, ram =>
    if a < start then .ok (vr, ram)
    else do
      let (vpi, vr, ram) ← va2vpageInfo ram vr a
      match vpi with
      | none => .error (.panic "assertion failed: 'vpi info missing' at kernel/vspace.c:106")
      | some idx => do
        let ram ← ram.kfree (vr.info idx).ppn
        let info := { vr.info idx with
          used := false, present := false, writable := false, ppn := 0 }
        addmapFailure start turns ((a + 2 ^ 64 - pgSize) % 2 ^ 64) (vr.setInfo idx info) ram

/-- `vregionaddmap(vr, from_va, sz, present, writable)`. -/
def vregionaddmap (ram : Ram) (vr : Vregion) (fromVa sz : Nat) (present writable : Bool) :
    Except Halt (Int × Vregion × Ram) :=
  let stop := (sz + fromVa) % 2 ^ 64
  if kernBase ≤ stop then .ok (-1, vr, ram)
  else if sz = 0 then .ok (0, vr, ram)
  else do
    let start := pgRoundUp fromVa % 2 ^ 64
    let steps := pageSteps start stop
    let (failed, vr, ram) ← addmapLoop present writable steps start vr ram
    match failed with
    | none => return (wrapInt sz, vr, ram)
    | some a => do
      let (vr, ram) ← addmapFailure start (steps + 2) ((a + 2 ^ 64 - pgSize) % 2 ^ 64) vr ram
      return (-1, vr, ram)

/-! ### The page table of an address space -/

/-- The loop of `vspaceinvalidate` over the given number of pages of a region from `start` on. -/
def invalidateLoop : Nat → Nat → Pml4 → Vregion → Ram → Except Halt (Pml4 × Vregion × Ram)
  | 0, _, pgtbl, vr, ram => .ok (pgtbl, vr, ram)
  | steps + 1, start, pgtbl, vr, ram => do
    let (vpi, vr, ram) ← va2vpageInfo ram vr start
    match vpi with
    | none => .error .noMemory
    | some idx => do
      let info := vr.info idx
      let (pgtbl, ram) ← mappages ram pgtbl (start / pgSize) 1 info.ppn (x86perms info) false
      invalidateLoop steps (start + pgSize) pgtbl vr ram

/-- The part of `vspaceinvalidate` that maps one region. -/
def invalidateRegion (ram : Ram) (vs : Vspace) (index : Fin 3) : Except Halt (Vspace × Ram) :=
  let vr := vs.regions index
  if vr.vrBot % pgSize ≠ 0 then
    .error (.panic "assertion failed: 'start % PGSIZE == 0' at kernel/vspace.c:282")
  else do
    let (pgtbl, vr, ram) ←
      invalidateLoop (pageSteps vr.vrBot vr.vrTop) vr.vrBot vs.pgtbl vr ram
    return (⟨Function.update vs.regions index vr, pgtbl⟩, ram)

/-- The part of `vspaceinvalidate` that frees the user entries. Slot 0 is all of the first 4 GiB. -/
def freeUserEntries (ram : Ram) (pgtbl : Pml4) : Except Halt (Pml4 × Ram) :=
  match pgtbl with
  | .absent => .error .undefined
  | .node frame entry => do
    let ram ← freevmPdpt ram (entry 0)
    return (.node frame (Function.update entry 0 .absent), ram)

/-- `vspaceinvalidate(vs)`. -/
def vspaceinvalidate (ram : Ram) (vs : Vspace) : Except Halt (Vspace × Ram) := do
  let (pgtbl, ram) ← freeUserEntries ram vs.pgtbl
  (List.finRange 3).foldlM (fun (vs, ram) index => invalidateRegion ram vs index)
    ({ vs with pgtbl := pgtbl }, ram)

/-! ### Copying -/

/-- What `copy_vpi_page` makes of a used `vpage_info`, in the source and in the copy. -/
def VpageInfo.shared (info : VpageInfo) : VpageInfo :=
  { info with cowPage := true, writable := false }

/-- The loop of `copy_vpi_page` over the `vpage_info`s of a page: the pages that are used have a
reference more. -/
def shareInfos (ram : Ram) (infos : Fin vpippage → VpageInfo) : Except Halt Ram :=
  (List.finRange vpippage).foldlM (fun ram i =>
    if (infos i).used then do
      let entry ← ram.pa2page (infos i).ppn
      return ram.setEntry (infos i).ppn { entry with refCount := entry.refCount + 1 }
    else .ok ram) ram

/-- `copy_vpi_page(dst, src)`: whether it succeeds, the copy, and the source after the call. A copy
that stops keeps the pages that it has made. -/
def copyVpiPage : List VpiPage → Ram → Except Halt (Bool × List VpiPage × List VpiPage × Ram)
  | [], ram => .ok (true, [], [], ram)
  | page :: next, ram =>
    match ram.kalloc with
    | (none, ram) => .ok (false, [], page :: next, ram)
    | (some frame, ram) => do
      let ram ← shareInfos ram page.infos
      let copy : VpiPage := ⟨frame, fun i =>
        if (page.infos i).used then (page.infos i).shared else .zero⟩
      let source : VpiPage := ⟨page.frame, fun i =>
        if (page.infos i).used then (page.infos i).shared else page.infos i⟩
      let (copied, copies, sources, ram) ← copyVpiPage next ram
      return (copied, copy :: copies, source :: sources, ram)

/-- The loop of `vspacecopy` over the regions. -/
def copyRegions : List (Fin 3) → Vspace → Vspace → Ram → Except Halt (Bool × Vspace × Vspace × Ram)
  | [], dst, src, ram => .ok (true, dst, src, ram)
  | index :: rest, dst, src, ram => do
    let (copied, copies, sources, ram) ← copyVpiPage (src.regions index).pages ram
    let dst := dst.setRegion index { dst.regions index with pages := copies }
    let src := src.setRegion index { src.regions index with pages := sources }
    if copied then copyRegions rest dst src ram else return (false, dst, src, ram)

/-- `vspacecopy(dst, src)`. After a failure the regions of `dst` that have not been copied have the
descriptor pages of `src`. -/
def vspacecopy (ram : Ram) (dst src : Vspace) : Except Halt (Int × Vspace × Vspace × Ram) := do
  let (copied, dst, src, ram) ←
    copyRegions (List.finRange 3) { dst with regions := src.regions } src ram
  if copied then do
    let (dst, ram) ← vspaceinvalidate ram dst
    let (src, ram) ← vspaceinvalidate ram src
    return (0, dst, src, ram)
  else return (-1, dst, src, ram)

end Xk
