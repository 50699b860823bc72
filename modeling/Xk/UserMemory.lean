/-
This file models what changes the memory of a user process: `sbrk`, `growuserstack` and the page
fault branch of `trap` with copy-on-write.
-/

import Xk.AddressSpace
import Xk.Process

namespace Xk

open Radix

/-! ### Growing -/

/-- `(float) n` for an `int` that is not negative: 24 bits, rounded to the nearest and to even. -/
def floatOfInt (n : Nat) : Nat :=
  let unit := 2 ^ (Nat.log2 n - 23)
  let down := n / unit * unit
  if 2 * (n % unit) < unit ∨ 2 * (n % unit) = unit ∧ n / unit % 2 = 0 then down else down + unit

/-- `sbrk(n)`, for the process whose field `va_base` of the heap is at the given offset from
`KERNBASE`. To shrink the heap the code frees a range that starts at that field, behind which it
adds the size of the heap. -/
def sbrk (heapField : Nat) (ram : Ram) (vs : Vspace) (n : Int) :
    Except Halt (Int × Vspace × Ram) :=
  let vr := vs.regions vrHeap
  let oldBound := (vr.vaBase + vr.size) % 2 ^ 64
  if 0 < n then do
    let (res, vr, ram) ← vregionaddmap ram vr oldBound n.toNat true true
    if res < 0 then return (-1, vs.setRegion vrHeap vr, ram)
    else do
      let vr := { vr with size := (vr.size + n.toNat) % 2 ^ 64 }
      let (vs, ram) ← vspaceinvalidate ram (vs.setRegion vrHeap vr)
      return (wrapInt oldBound, vs, ram)
  else if n < 0 then
    let n := wrapInt (-n)
    if vr.size < toUint64 n then .ok (wrapInt oldBound, vs, ram)
    else do
      let whole := n.toNat / pgSize
      let npages := if whole * pgSize < floatOfInt n.toNat then whole + 1 else whole
      let memory ← freerange ram.memory (heapField + vr.size) (wrapInt (npages * pgSize))
      let vr := { vr with size := vr.size - n.toNat }
      let (vs, ram) ← vspaceinvalidate { ram with memory := memory } (vs.setRegion vrHeap vr)
      return (wrapInt oldBound, vs, ram)
  else do
    let (vs, ram) ← vspaceinvalidate ram vs
    return (wrapInt oldBound, vs, ram)

/-- `sys_sbrk()`, which treats a negative argument as 0. -/
def sysSbrk (heapField : Nat) (ram : Ram) (vs : Vspace) (n : Int32) :
    Except Halt (Int × Vspace × Ram) :=
  sbrk heapField ram vs (if n.toInt < 0 then 0 else n.toInt)

/-- `growuserstack()`. -/
def growuserstack (ram : Ram) (vs : Vspace) : Except Halt (Int × Vspace × Ram) :=
  let vr := vs.regions vrUstack
  let oldBound := (vr.vaBase + 2 * 2 ^ 64 - vr.size - pgSize) % 2 ^ 64
  if 10 * pgSize ≤ vr.size then .ok (-1, vs, ram)
  else do
    let (res, vr, ram) ← vregionaddmap ram vr oldBound pgSize true true
    if res < 0 then return (-1, vs.setRegion vrUstack vr, ram)
    else do
      let vr := { vr with size := vr.size + pgSize }
      let (vs, ram) ← vspaceinvalidate ram (vs.setRegion vrUstack vr)
      return (wrapInt oldBound, vs, ram)

/-! ### Page faults -/

/-- `SZ_2G`. -/
def sz2G : Nat := 2 ^ 31

/-- The end of the page fault branch of `trap`: the stack grows on demand. The result says whether
the process resumes. -/
def growOnDemand (ram : Ram) (vs : Vspace) (addr : Nat) : Except Halt (Bool × Vspace × Ram) :=
  if addr < sz2G ∧ sz2G - 10 * pgSize ≤ addr then do
    let (res, vs, ram) ← growuserstack ram vs
    return (res ≠ -1, vs, ram)
  else .ok (false, vs, ram)

/-- The page fault branch of `trap`, for the address `addr`. -/
def trapPageFault (ram : Ram) (vs : Vspace) (addr : Nat) : Except Halt (Bool × Vspace × Ram) :=
  match va2vregion vs addr with
  | none => growOnDemand ram vs addr
  | some index => do
    let (vpi, vr, ram) ← va2vpageInfo ram (vs.regions index) addr
    let vs := vs.setRegion index vr
    match vpi with
    | none => growOnDemand ram vs addr
    | some idx => do
      let info := vr.info idx
      let entry ← ram.pa2page info.ppn
      if info.cowPage ∧ 1 < entry.refCount ∧ ¬ info.writable then
        match ram.kalloc with
        | (none, ram) => return (true, vs, ram)
        | (some data, ram) => do
          let ram := ram.setFrame data (ram.memory.frame info.ppn)
          let ram := { ram with memory := decRef ram.memory info.ppn }
          let (vs, ram) ← vspaceinvalidate ram
            (vs.setRegion index (vr.setInfo idx ⟨true, data, true, true, false⟩))
          return (true, vs, ram)
      else if info.cowPage ∧ entry.refCount = 1 ∧ ¬ info.writable then do
        let (vs, ram) ← vspaceinvalidate ram
          (vs.setRegion index (vr.setInfo idx { info with writable := true, cowPage := false }))
        return (true, vs, ram)
      else growOnDemand ram vs addr

/-- The place of an address in its page. -/
def pageOffset (va : Nat) : Fin pgSize := ⟨va % pgSize, Nat.mod_lt _ (by decide)⟩

end Xk
