/-
This file models `vspacewritetova` and proves which writes it carries out. Its loop writes up to the
next page boundary in each turn. At an address that is a page boundary itself this is no byte at all,
and the loop stays there for ever; a range that begins inside a page and goes over its end comes to
such an address in the second turn.
-/

import Xk.Invalidate
import Xk.UserMemory

namespace Xk

open Outcome

/-! ### Bytes of an address space -/

/-- The `vpage_info` of an address: the region that `va2vregion` finds, and the index in it. -/
def Vspace.infoPlace (vs : Vspace) (va : Nat) : Option (Fin 3 × Nat) :=
  (va2vregion vs va).map fun index => (index, va2vpiIdx (vs.regions index).toRegionBounds va)

def Vspace.infoAt (vs : Vspace) (va : Nat) : VpageInfo :=
  match vs.infoPlace va with
  | none => .zero
  | some (index, idx) => (vs.regions index).info idx

/-- The byte at an address, as the regions tell. -/
def Vspace.byteAt (ram : Ram) (vs : Vspace) (va : Nat) : UInt8 :=
  ram.memory.frame (vs.infoAt va).ppn (pageOffset va)

/-- `memmove(P2V(ppn << PT_SHIFT) + offset, data, n)` for the `n` bytes of `data`. -/
def Ram.memmove (ram : Ram) (ppn offset : Nat) (data : List UInt8) : Ram :=
  ram.setFrame ppn fun place =>
    if offset ≤ place.val then data.getD (place.val - offset) (ram.memory.frame ppn place)
    else ram.memory.frame ppn place

/-- The `while` loop of `vspacewritetova`, for a number of turns. -/
def writetovaLoop (stop : Nat) :
    Nat → Nat → List UInt8 → Nat → Vspace → Ram → Except Halt (Int × Vspace × Ram)
  | 0, _, _, _, _, _ => .error .undefined
  | turns + 1, va, data, sz, vs, ram =>
    if va < stop then
      let wsz := min (pgRoundUp va - va) sz
      match va2vregion vs va with
      | none => .ok (-1, vs, ram)
      | some index => do
        let (vpi, vr, ram) ← va2vpageInfo ram (vs.regions index) va
        match vpi with
        | none => .error .noMemory
        | some idx =>
          let info := vr.info idx
          if info.used = false then
            .error (.panic "assertion failed: 'vpi->used' at kernel/vspace.c:561")
          else if info.writable = false then .ok (-1, vs.setRegion index vr, ram)
          else if data.length < wsz then .error .undefined
          else
            writetovaLoop stop turns (va + wsz) (data.drop wsz) (sz - wsz) (vs.setRegion index vr)
              (ram.memmove info.ppn (va % pgSize) (data.take wsz))
    else .ok (0, vs, ram)

/-- `vspacewritetova(vs, va, data, sz)`, for a number of turns of its loop. -/
def vspacewritetova (turns : Nat) (ram : Ram) (vs : Vspace) (va : Nat) (data : List UInt8)
    (sz : Int) : Except Halt (Int × Vspace × Ram) :=
  let stop := toUint64 (va + sz)
  if sz ≤ 0 then
    .error (.panic "assertion failed: 'sz less than or equal to 0' at kernel/vspace.c:550")
  else if kernBase ≤ stop then
    .error (.panic "assertion failed: 'went over kernel vm base' at kernel/vspace.c:551")
  else writetovaLoop stop turns va data sz.toNat vs ram

/-! ### What a write is to do -/

/-- Every page of the range `[va, va + length)` has a `vpage_info`, which is used and writable. -/
structure Vspace.WritablePages (vs : Vspace) (va length : Nat) : Prop where
  page : ∀ first second, va ≤ first → first < va + length → va ≤ second → second < va + length →
    first / pgSize = second / pgSize → vs.infoPlace first = vs.infoPlace second
  used : ∀ a, va ≤ a → a < va + length → (vs.infoAt a).used = true
  writable : ∀ a, va ≤ a → a < va + length → (vs.infoAt a).writable = true

/-- The call returns 0, the bytes are where they are to be, and no other byte of memory and no region
has changed. -/
def Vspace.Writes (ram : Ram) (vs : Vspace) (va : Nat) (data : List UInt8) : Prop :=
  ∃ turns ramAfter, vspacewritetova turns ram vs va data data.length = .ok (0, vs, ramAfter) ∧
    (∀ i (bound : i < data.length), vs.byteAt ramAfter (va + i) = data[i]) ∧
    ∀ page place,
      (∀ i < data.length, ((vs.infoAt (va + i)).ppn, pageOffset (va + i)) ≠ (page, place)) →
        ramAfter.memory.frame page place = ram.memory.frame page place

/-! ### One turn -/

section Turn

variable {ram : Ram} {vs : Vspace} {va stop turns sz : Nat} {data : List UInt8}

/-- For a used `vpage_info` there is nothing to append. -/
theorem va2vpageInfo_of_used {vr : Vregion}
    (used : (vr.info (va2vpiIdx vr.toRegionBounds va)).used = true) :
    va2vpageInfo ram vr va = .ok (some (va2vpiIdx vr.toRegionBounds va), vr, ram) := by
  have present : va2vpiIdx vr.toRegionBounds va / vpippage < vr.pages.length := by
    by_contra missing
    rw [Vregion.info, List.getElem?_eq_none (not_lt.mp missing)] at used
    cases used
  have someFirst : vr.pages ≠ [] := List.ne_nil_of_length_pos (Nat.zero_lt_of_lt present)
  have enough : va2vpiIdx vr.toRegionBounds va / vpippage + 1 - vr.pages.length = 0 :=
    Nat.sub_eq_zero_of_le present
  unfold va2vpageInfo firstVpiPage
  rw [if_neg someFirst, ok_bind]
  dsimp only
  rw [enough, growChain]
  rfl

/-- A turn of the loop in a page that is used and writable. -/
theorem writetovaLoop_turn (more : va < stop) (used : (vs.infoAt va).used = true)
    (writable : (vs.infoAt va).writable = true)
    (enough : min (pgRoundUp va - va) sz ≤ data.length) :
    writetovaLoop stop (turns + 1) va data sz vs ram =
      writetovaLoop stop turns (va + min (pgRoundUp va - va) sz)
        (data.drop (min (pgRoundUp va - va) sz)) (sz - min (pgRoundUp va - va) sz) vs
        (ram.memmove (vs.infoAt va).ppn (va % pgSize)
          (data.take (min (pgRoundUp va - va) sz))) := by
  unfold Vspace.infoAt Vspace.infoPlace at *
  cases found : va2vregion vs va with
  | none =>
    rw [found] at used
    cases used
  | some index =>
    rw [found] at used writable
    rw [writetovaLoop, if_pos more]
    dsimp only [Option.map_some] at used writable ⊢
    rw [found]
    dsimp only
    rw [va2vpageInfo_of_used used, ok_bind]
    dsimp only
    rw [if_neg (by rw [used]; decide), if_neg (by rw [writable]; decide),
      if_neg (not_lt.mpr enough),
      show vs.setRegion index (vs.regions index) = vs by
        rw [Vspace.setRegion, Function.update_eq_self]]

/-- Moving no byte changes nothing. -/
theorem Ram.memmove_nil (ppn offset : Nat) : ram.memmove ppn offset [] = ram := by
  have same : (fun place : Fin pgSize => if offset ≤ place.val then
      ([] : List UInt8).getD (place.val - offset) (ram.memory.frame ppn place)
      else ram.memory.frame ppn place) = ram.memory.frame ppn := by
    simp
  rw [Ram.memmove, same, Ram.setFrame, Function.update_eq_self]

/-- At a page boundary the loop stays where it is. -/
theorem writetovaLoop_stuck (aligned : va % pgSize = 0) (more : va < stop)
    (used : (vs.infoAt va).used = true) (writable : (vs.infoAt va).writable = true) :
    writetovaLoop stop turns va data sz vs ram = .error .undefined := by
  have nothing : min (pgRoundUp va - va) sz = 0 := by
    rw [pgRoundUp_of_aligned aligned, Nat.sub_self, Nat.zero_min]
  induction turns with
  | zero => rfl
  | succ turns inductionHypothesis => grind [writetovaLoop_turn, Ram.memmove_nil]

theorem Ram.memmove_other (ram : Ram) (data : List UInt8) {ppn page offset : Nat}
    (different : page ≠ ppn) :
    (ram.memmove ppn offset data).memory.frame page = ram.memory.frame page :=
  Function.update_of_ne different _ _

theorem Ram.memmove_self (ram : Ram) (data : List UInt8) (ppn offset : Nat) (place : Fin pgSize) :
    (ram.memmove ppn offset data).memory.frame ppn place =
      if offset ≤ place.val then data.getD (place.val - offset) (ram.memory.frame ppn place)
      else ram.memory.frame ppn place := by
  rw [Ram.memmove, Ram.setFrame]
  dsimp only
  rw [Function.update_self]

end Turn

/-! ### Whole calls -/

section Call

variable {ram : Ram} {vs : Vspace} {va : Nat} {data : List UInt8}

theorem vspacewritetova_eq (turns : Nat) (some : data ≠ []) (below : va + data.length < kernBase) :
    vspacewritetova turns ram vs va data data.length =
      writetovaLoop (va + data.length) turns va data data.length vs ram := by
  have positive : ¬ (data.length : Int) ≤ 0 := by simp_all
  have stop : toUint64 ((va : Int) + data.length) = va + data.length := by
    unfold toUint64
    unfold kernBase at below
    omega
  unfold vspacewritetova
  rw [stop, if_neg positive, if_neg (not_le.mpr below), Int.toNat_natCast]

/-- A range inside one page, behind its first byte, is written in one turn. -/
theorem Vspace.WritablePages.writes (pages : vs.WritablePages va data.length) (some : data ≠ [])
    (below : va + data.length < kernBase)
    (inPage : va + data.length ≤ pgRoundUp va) : vs.Writes ram va data := by
  have positive := List.length_pos_of_ne_nil some
  have whole : min (pgRoundUp va - va) data.length = data.length := by omega
  have stays : ∀ i < data.length, (va + i) % pgSize = va % pgSize + i ∧
      (va + i) / pgSize = va / pgSize := by
    grind [pgRoundUp, pgSize]
  have same : ∀ i < data.length, vs.infoAt (va + i) = vs.infoAt va := by
    grind [Vspace.infoAt, Vspace.WritablePages]
  refine ⟨2, ram.memmove (vs.infoAt va).ppn (va % pgSize) data, ?_, fun i bound => ?_,
    fun page place apart => ?_⟩
  · grind [vspacewritetova_eq, writetovaLoop_turn, Vspace.WritablePages, writetovaLoop]
  · grind [pageOffset, Vspace.byteAt, Ram.memmove_self]
  · by_cases isPage : page = (vs.infoAt va).ppn
    · rw [isPage, Ram.memmove_self]
      split_ifs with behind
      · refine List.getD_eq_default _ _ (not_lt.mp fun bound => ?_)
        refine apart _ bound (Prod.ext ?_ (Fin.ext ?_))
        · rw [same _ bound, isPage]
        · show (va + (place.val - va % pgSize)) % pgSize = place.val
          rw [(stays _ bound).1]
          omega
      · rfl
    · rw [Ram.memmove_other ram data isPage]

/-- **Which writes are carried out.** For every address space, every address and every data that fit
below the kernel into pages that are used and writable, exactly those that end inside the page in
which they begin, and do not begin at its first byte. -/
theorem vspacewritetova_writes_iff (ram : Ram) (some : data ≠ [])
    (below : va + data.length < kernBase) (pages : vs.WritablePages va data.length) :
    vs.Writes ram va data ↔ va + data.length ≤ pgRoundUp va := by
  refine ⟨fun writes => not_lt.mp fun crosses => ?_, pages.writes some below⟩
  obtain ⟨turns, ramAfter, returns, -⟩ := writes
  rw [vspacewritetova_eq turns some below] at returns
  have positive := List.length_pos_of_ne_nil some
  have used := pages.used va le_rfl (by omega)
  have writable := pages.writable va le_rfl (by omega)
  have above := le_pgRoundUp va
  -- the first turn ends at the page boundary
  have first : min (pgRoundUp va - va) data.length = pgRoundUp va - va := by omega
  cases turns with
  | zero => cases returns
  | succ turns =>
    grind [writetovaLoop_stuck, pgRoundUp_aligned, Vspace.WritablePages, writetovaLoop_turn]

/-- An address space with one stack page, and nothing else. -/
def oneStackPage : Vspace where
  regions := ![⟨⟨.up, 0, 0⟩, []⟩, ⟨⟨.up, 0, 0⟩, []⟩,
    ⟨⟨.down, sz2G, pgSize⟩, [⟨9, fun _ => ⟨true, 20, true, true, false⟩⟩]⟩]
  pgtbl := .absent

/-- Every address of the stack page has its `vpage_info`. -/
theorem oneStackPage_infoPlace {a : Nat} (low : sz2G - pgSize ≤ a) (high : a < sz2G) :
    oneStackPage.infoPlace a = some (vrUstack, 0) := by
  have found : va2vregion oneStackPage a = some vrUstack := by
    have bottom : (oneStackPage.regions vrUstack).vrBot = sz2G - pgSize := by decide
    have top : (oneStackPage.regions vrUstack).vrTop = sz2G := rfl
    have code : (oneStackPage.regions vrCode).vrTop = 0 := by decide
    have heap : (oneStackPage.regions vrHeap).vrTop = 0 := by decide
    simp [va2vregion, List.finRange_succ, bottom, top, code, heap, low, high]
  have index : va2vpiIdx (oneStackPage.regions vrUstack).toRegionBounds a = 0 := by
    show (sz2G + 2 ^ 64 - 1 - a) % 2 ^ 64 / pgSize % 2 ^ 32 = 0
    unfold sz2G pgSize at *
    omega
  rw [Vspace.infoPlace, found, Option.map_some, index]

theorem oneStackPage_writable {va length : Nat} (low : sz2G - pgSize ≤ va)
    (high : va + length ≤ sz2G) : oneStackPage.WritablePages va length := by
  have infoPlace : ∀ a, va ≤ a → a < va + length →
      oneStackPage.infoPlace a = some (vrUstack, 0) := fun a above below =>
    oneStackPage_infoPlace (low.trans above) (below.trans_le high)
  refine ⟨fun first second above below aboveSecond belowSecond _ => ?_, fun a above below => ?_,
    fun a above below => ?_⟩
  · rw [infoPlace first above below, infoPlace second aboveSecond belowSecond]
  · rw [Vspace.infoAt, infoPlace a above below]
    rfl
  · rw [Vspace.infoAt, infoPlace a above below]
    rfl

/-- Three bytes at the end of the page. -/
theorem vspacewritetova_writes_iff_endOfPage :
    oneStackPage.Writes smallRam (sz2G - 4) [1, 2, 3] :=
  (vspacewritetova_writes_iff smallRam (List.cons_ne_nil _ _) (by decide)
    (oneStackPage_writable (by decide) (by decide))).mpr (by decide)

/-- One byte at the beginning of the page: no number of turns is enough. -/
theorem vspacewritetova_pageStart : ¬ oneStackPage.Writes smallRam (sz2G - pgSize) [1] := by
  rintro ⟨turns, ramAfter, returns, -⟩
  have pages : oneStackPage.WritablePages (sz2G - pgSize) 1 :=
    oneStackPage_writable le_rfl (by decide)
  have isLoop := @vspacewritetova_eq smallRam oneStackPage (sz2G - pgSize) [1] turns
    (List.cons_ne_nil _ _) (by decide)
  have stuck := isLoop.trans (writetovaLoop_stuck (by decide) (by decide)
    (pages.used _ le_rfl (by decide)) (pages.writable _ le_rfl (by decide)))
  cases returns.symm.trans stuck

end Call

end Xk
