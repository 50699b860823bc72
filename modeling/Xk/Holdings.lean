/-
This file says which pages an address space holds: the tables of its page table and its descriptor
pages, which are the kernel's, and the pages that its used `vpage_info`s name, which are the user's.
Reading and rebuilding an address space, `va2vpage_info` and `vspaceinvalidate`, take and give back
pages of the first kind and leave the second alone.

Nothing is assumed of the regions that `vspaceinvalidate` maps. Where two of them have a page at the
same address the rebuild panics, so after it the page table reflects the regions all the same, as
long as they lie below 4 GiB.
-/

import Xk.Ledger

namespace Xk

open Radix Outcome

/-! ### Pages of a region -/

/-- The page that a `vpage_info` names. -/
def VpageInfo.frames (info : VpageInfo) : Multiset Nat := if info.used then {info.ppn} else 0

/-- The pages that the `vpage_info`s of a descriptor page name. -/
def VpiPage.userFrames (page : VpiPage) : Multiset Nat := ∑ i, (page.infos i).frames

/-- The descriptor pages of a region. -/
def Vregion.descFrames (vr : Vregion) : Multiset Nat := ↑(vr.pages.map VpiPage.frame)

/-- The pages that the `vpage_info`s of a region name. -/
def Vregion.userFrames (vr : Vregion) : Multiset Nat := (vr.pages.map VpiPage.userFrames).sum

theorem VpageInfo.frames_zero : VpageInfo.zero.frames = 0 := rfl

theorem VpageInfo.mem_frames {info : VpageInfo} {page : Nat} :
    page ∈ info.frames ↔ info.used = true ∧ info.ppn = page := by
  grind [VpageInfo.frames, Multiset.mem_singleton]

section Frames

variable {vr after : Vregion} {idx : Nat}

/-- Behind its chain a region has no `vpage_info`s. -/
theorem Vregion.info_of_le (behind : vr.pages.length * vpippage ≤ idx) : vr.info idx = .zero := by
  grind [Vregion.info]

/-- The pages of a region, `vpage_info` by `vpage_info`. -/
theorem Vregion.userFrames_eq_sum (vr : Vregion) :
    vr.userFrames = ∑ idx ∈ Finset.range (vr.pages.length * vpippage), (vr.info idx).frames := by
  obtain ⟨bounds, pages⟩ := vr
  unfold Vregion.userFrames
  dsimp only
  induction pages using List.reverseRecOn with
  | nil => rfl
  | append_singleton pages page inductionHypothesis =>
    rw [List.map_append, List.sum_append, inductionHypothesis, List.length_append,
      List.length_singleton, Nat.add_mul, Nat.one_mul, Finset.sum_range_add]
    have earlier : ∀ idx ∈ Finset.range (pages.length * vpippage),
        ((⟨bounds, pages⟩ : Vregion).info idx).frames =
          ((⟨bounds, pages ++ [page]⟩ : Vregion).info idx).frames := by
      grind [Vregion.info]
    have last : ∀ i : Fin vpippage,
        ((⟨bounds, pages ++ [page]⟩ : Vregion).info (pages.length * vpippage + i)) =
          page.infos i := by
      intro i
      have isPage : (pages.length * vpippage + i) / vpippage = pages.length := by grind
      have isSlot : vpiSlot (pages.length * vpippage + i) = i := by grind [vpiSlot]
      unfold Vregion.info
      dsimp only
      rw [isPage, List.getElem?_concat_length, isSlot]
    rw [Finset.sum_congr rfl earlier, Finset.sum_range (n := vpippage)]
    simp only [last, List.map_cons, List.map_nil, List.sum_singleton, VpiPage.userFrames]

/-- The range of the sum can be any that covers the chain. -/
theorem Vregion.userFrames_eq_sum_of_le {bound : Nat}
    (covers : vr.pages.length * vpippage ≤ bound) :
    vr.userFrames = ∑ idx ∈ Finset.range bound, (vr.info idx).frames := by
  grind [userFrames_eq_sum, Finset.sum_subset, info_of_le, VpageInfo.frames_zero]

theorem Vregion.Same.userFrames (same : vr.Same after) : after.userFrames = vr.userFrames := by
  rw [Vregion.userFrames_eq_sum_of_le (le_max_left _ (vr.pages.length * vpippage)),
    Vregion.userFrames_eq_sum_of_le (le_max_right (after.pages.length * vpippage) _)]
  simp only [same.infos]

theorem Vregion.mem_userFrames {page : Nat} :
    page ∈ vr.userFrames ↔ ∃ idx, (vr.info idx).used = true ∧ (vr.info idx).ppn = page := by
  rw [vr.userFrames_eq_sum, Multiset.mem_sum]
  simp only [VpageInfo.mem_frames, Finset.mem_range]
  constructor
  · grind
  · rintro ⟨idx, used, isPpn⟩
    refine ⟨idx, ?_, used, isPpn⟩
    by_contra behind
    rw [Vregion.info_of_le (Nat.not_lt.mp behind)] at used
    exact Bool.false_ne_true used

/-- Assigning a `vpage_info` of the chain. -/
theorem Vregion.info_setInfo (info : VpageInfo) (inChain : idx < vr.pages.length * vpippage)
    (other : Nat) :
    (vr.setInfo idx info).info other = if other = idx then info else vr.info other := by
  have isPage : idx / vpippage < vr.pages.length := (Nat.div_lt_iff_lt_mul (by decide)).mpr inChain
  unfold Vregion.info Vregion.setInfo
  dsimp only
  rw [List.getElem?_modify]
  by_cases samePage : idx / vpippage = other / vpippage
  · simp only [if_pos samePage]
    rw [← samePage, List.getElem?_eq_getElem isPage]
    by_cases same : other = idx
    · grind
    · rw [if_neg same]
      refine Function.update_of_ne (fun sameSlot => same ?_) _ _
      have slots : other % vpippage = idx % vpippage := congrArg Fin.val sameSlot
      rw [← Nat.div_add_mod other vpippage, ← samePage, slots, Nat.div_add_mod]
  · grind

theorem Vregion.setInfo_length (vr : Vregion) (idx : Nat) (info : VpageInfo) :
    (vr.setInfo idx info).pages.length = vr.pages.length :=
  List.length_modify _ _ _

theorem Vregion.descFrames_setInfo (vr : Vregion) (idx : Nat) (info : VpageInfo) :
    (vr.setInfo idx info).descFrames = vr.descFrames := by
  unfold Vregion.descFrames Vregion.setInfo
  dsimp only
  refine congrArg Multiset.ofList (List.ext_getElem? fun place => ?_)
  rw [List.getElem?_map, List.getElem?_map, List.getElem?_modify]
  cases vr.pages[place]? with
  | none => rfl
  | some page =>
    split_ifs
    · rfl
    · rfl

/-- Assigning a `vpage_info` takes the page it named from the region and adds the one it names. -/
theorem Vregion.userFrames_setInfo (info : VpageInfo)
    (inChain : idx < vr.pages.length * vpippage) :
    (vr.setInfo idx info).userFrames + (vr.info idx).frames = vr.userFrames + info.frames := by
  have member : idx ∈ Finset.range (vr.pages.length * vpippage) := Finset.mem_range.mpr inChain
  rw [(vr.setInfo idx info).userFrames_eq_sum, vr.userFrames_eq_sum, Vregion.setInfo_length,
    ← Finset.add_sum_erase _ _ member, ← Finset.add_sum_erase _ (fun idx => (vr.info idx).frames)
      member, Vregion.info_setInfo info inChain, if_pos rfl]
  have rest : ∑ other ∈ (Finset.range (vr.pages.length * vpippage)).erase idx,
        ((vr.setInfo idx info).info other).frames =
      ∑ other ∈ (Finset.range (vr.pages.length * vpippage)).erase idx, (vr.info other).frames := by
    grind [Finset.sum_congr, Vregion.info_setInfo]
  rw [rest]
  abel

end Frames

/-! ### Descriptor pages -/

section Descriptors

variable {user : Multiset Nat} {contents : Nat → Frame} {hungry : Prop} {ram : Ram}
  {extra : Multiset Nat} {vr : Vregion}

/-- The descriptor pages that `va2vpage_info` appends are the kernel's. When there are not enough of
them `kalloc` has failed. -/
theorem growChain_keeps {missing : Nat} {pages grown : List VpiPage} {found : Bool} {after : Ram}
    (keeps : ram.Keeps user contents hungry (↑(pages.map VpiPage.frame) + extra))
    (isGrown : growChain missing pages ram = (found, grown, after)) :
    after.Keeps user contents (hungry ∨ found = false) (↑(grown.map VpiPage.frame) + extra) := by
  induction missing generalizing pages ram with
  | zero =>
    obtain ⟨rfl, rfl, rfl⟩ := isGrown
    exact ⟨keeps.ledger, keeps.frames, fun isHungry =>
      keeps.starved (isHungry.resolve_right Bool.true_eq_false.mp)⟩
  | succ missing inductionHypothesis =>
    unfold growChain at isGrown
    rw [Ram.kalloc_eq] at isGrown
    cases taken : ram.take with
    | none => grind [Ram.Keeps.starve]
    | some result =>
      obtain ⟨frame, middle⟩ := result
      rw [taken] at isGrown
      refine inductionHypothesis ?_ isGrown
      have owners : frame ::ₘ (↑(pages.map VpiPage.frame) + extra) =
          ↑((pages ++ [VpiPage.cleared frame]).map VpiPage.frame) + extra := by
        rw [List.map_append, ← Multiset.coe_add, ← Multiset.cons_add]
        exact congrArg (· + extra) ((Multiset.singleton_add frame _).symm.trans (add_comm _ _))
      exact owners ▸ keeps.take taken

theorem firstVpiPage_keeps (keeps : ram.Keeps user contents hungry (vr.descFrames + extra)) :
    Ends (firstVpiPage ram vr) Anyhow fun (after, ramAfter) =>
      vr.Same after ∧ ramAfter.Keeps user contents hungry (after.descFrames + extra) := by
  unfold firstVpiPage
  split_ifs with none
  · rw [Ram.kalloc_eq]
    cases taken : ram.take with
    | none => exact trivial
    | some result =>
      have same := vr.same_append_cleared [result.1]
      rw [none] at same
      refine ⟨same, ?_⟩
      have keepsAfter := keeps.take taken
      unfold Vregion.descFrames at keepsAfter
      rw [none, List.map_nil, Multiset.coe_nil, zero_add] at keepsAfter
      exact keepsAfter
  · exact ⟨.refl vr, keeps⟩

/-- `va2vpage_info` keeps the region, and returns the null pointer only after `kalloc` has failed.
-/
theorem va2vpageInfo_keeps (va : Nat)
    (keeps : ram.Keeps user contents hungry (vr.descFrames + extra)) :
    Ends (va2vpageInfo ram vr va) Anyhow fun (vpi, after, ramAfter) =>
      vr.Same after ∧
        ramAfter.Keeps user contents (hungry ∨ vpi = none) (after.descFrames + extra) ∧
        ∀ idx, vpi = some idx → idx = va2vpiIdx vr.toRegionBounds va ∧
          idx < after.pages.length * vpippage := by
  refine (firstVpiPage_keeps keeps).bind ?_
  rintro ⟨first, middle⟩ ⟨same, keepsMiddle⟩
  have isIdx : va2vpiIdx first.toRegionBounds va = va2vpiIdx vr.toRegionBounds va := by
    rw [same.bounds]
  dsimp only
  rw [isIdx]
  generalize va2vpiIdx vr.toRegionBounds va = reached
  obtain ⟨found, frames, after, grown, -, -, ends⟩ :=
    growChain_eq (reached / vpippage + 1 - first.pages.length) first.pages middle
  have keepsAfter := growChain_keeps keepsMiddle grown
  rw [grown]
  refine ⟨same.trans (first.same_append_cleared frames), ?_, fun idx isSome => ?_⟩
  · refine ⟨keepsAfter.ledger, keepsAfter.frames, fun isHungry => keepsAfter.starved ?_⟩
    refine isHungry.imp_right fun isNone => ?_
    cases found with
    | false => rfl
    | true => cases isNone
  · grind

end Descriptors

/-! ### The page table -/

section Tables

variable {user : Multiset Nat} {contents : Nat → Frame} {hungry : Prop} {ram : Ram}
  {extra : Multiset Nat}

end Tables

/-! ### Pages of an address space -/

/-- The descriptor pages of an address space. -/
def Vspace.descFrames (vs : Vspace) : Multiset Nat := ∑ index, (vs.regions index).descFrames

/-- The pages of the kernel that an address space uses. -/
def Vspace.kernelFrames (vs : Vspace) : Multiset Nat := vs.pgtbl.frames + vs.descFrames

/-- The pages that an address space names. -/
def Vspace.userFrames (vs : Vspace) : Multiset Nat := ∑ index, (vs.regions index).userFrames

theorem sum_region (pages : Vregion → Multiset Nat) (regions : Fin 3 → Vregion) (index : Fin 3) :
    ∑ other, pages (regions other) =
      pages (regions index) + ∑ other ∈ Finset.univ.erase index, pages (regions other) :=
  (Finset.add_sum_erase _ _ (Finset.mem_univ index)).symm

/-! ### Rebuilding the page table -/

/-- A page table that holds, at every page below 4 GiB, the entry of the one region that has a
present `vpage_info` there. -/
structure Pml4.Reflects (pgtbl : Pml4) (regions : Fin 3 → Vregion) (done : List (Fin 3)) :
    Prop where
  mapped : ∀ va < sz4G, va % pgSize = 0 → ∀ index ∈ done, (regions index).Has va →
    ((regions index).infoAt va).present = true → pgtbl.valueAt va = (regions index).pteAt va
  only : ∀ va < sz4G, va % pgSize = 0 → (pgtbl.valueAt va).present = true →
    ∃ index ∈ done, (regions index).Has va ∧ ((regions index).infoAt va).present = true
  once : ∀ va < sz4G, va % pgSize = 0 → ∀ first ∈ done, ∀ second ∈ done,
    (regions first).Has va → ((regions first).infoAt va).present = true →
    (regions second).Has va → ((regions second).infoAt va).present = true → first = second

section Rebuild

variable {user : Multiset Nat} {contents : Nat → Frame} {hungry : Prop} {ram : Ram}
  {extra : Multiset Nat}

end Rebuild

end Xk
