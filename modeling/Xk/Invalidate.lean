/-
This file proves that the hardware page table implements the region table. After `vspaceinvalidate`
the walk of an address below 4 GiB reaches a present entry exactly where a region has the address
and its `vpage_info` is present, and the entry is the one that `x86perms` makes of the `vpage_info`.
The kernel's part of the table is not touched, and the panic of `mappages` for a page that is mapped
twice cannot occur.

The two halves of the argument are that the value of a page table changes in one place with every
`mappages`, and that every call needs at most three tables. They are proved together: the statements
below admit the failures for a lack of memory unless the pages are known to suffice.
-/

import Xk.AddressSpace

namespace Xk

open Radix Outcome

/-! ### Pages that are left -/

/-- The pages that `kalloc` can still return. -/
def Ram.room (ram : Ram) : Nat := ram.memory.availablePages

def Ram.boot (ram : Ram) : Boot := ram.memory.boot

section Room

variable {ram after : Ram}

/-- A page that is handed out leaves one page less. -/
theorem Ram.room_take {page : Nat} (taken : ram.take = some (page, after)) :
    after.room + 1 = ram.room ∧ after.boot = ram.boot := by
  obtain ⟨⟨found, memory⟩, allocated, same⟩ := Option.map_eq_some_iff.mp taken
  obtain ⟨rfl, rfl⟩ := Prod.mk.inj same
  obtain ⟨inRange, available, rfl⟩ := kalloc_eq_some allocated
  have counted := Counting.places_update (Finset.range ram.memory.boot.npages) ram.memory.coreMap
    (fun entry => entry.available = true) (Finset.mem_range.mpr inRange)
    { ram.memory.coreMap found with available := false, refCount := 1 }
  rw [if_pos available, if_neg Bool.false_ne_true] at counted
  exact ⟨counted, rfl⟩

/-- No page can be taken only where none is left. -/
theorem Ram.room_of_take_none (none : ram.take = none) : ram.room = 0 := by
  have never := (kalloc_eq_none_iff ram.memory).mp (Option.map_eq_none_iff.mp none)
  unfold Ram.room Memory.availablePages
  rw [Counting.places_eq_zero_iff]
  intro page member available
  rw [never page (Finset.mem_range.mp member)] at available
  exact Bool.false_ne_true available

/-- `kalloc` takes a page or remembers that it has failed. -/
theorem Ram.kalloc_eq (ram : Ram) :
    ram.kalloc = match ram.take with
      | none => (none, { ram with starved := true })
      | some (page, after) => (some page, after) := by
  grind [Ram.kalloc, Ram.take]

theorem Ram.exists_take (ram : Ram) (room : 0 < ram.room) :
    ∃ page after, ram.take = some (page, after) ∧ ram.room ≤ after.room + 1 := by
  cases taken : ram.take with
  | none => exact absurd (Ram.room_of_take_none taken) room.ne'
  | some result => exact ⟨result.1, result.2, rfl, (Ram.room_take taken).1.ge⟩

theorem dropReference_boot (memory : Memory) (page : Nat) :
    (dropReference memory page).boot = memory.boot := by
  unfold dropReference
  split_ifs
  · rfl
  · rfl

/-- Freeing a page of a sound boot leaves at least as many pages. -/
theorem Ram.kfree_managed (ram : Ram) {page : Nat} (sound : ram.boot.Sound)
    (managed : ram.boot.Managed page) :
    ∃ after, ram.kfree page = .ok after ∧ ram.room ≤ after.room ∧ after.boot = ram.boot := by
  refine ⟨{ ram with memory := dropReference ram.memory page }, ?_, ?_, ?_⟩
  · rw [Ram.kfree, Xk.kfree_managed ram.memory page sound managed]
    rfl
  · have counted (entry : CoreMapEntry) := Counting.places_update
      (Finset.range ram.memory.boot.npages) ram.memory.coreMap
      (fun entry => entry.available = true) (Finset.mem_range.mpr managed.2) entry
    unfold dropReference
    split_ifs
    · have freed := counted ⟨true, false, 0, 0⟩
      rw [if_pos rfl] at freed
      have share : (if (ram.memory.coreMap page).available = true then 1 else 0) ≤ 1 := by
        split_ifs <;> decide
      exact Nat.le_of_add_le_add_right ((Nat.add_le_add_left share _).trans' freed.ge)
    · exact (Nat.add_right_cancel
        (counted { ram.memory.coreMap page with
          refCount := (ram.memory.coreMap page).refCount - 1 })).ge
  · exact dropReference_boot ram.memory page

/-- Freeing a page fails with the panics of `kfree` only. -/
theorem Ram.kfree_ends (ram : Ram) (page : Nat) :
    Ends (ram.kfree page) (fun halt => halt ≠ .panic "remap") fun after =>
      after.boot = ram.boot := by
  unfold Ram.kfree Xk.kfree
  split_ifs
  · exact (by decide : Halt.panic "kfree" ≠ .panic "remap")
  · exact (by decide : Halt.panic "pa2page called with invalid pa" ≠ .panic "remap")
  · exact dropReference_boot ram.memory _

theorem Ram.markUserMem_eq {page va : Nat} (marked : ram.markUserMem page va = .ok after) :
    after.room = ram.room ∧ after.boot = ram.boot := by
  unfold Ram.markUserMem Ram.pa2page at marked
  split_ifs at marked with outside
  · cases marked
  · rw [← Except.ok.inj marked]
    refine ⟨?_, rfl⟩
    have counted := Counting.places_update (Finset.range ram.memory.boot.npages) ram.memory.coreMap
      (fun entry => entry.available = true) (Finset.mem_range.mpr (Nat.lt_of_not_le outside))
      { ram.memory.coreMap page with user := true, va := va }
    exact Nat.add_right_cancel counted

end Room

/-! ### Failures -/

/-- The failures that are admitted: none where everything is provided for, and otherwise any but the
panic of `mappages` for a page that is mapped twice. -/
def Fails (total : Prop) (halt : Halt) : Prop := ¬ total ∧ halt ≠ .panic "remap"

variable {total : Prop}

/-! ### Descriptor pages -/

/-- A region with the same bounds and the same `vpage_info`s. -/
structure Vregion.Same (vr after : Vregion) : Prop where
  bounds : after.toRegionBounds = vr.toRegionBounds
  infos : ∀ idx, after.info idx = vr.info idx

section Descriptors

variable {vr : Vregion} {ram : Ram}

theorem Vregion.Same.refl (vr : Vregion) : vr.Same vr := ⟨rfl, fun _ => rfl⟩

theorem Vregion.Same.trans {middle after : Vregion} (first : vr.Same middle)
    (second : middle.Same after) : vr.Same after :=
  ⟨second.bounds.trans first.bounds, fun idx => (second.infos idx).trans (first.infos idx)⟩

/-- Cleared descriptor pages at the end of the chain are as good as none. -/
theorem Vregion.same_append_cleared (vr : Vregion) (frames : List Nat) :
    vr.Same { vr with pages := vr.pages ++ frames.map .cleared } := by
  refine ⟨rfl, fun idx => ?_⟩
  unfold Vregion.info
  dsimp only
  rw [List.getElem?_append]
  split_ifs with inChain
  · rfl
  · rw [List.getElem?_eq_none (Nat.le_of_not_lt inChain), List.getElem?_map]
    cases frames[idx / vpippage - vr.pages.length]? with
    | none => rfl
    | some frame => rfl

/-- What the loop of `va2vpage_info` does: it appends cleared pages until there are enough, or until
none is left. -/
theorem growChain_eq (missing : Nat) (pages : List VpiPage) (ram : Ram) :
    ∃ (found : Bool) (frames : List Nat) (after : Ram), growChain missing pages ram =
        (found, pages ++ frames.map .cleared, after) ∧
      after.room + frames.length = ram.room ∧ after.boot = ram.boot ∧
      (found = true ∧ frames.length = missing ∨
        found = false ∧ frames.length < missing ∧ after.room = 0) := by
  induction missing generalizing pages ram with
  | zero => exact ⟨true, [], ram, by rw [growChain, List.map_nil, List.append_nil], rfl, rfl,
      Or.inl ⟨rfl, rfl⟩⟩
  | succ missing inductionHypothesis =>
    unfold growChain
    rw [Ram.kalloc_eq]
    cases taken : ram.take with
    | none =>
      have none := Ram.room_of_take_none taken
      exact ⟨false, [], { ram with starved := true }, by rw [List.map_nil, List.append_nil],
        rfl, rfl, Or.inr ⟨rfl, Nat.succ_pos missing, none⟩⟩
    | some result =>
      obtain ⟨frame, middle⟩ := result
      obtain ⟨room, boot⟩ := Ram.room_take taken
      obtain ⟨found, frames, after, grown, roomAfter, bootAfter, ends⟩ :=
        inductionHypothesis (pages ++ [.cleared frame]) middle
      refine ⟨found, frame :: frames, after, ?_, ?_, bootAfter.trans boot, ?_⟩
      · grind
      · grind
      · grind

/-- The descriptor page that `va2vpage_info` starts from is there or is made. -/
theorem firstVpiPage_ends {target rest : Nat} (target_pos : 0 < target)
    (affords : total → target - vr.pages.length + rest ≤ ram.room) :
    Ends (firstVpiPage ram vr) (Fails total) fun (after, ramAfter) =>
      vr.Same after ∧ ramAfter.boot = ram.boot ∧
        (total → target - after.pages.length + rest ≤ ramAfter.room) := by
  unfold firstVpiPage
  split_ifs with none
  · rw [Ram.kalloc_eq]
    cases taken : ram.take with
    | none =>
      refine ⟨fun isTotal => ?_, nofun⟩
      have afforded := affords isTotal
      rw [none, Ram.room_of_take_none taken, List.length_nil] at afforded
      omega
    | some result =>
      obtain ⟨room, boot⟩ := Ram.room_take taken
      have same := vr.same_append_cleared [result.1]
      rw [none] at same
      refine ⟨same, boot, fun isTotal => ?_⟩
      have afforded := affords isTotal
      rw [none, List.length_nil] at afforded
      dsimp only [List.length_singleton]
      omega
  · exact ⟨.refl vr, rfl, affords⟩

/-- `va2vpage_info` keeps the region, and its pages suffice where they are counted for the whole
chain. -/
theorem va2vpageInfo_ends {va target rest : Nat}
    (reach : va2vpiIdx vr.toRegionBounds va / vpippage < target)
    (affords : total → target - vr.pages.length + rest ≤ ram.room) :
    Ends (va2vpageInfo ram vr va) (Fails total) fun (vpi, after, ramAfter) =>
      (vpi = some (va2vpiIdx vr.toRegionBounds va) ∨ vpi = none ∧ ¬ total) ∧ vr.Same after ∧
        ramAfter.boot = ram.boot ∧
        (total → target - after.pages.length + rest ≤ ramAfter.room) := by
  refine (firstVpiPage_ends (Nat.zero_lt_of_lt reach) affords).bind ?_
  rintro ⟨first, middle⟩ ⟨same, boot, afforded⟩
  have isIdx : va2vpiIdx first.toRegionBounds va = va2vpiIdx vr.toRegionBounds va := by
    rw [same.bounds]
  dsimp only
  rw [isIdx]
  generalize va2vpiIdx vr.toRegionBounds va = idx at reach
  obtain ⟨found, frames, after, grown, room, bootAfter, ends⟩ :=
    growChain_eq (idx / vpippage + 1 - first.pages.length) first.pages middle
  rw [grown]
  refine ⟨?_, same.trans (first.same_append_cleared frames), bootAfter.trans boot,
    fun isTotal => ?_⟩
  · grind
  · grind

end Descriptors

/-! ### Mapping one page -/

section Mapping

variable {ram : Ram}

theorem tableIndex_three {va : Nat} (below : va < sz4G) : tableIndex va 3 = 0 := by
  grind [sz4G, tableIndex]

/-- Different pages below 4 GiB have different paths. -/
theorem eq_of_samePath {va other : Nat} (below : va < sz4G) (aligned : va % pgSize = 0)
    (otherBelow : other < sz4G) (otherAligned : other % pgSize = 0)
    (same : Path.Same 3 (walkPath va) (walkPath other)) : other = va := by
  have zero := congrArg Fin.val (same 0 (by decide))
  have one := congrArg Fin.val (same 1 (by decide))
  have two := congrArg Fin.val (same 2 (by decide))
  simp only [walkPath, tableIndex] at zero one two
  unfold sz4G at below otherBelow
  unfold pgSize at aligned otherAligned
  omega

/-- The value of a page table at an address. -/
def Pml4.valueAt (pml4 : Pml4) (va : Nat) : Pte := pml4.value .zero (walkPath va)

/-- A page table in which one page has been mapped. -/
structure Pml4.Mapped (pml4 after : Pml4) (va : Nat) (pte : Pte) : Prop where
  isTable : after ≠ .absent
  self : after.valueAt va = pte
  others : ∀ other, ¬ Path.Same 3 (walkPath va) (walkPath other) →
    after.valueAt other = pml4.valueAt other
  entries : ∀ slot, slot ≠ tableIndex va 3 → after.entry slot = pml4.entry slot

theorem Pml4.mapped_store {pml4 made : Pml4} {va : Nat} {after : Ram}
    (ensured : pml4.ensure Ram.take .zero (walkPath va) ram = some (made, after)) (perm : Perms)
    (phyPn : Nat) : pml4.Mapped (made.store (walkPath va) ⟨perm, phyPn⟩) va ⟨perm, phyPn⟩ where
  isTable := Trie.store_ne_absent (Trie.ensure_ne_absent ensured) _ _
  self := Trie.value_store_same (Trie.find_ensure ensured) _ fun _ _ => rfl
  others := fun _ different =>
    (Trie.value_store_of_ne made _ different).trans (Trie.value_ensure ensured _)
  entries := fun _ different =>
    (Trie.store_entry_of_ne made _ different).trans (Trie.ensure_entry_of_ne ensured different)

/-- `mappages` for a page that is not mapped needs three pages at most, and changes one entry. -/
theorem mapPage_ends {pml4 : Pml4} {virtPn phyPn rest : Nat} {perm : Perms}
    (isTable : pml4 ≠ .absent) (vacant : (pml4.valueAt (virtPn * pgSize)).present = false)
    (physical : total → phyPn < ram.boot.npages) (affords : total → 3 + rest ≤ ram.room) :
    Ends (mapPage ram pml4 virtPn phyPn perm false) (Fails total) fun (after, ramAfter) =>
      pml4.Mapped after (virtPn * pgSize) ⟨perm, phyPn⟩ ∧ ramAfter.boot = ram.boot ∧
        (total → rest ≤ ramAfter.room) := by
  unfold mapPage
  dsimp only
  have makes : total → ∃ made after,
      pml4.ensure Ram.take .zero (walkPath (virtPn * pgSize)) ram = some (made, after) ∧
        ram.room ≤ after.room + 3 := by
    intro isTotal
    cases pml4 with
    | absent => exact absurd rfl isTable
    | node frame entry =>
      exact Trie.exists_ensure_node Ram.exists_take frame entry
        ((Nat.le_add_right 3 rest).trans (affords isTotal))
  cases ensured : pml4.ensure Ram.take .zero (walkPath (virtPn * pgSize)) ram with
  | none =>
    refine ⟨fun isTotal => ?_, by decide⟩
    obtain ⟨made, after, isMade, -⟩ := makes isTotal
    rw [ensured] at isMade
    cases isMade
  | some result =>
    obtain ⟨made, middle⟩ := result
    have boot : middle.boot = ram.boot :=
      Trie.ensure_account (fun state _ => state.boot = ram.boot) 0
        (fun _ _ _ _ same taken => (Ram.room_take taken).2.trans same) ensured rfl
    have room : total → rest ≤ middle.room := by grind
    have values := Trie.value_ensure ensured
    have vacantMade : (made.value .zero (walkPath (virtPn * pgSize))).present = false := by
      rw [values]
      exact vacant
    dsimp only
    rw [if_neg (by rw [vacantMade]; exact Bool.false_ne_true), if_neg Bool.false_ne_true]
    have mapped := Pml4.mapped_store ensured perm phyPn
    have marked : Ends (middle.markUserMem phyPn (virtPn * pgSize)) (Fails total)
        fun after => after.boot = ram.boot ∧ (total → rest ≤ after.room) := by
      cases marks : middle.markUserMem phyPn (virtPn * pgSize) with
      | ok after =>
        obtain ⟨sameRoom, sameBoot⟩ := Ram.markUserMem_eq marks
        exact ⟨sameBoot.trans boot, fun isTotal => sameRoom ▸ room isTotal⟩
      | error halt =>
        unfold Ram.markUserMem Ram.pa2page at marks
        split_ifs at marks with outside
        · rw [← Except.error.inj marks]
          refine ⟨fun isTotal => ?_, by decide⟩
          have inside := physical isTotal
          rw [← boot] at inside
          exact absurd outside (Nat.not_le.mpr inside)
        · cases marks
    exact marked.bind fun after facts => ⟨mapped, facts⟩

theorem mappages_one (ram : Ram) (pml4 : Pml4) (virtPn phyPn : Nat) (perm : Perms) (kern : Bool) :
    mappages ram pml4 virtPn 1 phyPn perm kern = mapPage ram pml4 virtPn phyPn perm kern := by
  unfold mappages
  rw [List.range_one, List.foldlM_cons]
  simp only [List.foldlM_nil, Nat.add_zero, bind_pure]

end Mapping

/-! ### Mapping a region -/

/-- The `vpage_info` of an address. -/
def Vregion.infoAt (vr : Vregion) (va : Nat) : VpageInfo :=
  vr.info (va2vpiIdx vr.toRegionBounds va)

/-- The entry that `vspaceinvalidate` makes for an address. -/
def Vregion.pteAt (vr : Vregion) (va : Nat) : Pte := ⟨x86perms (vr.infoAt va), (vr.infoAt va).ppn⟩

theorem Vregion.Same.infoAt {vr after : Vregion} (same : vr.Same after) (va : Nat) :
    after.infoAt va = vr.infoAt va := by
  unfold Vregion.infoAt
  rw [same.bounds, same.infos]

theorem Vregion.Same.pteAt {vr after : Vregion} (same : vr.Same after) (va : Nat) :
    after.pteAt va = vr.pteAt va := by
  unfold Vregion.pteAt
  rw [same.infoAt]

/-- The page table after some pages from `start` on have been mapped. -/
structure Pml4.MappedRange (pml4 after : Pml4) (vr : Vregion) (start stop : Nat) : Prop where
  isTable : after ≠ .absent
  inside : ∀ va < sz4G, va % pgSize = 0 → start ≤ va → va < stop → after.valueAt va = vr.pteAt va
  outside : ∀ va < sz4G, va % pgSize = 0 → ¬ (start ≤ va ∧ va < stop) →
    after.valueAt va = pml4.valueAt va
  entries : ∀ slot, slot ≠ 0 → after.entry slot = pml4.entry slot

/-- Mapping a page leaves the others below 4 GiB. -/
theorem Pml4.Mapped.apart {pgtbl mapped : Pml4} {start va : Nat} {pte : Pte}
    (isMapped : pgtbl.Mapped mapped start pte) (startBelow : start < sz4G)
    (aligned : start % pgSize = 0) (below : va < sz4G) (vaAligned : va % pgSize = 0)
    (different : va ≠ start) : mapped.valueAt va = pgtbl.valueAt va :=
  isMapped.others va fun samePath => different
    (eq_of_samePath startBelow aligned below vaAligned samePath)

/-- Mapping a page and then those behind it. -/
theorem Pml4.Mapped.range {pgtbl mapped after : Pml4} {vr found : Vregion} {start stop : Nat}
    (isMapped : pgtbl.Mapped mapped start (vr.pteAt start)) (aligned : start % pgSize = 0)
    (more : start < stop) (below : stop ≤ sz4G) (same : vr.Same found)
    (range : mapped.MappedRange after found (start + pgSize) stop) :
    pgtbl.MappedRange after vr start stop := by
  have startBelow := lt_of_lt_of_le more below
  refine ⟨range.isTable, fun va vaBelow vaAligned behind before => ?_,
    fun va vaBelow vaAligned outside => ?_, fun slot different => ?_⟩
  · by_cases isStart : va = start
    · grind [pgSize, Pml4.MappedRange, Pml4.Mapped]
    · have later : start + pgSize ≤ va := by grind [pgSize]
      rw [range.inside va vaBelow vaAligned later before, same.pteAt]
  · grind [Pml4.MappedRange, apart]
  · grind [Pml4.MappedRange, Pml4.Mapped, tableIndex_three]

section Regions

variable {vr : Vregion} {ram : Ram}

/-- The loop over a region maps each of its pages as its `vpage_info` says. -/
theorem invalidateLoop_ends {steps start stop target rest : Nat} {pgtbl : Pml4}
    (isTable : pgtbl ≠ .absent) (aligned : start % pgSize = 0) (below : stop ≤ sz4G)
    (isSteps : steps = pageSteps start stop)
    (vacant : ∀ va, va % pgSize = 0 → start ≤ va → va < stop →
      (pgtbl.valueAt va).present = false)
    (physical : total → ∀ va, start ≤ va → va < stop → (vr.infoAt va).ppn < ram.boot.npages)
    (reach : ∀ va, start ≤ va → va < stop → va2vpiIdx vr.toRegionBounds va / vpippage < target)
    (affords : total → target - vr.pages.length + (3 * steps + rest) ≤ ram.room) :
    Ends (invalidateLoop steps start pgtbl vr ram) (Fails total) fun (after, vrAfter, ramAfter) =>
      pgtbl.MappedRange after vr start stop ∧ vr.Same vrAfter ∧ ramAfter.boot = ram.boot ∧
        (total → rest ≤ ramAfter.room) := by
  induction steps generalizing start pgtbl vr ram with
  | zero =>
    have done : stop ≤ start := by
      simp only [pageSteps, pgSize] at isSteps
      omega
    refine ⟨⟨isTable, fun va _ _ behind before => ?_, fun _ _ _ _ => rfl, fun _ _ => rfl⟩,
      .refl vr, rfl, fun isTotal => ?_⟩
    · exact absurd (done.trans behind) (Nat.not_le.mpr before)
    · grind
  | succ steps inductionHypothesis =>
    have more : start < stop := by
      simp only [pageSteps, pgSize] at isSteps
      omega
    have stepsRest : steps = pageSteps (start + pgSize) stop := by grind [pageSteps, pgSize]
    unfold invalidateLoop
    refine (va2vpageInfo_ends (reach start le_rfl more) affords).bind ?_
    rintro ⟨vpi, found, middle⟩ ⟨isVpi, same, boot, afforded⟩
    rcases isVpi with rfl | ⟨rfl, notTotal⟩
    · dsimp only
      have isInfo : found.info (va2vpiIdx vr.toRegionBounds start) = vr.infoAt start :=
        same.infos _
      have page : start / pgSize * pgSize = start :=
        Nat.div_mul_cancel (Nat.dvd_of_mod_eq_zero aligned)
      have vacantHere : (pgtbl.valueAt (start / pgSize * pgSize)).present = false := by grind
      have physicalHere : total → (vr.infoAt start).ppn < middle.boot.npages := fun isTotal => by
        grind
      have affordsHere : total →
          3 + (target - found.pages.length + (3 * steps + rest)) ≤ middle.room := fun isTotal => by
        grind
      rw [isInfo, mappages_one]
      refine Ends.bind (mapPage_ends isTable vacantHere physicalHere affordsHere) ?_
      rintro ⟨mapped, mappedRam⟩ ⟨isMapped, mappedBoot, left⟩
      rw [page] at isMapped
      refine (inductionHypothesis isMapped.isTable (by rw [Nat.add_mod_right, aligned]) stepsRest
        (fun va vaAligned behind before => ?_) (fun isTotal va behind before => ?_)
        (fun va behind before => ?_) left).mono ?_
      · grind [Pml4.Mapped.apart]
      · grind [Vregion.Same.infoAt]
      · grind [Vregion.Same]
      · rintro ⟨after, vrAfter, ramAfter⟩ ⟨range, sameAfter, bootAfter, leftAfter⟩
        dsimp only at range sameAfter bootAfter leftAfter ⊢
        exact ⟨isMapped.range aligned more below same range, same.trans sameAfter,
          bootAfter.trans (mappedBoot.trans boot), leftAfter⟩
    · exact ⟨notTotal, fun isPanic => by cases isPanic⟩

/-- The index of an address of a region below 4 GiB is less than the number of its pages. -/
theorem va2vpiIdx_lt {va : Nat} (has : vr.Has va) (below : vr.vrTop ≤ sz4G) :
    va2vpiIdx vr.toRegionBounds va < pageSteps vr.vrBot vr.vrTop := by
  obtain ⟨low, high⟩ := has
  unfold RegionBounds.vrBot RegionBounds.vrTop at *
  unfold va2vpiIdx pageSteps pgSize
  unfold sz4G at below
  cases dir : vr.dir with
  | up =>
    simp only [dir] at low high below ⊢
    omega
  | down => grind

/-- The pages that mapping a region can need: the rest of the descriptor pages, and three tables for
every page. -/
def Vregion.need (vr : Vregion) : Nat :=
  pageSteps vr.vrBot vr.vrTop / vpippage + 1 - vr.pages.length + 3 * pageSteps vr.vrBot vr.vrTop

/-- Two address spaces whose regions have the same bounds and the same `vpage_info`s. -/
def Vspace.SameRegions (vs after : Vspace) : Prop :=
  ∀ index, (vs.regions index).Same (after.regions index)

theorem invalidateRegion_ends {vs : Vspace} {index : Fin 3} {rest : Nat}
    (isTable : vs.pgtbl ≠ .absent) (aligned : (vs.regions index).vrBot % pgSize = 0)
    (below : (vs.regions index).vrTop ≤ sz4G)
    (vacant : ∀ va, va % pgSize = 0 → (vs.regions index).Has va →
      (vs.pgtbl.valueAt va).present = false)
    (physical : total → ∀ idx, ((vs.regions index).info idx).ppn < ram.boot.npages)
    (affords : total → (vs.regions index).need + rest ≤ ram.room) :
    Ends (invalidateRegion ram vs index) (Fails total) fun (after, ramAfter) =>
      vs.pgtbl.MappedRange after.pgtbl (vs.regions index) (vs.regions index).vrBot
          (vs.regions index).vrTop ∧
        vs.SameRegions after ∧ (∀ other, other ≠ index → after.regions other = vs.regions other) ∧
        ramAfter.boot = ram.boot ∧ (total → rest ≤ ramAfter.room) := by
  unfold invalidateRegion
  dsimp only
  rw [if_neg (not_not.mpr aligned)]
  have affordsLoop : total → pageSteps (vs.regions index).vrBot (vs.regions index).vrTop /
      vpippage + 1 - (vs.regions index).pages.length +
        (3 * pageSteps (vs.regions index).vrBot (vs.regions index).vrTop + rest) ≤ ram.room := by
    intro isTotal
    rw [← Nat.add_assoc]
    exact affords isTotal
  refine (invalidateLoop_ends isTable aligned below rfl
    (fun va vaAligned behind before => vacant va vaAligned ⟨behind, before⟩)
    (fun isTotal va _ _ => physical isTotal _)
    (fun va behind before => Nat.lt_succ_of_le (Nat.div_le_div_right
      (va2vpiIdx_lt ⟨behind, before⟩ below).le)) affordsLoop).bind ?_
  rintro ⟨pgtbl, vr, ramAfter⟩ ⟨range, same, boot, left⟩
  refine ⟨range, fun other => ?_, fun other different => Function.update_of_ne different _ _, boot,
    left⟩
  by_cases isIndex : other = index
  · grind
  · grind [Vregion.Same.refl]

end Regions

/-! ### The whole address space -/

section Whole

variable {vs : Vspace} {ram : Ram}

/-- Freeing the user entries leaves nothing mapped below 4 GiB. -/
theorem freeUserEntries_ends {pgtbl : Pml4} {rest : Nat} (isTable : total → pgtbl ≠ .absent)
    (sound : total → ram.boot.Sound)
    (managed : total → ∀ frame ∈ (pgtbl.entry 0).frames, ram.boot.Managed frame)
    (affords : total → rest ≤ ram.room) :
    Ends (freeUserEntries ram pgtbl) (Fails total) fun (after, ramAfter) =>
      after ≠ .absent ∧ (∀ va < sz4G, after.valueAt va = .zero) ∧
        (∀ slot, slot ≠ 0 → after.entry slot = pgtbl.entry slot) ∧
        ramAfter.boot = ram.boot ∧ (total → rest ≤ ramAfter.room) := by
  cases pgtbl with
  | absent => exact ⟨fun isTotal => isTable isTotal rfl, fun same => Halt.noConfusion same⟩
  | node frame entry =>
    have freed : Ends (freevmPdpt ram (entry 0)) (Fails total) fun after =>
        after.boot = ram.boot ∧ (total → rest ≤ after.room) := by
      refine (Trie.release_account (fun state owners => state.boot = ram.boot ∧
        (total → rest ≤ state.room ∧ ∀ frame ∈ owners, ram.boot.Managed frame)) 0 ?_ (entry 0)
        ⟨rfl, fun isTotal => ⟨affords isTotal, ?_⟩⟩).mono
        fun after facts => ⟨facts.1, fun isTotal => (facts.2 isTotal).1⟩
      · rintro state owners page ⟨boot, facts⟩
        have kept := state.kfree_ends page
        have released : total → ∃ after, state.kfree page = .ok after ∧ rest ≤ after.room := by
          grind [Multiset.mem_cons_self, Ram.kfree_managed]
        cases frees : state.kfree page with
        | error halt =>
          rw [frees] at kept released
          refine ⟨fun isTotal => ?_, kept⟩
          obtain ⟨after, returns, -⟩ := released isTotal
          cases returns
        | ok after =>
          rw [frees] at kept released
          refine ⟨Eq.trans kept boot, fun isTotal => ⟨?_, fun frame member =>
            (facts isTotal).2 frame (Multiset.mem_cons_of_mem member)⟩⟩
          obtain ⟨other, returns, left⟩ := released isTotal
          rw [Except.ok.inj returns]
          exact left
      · rw [add_zero]
        exact managed isTotal
    refine freed.bind fun after facts => ⟨fun same => (by cases same), fun va below => ?_,
      fun slot different => ?_, facts⟩
    · unfold Pml4.valueAt
      rw [Trie.value_node]
      have index : walkPath va 3 = 0 := tableIndex_three below
      rw [index, Function.update_self, Trie.value_absent]
    · exact Function.update_of_ne different _ _

/-- The regions have page-aligned bottoms, lie below 4 GiB and share no page. -/
structure Vspace.LaidOut (vs : Vspace) : Prop where
  aligned : ∀ index, (vs.regions index).vrBot % pgSize = 0
  below : ∀ index, (vs.regions index).vrTop ≤ sz4G
  apart : ∀ first second, first ≠ second → ∀ va, va % pgSize = 0 →
    (vs.regions first).Has va → ¬ (vs.regions second).Has va

/-- What rebuilding the page table needs: a table at the top, sound memory in which its user tables
are, `vpage_info`s of physical pages, and enough free pages. -/
structure Vspace.Provided (vs : Vspace) (ram : Ram) : Prop where
  isTable : vs.pgtbl ≠ .absent
  sound : ram.boot.Sound
  managed : ∀ frame ∈ (vs.pgtbl.entry 0).frames, ram.boot.Managed frame
  physical : ∀ index idx, ((vs.regions index).info idx).ppn < ram.boot.npages
  enough : ∑ index, (vs.regions index).need ≤ ram.room

/-- A page table agrees with the regions at an address: the walk reaches a present entry exactly
where a region has the address and its `vpage_info` is present, and the entry is made of the
`vpage_info`. -/
def Pml4.AgreesAt (pgtbl : Pml4) (regions : Fin 3 → Vregion) (va : Nat) : Prop :=
  ((∃ pte, walkpml4 pgtbl va = some pte ∧ pte.present = true) ↔
      ∃ index, (regions index).Has va ∧ ((regions index).infoAt va).present = true) ∧
    ∀ pte, walkpml4 pgtbl va = some pte → pte.present = true →
      ∀ index, (regions index).Has va →
        pte = ⟨⟨true, ((regions index).infoAt va).writable, true⟩, ((regions index).infoAt va).ppn⟩

theorem Pml4.agreesAt_of_value {pgtbl : Pml4} {regions : Fin 3 → Vregion} {va : Nat}
    (inside : ∀ index, (regions index).Has va → pgtbl.valueAt va = (regions index).pteAt va)
    (outside : (∀ index, ¬ (regions index).Has va) → pgtbl.valueAt va = .zero) :
    pgtbl.AgreesAt regions va := by
  have isValue : ∀ pte, walkpml4 pgtbl va = some pte → pgtbl.valueAt va = pte := by
    grind [Pml4.valueAt, Trie.value, walkpml4]
  refine ⟨⟨?_, ?_⟩, ?_⟩
  · rintro ⟨pte, walked, present⟩
    rw [← isValue pte walked] at present
    by_cases somewhere : ∃ index, (regions index).Has va
    · obtain ⟨index, has⟩ := somewhere
      rw [inside index has] at present
      exact ⟨index, has, present⟩
    · rw [outside fun index has => somewhere ⟨index, has⟩] at present
      cases present
  · rintro ⟨index, has, present⟩
    cases walked : walkpml4 pgtbl va with
    | none =>
      have isZero : pgtbl.valueAt va = .zero := by grind [Pml4.valueAt, Trie.value, walkpml4]
      rw [inside index has] at isZero
      have isPresent : (Pte.zero).present = true := isZero ▸ present
      cases isPresent
    | some pte =>
      refine ⟨pte, rfl, ?_⟩
      rw [← isValue pte walked, inside index has]
      exact present
  · grind [Vregion.pteAt, x86perms]

/-- The address space after some of the regions have been mapped. -/
structure Vspace.Rebuilt (vs current : Vspace) (done : List (Fin 3)) : Prop where
  isTable : current.pgtbl ≠ .absent
  same : vs.SameRegions current
  later : ∀ index, index ∉ done → current.regions index = vs.regions index
  inside : ∀ va < sz4G, va % pgSize = 0 → ∀ index ∈ done, (vs.regions index).Has va →
    current.pgtbl.valueAt va = (vs.regions index).pteAt va
  outside : ∀ va < sz4G, va % pgSize = 0 → (∀ index ∈ done, ¬ (vs.regions index).Has va) →
    current.pgtbl.valueAt va = .zero
  entries : ∀ slot, slot ≠ 0 → current.pgtbl.entry slot = vs.pgtbl.entry slot

/-- A region finds its pages not mapped, since it shares none with those before it. -/
theorem Vspace.Rebuilt.invalidateRegion {current : Vspace} {done : List (Fin 3)} {index : Fin 3}
    {rest : Nat} (rebuilt : vs.Rebuilt current done) (laid : vs.LaidOut) (notDone : index ∉ done)
    (physical : total → ∀ idx, ((vs.regions index).info idx).ppn < ram.boot.npages)
    (affords : total → (vs.regions index).need + rest ≤ ram.room) :
    Ends (Xk.invalidateRegion ram current index) (Fails total) fun (after, ramAfter) =>
      vs.Rebuilt after (done ++ [index]) ∧ ramAfter.boot = ram.boot ∧
        (total → rest ≤ ramAfter.room) := by
  have isRegion := rebuilt.later index notDone
  have below : ∀ {va}, (vs.regions index).Has va → va < sz4G := fun has =>
    lt_of_lt_of_le has.2 (laid.below index)
  have notBefore : ∀ va, va % pgSize = 0 → (vs.regions index).Has va →
      ∀ other ∈ done, ¬ (vs.regions other).Has va := fun va vaAligned has other member =>
    laid.apart index other (fun same => notDone (same ▸ member)) va vaAligned has
  refine (invalidateRegion_ends rebuilt.isTable (by rw [isRegion]; exact laid.aligned index)
    (by rw [isRegion]; exact laid.below index) (fun va vaAligned has => ?_)
    (fun isTotal idx => by rw [isRegion]; exact physical isTotal idx)
    (fun isTotal => by rw [isRegion]; exact affords isTotal)).mono ?_
  · rw [isRegion] at has
    rw [rebuilt.outside va (below has) vaAligned (notBefore va vaAligned has)]
    rfl
  · rintro ⟨after, ramAfter⟩ ⟨range, same, others, boot, left⟩
    dsimp only at range same others boot left ⊢
    rw [isRegion] at range
    refine ⟨⟨range.isTable, fun other => (rebuilt.same other).trans (same other),
      fun other notIn => ?_, fun va vaBelow vaAligned other member has => ?_,
      fun va vaBelow vaAligned nowhere => ?_, fun slot different => ?_⟩, boot, left⟩
    · grind [Vspace.Rebuilt]
    · rcases List.mem_append.mp member with earlier | isIndex
      · have notHere : ¬ ((vs.regions index).vrBot ≤ va ∧ va < (vs.regions index).vrTop) :=
          fun here => notBefore va vaAligned here other earlier has
        rw [range.outside va vaBelow vaAligned notHere]
        exact rebuilt.inside va vaBelow vaAligned other earlier has
      · rw [List.mem_singleton.mp isIndex] at has ⊢
        exact range.inside va vaBelow vaAligned has.1 has.2
    · rw [range.outside va vaBelow vaAligned (nowhere index (by simp))]
      exact rebuilt.outside va vaBelow vaAligned fun other member =>
        nowhere other (List.mem_append_left _ member)
    · rw [range.entries slot different, rebuilt.entries slot different]

/-- What `vspaceinvalidate` does. -/
theorem vspaceinvalidate_ends (laid : vs.LaidOut) (provided : total → vs.Provided ram) :
    Ends (vspaceinvalidate ram vs) (Fails total) fun (after, _) =>
      vs.Rebuilt after (List.finRange 3) := by
  unfold vspaceinvalidate
  refine (freeUserEntries_ends (fun isTotal => (provided isTotal).isTable)
    (fun isTotal => (provided isTotal).sound) (fun isTotal => (provided isTotal).managed)
    (fun isTotal => (provided isTotal).enough)).bind ?_
  rintro ⟨freed, middle⟩ ⟨isTable, vacant, entries, boot, left⟩
  refine (Ends.foldlM (fun done (current, ramNow) => vs.Rebuilt current done ∧
    ramNow.boot = ram.boot ∧
      (total → ∑ index with index ∉ done, (vs.regions index).need ≤ ramNow.room)) ?_ ?_).mono
    fun _ facts => facts.1
  · rintro done index rest ⟨current, ramNow⟩ all ⟨rebuilt, bootNow, leftNow⟩
    have notDone : index ∉ done := by grind [List.nodup_finRange]
    have sum : ∑ other with other ∉ done, (vs.regions other).need = (vs.regions index).need +
        ∑ other with other ∉ done ++ [index], (vs.regions other).need := by
      have remain : Finset.univ.filter (· ∉ done) =
          insert index (Finset.univ.filter (· ∉ done ++ [index])) := by
        grind
      rw [remain, Finset.sum_insert (by simp)]
    refine (rebuilt.invalidateRegion laid notDone (fun isTotal idx => ?_)
      (fun isTotal => sum ▸ leftNow isTotal)).mono ?_
    · grind [Vspace.Provided]
    · grind
  · refine ⟨⟨isTable, fun _ => .refl _, fun _ _ => rfl, fun _ _ _ _ member => absurd member
      List.not_mem_nil,
      fun va below _ _ => vacant va below, entries⟩, boot, fun isTotal => ?_⟩
    simpa using left isTotal

/-- The hardware page table implements the region table. After `vspaceinvalidate` it agrees with the
regions at every page below 4 GiB and has kept its other slots, no page is mapped twice, and with
enough free pages the call returns. -/
theorem vspaceinvalidate_implements (vs : Vspace) (ram : Ram) (laid : vs.LaidOut) :
    (∀ after ramAfter, vspaceinvalidate ram vs = .ok (after, ramAfter) →
        (∀ va < sz4G, va % pgSize = 0 → after.pgtbl.AgreesAt vs.regions va) ∧
          ∀ slot, slot ≠ 0 → after.pgtbl.entry slot = vs.pgtbl.entry slot) ∧
      vspaceinvalidate ram vs ≠ .error (.panic "remap") ∧
      (vs.Provided ram → ∃ after ramAfter, vspaceinvalidate ram vs = .ok (after, ramAfter)) := by
  have partially : Ends (vspaceinvalidate ram vs) (Fails False) fun (after, _) =>
      vs.Rebuilt after (List.finRange 3) := vspaceinvalidate_ends laid False.elim
  refine ⟨fun after ramAfter returns => ?_, partially.ne_error fun fails => fails.2 rfl,
    fun provided => ?_⟩
  · grind [Outcome.Ends.post, Pml4.agreesAt_of_value, Vspace.Rebuilt]
  · have totally : Ends (vspaceinvalidate ram vs) (Fails True) fun (after, _) =>
        vs.Rebuilt after (List.finRange 3) := vspaceinvalidate_ends laid fun _ => provided
    obtain ⟨⟨after, ramAfter⟩, returns, -⟩ := totally.returns fun _ fails => fails.1 trivial
    exact ⟨after, ramAfter, returns⟩

end Whole

/-! ### A code page and a stack page -/

/-- A machine with 64 pages, of which the first eight are taken. -/
def smallRam : Ram where
  memory :=
    { boot := ⟨64, pgSize, by decide, by decide⟩
      coreMap := fun page => if page < 8 then ⟨false, false, 0, 1⟩ else ⟨true, false, 0, 0⟩
      pagesInUse := 8
      freePages := 56
      frame := fun _ => memsetFrame 0 }
  data := 0
  starved := false

/-- A region of one page that is writable. -/
def onePageRegion (dir : VrDirection) (vaBase frame ppn : Nat) : Vregion :=
  ⟨⟨dir, vaBase, pgSize⟩,
    [⟨frame, fun i => if i = 0 then ⟨true, ppn, true, true, false⟩ else .zero⟩]⟩

theorem onePageRegion_ppn (dir : VrDirection) (vaBase frame ppn idx : Nat) :
    ((onePageRegion dir vaBase frame ppn).info idx).ppn ≤ ppn := by
  unfold Vregion.info
  split
  · exact Nat.zero_le ppn
  · next page isPage =>
    rw [List.mem_singleton.mp (List.mem_of_getElem? isPage)]
    dsimp only
    split_ifs
    · exact le_refl ppn
    · exact Nat.zero_le ppn

/-- A page of code at 0 and a page of stack below 2 GiB. -/
def twoPageSpace : Vspace where
  regions := ![onePageRegion .up 0 3 4, ⟨⟨.up, pgSize, 0⟩, []⟩, onePageRegion .down (2 ^ 31) 5 6]
  pgtbl := .node 7 fun _ => .absent

theorem twoPageSpace_laidOut : twoPageSpace.LaidOut where
  aligned := by decide +kernel
  below := by decide +kernel
  apart := by
    have bottom : (twoPageSpace.regions 0).vrTop ≤ pgSize := by decide +kernel
    have middle : (twoPageSpace.regions 1).vrTop ≤ (twoPageSpace.regions 1).vrBot := by
      decide +kernel
    have top : pgSize ≤ (twoPageSpace.regions 2).vrBot := by decide +kernel
    rintro first second different va - ⟨lowFirst, highFirst⟩ ⟨lowSecond, highSecond⟩
    fin_cases first <;> fin_cases second
    all_goals first | exact different rfl | (dsimp only [Fin.reduceFinMk] at *; omega)

theorem twoPageSpace_provided : twoPageSpace.Provided smallRam where
  isTable := nofun
  sound := by decide
  managed := by grind [twoPageSpace, Trie.entry, Trie.frames_absent]
  physical := by
    intro index idx
    fin_cases index
    · exact lt_of_le_of_lt (onePageRegion_ppn .up 0 3 4 idx) (by decide)
    · exact (by decide : 0 < 64)
    · exact lt_of_le_of_lt (onePageRegion_ppn .down (2 ^ 31) 5 6 idx) (by decide)
  enough := by decide +kernel

/-- The page table of the two pages. -/
theorem vspaceinvalidate_implements_twoPages : ∃ after ramAfter,
    vspaceinvalidate smallRam twoPageSpace = .ok (after, ramAfter) ∧
      ∀ va < sz4G, va % pgSize = 0 → after.pgtbl.AgreesAt twoPageSpace.regions va := by
  obtain ⟨agrees, -, returns⟩ :=
    vspaceinvalidate_implements twoPageSpace smallRam twoPageSpace_laidOut
  obtain ⟨after, ramAfter, isAfter⟩ := returns twoPageSpace_provided
  exact ⟨after, ramAfter, isAfter, (agrees after ramAfter isAfter).1⟩

end Xk
