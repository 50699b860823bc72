/-
This file proves what adding pages to a region does. `vregionaddmap` gives fresh pages filled with
zeros to the `vpage_info`s of a range of indices that follows the region's pages, and nothing else
changes. `sbrk` and `growuserstack` call it behind the last page of the heap and of the stack, where
the `vpage_info`s are unused.

A call that cannot get a page is not followed further here: it leaves the mark of a failed `kalloc`.
-/

import Xk.Holdings
import Xk.UserMemory

namespace Xk

open Outcome

/-! ### A failed `kalloc` leaves its mark -/

section Starved

variable {ram after : Ram} {vr : Vregion}

theorem Ram.starved_take {page : Nat} (taken : ram.take = some (page, after)) :
    after.starved = ram.starved := by
  rw [(Ram.take_eq taken).2]

theorem growChain_starved {missing : Nat} {pages grown : List VpiPage} {found : Bool}
    (starved : ram.starved = true) (isGrown : growChain missing pages ram = (found, grown, after)) :
    after.starved = true := by
  induction missing generalizing pages ram with
  | zero =>
    obtain ⟨rfl, rfl, rfl⟩ := isGrown
    exact starved
  | succ missing inductionHypothesis =>
    unfold growChain at isGrown
    rw [Ram.kalloc_eq] at isGrown
    cases taken : ram.take with
    | none => grind
    | some result => grind [Ram.starved_take]

theorem va2vpageInfo_starved (va : Nat) (starved : ram.starved = true) :
    Ends (va2vpageInfo ram vr va) Anyhow fun (_, _, ramAfter) => ramAfter.starved = true := by
  have first : Ends (firstVpiPage ram vr) Anyhow fun result => result.2.starved = true := by
    unfold firstVpiPage
    split_ifs
    · rw [Ram.kalloc_eq]
      cases taken : ram.take with
      | none => exact trivial
      | some result => exact (Ram.starved_take taken).trans starved
    · exact starved
  refine first.bind ?_
  rintro ⟨found, middle⟩ starvedMiddle
  exact growChain_starved starvedMiddle rfl

end Starved

/-! ### Adding pages -/

/-- The pages of a region of the given size. -/
def pageCount (size : Nat) : Nat := (size + (pgSize - 1)) / pgSize

/-- A region to which fresh pages have been added, at the indices from `low` to `high`. -/
structure Vregion.Added (vr after : Vregion) (low high : Nat) (added : Multiset Nat) : Prop where
  bounds : after.toRegionBounds = vr.toRegionBounds
  others : ∀ idx, ¬ (low ≤ idx ∧ idx < high) → after.info idx = vr.info idx
  pages : ∀ idx, low ≤ idx → idx < high →
    ∃ page ∈ added, after.info idx = ⟨true, page, true, true, false⟩
  frames : after.userFrames = vr.userFrames + added

section Adding

variable {user before : Multiset Nat} {contents : Nat → Frame} {hungry : Prop} {ram : Ram}
  {kernel extra : Multiset Nat} {vr : Vregion}

/-- A page of a user is taken and filled. -/
theorem Ram.Keeps.takeUser {page : Nat} {after : Ram} {frame : Frame}
    (keeps : ram.Keeps user contents hungry kernel) (taken : ram.take = some (page, after))
    (isFrame : contents page = frame) :
    (after.setFrame page frame).Keeps (page ::ₘ user) contents hungry kernel := by
  refine ⟨(keeps.ledger.takeUser taken).setFrame page frame, fun owned inUser => ?_, ?_⟩
  · by_cases isPage : owned = page
    · rw [isPage, isFrame]
      exact Function.update_self _ _ _
    · have earlier := (Multiset.mem_cons.mp inUser).resolve_left isPage
      rw [← keeps.frames owned earlier, (Ram.take_eq taken).2]
      exact Function.update_of_ne isPage _ _
  · rw [(Ram.take_eq taken).2]
    exact keeps.starved

/-- The loop of `vregionaddmap`, over indices that are unused. -/
theorem addmapLoop_adds {steps a low : Nat} (zeros : ∀ page ∉ user, contents page = memsetFrame 0)
    (index : ∀ i < steps, va2vpiIdx vr.toRegionBounds (a + i * pgSize) = low + i)
    (unused : ∀ i < steps, vr.info (low + i) = .zero)
    (keeps : ram.Keeps (before + user) contents hungry (vr.descFrames + extra)) :
    Ends (addmapLoop true true steps a vr ram) Anyhow fun (failed, after, ramAfter) =>
      (failed ≠ none → ramAfter.starved = true) ∧
        (failed = none → ∃ added, vr.Added after low (low + steps) added ∧ added.Nodup ∧
          (∀ page ∈ added, page ∉ before + user) ∧
          ramAfter.Keeps (added + (before + user)) contents hungry (after.descFrames + extra)) := by
  induction steps generalizing a low vr ram before with
  | zero =>
    refine ⟨fun failed => absurd rfl failed, fun _ => ⟨0, ⟨rfl, fun _ _ => rfl, ?_, ?_⟩,
      Multiset.nodup_zero, nofun, ?_⟩⟩
    · omega
    · exact (add_zero _).symm
    · rw [zero_add]
      exact keeps
  | succ steps inductionHypothesis =>
    unfold addmapLoop
    refine (va2vpageInfo_keeps a keeps).bind ?_
    rintro ⟨vpi, found, middle⟩ ⟨same, keepsFound, isVpi⟩
    cases vpi with
    | none =>
      exact ⟨fun _ => keepsFound.starved (Or.inr rfl), nofun⟩
    | some idx =>
      obtain ⟨isIdx, inChain⟩ := isVpi idx rfl
      have isLow : idx = low := by
        rw [isIdx]
        have first := index 0 (Nat.succ_pos steps)
        rwa [Nat.zero_mul, Nat.add_zero, Nat.add_zero] at first
      subst isLow
      dsimp only
      rw [Ram.kalloc_eq]
      cases taken : middle.take with
      | none => exact ⟨fun _ => rfl, nofun⟩
      | some result =>
        obtain ⟨mem, takenRam⟩ := result
        dsimp only
        have wasZero : found.info idx = .zero := by
          rw [same.infos]
          exact unused 0 (Nat.succ_pos steps)
        have fresh : mem ∉ before + user := fun owned =>
          keepsFound.ledger.fresh taken (Multiset.mem_add.mpr (Or.inr owned))
        have isZero : contents mem = memsetFrame 0 :=
          zeros mem fun inUser => fresh (Multiset.mem_add.mpr (Or.inr inUser))
        have keepsTaken : (takenRam.setFrame mem (memsetFrame 0)).Keeps
            (mem ::ₘ before + user) contents hungry (found.descFrames + extra) := by
          rw [Multiset.cons_add]
          have keepsHere : middle.Keeps (before + user) contents hungry
              (found.descFrames + extra) :=
            ⟨keepsFound.ledger, keepsFound.frames, fun isHungry =>
              keepsFound.starved (Or.inl isHungry)⟩
          exact keepsHere.takeUser taken isZero
        rw [wasZero]
        dsimp only [VpageInfo.zero]
        have assigned := Vregion.info_setInfo ⟨true, mem, true, true, false⟩ inChain
        have frames := Vregion.userFrames_setInfo ⟨true, mem, true, true, false⟩ inChain
        rw [wasZero, VpageInfo.frames_zero, add_zero, same.userFrames] at frames
        rw [← Vregion.descFrames_setInfo found idx ⟨true, mem, true, true, false⟩] at keepsTaken
        generalize set : found.setInfo idx ⟨true, mem, true, true, false⟩ = region at *
        have bounds : region.toRegionBounds = vr.toRegionBounds := by
          rw [← set, ← same.bounds]
          rfl
        have indexRest : ∀ i < steps,
            va2vpiIdx region.toRegionBounds (a + pgSize + i * pgSize) = idx + 1 + i := by
          grind
        have unusedRest : ∀ i < steps, region.info (idx + 1 + i) = .zero := by grind [Vregion.Same]
        refine (inductionHypothesis indexRest unusedRest keepsTaken).mono ?_
        rintro ⟨failed, after, ramAfter⟩ ⟨starves, adds⟩
        refine ⟨starves, fun isNone => ?_⟩
        obtain ⟨added, isAdded, distinct, apart, keepsAfter⟩ := adds isNone
        have notLater : mem ∉ added := fun later => apart mem later
          (Multiset.mem_add.mpr (Or.inl (Multiset.mem_cons_self mem before)))
        refine ⟨mem ::ₘ added, ⟨isAdded.bounds.trans bounds, fun other outside => ?_,
          fun other lower higher => ?_, ?_⟩, Multiset.nodup_cons.mpr ⟨notLater, distinct⟩,
          fun page inAdded => ?_, ?_⟩
        · rw [isAdded.others other (by omega), assigned, if_neg (by omega), same.infos]
        · grind [Vregion.Added]
        · rw [isAdded.frames, frames, add_assoc]
          rfl
        · grind
        · have owners : mem ::ₘ added + (before + user) = added + (mem ::ₘ before + user) := by
            rw [Multiset.cons_add, Multiset.cons_add, Multiset.add_cons]
          rw [owners]
          exact keepsAfter

end Adding

/-! ### Growing a region of an address space -/

/-- The regions end below 4 GiB. -/
def Vspace.Below (vs : Vspace) : Prop := ∀ index, (vs.regions index).vrTop ≤ sz4G

/-- The page table reflects the regions. -/
def Vspace.Reflected (vs : Vspace) : Prop := vs.pgtbl.Reflects vs.regions (List.finRange 3)

/-- An address space in which one region has grown to a size, by fresh pages. -/
structure Vspace.Grown (vs after : Vspace) (index : Fin 3) (size : Nat) (added : Multiset Nat) :
    Prop where
  others : ∀ other, other ≠ index → (vs.regions other).Same (after.regions other)
  bounds : (after.regions index).toRegionBounds =
    { (vs.regions index).toRegionBounds with size := size }
  kept : ∀ idx, ¬ (pageCount (vs.regions index).size ≤ idx ∧ idx < pageCount size) →
    (after.regions index).info idx = (vs.regions index).info idx
  pages : ∀ idx, pageCount (vs.regions index).size ≤ idx → idx < pageCount size →
    ∃ page ∈ added, (after.regions index).info idx = ⟨true, page, true, true, false⟩
  frames : after.userFrames = vs.userFrames + added

section Growing

variable {user : Multiset Nat} {contents : Nat → Frame} {hungry : Prop} {ram : Ram}
  {extra : Multiset Nat} {vs : Vspace}

/-- What growing a region ends with, unless `kalloc` has failed. -/
def GrowsTo (user : Multiset Nat) (contents : Nat → Frame) (hungry : Prop) (extra : Multiset Nat)
    (vs : Vspace) (index : Fin 3) (size : Nat) (after : Vspace) (ramAfter : Ram) : Prop :=
  ∃ added, vs.Grown after index size added ∧ added.Nodup ∧ (∀ page ∈ added, page ∉ user) ∧
    ramAfter.Keeps (added + user) contents hungry (after.kernelFrames + extra) ∧
    (after.Below → vs.Reflected → after.Reflected)

theorem Vspace.kernelFrames_region (vs : Vspace) (index : Fin 3) (extra : Multiset Nat) :
    vs.kernelFrames + extra = (vs.regions index).descFrames + (vs.pgtbl.frames +
      (∑ other ∈ Finset.univ.erase index, (vs.regions other).descFrames + extra)) := by
  unfold Vspace.kernelFrames Vspace.descFrames
  rw [sum_region Vregion.descFrames vs.regions index]
  abel

end Growing

/-! ### Address spaces that the kernel builds -/

/-- The contents of the users' pages, and zeros elsewhere. -/
def Ram.contentsOf (ram : Ram) (user : Multiset Nat) (page : Nat) : Frame :=
  if page ∈ user then ram.memory.frame page else memsetFrame 0

theorem Ram.contentsOf_zeros (ram : Ram) (user : Multiset Nat) :
    ∀ page ∉ user, ram.contentsOf user page = memsetFrame 0 :=
  fun _ outside => if_neg outside

theorem Ledger.keeps {ram : Ram} {kernel user : Multiset Nat} (ledger : Ledger ram kernel user) :
    ram.Keeps user (ram.contentsOf user) False kernel :=
  ⟨ledger, fun _ inUser => (if_pos inUser).symm, False.elim⟩

end Xk
