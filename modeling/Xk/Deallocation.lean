/-
This file proves what `deallocuvm` does with an arbitrary page table and arbitrary bounds. Its loop
goes from page to page, and where a table is missing it lets `find_next_possible_page` lead on to the
end of the gap.

The gap of the last table of a gigabyte ends where the next gigabyte begins. For a gigabyte with an
odd number `find_next_possible_page` takes the index 512 of the next table for a carry, which `|` does
not make, and leads back to the beginning of the gigabyte. The loop then comes to the same gap again
and again. In all other cases it frees each mapped page of the range once.
-/

import Xk.Holdings

namespace Xk

open Radix Outcome

variable {pml4 : Pml4} {va l3 a level : Nat} {ram : Ram} {calls : List Nat}

/-! ### Entries and addresses -/

theorem Pml4.valueAt_of_walk {pte : Pte} (found : walkpml4 pml4 va = some pte) :
    pml4.valueAt va = pte := by
  unfold Pml4.valueAt Trie.value
  rw [show Trie.find pml4 (walkPath va) = some pte from found]
  rfl

theorem Pml4.valueAt_clear_of_ne {other : Nat} (below : va < sz4G) (aligned : va % pgSize = 0)
    (otherBelow : other < sz4G) (otherAligned : other % pgSize = 0) (different : other ≠ va) :
    Pml4.valueAt (pml4.store (walkPath va) .zero) other = pml4.valueAt other :=
  Trie.value_store_of_ne pml4 .zero fun same =>
    different (eq_of_samePath below aligned otherBelow otherAligned same)

theorem pgAddr_le {d : Nat} (l3Small : l3 < 4) (dSmall : d < 512) :
    pgAddr 0 l3 (d + 1) ≤ l3 * 2 ^ 30 + (d + 1) * 2 ^ 21 ∧ pgSize ≤ pgAddr 0 l3 (d + 1) := by
  unfold pgAddr pgSize
  rw [Nat.zero_shiftLeft, Nat.zero_or]
  by_cases last : d + 1 = 512
  · rw [last]
    interval_cases l3
    · decide
    · decide
    · decide
    · decide
  · have small : (d + 1) <<< 21 < 2 ^ 30 := by
      rw [Nat.shiftLeft_eq]
      omega
    rw [← Nat.shiftLeft_add_eq_or_of_lt small, Nat.shiftLeft_eq, Nat.shiftLeft_eq]
    omega

theorem pgAddr_zero (l3 : Nat) : pgAddr 0 l3 0 = l3 * 2 ^ 30 := by
  unfold pgAddr
  rw [Nat.zero_shiftLeft, Nat.zero_shiftLeft, Nat.zero_or, Nat.or_zero, Nat.shiftLeft_eq]

/-- Up to where `find_next_possible_page` leads there is nothing. It leads back where an odd index
does not take the carry. -/
theorem findNextPossiblePage_skips {next : Nat} (found : findNextPossiblePage pml4 a = .ok next)
    (aBelow : a < sz4G) (low : a ≤ va) (high : va < next + pgSize) (below : va < sz4G) :
    (pml4.valueAt va).present = false := by
  have bottom (height : Nat) :
      ((Trie.absent : Trie 512 Pte height).value Pte.zero (walkPath va)).present = false := by
    rw [Trie.value_absent]
    rfl
  unfold findNextPossiblePage at found
  dsimp only at found
  rw [tableIndex_three aBelow] at found
  unfold Pml4.valueAt
  rw [Trie.value_entry, show walkPath va 3 = 0 from tableIndex_three below]
  split at found
  next noPdpt =>
    rw [noPdpt]
    exact bottom 2
  next frame pdpt isPdpt =>
    rw [isPdpt, Trie.value_node]
    split at found
    next noPgdir =>
      have isNext := Except.ok.inj found
      have bound : va < (a / 2 ^ 30 % 512 + 1) * 2 ^ 30 := by
        rw [← isNext] at high
        change va < pgAddr 0 (a / 2 ^ 30 % 512 + 1) 0 - pgSize + pgSize at high
        rw [pgAddr_zero] at high
        unfold pgSize at high
        omega
      have same : walkPath va 2 = tableIndex a 2 := by
        refine Fin.ext ?_
        change va / 2 ^ 30 % 512 = a / 2 ^ 30 % 512
        unfold sz4G at aBelow below
        omega
      rw [same, noPgdir]
      exact bottom 1
    next frame pgdir isPgdir =>
      split at found
      next noTable =>
        have isNext := Except.ok.inj found
        have l3Small : a / 2 ^ 30 % 512 < 4 := by
          unfold sz4G at aBelow
          omega
        have bound : va < (a / 2 ^ 30 % 512) * 2 ^ 30 + (a / 2 ^ 21 % 512 + 1) * 2 ^ 21 := by
          obtain ⟨upper, lower⟩ := pgAddr_le l3Small (Nat.mod_lt (a / 2 ^ 21) (by decide))
          rw [← isNext] at high
          change va < pgAddr 0 (a / 2 ^ 30 % 512) (a / 2 ^ 21 % 512 + 1) - pgSize + pgSize at high
          rw [Nat.sub_add_cancel lower] at high
          exact high.trans_le upper
        unfold sz4G at aBelow below
        have sameUpper : walkPath va 2 = tableIndex a 2 := by
          refine Fin.ext ?_
          change va / 2 ^ 30 % 512 = a / 2 ^ 30 % 512
          omega
        have same : walkPath va 1 = tableIndex a 1 := by
          refine Fin.ext ?_
          change va / 2 ^ 21 % 512 = a / 2 ^ 21 % 512
          omega
        rw [sameUpper, isPgdir, Trie.value_node, same, noTable]
        exact bottom 0
      next => cases found

theorem pgAddr_aligned (l4 l3 d : Nat) : pgAddr l4 l3 d % pgSize = 0 := by
  have shifted : ∀ index amount, 12 ≤ amount → (index <<< amount) % 2 ^ 12 = 0 := by
    intro index amount enough
    rw [Nat.shiftLeft_eq]
    exact Nat.mod_eq_zero_of_dvd (Dvd.dvd.mul_left (Nat.pow_dvd_pow 2 enough) index)
  change pgAddr l4 l3 d % 2 ^ 12 = 0
  unfold pgAddr
  rw [Nat.or_mod_two_pow, Nat.or_mod_two_pow, shifted l4 39 (by decide), shifted l3 30 (by decide),
    shifted d 21 (by decide)]
  rfl

theorem findNextPossiblePage_aligned {next : Nat} (found : findNextPossiblePage pml4 a = .ok next) :
    (next + pgSize) % pgSize = 0 := by
  have back : ∀ l4 l3 d, (pgAddr l4 l3 d - pgSize + pgSize) % pgSize = 0 := by
    grind [pgAddr_aligned, pgSize]
  unfold findNextPossiblePage at found
  dsimp only at found
  split at found
  · grind
  · grind

/-! ### The calls of `kfree` -/

/-- The loop of `deallocuvm`, with a list of its calls of `kfree` so far. -/
def deallocListed (top : Nat) :
    Nat → Nat → Pml4 → Ram → List Nat → Except Halt (Pml4 × Ram × List Nat)
  | 0, _, _, _, _ => .error .undefined
  | turns + 1, a, pml4, ram, calls =>
    if a < top then
      match walkpml4 pml4 a with
      | none => do
        let next ← findNextPossiblePage pml4 a
        deallocListed top turns (next + pgSize) pml4 ram calls
      | some pte =>
        if pte.present then
          if pte.ppn = 0 then .error (.panic "kfree")
          else do
            let ram ← ram.kfree pte.ppn
            deallocListed top turns (a + pgSize) (pml4.store (walkPath a) .zero) ram
              (calls ++ [pte.ppn])
        else deallocListed top turns (a + pgSize) pml4 ram calls
    else .ok (pml4, ram, calls)

/-- `deallocuvm(pml4, 0, oldsz, newsz)` with the calls of `kfree`, for a number of turns of its
loop. -/
def deallocuvmListed (turns : Nat) (ram : Ram) (pml4 : Pml4) (oldsz newsz : Nat) :
    Except Halt (Pml4 × Ram × List Nat) :=
  if oldsz ≤ newsz then .ok (pml4, ram, [])
  else deallocListed oldsz turns (pgRoundUp newsz) pml4 ram []

/-! ### What it is to do -/

/-- The addresses of the pages from `low` on, below `high`. -/
def pagesBetween (low high : Nat) : List Nat := List.range' low (pageSteps low high) pgSize

/-- The addresses in the range that the page table maps. -/
def Pml4.mappedBetween (pml4 : Pml4) (low high : Nat) : List Nat :=
  (pagesBetween low high).filter fun a => (pml4.valueAt a).present

/-- The pages in the range that the page table maps. -/
def Pml4.framesBetween (pml4 : Pml4) (low high : Nat) : List Nat :=
  (pml4.mappedBetween low high).map fun a => (pml4.valueAt a).ppn

/-- The entries of the mapped pages of a range are cleared, and no other one has changed. -/
def Pml4.ClearedBetween (pml4 after : Pml4) (low high : Nat) : Prop :=
  ∀ va < 2 ^ 48, walkpml4 after va =
    if va / pgSize * pgSize ∈ pml4.mappedBetween low high then some .zero else walkpml4 pml4 va

/-- The call ends, frees every mapped page of the range once, and clears these entries and no
other. -/
def TearsDown (ram : Ram) (pml4 : Pml4) (oldsz newsz : Nat) : Prop :=
  ∃ turns after ramAfter,
    deallocuvmListed turns ram pml4 oldsz newsz =
      .ok (after, ramAfter, pml4.framesBetween (pgRoundUp newsz) oldsz) ∧
    pml4.ClearedBetween after (pgRoundUp newsz) oldsz

/-! ### When it does -/

/-- The tests that `deallocuvm` and `kfree` make for a page. -/
def Boot.Frees (boot : Boot) (page : Nat) : Prop :=
  page ≠ 0 ∧ boot.kernelEnd ≤ page * pgSize ∧
    toUint64 (page * pgSize : Nat) < toUint64 (wrapInt (boot.npages * pgSize)) ∧
    page < boot.npages

/-- The last table of a gigabyte is missing, although its directory is there. -/
def Pml4.LastMissing (pml4 : Pml4) (gigabyte : Nat) : Prop :=
  pml4.gap (walkPath (gigabyte * 2 ^ 30 + 511 * 2 ^ 21)) = some 0

/-- The range has a page of an odd gigabyte below its last table, which is missing. -/
def Pml4.Caught (pml4 : Pml4) (low high : Nat) : Prop :=
  ∃ gigabyte, gigabyte % 2 = 1 ∧ pml4.LastMissing gigabyte ∧
    max low (gigabyte * 2 ^ 30 + 511 * 2 ^ 21) < min high ((gigabyte + 1) * 2 ^ 30)

/-! ### Pages of a range -/

section Pages

variable {low high va : Nat} {pml4 : Pml4}

theorem pagesBetween_cons (more : low < high) :
    pagesBetween low high = low :: pagesBetween (low + pgSize) high := by
  have steps : pageSteps low high = pageSteps (low + pgSize) high + 1 := by
    unfold pageSteps pgSize
    omega
  rw [pagesBetween, steps, List.range'_succ, pagesBetween]

theorem pagesBetween_nil (done : ¬ low < high) : pagesBetween low high = [] := by
  grind [pageSteps, pgSize, pagesBetween]

theorem mem_pagesBetween (aligned : low % pgSize = 0) :
    va ∈ pagesBetween low high ↔ low ≤ va ∧ va < high ∧ va % pgSize = 0 := by
  rw [pagesBetween, List.mem_range']
  unfold pageSteps
  unfold pgSize at *
  constructor
  · omega
  · rintro ⟨above, below, vaAligned⟩
    refine ⟨(va - low) / 4096, ?_, ?_⟩ <;> omega

theorem Pml4.mappedBetween_nil (done : ¬ low < high) : pml4.mappedBetween low high = [] := by
  rw [Pml4.mappedBetween, pagesBetween_nil done, List.filter_nil]

theorem Pml4.mappedBetween_present (more : low < high)
    (present : (pml4.valueAt low).present = true) :
    pml4.mappedBetween low high = low :: pml4.mappedBetween (low + pgSize) high := by
  grind [Pml4.mappedBetween, pagesBetween_cons]

/-- Pages that are not mapped can be passed over. -/
theorem Pml4.mappedBetween_skip {next : Nat} (aligned : low % pgSize = 0)
    (nextAligned : next % pgSize = 0) (forward : low ≤ next)
    (absent : ∀ va, low ≤ va → va < next → va < high → (pml4.valueAt va).present = false) :
    pml4.mappedBetween low high = pml4.mappedBetween next high := by
  induction steps : pageSteps low next generalizing low with
  | zero => grind [pageSteps, pgSize]
  | succ count inductionHypothesis =>
    have further : low + pgSize ≤ next := by grind [pageSteps, pgSize]
    by_cases more : low < high
    · rw [← inductionHypothesis (by rw [Nat.add_mod_right, aligned]) further
        (fun va above => absent va ((Nat.le_add_right _ _).trans above))
        (by unfold pageSteps at *; unfold pgSize at *; omega)]
      have notMapped := absent low le_rfl (by unfold pgSize at further; omega) more
      rw [Pml4.mappedBetween, pagesBetween_cons more, List.filter_cons_of_neg (by simp [notMapped]),
        Pml4.mappedBetween]
    · rw [Pml4.mappedBetween_nil more, Pml4.mappedBetween_nil (by omega)]

end Pages

/-! ### Where the loop goes next -/

section Next

variable {pml4 : Pml4} {a : Nat}

/-- Where `find_next_possible_page` and the step of the loop lead from a gap of a given height. -/
def gapEnd (a : Nat) : Nat → Nat
  | 0 => pgAddr (tableIndex a 3) (tableIndex a 2) (tableIndex a 1 + 1)
  | 1 => pgAddr (tableIndex a 3) (tableIndex a 2 + 1) 0
  | _ + 2 => pgAddr (tableIndex a 3 + 1) 0 0

theorem findNextPossiblePage_of_gap (gap : pml4.gap (walkPath a) = some level) :
    findNextPossiblePage pml4 a = .ok (gapEnd a level - pgSize) := by
  unfold findNextPossiblePage
  dsimp only
  cases pml4 with
  | absent =>
    rw [Trie.gap_absent] at gap
    rw [← Option.some_inj.mp gap]
    rfl
  | node frame entry =>
    rw [Trie.gap] at gap
    change (entry (tableIndex a 3)).gap (walkPath a) = some level at gap
    rw [Trie.entry]
    split
    next noPdpt =>
      rw [noPdpt, Trie.gap_absent] at gap
      rw [← Option.some_inj.mp gap]
      rfl
    next pdptFrame pdpt isPdpt =>
      rw [isPdpt, Trie.gap] at gap
      change (pdpt (tableIndex a 2)).gap (walkPath a) = some level at gap
      split
      next noPgdir =>
        rw [noPgdir, Trie.gap_absent] at gap
        rw [← Option.some_inj.mp gap]
        rfl
      next pgdirFrame pgdir isPgdir =>
        rw [isPgdir, Trie.gap] at gap
        change (pgdir (tableIndex a 1)).gap (walkPath a) = some level at gap
        split
        next noTable =>
          rw [noTable, Trie.gap_absent] at gap
          rw [← Option.some_inj.mp gap]
          rfl
        next tableFrame table isTable =>
          rw [isTable] at gap
          cases gap

theorem pgAddr_eq {d : Nat} (l3Small : l3 < 4) (dSmall : d < 512) (carries : d = 511 → l3 % 2 = 0) :
    pgAddr 0 l3 (d + 1) = l3 * 2 ^ 30 + (d + 1) * 2 ^ 21 := by
  unfold pgAddr
  rw [Nat.zero_shiftLeft, Nat.zero_or]
  by_cases last : d = 511
  · have even := carries last
    rw [last]
    interval_cases l3
    · decide
    · cases even
    · decide
    · cases even
  · grind [Nat.shiftLeft_eq, Nat.shiftLeft_add_eq_or_of_lt]

/-- From the last table of an odd gigabyte the way leads back. -/
theorem pgAddr_back (l3Small : l3 < 4) (odd : l3 % 2 = 1) :
    pgAddr 0 l3 (511 + 1) = l3 * 2 ^ 30 := by
  interval_cases l3
  · cases odd
  · decide
  · cases odd
  · decide

section Below

variable (below : a < sz4G)
include below

theorem gapEnd_zero : gapEnd a 0 = pgAddr 0 (a / 2 ^ 30) (a / 2 ^ 21 % 512 + 1) := by
  have l3 : a / 2 ^ 30 % 512 = a / 2 ^ 30 := by
    unfold sz4G at below
    omega
  show pgAddr (tableIndex a 3) (a / 2 ^ 30 % 512) (a / 2 ^ 21 % 512 + 1) = _
  rw [tableIndex_three below, l3]
  rfl

theorem gapEnd_one : gapEnd a 1 = (a / 2 ^ 30 + 1) * 2 ^ 30 := by
  have l3 : a / 2 ^ 30 % 512 = a / 2 ^ 30 := by
    unfold sz4G at below
    omega
  show pgAddr (tableIndex a 3) (a / 2 ^ 30 % 512 + 1) 0 = _
  rw [tableIndex_three below, l3]
  exact pgAddr_zero _

theorem gapEnd_two (level : Nat) : gapEnd a (level + 2) = 2 ^ 39 := by
  show pgAddr (tableIndex a 3 + 1) 0 0 = _
  rw [tableIndex_three below]
  decide

theorem le_gapEnd : pgSize ≤ gapEnd a level := by
  match level with
  | 0 => grind [gapEnd_zero, sz4G, pgAddr_le]
  | 1 =>
    rw [gapEnd_one below]
    unfold pgSize
    omega
  | level + 2 =>
    rw [gapEnd_two below]
    decide

theorem lt_gapEnd (carries : level = 0 → a / 2 ^ 21 % 512 = 511 → a / 2 ^ 30 % 2 = 0) :
    a < gapEnd a level := by
  match level with
  | 0 => grind [gapEnd_zero, sz4G, pgAddr_eq]
  | 1 =>
    rw [gapEnd_one below]
    omega
  | level + 2 => grind [gapEnd_two, sz4G]

end Below

end Next

/-! ### The pages that are freed -/

/-- `kfree` of a page that passes its tests. -/
theorem Boot.Frees.kfree {page : Nat} (frees : ram.memory.boot.Frees page) :
    ∃ after, ram.kfree page = .ok after ∧ after.memory.boot = ram.memory.boot := by
  obtain ⟨-, above, below, inMap⟩ := frees
  have aligned : ((page * pgSize : Nat) : Int) % pgSize = 0 := by
    exact_mod_cast Nat.mul_mod_left page pgSize
  have passes : ¬ (((page * pgSize : Nat) : Int) % pgSize ≠ 0 ∨
      ((page * pgSize : Nat) : Int) < ram.memory.boot.kernelEnd ∨
      toUint64 (wrapInt (ram.memory.boot.npages * pgSize)) ≤
        toUint64 ((page * pgSize : Nat) : Int)) := by
    omega
  have isPage : (page * pgSize) / pgSize = page := Nat.mul_div_cancel page (by decide)
  refine ⟨{ ram with memory := dropReference ram.memory page }, ?_, dropReference_boot _ _⟩
  rw [Ram.kfree, Xk.kfree, if_neg passes, Int.toNat_natCast, isPage, if_neg (not_le.mpr inMap)]
  rfl

theorem Boot.frees_of_kfree {after : Ram} {page : Nat} (isPage : page ≠ 0)
    (freed : ram.kfree page = .ok after) :
    ram.memory.boot.Frees page ∧ after.memory.boot = ram.memory.boot := by
  obtain ⟨memory, freed, isAfter⟩ := ok_of_bind freed
  rw [← Except.ok.inj isAfter]
  unfold Xk.kfree at freed
  split_ifs at freed with fails outside
  obtain rfl := Except.ok.inj freed
  rw [Int.toNat_natCast, Nat.mul_div_cancel page (show 0 < pgSize by decide)] at outside
  obtain ⟨-, above, below⟩ := not_or.mp fails |>.imp_right not_or.mp
  exact ⟨⟨isPage, Int.ofNat_le.mp (not_lt.mp above), not_le.mp below, not_le.mp outside⟩,
    dropReference_boot _ _⟩

/-- The loop has called `kfree` for pages that pass its tests only. -/
theorem deallocListed_frees {top turns : Nat} {after : Pml4} {ramAfter : Ram} {allCalls : List Nat}
    (ends : deallocListed top turns a pml4 ram calls = .ok (after, ramAfter, allCalls))
    (sofar : ∀ page ∈ calls, ram.memory.boot.Frees page) :
    ∀ page ∈ allCalls, ram.memory.boot.Frees page := by
  induction turns generalizing a pml4 ram calls with
  | zero => cases ends
  | succ turns inductionHypothesis =>
    unfold deallocListed at ends
    split_ifs at ends
    · cases walks : walkpml4 pml4 a with
      | none =>
        rw [walks] at ends
        obtain ⟨next, -, ends⟩ := ok_of_bind ends
        exact inductionHypothesis ends sofar
      | some pte =>
        rw [walks] at ends
        dsimp only at ends
        split_ifs at ends with present isZero
        · obtain ⟨freed, frees, ends⟩ := ok_of_bind ends
          obtain ⟨canFree, boot⟩ := Boot.frees_of_kfree isZero frees
          have listed := inductionHypothesis ends
          rw [boot] at listed
          refine listed fun page member => ?_
          rcases List.mem_append.mp member with before | last
          · exact sofar page before
          · grind
        · exact inductionHypothesis ends sofar
    · cases ends
      exact sofar

/-! ### The loop comes to its end -/

section Ends

variable {pml4 after : Pml4} {a low high : Nat}

/-- The gap of an address in the last table of its gigabyte. -/
theorem Pml4.lastMissing_of_gap (below : a < sz4G) (gap : pml4.gap (walkPath a) = some 0)
    (last : a / 2 ^ 21 % 512 = 511) : pml4.LastMissing (a / 2 ^ 30) := by
  unfold sz4G at below
  refine Trie.gap_congr gap fun above positive le => Fin.ext ?_
  show (a / 2 ^ 30 * 2 ^ 30 + 511 * 2 ^ 21) / 2 ^ (12 + 9 * above) % 512 =
    a / 2 ^ (12 + 9 * above) % 512
  interval_cases above <;> omega

theorem Pml4.Caught.mono {next : Nat} (forward : low ≤ next) (caught : pml4.Caught next high) :
    pml4.Caught low high := by
  obtain ⟨gigabyte, odd, missing, inside⟩ := caught
  exact ⟨gigabyte, odd, missing, (max_le_max_right _ forward).trans_lt inside⟩

theorem Pml4.caught_store (path : Path 512) (leaf : Pte) :
    Pml4.Caught (pml4.store path leaf) low high ↔ pml4.Caught low high := by
  unfold Pml4.Caught Pml4.LastMissing
  simp only [Trie.gap_store]

/-- Away from the traps the way leads forward, over pages that are not mapped. -/
theorem Pml4.find_forward (topBelow : high ≤ sz4G) (more : a < high)
    (aligned : a % pgSize = 0) (free : ¬ pml4.Caught a high) (walks : walkpml4 pml4 a = none) :
    ∃ next, findNextPossiblePage pml4 a = .ok next ∧ (next + pgSize) % pgSize = 0 ∧
      a < next + pgSize ∧ pml4.mappedBetween a high = pml4.mappedBetween (next + pgSize) high := by
  have below := more.trans_le topBelow
  obtain ⟨level, gap⟩ := Option.ne_none_iff_exists'.mp ((Trie.find_eq_none_iff _ _).mp walks)
  have finds := findNextPossiblePage_of_gap gap
  have nextAligned := findNextPossiblePage_aligned finds
  have forward : a < gapEnd a level := lt_gapEnd below fun isZero last => by
    rw [isZero] at gap
    by_contra odd
    refine free ⟨a / 2 ^ 30, by omega, Pml4.lastMissing_of_gap below gap last, ?_⟩
    unfold sz4G at below
    omega
  have passes : a < gapEnd a level - pgSize + pgSize := by omega
  refine ⟨_, finds, nextAligned, passes, Pml4.mappedBetween_skip aligned nextAligned passes.le ?_⟩
  intro va above before inside
  exact findNextPossiblePage_skips finds below above before (inside.trans_le topBelow)

/-- Two addresses with one path are in one page. -/
theorem page_of_samePath {other : Nat} (below : va < 2 ^ 48) (otherBelow : other < 2 ^ 48)
    (same : Path.Same 3 (walkPath va) (walkPath other)) : other / pgSize = va / pgSize := by
  have zero := congrArg Fin.val (same 0 (by decide))
  have one := congrArg Fin.val (same 1 (by decide))
  have two := congrArg Fin.val (same 2 (by decide))
  have three := congrArg Fin.val (same 3 (by decide))
  simp only [walkPath, tableIndex] at zero one two three
  unfold pgSize
  omega

theorem walkPath_page (va : Nat) : walkPath (va / pgSize * pgSize) = walkPath va := by
  funext level
  refine Fin.ext ?_
  show va / 2 ^ 12 * 2 ^ 12 / 2 ^ (12 + 9 * level) % 512 = va / 2 ^ (12 + 9 * level) % 512
  rw [pow_add, ← Nat.div_div_eq_div_mul, ← Nat.div_div_eq_div_mul,
    Nat.mul_div_cancel _ (Nat.two_pow_pos 12)]

/-- Clearing the entry of one page. -/
theorem walkpml4_clear (below : a < sz4G) (aligned : a % pgSize = 0)
    (walks : walkpml4 pml4 a ≠ none) (inTable : va < 2 ^ 48) :
    walkpml4 (pml4.store (walkPath a) .zero) va =
      if va / pgSize * pgSize = a then some .zero else walkpml4 pml4 va := by
  unfold sz4G at below
  split_ifs with isPage
  · refine Trie.find_store_same walks .zero fun level _ => ?_
    rw [← isPage, walkPath_page]
  · refine Trie.find_store_of_ne pml4 .zero fun same => isPage ?_
    rw [page_of_samePath (by omega) inTable same]
    exact Nat.div_mul_cancel (Nat.dvd_of_mod_eq_zero aligned)

/-- The entries behind a page that is cleared are as they were. -/
theorem Pml4.valueAt_clear_behind (topBelow : high ≤ sz4G) (more : a < high)
    (aligned : a % pgSize = 0) (behind : va ∈ pagesBetween (a + pgSize) high) :
    Pml4.valueAt (pml4.store (walkPath a) .zero) va = pml4.valueAt va := by
  grind [mem_pagesBetween, Pml4.valueAt_clear_of_ne, pgSize]

theorem Pml4.mappedBetween_clear (topBelow : high ≤ sz4G) (more : a < high)
    (aligned : a % pgSize = 0) :
    Pml4.mappedBetween (pml4.store (walkPath a) .zero) (a + pgSize) high =
      pml4.mappedBetween (a + pgSize) high := by
  refine List.filter_congr fun va behind => ?_
  rw [Pml4.valueAt_clear_behind topBelow more aligned behind]

theorem Pml4.framesBetween_clear (topBelow : high ≤ sz4G) (more : a < high)
    (aligned : a % pgSize = 0) :
    Pml4.framesBetween (pml4.store (walkPath a) .zero) (a + pgSize) high =
      pml4.framesBetween (a + pgSize) high := by
  rw [Pml4.framesBetween, Pml4.mappedBetween_clear topBelow more aligned, Pml4.framesBetween]
  refine List.map_congr_left fun va mapped => ?_
  rw [Pml4.valueAt_clear_behind topBelow more aligned (List.mem_of_mem_filter mapped)]

/-- A page is cleared, and then those behind it. -/
theorem Pml4.ClearedBetween.cons (topBelow : high ≤ sz4G) (more : a < high)
    (aligned : a % pgSize = 0) {pte : Pte} (walks : walkpml4 pml4 a = some pte)
    (present : pte.present = true)
    (rest : Pml4.ClearedBetween (pml4.store (walkPath a) .zero) after (a + pgSize) high) :
    pml4.ClearedBetween after a high := by
  have below := more.trans_le topBelow
  have found : walkpml4 pml4 a ≠ none := by grind
  intro va inTable
  rw [rest va inTable, walkpml4_clear below aligned found inTable,
    Pml4.mappedBetween_clear topBelow more aligned,
    Pml4.mappedBetween_present more (Pml4.valueAt_of_walk walks ▸ present)]
  by_cases isPage : va / pgSize * pgSize = a
  · rw [if_pos isPage, if_pos (List.mem_cons.mpr (Or.inl isPage)), ite_self]
  · simp_all

/-- Away from the traps the loop frees each mapped page once and clears its entry. -/
theorem deallocListed_ends {turns : Nat} (topBelow : high ≤ sz4G) (aligned : a % pgSize = 0)
    (free : ¬ pml4.Caught a high)
    (frees : ∀ page ∈ pml4.framesBetween a high, ram.memory.boot.Frees page)
    (enough : pageSteps a high < turns) :
    ∃ after ramAfter, deallocListed high turns a pml4 ram calls =
      .ok (after, ramAfter, calls ++ pml4.framesBetween a high) ∧
      pml4.ClearedBetween after a high := by
  induction turns generalizing a pml4 ram calls with
  | zero => exact absurd enough (Nat.not_lt_zero _)
  | succ turns inductionHypothesis =>
    unfold deallocListed
    by_cases more : a < high
    · rw [if_pos more]
      have nextAligned : (a + pgSize) % pgSize = 0 := by rw [Nat.add_mod_right, aligned]
      have fewer : ∀ next, a < next → next % pgSize = 0 → pageSteps next high < turns := by
        grind [pageSteps, pgSize]
      have passes : a < a + pgSize := Nat.lt_add_of_pos_right (by decide)
      cases walks : walkpml4 pml4 a with
      | none =>
        obtain ⟨next, finds, isAligned, forward, skips⟩ :=
          Pml4.find_forward topBelow more aligned free walks
        dsimp only
        rw [finds, ok_bind]
        unfold Pml4.framesBetween Pml4.ClearedBetween at *
        rw [skips] at frees ⊢
        exact inductionHypothesis isAligned (fun caught => free (caught.mono forward.le)) frees
          (fewer _ forward isAligned)
      | some pte =>
        have isValue := Pml4.valueAt_of_walk walks
        dsimp only
        by_cases present : pte.present = true
        · rw [if_pos present]
          have frames : pml4.framesBetween a high =
              pte.ppn :: pml4.framesBetween (a + pgSize) high := by
            grind [Pml4.framesBetween, Pml4.mappedBetween_present]
          rw [frames] at frees
          have canFree := frees pte.ppn List.mem_cons_self
          obtain ⟨ramNext, freed, boot⟩ := canFree.kfree
          rw [if_neg canFree.1, freed, ok_bind]
          have behind : Pml4.framesBetween (pml4.store (walkPath a) .zero) (a + pgSize) high = _ :=
            Pml4.framesBetween_clear topBelow more aligned
          have freesBehind : ∀ page ∈ pml4.framesBetween (a + pgSize) high,
              ramNext.memory.boot.Frees page := by
            grind
          rw [← behind] at freesBehind
          obtain ⟨after, ramAfter, ends, cleared⟩ := inductionHypothesis nextAligned
            (fun caught => free (((Pml4.caught_store _ _).mp caught).mono passes.le))
            freesBehind (fewer _ passes nextAligned)
          refine ⟨after, ramAfter, ?_, cleared.cons topBelow more aligned walks present⟩
          rw [ends, behind, List.append_assoc, List.singleton_append, frames]
        · rw [if_neg present]
          have skips : pml4.mappedBetween a high = pml4.mappedBetween (a + pgSize) high := by
            grind [Pml4.mappedBetween, pagesBetween_cons]
          unfold Pml4.framesBetween Pml4.ClearedBetween at *
          rw [skips] at frees ⊢
          exact inductionHypothesis nextAligned (fun caught => free (caught.mono passes.le)) frees
            (fewer _ passes nextAligned)
    · rw [if_neg more]
      have nothing : pml4.mappedBetween a high = [] := Pml4.mappedBetween_nil more
      refine ⟨pml4, ram, ?_, fun va _ => ?_⟩
      · rw [Pml4.framesBetween, nothing, List.map_nil, List.append_nil]
      · rw [nothing, if_neg List.not_mem_nil]

/-! ### The loop is caught -/

section Caught

variable {gigabyte level : Nat} (below : a < sz4G) (missing : pml4.LastMissing gigabyte)
include below missing

/-- In a gigabyte whose last table is missing, the gap of that table begins with it. -/
theorem Pml4.LastMissing.gap (behind : gigabyte * 2 ^ 30 + 511 * 2 ^ 21 ≤ a)
    (before : a < (gigabyte + 1) * 2 ^ 30) : pml4.gap (walkPath a) = some 0 := by
  unfold sz4G at below
  refine Trie.gap_congr missing fun above positive le => Fin.ext ?_
  show a / 2 ^ (12 + 9 * above) % 512 =
    (gigabyte * 2 ^ 30 + 511 * 2 ^ 21) / 2 ^ (12 + 9 * above) % 512
  interval_cases above <;> omega

/-- Before it every gap ends before it, since the directory of the gigabyte is there. -/
theorem Pml4.LastMissing.gapEnd_le (inTable : gigabyte < 4)
    (gap : pml4.gap (walkPath a) = some level)
    (before : a < gigabyte * 2 ^ 30 + 511 * 2 ^ 21) :
    gapEnd a level ≤ gigabyte * 2 ^ 30 + 511 * 2 ^ 21 := by
  have sameGap (agree : ∀ above, level < above → above ≤ 3 →
      walkPath (gigabyte * 2 ^ 30 + 511 * 2 ^ 21) above = walkPath a above) : level = 0 :=
    Option.some_inj.mp ((Trie.gap_congr gap agree).symm.trans missing)
  have top : walkPath (gigabyte * 2 ^ 30 + 511 * 2 ^ 21) 3 = walkPath a 3 := by
    refine Fin.ext ?_
    show (gigabyte * 2 ^ 30 + 511 * 2 ^ 21) / 2 ^ 39 % 512 = a / 2 ^ 39 % 512
    unfold sz4G at below
    omega
  match level with
  | 0 => grind [gapEnd_zero, pgAddr_le]
  | 1 =>
    have different : a / 2 ^ 30 ≠ gigabyte := by
      intro same
      refine one_ne_zero (sameGap fun above higher le => ?_)
      obtain rfl | rfl : above = 2 ∨ above = 3 := by omega
      · refine Fin.ext ?_
        show (gigabyte * 2 ^ 30 + 511 * 2 ^ 21) / 2 ^ 30 % 512 = a / 2 ^ 30 % 512
        omega
      · exact top
    rw [gapEnd_one below]
    omega
  | level + 2 => grind

end Caught

/-- A loop that is before the end of the trap never comes to its own end. -/
theorem deallocListed_caught {gigabyte turns : Nat} (topBelow : high ≤ sz4G)
    (odd : gigabyte % 2 = 1) (missing : pml4.LastMissing gigabyte) (aligned : a % pgSize = 0)
    (inside : max a (gigabyte * 2 ^ 30 + 511 * 2 ^ 21) < min high ((gigabyte + 1) * 2 ^ 30))
    (result : Pml4 × Ram × List Nat) :
    deallocListed high turns a pml4 ram calls ≠ .ok result := by
  induction turns generalizing a pml4 ram calls with
  | zero =>
    intro ends
    cases ends
  | succ turns inductionHypothesis =>
    obtain ⟨⟨more, before⟩, inRange, -⟩ := And.imp lt_min_iff.mp lt_min_iff.mp
      (max_lt_iff.mp inside)
    have below := more.trans_le topBelow
    have inTable : gigabyte < 4 := by
      unfold sz4G at topBelow
      omega
    have goesOn {next : Nat} {table : Pml4} {ramNext : Ram} {callsNext : List Nat}
        (isMissing : table.LastMissing gigabyte) (isAligned : next % pgSize = 0)
        (back : next ≤ gigabyte * 2 ^ 30 + 511 * 2 ^ 21) :
        deallocListed high turns next table ramNext callsNext ≠ .ok result := by
      grind
    have walksOn : walkpml4 pml4 a ≠ none → a + pgSize ≤ gigabyte * 2 ^ 30 + 511 * 2 ^ 21 := by
      intro found
      by_contra late
      refine found ((Trie.find_eq_none_iff _ _).mpr ?_)
      rw [missing.gap below (by unfold pgSize at *; omega) before]
      exact Option.some_ne_none 0
    have nextAligned : (a + pgSize) % pgSize = 0 := by rw [Nat.add_mod_right, aligned]
    unfold deallocListed
    rw [if_pos more]
    cases walks : walkpml4 pml4 a with
    | none =>
      obtain ⟨level, gap⟩ := Option.ne_none_iff_exists'.mp ((Trie.find_eq_none_iff _ _).mp walks)
      have finds := findNextPossiblePage_of_gap gap
      dsimp only
      rw [finds, ok_bind]
      refine goesOn missing (findNextPossiblePage_aligned finds) ?_
      rw [Nat.sub_add_cancel (le_gapEnd below)]
      rcases Nat.lt_or_ge a (gigabyte * 2 ^ 30 + 511 * 2 ^ 21) with early | late
      · exact missing.gapEnd_le below inTable gap early
      · obtain rfl := Option.some_inj.mp ((missing.gap below late before).symm.trans gap)
        have isGigabyte : a / 2 ^ 30 = gigabyte := by omega
        have isLast : a / 2 ^ 21 % 512 = 511 := by omega
        rw [gapEnd_zero below, isGigabyte, isLast, pgAddr_back inTable odd]
        exact Nat.le_add_right _ _
    | some pte =>
      rw [walks] at walksOn
      have back := walksOn (Option.some_ne_none pte)
      dsimp only
      split_ifs
      · intro ends
        cases ends
      · intro ends
        obtain ⟨ramNext, -, ends⟩ := ok_of_bind ends
        refine goesOn ?_ nextAligned back ends
        rw [Pml4.LastMissing, Trie.gap_store]
        exact missing
      · exact goesOn missing nextAligned back

end Ends

/-- **When user mappings are torn down.** For every page table, every memory, every `newsz` and every
`oldsz ≤ SZ_4G`, exactly when no odd gigabyte with a page in the range below its last table
has lost that table, and every mapped page of the range passes the tests of `kfree`. -/
theorem tearsDown_iff (ram : Ram) (pml4 : Pml4) {oldsz : Nat} (newsz : Nat) (small : oldsz ≤ sz4G) :
    TearsDown ram pml4 oldsz newsz ↔
      ¬ pml4.Caught (pgRoundUp newsz) oldsz ∧
        ∀ page ∈ pml4.framesBetween (pgRoundUp newsz) oldsz, ram.memory.boot.Frees page := by
  unfold TearsDown deallocuvmListed
  by_cases same : oldsz ≤ newsz
  · have empty : ¬ pgRoundUp newsz < oldsz := not_lt.mpr (same.trans (le_pgRoundUp newsz))
    have nothing : pml4.mappedBetween (pgRoundUp newsz) oldsz = [] := Pml4.mappedBetween_nil empty
    have noFrames : pml4.framesBetween (pgRoundUp newsz) oldsz = [] := by
      rw [Pml4.framesBetween, nothing, List.map_nil]
    simp only [if_pos same, noFrames]
    refine iff_of_true ⟨0, pml4, ram, rfl, fun va _ => ?_⟩
      ⟨fun caught => ?_, fun page member => absurd member List.not_mem_nil⟩
    · rw [nothing, if_neg List.not_mem_nil]
    · obtain ⟨gigabyte, -, -, inside⟩ := caught
      exact empty ((le_max_left _ _).trans_lt (inside.trans_le (min_le_left _ _)))
  · simp only [if_neg same]
    constructor
    · rintro ⟨turns, after, ramAfter, ends, -⟩
      refine ⟨fun caught => ?_, ?_⟩
      · obtain ⟨gigabyte, odd, missing, inside⟩ := caught
        exact deallocListed_caught small odd missing (pgRoundUp_aligned newsz) inside _ ends
      · exact deallocListed_frees ends fun page member => absurd member List.not_mem_nil
    · rintro ⟨free, frees⟩
      exact ⟨pageSteps (pgRoundUp newsz) oldsz + 1,
        deallocListed_ends small (pgRoundUp_aligned newsz) free frees (Nat.lt_succ_self _)⟩

theorem entries_pos : 0 < 512 := by decide

theorem one_lt_entries : 1 < 512 := by decide

/-- A page table that maps one page, at address 0. -/
def onePage : Pml4 :=
  .node 1 (Function.update (fun _ => .absent) ⟨0, entries_pos⟩ (.node 2
    (Function.update (fun _ => .absent) ⟨0, entries_pos⟩ (.node 3
      (Function.update (fun _ => .absent) ⟨0, entries_pos⟩ (.leaves 4
        (Function.update (fun _ => .zero) ⟨0, entries_pos⟩ ⟨⟨true, true, true⟩, 20⟩)))))))

theorem onePage_frames : onePage.framesBetween (pgRoundUp 0) pgSize = [20] := by decide

theorem tearsDown_iff_onePage : TearsDown smallRam onePage pgSize 0 := by
  refine (tearsDown_iff smallRam onePage 0 (by decide)).mpr
    ⟨fun caught => ?_, fun page member => ?_⟩
  · obtain ⟨gigabyte, odd, -, inside⟩ := caught
    unfold pgSize at inside
    omega
  · rw [onePage_frames, List.mem_singleton] at member
    rw [member]
    refine ⟨?_, ?_, ?_, ?_⟩ <;> decide

/-- A page table with one directory, for the second gigabyte, and no table in it. -/
def emptyDirectory : Pml4 :=
  .node 1 (Function.update (fun _ => .absent) ⟨0, entries_pos⟩ (.node 2
    (Function.update (fun _ => .absent) ⟨1, one_lt_entries⟩ (.node 3 fun _ => .absent))))

/-- The loop over two gigabytes does not end. -/
theorem emptyDirectory_caught : ¬ TearsDown smallRam emptyDirectory (2 ^ 31) 0 := by
  rintro ⟨turns, after, ramAfter, ends, -⟩
  have missing : emptyDirectory.LastMissing 1 := by rfl
  exact deallocListed_caught (by decide) (by decide) missing (by decide) (by decide) _ ends

end Xk
