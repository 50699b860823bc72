/-
This file is about how the allocator of `user/umalloc.c` and the kernel agree on the size of the
heap of a process. `morecore` counts in headers, multiplies in 64 bits, and passes the product to
`sbrk` as an `int`; `sys_sbrk` takes a negative `int` for 0. The answer is an `int` again.
-/

import Xk.Invalidate
import Xk.UserMemory

namespace Xk

open Outcome

/-! ### The request -/

/-- `sizeof(Header)`. -/
def headerSize : Nat := 16

/-- The headers that `malloc(nbytes)` takes: `sizeof` makes the sum one of 64 bits. -/
def nunits (nbytes : UInt32) : Nat := (nbytes.toNat + headerSize - 1) / headerSize + 1

/-- The headers that `morecore(nu)` asks for. -/
def coreUnits (nu : Nat) : Nat := if nu < 4096 then 4096 else nu

/-- The argument of `sbrk` in `morecore(nu)`. -/
def coreRequest (nu : Nat) : Int32 := Int32.ofInt (coreUnits nu * headerSize)

/-- The heap ends below 2 GiB, where the stack begins. -/
def Vspace.HeapBelowStack (vs : Vspace) : Prop :=
  (vs.regions vrHeap).vaBase + (vs.regions vrHeap).size < sz2G

/-- Where the kernel's answer to `morecore(nu)` is not `(char *)-1`, so that the list is not null,
the heap has grown by what `morecore` asked for, and the block that it puts into the list lies below
the new break. -/
def Grows (heapField : Nat) (ram : Ram) (vs : Vspace) (nu : Nat) : Prop :=
  ∀ answer after ramAfter,
    sysSbrk heapField ram vs (coreRequest nu) = .ok (answer, after, ramAfter) →
    toUint64 answer ≠ toUint64 (-1) →
      (vs.regions vrHeap).size + coreUnits nu * headerSize ≤ (after.regions vrHeap).size ∧
      toUint64 answer + coreUnits nu * headerSize ≤
        (after.regions vrHeap).vaBase + (after.regions vrHeap).size

/-! ### The bounds of the regions -/

section Bounds

variable {vr found : Vregion} {ram after : Ram}

theorem va2vpageInfo_bounds {va : Nat} {vpi : Option Nat}
    (finds : va2vpageInfo ram vr va = .ok (vpi, found, after)) :
    found.toRegionBounds = vr.toRegionBounds := by
  obtain ⟨⟨first, firstRam⟩, isFirst, rest⟩ := ok_of_bind finds
  obtain ⟨_, isFound⟩ := ok_pair rest
  rw [← (Prod.mk.inj isFound).1]
  show first.toRegionBounds = _
  unfold firstVpiPage at isFirst
  split_ifs at isFirst
  · split at isFirst
    · cases isFirst
    · rw [← (ok_pair isFirst).1]
  · rw [← (ok_pair isFirst).1]

theorem addmapLoop_bounds {steps a : Nat} {failed : Option Nat}
    (adds : addmapLoop true true steps a vr ram = .ok (failed, found, after)) :
    found.toRegionBounds = vr.toRegionBounds := by
  induction steps generalizing a vr ram with
  | zero => rw [(Prod.mk.inj (ok_pair adds).2).1]
  | succ steps inductionHypothesis =>
    obtain ⟨⟨vpi, next, nextRam⟩, finds, rest⟩ := ok_of_bind adds
    have same := va2vpageInfo_bounds finds
    have stops {place : Nat} {ramAfter : Ram}
        (isEnd : (.ok (some place, next, ramAfter) : Except Halt _) = .ok (failed, found, after)) :
        found.toRegionBounds = vr.toRegionBounds := by
      rw [← (Prod.mk.inj (ok_pair isEnd).2).1, same]
    cases vpi with
    | none => exact stops rest
    | some idx =>
      dsimp only at rest
      split at rest
      · exact stops rest
      · exact (inductionHypothesis rest).trans same

theorem vregionaddmap_bounds {fromVa sz : Nat} {res : Int}
    (adds : vregionaddmap ram vr fromVa sz true true = .ok (res, found, after))
    (succeeds : ¬ res < 0) : found.toRegionBounds = vr.toRegionBounds := by
  unfold vregionaddmap at adds
  dsimp only at adds
  split_ifs at adds
  · obtain ⟨rfl, _⟩ := ok_pair adds
    exact absurd (by decide) succeeds
  · rw [(Prod.mk.inj (ok_pair adds).2).1]
  · obtain ⟨⟨failed, grown, grownRam⟩, loops, rest⟩ := ok_of_bind adds
    cases failed with
    | none =>
      obtain ⟨_, isFound⟩ := ok_pair rest
      rw [← (Prod.mk.inj isFound).1]
      exact addmapLoop_bounds loops
    | some a =>
      obtain ⟨_, _, isEnd⟩ := ok_of_bind rest
      obtain ⟨rfl, _⟩ := ok_pair isEnd
      exact absurd (by decide) succeeds

theorem invalidateLoop_bounds {steps start : Nat} {pgtbl mapped : Pml4}
    (maps : invalidateLoop steps start pgtbl vr ram = .ok (mapped, found, after)) :
    found.toRegionBounds = vr.toRegionBounds := by
  induction steps generalizing start pgtbl vr ram with
  | zero => rw [(Prod.mk.inj (ok_pair maps).2).1]
  | succ steps inductionHypothesis =>
    obtain ⟨⟨vpi, next, nextRam⟩, finds, rest⟩ := ok_of_bind maps
    cases vpi with
    | none => cases rest
    | some idx =>
      obtain ⟨_, _, rest⟩ := ok_of_bind rest
      exact (inductionHypothesis rest).trans (va2vpageInfo_bounds finds)

theorem invalidateRegion_bounds {vs mapped : Vspace} {index : Fin 3}
    (maps : invalidateRegion ram vs index = .ok (mapped, after)) (region : Fin 3) :
    (mapped.regions region).toRegionBounds = (vs.regions region).toRegionBounds := by
  unfold invalidateRegion at maps
  dsimp only at maps
  split_ifs at maps
  obtain ⟨⟨pgtbl, found, _⟩, loops, rest⟩ := ok_of_bind maps
  obtain ⟨rfl, _⟩ := ok_pair rest
  show (Function.update vs.regions index found region).toRegionBounds = _
  by_cases same : region = index
  · rw [same, Function.update_self]
    exact invalidateLoop_bounds loops
  · rw [Function.update_of_ne same]

theorem vspaceinvalidate_bounds {vs mapped : Vspace}
    (maps : vspaceinvalidate ram vs = .ok (mapped, after)) (region : Fin 3) :
    (mapped.regions region).toRegionBounds = (vs.regions region).toRegionBounds := by
  obtain ⟨⟨pgtbl, freed⟩, _, rest⟩ := ok_of_bind maps
  have folds : ∀ (indices : List (Fin 3)) (current : Vspace) (currentRam : Ram),
      indices.foldlM (fun now index => invalidateRegion now.2 now.1 index) (current, currentRam) =
        .ok (mapped, after) →
      (mapped.regions region).toRegionBounds = (current.regions region).toRegionBounds := by
    intro indices
    induction indices with
    | nil =>
      intro current currentRam isEnd
      rw [← (ok_pair isEnd).1]
    | cons index indices inductionHypothesis =>
      intro current currentRam turns
      rw [List.foldlM_cons] at turns
      obtain ⟨⟨next, nextRam⟩, maps, rest⟩ := ok_of_bind turns
      exact (inductionHypothesis next nextRam rest).trans (invalidateRegion_bounds maps region)
  exact folds _ { vs with pgtbl := pgtbl } freed rest

end Bounds

/-! ### Growing by what was asked for -/

/-- What `sys_sbrk` makes of the request: the number of bytes if it is an `int`; otherwise the `int`
is negative or 0, or 16 for the largest requests. -/
theorem sysSbrk_coreRequest (heapField : Nat) (ram : Ram) (vs : Vspace) (nbytes : UInt32) :
    sysSbrk heapField ram vs (coreRequest (nunits nbytes)) = sbrk heapField ram vs
      (if coreUnits (nunits nbytes) * headerSize < 2 ^ 31 then
        ((coreUnits (nunits nbytes) * headerSize : Nat) : Int)
      else if nunits nbytes = 2 ^ 28 + 1 then 16 else 0) := by
  have few : nunits nbytes ≤ 2 ^ 28 + 1 := by
    have bound := nbytes.toNat_lt
    unfold nunits headerSize
    omega
  have units : coreUnits (nunits nbytes) = 4096 ∨
      coreUnits (nunits nbytes) = nunits nbytes ∧ 4096 ≤ nunits nbytes := by
    unfold coreUnits
    split_ifs <;> omega
  have range : (Int32.size : Int) = 2 ^ 32 := rfl
  rw [sysSbrk, coreRequest, Int32.toInt_ofInt, Int.bmod_def, range]
  refine congrArg (sbrk heapField ram vs) ?_
  unfold headerSize
  split_ifs <;> omega

/-- A request that is an `int`. -/
theorem grows_of_lt {heapField : Nat} {ram : Ram} {vs : Vspace} {nbytes : UInt32}
    (fits : coreUnits (nunits nbytes) * headerSize < 2 ^ 31) (below : vs.HeapBelowStack) :
    Grows heapField ram vs (nunits nbytes) := by
  intro answer after ramAfter grows accepted
  rw [sysSbrk_coreRequest, if_pos fits] at grows
  have positive : 0 < coreUnits (nunits nbytes) * headerSize := by
    unfold coreUnits headerSize
    split_ifs <;> omega
  generalize coreUnits (nunits nbytes) * headerSize = bytes at *
  unfold Vspace.HeapBelowStack sz2G at below
  rw [sbrk] at grows
  dsimp only at grows
  rw [if_pos (by omega), Int.toNat_natCast] at grows
  obtain ⟨⟨res, vr, added⟩, adds, rest⟩ := ok_of_bind grows
  dsimp only at rest
  split_ifs at rest with failed
  · obtain ⟨rfl, _⟩ := ok_pair rest
    exact absurd rfl accepted
  · have sameBounds : vr.toRegionBounds = (vs.regions vrHeap).toRegionBounds :=
      vregionaddmap_bounds adds failed
    obtain ⟨⟨mapped, mappedRam⟩, maps, isEnd⟩ := ok_of_bind rest
    obtain ⟨rfl, isAfter⟩ := ok_pair isEnd
    obtain ⟨rfl, rfl⟩ := Prod.mk.inj isAfter
    have bounds := vspaceinvalidate_bounds maps vrHeap
    dsimp only [Vspace.setRegion] at bounds
    rw [Function.update_self] at bounds
    have base : (mapped.regions vrHeap).vaBase = (vs.regions vrHeap).vaBase := by
      rw [bounds, ← sameBounds]
    have size : (mapped.regions vrHeap).size = ((vs.regions vrHeap).size + bytes) % 2 ^ 64 := by
      rw [bounds, ← sameBounds]
    rw [base, size]
    have isBreak :
        wrapInt (((vs.regions vrHeap).vaBase + (vs.regions vrHeap).size) % 2 ^ 64 : Nat) =
          ((vs.regions vrHeap).vaBase + (vs.regions vrHeap).size : Nat) := by
      unfold wrapInt
      omega
    rw [isBreak]
    unfold toUint64
    omega

/-! ### Growing by less -/

/-- A heap of 16 bytes, on one page. -/
def smallHeap : Vspace where
  regions := ![⟨⟨.up, 0, 0⟩, []⟩,
    ⟨⟨.up, 0, 16⟩, [⟨3, fun _ => ⟨true, 4, true, true, false⟩⟩]⟩, ⟨⟨.down, sz2G, 0⟩, []⟩]
  pgtbl := .node 7 fun _ => .absent

theorem smallHeap_below : smallHeap.HeapBelowStack := by
  unfold Vspace.HeapBelowStack
  decide

theorem smallHeap_sbrk : ∀ n ∈ [0, 16], ((sbrk 0 smallRam smallHeap n).toOption.map
    fun grown => (grown.1, (grown.2.1.regions vrHeap).size)) = some (16, 16 + n.toNat) := by
  decide +kernel

theorem not_grows_of_le {nbytes : UInt32}
    (large : 2 ^ 31 ≤ coreUnits (nunits nbytes) * headerSize) :
    ¬ Grows 0 smallRam smallHeap (nunits nbytes) := by
  intro grows
  obtain ⟨n, member, isN⟩ : ∃ n ∈ [(0 : Int), 16],
      sysSbrk 0 smallRam smallHeap (coreRequest (nunits nbytes)) = sbrk 0 smallRam smallHeap n := by
    rw [sysSbrk_coreRequest, if_neg (Nat.not_lt.mpr large)]
    split_ifs
    · exact ⟨16, by decide, rfl⟩
    · exact ⟨0, by decide, rfl⟩
  obtain ⟨⟨answer, after, ramAfter⟩, returns, isGrown⟩ :=
    Option.map_eq_some_iff.mp (smallHeap_sbrk n member)
  obtain ⟨isAnswer, size⟩ := Prod.mk.inj isGrown
  have grown := (grows answer after ramAfter (by
    rw [isN]
    exact ok_of_toOption returns) (by
      dsimp only at isAnswer
      rw [isAnswer]
      decide)).1
  have small : n ≤ 16 := by
    rcases List.mem_pair.mp member with rfl | rfl <;> decide
  have before : (smallHeap.regions vrHeap).size = 16 := rfl
  rw [before] at grown
  dsimp only at size
  omega

/-- Whether the kernel gives what `malloc(nbytes)` counts on, for every heap that ends below the
stack: exactly where the bytes that `morecore` asks for are an `int`. -/
theorem morecore_grows_iff (nbytes : UInt32) :
    (∀ heapField ram vs, vs.HeapBelowStack → Grows heapField ram vs (nunits nbytes)) ↔
      coreUnits (nunits nbytes) * headerSize < 2 ^ 31 := by
  constructor
  · intro grows
    by_contra large
    exact not_grows_of_le (Nat.le_of_not_lt large) (grows 0 smallRam smallHeap smallHeap_below)
  · exact fun fits heapField ram vs below => grows_of_lt fits below

/-- `malloc(0x80000000)`: the request is negative, and the heap does not grow. -/
theorem morecore_negative :
    smallHeap.HeapBelowStack ∧ ¬ Grows 0 smallRam smallHeap (nunits 0x80000000) :=
  ⟨smallHeap_below, not_grows_of_le (by decide)⟩

end Xk
