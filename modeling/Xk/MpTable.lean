/-
This file models how `mpinit` of `kernel/mp.c` walks over the multiprocessor table of the firmware,
and the checks of `mpconfig` before it. The bytes are numbered from the beginning of the table, and
go on behind its end: the last entry may reach over it.

The cursor moves by the length of each entry of a known type. On an entry of another type the
`break` leaves the `switch` only, so that the loop comes back to the same entry for ever.
-/

import Xk.Bytes

namespace Xk.MpTable

/-- `NCPU`. -/
def maxCpus : Nat := 8

/-- `sizeof(struct mpconf)`. -/
def headerBytes : Nat := 44

/-- The variables that `mpinit` sets: the `apicid` of the processors, one for each below `ncpu`, and
`lapic`, where `none` is the null pointer. -/
structure Mp where
  ismp : Bool
  apicids : List UInt8
  ncpu : Nat
  lapic : Option Nat
  ioapicid : UInt8
  imcr : Bool

/-- The variables before `mpinit`. -/
def Mp.boot : Mp := ⟨false, [], 0, none, 0, false⟩

/-- `conf->length`. -/
def length (table : Nat → UInt8) : Nat := Bytes.value (Bytes.load table 4 2)

/-- `sum(addr, len)`. -/
def sum (bytes : List UInt8) : UInt8 := bytes.foldl (· + ·) 0

/-- The checks of `mpconfig` on the table: signature, version and checksum. -/
def mpconfig (table : Nat → UInt8) : Bool :=
  Bytes.load table 0 4 = [80, 67, 77, 80] ∧ (table 6 = 1 ∨ table 6 = 4) ∧
    sum (Bytes.load table 0 (length table)) = 0

/-- How far the `switch` moves the cursor; not at all for an unknown type. -/
def entryBytes (type : UInt8) : Nat := if type = 0 then 20 else if type ≤ 4 then 8 else 0

/-- What the `switch` does with the entry at `p`. -/
def enter (table : Nat → UInt8) (p : Nat) (mp : Mp) : Mp :=
  if table p = 0 then
    if mp.ncpu < maxCpus then
      { mp with apicids := mp.apicids ++ [table (p + 1)], ncpu := mp.ncpu + 1 }
    else mp
  else if table p = 2 then { mp with ioapicid := table (p + 1) }
  else if table p ≤ 4 then mp
  else { mp with ismp := false }

/-- The loop of `mpinit` from `p` on; `none` when it has not ended after the given number of
turns. -/
def entryLoop (table : Nat → UInt8) : Nat → Nat → Mp → Option Mp
  | 0, _, _ => none
  | turns + 1, p, mp =>
    if p < length table then
      entryLoop table turns (p + entryBytes (table p)) (enter table p mp)
    else some mp

/-- The variables before the loop. -/
def Mp.start (table : Nat → UInt8) : Mp :=
  { Mp.boot with ismp := true, lapic := some (Bytes.value (Bytes.load table 36 4)) }

/-- What `mpinit` does after the loop. -/
def Mp.settle (mp : Mp) (imcrp : UInt8) : Mp :=
  if mp.ismp = false then { mp with ncpu := 1, lapic := none, ioapicid := 0 }
  else if imcrp ≠ 0 then { mp with imcr := true }
  else mp

/-- `mpinit()`, for the table and the byte `imcrp` of the structure that points at it. -/
def mpinit (table : Nat → UInt8) (imcrp : UInt8) (turns : Nat) : Option Mp :=
  if mpconfig table then
    (entryLoop table turns headerBytes (.start table)).map (Mp.settle · imcrp)
  else some .boot

/-- The places at which the loop looks for an entry. -/
inductive Visits (table : Nat → UInt8) : Nat → Prop
  | first : Visits table headerBytes
  | next {p : Nat} (visits : Visits table p) (inside : p < length table) :
    Visits table (p + entryBytes (table p))

/-- An entry of unknown type is in the way. -/
def Unknown (table : Nat → UInt8) (p : Nat) : Prop :=
  Visits table p ∧ p < length table ∧ 4 < table p

/-- `mpinit` returns with at most `NCPU` processors, and with the settings for a single processor if
there is an entry of unknown type. -/
def Parses (table : Nat → UInt8) (imcrp : UInt8) : Prop :=
  ∃ turns after, mpinit table imcrp turns = some after ∧ after.ncpu ≤ maxCpus ∧
    ((∃ p, Unknown table p) → after.ismp = false ∧ after.ncpu = 1 ∧ after.lapic = none)

section Loop

variable {table : Nat → UInt8}

theorem enter_ncpu {mp : Mp} (few : mp.ncpu ≤ maxCpus) (p : Nat) :
    (enter table p mp).ncpu ≤ maxCpus := by
  unfold enter
  split_ifs with processor room
  · exact room
  · exact few
  · exact few
  · exact few
  · exact few

/-- Every entry of a known type moves the cursor, so that the loop ends. -/
theorem entryLoop_ends (known : ¬ ∃ p, Unknown table p) {turns p : Nat} {mp : Mp}
    (visits : Visits table p) (few : mp.ncpu ≤ maxCpus) (enough : length table ≤ p + turns) :
    ∃ after, entryLoop table (turns + 1) p mp = some after ∧ after.ncpu ≤ maxCpus := by
  induction turns generalizing p mp with
  | zero => exact ⟨mp, if_neg (Nat.not_lt.mpr enough), few⟩
  | succ turns inductionHypothesis =>
    rw [entryLoop]
    split_ifs with inside
    · have moves : 8 ≤ entryBytes (table p) := by
        have isKnown : table p ≤ 4 := UInt8.not_lt.mp fun above => known ⟨p, visits, inside, above⟩
        unfold entryBytes
        split_ifs <;> decide
      exact inductionHypothesis (visits.next inside) (enter_ncpu few p) (by omega)
    · exact ⟨mp, rfl, few⟩

/-- On an entry of unknown type the loop stays. -/
theorem entryLoop_stays {p : Nat} (inside : p < length table) (unknown : 4 < table p)
    (turns : Nat) (mp : Mp) : entryLoop table turns p mp = none := by
  have stays : entryBytes (table p) = 0 := by
    have notZero : table p ≠ 0 := fun isZero => absurd unknown (by rw [isZero]; decide)
    rw [entryBytes, if_neg notZero, if_neg (UInt8.not_le.mpr unknown)]
  induction turns generalizing mp with
  | zero => rfl
  | succ turns inductionHypothesis =>
    rw [entryLoop, if_pos inside, stays]
    exact inductionHypothesis _

/-- A loop that ends has gone through every place that it visits. -/
theorem entryLoop_visits {turns p : Nat} {mp after : Mp}
    (ends : entryLoop table turns headerBytes mp = some after) (visits : Visits table p) :
    ∃ turns mp, entryLoop table turns p mp = some after := by
  induction visits with
  | first => exact ⟨turns, mp, ends⟩
  | @next p visits inside inductionHypothesis =>
    obtain ⟨turns, mp, ends⟩ := inductionHypothesis
    cases turns with
    | zero => cases ends
    | succ turns =>
      rw [entryLoop, if_pos inside] at ends
      exact ⟨turns, _, ends⟩

theorem not_parses_of_unknown {imcrp : UInt8} (accepted : mpconfig table = true) {p : Nat}
    (unknown : Unknown table p) : ¬ Parses table imcrp := by
  rintro ⟨turns, after, returns, -⟩
  rw [mpinit, if_pos accepted] at returns
  obtain ⟨mp, loops, -⟩ := Option.map_eq_some_iff.mp returns
  obtain ⟨later, current, ends⟩ := entryLoop_visits loops unknown.1
  rw [entryLoop_stays unknown.2.1 unknown.2.2] at ends
  cases ends

end Loop

/-- For a table that `mpconfig` accepts, `mpinit` does what it should exactly if the loop comes to
no entry of unknown type. -/
theorem parses_iff (table : Nat → UInt8) (imcrp : UInt8) (accepted : mpconfig table = true) :
    Parses table imcrp ↔ ¬ ∃ p, Unknown table p := by
  constructor
  · rintro parses ⟨p, unknown⟩
    exact not_parses_of_unknown accepted unknown parses
  · intro known
    obtain ⟨mp, loops, few⟩ := @entryLoop_ends table known (length table) headerBytes
      (.start table) .first (Nat.zero_le maxCpus) (Nat.le_add_left (length table) headerBytes)
    refine ⟨length table + 1, mp.settle imcrp, ?_, ?_, fun unknown => absurd unknown known⟩
    · rw [mpinit, if_pos accepted, loops, Option.map_some]
    · unfold Mp.settle
      split_ifs
      · exact (by decide : 1 ≤ maxCpus)
      · exact few
      · exact few

/-- A table with the given bytes behind its header, which has a checksum. -/
def tableOf (size version checksum : UInt8) (entries : List UInt8) (address : Nat) : UInt8 :=
  ([80, 67, 77, 80, size, 0, version, checksum] ++ List.replicate 36 0 ++ entries).getD address 0

/-- One processor. -/
theorem parses_iff_oneCpu : Parses (tableOf 64 1 143 (List.replicate 20 0)) 0 := by
  refine (parses_iff _ 0 (by decide +kernel)).mpr ?_
  rintro ⟨p, visits, inside, above⟩
  have size : length (tableOf 64 1 143 (List.replicate 20 0)) = 64 := by decide +kernel
  have isEntry : tableOf 64 1 143 (List.replicate 20 0) 44 = 0 := by decide
  rw [size] at inside
  have places : p = 44 ∨ 64 ≤ p := by
    clear inside above
    induction visits with
    | first => exact Or.inl rfl
    | @next p visits within inductionHypothesis =>
      have below : p < 64 := within.trans_eq size
      obtain rfl : p = 44 := by omega
      rw [isEntry]
      exact Or.inr le_rfl
  rcases places with rfl | behind
  · rw [isEntry] at above
    exact absurd above (by decide)
  · exact absurd inside (Nat.not_lt.mpr behind)

/-- One entry of type 5: the loop does not end. -/
theorem unknownEntry_stays : mpconfig (tableOf 52 4 147 [5]) = true ∧
    ¬ Parses (tableOf 52 4 147 [5]) 0 :=
  ⟨by decide, not_parses_of_unknown (by decide) ⟨.first, by decide, by decide⟩⟩

end Xk.MpTable
