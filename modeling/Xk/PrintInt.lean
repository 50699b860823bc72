/-
This file compares the two functions `printint64`, of `kernel/console.c` for `cprintf` and of
`user/printf.c` for `printf`. Both store the digits of a number from the last one on in a buffer and
send the buffer backwards. The parameter `xx` is an `int64_t` in the kernel and an `int` in the user
library, which cuts the value off.

What is sent is read back as a numeral. A signed number whose magnitude the parameter has room for
comes out as it went in.
-/

import Xk.Params

namespace Xk.PrintInt

/-! ### The two functions -/

/-- The string `digits`. -/
def digits : List Char :=
  ['0', '1', '2', '3', '4', '5', '6', '7', '8', '9', 'a', 'b', 'c', 'd', 'e', 'f']

/-- The loop `do { buf[i++] = digits[x % base]; } while ((x /= base) != 0)`: what it adds to the
buffer. The number of turns is a limit. -/
def digitLoop (base : Nat) : Nat → Nat → List Char
  | 0, _ => []
  | turns + 1, x =>
    digits.getD (x % base) default :: if x / base ≠ 0 then digitLoop base turns (x / base) else []

/-- The buffer, from its first place on, for a number and a sign. -/
def buffer (base : Nat) (x : UInt64) (negative : Bool) : List Char :=
  digitLoop base 64 x.toNat ++ if negative then ['-'] else []

/-- `printint64(xx, base, sign)` of the kernel: the buffer it fills. -/
def kernelBuffer (xx : Int64) (base : Nat) (sign : Bool) : List Char :=
  if sign ∧ xx < 0 then buffer base (-xx).toUInt64 true else buffer base xx.toUInt64 false

/-- `printint64(fd, xx, base, sgn)` of the user library: the buffer it fills. -/
def userBuffer (xx : Int32) (base : Nat) (sgn : Bool) : List Char :=
  if sgn ∧ xx < 0 then buffer base (-xx).toInt64.toUInt64 true
  else buffer base xx.toInt64.toUInt64 false

/-- The conversions that print a 64-bit value. -/
inductive Conversion
  | ld
  | lx
  | lp
deriving DecidableEq

/-- The base that `cprintf` and `printf` pass. -/
def Conversion.base : Conversion → Nat
  | .ld => 10
  | .lx | .lp => 16

/-- The flag that they pass. -/
def Conversion.sign : Conversion → Bool
  | .ld => true
  | .lx | .lp => false

/-- The characters that `cprintf` sends for a conversion: the loop `while (--i >= 0)`. -/
def cprintfChars (conversion : Conversion) (v : Int64) : List Char :=
  (kernelBuffer v conversion.base conversion.sign).reverse

/-- The characters that `printf` sends. The call of `printint64` converts the value to `int`. -/
def printfChars (conversion : Conversion) (v : Int64) : List Char :=
  (userBuffer v.toInt32 conversion.base conversion.sign).reverse

/-! ### Numerals -/

/-- The number that a word of digits without leading zeros stands for, with the last digit first. -/
def numeral (base : Nat) : List Char → Option Nat
  | [] => none
  | c :: rest => do
    let digit ← (digits.idxOf? c).filter (· < base)
    if rest = [] then some digit
    else do
      let high ← numeral base rest
      if high = 0 then none else some (high * base + digit)

/-- The number that a numeral with or without a sign stands for. -/
def readNumeral (base : Nat) : List Char → Option Int
  | [] => none
  | c :: rest =>
    if c = '-' then (numeral base rest.reverse).map fun magnitude => -(magnitude : Int)
    else (numeral base (c :: rest).reverse).map fun magnitude => (magnitude : Int)

/-- The value that a conversion prints: a signed one for `%ld`, an unsigned one for the others. -/
def Conversion.value (conversion : Conversion) (v : Int64) : Int :=
  if conversion.sign then v.toInt else v.toUInt64.toNat

/-- The two functions send the same, have room for it, and it is the numeral of the value. -/
structure Faithful (conversion : Conversion) (v : Int64) : Prop where
  same : cprintfChars conversion v = printfChars conversion v
  kernelFits : (kernelBuffer v conversion.base conversion.sign).length ≤ 32
  userFits : (userBuffer v.toInt32 conversion.base conversion.sign).length ≤ 32
  kernelReads : readNumeral conversion.base (cprintfChars conversion v) =
    some (conversion.value v)
  userReads : readNumeral conversion.base (printfChars conversion v) = some (conversion.value v)

/-! ### The digits of a number -/

theorem digitLoop_length {base length : Nat} (turns : Nat) {x : Nat}
    (few : x < base ^ (length + 1)) : (digitLoop base turns x).length ≤ length + 1 := by
  induction turns generalizing x length with
  | zero => exact Nat.zero_le _
  | succ turns inductionHypothesis =>
    rw [digitLoop, List.length_cons]
    split_ifs with more
    · cases length with
      | zero =>
        rw [Nat.zero_add, Nat.pow_one] at few
        exact absurd (Nat.div_eq_of_lt few) more
      | succ length =>
        have rest := inductionHypothesis (Nat.div_lt_of_lt_mul (by rwa [← Nat.pow_succ']))
        omega
    · exact Nat.le_add_left 1 length

/-- The buffer is long enough. -/
theorem buffer_length {base : Nat} (ten : 10 ≤ base) (x : UInt64) (negative : Bool) :
    (buffer base x negative).length ≤ 32 := by
  have few : x.toNat < base ^ (19 + 1) :=
    lt_of_lt_of_le x.toNat_lt (le_trans (by decide) (Nat.pow_le_pow_left ten 20))
  have short := digitLoop_length 64 few
  rw [buffer, List.length_append]
  split_ifs
  · rw [List.length_singleton]
    omega
  · rw [List.length_nil]
    omega

section Digits

variable {base : Nat} (two : 2 ≤ base) (sixteen : base ≤ 16)
include two sixteen

theorem digit_read (x : Nat) :
    (digits.idxOf? (digits.getD (x % base) default)).filter (· < base) = some (x % base) := by
  have less : x % base < base := Nat.mod_lt x (by omega)
  have read : ∀ digit < 16, digits.idxOf? (digits.getD digit default) = some digit := by decide
  rw [read (x % base) (by omega)]
  exact Option.filter_some_pos (decide_eq_true less)

theorem minus_notMem_digitLoop (turns x : Nat) : '-' ∉ digitLoop base turns x := by
  induction turns generalizing x with
  | zero => exact List.not_mem_nil
  | succ turns inductionHypothesis =>
    have less : x % base < base := Nat.mod_lt x (by omega)
    have digit : ∀ digit < 16, '-' ≠ digits.getD digit default := by decide
    rw [digitLoop, List.mem_cons, not_or]
    refine ⟨digit (x % base) (by omega), ?_⟩
    split_ifs
    · exact inductionHypothesis (x / base)
    · exact List.not_mem_nil

/-- The digits of a number are its numeral, when the loop has a turn for every digit. -/
theorem digitLoop_numeral {turns x : Nat} (enough : x < base ^ (turns + 1)) :
    numeral base (digitLoop base (turns + 1) x) = some x := by
  induction turns generalizing x with
  | zero =>
    rw [Nat.zero_add, Nat.pow_one] at enough
    rw [digitLoop, if_neg (not_not.mpr (Nat.div_eq_of_lt enough)), numeral,
      digit_read two sixteen, Nat.mod_eq_of_lt enough]
    rfl
  | succ turns inductionHypothesis =>
    rw [digitLoop, numeral, digit_read two sixteen]
    by_cases last : x / base = 0
    · have less : x < base := by
        rwa [Nat.div_eq_zero_iff_lt (by omega)] at last
      rw [if_neg (not_not.mpr last), Nat.mod_eq_of_lt less]
      rfl
    · have high := inductionHypothesis (Nat.div_lt_of_lt_mul (by rwa [← Nat.pow_succ']))
      have more : digitLoop base (turns + 1) (x / base) ≠ [] := List.cons_ne_nil _ _
      rw [if_pos last, Option.bind_eq_bind, Option.bind_some, if_neg more, high,
        Option.bind_some, if_neg last, Nat.div_add_mod']

/-- What is sent for a number and a sign is read back. -/
theorem buffer_read (x : UInt64) (negative : Bool) :
    readNumeral base (buffer base x negative).reverse =
      some (if negative then -(x.toNat : Int) else x.toNat) := by
  have enough : x.toNat < base ^ (63 + 1) :=
    lt_of_lt_of_le x.toNat_lt (Nat.pow_le_pow_left two 64)
  have isNumeral := digitLoop_numeral two sixteen enough
  have noMinus := minus_notMem_digitLoop two sixteen 64 x.toNat
  unfold buffer
  cases negative with
  | true =>
    rw [if_pos rfl, List.reverse_append, List.reverse_singleton, List.singleton_append,
      readNumeral, if_pos rfl, List.reverse_reverse, isNumeral]
    rfl
  | false =>
    rw [if_neg Bool.false_ne_true, List.append_nil]
    cases isChars : (digitLoop base 64 x.toNat).reverse with
    | nil => exact absurd (List.reverse_eq_nil_iff.mp isChars) (List.cons_ne_nil _ _)
    | cons c rest =>
      have isDigit : c ≠ '-' := fun same => noMinus (by
        rw [← List.mem_reverse, isChars, same]
        exact List.mem_cons_self)
      rw [readNumeral, if_neg isDigit, ← isChars, List.reverse_reverse, isNumeral]
      rfl

end Digits

/-! ### The parameter -/

theorem toNat_toUInt64 (v : Int64) : (v.toUInt64.toNat : Int) = v.toInt % 2 ^ 64 := by
  show (v.toBitVec.toNat : Int) = v.toBitVec.toInt % 2 ^ 64
  have bound := v.toBitVec.isLt
  rw [BitVec.toInt_eq_toNat_cond]
  split_ifs
  · omega
  · omega

section Read

variable {base : Nat} (two : 2 ≤ base) (sixteen : base ≤ 16)
include two sixteen

/-- The kernel prints the value, the least one among them. -/
theorem kernelBuffer_read (v : Int64) (sign : Bool) :
    readNumeral base (kernelBuffer v base sign).reverse =
      some (if sign then v.toInt else v.toUInt64.toNat) := by
  have low := v.le_toInt
  have high := v.toInt_lt
  have below : v < 0 ↔ v.toInt < 0 := Int64.lt_iff_toInt_lt
  have opposite : ((-v).toUInt64.toNat : Int) = (-v.toInt) % 2 ^ 64 := by
    rw [toNat_toUInt64, Int64.toInt_neg, Int.bmod_def]
    split_ifs
    · omega
    · omega
  unfold kernelBuffer
  by_cases negative : sign ∧ v < 0
  · have less := below.mp negative.2
    rw [if_pos negative, buffer_read two sixteen, if_pos rfl, opposite, if_pos negative.1,
      Option.some_inj]
    omega
  · rw [if_neg negative, buffer_read two sixteen, if_neg Bool.false_ne_true, Option.some_inj]
    split_ifs with signed
    · have notLess : ¬ v.toInt < 0 := fun less => negative ⟨signed, below.mpr less⟩
      rw [toNat_toUInt64]
      omega
    · rfl

/-- The user library prints the `int`, but for the least one with a sign. -/
theorem userBuffer_read (xx : Int32) (sgn : Bool) :
    readNumeral base (userBuffer xx base sgn).reverse =
      some (if sgn then if xx.toInt = -2 ^ 31 then -(2 ^ 64 - 2 ^ 31) else xx.toInt
        else xx.toInt % 2 ^ 64) := by
  have low := xx.le_toInt
  have high := xx.toInt_lt
  have below : xx < 0 ↔ xx.toInt < 0 := Int32.lt_iff_toInt_lt
  have opposite : ((-xx).toInt64.toUInt64.toNat : Int) =
      if xx.toInt = -2 ^ 31 then 2 ^ 64 - 2 ^ 31 else (-xx.toInt) % 2 ^ 64 := by
    rw [toNat_toUInt64, Int32.toInt_toInt64, Int32.toInt_neg, Int.bmod_def]
    split_ifs <;> omega
  unfold userBuffer
  by_cases negative : sgn ∧ xx < 0
  · have less := below.mp negative.2
    rw [if_pos negative, buffer_read two sixteen, if_pos rfl, opposite, if_pos negative.1,
      Option.some_inj]
    split_ifs
    · rfl
    · omega
  · rw [if_neg negative, buffer_read two sixteen, if_neg Bool.false_ne_true, toNat_toUInt64,
      Int32.toInt_toInt64, Option.some_inj]
    split_ifs with signed least
    · exact absurd ⟨signed, below.mpr (by omega)⟩ negative
    · have notLess : ¬ xx.toInt < 0 := fun less => negative ⟨signed, below.mpr less⟩
      omega
    · rfl

end Read

theorem Conversion.base_cases (conversion : Conversion) :
    conversion.base = 10 ∨ conversion.base = 16 := by
  cases conversion with
  | ld => exact Or.inl rfl
  | lx | lp => exact Or.inr rfl

/-- The buffers are the same where the value is an `int` that has an opposite, or is not negated. -/
theorem userBuffer_eq {v : Int64} {sign : Bool} (base : Nat)
    (isInt : -2 ^ 31 ≤ v.toInt ∧ v.toInt < 2 ^ 31) (opposite : sign → v.toInt ≠ -2 ^ 31) :
    userBuffer v.toInt32 base sign = kernelBuffer v base sign := by
  have same : v.toInt32.toInt = v.toInt := by
    rw [Int64.toInt_toInt32, Int.bmod_def]
    split_ifs <;> omega
  have whole : v.toInt32.toInt64 = v := Int64.toInt_inj.mp (by rw [Int32.toInt_toInt64, same])
  have sameSign : v.toInt32 < 0 ↔ v < 0 := by
    rw [Int32.lt_iff_toInt_lt, Int64.lt_iff_toInt_lt, same]
    rfl
  unfold userBuffer kernelBuffer
  rw [whole]
  by_cases negative : sign ∧ v < 0
  · have isOpposite : (-v.toInt32).toInt64 = -v := by
      have different := opposite negative.1
      rw [← Int64.toInt_inj, Int32.toInt_toInt64, Int32.toInt_neg, same, Int64.toInt_neg,
        Int.bmod_def, Int.bmod_def]
      split_ifs <;> omega
    rw [if_pos negative, if_pos ⟨negative.1, sameSign.mpr negative.2⟩, isOpposite]
  · rw [if_neg negative, if_neg fun user => negative ⟨user.1, sameSign.mp user.2⟩]

/-- The two functions agree and print the value exactly where it is an `int`, and for `%ld` not the
least one. -/
theorem faithful_iff (conversion : Conversion) (v : Int64) :
    Faithful conversion v ↔ (-2 ^ 31 ≤ v.toInt ∧ v.toInt < 2 ^ 31) ∧
      (conversion = .ld → v.toInt ≠ -2 ^ 31) := by
  have sixteen : conversion.base ≤ 16 := by
    rcases conversion.base_cases with isBase | isBase <;> omega
  have ten : 10 ≤ conversion.base := by
    rcases conversion.base_cases with isBase | isBase <;> omega
  have two : 2 ≤ conversion.base := by omega
  have isSigned : conversion.sign = true ↔ conversion = .ld := by
    cases conversion <;> decide
  constructor
  · intro faithful
    have low := v.le_toInt
    have high := v.toInt_lt
    have reads := faithful.userReads
    rw [printfChars, userBuffer_read two sixteen, Option.some_inj, Conversion.value,
      Int64.toInt_toInt32, Int.bmod_def, toNat_toUInt64] at reads
    by_cases signed : conversion = .ld
    · rw [if_pos (isSigned.mpr signed), if_pos (isSigned.mpr signed)] at reads
      split_ifs at reads <;> omega
    · rw [if_neg (isSigned.not.mpr signed), if_neg (isSigned.not.mpr signed)] at reads
      refine ⟨?_, fun isLd => absurd isLd signed⟩
      split_ifs at reads <;> omega
  · rintro ⟨isInt, opposite⟩
    have same := userBuffer_eq conversion.base isInt fun signed => opposite (isSigned.mp signed)
    have kernelFits : (kernelBuffer v conversion.base conversion.sign).length ≤ 32 := by
      unfold kernelBuffer
      split_ifs
      · exact buffer_length ten _ _
      · exact buffer_length ten _ _
    have kernelReads := kernelBuffer_read two sixteen v conversion.sign
    refine ⟨?_, kernelFits, ?_, kernelReads, ?_⟩
    · rw [cprintfChars, printfChars, same]
    · rw [same]
      exact kernelFits
    · rw [printfChars, same]
      exact kernelReads

/-- `2 ^ 32` for `%ld`: the kernel sends its numeral, the user library sends `0`. -/
theorem printint64_cut :
    String.ofList (cprintfChars .ld 4294967296) = "4294967296" ∧
      String.ofList (printfChars .ld 4294967296) = "0" ∧ ¬ Faithful .ld 4294967296 := by
  refine ⟨by decide, by decide, fun faithful => ?_⟩
  exact absurd faithful.same (by decide)

end Xk.PrintInt
