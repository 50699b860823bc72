/-
This file proves the line discipline of the console. The buffer shows what a terminal with one line
to edit has: the committed characters that are not read yet, and the line behind them. The indices are
words that wrap, and they are the counters of the terminal modulo `2 ^ 32`, which is a multiple of the
size of the buffer.

Over every run the bytes that reads have stored are the committed characters without the `C('D')`s,
and each `C('D')` ends a read of no bytes.
-/

import Xk.Console

namespace Xk

open RingBuffer Transition

variable {input : Input} {terminal : Terminal} {n : UInt32} {killed : Bool}

/-! ### Indices -/

theorem Input.slot_ofNat (counter : Nat) : Input.slot (UInt32.ofNat counter) =
    place inputBuf counter := by
  rw [Input.slot, UInt32.toNat_ofNat']
  exact place_mod (by decide) counter

/-- The distance of two counters that are close. -/
theorem toNat_ofNat_sub {low high : Nat} (ordered : low ≤ high) (close : high - low < 2 ^ 32) :
    (UInt32.ofNat high - UInt32.ofNat low).toNat = high - low := by
  grind [Nat.exists_eq_add_of_le, UInt32.ofNat_add, UInt32.toNat_ofNat']

theorem ofNat_eq_iff {low high : Nat} (ordered : low ≤ high) (close : high - low < 2 ^ 32) :
    UInt32.ofNat high = UInt32.ofNat low ↔ high = low := by
  constructor
  · intro same
    have distance := toNat_ofNat_sub ordered close
    rw [same, sub_self, UInt32.toNat_zero] at distance
    omega
  · exact congrArg UInt32.ofNat

/-- The buffer holds what the terminal has. -/
structure Input.Shows (input : Input) (terminal : Terminal) : Prop where
  consumed : terminal.consumed ≤ terminal.committed.length
  read : input.r = UInt32.ofNat terminal.consumed
  write : input.w = UInt32.ofNat terminal.committed.length
  edit : input.e = UInt32.ofNat (terminal.committed.length + terminal.line.length)
  carries : Carries input.buf (terminal.committed ++ terminal.line)
    (terminal.committed.take terminal.consumed)
  oneLine : newline ∉ terminal.line

section Shows

variable {input : Input} {terminal : Terminal} (shown : input.Shows terminal)
include shown

theorem Input.Shows.taken_length :
    (terminal.committed.take terminal.consumed).length = terminal.consumed :=
  List.length_take_of_le shown.consumed

omit shown in
theorem Terminal.unread_length (terminal : Terminal) :
    terminal.unread.length = terminal.committed.length - terminal.consumed :=
  List.length_drop

theorem Input.Shows.fits :
    terminal.committed.length + terminal.line.length - terminal.consumed ≤ inputBuf := by
  grind [RingBuffer.Carries, Input.Shows]

theorem Input.Shows.toNat_edit_sub_read :
    (input.e - input.r).toNat = terminal.unread.length + terminal.line.length := by
  have fits := shown.fits
  have ordered := shown.consumed
  have length := terminal.unread_length
  unfold inputBuf at fits
  rw [shown.edit, shown.read, toNat_ofNat_sub (by omega) (by omega)]
  omega

theorem Input.Shows.toNat_write_sub_read :
    (input.w - input.r).toNat = terminal.unread.length := by
  have fits := shown.fits
  unfold inputBuf at fits
  rw [shown.write, shown.read, toNat_ofNat_sub shown.consumed (by omega), terminal.unread_length]

theorem Input.Shows.toNat_edit_sub_write :
    (input.e - input.w).toNat = terminal.line.length := by
  have fits := shown.fits
  have ordered := shown.consumed
  unfold inputBuf at fits
  rw [shown.edit, shown.write, toNat_ofNat_sub (by omega) (by omega), Nat.add_sub_cancel_left]

theorem Input.Shows.edit_eq_write_iff : input.e = input.w ↔ terminal.line = [] := by
  have fits := shown.fits
  have ordered := shown.consumed
  unfold inputBuf at fits
  rw [shown.edit, shown.write, ofNat_eq_iff (by omega) (by omega), ← List.length_eq_zero_iff]
  omega

theorem Input.Shows.read_eq_write_iff : input.r = input.w ↔ terminal.unread = [] := by
  have fits := shown.fits
  have ordered := shown.consumed
  unfold inputBuf at fits
  rw [eq_comm, shown.write, shown.read, ofNat_eq_iff ordered (by omega), ← List.length_eq_zero_iff,
    terminal.unread_length]
  omega

/-! ### Keys -/

/-- The last character of the line is the one before `e`, and is erased by moving `e` back. -/
theorem Input.Shows.erase {front : List UInt8} {last : UInt8}
    (isLine : terminal.line = front ++ [last]) :
    input.buf (Input.slot (input.e - 1)) = last ∧
      { input with e := input.e - 1 }.Shows { terminal with line := front } := by
  have carries := shown.carries
  rw [isLine, ← List.append_assoc] at carries
  have kept : (terminal.committed.take terminal.consumed).length ≤
      (terminal.committed ++ front).length := by
    simp
  have edit : input.e - 1 = UInt32.ofNat (terminal.committed.length + front.length) := by
    rw [shown.edit, isLine, List.length_append, List.length_singleton, ← Nat.add_assoc,
      UInt32.ofNat_add]
    exact add_sub_cancel_right _ _
  refine ⟨?_, shown.consumed, shown.read, shown.write, edit, carries.unpush kept, ?_⟩
  · grind [Input.slot_ofNat, RingBuffer.Carries.last]
  · grind [Input.Shows]

/-- A character is stored at `e`. -/
theorem Input.Shows.push (room : terminal.unread.length + terminal.line.length < inputBuf)
    (c : UInt8) :
    input.e + 1 = UInt32.ofNat (terminal.committed.length + (terminal.line ++ [c]).length) ∧
      Carries (Function.update input.buf (Input.slot input.e) c)
        (terminal.committed ++ (terminal.line ++ [c]))
        (terminal.committed.take terminal.consumed) := by
  constructor
  · rw [shown.edit, List.length_append, List.length_singleton, ← Nat.add_assoc]
    exact (UInt32.ofNat_add _ 1).symm
  · have length := terminal.unread_length
    have ordered := shown.consumed
    have pushed := shown.carries.push
      (by rw [List.length_append, shown.taken_length]; omega) c
    rw [List.length_append, List.append_assoc] at pushed
    rwa [shown.edit, Input.slot_ofNat]

end Shows

section

variable (shown : input.Shows terminal)
include shown

/-- `C('U')` erases the whole line: it has no newline. -/
theorem Input.Shows.killLine (turns : Nat) (enough : terminal.line.length ≤ turns) :
    (Xk.killLine turns input).Shows { terminal with line := [] } := by
  induction turns generalizing input terminal with
  | zero =>
    have empty : terminal.line = [] := List.eq_nil_of_length_eq_zero (Nat.le_zero.mp enough)
    rw [← empty]
    exact shown
  | succ turns inductionHypothesis =>
    rw [Xk.killLine]
    rcases List.eq_nil_or_concat terminal.line with empty | ⟨front, last, isLine⟩
    · rw [if_neg (fun more => more.1 (shown.edit_eq_write_iff.mpr empty))]
      rw [← empty]
      exact shown
    · rw [List.concat_eq_append] at isLine
      obtain ⟨isLast, erased⟩ := shown.erase isLine
      have more : input.e ≠ input.w := by grind [edit_eq_write_iff]
      have notNewline : input.buf (Input.slot (input.e - 1)) ≠ newline := by grind [Input.Shows]
      rw [if_pos ⟨more, notNewline⟩]
      rw [isLine, List.length_append, List.length_singleton] at enough
      have rest := inductionHypothesis erased (Nat.le_of_succ_le_succ enough)
      exact rest

/-- A character that is not a key of the editor does to the buffer what it does to the terminal. -/
theorem Input.Shows.store (room : terminal.unread.length + terminal.line.length < inputBuf)
    (c : UInt8) :
    (c = newline ∨ c = ctrlD ∨ input.e + 1 = input.r + 128 ↔
      c = newline ∨ c = ctrlD ∨ terminal.unread.length + (terminal.line ++ [c]).length = inputBuf) ∧
    Input.Shows ⟨Function.update input.buf (Input.slot input.e) c, input.r,
      input.e + 1, input.e + 1⟩
      ⟨terminal.committed ++ (terminal.line ++ [c]), terminal.consumed, []⟩ ∧
    (c ≠ newline → Input.Shows
      ⟨Function.update input.buf (Input.slot input.e) c, input.r, input.w, input.e + 1⟩
      { terminal with line := terminal.line ++ [c] }) := by
  obtain ⟨edit, carries⟩ := shown.push room c
  have ordered := shown.consumed
  have length := terminal.unread_length
  have whole : (terminal.committed ++ (terminal.line ++ [c])).length =
      terminal.committed.length + (terminal.line ++ [c]).length := List.length_append
  refine ⟨?_, ⟨?_, shown.read, ?_, ?_, ?_, List.not_mem_nil⟩,
    fun notNewline => ⟨ordered, shown.read, shown.write, edit, carries, ?_⟩⟩
  · have full : input.e + 1 = input.r + 128 ↔
        terminal.unread.length + (terminal.line ++ [c]).length = inputBuf := by
      have distance := shown.toNat_edit_sub_read
      rw [List.length_append, List.length_singleton]
      unfold inputBuf at room ⊢
      constructor
      · intro same
        have apart : input.e - input.r = 127 := by grind
        rw [apart] at distance
        change 127 = _ at distance
        omega
      · intro isFull
        have apart : input.e - input.r = 127 := by
          apply UInt32.toNat_inj.mp
          rw [distance]
          show _ = 127
          omega
        rw [eq_add_of_sub_eq apart, add_comm (127 : UInt32), add_assoc]
        rfl
    rw [full]
  · exact ordered.trans ((Nat.le_add_right _ _).trans_eq whole.symm)
  · rw [whole]
    exact edit
  · grind
  · grind
  · grind [Input.Shows]

/-- A key does to the buffer what it does to the terminal. -/
theorem Input.Shows.key (c : UInt8) :
    (consoleKey input c).1.Shows (terminal.key c) := by
  unfold consoleKey Terminal.key
  by_cases isP : c = ctrlP
  · grind
  rw [if_neg isP, if_neg isP]
  by_cases isU : c = ctrlU
  · grind [toNat_edit_sub_write, killLine]
  rw [if_neg isU, if_neg isU]
  by_cases isErase : c = ctrlH ∨ c = delete
  · rw [if_pos isErase, if_pos isErase]
    rcases List.eq_nil_or_concat terminal.line with empty | ⟨front, last, isLine⟩
    · rw [if_neg (not_not.mpr (shown.edit_eq_write_iff.mpr empty)), empty,
        List.dropLast_nil, ← empty]
      exact shown
    · rw [List.concat_eq_append] at isLine
      have moves : input.e ≠ input.w := by
        grind [edit_eq_write_iff, List.append_ne_nil_of_right_ne_nil]
      rw [if_pos moves, isLine, List.dropLast_concat]
      exact (shown.erase isLine).2
  rw [if_neg isErase, if_neg isErase]
  have sameRoom : c ≠ 0 ∧ input.e - input.r < 128 ↔
      c ≠ 0 ∧ terminal.unread.length + terminal.line.length < inputBuf := by
    rw [UInt32.lt_iff_toNat_lt, shown.toNat_edit_sub_read]
    rfl
  by_cases room : c ≠ 0 ∧ terminal.unread.length + terminal.line.length < inputBuf
  · grind [store]
  · grind

/-- `consoleintr` takes the keys one after the other. -/
theorem Input.Shows.consoleintr (chars : List UInt8) :
    (consoleintr input chars).1.Shows (chars.foldl Terminal.key terminal) := by
  induction chars generalizing input terminal with
  | nil => exact shown
  | cons c chars inductionHypothesis => exact inductionHypothesis (shown.key c)

end

theorem killLine_indices (turns : Nat) (input : Input) :
    (killLine turns input).r = input.r ∧ (killLine turns input).w = input.w ∧
      (killLine turns input).buf = input.buf := by
  induction turns generalizing input with
  | zero => exact ⟨rfl, rfl, rfl⟩
  | succ turns inductionHypothesis => grind [killLine]

/-- The read index stays, and the write index moves with a wakeup only. -/
theorem consoleKey_indices (input : Input) (c : UInt8) :
    (consoleKey input c).1.r = input.r ∧
      ((consoleKey input c).2 = false → (consoleKey input c).1.w = input.w) := by
  unfold consoleKey
  dsimp only
  generalize (if c = carriageReturn then newline else c) = stored
  split_ifs
  · exact ⟨rfl, fun _ => rfl⟩
  · exact ⟨(killLine_indices _ _).1, fun _ => (killLine_indices _ _).2.1⟩
  · exact ⟨rfl, fun _ => rfl⟩
  · exact ⟨rfl, fun _ => rfl⟩
  · exact ⟨rfl, fun quiet => absurd quiet (by decide)⟩
  · exact ⟨rfl, fun _ => rfl⟩
  · exact ⟨rfl, fun _ => rfl⟩

theorem consoleintr_indices (input : Input) (chars : List UInt8) :
    (consoleintr input chars).1.r = input.r ∧
      ((consoleintr input chars).2 = false → (consoleintr input chars).1.w = input.w) := by
  induction chars generalizing input with
  | nil => exact ⟨rfl, fun _ => rfl⟩
  | cons c chars inductionHypothesis =>
    obtain ⟨read, write⟩ := consoleKey_indices input c
    obtain ⟨readLater, writeLater⟩ := inductionHypothesis (consoleKey input c).1
    refine ⟨readLater.trans read, fun quiet => ?_⟩
    obtain ⟨quietNow, quietLater⟩ := Bool.or_eq_false_iff.mp quiet
    exact (writeLater quietLater).trans (write quietNow)

/-! ### Reads -/

/-- The committed character at the read index is used up. -/
theorem Input.Shows.pop (shown : input.Shows terminal) {c : UInt8} {rest : List UInt8}
    (isUnread : terminal.unread = c :: rest) :
    input.buf (Input.slot input.r) = c ∧
      { input with r := input.r + 1 }.Shows { terminal with consumed := terminal.consumed + 1 } ∧
      Terminal.unread { terminal with consumed := terminal.consumed + 1 } = rest := by
  have length := terminal.unread_length
  rw [isUnread, List.length_cons] at length
  have more : terminal.consumed < terminal.committed.length := by omega
  have isRest : terminal.committed.drop (terminal.consumed + 1) = rest := by
    rw [← List.tail_drop]
    exact congrArg List.tail isUnread
  have taken : terminal.committed.take (terminal.consumed + 1) =
      terminal.committed.take terminal.consumed ++ [c] := by
    rw [List.take_add_one, ← List.head?_drop]
    exact congrArg (fun unread => _ ++ (List.head? unread).toList) isUnread
  have split : terminal.committed ++ terminal.line =
      terminal.committed.take terminal.consumed ++ c :: (rest ++ terminal.line) := by
    grind [List.take_append_drop]
  have carries := shown.carries
  rw [split] at carries
  have isNext := carries.next
  have popped := carries.pop (by rw [List.length_append, List.length_cons]; omega)
  rw [isNext, ← split] at popped
  rw [shown.taken_length] at isNext
  refine ⟨?_, ⟨more, ?_, shown.write, shown.edit, ?_, shown.oneLine⟩, isRest⟩
  · rw [shown.read, Input.slot_ofNat]
    exact isNext
  · grind [Input.Shows, UInt32.ofNat_add]
  · grind

/-- The committed characters that a turn of the loop uses up: those that it stores, and a `C('D')`
when nothing has been stored. -/
def ReadTurn.used (turn : ReadTurn) (target : UInt32) : Nat :=
  turn.bytes.length + if turn.stop = .eof ∧ ¬ turn.n < target then 1 else 0

/-- Why a turn of the loop ends, for the unread characters at its start. -/
def ReadTurn.Ends (turn : ReadTurn) (killed : Bool) (unread : List UInt8) : Prop :=
  match turn.stop with
  | .limit => turn.n.toBitVec.toInt ≤ 0 ∧ newline ∉ turn.bytes
  | .newline => ∃ front, turn.bytes = front ++ [newline] ∧ newline ∉ front
  | .eof => turn.n ≠ 0 ∧ newline ∉ turn.bytes ∧ unread[turn.bytes.length]? = some ctrlD
  | .killed => turn.n ≠ 0 ∧ newline ∉ turn.bytes ∧ turn.bytes = unread ∧ killed = true
  | .asleep => turn.n ≠ 0 ∧ newline ∉ turn.bytes ∧ turn.bytes = unread ∧ killed = false

/-- What a turn of the loop does. -/
structure ReadTurn.Takes (turn : ReadTurn) (killed : Bool) (target n write : UInt32)
    (terminal : Terminal) : Prop where
  shown : turn.input.Shows { terminal with consumed := terminal.consumed + turn.used target }
  write : turn.input.w = write
  begins : turn.bytes <+: terminal.unread
  left : turn.n.toNat + turn.bytes.length = n.toNat
  noEof : ctrlD ∉ turn.bytes
  ends : turn.Ends killed terminal.unread

/-- A character in front of a turn. -/
theorem ReadTurn.Takes.cons {turn : ReadTurn} {killed : Bool} {target n write : UInt32}
    {terminal : Terminal} {c : UInt8} {rest : List UInt8} {less : UInt32}
    (takes : turn.Takes killed target less write
      { terminal with consumed := terminal.consumed + 1 })
    (isUnread : terminal.unread = c :: rest)
    (isRest : Terminal.unread { terminal with consumed := terminal.consumed + 1 } = rest)
    (notEof : c ≠ ctrlD) (notNewline : c ≠ newline) (oneMore : n.toNat = less.toNat + 1) :
    ReadTurn.Takes { turn with bytes := c :: turn.bytes } killed target n write terminal := by
  have used : ReadTurn.used { turn with bytes := c :: turn.bytes } target =
      turn.used target + 1 := by
    rw [ReadTurn.used, ReadTurn.used, List.length_cons, Nat.add_right_comm]
  have absent (absentLater : newline ∉ turn.bytes) : newline ∉ c :: turn.bytes :=
    List.not_mem_cons_of_ne_of_not_mem (Ne.symm notNewline) absentLater
  refine ⟨?_, takes.write, ?_, ?_, ?_, ?_⟩
  · grind [ReadTurn.Takes]
  · grind [ReadTurn.Takes]
  · grind [ReadTurn.Takes]
  · exact List.not_mem_cons_of_ne_of_not_mem (Ne.symm notEof) takes.noEof
  · have ends := takes.ends
    rw [isRest] at ends
    rw [isUnread]
    unfold ReadTurn.Ends at ends ⊢
    dsimp only
    cases stop : turn.stop with
    | limit => grind
    | newline => grind
    | eof => grind
    | killed => grind
    | asleep => grind

theorem toInt_pos_iff (inRange : n.toNat < 2 ^ 31) : 0 < n.toBitVec.toInt ↔ n ≠ 0 := by
  rw [BitVec.toInt_eq_toNat_of_lt (by rw [UInt32.toNat_toBitVec]; omega), UInt32.toNat_toBitVec,
    Ne, ← UInt32.toNat_inj, UInt32.toNat_zero]
  omega

theorem consolereadLoop_takes (shown : input.Shows terminal) (killed : Bool) (target : UInt32)
    {turns : Nat} (inRange : n.toNat < 2 ^ 31) (enough : n.toNat ≤ turns) :
    (consolereadLoop killed target turns n input).Takes killed target n input.w terminal := by
  induction turns generalizing n input terminal with
  | zero =>
    have notPositive : n.toBitVec.toInt ≤ 0 :=
      not_lt.mp fun positive => (toInt_pos_iff inRange).mp positive
        (UInt32.toNat_inj.mp (Nat.le_zero.mp enough))
    exact ⟨shown, rfl, List.nil_prefix, rfl, List.not_mem_nil, notPositive, List.not_mem_nil⟩
  | succ turns inductionHypothesis =>
    rw [consolereadLoop]
    by_cases positive : 0 < n.toBitVec.toInt
    swap
    · rw [if_neg positive]
      exact ⟨shown, rfl, List.nil_prefix, rfl, List.not_mem_nil, not_lt.mp positive,
        List.not_mem_nil⟩
    rw [if_pos positive]
    have more := (toInt_pos_iff inRange).mp positive
    have moreNat : n.toNat ≠ 0 := fun isZero => more (UInt32.toNat_inj.mp isZero)
    have oneLess : (n - 1).toNat = n.toNat - 1 := by grind [UInt32.toNat_sub_of_le]
    cases isUnread : terminal.unread with
    | nil =>
      rw [if_pos (shown.read_eq_write_iff.mpr isUnread)]
      cases killed with
      | false =>
        exact ⟨shown, rfl, List.nil_prefix, rfl, List.not_mem_nil, more, List.not_mem_nil,
          isUnread.symm, rfl⟩
      | true =>
        exact ⟨shown, rfl, List.nil_prefix, rfl, List.not_mem_nil, more, List.not_mem_nil,
          isUnread.symm, rfl⟩
    | cons c rest =>
      have filled : input.r ≠ input.w := by grind [Input.Shows.read_eq_write_iff]
      obtain ⟨isNext, popped, isRest⟩ := shown.pop isUnread
      rw [if_neg filled]
      dsimp only
      rw [isNext]
      by_cases isEof : c = ctrlD
      · rw [if_pos isEof]
        have found : (c :: rest)[0]? = some ctrlD := congrArg some isEof
        by_cases stored : n < target
        · -- bytes have been stored before: the `C('D')` is left for the next call
          have back : input.r + 1 - 1 = input.r := add_sub_cancel_right _ _
          rw [if_pos stored, back]
          have used : ReadTurn.used ⟨n, [], input, .eof⟩ target = 0 := by grind [ReadTurn.used]
          refine ⟨?_, rfl, List.nil_prefix, rfl, List.not_mem_nil, more, List.not_mem_nil, ?_⟩
          · rw [used]
            exact shown
          · grind
        · rw [if_neg stored]
          have used : ReadTurn.used ⟨n, [], { input with r := input.r + 1 }, .eof⟩ target = 1 := by
            grind [ReadTurn.used]
          refine ⟨?_, rfl, List.nil_prefix, rfl, List.not_mem_nil, more, List.not_mem_nil, ?_⟩
          · grind
          · grind
      rw [if_neg isEof]
      have notEof : ctrlD ∉ [c] := fun member => isEof (List.mem_singleton.mp member).symm
      by_cases isNewline : c = newline
      · rw [if_pos isNewline]
        refine ⟨popped, rfl, ?_, ?_, notEof, [], ?_, List.not_mem_nil⟩
        · grind
        · grind
        · rw [isNewline]
          rfl
      rw [if_neg isNewline]
      have later := inductionHypothesis (n := n - 1) popped (by omega) (by omega)
      revert later
      generalize consolereadLoop killed target turns (n - 1) { input with r := input.r + 1 } = turn
      intro later
      exact later.cons isUnread isRest isEof isNewline (by omega)

theorem toInt_nonpos (negative : 2 ^ 31 ≤ n.toNat) : n.toBitVec.toInt ≤ 0 := by
  grind [UInt32.toNat_lt, UInt32.toNat_toBitVec]

/-- A turn of `consoleread`, also for a number that is not positive. -/
theorem consoleread_takes (shown : input.Shows terminal) (killed : Bool) (target n : UInt32) :
    (consoleread input killed target n).Takes killed target n input.w terminal := by
  rcases Nat.lt_or_ge n.toNat (2 ^ 31) with inRange | negative
  · refine consolereadLoop_takes shown killed target inRange (le_of_eq ?_)
    rw [BitVec.toInt_eq_toNat_of_lt (by rw [UInt32.toNat_toBitVec]; omega), UInt32.toNat_toBitVec,
      Int.toNat_natCast]
  · rw [consoleread, Int.toNat_of_nonpos (toInt_nonpos negative), consolereadLoop]
    exact ⟨shown, rfl, List.nil_prefix, rfl, List.not_mem_nil, toInt_nonpos negative,
      List.not_mem_nil⟩

/-- A number that is not positive reads nothing. -/
theorem consoleread_few (input : Input) (killed : Bool) (target n : UInt32) :
    (consoleread input killed target n).bytes = [] ∨ n.toNat < 2 ^ 31 := by
  grind [consoleread, Int.toNat_of_nonpos, toInt_nonpos, consolereadLoop]

section Streams

variable {turn : ReadTurn} {killed : Bool} {target n write : UInt32} {terminal : Terminal}
  (takes : turn.Takes killed target n write terminal)
include takes

/-- The characters that are used up. -/
theorem ReadTurn.Takes.committed_take :
    terminal.committed.take (terminal.consumed + turn.used target) =
      terminal.committed.take terminal.consumed ++ (turn.bytes ++
        if turn.stop = .eof ∧ ¬ turn.n < target then [ctrlD] else []) := by
  rw [List.take_add]
  congr 1
  obtain ⟨rest, isUnread⟩ := takes.begins
  show terminal.unread.take _ = _
  rw [ReadTurn.used]
  split_ifs with usesEof
  · grind [ReadTurn.Takes, ReadTurn.Ends, List.take_add_one]
  · rw [Nat.add_zero, List.append_nil, ← isUnread, List.take_left]

/-- The bytes that are stored are the used characters that are not a `C('D')`. -/
theorem ReadTurn.Takes.stream :
    (terminal.committed.take (terminal.consumed + turn.used target)).filter (· ≠ ctrlD) =
      (terminal.committed.take terminal.consumed).filter (· ≠ ctrlD) ++ turn.bytes := by
  have all : turn.bytes.filter (· ≠ ctrlD) = turn.bytes := by
    grind [List.filter_eq_self, ReadTurn.Takes]
  rw [takes.committed_take, List.filter_append, List.filter_append, all]
  split_ifs <;> simp

/-- The places of the `C('D')`s among the used characters. -/
theorem ReadTurn.Takes.eofs :
    (List.range (terminal.consumed + turn.used target)).filter
        (fun position => terminal.committed[position]? = some ctrlD) =
      (List.range terminal.consumed).filter
        (fun position => terminal.committed[position]? = some ctrlD) ++
      if turn.stop = .eof ∧ ¬ turn.n < target then
        [terminal.consumed + turn.bytes.length] else [] := by
  obtain ⟨rest, isUnread⟩ := takes.begins
  have isNext (index : Nat) : terminal.committed[terminal.consumed + index]? =
      (turn.bytes ++ rest)[index]? := by
    rw [isUnread, Terminal.unread, List.getElem?_drop]
  have stored : ((List.range turn.bytes.length).map (terminal.consumed + ·)).filter
      (fun position => terminal.committed[position]? = some ctrlD) = [] := by
    grind [List.filter_eq_nil_iff, ReadTurn.Takes]
  rw [ReadTurn.used, ← Nat.add_assoc]
  split_ifs with usesEof
  · grind [ReadTurn.Takes, ReadTurn.Ends, List.range_add]
  · rw [Nat.add_zero, List.range_add, List.filter_append, stored]

end Streams

/-! ### Calls -/

/-- The bytes among all the delivered ones that a call has stored. -/
def bytesOf (delivered : List (Nat × UInt8)) (number : Nat) : List UInt8 :=
  (delivered.filter fun entry => entry.1 = number).map Prod.snd

theorem bytesOf_own (delivered : List (Nat × UInt8)) (number : Nat) (bytes : List UInt8) :
    bytesOf (delivered ++ bytes.map fun byte => (number, byte)) number =
      bytesOf delivered number ++ bytes := by
  simp [bytesOf, List.filter_map, Function.comp_def]

theorem bytesOf_other (delivered : List (Nat × UInt8)) {number other : Nat} (bytes : List UInt8)
    (different : other ≠ number) :
    bytesOf (delivered ++ bytes.map fun byte => (number, byte)) other = bytesOf
      delivered other := by
  simp [bytesOf, List.filter_map, Function.comp_def, Ne.symm different]

/-- A call of `consoleread` that has not returned and has `n` bytes left to read. -/
structure ConsoleSystem.Reading (system : ConsoleSystem) (read : ConsoleRead) (n : UInt32) :
    Prop where
  left : n.toNat + read.bytes.length = read.target.toNat
  inRange : read.bytes = [] ∨ read.target.toNat < 2 ^ 31
  noEof : ctrlD ∉ read.bytes
  noNewline : newline ∉ read.bytes
  stored : read.bytes = bytesOf system.delivered read.number
  begun : read.number < system.calls
  pending : ∀ finished ∈ system.finished, finished.number ≠ read.number

/-- Why a call has ended, and what it returned. -/
def FinishedRead.Ends (read : FinishedRead) (terminal : Terminal) : Prop :=
  match read.stop with
  | .limit => read.value = read.bytes.length ∧ newline ∉ read.bytes ∧
      read.bytes.length = read.target.toBitVec.toInt.toNat
  | .newline => read.value = read.bytes.length ∧
      ∃ front, read.bytes = front ++ [newline] ∧ newline ∉ front
  | .eof => read.value = read.bytes.length ∧ newline ∉ read.bytes ∧
      terminal.committed[read.position]? = some ctrlD
  | .killed => read.value = -1 ∧ newline ∉ read.bytes
  | .asleep => False

def ReadCall.number? : ReadCall → Option Nat
  | .idle => none
  | .waiting read _ _ => some read.number

@[simp] theorem ReadCall.wake_number (call : ReadCall) : call.wake.number? = call.number? := by
  cases call <;> rfl

/-- A call that has returned. -/
structure FinishedRead.Proper (read : FinishedRead) (system : ConsoleSystem) : Prop where
  stored : read.bytes = bytesOf system.delivered read.number
  begun : read.number < system.calls
  noEof : ctrlD ∉ read.bytes
  ends : read.Ends system.terminal

/-- The places of the `C('D')`s that have been used up, in the order of the calls that ended
there. -/
def ConsoleSystem.eofs (system : ConsoleSystem) : List Nat :=
  (system.finished.filter fun read => read.stop = .eof ∧ read.bytes = []).map (·.position)

structure ConsoleInvariant (system : ConsoleSystem) : Prop where
  shown : system.input.Shows system.terminal
  delivered : system.delivered.map Prod.snd =
    (system.terminal.committed.take system.terminal.consumed).filter (· ≠ ctrlD)
  numbered : ∀ entry ∈ system.delivered, entry.1 < system.calls
  waiting : ∀ process read n asleep, system.call process = .waiting read n asleep →
    system.Reading read n ∧ (asleep = true → system.input.r = system.input.w)
  alone : ∀ first second number, (system.call first).number? = some number →
    (system.call second).number? = some number → first = second
  finished : ∀ read ∈ system.finished, read.Proper system
  numbers : (system.finished.map (·.number)).Nodup
  eofs : system.eofs = ((List.range system.terminal.consumed).filter
    fun position => system.terminal.committed[position]? = some ctrlD).reverse

theorem ConsoleInvariant.boot : ConsoleInvariant .boot where
  shown := ⟨le_rfl, rfl, rfl, rfl, Carries.empty _, List.not_mem_nil⟩
  delivered := rfl
  numbered := fun _ member => absurd member List.not_mem_nil
  waiting := fun _ _ _ _ waits => by cases waits
  alone := fun _ _ _ waits => by cases waits
  finished := fun _ member => absurd member List.not_mem_nil
  numbers := List.nodup_nil
  eofs := rfl

/-! ### Keys and calls -/

theorem Terminal.key_grows (terminal : Terminal) (c : UInt8) :
    (terminal.key c).consumed = terminal.consumed ∧
      terminal.committed <+: (terminal.key c).committed := by
  grind [Terminal.key]

theorem Terminal.keys_grow (terminal : Terminal) (chars : List UInt8) :
    (chars.foldl Terminal.key terminal).consumed = terminal.consumed ∧
      terminal.committed <+: (chars.foldl Terminal.key terminal).committed := by
  induction chars generalizing terminal with
  | nil => exact ⟨rfl, List.prefix_rfl⟩
  | cons c chars inductionHypothesis => grind [key_grows]

theorem FinishedRead.Ends.grow {read : FinishedRead} {before after : Terminal}
    (ends : read.Ends before) (grows : before.committed <+: after.committed) : read.Ends after := by
  unfold FinishedRead.Ends at ends ⊢
  cases stop : read.stop with
  | eof =>
    rw [stop] at ends
    obtain ⟨more, isAfter⟩ := grows
    obtain ⟨inside, -⟩ := List.getElem?_eq_some_iff.mp ends.2.2
    refine ⟨ends.1, ends.2.1, ?_⟩
    rw [← isAfter, List.getElem?_append_left inside]
    exact ends.2.2
  | limit | newline | killed | asleep =>
    rw [stop] at ends
    exact ends

theorem ReadCall.wake_waiting {call : ReadCall} {read : ConsoleRead} {asleep : Bool}
    (waits : call.wake = .waiting read n asleep) :
    asleep = false ∧ ∃ before, call = .waiting read n before := by
  cases call with
  | idle => cases waits
  | waiting read n before =>
    cases waits
    exact ⟨rfl, before, rfl⟩

/-- Keys leave the used characters and every call as they are. -/
theorem ConsoleInvariant.intr {system : ConsoleSystem} (held : ConsoleInvariant system)
    (chars : List UInt8) {next : ConsoleSystem}
      (steps : consoleStep system (.intr chars) = some next) :
    ConsoleInvariant next := by
  obtain ⟨consumed, more, isCommitted⟩ := system.terminal.keys_grow chars
  obtain ⟨read, write⟩ := consoleintr_indices system.input chars
  cases steps
  refine ⟨held.shown.consoleintr chars, ?_, held.numbered, ?_, ?_, ?_, held.numbers, ?_⟩
  · grind [Input.Shows, ConsoleInvariant]
  · intro process call n asleep waits
    dsimp only at waits
    split_ifs at waits with wakes
    · grind [ReadCall.wake_waiting, ConsoleInvariant, ConsoleSystem.Reading]
    · grind [ConsoleInvariant, ConsoleSystem.Reading]
  · intro first second number firstHas secondHas
    dsimp only at firstHas secondHas
    split_ifs at firstHas secondHas
    · grind [ConsoleInvariant, ReadCall.wake_number]
    · exact held.alone first second number firstHas secondHas
  · grind [ConsoleInvariant, FinishedRead.Proper, FinishedRead.Ends.grow]
  · refine held.eofs.trans (congrArg List.reverse ?_)
    dsimp only
    rw [consumed]
    refine List.filter_congr fun position inside => ?_
    have before := (List.mem_range.mp inside).trans_le held.shown.consumed
    rw [← isCommitted, List.getElem?_append_left before]

/-! ### Turns -/

/-- How far the read index moves in a turn. -/
theorem ReadTurn.Takes.moved {turn : ReadTurn} {target write : UInt32}
    (takes : turn.Takes killed target n write terminal) (shown : input.Shows terminal) :
    (turn.input.r - input.r).toNat = turn.used target := by
  have inside := takes.shown.consumed
  have fits := shown.fits
  dsimp only at inside
  unfold inputBuf at fits
  rw [takes.shown.read, shown.read, toNat_ofNat_sub (Nat.le_add_right _ _) (by omega)]
  exact Nat.add_sub_cancel_left _ _

/-- A turn leaves nothing unread for a process that is asleep. -/
theorem ReadTurn.Takes.stays_empty {turn : ReadTurn} {target : UInt32}
    (takes : turn.Takes killed target n input.w terminal) (shown : input.Shows terminal)
    (nothing : input.r = input.w) : turn.input.r = turn.input.w := by
  have unread := shown.read_eq_write_iff.mp nothing
  rw [takes.shown.read_eq_write_iff]
  rw [Terminal.unread, List.drop_eq_nil_iff] at unread ⊢
  exact unread.trans (Nat.le_add_right _ _)

/-- A turn that ends in `sleep` leaves nothing unread. -/
theorem ReadTurn.Takes.asleep_empty {turn : ReadTurn} {target write : UInt32}
    (takes : turn.Takes killed target n write terminal) (asleep : turn.stop = .asleep) :
    turn.input.r = turn.input.w := by
  have ends := takes.ends
  unfold ReadTurn.Ends at ends
  rw [asleep] at ends
  have all := congrArg List.length ends.2.2.1
  rw [terminal.unread_length] at all
  rw [takes.shown.read_eq_write_iff, Terminal.unread, List.drop_eq_nil_iff]
  dsimp only
  have used : turn.bytes.length ≤ turn.used target := Nat.le_add_right _ _
  omega

section Turns

variable {system next : ConsoleSystem} {read : ConsoleRead} {n : UInt32}

section Results

variable (reading : system.Reading read n) {turn : ReadTurn} {killed : Bool}
  (takes : turn.Takes killed read.target n system.input.w system.terminal)
include reading

theorem ConsoleSystem.Reading.inRange_after (few : turn.bytes = [] ∨ n.toNat < 2 ^ 31) :
    read.bytes ++ turn.bytes = [] ∨ read.target.toNat < 2 ^ 31 := by
  grind [ConsoleSystem.Reading]

include takes

/-- The bytes of a call and what it has left, after a turn. -/
theorem ConsoleSystem.Reading.left_after :
    turn.n.toNat + (read.bytes ++ turn.bytes).length = read.target.toNat := by
  grind [ConsoleSystem.Reading, ReadTurn.Takes]

/-- A turn has stored nothing for the call exactly where `n < target` fails. -/
theorem ConsoleSystem.Reading.nothing_iff :
    read.bytes ++ turn.bytes = [] ↔ ¬ turn.n < read.target := by
  grind [left_after, UInt32.lt_iff_toNat_lt, List.length_eq_zero_iff]

section

variable (few : turn.bytes = [] ∨ n.toNat < 2 ^ 31)
include few

/-- `target - n` is the number of bytes stored. -/
theorem ConsoleSystem.Reading.value_after :
    (read.target - turn.n).toBitVec.toInt = ((read.bytes ++ turn.bytes).length : Int) := by
  have left := reading.left_after takes
  have count : (read.target - turn.n).toNat = (read.bytes ++ turn.bytes).length := by
    rw [UInt32.toNat_sub_of_le _ _ (UInt32.le_iff_toNat_le.mpr (by omega))]
    omega
  have inRange : (read.bytes ++ turn.bytes).length < 2 ^ 31 := by grind [ConsoleSystem.Reading]
  rw [BitVec.toInt_eq_toNat_of_lt (by rw [UInt32.toNat_toBitVec]; omega), UInt32.toNat_toBitVec,
    count]

/-- A call that stops at its limit has stored as many bytes as it was asked for. -/
theorem ConsoleSystem.Reading.limit_after (limit : turn.n.toBitVec.toInt ≤ 0) :
    (read.bytes ++ turn.bytes).length = read.target.toBitVec.toInt.toNat := by
  have left := reading.left_after takes
  rcases reading.inRange_after few with none | inRange
  · grind [UInt32.toNat_inj]
  · grind [UInt32.toNat_toBitVec]

/-- Why the call ends. -/
theorem ConsoleSystem.Reading.ends_after (awake : turn.stop ≠ .asleep) :
    FinishedRead.Ends
      { number := read.number, target := read.target, bytes := read.bytes ++ turn.bytes
        value := if turn.stop = .killed then -1 else (read.target - turn.n).toBitVec.toInt
        stop := turn.stop
        position := system.terminal.consumed + turn.bytes.length } system.terminal := by
  have value := reading.value_after takes few
  have absent (absentNow : newline ∉ turn.bytes) : newline ∉ read.bytes ++ turn.bytes :=
    fun member => (List.mem_append.mp member).elim reading.noNewline absentNow
  have ends := takes.ends
  unfold ReadTurn.Ends at ends
  unfold FinishedRead.Ends
  dsimp only
  cases stop : turn.stop with
  | limit => grind [limit_after]
  | newline => grind [ConsoleSystem.Reading]
  | eof =>
    rw [stop] at ends
    refine ⟨value, absent ends.2.1, ?_⟩
    rw [← List.getElem?_drop]
    exact ends.2.2
  | killed => grind
  | asleep => exact absurd stop awake

end

end Results

section Others

variable {number : Nat} {bytes : List UInt8}
  (delivered : next.delivered = system.delivered ++ bytes.map fun byte => (number, byte))
  (calls : next.calls = system.calls)
include delivered calls

theorem ConsoleSystem.Reading.other (reading : system.Reading read n)
    (different : read.number ≠ number)
    (finished : ∀ call ∈ next.finished, call ∈ system.finished ∨ call.number = number) :
    next.Reading read n where
  left := reading.left
  inRange := reading.inRange
  noEof := reading.noEof
  noNewline := reading.noNewline
  stored := by rw [delivered, bytesOf_other _ _ different, ← reading.stored]
  begun := calls ▸ reading.begun
  pending := by grind [ConsoleSystem.Reading]

theorem FinishedRead.Proper.other {call : FinishedRead} (proper : call.Proper system)
    (different : call.number ≠ number)
    (committed : next.terminal.committed = system.terminal.committed) : call.Proper next where
  stored := by rw [delivered, bytesOf_other _ _ different, ← proper.stored]
  begun := calls ▸ proper.begun
  noEof := proper.noEof
  ends := proper.ends.grow (committed ▸ List.prefix_rfl)

end Others

omit system next read n in
/-- Only one process has a number, also after a turn of the process that has it. -/
theorem alone_update {call : Fin nproc → ReadCall} {process : Fin nproc} {number : Nat}
    (alone : ∀ first second number, (call first).number? = some number →
      (call second).number? = some number → first = second)
    (others : ∀ other ≠ process, (call other).number? ≠ some number) {after : ReadCall}
    (own : after.number? = none ∨ after.number? = some number) (first second : Fin nproc)
    (shared : Nat) (firstHas : (Function.update call process after first).number? = some shared)
    (secondHas : (Function.update call process after second).number? = some shared) :
    first = second := by
  grind

/-- A turn of a call keeps the invariant. -/
theorem ConsoleInvariant.afterTurn (held : ConsoleInvariant system) {process : Fin nproc}
    (reading : system.Reading read n)
    (others : ∀ other ≠ process, (system.call other).number? ≠ some read.number) {turn : ReadTurn}
    (takes : turn.Takes killed read.target n system.input.w system.terminal)
    (few : turn.bytes = [] ∨ n.toNat < 2 ^ 31) :
    ConsoleInvariant (system.afterTurn process read turn) := by
  have moved := takes.moved held.shown
  have own : read.bytes ++ turn.bytes = bytesOf (system.delivered ++
      turn.bytes.map fun byte => (read.number, byte)) read.number := by
    rw [bytesOf_own, ← reading.stored]
  have noEof : ctrlD ∉ read.bytes ++ turn.bytes :=
    fun member => (List.mem_append.mp member).elim reading.noEof takes.noEof
  have delivered : (system.delivered ++ turn.bytes.map fun byte => (read.number, byte)).map
    Prod.snd =
      (system.terminal.committed.take (system.terminal.consumed + turn.used read.target)).filter
        (· ≠ ctrlD) := by
    rw [takes.stream, List.map_append, held.delivered, List.map_map]
    simp [Function.comp_def]
  have numbered : ∀ entry ∈ system.delivered ++ turn.bytes.map fun byte => (read.number, byte),
      entry.1 < system.calls := by
    intro entry member
    rcases List.mem_append.mp member with earlier | isNew
    · exact held.numbered entry earlier
    · grind [ConsoleSystem.Reading]
  have different {other : Fin nproc} {otherRead : ConsoleRead} {left : UInt32} {isAsleep : Bool}
      (waits : system.call other = .waiting otherRead left isAsleep) (isOther : other ≠ process) :
      otherRead.number ≠ read.number := by
    intro same
    refine others other isOther ?_
    rw [waits, ReadCall.number?, same]
  have stillAsleep : system.input.r = system.input.w → turn.input.r = turn.input.w :=
    takes.stays_empty held.shown
  unfold ConsoleSystem.afterTurn
  dsimp only
  rw [moved]
  by_cases asleep : turn.stop = .asleep
  · rw [if_pos asleep]
    have ends := takes.ends
    unfold ReadTurn.Ends at ends
    rw [asleep] at ends
    refine ⟨takes.shown, delivered, numbered, ?_, ?_, ?_, held.numbers, ?_⟩
    · intro other otherRead left isAsleep waits
      dsimp only at waits
      by_cases isOwn : other = process
      · rw [isOwn, Function.update_self] at waits
        cases waits
        refine ⟨⟨reading.left_after takes, reading.inRange_after few, noEof, ?_, own,
          reading.begun, reading.pending⟩, fun _ => takes.asleep_empty asleep⟩
        exact fun member => (List.mem_append.mp member).elim reading.noNewline ends.2.1
      · rw [Function.update_of_ne isOwn] at waits
        obtain ⟨otherReading, sleeps⟩ := held.waiting other otherRead left isAsleep waits
        exact ⟨otherReading.other rfl rfl (different waits isOwn) fun _ member => .inl member,
          fun isAsleep => stillAsleep (sleeps isAsleep)⟩
    · exact alone_update held.alone others (.inr rfl)
    · grind [FinishedRead.Proper.other, ConsoleInvariant, ConsoleSystem.Reading]
    · refine held.eofs.trans (congrArg List.reverse ?_)
      dsimp only
      rw [takes.eofs, if_neg (fun isEof => by rw [asleep] at isEof; cases isEof.1), List.append_nil]
  · rw [if_neg asleep]
    refine ⟨takes.shown, delivered, numbered, ?_, ?_, ?_, ?_, ?_⟩
    · intro other otherRead left isAsleep waits
      dsimp only at waits
      by_cases isOwn : other = process
      · grind
      · rw [Function.update_of_ne isOwn] at waits
        obtain ⟨otherReading, sleeps⟩ := held.waiting other otherRead left isAsleep waits
        refine ⟨otherReading.other rfl rfl (different waits isOwn) fun call member => ?_,
          fun isAsleep => stillAsleep (sleeps isAsleep)⟩
        rcases List.mem_cons.mp member with rfl | earlier
        · exact .inr rfl
        · exact .inl earlier
    · exact alone_update held.alone others (.inl rfl)
    · intro call member
      rcases List.mem_cons.mp member with rfl | earlier
      · exact ⟨own, reading.begun, noEof, (reading.ends_after takes few asleep).grow
          List.prefix_rfl⟩
      · grind [FinishedRead.Proper.other, ConsoleInvariant, ConsoleSystem.Reading]
    · rw [List.map_cons, List.nodup_cons]
      refine ⟨?_, held.numbers⟩
      intro member
      obtain ⟨call, earlier, same⟩ := List.mem_map.mp member
      exact reading.pending call earlier same
    · have before := held.eofs
      unfold ConsoleSystem.eofs at before ⊢
      dsimp only
      rw [takes.eofs, List.filter_cons]
      by_cases usesEof : turn.stop = .eof ∧ ¬ turn.n < read.target
      · grind [ConsoleSystem.Reading.nothing_iff]
      · grind [ConsoleSystem.Reading.nothing_iff]

end Turns

/-- Every step keeps the invariant. -/
theorem ConsoleInvariant.step {system next : ConsoleSystem} (held : ConsoleInvariant system)
    (action : ConsoleAction) (steps : consoleStep system action = some next) :
    ConsoleInvariant next := by
  cases action with
  | intr chars => exact held.intr chars steps
  | read process killed n =>
    cases before : system.call process with
    | waiting read left asleep => grind [consoleStep]
    | idle =>
      rw [consoleStep, before] at steps
      cases steps
      have begun : ConsoleInvariant { system with calls := system.calls + 1 } := by
        refine ⟨held.shown, held.delivered, ?_, ?_, held.alone, ?_, held.numbers, held.eofs⟩
        · exact fun entry member => (held.numbered entry member).trans (Nat.lt_succ_self _)
        · grind [ConsoleInvariant, ConsoleSystem.Reading]
        · grind [ConsoleInvariant, FinishedRead.Proper]
      have nothing : bytesOf system.delivered system.calls = [] := by
        grind [bytesOf, List.filter_eq_nil_iff, ConsoleInvariant]
      refine begun.afterTurn (n := n) ⟨rfl, .inl rfl, List.not_mem_nil, List.not_mem_nil,
        nothing.symm, Nat.lt_succ_self _, ?_⟩ ?_ (consoleread_takes held.shown killed n n)
        (consoleread_few _ _ _ _)
      · exact fun call member => (held.finished call member).begun.ne
      · intro other _ isNew
        dsimp only at isNew
        cases waits : system.call other with
        | idle =>
          rw [waits] at isNew
          cases isNew
        | waiting read left asleep =>
          rw [waits] at isNew
          exact (held.waiting other read left asleep waits).1.begun.ne (Option.some.inj isNew)
  | resume process killed =>
    cases before : system.call process with
    | idle => grind [consoleStep]
    | waiting read left asleep =>
      cases asleep with
      | true => grind [consoleStep]
      | false =>
        rw [consoleStep, before] at steps
        cases steps
        refine held.afterTurn (held.waiting process read left false before).1 ?_
          (consoleread_takes held.shown killed read.target left) (consoleread_few _ _ _ _)
        intro other isOther has
        refine isOther (held.alone other process read.number has ?_)
        rw [before]
        rfl
  | kill process =>
    cases steps
    refine ⟨held.shown, held.delivered, held.numbered, ?_, ?_, ?_, held.numbers, held.eofs⟩
    · intro other read left asleep waits
      dsimp only at waits
      have kept (reading : system.Reading read left) :
          ConsoleSystem.Reading { system with
            call := Function.update system.call process (system.call process).wake } read left :=
        ⟨reading.left, reading.inRange, reading.noEof, reading.noNewline, reading.stored,
          reading.begun, reading.pending⟩
      by_cases isOwn : other = process
      · grind [ReadCall.wake_waiting, ConsoleInvariant]
      · grind [ConsoleInvariant]
    · have same (other : Fin nproc) :
          (Function.update system.call process (system.call process).wake other).number? =
            (system.call other).number? := by
        grind [ReadCall.wake_number]
      intro first second number firstHas secondHas
      dsimp only at firstHas secondHas
      rw [same] at firstHas secondHas
      exact held.alone first second number firstHas secondHas
    · grind [ConsoleInvariant, FinishedRead.Proper]

/-! ### The line discipline -/

/-- What holds of the console and its readers in every state. -/
structure ConsoleSystem.Disciplined (system : ConsoleSystem) : Prop where
  ordered : (system.input.w - system.input.r).toNat ≤ (system.input.e - system.input.r).toNat
  bounded : (system.input.e - system.input.r).toNat ≤ inputBuf
  /-- Backspace and `C('U')` take characters only off the line that is not committed yet. -/
  erases : ∀ c, c = ctrlH ∨ c = delete ∨ c = ctrlU →
    (consoleKey system.input c).1.buf = system.input.buf ∧
    (consoleKey system.input c).1.r = system.input.r ∧
    (consoleKey system.input c).1.w = system.input.w ∧
    ((consoleKey system.input c).1.e - system.input.w).toNat ≤
      (system.input.e - system.input.w).toNat
  /-- The committed characters that no call has used are those from `r` to `w`, in order. -/
  shown : system.input.Shows system.terminal
  /-- The bytes that have been stored, over all calls, in order. -/
  delivered : system.delivered.map Prod.snd =
    (system.terminal.committed.take system.terminal.consumed).filter (· ≠ ctrlD)
  /-- The calls that have returned, each with its own bytes and its reason. -/
  finished : ∀ read ∈ system.finished, read.Proper system
  numbers : (system.finished.map (·.number)).Nodup
  /-- A call that has not returned has its own bytes, with no newline, and is short of its limit;
  it sleeps only while there is nothing to read. -/
  waiting : ∀ process read n asleep, system.call process = .waiting read n asleep →
    system.Reading read n ∧ (asleep = true → system.input.r = system.input.w)
  /-- Each used up `C('D')` ended one call, which had stored nothing. -/
  eofs : system.eofs = ((List.range system.terminal.consumed).filter
    fun position => system.terminal.committed[position]? = some ctrlD).reverse

theorem Input.Shows.erases (shown : input.Shows terminal) {c : UInt8}
    (erases : c = ctrlH ∨ c = delete ∨ c = ctrlU) :
    (Xk.consoleKey input c).1.buf = input.buf ∧ (Xk.consoleKey input c).1.r = input.r ∧
      (Xk.consoleKey input c).1.w = input.w ∧
      ((Xk.consoleKey input c).1.e - input.w).toNat ≤ (input.e - input.w).toNat := by
  have notP : c ≠ ctrlP := by grind
  have quiet : (Xk.consoleKey input c).2 = false ∧ (Xk.consoleKey input c).1.buf = input.buf := by
    grind [Xk.consoleKey, killLine_indices]
  have shorter : (terminal.key c).line.length ≤ terminal.line.length := by grind [Terminal.key]
  obtain ⟨read, write⟩ := consoleKey_indices input c
  have after := (shown.key c).toNat_edit_sub_write
  rw [write quiet.1] at after
  refine ⟨quiet.2, read, write quiet.1, ?_⟩
  rw [after, shown.toNat_edit_sub_write]
  exact shorter

/-- In every run of the keyboard and the readers the console keeps its line discipline. -/
theorem console_disciplined (actions : List ConsoleAction) {system : ConsoleSystem}
    (ran : run consoleStep .boot actions = some system) : system.Disciplined := by
  have held : ConsoleInvariant system := run_invariant ConsoleInvariant
    (fun _ action _ steps held => held.step action steps) ran ConsoleInvariant.boot
  have bounded := held.shown.fits
  have length := system.terminal.unread_length
  have inside := held.shown.consumed
  refine ⟨?_, ?_, fun _ => held.shown.erases, held.shown, held.delivered,
    held.finished, held.numbers,
    held.waiting, held.eofs⟩
  · rw [held.shown.toNat_write_sub_read, held.shown.toNat_edit_sub_read]
    exact Nat.le_add_right _ _
  · rw [held.shown.toNat_edit_sub_read]
    omega

/-- A process waits for a line, `x`, backspace, `y`, return and `C('D')` are typed, and the process
reads the line and then the end of the file. -/
def lineAndEof : List ConsoleAction :=
  [.read 0 false 8, .intr [120, ctrlH, 121, carriageReturn, ctrlD], .resume 0 false,
    .read 0 false 8]

theorem console_disciplined_lineAndEof : ∃ system,
    run consoleStep .boot lineAndEof = some system ∧
    system.delivered = [(0, 121), (0, newline)] ∧ system.finished.map (·.value) = [0, 2] ∧
    system.Disciplined :=
  ⟨_, rfl, by decide, by decide, console_disciplined lineAndEof rfl⟩

end Xk
