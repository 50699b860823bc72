/-
This file models the input side of `kernel/console.c`: the buffer with its three indices, the keys
that `consoleintr` takes and the loop of `consoleread`, for processes that read at the same time.

`consoleintr` has the lock of the console for all the characters that `getc` has, and `consoleread`
from its start, or from where it wakes up, to its next `sleep` or its return. So these are the steps.
The echo of the characters and the listing of the processes are left out.

The history is not part of the kernel's state: what a terminal on which one line is edited would
have, the bytes that were stored for each call, and the calls that have returned.
-/

import Xk.Params
import Xk.RingBuffer
import Xk.Transition

namespace Xk

open RingBuffer Transition

/-! ### The buffer -/

/-- `INPUT_BUF`. -/
abbrev inputBuf : Nat := 128

instance : NeZero inputBuf := ⟨by decide⟩

/-- The variable `input`. -/
structure Input where
  buf : Fin inputBuf → UInt8
  r : UInt32
  w : UInt32
  e : UInt32

/-- The place `index % INPUT_BUF`. -/
def Input.slot (index : UInt32) : Fin inputBuf := place inputBuf index.toNat

/-- `C('D')`, the end of a file. -/
abbrev ctrlD : UInt8 := 4

/-- `C('H')`. -/
abbrev ctrlH : UInt8 := 8

/-- `C('P')`. -/
abbrev ctrlP : UInt8 := 16

/-- `C('U')`. -/
abbrev ctrlU : UInt8 := 21

/-- The character `'\x7f'`. -/
abbrev delete : UInt8 := 127

/-- The character `'\n'`. -/
abbrev newline : UInt8 := 10

/-- The character `'\r'`. -/
abbrev carriageReturn : UInt8 := 13

/-! ### `consoleintr` -/

/-- The loop for `C('U')`, which moves `e` back to `w` or to a newline. -/
def killLine : Nat → Input → Input
  | 0, input => input
  | turns + 1, input =>
    if input.e ≠ input.w ∧ input.buf (Input.slot (input.e - 1)) ≠ newline then
      killLine turns { input with e := input.e - 1 }
    else input

/-- The body of the loop of `consoleintr`, for a character that is not negative; whether it calls
`wakeup(&input.r)`. -/
def consoleKey (input : Input) (c : UInt8) : Input × Bool :=
  if c = ctrlP then (input, false)
  else if c = ctrlU then (killLine (input.e - input.w).toNat input, false)
  else if c = ctrlH ∨ c = delete then
    (if input.e ≠ input.w then { input with e := input.e - 1 } else input, false)
  else if c ≠ 0 ∧ input.e - input.r < 128 then
    let c := if c = carriageReturn then newline else c
    let input : Input := { input with
      buf := Function.update input.buf (Input.slot input.e) c
      e := input.e + 1 }
    if c = newline ∨ c = ctrlD ∨ input.e = input.r + 128 then ({ input with w := input.e }, true)
    else (input, false)
  else (input, false)

/-- `consoleintr(getc)` for the characters that `getc` returns before it returns `-1`. -/
def consoleintr (input : Input) : List UInt8 → Input × Bool
  | [] => (input, false)
  | c :: chars =>
    let (input, wakes) := consoleKey input c
    let (input, wakesLater) := consoleintr input chars
    (input, wakes || wakesLater)

/-! ### `consoleread` -/

/-- Why the loop of `consoleread` ends: `n` is zero, a newline is stored, there is a `C('D')`, the
process is killed, or it goes to sleep. -/
inductive ReadStop
  | limit
  | newline
  | eof
  | killed
  | asleep
deriving DecidableEq

/-- What the loop leaves: `n`, the bytes it has stored, the buffer, and why it ends. -/
structure ReadTurn where
  n : UInt32
  bytes : List UInt8
  input : Input
  stop : ReadStop

/-- The loop of `consoleread` up to `sleep` or the end of the call. The bits of the `int` variable
`n` are given as an unsigned number, and `killed` is what `myproc()->killed` is when there is nothing
to read. -/
def consolereadLoop (killed : Bool) (target : UInt32) : Nat → UInt32 → Input → ReadTurn
  | 0, n, input => ⟨n, [], input, .limit⟩
  | turns + 1, n, input =>
    if 0 < n.toBitVec.toInt then
      if input.r = input.w then ⟨n, [], input, if killed then .killed else .asleep⟩
      else
        let c := input.buf (Input.slot input.r)
        let input : Input := { input with r := input.r + 1 }
        if c = ctrlD then
          if n < target then ⟨n, [], { input with r := input.r - 1 }, .eof⟩
          else ⟨n, [], input, .eof⟩
        else if c = newline then ⟨n - 1, [c], input, .newline⟩
        else
          let rest := consolereadLoop killed target turns (n - 1) input
          { rest with bytes := c :: rest.bytes }
    else ⟨n, [], input, .limit⟩

/-- `consoleread(ip, dst, n)` from its start, or from where `sleep` returns. -/
def consoleread (input : Input) (killed : Bool) (target n : UInt32) : ReadTurn :=
  consolereadLoop killed target n.toBitVec.toInt.toNat n input

/-! ### The line discipline -/

/-- A terminal on which one line is edited: the characters that have been committed, the number of
them that reads have used up, and the line since the last commit. -/
structure Terminal where
  committed : List UInt8
  consumed : Nat
  line : List UInt8
deriving DecidableEq

/-- The committed characters that no read has used up. -/
def Terminal.unread (terminal : Terminal) : List UInt8 :=
  terminal.committed.drop terminal.consumed

/-- What a key does. The line is committed with a newline, with a `C('D')`, and when there is no room
for another character. -/
def Terminal.key (terminal : Terminal) (c : UInt8) : Terminal :=
  if c = ctrlP then terminal
  else if c = ctrlU then { terminal with line := [] }
  else if c = ctrlH ∨ c = delete then { terminal with line := terminal.line.dropLast }
  else if c ≠ 0 ∧ terminal.unread.length + terminal.line.length < inputBuf then
    let c := if c = carriageReturn then newline else c
    let line := terminal.line ++ [c]
    if c = newline ∨ c = ctrlD ∨ terminal.unread.length + line.length = inputBuf then
      { terminal with committed := terminal.committed ++ line, line := [] }
    else { terminal with line := line }
  else terminal

/-! ### The system -/

/-- A call of `consoleread`, with a number of its own: its third argument and the bytes stored so
far. -/
structure ConsoleRead where
  number : Nat
  target : UInt32
  bytes : List UInt8

/-- Where a process is in `consoleread`: it has `n` bytes left to read and is in `sleep`, or has
been woken up there. -/
inductive ReadCall
  | idle
  | waiting (read : ConsoleRead) (n : UInt32) (asleep : Bool)

/-- A call that has returned, with the value, why it ended, and how many committed characters had
been used up when it met its end, but for a `C('D')` there. -/
structure FinishedRead extends ConsoleRead where
  value : Int
  stop : ReadStop
  position : Nat

/-- The console and the processes that read from it. -/
structure ConsoleSystem where
  input : Input
  call : Fin nproc → ReadCall
  /-- The history. -/
  terminal : Terminal
  calls : Nat
  delivered : List (Nat × UInt8)
  finished : List FinishedRead

/-- After `consoleinit`. -/
def ConsoleSystem.boot : ConsoleSystem where
  input := ⟨fun _ => 0, 0, 0, 0⟩
  call := fun _ => .idle
  terminal := ⟨[], 0, []⟩
  calls := 0
  delivered := []
  finished := []

/-- What processes and the keyboard do. A process reads `killed` where `consoleread` does. -/
inductive ConsoleAction
  | intr (chars : List UInt8)
  | read (process : Fin nproc) (killed : Bool) (n : UInt32)
  | resume (process : Fin nproc) (killed : Bool)
  | kill (process : Fin nproc)

/-- `wakeup` of one process. -/
def ReadCall.wake : ReadCall → ReadCall
  | .idle => .idle
  | .waiting read n _ => .waiting read n false

/-- The rest of `consoleread` after its loop: the call sleeps or returns. -/
def ConsoleSystem.afterTurn (system : ConsoleSystem) (process : Fin nproc) (read : ConsoleRead)
    (turn : ReadTurn) : ConsoleSystem :=
  let after : ConsoleRead := { read with bytes := read.bytes ++ turn.bytes }
  let used := (turn.input.r - system.input.r).toNat
  let moved : ConsoleSystem := { system with
    input := turn.input
    terminal := { system.terminal with consumed := system.terminal.consumed + used }
    delivered := system.delivered ++ turn.bytes.map fun byte => (read.number, byte) }
  if turn.stop = .asleep then
    { moved with call := Function.update system.call process (.waiting after turn.n true) }
  else
    { moved with
      call := Function.update system.call process .idle
      finished := { toConsoleRead := after
                    value := if turn.stop = .killed then -1 else
                      (read.target - turn.n).toBitVec.toInt
                    stop := turn.stop
                    position := system.terminal.consumed + turn.bytes.length } :: system.finished }

/-- One step. -/
def consoleStep (system : ConsoleSystem) : ConsoleAction → Option ConsoleSystem
  | .intr chars =>
    let (input, wakes) := consoleintr system.input chars
    some { system with
      input := input
      call := if wakes then fun process => (system.call process).wake else system.call
      terminal := chars.foldl Terminal.key system.terminal }
  | .read process killed n =>
    match system.call process with
    | .idle => some ({ system with calls := system.calls + 1 }.afterTurn process
        ⟨system.calls, n, []⟩ (consoleread system.input killed n n))
    | .waiting _ _ _ => none
  | .resume process killed =>
    match system.call process with
    | .waiting read n false =>
      some (system.afterTurn process read (consoleread system.input killed read.target n))
    | _ => none
  | .kill process =>
    some { system with call := Function.update system.call process (system.call process).wake }

end Xk
