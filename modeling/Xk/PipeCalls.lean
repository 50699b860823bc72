/-
This file models the calls on descriptors of `kernel/file.c` while processes run at the same time:
`fileread`, `filewrite` and `filestat` in full, with the lock of each pipe, `sleep` and `wakeup` on
its two channels, and `kill`.

A call on a file with an inode is one step. A call on a pipe is a step for every turn of its loops,
so that a `fileclose`, which takes another lock, can fall between any two of them: `ref` and
`killed` are what a call reads that the lock of the pipe does not guard. A process that waits for
the lock has not made the step that takes it.

The history is not part of the kernel's state: what has been stored in a pipe and copied out of it
since `pipe` made it, and which end of the pipe a descriptor comes from.
-/

import Xk.FileCursor
import Xk.Transition

namespace Xk

/-! ### The state -/

/-- The two channels of a pipe: the addresses of its `read_fd` and `write_fd`. -/
inductive PipeChan
  | read (slot : Fin nfile)
  | write (slot : Fin nfile)
deriving DecidableEq

/-- A call of `filewrite` on a pipe, with a number of its own. -/
structure PipeWrite where
  number : Nat
  data : List UInt8
deriving DecidableEq

/-- Where a process is in a call on a pipe. -/
inductive PipeCall
  | idle
  /-- At the head of the loop of `fileread` that waits for bytes, with the lock. -/
  | reading (slot : Fin nfile) (bytesRead : Int)
  /-- In that loop, past the tests, with the lock. -/
  | emptied (slot : Fin nfile) (bytesRead : Int)
  /-- In `sleep` on the channel of the readers. -/
  | readAsleep (slot : Fin nfile) (bytesRead : Int)
  /-- In the loop of `fileread` that copies, with the lock and the bytes copied so far. -/
  | copying (slot : Fin nfile) (bytesRead : Int) (bytes : List UInt8)
  /-- In the loop of `filewrite`, with the lock and the bytes that are left. -/
  | writing (slot : Fin nfile) (write : PipeWrite) (rest : List UInt8)
  /-- In `sleep` on the channel of the writers. -/
  | writeAsleep (slot : Fin nfile) (write : PipeWrite) (rest : List UInt8)
deriving DecidableEq

/-- The pipe that a call is on. -/
def PipeCall.slot : PipeCall → Option (Fin nfile)
  | .idle => none
  | .reading slot _ | .emptied slot _ | .readAsleep slot _ | .copying slot _ _
  | .writing slot _ _ | .writeAsleep slot _ _ => some slot

/-- The pipe whose lock a call has. -/
def PipeCall.holds : PipeCall → Option (Fin nfile)
  | .idle | .readAsleep _ _ | .writeAsleep _ _ _ => none
  | .reading slot _ | .emptied slot _ | .copying slot _ _ | .writing slot _ _ => some slot

/-- `p->chan` of a process that is in `sleep`. -/
def PipeCall.chan : PipeCall → Option PipeChan
  | .readAsleep slot _ => some (.read slot)
  | .writeAsleep slot _ _ => some (.write slot)
  | _ => none

/-- `struct stat`. -/
structure Stat where
  dev : UInt32
  ino : UInt32
  type : UInt16
  size : UInt32

/-- What a call returned and what it stored in the caller's buffer. -/
structure CallResult where
  value : Int
  bytes : List UInt8
  stat : Option Stat

/-- The end of a pipe that a descriptor comes from. -/
inductive PipeEnd
  | read
  | write
deriving DecidableEq

/-- What has happened on a pipe since it was made: the bytes stored, each with the number of its
write, the bytes copied out, and the writes that returned their full length. -/
structure PipeHistory where
  stored : List (Nat × UInt8)
  delivered : List UInt8
  finished : List PipeWrite

/-- The tables, the file system, and where every process is in its call. -/
structure CallSystem where
  tables : FileTables
  fs : FileSystem
  killed : Fin nproc → Bool
  holder : Fin nfile → Option (Fin nproc)
  call : Fin nproc → PipeCall
  result : Fin nproc → Option CallResult
  writes : Nat
  history : Fin nfile → PipeHistory
  ends : Descriptor → Option PipeEnd

namespace CallSystem

variable (system : CallSystem)

/-- The pipe buffer of a slot. -/
def pipeAt (slot : Fin nfile) : Pipe := (system.tables.ftable slot).pipeBuffer

def setCall (process : Fin nproc) (call : PipeCall) : CallSystem :=
  { system with call := Function.update system.call process call }

/-- `acquire` of the lock of a pipe that is free. -/
def acquire (process : Fin nproc) (slot : Fin nfile) : CallSystem :=
  { system with holder := Function.update system.holder slot (some process) }

/-- `release` of the lock of a pipe. -/
def release (slot : Fin nfile) : CallSystem :=
  { system with holder := Function.update system.holder slot none }

/-- A call returns. -/
def finish (process : Fin nproc) (result : CallResult) : CallSystem :=
  { system with
    call := Function.update system.call process .idle
    result := Function.update system.result process (some result) }

def setState (process : Fin nproc) (state : ProcState) : CallSystem :=
  { system with tables := { system.tables with
      state := Function.update system.tables.state process state } }

/-- `wakeup(chan)`. -/
def wakeup (chan : PipeChan) : CallSystem :=
  { system with tables := { system.tables with
      state := fun process =>
        if system.tables.state process = .sleeping ∧ (system.call process).chan = some chan then
          .runnable
        else system.tables.state process } }

/-- `sleep` on the channel of `call`, which releases the lock of the pipe. -/
def sleep (process : Fin nproc) (slot : Fin nfile) (call : PipeCall) : CallSystem :=
  ((system.setCall process call).setState process .sleeping).release slot

def setPipe (slot : Fin nfile) (pipe : Pipe) : CallSystem :=
  { system with
    tables := system.tables.store slot { system.tables.ftable slot with pipeBuffer := pipe } }

def setHistory (slot : Fin nfile) (history : PipeHistory) : CallSystem :=
  { system with history := Function.update system.history slot history }

end CallSystem

/-! ### The turns of a call on a pipe -/

/-- `sizeof(f->pipe_buffer.buf)`. -/
abbrev pipeSize : Nat := 2048

/-- The place `index % size` of the buffer. The remainder has the sign of the index, so that it may
lie outside of the array. -/
def pipePlace (index : Int) : Option (Fin pipeSize) :=
  if inside : 0 ≤ index.tmod pipeSize ∧ index.tmod pipeSize < pipeSize then
    some ⟨(index.tmod pipeSize).toNat, by omega⟩
  else none

/-- The pipe has no room: `tail - head == size`. -/
def Pipe.Full (pipe : Pipe) : Prop := wrapInt (pipe.tail - pipe.head) = pipeSize

instance (pipe : Pipe) : Decidable pipe.Full := inferInstanceAs (Decidable (_ = _))

namespace CallSystem

variable (system : CallSystem)

/-- The end of `fileread`, after its loops. -/
def endRead (process : Fin nproc) (slot : Fin nfile) (bytes : List UInt8) : CallSystem :=
  ((system.wakeup (.write slot)).release slot).finish process ⟨bytes.length, bytes, none⟩

/-- A turn of the loop of `fileread` that waits for bytes, up to its `sleep`. -/
def readTurn (process : Fin nproc) (slot : Fin nfile) (bytesRead : Int) : CallSystem :=
  let file := system.tables.ftable slot
  if file.pipeBuffer.head ≠ file.pipeBuffer.tail then
    system.setCall process (.copying slot bytesRead [])
  else if system.killed process then (system.release slot).finish process ⟨-1, [], none⟩
  else if file.ref = 1 then (system.release slot).finish process ⟨0, [], none⟩
  else system.setCall process (.emptied slot bytesRead)

/-- One byte moves from the pipe to the buffer of the caller. -/
def copyByte (process : Fin nproc) (slot : Fin nfile) (bytesRead : Int) (bytes : List UInt8)
    (byte : UInt8) : CallSystem :=
  let pipe := system.pipeAt slot
  let history := system.history slot
  ((system.setPipe slot { pipe with head := wrapInt (pipe.head + 1) }).setHistory slot
    { history with delivered := history.delivered ++ [byte] }).setCall process
      (.copying slot bytesRead (bytes ++ [byte]))

/-- A turn of the loop of `fileread` that copies. A killed process returns with the lock. -/
def copyTurn (process : Fin nproc) (slot : Fin nfile) (bytesRead : Int) (bytes : List UInt8) :
    Option CallSystem :=
  let pipe := system.pipeAt slot
  if (bytes.length : Int) < bytesRead then
    if system.killed process then some (system.finish process ⟨-1, bytes, none⟩)
    else if pipe.head = pipe.tail then some (system.endRead process slot bytes)
    else (pipePlace pipe.head).map fun place =>
      system.copyByte process slot bytesRead bytes (pipe.buf place)
  else some (system.endRead process slot bytes)

/-- The end of `filewrite`, after its loop. -/
def endWrite (process : Fin nproc) (slot : Fin nfile) (write : PipeWrite) : CallSystem :=
  let history := system.history slot
  (((system.wakeup (.read slot)).release slot).setHistory slot
    { history with finished := history.finished ++ [write] }).finish process
      ⟨write.data.length, [], none⟩

/-- One byte moves from the buffer of the caller to a place of the pipe. -/
def storeByte (process : Fin nproc) (slot : Fin nfile) (write : PipeWrite) (byte : UInt8)
    (rest : List UInt8) (place : Fin pipeSize) : CallSystem :=
  let pipe := system.pipeAt slot
  let history := system.history slot
  ((system.setPipe slot { pipe with
      buf := Function.update pipe.buf place byte, tail := wrapInt (pipe.tail + 1) }).setHistory slot
    { history with stored := history.stored ++ [(write.number, byte)] }).setCall process
      (.writing slot write rest)

/-- A turn of the loop of `filewrite`. -/
def writeTurn (process : Fin nproc) (slot : Fin nfile) (write : PipeWrite) :
    List UInt8 → Option CallSystem
  | [] => some (system.endWrite process slot write)
  | byte :: rest =>
    let file := system.tables.ftable slot
    if file.pipeBuffer.Full then
      some ((system.wakeup (.read slot)).sleep process slot
        (.writeAsleep slot write (byte :: rest)))
    else if file.ref = 1 then some ((system.release slot).finish process ⟨-1, [], none⟩)
    else (pipePlace file.pipeBuffer.tail).map fun place =>
      system.storeByte process slot write byte rest place

/-- The end of `sleep`: the process takes the lock again. -/
def resume (process : Fin nproc) (slot : Fin nfile) (call : PipeCall) : Option CallSystem :=
  if system.holder slot = none then some ((system.acquire process slot).setCall process call)
  else none

/-- The next turn of the call of a process. -/
def turn (process : Fin nproc) : Option CallSystem :=
  match system.call process with
  | .idle => none
  | .reading slot bytesRead => some (system.readTurn process slot bytesRead)
  | .emptied slot bytesRead =>
    some ((system.wakeup (.write slot)).sleep process slot (.readAsleep slot bytesRead))
  | .readAsleep slot bytesRead => system.resume process slot (.reading slot bytesRead)
  | .copying slot bytesRead bytes => system.copyTurn process slot bytesRead bytes
  | .writing slot write rest => system.writeTurn process slot write rest
  | .writeAsleep slot write rest => system.resume process slot (.writing slot write rest)

end CallSystem

/-! ### The calls -/

/-- `concurrent_stati(ip, st)`. -/
def concurrentStati (fs : FileSystem) (ip : Fin ninode) : Except Halt (Stat × FileSystem) := do
  let locked ← locki fs ip
  let inode := locked.inode ip
  let unlocked ← unlocki locked ip
  return (⟨inode.dev, inode.inum, inode.type, inode.size⟩, unlocked)

namespace CallSystem

variable (system : CallSystem)

/-- `fileread(fd, buf, bytes_read)`, up to the lock of the pipe where it is one. -/
def fileread (process : Fin nproc) (fd : Fin nofile) (bytesRead : Int) :
    Except Halt CallSystem :=
  match system.tables.pftable (process, fd) with
  | none => .ok (system.finish process ⟨-1, [], none⟩)
  | some slot =>
    let file := system.tables.ftable slot
    if file.isPipe then
      if file.pipeBuffer.readFd ≠ fd.val then .ok (system.finish process ⟨-1, [], none⟩)
      else if system.holder slot ≠ none then .error .sleeps
      else .ok ((system.acquire process slot).setCall process (.reading slot bytesRead))
    else do
      let (result, after) ← filereadInode ⟨system.fs, file⟩ bytesRead
      return { system with fs := after.fs, tables := system.tables.store slot after.file }.finish
        process ⟨result.1, result.2, none⟩

/-- `filewrite(fd, buf, bytes_written)` of the bytes of `buf`, up to the lock of the pipe where it
is one. -/
def filewrite (process : Fin nproc) (fd : Fin nofile) (data : List UInt8) :
    Except Halt CallSystem :=
  match system.tables.pftable (process, fd) with
  | none => .ok (system.finish process ⟨-1, [], none⟩)
  | some slot =>
    let file := system.tables.ftable slot
    if file.isPipe then
      if system.holder slot ≠ none then .error .sleeps
      else .ok ({ system with writes := system.writes + 1 }.acquire process slot |>.setCall process
        (.writing slot ⟨system.writes, data⟩ data))
    else do
      let (result, after) ← filewriteInode ⟨system.fs, file⟩ data data.length
      return { system with fs := after.fs, tables := system.tables.store slot after.file }.finish
        process ⟨result, [], none⟩

/-- `filestat(fd, fstat)`. A pipe has no inode to ask, and `locki` panics on it. -/
def filestat (process : Fin nproc) (fd : Fin nofile) : Except Halt CallSystem :=
  match system.tables.pftable (process, fd) with
  | none => .ok (system.finish process ⟨-1, [], none⟩)
  | some slot =>
    let file := system.tables.ftable slot
    match file.iptr with
    | none =>
      if file.isPipe then .error (.panic "locki")
      else .ok (system.finish process ⟨-1, [], none⟩)
    | some ip => do
      let (stat, fs) ← concurrentStati system.fs ip
      return { system with fs := fs }.finish process ⟨0, [], some stat⟩

end CallSystem

/-! ### Steps -/

/-- The ends that the descriptors come from after an operation on the tables. -/
def endsAfter (tables : FileTables) (ends : Descriptor → Option PipeEnd) :
    FileAction → Descriptor → Option PipeEnd
  | .fileclose process fd => Function.update ends (process, fd) none
  | .filedup process fd =>
    match tables.freeDescriptor process with
    | none => ends
    | some new => Function.update ends (process, new) (ends (process, fd))
  | .pipe process =>
    match pipe tables process with
    | .ok (some (readEnd, writeEnd), _) =>
      Function.update (Function.update ends (process, readEnd) (some .read)) (process, writeEnd)
        (some .write)
    | _ => ends
  | .fork parent stack =>
    match (forkFiles tables parent stack).1 with
    | none => ends
    | some child => fun descriptor =>
      if descriptor.1 = child then ends (parent, descriptor.2) else ends descriptor
  | _ => ends

/-- An operation on the tables by a process that is in no call. `exit` has closed all descriptors
one after another when it becomes a zombie; `allocproc` clears `killed`. -/
def CallSystem.tableStep (system : CallSystem) (action : FileAction) : Option CallSystem :=
  match action with
  | .exit process =>
    if ∀ fd, system.tables.pftable (process, fd) = none then
      (fileStep system.tables action).map fun tables => { system with tables := tables }
    else none
  | .pipe _ =>
    (fileStep system.tables action).map fun tables => { system with
      tables := tables
      ends := endsAfter system.tables system.ends action
      history := match system.tables.freeSlot with
        | none => system.history
        | some slot => Function.update system.history slot ⟨[], [], []⟩ }
  | .fork _ _ =>
    (fileStep system.tables action).map fun tables => { system with
      tables := tables
      ends := endsAfter system.tables system.ends action
      killed := match system.tables.unusedProcess with
        | none => system.killed
        | some child => Function.update system.killed child false }
  | _ =>
    (fileStep system.tables action).map fun tables => { system with
      tables := tables
      ends := endsAfter system.tables system.ends action }

/-- A step of one process, or a `kill` by another one. -/
inductive CallAction
  | table (action : FileAction)
  | fileread (process : Fin nproc) (fd : Fin nofile) (bytesRead : Int)
  | filewrite (process : Fin nproc) (fd : Fin nofile) (data : List UInt8)
  | filestat (process : Fin nproc) (fd : Fin nofile)
  | turn (process : Fin nproc)
  | kill (process : Fin nproc)

/-- A process that a processor can run. -/
def ProcState.Awake (state : ProcState) : Prop := state = .runnable ∨ state = .running

instance (state : ProcState) : Decidable state.Awake := inferInstanceAs (Decidable (_ ∨ _))

/-- A process that can begin a call. -/
def CallSystem.Ready (system : CallSystem) (process : Fin nproc) : Prop :=
  (system.tables.state process).Awake ∧ (system.call process).slot = none

instance (system : CallSystem) (process : Fin nproc) : Decidable (system.Ready process) :=
  inferInstanceAs (Decidable (_ ∧ _))

/-- `kill` of a process. -/
def CallSystem.kill (system : CallSystem) (process : Fin nproc) : CallSystem :=
  let marked := { system with killed := Function.update system.killed process true }
  if system.tables.state process = .sleeping then marked.setState process .runnable else marked

/-- One step. After a panic there is no next state. -/
def callStep (system : CallSystem) : CallAction → Option CallSystem
  | .table action =>
    if system.Ready action.caller then system.tableStep action else none
  | .fileread process fd bytesRead =>
    if system.Ready process then (system.fileread process fd bytesRead).toOption else none
  | .filewrite process fd data =>
    if system.Ready process then (system.filewrite process fd data).toOption else none
  | .filestat process fd =>
    if system.Ready process then (system.filestat process fd).toOption else none
  | .turn process =>
    if (system.tables.state process).Awake then system.turn process else none
  | .kill process => some (system.kill process)

/-- After boot, on some file system. -/
def CallSystem.initial (fs : FileSystem) : CallSystem where
  tables := .initial
  fs := fs
  killed := fun _ => false
  holder := fun _ => none
  call := fun _ => .idle
  result := fun _ => none
  writes := 0
  history := fun _ => ⟨[], [], []⟩
  ends := fun _ => none

end Xk
