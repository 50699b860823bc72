/-
This file models the open-file tables of `kernel/file.c`: the global table `ftable` of
`struct file_info` slots, the table `pftable` of each process that points into it, and the
operations that move references between the two, `fileopen`, `fileclose`, `filedup`, `pipe`,
and the parts of `fork` and `exit` in `kernel/proc.c` that copy and close a whole table.

The caller of an operation is the slot of `myproc()`. What `namei` found for the path is an
argument of `fileopen`; the inode cache and the path string, which nothing here reads back,
are left out.
-/

import Xk.Counting
import Xk.Params

namespace Xk

/-! ### The tables -/

/-- A pointer to an entry of the inode cache. -/
abbrev InodePtr := Fin ninode

/-- `struct pipe`, without its lock. -/
structure Pipe where
  readFd : Int
  writeFd : Int
  head : Int
  tail : Int
  full : Bool
  empty : Bool
  buf : Fin 2048 → UInt8

/-- `struct file_info`. -/
structure FileInfo where
  ref : Int
  iptr : Option InodePtr
  offset : Int
  accessPermission : Int
  isPipe : Bool
  pipeBuffer : Pipe

/-- A descriptor of a process: the pair that indexes all `pftable` entries of the system. -/
abbrev Descriptor := Fin nproc × Fin nofile

/-- The open-file tables, and the process states that `fork` and `exit` move. -/
structure FileTables where
  ftable : Fin nfile → FileInfo
  pftable : Descriptor → Option (Fin nfile)
  state : Fin nproc → ProcState

def oRdwr : Int := 2

/-- `T_DEV`, which `fileopen` compares its mode with. -/
def tDevMode : Int := 3

def Pipe.zero : Pipe := ⟨0, 0, 0, 0, false, false, fun _ => 0⟩

def FileInfo.zero : FileInfo := ⟨0, none, 0, 0, false, .zero⟩

/-- The tables after `userinit`: nothing is open, and one process can run. -/
def FileTables.initial : FileTables where
  ftable := fun _ => .zero
  pftable := fun _ => none
  state := Function.update (fun _ => .unused) 0 .runnable

/-- The first empty descriptor of a process. -/
def FileTables.freeDescriptor (tables : FileTables) (process : Fin nproc) : Option (Fin nofile) :=
  (List.finRange nofile).find? fun fd => tables.pftable (process, fd) = none

/-- The first slot of the global table with no references. -/
def FileTables.freeSlot (tables : FileTables) : Option (Fin nfile) :=
  (List.finRange nfile).find? fun slot => (tables.ftable slot).ref = 0

/-- Point a descriptor at a slot and store the slot's new contents. -/
def FileTables.point (tables : FileTables) (descriptor : Descriptor) (slot : Fin nfile)
    (file : FileInfo) : FileTables :=
  { tables with
    ftable := Function.update tables.ftable slot file
    pftable := Function.update tables.pftable descriptor (some slot) }

/-- Empty a descriptor and store the new contents of the slot it pointed at. -/
def FileTables.unpoint (tables : FileTables) (descriptor : Descriptor) (slot : Fin nfile)
    (file : FileInfo) : FileTables :=
  { tables with
    ftable := Function.update tables.ftable slot file
    pftable := Function.update tables.pftable descriptor none }

@[simp] theorem FileTables.point_pftable (tables : FileTables) (descriptor : Descriptor)
    (slot : Fin nfile) (file : FileInfo) : (tables.point descriptor slot file).pftable =
      Function.update tables.pftable descriptor (some slot) := rfl

@[simp] theorem FileTables.unpoint_pftable (tables : FileTables) (descriptor : Descriptor)
    (slot : Fin nfile) (file : FileInfo) : (tables.unpoint descriptor slot file).pftable =
      Function.update tables.pftable descriptor none := rfl

/-- Store the new contents of a slot. -/
def FileTables.store (tables : FileTables) (slot : Fin nfile) (file : FileInfo) : FileTables :=
  { tables with ftable := Function.update tables.ftable slot file }

theorem FileTables.point_ftable_self (tables : FileTables) (descriptor : Descriptor)
    (slot : Fin nfile) (file : FileInfo) :
    (tables.point descriptor slot file).ftable slot = file := by
  simp only [FileTables.point, Function.update_self]

theorem FileTables.store_ftable_self (tables : FileTables) (slot : Fin nfile) (file : FileInfo) :
    (tables.store slot file).ftable slot = file := by
  simp only [FileTables.store, Function.update_self]

/-- What `fileclose` leaves in a slot. With the last reference the slot is reset, except for its
`isPipe` flag. -/
def FileInfo.closed (file : FileInfo) : FileInfo :=
  if 1 < file.ref then { file with ref := file.ref - 1 }
  else { file with iptr := none, ref := 0, accessPermission := 0, offset := 0 }

/-! ### The operations -/

/-- `fileopen(path, mode)`, with the inode `namei(path)` found. When the global table is full
the loop over it ends without installing anything, and the descriptor is returned all the
same. A slot keeps its old offset, `isPipe` flag and pipe buffer. -/
def fileopen (tables : FileTables) (process : Fin nproc) (inode : Option InodePtr)
    (mode : Int) : Int × FileTables :=
  match inode with
  | none => (-1, tables)
  | some iptr =>
    if mode = tDevMode then (-1, tables)
    else
      match tables.freeDescriptor process with
      | none => (-1, tables)
      | some fd =>
        match tables.freeSlot with
        | none => (fd, tables)
        | some slot =>
          (fd, tables.point (process, fd) slot
            { tables.ftable slot with ref := 1, iptr := some iptr, accessPermission := mode })

/-- `fileclose(fd)`. -/
def fileclose (tables : FileTables) (process : Fin nproc) (fd : Fin nofile) : Int × FileTables :=
  match tables.pftable (process, fd) with
  | none => (-1, tables)
  | some slot =>
    let file := tables.ftable slot
    if file.isPipe = false ∧ file.iptr = none then (-1, tables)
    else (0, tables.unpoint (process, fd) slot file.closed)

/-- `filedup(fd)`. -/
def filedup (tables : FileTables) (process : Fin nproc) (fd : Fin nofile) : Int × FileTables :=
  match tables.pftable (process, fd) with
  | none => (-1, tables)
  | some slot =>
    let file := tables.ftable slot
    if file.isPipe = false ∧ file.iptr = none then (-1, tables)
    else
      match tables.freeDescriptor process with
      | none => (-1, tables)
      | some new => (new, tables.point (process, new) slot { file with ref := file.ref + 1 })

/-- One turn of the loop of `pipe` over the caller's descriptors: an empty one is taken for the
pipe while fewer than two have been. -/
def pipeTurn (process : Fin nproc) (slot : Fin nfile) (state : List (Fin nofile) × FileTables)
    (fd : Fin nofile) : List (Fin nofile) × FileTables :=
  let (fds, tables) := state
  if tables.pftable (process, fd) = none ∧ fds.length < 2 then
    (fds ++ [fd], tables.point (process, fd) slot
      { tables.ftable slot with ref := (tables.ftable slot).ref + 1 })
  else (fds, tables)

/-- `pipe(fds)`: the two descriptors stored in `fds` when it returns `0`, and `none` when it
returns `-1`. When the caller has fewer than two empty descriptors the call frees the pipe
buffer, which is not a page but a part of the table, and `kfree` panics. -/
def pipe (tables : FileTables) (process : Fin nproc) :
    Except Halt (Option (Fin nofile × Fin nofile) × FileTables) :=
  match tables.freeSlot with
  | none => .ok (none, tables)
  | some slot =>
    let marked := tables.store slot
      { tables.ftable slot with isPipe := true, accessPermission := oRdwr }
    match (List.finRange nofile).foldl (pipeTurn process slot) ([], marked) with
    | ([readEnd, writeEnd], opened) =>
      let file := opened.ftable slot
      .ok (some (readEnd, writeEnd), opened.store slot
        { file with pipeBuffer := { file.pipeBuffer with
            readFd := readEnd, writeFd := writeEnd, head := 0, tail := 0, full := false,
            empty := true } })
    | _ => .error (.panic "kfree")

/-- One turn of the loop of `fork` over the descriptors: the child shares the parent's slot. -/
def forkTurn (parent child : Fin nproc) (tables : FileTables) (fd : Fin nofile) : FileTables :=
  match tables.pftable (parent, fd) with
  | none => tables
  | some slot =>
    tables.point (child, fd) slot
      { tables.ftable slot with ref := (tables.ftable slot).ref + 1 }

/-- The slot `allocproc` finds. -/
def FileTables.unusedProcess (tables : FileTables) : Option (Fin nproc) :=
  (List.finRange nproc).find? fun process => tables.state process = .unused

/-- `fork()`: `none` stands for the return value `-1`, which is all that happens when there is no
process slot or, with `stack` false, no kernel stack. -/
def forkFiles (tables : FileTables) (parent : Fin nproc) (stack : Bool) :
    Option (Fin nproc) × FileTables :=
  match tables.unusedProcess with
  | none => (none, tables)
  | some child =>
    if stack = false then (none, tables)
    else
      let copied := (List.finRange nofile).foldl (forkTurn parent child) tables
      (some child, { copied with state := Function.update copied.state child .runnable })

/-- One turn of the loop of `exit` over the descriptors. -/
def exitTurn (process : Fin nproc) (tables : FileTables) (fd : Fin nofile) : FileTables :=
  if tables.pftable (process, fd) = none then tables else (fileclose tables process fd).2

/-- `exit()`: close every open descriptor and become a zombie. -/
def exitFiles (tables : FileTables) (process : Fin nproc) : FileTables :=
  let closed := (List.finRange nofile).foldl (exitTurn process) tables
  { closed with state := Function.update closed.state process .zombie }

/-! ### Steps -/

/-- An operation by one process. A `pipe` is a successful one, and `wait` reaps the given
zombie. -/
inductive FileAction
  | fileopen (process : Fin nproc) (inode : Option InodePtr) (mode : Int)
  | fileclose (process : Fin nproc) (fd : Fin nofile)
  | filedup (process : Fin nproc) (fd : Fin nofile)
  | pipe (process : Fin nproc)
  | fork (process : Fin nproc) (stack : Bool)
  | exit (process : Fin nproc)
  | wait (process zombie : Fin nproc)

/-- The process that performs an action. -/
def FileAction.caller : FileAction → Fin nproc
  | .fileopen process _ _ | .fileclose process _ | .filedup process _ | .pipe process
  | .fork process _ | .exit process | .wait process _ => process

/-- A process that can make system calls. -/
def ProcState.Live (state : ProcState) : Prop :=
  state = .sleeping ∨ state = .runnable ∨ state = .running

instance (state : ProcState) : Decidable state.Live :=
  inferInstanceAs (Decidable (_ ∨ _ ∨ _))

/-- One atomic step of the tables. -/
def fileStep (tables : FileTables) (action : FileAction) : Option FileTables :=
  if (tables.state action.caller).Live then
    match action with
    | .fileopen process inode mode => some (fileopen tables process inode mode).2
    | .fileclose process fd => some (fileclose tables process fd).2
    | .filedup process fd => some (filedup tables process fd).2
    | .pipe process =>
        match pipe tables process with
        | .ok (some _, opened) => some opened
        | _ => none
    | .fork process stack => some (forkFiles tables process stack).2
    | .exit process => some (exitFiles tables process)
    | .wait _ zombie =>
        if tables.state zombie = .zombie then
          some { tables with state := Function.update tables.state zombie .unused }
        else none
  else none

end Xk
