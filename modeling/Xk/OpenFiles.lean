/-
This file models the system calls that open and close files together with the inode cache:
`sys_open` with `fileopen` and `filecreate`, `sys_close`, `dup`, and what `fork` and `exit` do with
descriptors. Each call is one step.

`sys_open` looks the path up and then calls `fileopen`, which looks it up again. `fileclose` gives
the inode of a file back with its last descriptor.
-/

import Xk.Paths
import Xk.PipeCalls

namespace Xk

/-! ### The state -/

/-- The tables of open files, and the file system with its inode cache. -/
structure OpenSystem where
  tables : FileTables
  fs : FileSystem

def oCreate : Int := 0x200

/-- The modes that `sys_open` accepts. -/
def openModes : List Int := [oRdonly, oWronly, oRdwr, oCreate, oCreate + oRdwr]

/-- `(mode & 0xF00) == O_CREATE`. -/
def Creates (mode : Int) : Prop := (mode % 2 ^ 32).toNat &&& 0xF00 = 0x200

instance (mode : Int) : Decidable (Creates mode) := inferInstanceAs (Decidable (_ = _))

namespace OpenSystem

variable (system : OpenSystem)

/-! ### The calls -/

/-- `fileopen(path, mode)`. -/
def fileopen (process : Fin nproc) (path : List UInt8) (mode : Int) :
    Except Halt (Int × OpenSystem) := do
  let (iptr, looked) ← namei system.fs path
  match iptr with
  | none => return (-1, { system with fs := looked })
  | some ip => do
    let (_, stated) ← concurrentStati looked ip
    let (fd, tables) := Xk.fileopen system.tables process (some ip) mode
    return (fd, ⟨tables, stated⟩)

/-- `sys_open` on a path and a mode. The inode that the first lookup finds is not given back. -/
def sysOpen (process : Fin nproc) (path : List UInt8) (mode : Int) :
    Except Halt (Int × OpenSystem) := do
  let (ptr, looked) ← namei system.fs path
  if mode ∉ openModes then return (-1, { system with fs := looked })
  else if Creates mode ∧ ptr = none then do
    let (_, created) ← concurrentCreatei looked path
    fileopen { system with fs := created } process path mode
  else fileopen { system with fs := looked } process path mode

/-- `fileclose(fd)`, with `irelease` of the inode when the last descriptor of a file goes. -/
def fileclose (process : Fin nproc) (fd : Fin nofile) : Int × OpenSystem :=
  let (result, tables) := Xk.fileclose system.tables process fd
  match system.tables.pftable (process, fd) with
  | none => (result, ⟨tables, system.fs⟩)
  | some slot =>
    let file := system.tables.ftable slot
    match file.iptr with
    | none => (result, ⟨tables, system.fs⟩)
    | some ip =>
      if file.isPipe = false ∧ ¬ 1 < file.ref then (result, ⟨tables, irelease system.fs ip⟩)
      else (result, ⟨tables, system.fs⟩)

/-- `exit()`: close every open descriptor and become a zombie. -/
def exit (process : Fin nproc) : OpenSystem :=
  let closed := (List.finRange nofile).foldl (fun system fd =>
    if system.tables.pftable (process, fd) = none then system
    else (fileclose system process fd).2) system
  { closed with tables := { closed.tables with
      state := Function.update closed.tables.state process .zombie } }

end OpenSystem

/-! ### Steps -/

/-- A call by one process. A call of `sys_open` whose arguments cannot be fetched does nothing, and
`wait` reaps the given zombie. -/
inductive OpenAction
  | sysOpen (process : Fin nproc) (path : List UInt8) (mode : Int)
  | sysClose (process : Fin nproc) (fd : Fin nofile)
  | dup (process : Fin nproc) (fd : Fin nofile)
  | fork (process : Fin nproc) (stack : Bool)
  | exit (process : Fin nproc)
  | wait (process zombie : Fin nproc)

/-- The process that makes a call. -/
def OpenAction.caller : OpenAction → Fin nproc
  | .sysOpen process _ _ | .sysClose process _ | .dup process _ | .fork process _
  | .exit process | .wait process _ => process

/-- One step. After a panic there is no next state. -/
def openStep (system : OpenSystem) (action : OpenAction) : Option OpenSystem :=
  if (system.tables.state action.caller).Live then
    match action with
    | .sysOpen process path mode => (system.sysOpen process path mode).toOption.map Prod.snd
    | .sysClose process fd => some (system.fileclose process fd).2
    | .dup process fd => some { system with tables := (filedup system.tables process fd).2 }
    | .fork process stack =>
      some { system with tables := (forkFiles system.tables process stack).2 }
    | .exit process => some (system.exit process)
    | .wait _ zombie =>
      if system.tables.state zombie = .zombie then
        some { system with tables := { system.tables with
          state := Function.update system.tables.state zombie .unused } }
      else none
  else none

/-- After boot, on some file system. -/
def OpenSystem.initial (fs : FileSystem) : OpenSystem := ⟨.initial, fs⟩

end Xk
