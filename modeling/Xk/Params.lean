/-
This file holds the sizes of the kernel's tables (`inc/param.h`) and the states of a process
(`inc/proc.h`), which several of the models below share, and the ways kernel code stops.
-/

import Mathlib

attribute [grind =] Function.update_apply

namespace Xk

/-- `NPROC`, the maximum number of processes. -/
abbrev nproc : Nat := 64

/-- `NOFILE`, the open files of one process. -/
abbrev nofile : Nat := 16

/-- `NFILE`, the open files of the system. -/
abbrev nfile : Nat := 100

/-- `NINODE`, the entries of the inode cache. -/
abbrev ninode : Nat := 50

/-- `NBUF`, the buffers of the block cache. -/
abbrev nbuf : Nat := 30

/-- `NDEV`, the entries of the device table. -/
abbrev ndev : Nat := 10

/-- `BSIZE`, the bytes of a disk block. -/
abbrev bsize : Nat := 512

instance : NeZero nproc := ⟨by decide⟩

instance : NeZero nofile := ⟨by decide⟩

instance : NeZero nfile := ⟨by decide⟩

instance : NeZero ninode := ⟨by decide⟩

/-- The contents of a disk block. -/
abbrev Block := Fin bsize → UInt8

/-- `enum procstate`. -/
inductive ProcState
  | unused
  | embryo
  | sleeping
  | runnable
  | running
  | zombie
deriving DecidableEq

/-- The ways kernel code stops short of returning: a panic with its message, a kernel page that
could not be allocated on a path that has no error return, the reboot that `crashn` asks for, a
wait for a lock that somebody holds, and an access outside of an array, where C says nothing about
what follows. -/
inductive Halt
  | panic (message : String)
  | noMemory
  | reboot
  | sleeps
  | undefined
deriving DecidableEq

end Xk
