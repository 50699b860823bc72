/-
This file models `vspaceloadcode`, which reads a program from an ELF file into the code region of an
address space. For every program header of type `ELF_PROG_LOAD` the loader adds pages from where the
last segment's mapping ended, as many as reach from address 0 to the end of the segment, and reads
the bytes of the segment to its own address.

The variable `sz` has no value before the first segment. Its value then is a parameter of the model,
and so is the value of `*rip` before the call.
-/

import Xk.Paths
import Xk.UserWrites

namespace Xk

/-! ### ELF headers -/

/-- The `uint64_t` at an offset of a record. -/
def ulongAt (record : List UInt8) (offset : Nat) : UInt64 := .ofNat (Bytes.field record offset 8)

/-- `ELF_MAGIC`. -/
def elfMagic : UInt32 := 0x464C457F

/-- `ELF_PROG_LOAD`. -/
def elfProgLoad : UInt32 := 1

/-- The fields of `struct elfhdr` that the loader reads. -/
structure Elfhdr where
  magic : UInt32
  entry : UInt64
  phoff : UInt64
  phnum : UInt16
deriving DecidableEq

/-- The fields of `struct proghdr` that the loader reads. -/
structure Proghdr where
  type : UInt32
  off : UInt64
  vaddr : UInt64
  filesz : UInt64
  memsz : UInt64
deriving DecidableEq

def Elfhdr.decode (record : List UInt8) : Elfhdr where
  magic := uintAt record 0
  entry := ulongAt record 24
  phoff := ulongAt record 32
  phnum := ushortAt record 56

def Proghdr.decode (record : List UInt8) : Proghdr where
  type := uintAt record 0
  off := ulongAt record 8
  vaddr := ulongAt record 16
  filesz := ulongAt record 32
  memsz := ulongAt record 40

/-- `readi(ip, (char*)&record, off, sizeof(record)) != sizeof(record)`, with the record where it is
read completely. -/
def readRecord (fs : FileSystem) (ip : Inode) (off size : UInt32) :
    Except Halt (Option (List UInt8)) := do
  let (result, record) ← readi fs ip off size
  if result ≠ size.toNat then return none
  else if record.length ≠ size.toNat then .error .undefined
  else return some record

/-! ### Segments -/

/-- The loop of `vrloaddata`, for a number of turns. -/
def vrloaddataLoop (fs : FileSystem) (ip : Inode) (va : Nat) (offset sz : UInt32) :
    Nat → UInt32 → Vregion → Ram → Except Halt (Int × Vregion × Ram)
  | 0, _, _, _ => .error .undefined
  | turns + 1, i, r, ram =>
    if i < sz then do
      let (vpi, r, ram) ← va2vpageInfo ram r ((va + i.toNat) % 2 ^ 64)
      match vpi with
      | none => .error .noMemory
      | some idx =>
        if (r.info idx).used = false then
          .error (.panic "assertion failed: 'page must be allocated' at kernel/vspace.c:148")
        else do
          let n := min (sz - i) 4096
          let (result, bytes) ← readi fs ip (offset + i) n
          if n.toNat < bytes.length then .error .undefined
          else if UInt32.ofInt result ≠ n then
            return (-1, r, ram.memmove (r.info idx).ppn 0 bytes)
          else
            vrloaddataLoop fs ip va offset sz turns (i + 4096) r
              (ram.memmove (r.info idx).ppn 0 bytes)
    else .ok (0, r, ram)

/-- `vrloaddata(r, va, ip, offset, sz)`. -/
def vrloaddata (fs : FileSystem) (ip : Inode) (ram : Ram) (r : Vregion) (va : Nat)
    (offset sz : UInt32) : Except Halt (Int × Vregion × Ram) :=
  if va % pgSize ≠ 0 then
    .error (.panic "assertion failed: 'va must be page aligned' at kernel/vspace.c:144")
  else vrloaddataLoop fs ip va offset sz (sz.toNat / pgSize + 2) 0 r ram

/-- The turn of the loop of `vspaceloadcode` for a segment: the new value of `sz`, or none on the way
to `elf_failure`. -/
def loadSegment (fs : FileSystem) (ip : Inode) (ph : Proghdr) (va : Nat)
    (vr : Vregion) (ram : Ram) :
    Except Halt (Option Int × Vregion × Ram) :=
  if ph.memsz < ph.filesz then .ok (none, vr, ram)
  else if ph.vaddr + ph.memsz < ph.vaddr then .ok (none, vr, ram)
  else do
    let (sz, vr, ram) ← vregionaddmap ram vr va (ph.vaddr + ph.memsz).toNat true true
    if sz < 0 then return (none, vr, ram)
    else if ph.vaddr.toNat % pgSize ≠ 0 then return (none, vr, ram)
    else do
      let (res, vr, ram) ←
        vrloaddata fs ip ram vr ph.vaddr.toNat ph.off.toUInt32 ph.filesz.toUInt32
      if res < 0 then return (none, vr, ram) else return (some sz, vr, ram)

/-- The loop of `vspaceloadcode` over the given number of program headers from `off` on. -/
def loadSegments (fs : FileSystem) (ip : Inode) :
    Nat → UInt32 → Nat → Int → Vregion → Ram → Except Halt (Option Int × Vregion × Ram)
  | 0, _, _, sz, vr, ram => .ok (some sz, vr, ram)
  | phnum + 1, off, va, sz, vr, ram => do
    match ← readRecord fs ip off 56 with
    | none => return (none, vr, ram)
    | some record =>
      let ph := Proghdr.decode record
      if ph.type ≠ elfProgLoad then loadSegments fs ip phnum (off + 56) va sz vr ram
      else do
        let (loaded, vr, ram) ← loadSegment fs ip ph va vr ram
        match loaded with
        | none => return (none, vr, ram)
        | some sz => loadSegments fs ip phnum (off + 56) (toUint64 (va + sz)) sz vr ram

/-! ### Programs -/

/-- `PGROUNDUP(sz)` of an `int`, as a `uint64_t`. -/
def pgRoundUpInt (sz : Int) : Nat := toUint64 (wrapInt (sz + (pgSize - 1)) / pgSize * pgSize)

/-- The regions at the end of `vspaceloadcode`. -/
def Vspace.setBounds (vs : Vspace) (code : Vregion) (sz : Int) : Vspace :=
  (vs.setRegion vrCode { code with size := pgRoundUpInt sz }).setRegion vrHeap
    { vs.regions vrHeap with vaBase := pgRoundUpInt sz, size := 0 }

/-- `vspaceloadcode` between `locki` and `unlocki`: `sz` and the entry of the header, or none behind
`elf_failure`. -/
def loadElf (garbage : Int32) (fs : FileSystem) (ip : Inode) (vs : Vspace) (ram : Ram) :
    Except Halt (Option (Int × UInt64) × Vspace × Ram) := do
  match ← readRecord fs ip 0 64 with
  | none => return (none, vs, ram)
  | some record =>
    let elf := Elfhdr.decode record
    if elf.magic ≠ elfMagic then return (none, vs, ram)
    else do
      let (loaded, code, ram) ← loadSegments fs ip elf.phnum.toNat elf.phoff.toUInt32 0
        garbage.toInt { vs.regions vrCode with vaBase := 0 } ram
      match loaded with
      | none => return (none, vs.setRegion vrCode code, ram)
      | some sz => return (some (sz, elf.entry), vs.setBounds code sz, ram)

/-- `vspaceloadcode(vs, path, rip)`: what it returns and `*rip` after it. -/
def vspaceloadcode (garbage : Int32) (fs : FileSystem) (ram : Ram) (vs : Vspace)
    (path : List UInt8) (rip : UInt64) :
    Except Halt (Int × UInt64 × Vspace × Ram × FileSystem) := do
  let (found, fs) ← namei fs path
  match found with
  | none => return (0, rip, vs, ram, fs)
  | some ip => do
    let fs ← locki fs ip
    let (loaded, vs, ram) ← loadElf garbage fs (fs.inode ip) vs ram
    let fs ← unlocki fs ip
    match loaded with
    | none => return (0, rip, vs, ram, irelease fs ip)
    | some (sz, entry) => return (sz, entry, vs, ram, irelease fs ip)

end Xk
