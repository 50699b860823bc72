/-
This file models the path names of `kernel/fs.c` and the creation of a file: `skipelem`, `namex`
with `namei` and `nameiparent`, `update_dinode`, `createi` and `concurrent_createi`. A path is the
bytes of a C string without its terminator.

The kernel keeps the inode file in memory twice, as `icache.inodefile` and as the entry of the cache
that `iget` gives for its number. `createi` writes the new inode through the first of them and
records the growth in the second.
-/

import Xk.FileSystem

namespace Xk

/-! ### Paths -/

/-- The byte `'/'`. -/
abbrev slash : UInt8 := 47

/-- `skipelem(path, name)`: the first element of the path, cut to the length of a name, and the path
behind it. -/
def skipelem (path : List UInt8) : Option (List UInt8 × List UInt8) :=
  match path.dropWhile (· = slash) with
  | [] => none
  | byte :: rest =>
    let elements := byte :: rest
    some ((elements.takeWhile (· ≠ slash)).take dirsiz,
      (elements.dropWhile (· ≠ slash)).dropWhile (· = slash))

/-- The loop of `namex` from the inode `ip` on: the inode, and the name that is left for the caller
of `nameiparent`. Every turn takes an element off the path. -/
def namexLoop (nameiparent : Bool) : Nat → FileSystem → Fin ninode → List UInt8 → List UInt8 →
    Except Halt (Option (Fin ninode × List UInt8) × FileSystem)
  | 0, _, _, _, _ => .error .undefined
  | turns + 1, fs, ip, path, name =>
    match skipelem path with
    | none =>
      if nameiparent then .ok (none, irelease fs ip)
      else .ok (some (ip, name), fs)
    | some (name, path) => do
      let locked ← locki fs ip
      if (locked.inode ip).type ≠ tDir then do
        let unlocked ← unlocki locked ip
        return (none, irelease unlocked ip)
      else if nameiparent = true ∧ path = [] then do
        let unlocked ← unlocki locked ip
        return (some (ip, name), unlocked)
      else do
        let (next, searched) ← dirlookup locked ip name
        let unlocked ← unlocki searched ip
        match next with
        | none => return (none, irelease unlocked ip)
        | some (next, _) => namexLoop nameiparent turns (irelease unlocked ip) next path name

/-- The inode that `namex` starts from. A path that does not begin with a slash starts from a copy
of what `namei("/")` returns. -/
def namexStart (fs : FileSystem) (path : List UInt8) : Except Halt (Fin ninode × FileSystem) :=
  if path.head? = some slash then iget fs rootdev rootino
  else do
    let (root, taken) ← iget fs rootdev rootino
    let (found, looked) ← namexLoop false 2 taken root [slash] []
    match found with
    | none => .error .undefined
    | some (ip, _) => return (ip, idup looked ip)

/-- `namex(path, nameiparent, name)`. -/
def namex (fs : FileSystem) (path : List UInt8) (nameiparent : Bool) :
    Except Halt (Option (Fin ninode × List UInt8) × FileSystem) := do
  let (ip, started) ← namexStart fs path
  namexLoop nameiparent (path.length + 1) started ip path []

/-- `namei(path)`. -/
def namei (fs : FileSystem) (path : List UInt8) :
    Except Halt (Option (Fin ninode) × FileSystem) := do
  let (found, after) ← namex fs path false
  return (found.map Prod.fst, after)

/-- `nameiparent(path, name)`, with the name. -/
def nameiparent (fs : FileSystem) (path : List UInt8) :
    Except Halt (Option (Fin ninode × List UInt8) × FileSystem) :=
  namex fs path true

/-! ### Creation -/

/-- `update_dinode(ip)`. The write goes through the entry of the inode file in the cache. -/
def updateDinode (fs : FileSystem) (ip : Fin ninode) : Except Halt FileSystem := do
  let (inodefile, taken) ← iget fs rootdev inodefileino
  let curr ← readDinode taken (taken.inode ip).inum
  if (taken.inode ip).size ≠ curr.size then do
    let changed := { curr with size := (taken.inode ip).size, data := (taken.inode ip).data }
    let (_, written, inode) ← writei taken (taken.inode inodefile) changed.encode
      ((taken.inode ip).inum * 64) 64
    return written.setInode inodefile inode
  else return taken

/-- The dinode that `createi` writes. -/
def createdDinode : Dinode := ⟨tFile, tDev, 0, .single .zero⟩

/-- The loop of `createi` over the directory: the last entry that it has read. -/
def listLoop (dp : Fin ninode) :
    Nat → FileSystem → UInt32 → Dirent → Except Halt (Dirent × FileSystem)
  | 0, _, _, _ => .error .undefined
  | turns + 1, fs, off, dirent =>
    if off < (fs.inode dp).size then do
      let ((result, record), read) ← concurrentReadi fs dp off 16
      if result ≠ 16 then .error (.panic "dirlink read")
      else listLoop dp turns read (off + 16) (Dirent.decode record)
    else .ok (dirent, fs)

/-- The inode number that `createi` takes, `icache.inodefile.size / sizeof(struct dinode)`. -/
def FileSystem.nextInum (fs : FileSystem) : UInt32 := fs.inodefile.size / 64

/-- The part of `createi` under the lock of `icache.inodefile`: the new inode is written. -/
def writeCreated (fs : FileSystem) : Except Halt FileSystem :=
  if fs.inodefile.locked then .error .sleeps
  else do
    let (_, written, inode) ← writei fs { fs.inodefile with locked := true } createdDinode.encode
      (inodeOff fs.nextInum) 64
    return { written with inodefile := { inode with locked := false } }

/-- An inode that has grown in memory. -/
def FileSystem.grow (fs : FileSystem) (ip : Fin ninode) (bytes : UInt32) : FileSystem :=
  fs.setInode ip { fs.inode ip with size := (fs.inode ip).size + bytes }

/-- `createi(inodefile, path)`. There is no test of what `nameiparent` returns, and no test of what
the writes return. -/
def createi (fs : FileSystem) (inodefile : Fin ninode) (path : List UInt8) :
    Except Halt (Fin ninode × FileSystem) := do
  let written ← writeCreated fs
  let (parent, looked) ← nameiparent written path
  match parent with
  | none => .error .undefined
  | some (rootino, name) => do
    let dirent : Dirent := ⟨fs.nextInum.toUInt16, strncpy name dirsiz⟩
    let (_, entered) ← concurrentWritei looked rootino dirent.encode (looked.inode rootino).size 16
    let grown := (entered.grow inodefile 64).grow rootino 16
    let (last, listed) ← listLoop rootino ((grown.inode rootino).size.toNat + 1) grown 0 dirent
    let updated ← updateDinode listed inodefile
    let updated ← updateDinode updated rootino
    iget updated rootdev last.inum.toUInt32

/-- `concurrent_createi(path)`. -/
def concurrentCreatei (fs : FileSystem) (path : List UInt8) :
    Except Halt (Fin ninode × FileSystem) := do
  let (inodefile, taken) ← iget fs rootdev inodefileino
  if (taken.inode inodefile).locked then .error .sleeps
  else do
    let locked := taken.setInode inodefile { taken.inode inodefile with locked := true }
    let (ip, created) ← createi locked inodefile path
    return (ip, created.setInode inodefile { created.inode inodefile with locked := false })

end Xk
