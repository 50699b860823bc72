/-
This file has the functions of `kernel/fs.c` that several processes run at the same time, as
programs that are interleaved. A step is an operation on a sleep lock, the use of one block of the
disk, a section under the spin lock of the cache, or an access to the fields of an inode. The locks
are kept apart from the inodes here.

The steps of `readi` and `writei` are inside of the inode that they are called for.
`icache.inodefile` is not in the table of the cache, and has been made valid by `init_inodefile`.
-/

import Xk.Fibers
import Xk.Paths

namespace Xk

open Fibers

/-- The address of an entry of the cache, or of `icache.inodefile`. -/
abbrev InodeAddr := Option (Fin ninode)

/-- The address `&icache.inodefile`. -/
abbrev inodefileAddr : InodeAddr := none

def FileSystem.inodeAt (fs : FileSystem) : InodeAddr → Inode
  | none => fs.inodefile
  | some ip => fs.inode ip

def FileSystem.setInodeAt (fs : FileSystem) : InodeAddr → Inode → FileSystem
  | none, inode => { fs with inodefile := inode }
  | some ip, inode => fs.setInode ip inode

abbrev InodeCode := Fiber InodeAddr FileSystem Halt

namespace InodeCode

/-! ### Steps -/

def acquiresleep (ip : InodeAddr) : InodeCode Unit := .acquire ip (.done ())

def releasesleep (ip : InodeAddr) : InodeCode Unit := .release ip (.done ())

def holdingsleep (place : Option InodeAddr) (ip : InodeAddr) : InodeCode Bool :=
  .holding place ip .done

def panic {Value : Type} (message : String) : InodeCode Value := .stop (.panic message)

/-- Looks at the variables in memory. -/
def look {Value : Type} (place : Option InodeAddr) (read : FileSystem → Value) : InodeCode Value :=
  .access place (fun fs => .ok (read fs, fs)) .done

/-- Changes the fields of an inode that are not under the spin lock of the cache. -/
def modify (place : Option InodeAddr) (ip : InodeAddr) (change : Inode → Inode) : InodeCode Unit :=
  .access place (fun fs => .ok ((), fs.setInodeAt ip (change (fs.inodeAt ip)))) .done

/-- Uses one block, from `bread` to `brelse`. -/
def useBlock {Value : Type} (place : Option InodeAddr)
    (action : Disk → Except Halt (Value × Disk)) : InodeCode Value :=
  .access place (fun fs => do
    let (value, disk) ← action fs.disk
    return (value, { fs with disk := disk })) .done

/-! ### Reading -/

/-- The `for` loop of `readi`. -/
def readLoop (ip : InodeAddr) (n : UInt32) :
    Nat → List Extent → UInt32 → UInt32 → UInt32 → InodeCode (List UInt8)
  | 0, _, _, _, _ => .stop .undefined
  | turns + 1, data, size, off, tot =>
    if tot < n then
      match data with
      | [] => .stop .undefined
      | extent :: rest =>
        if size < extent.nblocks * 512 then do
          let block ← useBlock (some ip) fun disk => do
            let block ← bread disk (extent.startblkno + size / 512)
            return (block, disk)
          let m := min (n - tot) (512 - size % 512)
          let others ← readLoop ip n turns data (size + m) (off + m) (tot + m)
          return (block.drop (size % 512).toNat).take m.toNat ++ others
        else readLoop ip n turns rest (off - size) off tot
    else return []

/-- `readi(ip, dst, off, n)`. -/
def readi (ip : InodeAddr) (off n : UInt32) : InodeCode (Int × List UInt8) := do
  if ← holdingsleep (some ip) ip then
    let inode ← look (some ip) (·.inodeAt ip)
    if inode.type = tDev then
      if inTable : inode.devid.toNat < ndev then
        look (some ip) fun fs =>
          match fs.devsw.read ⟨inode.devid.toNat, inTable⟩ with
          | some read => read n
          | none => (-1, [])
      else return (-1, [])
    else if inode.size < off ∨ off + n < off then return (-1, [])
    else
      let (data, size) ← Fiber.lift (seekExtent inode.data.toList 0 off)
      let bytes ← readLoop ip n (n.toNat + extentN + 1) data size off 0
      return (n.toBitVec.toInt, bytes)
  else panic "not holding lock"

/-! ### Writing -/

/-- The loop of `getfreestartblkno` down to block `i` of the bitmap, for `i + 1`. -/
def freeScan (ip : InodeAddr) (sb : Superblock) : Nat → InodeCode UInt32
  | 0 => return 0
  | i + 1 =>
    if i < sb.bmapstart.toNat then return 0
    else do
      let found ← useBlock (some ip) fun disk => do
        let block ← bread disk (UInt32.ofNat i)
        match block.findIdx? (· = 0) with
        | some j => return (some j, bwrite disk (UInt32.ofNat i) (block.set j 0xff))
        | none => return (none, disk)
      match found with
      | some j => return sb.nblocks + sb.inodestart - (sb.inodestart - 1 - UInt32.ofNat i) * 512 -
          UInt32.ofNat (j + 1) * 8
      | none => freeScan ip sb i

/-- `getfreestartblkno(dev)`. -/
def getfreestartblkno (ip : InodeAddr) : InodeCode UInt32 := do
  let sb ← look (some ip) (·.sb)
  freeScan ip sb sb.inodestart.toNat

/-- The bytes of one block that `writei` and `appendi` change. -/
def writeBlock (ip : InodeAddr) (blockno offset m : UInt32) (src : List UInt8) : InodeCode Unit :=
  useBlock (some ip) fun disk => do
    let block ← bread disk blockno
    let changed ← copyIn block src offset m
    return ((), bwrite disk blockno changed)

/-- The `for` loop of `writei`: the rest of `src` at its end. -/
def writeLoop (ip : InodeAddr) (n : UInt32) :
    Nat → List Extent → UInt32 → UInt32 → UInt32 → List UInt8 → InodeCode (List UInt8)
  | 0, _, _, _, _, _ => .stop .undefined
  | turns + 1, data, size, off, tot, src =>
    if tot < n then
      match data with
      | [] => .stop .undefined
      | extent :: rest =>
        if size < extent.nblocks * 512 then do
          let m := min (n - tot) (512 - size % 512)
          writeBlock ip (extent.startblkno + off / 512) (size % 512) m src
          writeLoop ip n turns data (size + m) (off + m) (tot + m) (src.drop m.toNat)
        else writeLoop ip n turns rest (off - size) off tot src
    else return src

/-- An extent of eight blocks for the inode, where it has none at `data`. -/
def provideExtent (ip : InodeAddr) (data : Fin extentN) : InodeCode Extent := do
  let inode ← look (some ip) (·.inodeAt ip)
  if (inode.data.get data).nblocks = 0 then
    let startblkno ← getfreestartblkno ip
    modify (some ip) ip fun inode => { inode with data := inode.data.set data ⟨startblkno, 8⟩ }
    return ⟨startblkno, 8⟩
  else return inode.data.get data

/-- The `for` loop of `appendi` from the extent `data` on. -/
def appendiLoop (ip : InodeAddr) (append : UInt32) :
    Nat → Nat → UInt32 → UInt32 → List UInt8 → InodeCode Unit
  | 0, _, _, _, _ => .stop .undefined
  | turns + 1, data, size, tot, src =>
    if tot < append then
      if inArray : data < extentN then do
        let extent ← provideExtent ip ⟨data, inArray⟩
        if size < extent.nblocks * 512 then
          let m := min (append - tot) (512 - size % 512)
          writeBlock ip (extent.startblkno + size / 512) (size % 512) m src
          appendiLoop ip append turns (data + 1) (size + m) (tot + m) (src.drop m.toNat)
        else appendiLoop ip append turns (data + 2) 0 tot src
      else .stop .undefined
    else return ()

/-- `appendi(ip, src, append)`. -/
def appendi (ip : InodeAddr) (src : List UInt8) (append : UInt32) : InodeCode Unit := do
  let inode ← look (some ip) (·.inodeAt ip)
  match inode.data.toList.findIdx? fun extent => extent.nblocks = 0 with
  | none => .stop .undefined
  | some data => appendiLoop ip append (extentN + 1) data 0 0 src

/-- `writei(ip, src, off, n)`. -/
def writei (ip : InodeAddr) (src : List UInt8) (off n : UInt32) : InodeCode Int := do
  if ← holdingsleep (some ip) ip then
    let inode ← look (some ip) (·.inodeAt ip)
    if inode.type = tDev then
      if inTable : inode.devid.toNat < ndev then
        look (some ip) fun fs =>
          match fs.devsw.write ⟨inode.devid.toNat, inTable⟩ with
          | some write => write (src.take n.toNat)
          | none => -1
      else return -1
    else if off + n < off then return -1
    else
      let capacity := getCapacity inode
      let append := if capacity < off + n then off + n - capacity else 0
      let n := if capacity < off + n then capacity - off else n
      let (data, size) ← Fiber.lift (seekExtent inode.data.toList 0 off)
      let src ← writeLoop ip n (n.toNat + extentN + 1) data size off 0 src
      if 0 < append then
        appendi ip src append
        return (n + append).toBitVec.toInt
      else return n.toBitVec.toInt
  else panic "not holding lock"

/-! ### The inode cache -/

/-- `unlocki(ip)`. -/
def unlocki (ip : InodeAddr) : InodeCode Unit := do
  if ← holdingsleep none ip then
    let inode ← look none (·.inodeAt ip)
    if inode.ref < 1 then panic "unlocki"
    else releasesleep ip
  else panic "unlocki"

/-- `locki(&icache.inodefile)`. -/
def lockInodefile : InodeCode Unit := do
  let inodefile ← look none (·.inodefile)
  if inodefile.ref < 1 then panic "locki"
  else acquiresleep inodefileAddr

/-- The call of `readi` in `read_dinode`. -/
def readRecord (inum : UInt32) : InodeCode Dinode := do
  let (_, record) ← readi inodefileAddr (inodeOff inum) 64
  if record.length < dinodeSize then .stop .undefined
  else return Dinode.decode record

/-- `read_dinode(inum, dip)`: the inode file is locked, unless somebody holds its lock. -/
def readDinode (inum : UInt32) : InodeCode Dinode := do
  if ← holdingsleep none inodefileAddr then readRecord inum
  else
    lockInodefile
    let dip ← readRecord inum
    unlocki inodefileAddr
    return dip

/-- The section of `iget` under the lock of the cache: the entry, and whether it was there. -/
def igetSection (dev inum : UInt32) (fs : FileSystem) :
    Except Halt ((Fin ninode × Bool) × FileSystem) :=
  match (List.finRange ninode).find? (fs.caches dev inum) with
  | some ip => .ok ((ip, true), Xk.idup fs ip)
  | none =>
    match (List.finRange ninode).find? fun ip => (fs.inode ip).ref = 0 with
    | none => .error (.panic "iget: no inodes")
    | some ip => .ok ((ip, false), fs.setInode ip
        { fs.inode ip with ref := 1, valid := false, dev := dev, inum := inum })

/-- `iget(dev, inum)`. -/
def iget (dev inum : UInt32) : InodeCode (Fin ninode) := do
  let (ip, cached) ← .access none (igetSection dev inum) .done
  if cached then return ip
  else
    let dip ← readDinode inum
    modify none (some ip) (·.copy dip)
    if dip.type = 0 then panic "iget: no type"
    else return ip

/-- `idup(ip)`. -/
def idup (ip : Fin ninode) : InodeCode Unit :=
  .access none (fun fs => .ok ((), Xk.idup fs ip)) .done

/-- `irelease(ip)`. -/
def irelease (ip : Fin ninode) : InodeCode Unit :=
  .access none (fun fs => .ok ((), Xk.irelease fs ip)) .done

/-- `locki(ip)` for an entry of the cache. -/
def locki (ip : Fin ninode) : InodeCode Unit := do
  let inode ← look none (·.inode ip)
  if inode.ref < 1 then panic "locki"
  else
    acquiresleep (some ip)
    let inode ← look none (·.inode ip)
    if inode.valid then return ()
    else
      lockInodefile
      let dip ← readDinode inode.inum
      unlocki inodefileAddr
      modify none (some ip) fun inode => { inode with valid := true }.copy dip
      if dip.type = 0 then panic "iget: no type"
      else return ()

/-- `concurrent_readi(ip, dst, off, n)`. -/
def concurrentReadi (ip : Fin ninode) (off n : UInt32) : InodeCode (Int × List UInt8) := do
  locki ip
  let retval ← readi (some ip) off n
  unlocki (some ip)
  return retval

/-- `concurrent_writei(ip, src, off, n)`. -/
def concurrentWritei (ip : Fin ninode) (src : List UInt8) (off n : UInt32) : InodeCode Int := do
  locki ip
  let retval ← writei (some ip) src off n
  unlocki (some ip)
  return retval

/-! ### Directories and paths -/

/-- The loop of `dirlookup` from `off` on. -/
def dirlookupLoop (dp : Fin ninode) (name : List UInt8) :
    Nat → UInt32 → InodeCode (Option (Fin ninode))
  | 0, _ => .stop .undefined
  | turns + 1, off => do
    let inode ← look none (·.inode dp)
    if off < inode.size then
      let (result, record) ← readi (some dp) off 16
      if result ≠ 16 then panic "dirlink read"
      else
        let de := Dirent.decode record
        if de.inum = 0 then dirlookupLoop dp name turns (off + 16)
        else if namecmp name de.name.toList = 0 then
          let ip ← iget inode.dev de.inum.toUInt32
          return some ip
        else dirlookupLoop dp name turns (off + 16)
    else return none

/-- `dirlookup(dp, name, 0)`. The directory has at most `2 ^ 28` entries. -/
def dirlookup (dp : Fin ninode) (name : List UInt8) : InodeCode (Option (Fin ninode)) := do
  let inode ← look none (·.inode dp)
  if inode.type ≠ tDir then panic "dirlookup not DIR"
  else dirlookupLoop dp name (2 ^ 28 + 1) 0

/-- The loop of `namex` from the inode `ip` on. -/
def namexLoop (nameiparent : Bool) :
    Nat → Fin ninode → List UInt8 → List UInt8 → InodeCode (Option (Fin ninode × List UInt8))
  | 0, _, _, _ => .stop .undefined
  | turns + 1, ip, path, name =>
    match skipelem path with
    | none =>
      if nameiparent then do
        irelease ip
        return none
      else return some (ip, name)
    | some (name, path) => do
      locki ip
      let inode ← look none (·.inode ip)
      if inode.type ≠ tDir then
        unlocki (some ip)
        irelease ip
        return none
      else if nameiparent = true ∧ path = [] then
        unlocki (some ip)
        return some (ip, name)
      else
        let next ← dirlookup ip name
        unlocki (some ip)
        irelease ip
        match next with
        | none => return none
        | some next => namexLoop nameiparent turns next path name

/-- The inode that `namex` starts from. -/
def namexStart (path : List UInt8) : InodeCode (Fin ninode) := do
  let root ← iget rootdev rootino
  if path.head? = some slash then return root
  else
    idup root
    return root

/-- `nameiparent(path, name)`. -/
def nameiparent (path : List UInt8) : InodeCode (Option (Fin ninode × List UInt8)) := do
  let ip ← namexStart path
  namexLoop true (path.length + 1) ip path []

/-! ### Creation -/

/-- `update_dinode(ip)`. -/
def updateDinode (ip : Fin ninode) : InodeCode Unit := do
  let inodefile ← iget rootdev inodefileino
  let inode ← look none (·.inode ip)
  let curr ← readDinode inode.inum
  let inode ← look none (·.inode ip)
  if inode.size ≠ curr.size then
    let changed := { curr with size := inode.size, data := inode.data }
    let _ ← writei (some inodefile) changed.encode (inode.inum * 64) 64
    return ()
  else return ()

/-- The loop of `createi` over the directory: the last entry that it has read. -/
def listLoop (dp : Fin ninode) : Nat → UInt32 → Dirent → InodeCode Dirent
  | 0, _, _ => .stop .undefined
  | turns + 1, off, dirent => do
    let inode ← look none (·.inode dp)
    if off < inode.size then
      let (result, record) ← concurrentReadi dp off 16
      if result ≠ 16 then panic "dirlink read"
      else listLoop dp turns (off + 16) (Dirent.decode record)
    else return dirent

/-- The part of `createi` under the lock of `icache.inodefile`: the number of the new inode. -/
def writeCreated : InodeCode UInt32 := do
  acquiresleep inodefileAddr
  let inodefile ← look none (·.inodefile)
  let inum := inodefile.size / 64
  let _ ← writei inodefileAddr createdDinode.encode (inodeOff inum) 64
  releasesleep inodefileAddr
  return inum

/-- `createi(inodefile, path)`. -/
def createi (inodefile : Fin ninode) (path : List UInt8) : InodeCode (Fin ninode) := do
  let inum ← writeCreated
  let parent ← nameiparent path
  match parent with
  | none => .stop .undefined
  | some (rootino, name) =>
    let dirent : Dirent := ⟨inum.toUInt16, strncpy name dirsiz⟩
    let root ← look none (·.inode rootino)
    let _ ← concurrentWritei rootino dirent.encode root.size 16
    modify none (some inodefile) fun inode => { inode with size := inode.size + 64 }
    modify none (some rootino) fun inode => { inode with size := inode.size + 16 }
    let last ← listLoop rootino (2 ^ 28 + 1) 0 dirent
    updateDinode inodefile
    updateDinode rootino
    iget rootdev last.inum.toUInt32

/-- `concurrent_createi(path)`. -/
def concurrentCreatei (path : List UInt8) : InodeCode (Fin ninode) := do
  let inodefile ← iget rootdev inodefileino
  acquiresleep (some inodefile)
  let ip ← createi inodefile path
  releasesleep (some inodefile)
  return ip

end InodeCode

/-! ### Calls -/

/-- What a process can call. -/
inductive InodeCall
  | concurrentReadi (ip : Fin ninode) (off n : UInt32)
  | concurrentWritei (ip : Fin ninode) (src : List UInt8) (off n : UInt32)
  | locki (ip : Fin ninode)
  | readi (ip : Fin ninode) (off n : UInt32)
  | writei (ip : Fin ninode) (src : List UInt8) (off n : UInt32)
  | unlocki (ip : Fin ninode)
  | iget (dev inum : UInt32)
  | concurrentCreatei (path : List UInt8)

open InodeCode in
def InodeCall.program : InodeCall → InodeCode Unit
  | .concurrentReadi ip off n => do let _ ← InodeCode.concurrentReadi ip off n
  | .concurrentWritei ip src off n => do let _ ← InodeCode.concurrentWritei ip src off n
  | .locki ip => InodeCode.locki ip
  | .readi ip off n => do let _ ← InodeCode.readi ip off n
  | .writei ip src off n => do let _ ← InodeCode.writei ip src off n
  | .unlocki ip => InodeCode.unlocki ip
  | .iget dev inum => do let _ ← InodeCode.iget dev inum
  | .concurrentCreatei path => do let _ ← InodeCode.concurrentCreatei path

/-- The caller of `readi`, `writei` or `unlocki` has locked the inode. -/
def InodeCall.needs : InodeCall → List InodeAddr
  | .readi ip _ _ | .writei ip _ _ _ | .unlocki ip => [some ip]
  | _ => []

end Xk
