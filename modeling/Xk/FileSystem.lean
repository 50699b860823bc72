/-
This file models the inode layer of `kernel/fs.c`: the inode cache, reading and writing through
the extents of an inode, and the search of a directory.

The blocks below it are those of one disk, read and written directly: the buffer cache between the
two is transparent. One process runs, so that a sleep lock is held by it or free, and a wait for a
lock that is held does not end. What the functions of a device do is a parameter.
-/

import Xk.BufferCache
import Xk.FsFormat

namespace Xk

/-! ### Blocks -/

/-- The disk, which is linked into the kernel. -/
structure Disk where
  disksize : Nat
  bytes : Nat → UInt8
  linked : disksize * bsize < 2 ^ 31

theorem oneBlock_linked : 1 * bsize < 2 ^ 31 := by decide

/-- `bread(dev, blockno)`, the data of the buffer. -/
def bread (disk : Disk) (blockno : UInt32) : Except Halt (List UInt8) :=
  if disk.disksize ≤ blockno.toNat then .error (.panic "iderw: block out of range")
  else .ok (Bytes.load disk.bytes (blockOffset blockno) bsize)

/-- `bwrite(b)` of a buffer for block `blockno`. -/
def bwrite (disk : Disk) (blockno : UInt32) (data : List UInt8) : Disk :=
  { disk with bytes := Bytes.write disk.bytes (blockOffset blockno) data }

/-! ### Inodes in memory -/

/-- `struct inode`, with its sleep lock as a flag. -/
structure Inode where
  dev : UInt32
  inum : UInt32
  ref : Int
  valid : Bool
  locked : Bool
  type : UInt16
  devid : UInt16
  size : UInt32
  data : Extents

/-- Zeroed memory. -/
def Inode.zero : Inode := ⟨0, 0, 0, false, false, 0, 0, 0, .single .zero⟩

/-- An inode with the fields that are copied from the disk. -/
def Inode.copy (ip : Inode) (dip : Dinode) : Inode :=
  { ip with type := dip.type, devid := dip.devid, size := dip.size, data := dip.data }

/-- The functions of the devices, by `devid`: a missing one, or what it returns for a length or
for the bytes that are written. -/
structure Devsw where
  read : Fin ndev → Option (UInt32 → Int × List UInt8)
  write : Fin ndev → Option (List UInt8 → Int)

/-- The variables of `fs.c` and the disk. -/
structure FileSystem where
  disk : Disk
  devsw : Devsw
  sb : Superblock
  inode : Fin ninode → Inode
  inodefile : Inode

def FileSystem.setInode (fs : FileSystem) (ip : Fin ninode) (inode : Inode) : FileSystem :=
  { fs with inode := Function.update fs.inode ip inode }

@[simp] theorem FileSystem.setInode_self (fs : FileSystem) (ip : Fin ninode) (inode : Inode) :
    (fs.setInode ip inode).inode ip = inode := Function.update_self _ _ _

theorem FileSystem.setInode_of_ne (fs : FileSystem) {ip other : Fin ninode} (inode : Inode)
    (different : other ≠ ip) : (fs.setInode ip inode).inode other = fs.inode other :=
  Function.update_of_ne different _ _

@[simp] theorem FileSystem.setInode_setInode (fs : FileSystem) (ip : Fin ninode)
    (first second : Inode) : (fs.setInode ip first).setInode ip second = fs.setInode ip second := by
  rw [setInode, setInode, setInode, Function.update_idem]

@[simp] theorem FileSystem.setInode_inode (fs : FileSystem) (ip : Fin ninode) :
    fs.setInode ip (fs.inode ip) = fs := by
  rw [setInode, Function.update_eq_self]

/-! ### Reading -/

/-- The loop that moves `data` to the extent of `off`: the extents from there on and the offset in
the first of them. It may run past the array. -/
def seekExtent : List Extent → UInt32 → UInt32 → Except Halt (List Extent × UInt32)
  | [], _, _ => .error .undefined
  | extent :: data, size, off =>
    if size + extent.nblocks * 512 < off then seekExtent data (size + extent.nblocks * 512) off
    else .ok (extent :: data, off - size)

/-- The `for` loop of `readi`: the bytes that it copies from here on. A turn copies at least one
byte or moves `data`. -/
def readLoop (disk : Disk) (n : UInt32) :
    Nat → List Extent → UInt32 → UInt32 → UInt32 → Except Halt (List UInt8)
  | 0, _, _, _, _ => .error .undefined
  | turns + 1, data, size, off, tot =>
    if tot < n then
      match data with
      | [] => .error .undefined
      | extent :: rest =>
        if size < extent.nblocks * 512 then do
          let block ← bread disk (extent.startblkno + size / 512)
          let m := min (n - tot) (512 - size % 512)
          let others ← readLoop disk n turns data (size + m) (off + m) (tot + m)
          return (block.drop (size % 512).toNat).take m.toNat ++ others
        else readLoop disk n turns rest (off - size) off tot
    else .ok []

/-- `readi(ip, dst, off, n)`: what it returns and what it copies to `dst`. -/
def readi (fs : FileSystem) (ip : Inode) (off n : UInt32) : Except Halt (Int × List UInt8) :=
  if ip.locked = false then .error (.panic "not holding lock")
  else if ip.type = tDev then
    -- a negative `devid` is a large one here
    if inTable : ip.devid.toNat < ndev then
      match fs.devsw.read ⟨ip.devid.toNat, inTable⟩ with
      | some read => .ok (read n)
      | none => .ok (-1, [])
    else .ok (-1, [])
  else if ip.size < off ∨ off + n < off then .ok (-1, [])
  else do
    let (data, size) ← seekExtent ip.data.toList 0 off
    let bytes ← readLoop fs.disk n (n.toNat + extentN + 1) data size off 0
    return (n.toBitVec.toInt, bytes)

/-- `INODEOFF(inum)`. -/
def inodeOff (inum : UInt32) : UInt32 := inum * 64

/-- `readi` on the inode file by its lock's holder, as `read_dinode` calls it. An inode that is not
read completely is left as it was on the stack. -/
def readDinodeLocked (fs : FileSystem) (inum : UInt32) : Except Halt Dinode := do
  let (_, record) ← readi fs { fs.inodefile with locked := true } (inodeOff inum) 64
  if record.length < dinodeSize then .error .undefined
  else return Dinode.decode record

/-- `read_dinode(inum, dip)`: the lock of the inode file is taken for the call where it is not held.
`init_inodefile` makes the inode file valid. -/
def readDinode (fs : FileSystem) (inum : UInt32) : Except Halt Dinode :=
  if fs.inodefile.locked = false ∧ fs.inodefile.ref < 1 then .error (.panic "locki")
  else readDinodeLocked fs inum

/-! ### The inode cache -/

/-- The test of `iget` for a cached inode. -/
def FileSystem.caches (fs : FileSystem) (dev inum : UInt32) (ip : Fin ninode) : Bool :=
  0 < (fs.inode ip).ref ∧ (fs.inode ip).dev = dev ∧ (fs.inode ip).inum = inum

/-- `iget(dev, inum)`. -/
def iget (fs : FileSystem) (dev inum : UInt32) : Except Halt (Fin ninode × FileSystem) :=
  match (List.finRange ninode).find? (fs.caches dev inum) with
  | some ip => .ok (ip, fs.setInode ip { fs.inode ip with ref := (fs.inode ip).ref + 1 })
  | none =>
    match (List.finRange ninode).find? fun ip => (fs.inode ip).ref = 0 with
    | none => .error (.panic "iget: no inodes")
    | some ip => do
      let taken := { fs.inode ip with ref := 1, valid := false, dev := dev, inum := inum }
      let dip ← readDinode (fs.setInode ip taken) inum
      if dip.type = 0 then .error (.panic "iget: no type")
      else return (ip, fs.setInode ip (taken.copy dip))

/-- `idup(ip)`. -/
def idup (fs : FileSystem) (ip : Fin ninode) : FileSystem :=
  fs.setInode ip { fs.inode ip with ref := (fs.inode ip).ref + 1 }

/-- `irelease(ip)`. -/
def irelease (fs : FileSystem) (ip : Fin ninode) : FileSystem :=
  let inode := fs.inode ip
  fs.setInode ip { inode with
    type := if inode.ref = 1 then 0 else inode.type
    ref := inode.ref - 1 }

/-- `locki(ip)` for an inode of the cache. The inode file is locked while the inode is read. -/
def locki (fs : FileSystem) (ip : Fin ninode) : Except Halt FileSystem :=
  let inode := fs.inode ip
  if inode.ref < 1 then .error (.panic "locki")
  else if inode.locked then .error .sleeps
  else if inode.valid then .ok (fs.setInode ip { inode with locked := true })
  else if fs.inodefile.ref < 1 then .error (.panic "locki")
  else if fs.inodefile.locked then .error .sleeps
  else do
    let dip ← readDinodeLocked fs inode.inum
    if dip.type = 0 then .error (.panic "iget: no type")
    else return fs.setInode ip ({ inode with locked := true, valid := true }.copy dip)

/-- `unlocki(ip)`. -/
def unlocki (fs : FileSystem) (ip : Fin ninode) : Except Halt FileSystem :=
  let inode := fs.inode ip
  if inode.locked = false ∨ inode.ref < 1 then .error (.panic "unlocki")
  else .ok (fs.setInode ip { inode with locked := false })

/-- `concurrent_readi(ip, dst, off, n)`. -/
def concurrentReadi (fs : FileSystem) (ip : Fin ninode) (off n : UInt32) :
    Except Halt ((Int × List UInt8) × FileSystem) := do
  let locked ← locki fs ip
  let result ← readi locked (locked.inode ip) off n
  let unlocked ← unlocki locked ip
  return (result, unlocked)

/-! ### Writing -/

/-- The loop of `getfreestartblkno` down to block `i` of the bitmap, for `i + 1`. A zero byte is
eight free blocks; the bitmap does not begin at block 0. -/
def freeScan (disk : Disk) (sb : Superblock) : Nat → Except Halt (UInt32 × Disk)
  | 0 => .ok (0, disk)
  | i + 1 =>
    if i < sb.bmapstart.toNat then .ok (0, disk)
    else do
      let block ← bread disk (UInt32.ofNat i)
      match block.findIdx? (· = 0) with
      | some j =>
        return (sb.nblocks + sb.inodestart - (sb.inodestart - 1 - UInt32.ofNat i) * 512 -
          UInt32.ofNat (j + 1) * 8, bwrite disk (UInt32.ofNat i) (block.set j 0xff))
      | none => freeScan disk sb i

/-- `getfreestartblkno(dev)`. -/
def getfreestartblkno (disk : Disk) (sb : Superblock) : Except Halt (UInt32 × Disk) :=
  freeScan disk sb sb.inodestart.toNat

/-- `getCapacity(ip)`. -/
def getCapacity (ip : Inode) : UInt32 :=
  (ip.data.toList.map fun extent => extent.nblocks * 512).sum

/-- A buffer after `memmove(bp->data + offset, src, m)`; the source may be shorter than `m`. -/
def copyIn (block src : List UInt8) (offset m : UInt32) : Except Halt (List UInt8) :=
  if src.length < m.toNat then .error .undefined
  else .ok (block.take offset.toNat ++ src.take m.toNat ++ block.drop (offset.toNat + m.toNat))

/-- The `for` loop of `writei`: the disk and the rest of `src` at its end. The block is that of the
offset in the file, not of the offset in the extent. -/
def writeLoop (n : UInt32) :
    Nat → Disk → List Extent → UInt32 → UInt32 → UInt32 → List UInt8 →
      Except Halt (Disk × List UInt8)
  | 0, _, _, _, _, _, _ => .error .undefined
  | turns + 1, disk, data, size, off, tot, src =>
    if tot < n then
      match data with
      | [] => .error .undefined
      | extent :: rest =>
        if size < extent.nblocks * 512 then do
          let block ← bread disk (extent.startblkno + off / 512)
          let m := min (n - tot) (512 - size % 512)
          let changed ← copyIn block src (size % 512) m
          writeLoop n turns (bwrite disk (extent.startblkno + off / 512) changed) data (size + m)
            (off + m) (tot + m) (src.drop m.toNat)
        else writeLoop n turns disk rest (off - size) off tot src
    else .ok (disk, src)

/-- The `for` loop of `appendi` from the extent `data` on. Every turn moves to the next extent. -/
def appendiLoop (sb : Superblock) (append : UInt32) :
    Nat → Disk → Extents → Nat → UInt32 → UInt32 → List UInt8 → Except Halt (Disk × Extents)
  | 0, _, _, _, _, _, _ => .error .undefined
  | turns + 1, disk, extents, data, size, tot, src =>
    if tot < append then
      if inArray : data < extentN then do
        let extent := extents.get ⟨data, inArray⟩
        let (extent, disk) ←
          if extent.nblocks = 0 then do
            let (startblkno, disk) ← getfreestartblkno disk sb
            pure ((⟨startblkno, 8⟩ : Extent), disk)
          else pure (extent, disk)
        let extents := extents.set ⟨data, inArray⟩ extent
        if size < extent.nblocks * 512 then do
          let block ← bread disk (extent.startblkno + size / 512)
          let m := min (append - tot) (512 - size % 512)
          let changed ← copyIn block src (size % 512) m
          appendiLoop sb append turns (bwrite disk (extent.startblkno + size / 512) changed) extents
            (data + 1) (size + m) (tot + m) (src.drop m.toNat)
        else appendiLoop sb append turns disk extents (data + 2) 0 tot src
      else .error .undefined
    else .ok (disk, extents)

/-- `appendi(ip, src, append)`, which returns `append`. The first loop may run past the array. -/
def appendi (sb : Superblock) (disk : Disk) (extents : Extents) (src : List UInt8)
    (append : UInt32) : Except Halt (Disk × Extents) :=
  match extents.toList.findIdx? fun extent => extent.nblocks = 0 with
  | none => .error .undefined
  | some data => appendiLoop sb append (extentN + 1) disk extents data 0 0 src

/-- `writei(ip, src, off, n)`: what it returns, the file system, and the inode. The size of the
inode stays as it was. -/
def writei (fs : FileSystem) (ip : Inode) (src : List UInt8) (off n : UInt32) :
    Except Halt (Int × FileSystem × Inode) :=
  if ip.locked = false then .error (.panic "not holding lock")
  else if ip.type = tDev then
    if inTable : ip.devid.toNat < ndev then
      match fs.devsw.write ⟨ip.devid.toNat, inTable⟩ with
      | some write => .ok (write (src.take n.toNat), fs, ip)
      | none => .ok (-1, fs, ip)
    else .ok (-1, fs, ip)
  else if off + n < off then .ok (-1, fs, ip)
  else do
    let capacity := getCapacity ip
    let append := if capacity < off + n then off + n - capacity else 0
    let n := if capacity < off + n then capacity - off else n
    let (data, size) ← seekExtent ip.data.toList 0 off
    let (disk, src) ← writeLoop n (n.toNat + extentN + 1) fs.disk data size off 0 src
    if 0 < append then do
      let (disk, extents) ← appendi fs.sb disk ip.data src append
      return ((n + append).toBitVec.toInt, { fs with disk := disk }, { ip with data := extents })
    else return (n.toBitVec.toInt, { fs with disk := disk }, ip)

/-- `concurrent_writei(ip, src, off, n)`. -/
def concurrentWritei (fs : FileSystem) (ip : Fin ninode) (src : List UInt8) (off n : UInt32) :
    Except Halt (Int × FileSystem) := do
  let locked ← locki fs ip
  let (result, written, inode) ← writei locked (locked.inode ip) src off n
  let unlocked ← unlocki (written.setInode ip inode) ip
  return (result, unlocked)

/-! ### Mounting -/

/-- `readsb(dev, sb)`. -/
def readsb (disk : Disk) : Except Halt Superblock := do
  let block ← bread disk 1
  return Superblock.decode (block.take 16)

/-- `init_inodefile(dev)`: only the first extent of the inode on disk is kept. -/
def initInodefile (disk : Disk) (sb : Superblock) (dev : UInt32) (inodefile : Inode) :
    Except Halt Inode := do
  let block ← bread disk sb.inodestart
  let di := Dinode.decode (block.take dinodeSize)
  return { inodefile with
    inum := inodefileino, dev := dev, type := di.type, valid := true, ref := 1
    devid := di.devid, size := di.size, data := .single di.data.head }

/-- `iinit(dev)`, on zeroed variables. -/
def iinit (disk : Disk) (devsw : Devsw) (dev : UInt32) : Except Halt FileSystem := do
  let sb ← readsb disk
  let inodefile ← initInodefile disk sb dev .zero
  return { disk := disk, devsw := devsw, sb := sb, inode := fun _ => .zero, inodefile := inodefile }

/-! ### Directories -/

/-- The loop of `dirlookup` from `off` on. -/
def dirlookupLoop (fs : FileSystem) (dp : Fin ninode) (name : List UInt8) :
    Nat → UInt32 → Except Halt (Option (Fin ninode × UInt32) × FileSystem)
  | 0, _ => .error .undefined
  | turns + 1, off =>
    if off < (fs.inode dp).size then do
      let (result, record) ← readi fs (fs.inode dp) off 16
      if result ≠ 16 then .error (.panic "dirlink read")
      else
        let de := Dirent.decode record
        if de.inum = 0 then dirlookupLoop fs dp name turns (off + 16)
        else if namecmp name de.name.toList = 0 then do
          let (ip, found) ← iget fs (fs.inode dp).dev de.inum.toUInt32
          return (some (ip, off), found)
        else dirlookupLoop fs dp name turns (off + 16)
    else .ok (none, fs)

/-- `dirlookup(dp, name, poff)`: the inode and the offset of its entry. -/
def dirlookup (fs : FileSystem) (dp : Fin ninode) (name : List UInt8) :
    Except Halt (Option (Fin ninode × UInt32) × FileSystem) :=
  if (fs.inode dp).type ≠ tDir then .error (.panic "dirlookup not DIR")
  else dirlookupLoop fs dp name ((fs.inode dp).size.toNat + 1) 0

end Xk
