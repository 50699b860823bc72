/-
This file proves what reading and writing one record of the inode file does, for records in the first
extent of the inode file: `read_dinode` returns the record, and a write elsewhere on the disk leaves
it as it was.
-/

import Xk.ExtentWrites
import Xk.MkfsReadBack

namespace Xk

open Outcome

/-- The first extent of the inode file, as `icache.inodefile` has it. -/
def FileSystem.table (fs : FileSystem) : Extent := fs.inodefile.data.head

/-- The address of the record of an inode. -/
def FileSystem.recordAddress (fs : FileSystem) (inum : UInt32) : Nat :=
  fs.table.address + inum.toNat * dinodeSize

/-- The record of an inode on the disk. -/
def FileSystem.record (fs : FileSystem) (inum : UInt32) : Dinode :=
  Dinode.decode (Bytes.load fs.disk.bytes (fs.recordAddress inum) dinodeSize)

/-- `icache.inodefile` is initialized and not locked. -/
structure FileSystem.TableReady (fs : FileSystem) : Prop where
  notDevice : fs.inodefile.type ≠ tDev
  onDisk : fs.table.OnDisk fs.disk
  referenced : 1 ≤ fs.inodefile.ref
  unlocked : fs.inodefile.locked = false

/-- The record of the inode is in the first extent of the inode file, and begins in the part that
`icache.inodefile` has or right behind it. -/
def FileSystem.HasRecord (fs : FileSystem) (inum : UInt32) : Prop :=
  inum.toNat * dinodeSize ≤ fs.inodefile.size.toNat ∧
    inum.toNat * dinodeSize + dinodeSize ≤ fs.table.bytes

@[simp] theorem FileSystem.table_setInode (fs : FileSystem) (ip : Fin ninode) (inode : Inode) :
    (fs.setInode ip inode).table = fs.table := rfl

@[simp] theorem FileSystem.record_setInode (fs : FileSystem) (ip : Fin ninode) (inode : Inode)
    (inum : UInt32) : (fs.setInode ip inode).record inum = fs.record inum := rfl

section Reading

variable {fs after : FileSystem} {inum : UInt32}

theorem FileSystem.TableReady.congr (ready : fs.TableReady)
    (sameInodefile : after.inodefile = fs.inodefile)
    (sameSize : after.disk.disksize = fs.disk.disksize) : after.TableReady := by
  obtain ⟨notDevice, onDisk, referenced, unlocked⟩ := ready
  rw [FileSystem.table, ← sameInodefile, Extent.OnDisk, ← sameSize] at onDisk
  rw [← sameInodefile] at notDevice referenced unlocked
  exact ⟨notDevice, onDisk, referenced, unlocked⟩

theorem FileSystem.HasRecord.congr (hasRecord : fs.HasRecord inum)
    (sameInodefile : after.inodefile = fs.inodefile) : after.HasRecord inum := by
  rwa [FileSystem.HasRecord, FileSystem.table, sameInodefile]

theorem FileSystem.TableReady.inodeOff (ready : fs.TableReady)
    (inside : inum.toNat * dinodeSize + dinodeSize ≤ fs.table.bytes) :
    (inodeOff inum).toNat = inum.toNat * dinodeSize := by
  grind [Extent.OnDisk.bytes_lt, FileSystem.TableReady, inodeOff, UInt32.toNat_mul]

theorem FileSystem.TableReady.readDinodeLocked (ready : fs.TableReady)
    (hasRecord : fs.HasRecord inum) : readDinodeLocked fs inum = .ok (fs.record inum) := by
  obtain ⟨begun, inside⟩ := hasRecord
  have offset := ready.inodeOff inside
  let inodefile : Inode := { fs.inodefile with locked := true }
  have read : readi fs inodefile (Xk.inodeOff inum) 64 =
      .ok (dinodeSize, Bytes.load fs.disk.bytes (fs.recordAddress inum) dinodeSize) := by
    rw [FileSystem.recordAddress, ← offset]
    exact readi_first (show inodefile.type ≠ tDev from ready.notDevice) rfl ready.onDisk rfl
      (by rw [offset]; exact begun)
      (show (Xk.inodeOff inum).toNat + dinodeSize ≤ _ by rw [offset]; exact inside)
  rw [Xk.readDinodeLocked, read, ok_bind]
  dsimp only
  rw [if_neg (by rw [Bytes.load_length]; decide)]
  rfl

theorem FileSystem.TableReady.readDinode (ready : fs.TableReady) (hasRecord : fs.HasRecord inum) :
    readDinode fs inum = .ok (fs.record inum) := by
  grind [FileSystem.TableReady, readDinode, readDinodeLocked]

/-- A write that does not touch the record. -/
theorem FileSystem.record_store {address : Nat} {bytes : List UInt8}
    (apart : address + bytes.length ≤ fs.recordAddress inum ∨
      fs.recordAddress inum + dinodeSize ≤ address) :
    FileSystem.record { fs with disk := fs.disk.store address bytes } inum = fs.record inum := by
  rw [FileSystem.record, FileSystem.record]
  refine congrArg Dinode.decode ?_
  exact Bytes.load_write_of_apart _ (by tauto)

end Reading

/-! ### Cached inodes -/

theorem Inode.copy_of_copyOf {inode : Inode} {din : Dinode} (copyOf : inode.CopyOf din) :
    inode.copy din = inode := by
  obtain ⟨isType, isDevid, isSize, isData⟩ := copyOf
  rw [Inode.copy, ← isType, ← isDevid, ← isSize, ← isData]

/-- The entry of the cache has references and is a copy of its record. -/
structure FileSystem.Cached (fs : FileSystem) (ip : Fin ninode) : Prop where
  referenced : 1 ≤ (fs.inode ip).ref
  hasRecord : fs.HasRecord (fs.inode ip).inum
  copyOf : (fs.inode ip).CopyOf (fs.record (fs.inode ip).inum)

section Cached

variable {fs : FileSystem} {ip : Fin ninode}

/-- Giving a lock back. -/
theorem unlocki_held {inode : Inode} (referenced : 1 ≤ inode.ref) (held : inode.locked = true) :
    unlocki (fs.setInode ip inode) ip = .ok (fs.setInode ip { inode with locked := false }) := by
  grind [unlocki, FileSystem.setInode_self, FileSystem.setInode_setInode]

/-- Locking an inode that is a copy of its record does not change what it has from there. -/
theorem FileSystem.TableReady.locki (ready : fs.TableReady) (cached : fs.Cached ip)
    (typed : (fs.inode ip).type ≠ 0) (unlocked : (fs.inode ip).locked = false) :
    locki fs ip = .ok (fs.setInode ip { fs.inode ip with locked := true, valid := true }) := by
  have inodefileRef := ready.referenced
  have referenced := cached.referenced
  rw [Xk.locki]
  dsimp only
  rw [if_neg (by omega), if_neg (by simp [unlocked])]
  split_ifs with isValid missing busy
  · rw [isValid]
  · omega
  · simp [ready.unlocked] at busy
  · rw [ready.readDinodeLocked cached.hasRecord, ok_bind, if_neg (cached.copyOf.1 ▸ typed)]
    refine congrArg (fun inode => Except.ok (fs.setInode ip inode)) ?_
    exact Inode.copy_of_copyOf cached.copyOf

/-- A write inside the first extent of a cached inode changes a part of the extent. -/
theorem FileSystem.TableReady.concurrentWritei (ready : fs.TableReady) (cached : fs.Cached ip)
    (typed : (fs.inode ip).type ≠ 0) (notDevice : (fs.inode ip).type ≠ tDev)
    (onDisk : (fs.inode ip).data.head.OnDisk fs.disk) (unlocked : (fs.inode ip).locked = false)
    {src : List UInt8} {off n : UInt32}
    (fits : off.toNat + n.toNat ≤ min (fs.inode ip).data.head.bytes
      (getCapacity (fs.inode ip)).toNat)
    (long : n.toNat ≤ src.length) :
    concurrentWritei fs ip src off n =
      .ok (n.toNat, FileSystem.setInode { fs with
        disk := fs.disk.store ((fs.inode ip).data.head.address + off.toNat) (src.take n.toNat) } ip
          { fs.inode ip with valid := true }) := by
  let inode : Inode := { fs.inode ip with locked := true, valid := true }
  let written : FileSystem := { fs with
    disk := fs.disk.store ((fs.inode ip).data.head.address + off.toNat) (src.take n.toNat) }
  have isWritten : writei (fs.setInode ip inode) inode src off n =
      .ok (n.toNat, written.setInode ip inode, inode) :=
    writei_inside (show inode.type ≠ tDev from notDevice) rfl
      (show inode.data.head.OnDisk (fs.setInode ip inode).disk from onDisk) rfl
      (fits.trans (min_le_left _ _)) (fits.trans (min_le_right _ _)) long
  have isUnlocked : unlocki (written.setInode ip inode) ip =
      .ok (written.setInode ip { inode with locked := false }) :=
    unlocki_held cached.referenced rfl
  have isFree : ({ inode with locked := false } : Inode) = { fs.inode ip with valid := true } := by
    rw [← unlocked]
  have isLocked : Xk.locki fs ip = .ok (fs.setInode ip inode) := ready.locki cached typed unlocked
  simp only [Xk.concurrentWritei, isLocked, FileSystem.setInode_self, isWritten,
    FileSystem.setInode_setInode, isUnlocked, isFree, ok_bind]
  rfl

/-- A read inside the first extent of a valid inode. -/
theorem concurrentReadi_valid (referenced : 1 ≤ (fs.inode ip).ref)
    (isValid : (fs.inode ip).valid = true) (unlocked : (fs.inode ip).locked = false)
    (notDevice : (fs.inode ip).type ≠ tDev) (onDisk : (fs.inode ip).data.head.OnDisk fs.disk)
    {off n : UInt32} (begun : off.toNat ≤ (fs.inode ip).size.toNat)
    (inside : off.toNat + n.toNat ≤ (fs.inode ip).data.head.bytes) :
    concurrentReadi fs ip off n =
      .ok ((n.toNat, Bytes.load fs.disk.bytes ((fs.inode ip).data.head.address +
        off.toNat) n.toNat),
        fs) := by
  let inode : Inode := { fs.inode ip with locked := true }
  have isLocked : locki fs ip = .ok (fs.setInode ip inode) := by
    rw [locki, if_neg (Int.not_lt.mpr referenced), if_neg (by simp [unlocked]), if_pos isValid]
  have isRead : readi (fs.setInode ip inode) inode off n =
      .ok (n.toNat, Bytes.load fs.disk.bytes ((fs.inode ip).data.head.address +
        off.toNat) n.toNat) :=
    readi_first (show inode.type ≠ tDev from notDevice) rfl
      (show inode.data.head.OnDisk (fs.setInode ip inode).disk from onDisk) rfl begun inside
  have isUnlocked : unlocki (fs.setInode ip inode) ip = .ok fs := by
    rw [unlocki_held (show 1 ≤ inode.ref from referenced) rfl]
    refine congrArg Except.ok ?_
    rw [show ({ inode with locked := false } : Inode) = fs.inode ip by rw [← unlocked],
      FileSystem.setInode, Function.update_eq_self]
  simp only [concurrentReadi, isLocked, FileSystem.setInode_self, isRead, isUnlocked, ok_bind]
  rfl

end Cached

/-! ### The records of an image -/

section Image

variable {image : Image} {files : List InputFile} (made : image.Made files) {fs : FileSystem}
  (onImage : fs.OnImage image files)
include made onImage

theorem FileSystem.OnImage.tableReady : fs.TableReady := by
  have inFirst := onImage.inodefile_inFirst made
  refine ⟨inFirst.notDevice, ?_, ?_, ?_⟩
  · grind [FileSystem.table, Inode.InFirst]
  all_goals rw [onImage.inodefile]
  · exact le_rfl
  · rfl

/-- The inodes of the image are the records. -/
theorem FileSystem.OnImage.hasRecord {inum : UInt32} {din : Dinode}
    (isInode : imageInode (files.length + 3) files inum.toNat = some din) :
    fs.HasRecord inum ∧ fs.record inum = din ∧ fs.recordAddress inum = inodeAddress inum.toNat := by
  have inFirst := onImage.inodefile_inFirst made
  have inRange := (made.hasInode isInode).1
  have size : fs.inodefile.size.toNat = (files.length + 3) * dinodeSize := by
    rw [onImage.inodefile]
    exact made.inodefile_size
  have fits : fs.inodefile.size.toNat ≤ fs.table.bytes := by grind [FileSystem.table, Inode.InFirst]
  have inside : inum.toNat * dinodeSize + dinodeSize ≤ fs.inodefile.size.toNat := by grind
  have hasRecord : fs.HasRecord inum := ⟨(Nat.le_add_right _ _).trans inside, inside.trans fits⟩
  refine ⟨hasRecord, ?_, ?_⟩
  · exact Except.ok.inj (((onImage.tableReady made).readDinodeLocked hasRecord).symm.trans
      (onImage.readDinodeLocked made isInode))
  · rw [FileSystem.recordAddress, FileSystem.table,
      show fs.inodefile.data.head = _ from inFirst.first, Extent.address, inodeAddress]
    rfl

end Image

end Xk
