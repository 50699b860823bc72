/-
This file asks whether a file that has been written, closed and opened again is what it was in memory
before it was closed.

`filewrite` changes the blocks of the file and, where it appends, the extents of its inode in memory.
It never writes the inode back. So a file is the same after it is closed and opened again as long as
no write has gone past the blocks that the file has.
-/

import Xk.InodeRecords
import Xk.InodeLocks
import Xk.InodeReferences

namespace Xk

open Outcome Transition

/-! ### Writing, closing and opening -/

/-- One call of `filewrite` with all bytes of a buffer. -/
def writeStep (opened : OpenFile) (buf : List UInt8) : Option OpenFile :=
  (filewriteInode opened buf buf.length).toOption.map Prod.snd

/-- The write stays in the first extent of the file, which is its only one before it has grown. -/
def OpenFile.Fits (opened : OpenFile) (buf : List UInt8) : Prop :=
  ∀ ip, opened.file.iptr = some ip →
    (UInt32.ofInt opened.file.offset).toNat + buf.length ≤
      min (opened.fs.inode ip).data.head.bytes (getCapacity (opened.fs.inode ip)).toNat

/-- The inode in the cache is that of a regular file, is a copy of its record on the disk, and has no
reference but that of the open file. The record is not in the blocks of the file. -/
structure OpenFile.Stored (opened : OpenFile) (ip : Fin ninode) : Prop where
  iptr : opened.file.iptr = some ip
  table : opened.fs.TableReady
  cached : opened.fs.Cached ip
  isFile : (opened.fs.inode ip).type = tFile
  onDisk : (opened.fs.inode ip).data.head.OnDisk opened.fs.disk
  apart : (opened.fs.inode ip).data.head.address + (opened.fs.inode ip).data.head.bytes ≤
      opened.fs.recordAddress (opened.fs.inode ip).inum ∨
    opened.fs.recordAddress (opened.fs.inode ip).inum + dinodeSize ≤
      (opened.fs.inode ip).data.head.address
  lastRef : (opened.fs.inode ip).ref = 1
  only : ∀ other, other ≠ ip →
    opened.fs.caches (opened.fs.inode ip).dev (opened.fs.inode ip).inum other = false
  unlocked : (opened.fs.inode ip).locked = false
  free : ∀ other, (opened.fs.inode other).ref = 0 → (opened.fs.inode other).locked = false

namespace OpenFile.Stored

variable {opened : OpenFile} {ip : Fin ninode} (stored : opened.Stored ip)

include stored

theorem typed : (opened.fs.inode ip).type ≠ 0 := by
  rw [stored.isFile]
  decide

theorem notDevice : (opened.fs.inode ip).type ≠ tDev := by
  rw [stored.isFile]
  decide

/-- The file is stored as before when a part of its blocks has changed. -/
theorem store (address : Nat) (bytes : List UInt8)
    (from_le : (opened.fs.inode ip).data.head.address ≤ address)
    (le_to : address + bytes.length ≤
      (opened.fs.inode ip).data.head.address + (opened.fs.inode ip).data.head.bytes) :
    OpenFile.Stored { opened with
      fs := FileSystem.setInode { opened.fs with disk := opened.fs.disk.store address bytes } ip
        { opened.fs.inode ip with valid := true } } ip := by
  let written : FileSystem := { opened.fs with disk := opened.fs.disk.store address bytes }
  let inode : Inode := { opened.fs.inode ip with valid := true }
  have isInode : (written.setInode ip inode).inode ip = inode := FileSystem.setInode_self _ _ _
  have others : ∀ other, other ≠ ip →
      (written.setInode ip inode).inode other = opened.fs.inode other := fun other different =>
    FileSystem.setInode_of_ne _ _ different
  have isRecord : (written.setInode ip inode).record inode.inum = opened.fs.record inode.inum :=
    FileSystem.record_store (stored.apart.imp le_to.trans from_le.trans')
  have cached : (written.setInode ip inode).Cached ip := by
    refine ⟨?_, ?_, ?_⟩
    all_goals rw [isInode]
    · exact stored.cached.referenced
    · exact stored.cached.hasRecord
    · rw [isRecord]
      exact stored.cached.copyOf
  exact {
    iptr := stored.iptr
    table := ⟨stored.table.notDevice, stored.table.onDisk, stored.table.referenced,
      stored.table.unlocked⟩
    cached := cached
    isFile := by
      rw [isInode]
      exact stored.isFile
    onDisk := by
      rw [isInode]
      exact stored.onDisk
    apart := by
      rw [isInode]
      exact stored.apart
    lastRef := by
      rw [isInode]
      exact stored.lastRef
    only := by
      intro other different
      rw [isInode, FileSystem.caches, others other different]
      exact stored.only other different
    unlocked := by
      rw [isInode]
      exact stored.unlocked
    free := by
      intro other unreferenced
      by_cases same : other = ip
      · rw [same, isInode]
        exact stored.unlocked
      · rw [others other same] at unreferenced ⊢
        exact stored.free other unreferenced }

/-- After a write that fits the file is stored as before, with the same extents. -/
theorem write {buf : List UInt8} (fits : opened.Fits buf) :
    ∃ after, writeStep opened buf = some after ∧ after.Stored ip ∧ after.file = opened.file ∧
      (after.fs.inode ip).data = (opened.fs.inode ip).data := by
  have room := fits ip stored.iptr
  have bytes := stored.onDisk.bytes_lt
  have length : (UInt32.ofInt (buf.length : Int)).toNat = buf.length := toNat_ofInt (by omega)
  by_cases readOnly : opened.file.accessPermission = oRdonly
  · refine ⟨opened, ?_, stored, rfl, rfl⟩
    simp only [writeStep, filewriteInode, stored.iptr, if_pos readOnly]
    rfl
  · have isWritten := stored.table.concurrentWritei stored.cached stored.typed stored.notDevice
      stored.onDisk stored.unlocked
      (show (UInt32.ofInt opened.file.offset).toNat + (UInt32.ofInt buf.length).toNat ≤ _ by
        rwa [length]) length.le
    rw [length, List.take_length] at isWritten
    refine ⟨_, ?_, stored.store ((opened.fs.inode ip).data.head.address +
      (UInt32.ofInt opened.file.offset).toNat) buf (Nat.le_add_right _ _) (by omega), rfl, ?_⟩
    · simp only [writeStep, filewriteInode, stored.iptr, if_neg readOnly, isWritten, ok_bind]
      rfl
    · rw [FileSystem.setInode_self]

end OpenFile.Stored

/-- A file that `mkfs` made is stored when it has been opened once. -/
theorem OpenFile.OnFile.stored {image : Image} {files : List InputFile} (made : image.Made files)
    {opened : OpenFile} {ip : Fin ninode} {index place : Nat} {file : InputFile}
    (onFile : opened.OnFile ip image files index place file)
    (lastRef : (opened.fs.inode ip).ref = 1)
    (others : ∀ other, other ≠ ip →
      (opened.fs.inode other).ref = 0 ∧ (opened.fs.inode other).locked = false) :
    opened.Stored ip := by
  have onImage := onFile.got.mounted.toOnImage
  have isInum := onFile.got.inum
  obtain ⟨above, below⟩ := placeFiles_bounds (List.mem_of_getElem? onFile.isPlaced)
  have placed := below.trans made.fits
  have isData : (opened.fs.inode ip).data.head =
      ⟨UInt32.ofNat place, UInt32.ofNat (blocksOf file.contents.length)⟩ := by
    rw [onFile.got.copyOf.2.2.2]
    rfl
  have placeNat : (UInt32.ofNat place).toNat = place :=
    toNat_ofNat_block ((Nat.le_add_right _ _).trans placed)
  have blocksNat : (UInt32.ofNat (blocksOf file.contents.length)).toNat =
      blocksOf file.contents.length := toNat_ofNat_block ((Nat.le_add_left _ _).trans placed)
  obtain ⟨hasRecord, isRecord, isAddress⟩ := onImage.hasRecord made (onFile.isInode made)
  exact {
    iptr := onFile.iptr
    table := onImage.tableReady made
    cached := by
      refine ⟨lastRef.ge, ?_, ?_⟩
      · grind
      · rw [isInum, isRecord]
        exact onFile.got.copyOf
    isFile := onFile.got.copyOf.1
    onDisk := by
      rw [isData, Extent.OnDisk, placeNat, blocksNat, onImage.disksize]
      exact placed
    apart := by
      right
      rw [isInum, isAddress, isData, Extent.address, placeNat]
      refine (inodeAddress_le (made.hasInode (onFile.isInode made)).1).trans
        (Nat.mul_le_mul_right _ ?_)
      rw [dataStart] at above
      exact (Nat.le_add_right _ _).trans above
    lastRef := lastRef
    only := by grind [FileSystem.caches]
    unlocked := onFile.unlocked
    free := by
      intro other unreferenced
      by_cases same : other = ip
      · grind
      · exact (others other same).2 }

end Xk
