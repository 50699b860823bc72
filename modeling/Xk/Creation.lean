/-
This file computes what `concurrent_createi` does to a file system whose inode cache agrees with the
disk, when the new record fits the inode file and the new entry fits the root directory: the record of
the new inode is written, an entry is added to the root directory, and the records of the inode file
and of the root directory get their new sizes.

`icache.inodefile` keeps its size. The number of the next inode is computed from it, so that all
creations after the kernel has booted use the same record.
-/

import Xk.RootDirectory

namespace Xk

open Outcome

variable {inum : UInt32} {ip inodefile : Fin ninode} {dirent : Dirent} {after : FileSystem}

/-! ### Writing records -/

section Records

variable {fs : FileSystem}

/-- The file system after the record of an inode is written. -/
def FileSystem.putRecord (fs : FileSystem) (inum : UInt32) (din : Dinode) : FileSystem :=
  { fs with disk := fs.disk.store (fs.recordAddress inum) din.encode }

@[simp] theorem FileSystem.inode_putRecord (fs : FileSystem) (inum : UInt32) (din : Dinode) :
    (fs.putRecord inum din).inode = fs.inode := rfl

@[simp] theorem FileSystem.table_putRecord (fs : FileSystem) (inum : UInt32) (din : Dinode) :
    (fs.putRecord inum din).table = fs.table := rfl

theorem FileSystem.record_putRecord_self (fs : FileSystem) (inum : UInt32) (din : Dinode) :
    (fs.putRecord inum din).record inum = din := by
  have loaded : Bytes.load (fs.putRecord inum din).disk.bytes (fs.recordAddress inum) dinodeSize =
      din.encode := by
    have stored := Bytes.load_write fs.disk.bytes (fs.recordAddress inum) din.encode
    rwa [din.encode_length] at stored
  rw [record]
  refine Eq.trans (congrArg Dinode.decode ?_) din.decode_encode
  exact loaded

theorem FileSystem.record_putRecord_of_ne (fs : FileSystem) {other : UInt32} (din : Dinode)
    (different : other ≠ inum) : (fs.putRecord inum din).record other = fs.record other := by
  refine FileSystem.record_store ?_
  have numbers : other.toNat ≠ inum.toNat := fun same => different (UInt32.toNat_inj.mp same)
  rw [din.encode_length, recordAddress, recordAddress]
  show fs.table.address + inum.toNat * 64 + 64 ≤ fs.table.address + other.toNat * 64 ∨
    fs.table.address + other.toNat * 64 + 64 ≤ fs.table.address + inum.toNat * 64
  omega

/-- The directory is apart from the records. -/
theorem FileSystem.load_putRecord (fs : FileSystem) {din : Dinode} {address : Nat} {length : Nat}
    (inTable : inum.toNat * dinodeSize + dinodeSize ≤ fs.table.bytes)
    (apart : address + length ≤ fs.table.address ∨ fs.table.address + fs.table.bytes ≤ address) :
    Bytes.load (fs.putRecord inum din).disk.bytes address length =
      Bytes.load fs.disk.bytes address length := by
  refine Bytes.load_write_of_apart _ ?_
  rw [din.encode_length, recordAddress]
  omega

/-- A write of a record through an inode of the inode file that is locked. -/
theorem writei_record {inode : Inode} (notDevice : inode.type ≠ tDev)
    (first : inode.data.head = fs.table) (onDisk : fs.table.OnDisk fs.disk)
    (locked : inode.locked = true) {off : UInt32} (isOff : off.toNat = inum.toNat * dinodeSize)
    (inside : inum.toNat * dinodeSize + dinodeSize ≤ min fs.table.bytes (getCapacity inode).toNat)
    (din : Dinode) :
    writei fs inode din.encode off 64 = .ok (dinodeSize, fs.putRecord inum din, inode) := by
  have written : writei fs inode din.encode off 64 = .ok ((64 : UInt32).toNat, { fs with
      disk := fs.disk.store (fs.table.address + off.toNat)
        (din.encode.take (64 : UInt32).toNat) }, inode) :=
    writei_inside notDevice first onDisk locked
      (show off.toNat + dinodeSize ≤ _ by rw [isOff]; exact inside.trans (min_le_left _ _))
      (show off.toNat + dinodeSize ≤ _ by rw [isOff]; exact inside.trans (min_le_right _ _))
      (show dinodeSize ≤ _ by rw [din.encode_length])
  have whole : din.encode.take (64 : UInt32).toNat = din.encode :=
    List.take_of_length_le (show din.encode.length ≤ dinodeSize by rw [din.encode_length])
  rw [written, isOff, whole]
  rfl

end Records

/-! ### The parts of `createi` -/

section Parts

variable {fs after : FileSystem}

/-- The record of the new inode is written through `icache.inodefile`. -/
theorem FileSystem.TableReady.writeCreated (ready : fs.TableReady)
    (inside : fs.nextInum.toNat * dinodeSize + dinodeSize ≤
      min fs.table.bytes (getCapacity fs.inodefile).toNat) :
    writeCreated fs = .ok (fs.putRecord fs.nextInum createdDinode) := by
  let inodefile : Inode := { fs.inodefile with locked := true }
  have written : writei fs inodefile createdDinode.encode (Xk.inodeOff fs.nextInum) 64 =
      .ok (dinodeSize, fs.putRecord fs.nextInum createdDinode, inodefile) :=
    writei_record (show inodefile.type ≠ tDev from ready.notDevice) rfl ready.onDisk rfl
      (ready.inodeOff (inside.trans (min_le_left _ _))) inside createdDinode
  have sameInodefile : ({ inodefile with locked := false } : Inode) = fs.inodefile := by
    rw [← ready.unlocked]
  rw [Xk.writeCreated, if_neg (by simp [ready.unlocked]), written, ok_bind]
  dsimp only
  rw [sameInodefile]
  rfl

/-- The entry of the cache for an inode, when there is only one. -/
theorem find_caches {dev : UInt32} (isCached : fs.caches dev inum ip = true)
    (only : ∀ other, fs.caches dev inum other = true → other = ip) :
    (List.finRange ninode).find? (fs.caches dev inum) = some ip := by
  grind [Option.isSome_iff_exists, List.find?_isSome]

/-- `update_dinode` of an inode that has grown in memory. -/
theorem FileSystem.TableReady.updateDinode (ready : fs.TableReady)
    (isFound : (List.finRange ninode).find? (fs.caches rootdev inodefileino) = some inodefile)
    (notDevice : (fs.inode inodefile).type ≠ tDev)
    (first : (fs.inode inodefile).data.head = fs.table)
    (locked : (fs.inode inodefile).locked = true) (hasRecord : fs.HasRecord (fs.inode ip).inum)
    (room : (fs.inode ip).inum.toNat * dinodeSize + dinodeSize ≤
      (getCapacity (fs.inode inodefile)).toNat)
    (grown : (fs.inode ip).size ≠ (fs.record (fs.inode ip).inum).size) :
    updateDinode fs ip = .ok ((fs.putRecord (fs.inode ip).inum
      { fs.record (fs.inode ip).inum with
        size := (fs.inode ip).size, data := (fs.inode ip).data }).setInode inodefile
          { fs.inode inodefile with ref := (fs.inode inodefile).ref + 1 }) := by
  let counted : Inode := { fs.inode inodefile with ref := (fs.inode inodefile).ref + 1 }
  let taken : FileSystem := fs.setInode inodefile counted
  have got : iget fs rootdev inodefileino = .ok (inodefile, taken) := by
    rw [iget, isFound]
  have sameInum : (taken.inode ip).inum = (fs.inode ip).inum := setInode_inum fs (by rfl) ip
  have sameSize : (taken.inode ip).size = (fs.inode ip).size := by
    grind [FileSystem.setInode_self, FileSystem.setInode_of_ne]
  have sameData : (taken.inode ip).data = (fs.inode ip).data := by
    grind [FileSystem.setInode_self, FileSystem.setInode_of_ne]
  have isInode : taken.inode inodefile = counted := fs.setInode_self _ _
  have takenReady : taken.TableReady :=
    ⟨ready.notDevice, ready.onDisk, ready.referenced, ready.unlocked⟩
  have isRead : Xk.readDinode taken (fs.inode ip).inum = .ok (fs.record (fs.inode ip).inum) :=
    takenReady.readDinode hasRecord
  have capacity : getCapacity counted = getCapacity (fs.inode inodefile) := by
    rw [getCapacity, getCapacity]
  have inside : (fs.inode ip).inum.toNat * dinodeSize + dinodeSize ≤
      min taken.table.bytes (getCapacity counted).toNat := by
    rw [capacity]
    exact le_min hasRecord.2 room
  have isWritten : ∀ din : Dinode,
      writei taken counted din.encode ((fs.inode ip).inum * 64) 64 =
        .ok (dinodeSize, taken.putRecord (fs.inode ip).inum din, counted) :=
    writei_record (show counted.type ≠ tDev from notDevice) (show _ = taken.table from first)
      takenReady.onDisk locked (ready.inodeOff hasRecord.2) inside
  rw [Xk.updateDinode, got, ok_bind]
  dsimp only
  rw [sameInum, isRead, ok_bind, sameSize, if_pos grown, sameData, isInode]
  rw [isWritten, ok_bind]
  exact congrArg Except.ok (FileSystem.setInode_setInode (fs.putRecord _ _) inodefile
    counted counted)

/-- The loop of `createi` over a directory reads all of its entries and ends with the last one. -/
theorem listLoop_eq {dp : Fin ninode} (referenced : 1 ≤ (fs.inode dp).ref)
    (isValid : (fs.inode dp).valid = true) (unlocked : (fs.inode dp).locked = false)
    (notDevice : (fs.inode dp).type ≠ tDev) (onDisk : (fs.inode dp).data.head.OnDisk fs.disk)
    {count : Nat} (isSize : (fs.inode dp).size.toNat = (count + 1) * direntSize)
    (fits : (count + 1) * direntSize ≤ (fs.inode dp).data.head.bytes) {turns : Nat} {off : UInt32}
    {index : Nat} (isOff : off.toNat = index * direntSize) (begun : index ≤ count + 1)
    (enough : count + 1 - index < turns) (isLast : index = count + 1 →
      dirent = Dirent.decode (Bytes.load fs.disk.bytes
        ((fs.inode dp).data.head.address + count * direntSize) direntSize)) :
    listLoop dp turns fs off dirent = .ok (Dirent.decode (Bytes.load fs.disk.bytes
      ((fs.inode dp).data.head.address + count * direntSize) direntSize), fs) := by
  induction turns generalizing off index dirent with
  | zero => exact absurd enough (Nat.not_lt_zero _)
  | succ turns inductionHypothesis =>
    have bytes := onDisk.bytes_lt
    rw [listLoop]
    by_cases more : index = count + 1
    · rw [if_neg (by rw [UInt32.lt_iff_toNat_lt, isOff, isSize, more]; omega), isLast more]
    · have inside : index * direntSize + direntSize ≤ (count + 1) * direntSize := by grind
      have isRead : concurrentReadi fs dp off 16 = .ok ((direntSize, Bytes.load fs.disk.bytes
          ((fs.inode dp).data.head.address + index * direntSize) direntSize), fs) := by
        grind [concurrentReadi_valid]
      have nextOff : (off + 16).toNat = (index + 1) * direntSize := by grind [toNat_add_of_lt]
      have unit : 0 < direntSize := by decide
      rw [if_pos (by rw [UInt32.lt_iff_toNat_lt, isOff, isSize]; omega), isRead, ok_bind]
      dsimp only
      rw [if_neg (by decide)]
      refine inductionHypothesis nextOff (by omega) (by omega) fun isNext => ?_
      rw [show index = count by omega]

end Parts

/-! ### File systems that a creation keeps -/

/-- The inode cache agrees with the disk, the inode file is where `icache.inodefile` says, apart from
the root directory, and the record that the next creation writes is not that of another file. -/
structure FileSystem.Steady (fs : FileSystem) : Prop extends fs.Coherent where
  isFile : (fs.record inodefileino).type = tFile
  sameTable : (fs.record inodefileino).data.head = fs.table
  capacity : fs.table.bytes ≤ (getCapacity (Inode.zero.copy (fs.record inodefileino))).toNat
  twoRecords : 2 * dinodeSize ≤ fs.inodefile.size.toNat
  apart : fs.root.data.head.address + fs.root.data.head.bytes ≤ fs.table.address ∨
    fs.table.address + fs.table.bytes ≤ fs.root.data.head.address
  next : fs.record fs.nextInum = createdDinode ∨
    ∀ de ∈ fs.entries, de.inum ≠ 0 → de.inum.toUInt32 ≠ fs.nextInum

/-- There is room for one more record in the first extent of the inode file, for one more entry in
that of the root directory, and the number of the inode fits an entry. -/
structure FileSystem.Room (fs : FileSystem) : Prop where
  number : fs.nextInum.toNat < 2 ^ 16
  record : fs.nextInum.toNat * dinodeSize + dinodeSize ≤
    min fs.table.bytes (getCapacity fs.inodefile).toNat
  entry : fs.root.size.toNat + direntSize ≤
    min fs.root.data.head.bytes (getCapacity (Inode.zero.copy fs.root)).toNat

section Steady

variable {fs after : FileSystem} {inum : UInt32}

theorem FileSystem.Steady.nextInum_toNat (steady : fs.Steady) : 2 ≤ fs.nextInum.toNat := by
  grind [FileSystem.Steady, FileSystem.nextInum, UInt32.toNat_div]

theorem FileSystem.Steady.nextInum_ne (steady : fs.Steady) :
    fs.nextInum ≠ inodefileino ∧ fs.nextInum ≠ rootino := by
  have number := steady.nextInum_toNat
  constructor
  all_goals
    intro same
    rw [same] at number
    exact absurd number (by decide)

/-- A lookup keeps the file system steady. -/
theorem FileSystem.Steady.of_sameStore (steady : fs.Steady) (coherent : after.Coherent)
    (same : fs.SameStore after) : after.Steady := by
  have sameRecord := same.record
  have sameRoot : after.root = fs.root := sameRecord rootino
  have sameTable : after.table = fs.table := by
    rw [FileSystem.table, FileSystem.table, same.inodefile]
  have sameNext : after.nextInum = fs.nextInum := by
    rw [FileSystem.nextInum, FileSystem.nextInum, same.inodefile]
  exact { coherent with
    isFile := by
      rw [sameRecord]
      exact steady.isFile
    sameTable := by grind [FileSystem.Steady]
    capacity := by
      rw [sameRecord, sameTable]
      exact steady.capacity
    twoRecords := by
      rw [same.inodefile]
      exact steady.twoRecords
    apart := by
      rw [sameRoot, sameTable]
      exact steady.apart
    next := by
      rw [sameNext, sameRecord, same.entries]
      exact steady.next }

/-- Writing a record does not touch the entries of the root directory. -/
theorem FileSystem.Steady.entry_putRecord (steady : fs.Steady) (din : Dinode)
    (inTable : inum.toNat * dinodeSize + dinodeSize ≤ fs.table.bytes) {index : Nat}
    (inside : index * direntSize + direntSize ≤ fs.root.data.head.bytes) :
    Bytes.load (fs.putRecord inum din).disk.bytes
        (fs.root.data.head.address + index * direntSize) direntSize =
      Bytes.load fs.disk.bytes (fs.root.data.head.address + index * direntSize) direntSize := by
  refine fs.load_putRecord inTable ?_
  have apart := steady.apart
  omega

theorem FileSystem.Known.congr (known : after.Known inum) (same : after.entries = fs.entries) :
    fs.Known inum := by
  rwa [FileSystem.Known, same] at known

/-- The record of the new inode is written: the root directory is as before. -/
theorem FileSystem.Steady.putCreated (steady : fs.Steady)
    (inTable : fs.nextInum.toNat * dinodeSize + dinodeSize ≤ fs.table.bytes) :
    (fs.putRecord fs.nextInum createdDinode).Steady ∧
      (fs.putRecord fs.nextInum createdDinode).root = fs.root ∧
      (fs.putRecord fs.nextInum createdDinode).entries = fs.entries := by
  set made := fs.putRecord fs.nextInum createdDinode with isMade
  obtain ⟨notInodefile, notRoot⟩ := steady.nextInum_ne
  have isCreated : made.record fs.nextInum = createdDinode := fs.record_putRecord_self _ _
  have others : ∀ inum, inum ≠ fs.nextInum → made.record inum = fs.record inum :=
    fun inum different => fs.record_putRecord_of_ne _ different
  have sameRoot : made.root = fs.root := others rootino notRoot.symm
  have sameInodefile : made.record inodefileino = fs.record inodefileino :=
    others inodefileino notInodefile.symm
  have sameEntries : made.entries = fs.entries := by
    rw [FileSystem.entries, FileSystem.entries, sameRoot]
    refine List.map_congr_left fun index member => ?_
    have below : (index + 1) * direntSize ≤ fs.root.size.toNat :=
      (Nat.le_div_iff_mul_le (by decide)).mp (List.mem_range.mp member)
    rw [FileSystem.entry, FileSystem.entry, sameRoot, isMade]
    exact congrArg Dirent.decode (steady.entry_putRecord _ inTable
      (by rw [← Nat.succ_mul]; exact below.trans steady.root.fits))
  -- a known inode with the number of the next one is a file that was created before
  have createdBefore : fs.Known fs.nextInum → fs.record fs.nextInum = createdDinode := by
    rintro (isInodefile | isRoot | ⟨de, member, live, isNext⟩)
    · exact absurd isInodefile notInodefile
    · exact absurd isRoot notRoot
    · exact steady.next.resolve_right fun unused => unused de member live isNext
  have sameRecord : ∀ inum, fs.Known inum → made.record inum = fs.record inum := by grind
  refine ⟨?_, sameRoot, sameEntries⟩
  exact {
    table := ⟨steady.table.notDevice, steady.table.onDisk, steady.table.referenced,
      steady.table.unlocked⟩
    root := {
      isDir := by
        rw [sameRoot]
        exact steady.root.isDir
      onDisk := by
        rw [sameRoot]
        exact steady.root.onDisk
      whole := by
        rw [sameRoot]
        exact steady.root.whole
      fits := by
        rw [sameRoot]
        exact steady.root.fits
      hasRecord := fun inum known => steady.root.hasRecord inum (known.congr sameEntries)
      onlyRoot := by
        intro inum known isDir
        rw [sameRecord inum (known.congr sameEntries)] at isDir
        exact steady.root.onlyRoot inum (known.congr sameEntries) isDir }
    cached := by
      intro ip referenced
      obtain ⟨isDev, ⟨_, hasRecord, copyOf⟩, known⟩ := steady.cached ip referenced
      refine ⟨isDev, ⟨referenced, hasRecord, ?_⟩, known.congr sameEntries.symm⟩
      show (fs.inode ip).CopyOf (made.record (fs.inode ip).inum)
      rw [sameRecord _ known]
      exact copyOf
    unique := steady.unique
    isFile := by
      rw [sameInodefile]
      exact steady.isFile
    sameTable := by
      rw [sameInodefile]
      exact steady.sameTable
    capacity := by
      rw [sameInodefile]
      exact steady.capacity
    twoRecords := steady.twoRecords
    apart := by
      rw [sameRoot]
      exact steady.apart
    next := Or.inl isCreated }

end Steady

/-! ### The new entry -/

/-- The part of `createi` from the write of the new entry to the last `update_dinode`. -/
def recordEntry (fs : FileSystem) (inodefile rootino : Fin ninode) (dirent : Dirent) :
    Except Halt (Dirent × FileSystem) := do
  let (_, entered) ← concurrentWritei fs rootino dirent.encode (fs.inode rootino).size 16
  let grown := (entered.grow inodefile 64).grow rootino 16
  let (last, listed) ← listLoop rootino ((grown.inode rootino).size.toNat + 1) grown 0 dirent
  let updated ← updateDinode listed inodefile
  let updated ← updateDinode updated rootino
  return (last, updated)

theorem createi_eq (fs : FileSystem) (inodefile : Fin ninode) (path : List UInt8) :
    createi fs inodefile path = (do
      let written ← writeCreated fs
      let (parent, looked) ← nameiparent written path
      match parent with
      | none => .error .undefined
      | some (rootino, name) => do
        let (last, updated) ← recordEntry looked inodefile rootino
          ⟨fs.nextInum.toUInt16, strncpy name dirsiz⟩
        iget updated rootdev last.inum.toUInt32) := by
  simp only [createi, recordEntry, bind_assoc, pure_bind] <;> rfl

/-- The new entry behind the other entries on the disk. -/
def FileSystem.putEntry (fs : FileSystem) (dirent : Dirent) : FileSystem :=
  { fs with
    disk := fs.disk.store (fs.root.data.head.address + fs.root.size.toNat) dirent.encode }

/-- The new entry is read back. -/
theorem FileSystem.load_putEntry (fs : FileSystem) (dirent : Dirent) :
    Bytes.load (fs.putEntry dirent).disk.bytes (fs.root.data.head.address + fs.root.size.toNat)
      direntSize = dirent.encode := by
  have stored := Bytes.load_write fs.disk.bytes (fs.root.data.head.address + fs.root.size.toNat)
    dirent.encode
  rwa [dirent.encode_length] at stored

/-- What `createi` has when it writes the new entry: the root directory, which is not locked, and the
entry of the inode file in the cache, which is. -/
structure FileSystem.Creating (fs : FileSystem) (inodefile dp : Fin ninode) : Prop
    extends fs.Steady where
  room : fs.root.size.toNat + direntSize ≤
    min fs.root.data.head.bytes (getCapacity (Inode.zero.copy fs.root)).toNat
  rootRef : 1 ≤ (fs.inode dp).ref
  isRoot : (fs.inode dp).inum = rootino
  isValid : (fs.inode dp).valid = true
  rootFree : (fs.inode dp).locked = false
  inodefileRef : 1 ≤ (fs.inode inodefile).ref
  isInodefile : (fs.inode inodefile).inum = inodefileino
  locked : (fs.inode inodefile).locked = true

namespace FileSystem.Creating

variable {fs : FileSystem} {inodefile dp : Fin ninode} (creating : fs.Creating inodefile dp)

include creating

theorem different : inodefile ≠ dp := by grind [FileSystem.Creating]

theorem rootCopy : (fs.inode dp).CopyOf fs.root := by
  have copyOf := (creating.cached dp creating.rootRef).2.1.copyOf
  rwa [creating.isRoot] at copyOf

theorem inodefileCopy : (fs.inode inodefile).CopyOf (fs.record inodefileino) := by
  have copyOf := (creating.cached inodefile creating.inodefileRef).2.1.copyOf
  rwa [creating.isInodefile] at copyOf

theorem rootType : (fs.inode dp).type = tDir :=
  creating.rootCopy.1.trans creating.toSteady.root.isDir

/-- The entry is written behind the others. -/
theorem enter (dirent : Dirent) :
    concurrentWritei fs dp dirent.encode (fs.inode dp).size 16 =
      .ok (direntSize, fs.putEntry dirent) := by
  obtain ⟨_, _, isSize, isData⟩ := creating.rootCopy
  have capacity : getCapacity (fs.inode dp) = getCapacity (Inode.zero.copy fs.root) := by
    rw [getCapacity, getCapacity, isData]
    rfl
  have fits : (fs.inode dp).size.toNat + (16 : UInt32).toNat ≤
      min (fs.inode dp).data.head.bytes (getCapacity (fs.inode dp)).toNat := by
    rw [isSize, isData, capacity]
    exact creating.room
  have long : (16 : UInt32).toNat ≤ dirent.encode.length := by simp
  have whole : dirent.encode.take (16 : UInt32).toNat = dirent.encode :=
    List.take_of_length_le (show dirent.encode.length ≤ direntSize by rw [dirent.encode_length])
  have sameRoot : ({ fs.inode dp with valid := true } : Inode) = fs.inode dp := by
    rw [← creating.isValid]
  rw [creating.table.concurrentWritei (creating.cached dp creating.rootRef).2.1
    (by rw [creating.rootType]; decide) (by rw [creating.rootType]; decide)
    (by rw [isData]; exact creating.toSteady.root.onDisk) creating.rootFree fits long, whole,
    sameRoot, isSize, isData]
  refine congrArg (fun entered => Except.ok ((direntSize : Int), entered)) ?_
  exact (fs.putEntry dirent).setInode_inode dp

/-- The new entry is not in the inode file. -/
theorem record_putEntry (dirent : Dirent)
    (inTable : inum.toNat * dinodeSize + dinodeSize ≤ fs.table.bytes) :
    (fs.putEntry dirent).record inum = fs.record inum := by
  refine FileSystem.record_store ?_
  have apart := creating.apart
  have room := creating.room.trans (min_le_left _ _)
  rw [dirent.encode_length, FileSystem.recordAddress]
  omega

/-- `iget` finds the one entry of the inode file in the cache. -/
theorem find_inodefile
    (others : ∀ other, other ≠ inodefile → (after.inode other).ref = (fs.inode other).ref ∧
      (after.inode other).inum = (fs.inode other).inum)
    (referenced : 1 ≤ (after.inode inodefile).ref)
    (sameDev : (after.inode inodefile).dev = (fs.inode inodefile).dev)
    (sameInum : (after.inode inodefile).inum = (fs.inode inodefile).inum) :
    (List.finRange ninode).find? (after.caches rootdev inodefileino) = some inodefile := by
  have isDev := (creating.cached inodefile creating.inodefileRef).1
  refine find_caches (decide_eq_true ⟨referenced, sameDev.trans isDev,
    sameInum.trans creating.isInodefile⟩) fun other isCached => ?_
  by_contra differs
  simp only [FileSystem.caches, decide_eq_true_eq] at isCached
  obtain ⟨sameRef, isOther⟩ := others other differs
  rw [sameRef, isOther, ← creating.isInodefile] at isCached
  exact differs (creating.unique other inodefile isCached.1 creating.inodefileRef isCached.2.2)

theorem hasRecord (known : fs.Known inum) : fs.HasRecord inum :=
  creating.toSteady.root.hasRecord inum known

/-- The capacity of the inode file in the cache. -/
theorem capacity_inodefile {inode : Inode} (isData : inode.data = (fs.inode inodefile).data) :
    fs.table.bytes ≤ (getCapacity inode).toNat := by
  have capacity := creating.capacity
  rw [getCapacity, isData, creating.inodefileCopy.2.2.2]
  exact capacity

end FileSystem.Creating

/-- The file system when the new entry is written and the sizes have changed in memory. -/
structure FileSystem.Grown (fs : FileSystem) (inodefile dp : Fin ninode) (dirent : Dirent)
    (grown : FileSystem) : Prop where
  sameDisk : grown.disk = (fs.putEntry dirent).disk
  sameInodefile : grown.inodefile = fs.inodefile
  isInodefile : grown.inode inodefile =
    { fs.inode inodefile with size := (fs.inode inodefile).size + 64 }
  isRoot : grown.inode dp = { fs.inode dp with size := (fs.inode dp).size + 16 }
  others : ∀ other, other ≠ inodefile → other ≠ dp → grown.inode other = fs.inode other

namespace FileSystem.Creating

variable {fs : FileSystem} {inodefile dp : Fin ninode} (creating : fs.Creating inodefile dp)

include creating

theorem grow (dirent : Dirent) :
    fs.Grown inodefile dp dirent (((fs.putEntry dirent).grow inodefile 64).grow dp 16) := by
  have isRoot : ((fs.putEntry dirent).grow inodefile 64).inode dp = fs.inode dp :=
    FileSystem.setInode_of_ne _ _ creating.different.symm
  refine ⟨rfl, rfl, ?_, ?_, fun other notInodefile notRoot => ?_⟩
  · rw [FileSystem.grow, FileSystem.setInode_of_ne _ _ creating.different, FileSystem.grow,
      FileSystem.setInode_self]
    rfl
  · rw [FileSystem.grow, FileSystem.setInode_self, isRoot]
  · rw [FileSystem.grow, FileSystem.setInode_of_ne _ _ notRoot, FileSystem.grow,
      FileSystem.setInode_of_ne _ _ notInodefile]
    rfl

variable {dirent : Dirent} {grown : FileSystem} (isGrown : fs.Grown inodefile dp dirent grown)

include isGrown

/-- The loop over the entries ends with the new one. -/
theorem list : listLoop dp ((grown.inode dp).size.toNat + 1) grown 0 dirent =
    .ok (dirent, grown) := by
  obtain ⟨_, _, isSize, isData⟩ := creating.rootCopy
  have bytes := creating.toSteady.root.onDisk.bytes_lt
  have room := creating.room.trans (min_le_left _ _)
  obtain ⟨count, isCount⟩ := creating.toSteady.root.whole
  have grownSize : ((fs.inode dp).size + 16).toNat = (count + 1) * direntSize := by
    grind [toNat_add_of_lt]
  have last : Dirent.decode (Bytes.load grown.disk.bytes
      ((fs.inode dp).data.head.address + count * direntSize) direntSize) = dirent := by
    rw [isGrown.sameDisk, isData, Nat.mul_comm, ← isCount, fs.load_putEntry, dirent.decode_encode]
  have listed : listLoop dp ((grown.inode dp).size.toNat + 1) grown 0 dirent =
      .ok (Dirent.decode (Bytes.load grown.disk.bytes
        ((grown.inode dp).data.head.address + count * direntSize) direntSize), grown) := by
    refine listLoop_eq ?_ ?_ ?_ ?_ ?_ ?_ ?_ (show (0 : UInt32).toNat = 0 * direntSize from rfl)
      (Nat.zero_le _) ?_ nofun
    all_goals rw [isGrown.isRoot]
    · exact creating.rootRef
    · exact creating.isValid
    · exact creating.rootFree
    · exact creating.rootType ▸ by decide
    · rw [isData, Extent.OnDisk, isGrown.sameDisk]
      exact creating.toSteady.root.onDisk
    · exact grownSize
    · grind
    · grind
  rw [listed, isGrown.isRoot, last]

theorem grown_record (inTable : inum.toNat * dinodeSize + dinodeSize ≤ fs.table.bytes) :
    grown.record inum = fs.record inum := by
  rw [← creating.record_putEntry dirent inTable, FileSystem.record,
    FileSystem.record, FileSystem.recordAddress, FileSystem.recordAddress, FileSystem.table,
    FileSystem.table, isGrown.sameDisk, isGrown.sameInodefile]
  rfl

theorem grown_ready : grown.TableReady :=
  creating.table.congr isGrown.sameInodefile (by rw [isGrown.sameDisk]; rfl)

omit creating in
theorem grown_table : grown.table = fs.table := by
  rw [FileSystem.table, isGrown.sameInodefile]
  rfl

omit creating in
theorem grown_others {other : Fin ninode} (differs : other ≠ inodefile) :
    (grown.inode other).ref = (fs.inode other).ref ∧
      (grown.inode other).inum = (fs.inode other).inum := by
  grind [FileSystem.Grown]

/-- The record of the inode file gets its new size. -/
theorem updateInodefile :
    updateDinode grown inodefile =
      .ok ((grown.putRecord inodefileino { fs.record inodefileino with
        size := (fs.record inodefileino).size + 64 }).setInode inodefile { fs.inode inodefile with
          size := (fs.inode inodefile).size + 64, ref := (fs.inode inodefile).ref + 1 }) := by
  obtain ⟨isType, _, isSize, isData⟩ := creating.inodefileCopy
  have isInode := isGrown.isInodefile
  have hasRecord := creating.hasRecord fs.known_inodefile
  have sameRecord := creating.grown_record isGrown hasRecord.2
  have isFound : (List.finRange ninode).find? (grown.caches rootdev inodefileino) =
      some inodefile := by
    grind [find_inodefile, grown_others, FileSystem.Creating]
  rw [(creating.grown_ready isGrown).updateDinode isFound]
  · grind [FileSystem.Creating]
  all_goals rw [isInode]
  · exact isType ▸ creating.isFile ▸ by decide
  · rw [isData, creating.sameTable, grown_table isGrown]
  · exact creating.locked
  · dsimp only
    rw [creating.isInodefile]
    exact hasRecord.congr isGrown.sameInodefile
  · dsimp only
    rw [creating.isInodefile]
    exact hasRecord.2.trans (creating.capacity_inodefile rfl)
  · grind [FileSystem.Creating]

/-- The record of the root directory gets its new size. -/
theorem updateRoot {updated : FileSystem}
    (isUpdated : (grown.putRecord inodefileino { fs.record inodefileino with
        size := (fs.record inodefileino).size + 64 }).setInode inodefile { fs.inode inodefile with
          size := (fs.inode inodefile).size + 64, ref := (fs.inode inodefile).ref + 1 } = updated) :
    updateDinode updated dp =
      .ok ((updated.putRecord rootino { fs.root with size := fs.root.size + 16 }).setInode inodefile
        { fs.inode inodefile with
          size := (fs.inode inodefile).size + 64, ref := (fs.inode inodefile).ref + 1 + 1 }) := by
  obtain ⟨isType, _, _, isData⟩ := creating.inodefileCopy
  obtain ⟨_, _, rootSize, rootData⟩ := creating.rootCopy
  have hasRecord := creating.hasRecord fs.known_root
  have isInode : updated.inode inodefile = { fs.inode inodefile with
      size := (fs.inode inodefile).size + 64, ref := (fs.inode inodefile).ref + 1 } := by
    rw [← isUpdated, FileSystem.setInode_self]
  have others : ∀ other, other ≠ inodefile → updated.inode other = grown.inode other := by
    grind [FileSystem.setInode_of_ne, FileSystem.inode_putRecord]
  have isRoot := (others dp creating.different.symm).trans isGrown.isRoot
  have sameRecord : updated.record rootino = fs.root := by
    have notSame : rootino ≠ inodefileino := by decide
    rw [← isUpdated, FileSystem.record_setInode, FileSystem.record_putRecord_of_ne _ _ notSame,
      creating.grown_record isGrown hasRecord.2, FileSystem.root]
  have sameInodefile : updated.inodefile = grown.inodefile := by
    rw [← isUpdated]
    rfl
  have ready : updated.TableReady := by
    refine (creating.grown_ready isGrown).congr sameInodefile ?_
    rw [← isUpdated]
    rfl
  have isFound : (List.finRange ninode).find? (updated.caches rootdev inodefileino) =
      some inodefile := by
    refine creating.find_inodefile (fun other differs => ?_) ?_ ?_ ?_
    · grind [grown_others]
    all_goals rw [isInode]
    have referenced := creating.inodefileRef
    dsimp only
    omega
  rw [ready.updateDinode isFound]
  · grind [FileSystem.Creating]
  · rw [isInode]
    exact isType ▸ creating.isFile ▸ by decide
  · rw [isInode, isData, creating.sameTable, ← grown_table isGrown, FileSystem.table,
      FileSystem.table, sameInodefile]
  · rw [isInode]
    exact creating.locked
  · grind [FileSystem.Creating, FileSystem.HasRecord.congr, FileSystem.Grown]
  · rw [isInode, isRoot]
    dsimp only
    rw [creating.isRoot]
    exact hasRecord.2.trans (creating.capacity_inodefile rfl)
  · grind [FileSystem.Creating]

end FileSystem.Creating

/-- The file system when the entry of a new inode is recorded: it is behind the other entries, and the
inode file and the root directory have grown, in memory and on the disk. -/
structure FileSystem.Entered (fs : FileSystem) (inodefile dp : Fin ninode) (dirent : Dirent)
    (after : FileSystem) : Prop where
  sameInodefile : after.inodefile = fs.inodefile
  sameSize : after.disk.disksize = fs.disk.disksize
  isInodefile : after.inode inodefile = { fs.inode inodefile with
    size := (fs.inode inodefile).size + 64, ref := (fs.inode inodefile).ref + 1 + 1 }
  isRoot : after.inode dp = { fs.inode dp with size := (fs.inode dp).size + 16 }
  others : ∀ other, other ≠ inodefile → other ≠ dp → after.inode other = fs.inode other
  inodefileRecord : after.record inodefileino =
    { fs.record inodefileino with size := (fs.record inodefileino).size + 64 }
  rootRecord : after.root = { fs.root with size := fs.root.size + 16 }
  records : ∀ inum, inum ≠ inodefileino → inum ≠ rootino →
    inum.toNat * dinodeSize + dinodeSize ≤ fs.table.bytes → after.record inum = fs.record inum
  entries : after.entries = fs.entries ++ [dirent]

theorem FileSystem.Entered.locks {fs : FileSystem} {dp : Fin ninode}
    (entered : fs.Entered inodefile dp dirent after) :
    after.locks = fs.locks := by
  funext slot
  show (after.inode slot).locked = (fs.inode slot).locked
  by_cases isInodefile : slot = inodefile
  · rw [isInodefile, entered.isInodefile]
  · grind [FileSystem.Entered]

namespace FileSystem.Creating

variable {fs : FileSystem} {inodefile dp : Fin ninode} (creating : fs.Creating inodefile dp)

include creating

/-- The entries of the root directory are those that it had and the new one. -/
theorem entries_after (isRoot : after.root = { fs.root with size := fs.root.size + 16 })
    (loaded : ∀ index, (index + 1) * direntSize ≤ fs.root.size.toNat + direntSize →
      Bytes.load after.disk.bytes (fs.root.data.head.address + index * direntSize) direntSize =
        Bytes.load (fs.putEntry dirent).disk.bytes
          (fs.root.data.head.address + index * direntSize) direntSize) :
    after.entries = fs.entries ++ [dirent] := by
  have bytes := creating.toSteady.root.onDisk.bytes_lt
  have room := creating.room.trans (min_le_left _ _)
  obtain ⟨count, isCount⟩ := creating.toSteady.root.whole
  have unit : direntSize = 16 := rfl
  have grownSize : (fs.root.size + 16).toNat = direntSize * (count + 1) := by
    grind [toNat_add_of_lt]
  rw [FileSystem.entries, FileSystem.entries, isRoot]
  dsimp only
  rw [grownSize, isCount, Nat.mul_div_cancel_left _ (by decide),
    Nat.mul_div_cancel_left _ (by decide), List.range_succ, List.map_append, List.map_singleton]
  congr 1
  · refine List.map_congr_left fun index member => ?_
    have below := List.mem_range.mp member
    rw [FileSystem.entry, FileSystem.entry, isRoot]
    dsimp only
    rw [loaded index (by rw [isCount, unit]; omega)]
    refine congrArg Dirent.decode (Bytes.load_write_of_apart _ (Or.inl ?_))
    rw [isCount, unit]
    omega
  · grind [FileSystem.entry, FileSystem.load_putEntry, Dirent.decode_encode]

theorem entered {grown updated : FileSystem} (isGrown : fs.Grown inodefile dp dirent grown)
    (isUpdated : (grown.putRecord inodefileino { fs.record inodefileino with
        size := (fs.record inodefileino).size + 64 }).setInode inodefile { fs.inode inodefile with
          size := (fs.inode inodefile).size + 64, ref := (fs.inode inodefile).ref + 1 } = updated)
    (isAfter : (updated.putRecord rootino { fs.root with
        size := fs.root.size + 16 }).setInode inodefile { fs.inode inodefile with
          size := (fs.inode inodefile).size + 64,
          ref := (fs.inode inodefile).ref + 1 + 1 } = after) :
    fs.Entered inodefile dp dirent after := by
  have inodefileFits := (creating.hasRecord fs.known_inodefile).2
  have rootFits := (creating.hasRecord fs.known_root).2
  have sameTable : updated.table = fs.table := by
    rw [← isUpdated, FileSystem.table_setInode, FileSystem.table_putRecord, grown_table isGrown]
  have others : ∀ other, other ≠ inodefile → after.inode other = grown.inode other := by
    intro other differs
    rw [← isAfter, FileSystem.setInode_of_ne _ _ differs, FileSystem.inode_putRecord, ← isUpdated,
      FileSystem.setInode_of_ne _ _ differs, FileSystem.inode_putRecord]
  have isRootRecord : after.root = { fs.root with size := fs.root.size + 16 } := by
    rw [← isAfter, FileSystem.root, FileSystem.record_setInode, FileSystem.record_putRecord_self]
  have records : ∀ inum, inum ≠ rootino → after.record inum = updated.record inum := by
    grind [FileSystem.record_setInode, FileSystem.record_putRecord_of_ne]
  refine {
    sameInodefile := by
      rw [← isAfter, ← isUpdated]
      exact isGrown.sameInodefile
    sameSize := by
      rw [← isAfter, ← isUpdated]
      show grown.disk.disksize = _
      rw [isGrown.sameDisk]
      rfl
    isInodefile := by rw [← isAfter, FileSystem.setInode_self]
    isRoot := (others dp creating.different.symm).trans isGrown.isRoot
    others := fun other notInodefile notRoot =>
      (others other notInodefile).trans (isGrown.others other notInodefile notRoot)
    inodefileRecord := by grind [FileSystem.record_setInode, FileSystem.record_putRecord_self]
    rootRecord := isRootRecord
    records := ?_
    entries := creating.entries_after isRootRecord fun index below => ?_ }
  · grind [FileSystem.record_setInode, FileSystem.record_putRecord_of_ne, grown_record]
  · have apart := creating.apart
    have room := creating.room.trans (min_le_left _ _)
    have away : fs.root.data.head.address + index * direntSize + direntSize ≤ fs.table.address ∨
        fs.table.address + fs.table.bytes ≤ fs.root.data.head.address + index * direntSize := by
      grind
    rw [← isAfter]
    refine (FileSystem.load_putRecord updated (sameTable ▸ rootFits) (sameTable ▸ away)).trans ?_
    rw [← isUpdated]
    refine (FileSystem.load_putRecord grown ?_ ?_).trans ?_
    · grind [grown_table]
    · rw [grown_table isGrown]
      exact away
    · rw [isGrown.sameDisk]

/-- `createi` adds the entry and the sizes in memory and on the disk. -/
theorem recordEntry (dirent : Dirent) :
    ∃ after, recordEntry fs inodefile dp dirent = .ok (dirent, after) ∧
      fs.Entered inodefile dp dirent after := by
  obtain ⟨grown, isGrow, isGrown⟩ : ∃ grown,
      ((fs.putEntry dirent).grow inodefile 64).grow dp 16 = grown ∧
      fs.Grown inodefile dp dirent grown := ⟨_, rfl, creating.grow dirent⟩
  obtain ⟨updated, isUpdate, isUpdated⟩ : ∃ updated, updateDinode grown inodefile = .ok updated ∧
      (grown.putRecord inodefileino { fs.record inodefileino with
        size := (fs.record inodefileino).size + 64 }).setInode inodefile { fs.inode inodefile with
          size := (fs.inode inodefile).size + 64, ref := (fs.inode inodefile).ref + 1 } = updated :=
    ⟨_, creating.updateInodefile isGrown, rfl⟩
  obtain ⟨after, isLast, isAfter⟩ : ∃ after, updateDinode updated dp = .ok after ∧
      (updated.putRecord rootino { fs.root with
        size := fs.root.size + 16 }).setInode inodefile { fs.inode inodefile with
          size := (fs.inode inodefile).size + 64,
          ref := (fs.inode inodefile).ref + 1 + 1 } = after :=
    ⟨_, creating.updateRoot isGrown isUpdated, rfl⟩
  refine ⟨after, ?_, creating.entered isGrown isUpdated isAfter⟩
  simp only [Xk.recordEntry, creating.enter dirent, ok_bind, isGrow, creating.list isGrown,
    isUpdate, isLast]
  rfl

/-! ### The file system stays steady -/

section After

variable {dirent : Dirent} {after : FileSystem} (entered : fs.Entered inodefile dp dirent after)

include entered

omit creating in
/-- The inode of the new entry is the only one that becomes known. -/
theorem known_after (isNext : dirent.inum.toUInt32 = fs.nextInum) (known : after.Known inum) :
    fs.Known inum ∨ inum = fs.nextInum := by
  rcases known with isInodefile | isRoot | ⟨de, member, live, isInum⟩
  · exact Or.inl (Or.inl isInodefile)
  · exact Or.inl (Or.inr (Or.inl isRoot))
  · rw [entered.entries, List.mem_append, List.mem_singleton] at member
    rcases member with old | rfl
    · exact Or.inl (Or.inr (Or.inr ⟨de, old, live, isInum⟩))
    · exact Or.inr (isInum.symm.trans isNext)

/-- The entries of the cache are for the same inodes as before. -/
theorem inode_after (ip : Fin ninode) : (after.inode ip).dev = (fs.inode ip).dev ∧
    (after.inode ip).inum = (fs.inode ip).inum ∧
    (1 ≤ (after.inode ip).ref → 1 ≤ (fs.inode ip).ref) := by
  grind [FileSystem.Entered, FileSystem.Creating]

/-- The entries of the cache are copies of the records. -/
theorem copyOf_after (referenced : 1 ≤ (fs.inode ip).ref) :
    (after.inode ip).CopyOf (after.record (fs.inode ip).inum) := by
  obtain ⟨_, ⟨_, hasRecord, copyOf⟩, _⟩ := creating.cached ip referenced
  by_cases isInodefile : (fs.inode ip).inum = inodefileino
  · obtain rfl : ip = inodefile := creating.unique ip inodefile referenced creating.inodefileRef
      (isInodefile.trans creating.isInodefile.symm)
    obtain ⟨isType, isDevid, isSize, isData⟩ := copyOf
    rw [isInodefile] at isType isDevid isSize isData ⊢
    rw [entered.isInodefile, entered.inodefileRecord]
    exact ⟨isType, isDevid, congrArg (· + 64) isSize, isData⟩
  · by_cases isRoot : (fs.inode ip).inum = rootino
    · obtain rfl : ip = dp := creating.unique ip dp referenced creating.rootRef
        (isRoot.trans creating.isRoot.symm)
      obtain ⟨isType, isDevid, isSize, isData⟩ := creating.rootCopy
      rw [isRoot, ← FileSystem.root, entered.isRoot, entered.rootRecord]
      exact ⟨isType, isDevid, congrArg (· + 16) isSize, isData⟩
    · have notInodefile : ip ≠ inodefile := by grind [FileSystem.Creating]
      have notRoot : ip ≠ dp := by
        rintro rfl
        exact isRoot creating.isRoot
      rw [entered.others ip notInodefile notRoot,
        entered.records _ isInodefile isRoot hasRecord.2]
      exact copyOf

/-- After the creation the file system is steady again. -/
theorem steady_after (isNext : dirent.inum.toUInt32 = fs.nextInum)
    (isCreated : fs.record fs.nextInum = createdDinode)
    (inTable : fs.nextInum.toNat * dinodeSize + dinodeSize ≤ fs.table.bytes) : after.Steady := by
  obtain ⟨notInodefile, notRoot⟩ := creating.nextInum_ne
  have sameTable : after.table = fs.table := by
    rw [FileSystem.table, entered.sameInodefile]
    rfl
  have sameNext : after.nextInum = fs.nextInum := by
    rw [FileSystem.nextInum, entered.sameInodefile]
    rfl
  have stillCreated : after.record fs.nextInum = createdDinode := by
    rw [entered.records _ notInodefile notRoot inTable, isCreated]
  have sameType : ∀ inum, fs.Known inum → (after.record inum).type = (fs.record inum).type := by
    intro inum known
    by_cases isInodefile : inum = inodefileino
    · rw [isInodefile, entered.inodefileRecord]
    · by_cases isRoot : inum = rootino
      · rw [isRoot, ← FileSystem.root, entered.rootRecord]
        rfl
      · rw [entered.records inum isInodefile isRoot (creating.hasRecord known).2]
  have bytes := creating.toSteady.root.onDisk.bytes_lt
  have room := creating.room.trans (min_le_left _ _)
  have grownSize : (fs.root.size + 16).toNat = fs.root.size.toNat + direntSize := by
    grind [toNat_add_of_lt]
  exact {
    table := creating.table.congr entered.sameInodefile entered.sameSize
    root := {
      isDir := by
        rw [entered.rootRecord]
        exact creating.toSteady.root.isDir
      onDisk := by
        rw [entered.rootRecord, Extent.OnDisk, entered.sameSize]
        exact creating.toSteady.root.onDisk
      whole := by
        rw [entered.rootRecord]
        dsimp only
        rw [grownSize]
        exact (Nat.dvd_add_self_right).mpr creating.toSteady.root.whole
      fits := by grind [FileSystem.Entered]
      hasRecord := by
        intro inum known
        refine FileSystem.HasRecord.congr ?_ entered.sameInodefile
        rcases known_after entered isNext known with old | rfl
        · exact creating.hasRecord old
        · refine ⟨?_, inTable⟩
          rw [FileSystem.nextInum, UInt32.toNat_div]
          exact Nat.div_mul_le_self _ _
      onlyRoot := by
        intro inum known isDir
        rcases known_after entered isNext known with old | rfl
        · rw [sameType inum old] at isDir
          exact creating.toSteady.root.onlyRoot inum old isDir
        · rw [stillCreated] at isDir
          exact absurd isDir (by decide) }
    cached := by
      intro ip referenced
      obtain ⟨sameDev, sameInum, counted⟩ := creating.inode_after entered ip
      obtain ⟨isDev, cached, known⟩ := creating.cached ip (counted referenced)
      rw [sameDev, sameInum]
      refine ⟨isDev, ⟨referenced, ?_, ?_⟩, ?_⟩
      · rw [sameInum]
        exact cached.hasRecord.congr entered.sameInodefile
      · grind [copyOf_after]
      · rcases known with isInodefile | isRoot | ⟨de, member, live, isInum⟩
        · exact Or.inl isInodefile
        · exact Or.inr (Or.inl isRoot)
        · refine Or.inr (Or.inr ⟨de, ?_, live, isInum⟩)
          rw [entered.entries]
          exact List.mem_append_left _ member
    unique := by
      intro ip other ipRef otherRef same
      obtain ⟨_, ipInum, ipCounted⟩ := creating.inode_after entered ip
      obtain ⟨_, otherInum, otherCounted⟩ := creating.inode_after entered other
      rw [ipInum, otherInum] at same
      exact creating.unique ip other (ipCounted ipRef) (otherCounted otherRef) same
    isFile := by
      rw [entered.inodefileRecord]
      exact creating.isFile
    sameTable := by
      rw [entered.inodefileRecord, sameTable]
      exact creating.sameTable
    capacity := by
      rw [entered.inodefileRecord, sameTable]
      exact creating.capacity
    twoRecords := by
      rw [entered.sameInodefile]
      exact creating.twoRecords
    apart := by
      rw [entered.rootRecord, sameTable]
      exact creating.apart
    next := by
      rw [sameNext]
      exact Or.inl stillCreated }

end After

end FileSystem.Creating

/-! ### The whole call -/

/-- The entry of the next inode under a name. -/
def FileSystem.nextEntry (fs : FileSystem) (name : List UInt8) : Dirent :=
  ⟨fs.nextInum.toUInt16, strncpy name dirsiz⟩

/-- What a creation leaves: the new record and the new entry, and the new sizes of the inode file and
of the root directory. -/
structure FileSystem.Created (fs : FileSystem) (name : List UInt8) (after : FileSystem) : Prop where
  steady : after.Steady
  sameInodefile : after.inodefile = fs.inodefile
  entries : after.entries = fs.entries ++ [fs.nextEntry name]
  isCreated : after.record fs.nextInum = createdDinode
  inodefileRecord : after.record inodefileino =
    { fs.record inodefileino with size := (fs.record inodefileino).size + 64 }
  rootRecord : after.root = { fs.root with size := fs.root.size + 16 }
  records : ∀ inum, inum ≠ inodefileino → inum ≠ rootino → inum ≠ fs.nextInum →
    inum.toNat * dinodeSize + dinodeSize ≤ fs.table.bytes → after.record inum = fs.record inum

section Call

variable {fs after : FileSystem} {ip : Fin ninode} {path : List UInt8}

theorem FileSystem.Created.of_sameStore {name : List UInt8} (created : fs.Created name after)
    {later : FileSystem} (coherent : later.Coherent) (same : after.SameStore later) :
    fs.Created name later where
  steady := created.steady.of_sameStore coherent same
  sameInodefile := same.inodefile.trans created.sameInodefile
  entries := same.entries.trans created.entries
  isCreated := (same.record _).trans created.isCreated
  inodefileRecord := (same.record _).trans created.inodefileRecord
  rootRecord := (same.record rootino).trans created.rootRecord
  records inum notInodefile notRoot notNext inTable :=
    (same.record inum).trans (created.records inum notInodefile notRoot notNext inTable)

theorem FileSystem.Created.of_start {name : List UInt8} {start : FileSystem}
    (created : fs.Created name after) (same : start.SameStore fs) : start.Created name after := by
  have sameNext : fs.nextInum = start.nextInum := by
    rw [FileSystem.nextInum, FileSystem.nextInum, same.inodefile]
  have sameTable : fs.table = start.table := by
    rw [FileSystem.table, FileSystem.table, same.inodefile]
  exact {
    steady := created.steady
    sameInodefile := created.sameInodefile.trans same.inodefile
    entries := by
      rw [created.entries, same.entries, FileSystem.nextEntry, FileSystem.nextEntry, sameNext]
    isCreated := by rw [← sameNext, created.isCreated]
    inodefileRecord := by rw [created.inodefileRecord, same.record]
    rootRecord := by
      rw [created.rootRecord, FileSystem.root, same.record]
      rfl
    records := by
      intro inum notInodefile notRoot notNext inTable
      rw [created.records inum notInodefile notRoot (by rwa [sameNext]) (by rwa [sameTable]),
        same.record] }

theorem FileSystem.Room.of_sameStore (room : fs.Room) (same : fs.SameStore after) : after.Room := by
  have sameRoot : after.root = fs.root := same.record rootino
  have sameNext : after.nextInum = fs.nextInum := by
    rw [FileSystem.nextInum, FileSystem.nextInum, same.inodefile]
  have sameTable : after.table = fs.table := by
    rw [FileSystem.table, FileSystem.table, same.inodefile]
  refine ⟨?_, ?_, ?_⟩
  · rw [sameNext]
    exact room.number
  · rw [sameNext, sameTable, same.inodefile]
    exact room.record
  · rw [sameRoot]
    exact room.entry

/-- The number of the new inode is that of its entry. -/
theorem FileSystem.Room.nextEntry_inum (room : fs.Room) (name : List UInt8) :
    (fs.nextEntry name).inum.toUInt32 = fs.nextInum := by
  apply UInt32.toNat_inj.mp
  show fs.nextInum.toUInt16.toUInt32.toNat = fs.nextInum.toNat
  rw [UInt16.toNat_toUInt32, UInt32.toNat_toUInt16]
  exact Nat.mod_eq_of_lt room.number

/-- `createi`, with the entry of the inode file in the cache locked. -/
theorem FileSystem.Steady.createi (steady : fs.Steady) (room : fs.Room)
    (referenced : 1 ≤ (fs.inode inodefile).ref)
    (isInodefile : (fs.inode inodefile).inum = inodefileino)
    (locked : (fs.inode inodefile).locked = true)
    (free : ∀ slot, slot ≠ inodefile → (fs.inode slot).locked = false)
    (creates : createi fs inodefile path = .ok (ip, after)) :
    ∃ name, fs.followParent rootino (elements path) = some (rootino, name) ∧
      fs.Created name after ∧
      after.locks = fs.locks ∧ 1 ≤ (after.inode ip).ref ∧ (after.inode ip).inum = fs.nextInum := by
  have inTable := room.record.trans (min_le_left _ _)
  obtain ⟨putSteady, putRoot, putEntries⟩ := steady.putCreated inTable
  rw [createi_eq, steady.table.writeCreated room.record, ok_bind] at creates
  obtain ⟨⟨parent, looked⟩, looks, creates⟩ := ok_of_bind creates
  cases parent with
  | none => cases creates
  | some parent =>
    obtain ⟨dp, name⟩ := parent
    obtain ⟨lookedCoherent, sameStore, sameLocks, rootRef, isRoot, isValid, follows, sameInum⟩ :=
      putSteady.toCoherent.nameiparent looks
    have lookedSteady := putSteady.of_sameStore lookedCoherent sameStore
    have lookedRoot : looked.root = fs.root := (sameStore.record rootino).trans putRoot
    have lookedInum : (looked.inode inodefile).inum = inodefileino :=
      (sameInum inodefile referenced).trans isInodefile
    have creating : looked.Creating inodefile dp := {
      lookedSteady with
      room := by
        rw [lookedRoot]
        exact room.entry
      rootRef := rootRef
      isRoot := isRoot
      isValid := isValid
      rootFree := by
        have differs : dp ≠ inodefile := by
          rintro rfl
          rw [lookedInum] at isRoot
          exact absurd isRoot (by decide)
        exact (congrFun sameLocks dp).trans (free dp differs)
      inodefileRef := by
        have counted := namex_refs_le looks inodefile
        have added := foundRef_nonneg (some (dp, name)) inodefile
        change fs.refs inodefile + _ ≤ looked.refs inodefile at counted
        change 0 ≤ foundRef (some (dp, name)) inodefile at added
        show 1 ≤ looked.refs inodefile
        change 1 ≤ fs.refs inodefile at referenced
        omega
      isInodefile := lookedInum
      locked := (congrFun sameLocks inodefile).trans locked }
    have sameNext : looked.nextInum = fs.nextInum := by
      rw [FileSystem.nextInum, sameStore.inodefile]
      rfl
    have sameTable : looked.table = fs.table := by
      rw [FileSystem.table, sameStore.inodefile]
      rfl
    have isNext : (fs.nextEntry name).inum.toUInt32 = looked.nextInum :=
      (room.nextEntry_inum name).trans sameNext.symm
    obtain ⟨notInodefile, notRoot⟩ := lookedSteady.nextInum_ne
    have isCreated : looked.record looked.nextInum = createdDinode := by
      rw [sameNext, sameStore.record]
      exact fs.record_putRecord_self _ _
    have lookedInTable : looked.nextInum.toNat * dinodeSize + dinodeSize ≤ looked.table.bytes := by
      grind
    obtain ⟨updated, isRecorded, entered⟩ := creating.recordEntry (fs.nextEntry name)
    change (recordEntry looked inodefile dp (fs.nextEntry name) >>= _) = _ at creates
    rw [isRecorded, ok_bind] at creates
    have updatedSteady := creating.steady_after entered isNext isCreated lookedInTable
    have known : updated.Known (fs.nextEntry name).inum.toUInt32 := by
      refine Or.inr (Or.inr ⟨fs.nextEntry name, ?_, fun isZero => ?_, rfl⟩)
      · grind [FileSystem.Entered]
      · simp_all
    obtain ⟨afterCoherent, afterRef, afterInum⟩ := updatedSteady.toCoherent.iget known creates
    obtain ⟨afterStore, afterLocks⟩ := iget_sameStore creates
    have otherRecords : ∀ inum, inum ≠ fs.nextInum → looked.record inum = fs.record inum := by
      intro inum notNext
      rw [sameStore.record]
      exact fs.record_putRecord_of_ne _ notNext
    have updatedCreated : fs.Created name updated := {
      steady := updatedSteady
      sameInodefile := entered.sameInodefile.trans sameStore.inodefile
      entries := by rw [entered.entries, sameStore.entries, putEntries]
      isCreated := by
        rw [← sameNext, entered.records _ notInodefile notRoot lookedInTable, isCreated]
      inodefileRecord := by
        rw [entered.inodefileRecord, otherRecords inodefileino (sameNext ▸ notInodefile.symm)]
      rootRecord := by rw [entered.rootRecord, lookedRoot]
      records := by
        intro inum differs differsRoot differsNext fits
        rw [entered.records inum differs differsRoot (by rw [sameTable]; exact fits),
          otherRecords inum differsNext] }
    have fsFollows : fs.followParent rootino (elements path) = some (rootino, name) := by
      grind [FileSystem.Coherent.followParent_of_find, FileSystem.Steady, FileSystem.find,
        FileSystem.known_root]
    refine ⟨name, fsFollows, updatedCreated.of_sameStore afterCoherent afterStore, ?_, afterRef,
      afterInum.trans (room.nextEntry_inum name)⟩
    rw [afterLocks, entered.locks, sameLocks]
    rfl

/-- `concurrent_createi` of a path creates a file under the last element of the path, whether there is
already an entry with this name or not. -/
theorem FileSystem.Steady.concurrentCreatei (steady : fs.Steady)
    (free : ∀ slot, (fs.inode slot).locked = false) (room : fs.Room)
    (created : concurrentCreatei fs path = .ok (ip, after)) :
    ∃ name, fs.followParent rootino (elements path) = some (rootino, name) ∧
      fs.Created name after ∧
      (∀ slot, (after.inode slot).locked = false) ∧ 1 ≤ (after.inode ip).ref ∧
      (after.inode ip).inum = fs.nextInum := by
  obtain ⟨⟨inodefile, taken⟩, got, created⟩ := ok_of_bind created
  obtain ⟨takenCoherent, takenRef, takenInum⟩ := steady.toCoherent.iget fs.known_inodefile got
  obtain ⟨takenStore, takenLocks⟩ := iget_sameStore got
  dsimp only at created
  split_ifs at created
  obtain ⟨⟨ip, made⟩, creates, ended⟩ := ok_of_bind created
  obtain ⟨rfl, rfl⟩ := ok_pair ended
  let locked := taken.setInode inodefile { taken.inode inodefile with locked := true }
  have isInode : locked.inode inodefile = { taken.inode inodefile with locked := true } :=
    taken.setInode_self _ _
  have lockedStore : fs.SameStore locked := takenStore.trans (setInode_sameStore _ _ _)
  have lockedCoherent : locked.Coherent :=
    takenCoherent.keepInode rfl rfl id fun _ => ⟨rfl, rfl, rfl, rfl⟩
  have lockedSteady := steady.of_sameStore lockedCoherent lockedStore
  have lockedFree : ∀ slot, slot ≠ inodefile → (locked.inode slot).locked = false := by
    intro slot differs
    rw [taken.setInode_of_ne _ differs]
    exact (congrFun takenLocks slot).trans (free slot)
  obtain ⟨name, follows, isCreated, sameLocks, madeRef, madeInum⟩ := lockedSteady.createi
    (room.of_sameStore lockedStore) (by rw [isInode]; exact takenRef)
    (by rw [isInode]; exact takenInum) (by rw [isInode]) lockedFree creates
  let unlocked : Inode := { made.inode inodefile with locked := false }
  have unlockedCoherent : (made.setInode inodefile unlocked).Coherent :=
    isCreated.steady.toCoherent.keepInode rfl rfl id fun _ => ⟨rfl, rfl, rfl, rfl⟩
  rw [lockedStore.followParent] at follows
  refine ⟨name, follows, (isCreated.of_start lockedStore).of_sameStore unlockedCoherent
    (setInode_sameStore _ _ _), fun slot => ?_, ?_, ?_⟩
  · by_cases same : slot = inodefile
    · rw [same, made.setInode_self]
    · rw [made.setInode_of_ne _ same]
      exact (congrFun sameLocks slot).trans (lockedFree slot same)
  · show 1 ≤ (made.setInode inodefile unlocked).refs ip
    rw [refs_setInode_same (show unlocked.ref = (made.inode inodefile).ref from rfl)]
    exact madeRef
  · grind [setInode_inum, FileSystem.nextInum, FileSystem.SameStore]

theorem FileSystem.nextEntry_label (fs : FileSystem) (name : List UInt8) :
    (fs.nextEntry name).label = cstringOf dirsiz name :=
  cstringOf_strncpy name dirsiz

section

variable {name : List UInt8} (created : fs.Created name after)
include created

/-- A name that has an entry keeps it. -/
theorem FileSystem.Created.find_of_some {other : List UInt8} {de : Dirent}
    (isFound : fs.find other = some de) :
    after.find other = some de := by
  grind [FileSystem.find, FileSystem.Created]

theorem FileSystem.Created.nextInum :
    after.nextInum = fs.nextInum := by
  rw [FileSystem.nextInum, created.sameInodefile, ← FileSystem.nextInum]

end

end Call

end Xk
