/-
This file proves that the kernel reads back what `mkfs` wrote: on the image of any list of files,
the kernel mounts the file system, finds each file by its name in the root directory, and reads its
contents; a name that no entry has is not found.

The two programs meet at the ranges of the image that `mkfs` leaves. The kernel's side is an
invariant of the inode cache, which mounting establishes and `iget` and `locki` keep: the cached
inodes of the disk are copies of the inodes on it.
-/

import Xk.ExtentReads
import Xk.MkfsImage

namespace Xk

open Outcome

variable {ip dp : Fin ninode} {din : Dinode} {inum : UInt32} {named : UInt32 × List UInt8}
  {index : Nat}

/-! ### The image as a disk -/

/-- The image that `mkfs` made of the files, whose inode numbers fit the entries of a directory. -/
structure Image.Made (image : Image) (files : List InputFile) : Prop where
  few : files.length + 3 < 65003
  holding : image.Holding (files.length + 3) (imageInode (files.length + 3) files)
    (imageDirectory files) (imageData (files.length + 3) files)
  fits : endBlock (dataStart (files.length + 3)) files ≤ fssize

theorem Image.made_of_mkfs {files : List InputFile} (few : files.length < 65000) {image : Image}
    (made : mkfs files = .ok image) : image.Made files :=
  ⟨Nat.add_lt_add_right few 3, (mkfs_holding made).1, (mkfs_holding made).2⟩

/-- The image is linked into the kernel as its disk. -/
structure Disk.Linked (disk : Disk) (image : Image) : Prop where
  disksize : disk.disksize = image.length / bsize
  bytes : disk.bytes = image.bytes

/-- The inode file in memory after `init_inodefile`. -/
def mountedInodefile (count : Nat) : Inode :=
  { Inode.zero with inum := inodefileino, dev := rootdev, ref := 1, valid := true }.copy
    (inodefileDinode count)

/-- The kernel runs on the image and has read the inode file. -/
structure FileSystem.OnImage (fs : FileSystem) (image : Image) (files : List InputFile) : Prop where
  disksize : fs.disk.disksize = fssize
  bytes : fs.disk.bytes = image.bytes
  inodefile : fs.inodefile = mountedInodefile (files.length + 3)

/-- The inode in memory is a copy of an inode on disk. -/
def Inode.CopyOf (ip : Inode) (din : Dinode) : Prop :=
  ip.type = din.type ∧ ip.devid = din.devid ∧ ip.size = din.size ∧ ip.data = din.data

theorem Inode.copy_copyOf (ip : Inode) (din : Dinode) : (ip.copy din).CopyOf din :=
  ⟨rfl, rfl, rfl, rfl⟩

/-- The cached inodes of the disk are copies of the inodes on it. -/
structure FileSystem.Mounted (fs : FileSystem) (image : Image) (files : List InputFile) : Prop
    extends fs.OnImage image files where
  cached : ∀ ip din, 0 < (fs.inode ip).ref → (fs.inode ip).dev = rootdev →
    imageInode (files.length + 3) files (fs.inode ip).inum.toNat = some din →
    (fs.inode ip).CopyOf din

section Cache

variable {image : Image} {files : List InputFile} {fs : FileSystem}

theorem FileSystem.OnImage.setInode (onImage : fs.OnImage image files) (ip : Fin ninode)
    (inode : Inode) : (fs.setInode ip inode).OnImage image files :=
  ⟨onImage.disksize, onImage.bytes, onImage.inodefile⟩

theorem FileSystem.Mounted.setInode (mounted : fs.Mounted image files) {inode : Inode}
    (copied : ∀ din, 0 < inode.ref → inode.dev = rootdev →
      imageInode (files.length + 3) files inode.inum.toNat = some din → inode.CopyOf din) :
    (fs.setInode ip inode).Mounted image files := by
  grind [FileSystem.OnImage.setInode, FileSystem.Mounted, FileSystem.setInode_self,
    FileSystem.setInode_of_ne]

end Cache

section Image

variable {image : Image} {files : List InputFile} (made : image.Made files)
include made

theorem Image.Made.dataStart_le : dataStart (files.length + 3) ≤ fssize :=
  (endBlock_ge _ _).trans made.fits

theorem Image.Made.le_maxInodes : files.length + 3 ≤ maxInodes :=
  Xk.le_maxInodes made.dataStart_le

theorem Image.Made.hasInode {inum : Nat}
    (isInode : imageInode (files.length + 3) files inum = some din) :
    inum < files.length + 3 ∧ image.HasInode inum din :=
  made.holding.inode inum din isInode

/-- The blocks of the inode file are on the disk. -/
theorem Image.Made.inodefileBlocks_le :
    nmeta + inodefileBlocks (files.length + 3) ≤ fssize := by
  have inRange := rootStart_le made.le_maxInodes
  rwa [rootStart] at inRange

theorem Image.Made.inodefile_size :
    (inodefileDinode (files.length + 3)).size.toNat = (files.length + 3) * dinodeSize := by
  apply toNat_ofNat_of_le
  refine (le_inodefileBlocks _).trans (Nat.mul_le_mul_right bsize ?_)
  exact (Nat.le_add_left _ _).trans made.inodefileBlocks_le

variable {fs : FileSystem}

/-- The inode file is read in its one extent. -/
theorem FileSystem.OnImage.inodefile_inFirst (onImage : fs.OnImage image files) :
    Inode.InFirst { fs.inodefile with locked := true } fs.disk
      ⟨mkfsSb.inodestart, UInt32.ofNat (inodefileBlocks (files.length + 3))⟩ := by
  have blocks := made.inodefileBlocks_le
  have toNat : (UInt32.ofNat (inodefileBlocks (files.length + 3))).toNat =
      inodefileBlocks (files.length + 3) :=
    toNat_ofNat_block ((Nat.le_add_left _ _).trans blocks)
  rw [onImage.inodefile]
  refine ⟨show tFile ≠ tDev by decide, rfl, ?_, ?_⟩
  · show mkfsSb.inodestart.toNat + (UInt32.ofNat _).toNat ≤ fs.disk.disksize
    rw [toNat, onImage.disksize]
    exact blocks
  · show (inodefileDinode (files.length + 3)).size.toNat ≤ (UInt32.ofNat _).toNat * bsize
    rw [made.inodefile_size, toNat]
    exact le_inodefileBlocks _

/-- `read_dinode` by the holder of the inode file's lock. -/
theorem FileSystem.OnImage.readDinodeLocked (onImage : fs.OnImage image files)
    (isInode : imageInode (files.length + 3) files inum.toNat = some din) :
    readDinodeLocked fs inum = .ok din := by
  obtain ⟨inRange, has⟩ := made.hasInode isInode
  have few := made.few
  have offset : (inodeOff inum).toNat = inum.toNat * dinodeSize := by
    grind [inodeOff, UInt32.toNat_mul]
  have inside : (inodeOff inum).toNat + (64 : UInt32).toNat ≤ fs.inodefile.size.toNat := by
    rw [offset, onImage.inodefile]
    show inum.toNat * 64 + 64 ≤ (inodefileDinode (files.length + 3)).size.toNat
    rw [made.inodefile_size]
    show inum.toNat * 64 + 64 ≤ (files.length + 3) * 64
    omega
  have record : Bytes.load fs.disk.bytes
      (Extent.address ⟨mkfsSb.inodestart, UInt32.ofNat (inodefileBlocks (files.length + 3))⟩ +
        (inodeOff inum).toNat) (64 : UInt32).toNat = din.encode := by
    rw [offset, onImage.bytes]
    unfold Image.HasInode Bytes.Holds at has
    rw [din.encode_length, inodeAddress] at has
    exact has
  rw [Xk.readDinodeLocked, readi_inside (onImage.inodefile_inFirst made) rfl inside, record,
    ok_bind]
  show (if din.encode.length < dinodeSize then _ else _) = _
  rw [din.encode_length, if_neg (lt_irrefl _), din.decode_encode]
  rfl

theorem FileSystem.OnImage.readDinode (onImage : fs.OnImage image files)
    (isInode : imageInode (files.length + 3) files inum.toNat = some din) :
    readDinode fs inum = .ok din := by
  have counted : ¬ (fs.inodefile.locked = false ∧ fs.inodefile.ref < 1) := by
    rw [onImage.inodefile]
    exact fun both => absurd both.2 (show ¬ (1 : Int) < 1 by decide)
  rw [Xk.readDinode, if_neg counted, onImage.readDinodeLocked made isInode]

/-! ### The inode cache -/

/-- What `iget` returns for an inode of the image. -/
structure FileSystem.Got (found : FileSystem) (ip : Fin ninode) (image : Image)
    (files : List InputFile) (inum : UInt32) (din : Dinode) : Prop where
  mounted : found.Mounted image files
  ref : 0 < (found.inode ip).ref
  dev : (found.inode ip).dev = rootdev
  inum : (found.inode ip).inum = inum
  copyOf : (found.inode ip).CopyOf din

/-- `iget` of an inode of the image, with a free entry in the cache. -/
theorem FileSystem.Mounted.iget (mounted : fs.Mounted image files)
    (isInode : imageInode (files.length + 3) files inum.toNat = some din) (typed : din.type ≠ 0)
    (room : ∃ ip, (fs.inode ip).ref = 0) :
    ∃ ip found, iget fs rootdev inum = .ok (ip, found) ∧ found.Got ip image files inum din ∧
      ((fs.inode ip).ref = 0 ∨ (fs.inode ip).inum = inum) ∧
      (found.inode ip).locked = (fs.inode ip).locked ∧
      ∀ other, other ≠ ip → found.inode other = fs.inode other := by
  have sameInode : ∀ {other : Dinode},
      imageInode (files.length + 3) files inum.toNat = some other → other = din :=
    fun isOther => Option.some_inj.mp (isOther.symm.trans isInode)
  rw [Xk.iget]
  cases hit : (List.finRange ninode).find? (fs.caches rootdev inum) with
  | some ip =>
    have cached := List.find?_some hit
    simp only [FileSystem.caches, decide_eq_true_eq] at cached
    obtain ⟨counted, isDev, isInum⟩ := cached
    have copyOf := mounted.cached ip din counted isDev (isInum.symm ▸ isInode)
    refine ⟨ip, _, rfl, ⟨mounted.setInode fun other _ _ isOther => ?_, ?_, ?_, ?_, ?_⟩,
      Or.inr isInum, ?_, fun other different => fs.setInode_of_ne _ different⟩
    · change imageInode (files.length + 3) files (fs.inode ip).inum.toNat = some other at isOther
      rw [isInum] at isOther
      exact sameInode isOther ▸ copyOf
    · grind [FileSystem.setInode_self]
    · simp_all
    · simp_all
    · rw [fs.setInode_self]
      exact copyOf
    · rw [fs.setInode_self]
  | none =>
    cases free : (List.finRange ninode).find? fun ip => decide ((fs.inode ip).ref = 0) with
    | none => grind
    | some ip =>
      have isFree := List.find?_some free
      simp only [decide_eq_true_eq] at isFree
      set taken : Inode := { fs.inode ip with
        ref := 1, valid := false, dev := rootdev, inum := inum } with isTaken
      have read := (mounted.toOnImage.setInode ip taken).readDinode made isInode
      refine ⟨ip, fs.setInode ip (taken.copy din), ?_,
        ⟨mounted.setInode fun other _ _ isOther => ?_, ?_, ?_, ?_, ?_⟩, Or.inl isFree, ?_,
        fun other different => fs.setInode_of_ne _ different⟩
      · show Except.bind (Xk.readDinode (fs.setInode ip taken) inum) _ = _
        rw [read]
        show (if din.type = 0 then _ else _) = _
        rw [if_neg typed]
        rfl
      · exact sameInode isOther ▸ taken.copy_copyOf other
      · rw [fs.setInode_self]
        exact one_pos
      · rw [fs.setInode_self]
        rfl
      · rw [fs.setInode_self]
        rfl
      · rw [fs.setInode_self]
        exact taken.copy_copyOf din
      · rw [fs.setInode_self]
        rfl

omit made in
/-- An entry that stays a copy of its inode. -/
theorem FileSystem.Got.setInode (got : fs.Got ip image files inum din)
    (isInode : imageInode (files.length + 3) files inum.toNat = some din) (inode : Inode)
    (ref : inode.ref = (fs.inode ip).ref) (dev : inode.dev = (fs.inode ip).dev)
    (isInum : inode.inum = (fs.inode ip).inum) (copyOf : inode.CopyOf din) :
    (fs.setInode ip inode).Got ip image files inum din := by
  grind [FileSystem.Mounted.setInode, FileSystem.Got, FileSystem.setInode_self]

/-- `locki` of an inode that nobody has locked. -/
theorem FileSystem.Got.locki (got : fs.Got ip image files inum din)
    (isInode : imageInode (files.length + 3) files inum.toNat = some din) (typed : din.type ≠ 0)
    (unlocked : (fs.inode ip).locked = false) :
    ∃ after, locki fs ip = .ok after ∧ after.Got ip image files inum din ∧
      (after.inode ip).locked = true ∧
      ∀ other, other ≠ ip → after.inode other = fs.inode other := by
  have counted : ¬ (fs.inode ip).ref < 1 := Int.not_lt.mpr got.ref
  rw [Xk.locki, if_neg counted, if_neg (by simp [unlocked])]
  by_cases valid : (fs.inode ip).valid
  · refine ⟨_, if_pos valid, got.setInode isInode { fs.inode ip with locked := true } rfl rfl rfl
      got.copyOf, ?_,
      fun other different => fs.setInode_of_ne _ different⟩
    rw [fs.setInode_self]
  · have inodefile := got.mounted.inodefile
    have notCounted : ¬ fs.inodefile.ref < 1 := by
      rw [inodefile]
      exact (show ¬ (1 : Int) < 1 by decide)
    have notLocked : ¬ fs.inodefile.locked = true := by
      rw [inodefile]
      exact (show ¬ false = true by decide)
    have read := got.mounted.toOnImage.readDinodeLocked made (got.inum.symm ▸ isInode)
    rw [if_neg valid, if_neg notCounted, if_neg notLocked, read, ok_bind, if_neg typed]
    refine ⟨_, rfl, got.setInode isInode _ rfl rfl rfl (Inode.copy_copyOf _ din), ?_,
      fun other different => fs.setInode_of_ne _ different⟩
    rw [fs.setInode_self]
    rfl

omit made in
/-- `unlocki` by the holder of the lock. -/
theorem FileSystem.Got.unlocki (got : fs.Got ip image files inum din)
    (isInode : imageInode (files.length + 3) files inum.toNat = some din)
    (locked : (fs.inode ip).locked = true) :
    ∃ after, unlocki fs ip = .ok after ∧ after.Got ip image files inum din ∧
      (after.inode ip).locked = false := by
  have counted : ¬ ((fs.inode ip).locked = false ∨ (fs.inode ip).ref < 1) := by
    grind [FileSystem.Got]
  refine ⟨_, if_neg counted, got.setInode isInode { fs.inode ip with locked := false } rfl rfl rfl
    got.copyOf, ?_⟩
  rw [fs.setInode_self]

/-! ### Mounting -/

omit made in
theorem load_take (bytes : Nat → UInt8) (start : Nat) {count : Nat} (short : count ≤ bsize) :
    (Bytes.load bytes start bsize).take count = Bytes.load bytes start count := by
  have part : ((Bytes.load bytes start bsize).drop 0).take count =
      Bytes.load bytes (start + 0) count :=
    Bytes.take_drop_load bytes (by rwa [Nat.zero_add])
  rwa [List.drop_zero, Nat.add_zero] at part

/-- `iinit` on the image. -/
theorem Image.Made.iinit {disk : Disk} (linked : disk.Linked image) (devsw : Devsw) :
    ∃ fs, iinit disk devsw rootdev = .ok fs ∧ fs.Mounted image files ∧
      ∀ ip, fs.inode ip = .zero := by
  have disksize : disk.disksize = fssize := by
    rw [linked.disksize, made.holding.length, imageBytes, Nat.mul_div_cancel _ (by decide)]
  have sb : readsb disk = .ok mkfsSb := by
    have super := made.holding.super
    unfold Bytes.Holds at super
    rw [Superblock.encode_length, ← linked.bytes] at super
    rw [readsb, bread_of_lt (by rw [disksize]; decide), ok_bind, load_take _ _ (by decide)]
    show Except.ok (Superblock.decode (Bytes.load disk.bytes bsize 16)) = _
    rw [super, Superblock.decode_encode]
  have inodefile : initInodefile disk mkfsSb rootdev .zero =
      .ok (mountedInodefile (files.length + 3)) := by
    have isInode : imageInode (files.length + 3) files 0 =
      some (inodefileDinode (files.length + 3)) := rfl
    obtain ⟨_, has⟩ := made.hasInode isInode
    unfold Image.HasInode Bytes.Holds at has
    rw [Dinode.encode_length, ← linked.bytes, inodeAddress] at has
    rw [initInodefile, bread_of_lt (by rw [disksize]; decide), ok_bind, load_take _ _ (by decide)]
    show Except.ok _ = _
    rw [show mkfsSb.inodestart.toNat * bsize = nmeta * bsize + 0 * dinodeSize from rfl, has,
      Dinode.decode_encode]
    rfl
  refine ⟨_, by rw [Xk.iinit, sb, ok_bind, inodefile, ok_bind]; rfl,
    ⟨⟨disksize, linked.bytes, rfl⟩, fun ip din counted => ?_⟩, fun _ => rfl⟩
  exact absurd counted (show ¬ (0 : Int) < 0 by decide)

/-! ### The root directory -/

/-- The root directory is open and locked. -/
structure FileSystem.RootLocked (fs : FileSystem) (dp : Fin ninode) (image : Image)
    (files : List InputFile) : Prop where
  got : fs.Got dp image files rootino (rootDinode (files.length + 3) (files.length + 3))
  locked : (fs.inode dp).locked = true

theorem FileSystem.RootLocked.inFirst (root : fs.RootLocked dp image files) :
    (fs.inode dp).InFirst fs.disk ⟨UInt32.ofNat (rootStart (files.length + 3)),
      UInt32.ofNat (blocksOf ((files.length + 3) * direntSize))⟩ := by
  obtain ⟨type, devid, size, data⟩ := root.got.copyOf
  have behind := made.dataStart_le
  rw [dataStart] at behind
  have start := toNat_ofNat_block (rootStart_le made.le_maxInodes)
  have blocks : (UInt32.ofNat (blocksOf ((files.length + 3) * direntSize))).toNat =
      blocksOf ((files.length + 3) * direntSize) :=
    toNat_ofNat_block ((Nat.le_add_left _ _).trans behind)
  refine ⟨?_, ?_, ?_, ?_⟩
  · rw [type]
    exact (show tDir ≠ tDev by decide)
  · rw [data]
    rfl
  · rw [Extent.OnDisk, start, blocks, root.got.mounted.disksize]
    exact behind
  · rw [size, rootDinode_size made.le_maxInodes le_rfl, Extent.bytes, blocks]
    exact le_blocksOf _

omit made in
theorem InputFile.storedName_proper (file : InputFile) : 0 ∉ file.storedName := by
  intro zero
  refine file.proper (List.mem_of_mem_drop (i := 9) ?_)
  unfold InputFile.storedName at zero
  split_ifs at zero
  · exact List.mem_of_mem_tail zero
  · exact zero

omit made in
/-- The names in the directory are C strings. -/
theorem imageNames_proper (member : named ∈ imageNames files) :
    0 ∉ named.2 := by
  rcases List.mem_append.mp member with fixed | stored
  · fin_cases fixed <;> decide
  · grind [InputFile.storedName_proper]

/-- The inode numbers in the directory fit its entries and are not zero. -/
theorem Image.Made.imageNames_inum (member : named ∈ imageNames files) :
    named.1.toUInt16 ≠ 0 ∧ named.1.toUInt16.toUInt32 = named.1 := by
  rcases List.mem_append.mp member with fixed | stored
  · fin_cases fixed <;> decide
  · obtain ⟨index, inRange, rfl⟩ := List.mem_mapIdx.mp stored
    have few := made.few
    have toNat : (UInt32.ofNat (index + 3)).toNat = index + 3 :=
      toNat_ofNat_inode (le_trans (by omega) made.le_maxInodes)
    have small : (UInt32.ofNat (index + 3)).toUInt16.toNat = index + 3 := by
      grind [UInt32.toNat_toUInt16]
    constructor
    · intro zero
      rw [show (UInt32.ofNat (index + 3)).toUInt16 = 0 from zero] at small
      cases small
    · grind [UInt32.toNat_inj, UInt16.toNat_toUInt32]

/-- Reading one entry. -/
theorem FileSystem.RootLocked.readEntry (root : fs.RootLocked dp image files)
    (isNamed : (imageNames files)[index]? = some named) {off : UInt32}
    (offset : off.toNat = index * direntSize) :
    off < (fs.inode dp).size ∧
      readi fs (fs.inode dp) off 16 = .ok (16, (mkDirent named.1 named.2).encode) := by
  have inTable : index < files.length + 3 := by grind [imageNames_length]
  obtain ⟨_, _, isSize, _⟩ := root.got.copyOf
  have size : (fs.inode dp).size.toNat = (files.length + 3) * direntSize := by
    rw [isSize]
    exact rootDinode_size made.le_maxInodes le_rfl
  have inside : off.toNat + (16 : UInt32).toNat ≤ (fs.inode dp).size.toNat := by grind
  have isEntry : (imageEntries files)[index]? = some (mkDirent named.1 named.2) := by
    grind [imageEntries]
  have record := made.holding.root.record Dirent.encode_length isEntry
  unfold Bytes.Holds at record
  rw [Dirent.encode_length, ← root.got.mounted.bytes, ← offset] at record
  refine ⟨UInt32.lt_iff_toNat_lt.mpr (lt_of_lt_of_le (Nat.lt_add_of_pos_right (by decide)) inside),
    ?_⟩
  rw [readi_inside (root.inFirst made) root.locked inside, Extent.address,
    toNat_ofNat_block (rootStart_le made.le_maxInodes)]
  exact congrArg (fun bytes => Except.ok ((16 : Int), bytes)) record

/-- A name that is looked up matches a stored one in what the directory keeps of it. -/
def SameName (name stored : List UInt8) : Prop := name.take dirsiz = stored.take dirsiz

section

variable (root : fs.RootLocked dp image files)
include root

/-- One turn of the search, at an entry. -/
theorem FileSystem.RootLocked.turn {name : List UInt8} (proper : 0 ∉ name)
    (isNamed : (imageNames files)[index]? = some named) {off : UInt32}
    (offset : off.toNat = index * direntSize) (turns : Nat) :
    (SameName name named.2 → dirlookupLoop fs dp name (turns + 1) off = (do
      let (ip, found) ← iget fs rootdev named.1
      return (some (ip, off), found))) ∧
    (¬ SameName name named.2 →
      dirlookupLoop fs dp name (turns + 1) off = dirlookupLoop fs dp name turns (off + 16)) := by
  have member := List.mem_of_getElem? isNamed
  obtain ⟨notZero, inum⟩ := made.imageNames_inum member
  obtain ⟨inside, read⟩ := root.readEntry made isNamed offset
  have compared : namecmp name (mkDirent named.1 named.2).name.toList = 0 ↔ SameName name named.2 :=
    strncmp_strncpy_eq_zero_iff dirsiz proper (imageNames_proper member)
  have turn : dirlookupLoop fs dp name (turns + 1) off =
      if namecmp name (mkDirent named.1 named.2).name.toList = 0 then (do
        let (ip, found) ← iget fs (fs.inode dp).dev named.1.toUInt16.toUInt32
        return (some (ip, off), found))
      else dirlookupLoop fs dp name turns (off + 16) := by
    rw [dirlookupLoop, if_pos inside, read, ok_bind]
    show (if (16 : Int) ≠ 16 then _ else _) = _
    rw [if_neg (not_not.mpr rfl), Dirent.decode_encode]
    exact if_neg notZero
  rw [turn, root.got.dev, inum]
  exact ⟨fun same => if_pos (compared.mpr same), fun different =>
    if_neg fun equal => different (compared.mp equal)⟩

/-- The search passes the entries whose names do not match. -/
theorem FileSystem.RootLocked.skip {name : List UInt8} (proper : 0 ∉ name) (count : Nat)
    (inTable : count ≤ files.length + 3)
    (different : ∀ index, index < count → ∀ named, (imageNames files)[index]? = some named →
      ¬ SameName name named.2) (turns : Nat) :
    dirlookupLoop fs dp name (turns + count) 0 =
      dirlookupLoop fs dp name turns (UInt32.ofNat (count * direntSize)) := by
  induction count generalizing turns with
  | zero => rfl
  | succ count inductionHypothesis =>
    have offset : (UInt32.ofNat (count * direntSize)).toNat = count * direntSize := by
      have scaled := Nat.mul_le_mul_right direntSize (Nat.le_of_succ_le inTable)
      exact toNat_ofNat_of_le ((scaled.trans (Nat.le_add_left _ _)).trans
        (directory_fits made.dataStart_le))
    have inNames : count < (imageNames files).length := by
      rw [imageNames_length]
      exact inTable
    have isNamed := List.getElem?_eq_getElem inNames
    have next :
        UInt32.ofNat (count * direntSize) + 16 = UInt32.ofNat ((count + 1) * direntSize) := by
      rw [Nat.succ_mul, UInt32.ofNat_add]
      rfl
    rw [Nat.add_succ, ← Nat.succ_add, inductionHypothesis (Nat.le_of_succ_le inTable)
      (fun index before => different index (Nat.lt_succ_of_lt before)) (turns + 1), ← next]
    exact (root.turn made proper isNamed offset turns).2
      (different count (Nat.lt_succ_self count) _ isNamed)

theorem FileSystem.RootLocked.size :
    (fs.inode dp).size.toNat = (files.length + 3) * direntSize := by
  obtain ⟨_, _, isSize, _⟩ := root.got.copyOf
  rw [isSize]
  exact rootDinode_size made.le_maxInodes le_rfl

theorem FileSystem.RootLocked.dirlookup_eq (name : List UInt8) {count : Nat}
    (inTable : count ≤ files.length + 3) :
    ∃ turns, dirlookup fs dp name = dirlookupLoop fs dp name (turns + 1 + count) 0 := by
  have type : (fs.inode dp).type = tDir := root.got.copyOf.1
  refine ⟨(fs.inode dp).size.toNat - count, ?_⟩
  have enough : count ≤ (fs.inode dp).size.toNat := by grind [size]
  rw [dirlookup, if_neg (not_not.mpr type), Nat.add_right_comm, Nat.sub_add_cancel enough]

/-- The first entry with a matching name is the one that is found. -/
theorem FileSystem.RootLocked.dirlookup_first {name : List UInt8} (proper : 0 ∉ name)
    (isNamed : (imageNames files)[index]? = some named) (same : SameName name named.2)
    (different : ∀ earlier, earlier < index → ∀ other, (imageNames files)[earlier]? = some other →
      ¬ SameName name other.2) :
    dirlookup fs dp name = (do
      let (ip, found) ← iget fs rootdev named.1
      return (some (ip, UInt32.ofNat (index * direntSize)), found)) := by
  have inTable : index ≤ files.length + 3 := by grind [imageNames_length]
  have offset : (UInt32.ofNat (index * direntSize)).toNat = index * direntSize := by
    have scaled := Nat.mul_le_mul_right direntSize inTable
    exact toNat_ofNat_of_le ((scaled.trans (Nat.le_add_left _ _)).trans
      (directory_fits made.dataStart_le))
  obtain ⟨turns, searched⟩ := root.dirlookup_eq made name inTable
  rw [searched, root.skip made proper index inTable different]
  exact (root.turn made proper isNamed offset turns).1 same

/-- A name that no entry has is not found. -/
theorem FileSystem.RootLocked.dirlookup_none {name : List UInt8} (proper : 0 ∉ name)
    (different : ∀ named ∈ imageNames files, ¬ SameName name named.2) :
    dirlookup fs dp name = .ok (none, fs) := by
  obtain ⟨turns, searched⟩ := root.dirlookup_eq made name le_rfl
  rw [searched, root.skip made proper _ le_rfl fun index _ named isNamed =>
    different named (List.mem_of_getElem? isNamed), dirlookupLoop]
  apply if_neg
  rw [UInt32.lt_iff_toNat_lt, root.size made, toNat_ofNat_of_le]
  · exact lt_irrefl _
  · exact (Nat.le_add_left _ _).trans (directory_fits made.dataStart_le)

end

/-! ### The files -/

omit made in
theorem placeFiles_getElem? (start : Nat) {file : InputFile} (isFile : files[index]? = some file) :
    ∃ place, (placeFiles start files)[index]? = some (place, file) := by
  induction files generalizing start index with
  | nil => cases isFile
  | cons first files inductionHypothesis =>
    cases index with
    | zero =>
      obtain rfl := Option.some_inj.mp isFile
      exact ⟨start, rfl⟩
    | succ index => exact inductionHypothesis _ isFile

/-- Reading a file that the cache has a copy of. -/
theorem FileSystem.OnImage.readFile (onImage : fs.OnImage image files) {place : Nat}
    {file : InputFile} (isPlaced : (place, file) ∈ placeFiles (dataStart (files.length + 3)) files)
    {ip : Inode} (copyOf : ip.CopyOf (fileDinode place file.contents.length))
    (locked : ip.locked = true) :
    ip.size.toNat = file.contents.length ∧ ∀ off n : UInt32,
      off.toNat + n.toNat ≤ file.contents.length →
      readi fs ip off n = .ok (n.toNat, (file.contents.drop off.toNat).take n.toNat) := by
  obtain ⟨type, _, isSize, isData⟩ := copyOf
  have placed : place + blocksOf file.contents.length ≤ fssize :=
    (placeFiles_bounds isPlaced).2.trans made.fits
  have start := toNat_ofNat_block ((Nat.le_add_right _ _).trans placed)
  have blocks := toNat_ofNat_block ((Nat.le_add_left _ _).trans placed)
  have size : ip.size.toNat = file.contents.length := by
    rw [isSize]
    exact toNat_ofNat_of_le ((le_blocksOf _).trans
      (Nat.mul_le_mul_right bsize ((Nat.le_add_left _ _).trans placed)))
  have inFirst : ip.InFirst fs.disk
      ⟨UInt32.ofNat place, UInt32.ofNat (blocksOf file.contents.length)⟩ := by
    refine ⟨?_, ?_, ?_, ?_⟩
    · rw [type]
      exact (show tFile ≠ tDev by decide)
    · rw [isData]
      rfl
    · grind [Extent.OnDisk, FileSystem.OnImage]
    · rw [size, Extent.bytes, blocks]
      exact le_blocksOf _
  refine ⟨size, fun off n inside => ?_⟩
  obtain ⟨_, holds⟩ := made.holding.data (place * bsize, file.contents)
    (List.mem_map.mpr ⟨_, isPlaced, rfl⟩)
  rw [readi_inside inFirst locked (size.symm ▸ inside), Extent.address, start, onImage.bytes,
    holds.load_part inside]

end Image

/-! ### The kernel on the image -/

/-- The root directory is locked and no other inode is, and the inode cache has a free entry. -/
structure FileSystem.Ready (fs : FileSystem) (dp : Fin ninode) (image : Image)
    (files : List InputFile) : Prop extends fs.RootLocked dp image files where
  others : ∀ ip, ip ≠ dp → (fs.inode ip).locked = false
  room : ∃ ip, (fs.inode ip).ref = 0

/-- `iinit(ROOTDEV)`, followed by what a lookup in the root begins with: `iget(ROOTDEV, ROOTINO)`
and `locki`. -/
def mountRoot (disk : Disk) (devsw : Devsw) : Except Halt (Fin ninode × FileSystem) := do
  let fs ← iinit disk devsw rootdev
  let (dp, fs) ← iget fs rootdev rootino
  let fs ← locki fs dp
  return (dp, fs)

/-- The kernel reads back the files from the root directory `dp`. -/
structure FileSystem.ReadsBack (fs : FileSystem) (dp : Fin ninode) (files : List InputFile) :
    Prop where
  /-- A file whose name does not match that of an earlier entry is found, as a file of its length,
  and reading it gives its contents. -/
  found : ∀ index file, files[index]? = some file →
    (∀ earlier, earlier < index + 3 → ∀ named, (imageNames files)[earlier]? = some named →
      ¬ SameName file.storedName named.2) →
    ∃ ip entry after locked, dirlookup fs dp file.storedName = .ok (some (ip, entry), after) ∧
      (after.inode ip).type = tFile ∧ (after.inode ip).size.toNat = file.contents.length ∧
      locki after ip = .ok locked ∧ ∀ off n : UInt32, off.toNat + n.toNat ≤ file.contents.length →
        readi locked (locked.inode ip) off n =
          .ok (n.toNat, (file.contents.drop off.toNat).take n.toNat)
  /-- A name that matches no entry is not found. -/
  notFound : ∀ name, 0 ∉ name → (∀ named ∈ imageNames files, ¬ SameName name named.2) →
    dirlookup fs dp name = .ok (none, fs)

section Kernel

variable {image : Image} {files : List InputFile} (made : image.Made files)
include made

theorem Image.Made.mountRoot {disk : Disk} (linked : disk.Linked image) (devsw : Devsw) :
    ∃ dp fs, mountRoot disk devsw = .ok (dp, fs) ∧ fs.Ready dp image files := by
  obtain ⟨booted, isBooted, mounted, zero⟩ := made.iinit linked devsw
  have free : ∀ ip, (booted.inode ip).ref = 0 := fun ip => by rw [zero]; rfl
  have isRoot : imageInode (files.length + 3) files rootino.toNat =
    some (rootDinode (files.length + 3) (files.length + 3)) := rfl
  have typed : (rootDinode (files.length + 3) (files.length + 3)).type ≠ 0 :=
    show tDir ≠ 0 by decide
  obtain ⟨dp, opened, isOpened, got, _, lock, othersOpened⟩ :=
    mounted.iget made isRoot typed ⟨0, free 0⟩
  obtain ⟨fs, isLocked, gotLocked, locked, others⟩ := got.locki made isRoot typed
    (by rw [lock, zero]; rfl)
  refine ⟨dp, fs, ?_, ⟨gotLocked, locked⟩, fun ip different => ?_, ?_⟩
  · rw [Xk.mountRoot, isBooted, ok_bind, isOpened, ok_bind]
    show Except.bind (locki opened dp) _ = _
    rw [isLocked]
    rfl
  · rw [others ip different, othersOpened ip different, zero]
    rfl
  · obtain ⟨ip, different⟩ := exists_ne dp
    refine ⟨ip, ?_⟩
    rw [others ip different, othersOpened ip different, free]

theorem FileSystem.Ready.readsBack {fs : FileSystem} (ready : fs.Ready dp image files) :
    fs.ReadsBack dp files := by
  refine ⟨fun index file isFile different => ?_, fun name proper different =>
    ready.dirlookup_none made proper different⟩
  obtain ⟨place, isPlaced⟩ := placeFiles_getElem? (dataStart (files.length + 3)) isFile
  have inFiles : index < files.length := (List.getElem?_eq_some_iff.mp isFile).1
  have toNat : (UInt32.ofNat (index + 3)).toNat = index + 3 :=
    toNat_ofNat_inode ((Nat.add_lt_add_right inFiles 3).le.trans made.le_maxInodes)
  have isNamed : (imageNames files)[index + 3]? =
      some (UInt32.ofNat (index + 3), file.storedName) := by
    grind [imageNames]
  have isInode : imageInode (files.length + 3) files (UInt32.ofNat (index + 3)).toNat =
      some (fileDinode place file.contents.length) := by
    rw [toNat, imageInode, isPlaced]
    rfl
  have typed : (fileDinode place file.contents.length).type ≠ 0 := show tFile ≠ 0 by decide
  obtain ⟨ip, after, isGot, got, before, lock, _⟩ :=
    ready.got.mounted.iget made isInode typed ready.room
  have looked := ready.dirlookup_first made file.storedName_proper isNamed rfl different
  -- the inode of a file is not the one of the root directory, so nobody has locked it
  have notRoot : ip ≠ dp := by
    rintro rfl
    rcases before with free | isInum
    · exact ready.got.ref.ne' free
    · have inum := congrArg UInt32.toNat (ready.got.inum.symm.trans isInum)
      rw [toNat] at inum
      exact absurd inum (by show (1 : Nat) ≠ index + 3; omega)
  obtain ⟨locked, isLocked, gotLocked, held, _⟩ := got.locki made isInode typed
    (by rw [lock]; exact ready.others ip notRoot)
  obtain ⟨size, reads⟩ := gotLocked.mounted.toOnImage.readFile made (List.mem_of_getElem? isPlaced)
    gotLocked.copyOf held
  refine ⟨ip, UInt32.ofNat ((index + 3) * direntSize), after, locked, ?_, got.copyOf.1, ?_,
    isLocked, reads⟩
  · rw [looked, isGot]
    rfl
  · rw [← size, got.copyOf.2.2.1, gotLocked.copyOf.2.2.1]

end Kernel

/-- The kernel reads back what `mkfs` wrote: it mounts the image, and from every state in which it
holds the root directory it finds and reads the files. -/
theorem mkfs_readsBack {files : List InputFile} (few : files.length < 65000) {image : Image}
    (made : mkfs files = .ok image) {disk : Disk} (linked : disk.Linked image) (devsw : Devsw) :
    (∃ dp fs, mountRoot disk devsw = .ok (dp, fs) ∧ fs.Ready dp image files) ∧
      ∀ dp (fs : FileSystem), fs.Ready dp image files → fs.ReadsBack dp files := by
  have isMade := Image.made_of_mkfs few made
  exact ⟨isMade.mountRoot linked devsw, fun _ _ ready => ready.readsBack isMade⟩

theorem mkfs_readsBack_twoFiles : ∃ (image : Image) (disk : Disk) (devsw : Devsw),
    mkfs twoFiles = .ok image ∧ disk.Linked image ∧
      (∃ dp fs, mountRoot disk devsw = .ok (dp, fs) ∧ fs.Ready dp image twoFiles) ∧
      ∀ dp (fs : FileSystem), fs.Ready dp image twoFiles → fs.ReadsBack dp twoFiles := by
  obtain ⟨image, made⟩ := mkfs_twoFiles
  have length : image.length = imageBytes := (mkfs_holding made).1.length
  let disk : Disk := ⟨image.length / bsize, image.bytes, by rw [length]; decide⟩
  let devsw : Devsw := ⟨fun _ => none, fun _ => none⟩
  have linked : disk.Linked image := ⟨rfl, rfl⟩
  exact ⟨image, disk, devsw, made, linked, mkfs_readsBack (by decide) made linked devsw⟩

end Xk
