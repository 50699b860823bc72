/-
This file proves what image `mkfs` leaves for a list of files, and for which lists it succeeds: the
inodes, the entries of the root directory in order, and the contents of each file behind those of
the files before it.
-/

import Xk.MkfsLayout
import Xk.Outcome

namespace Xk

open Outcome

variable {count number inodes : Nat} {st : Mkfs} {inum : UInt32} {file : InputFile}
  {image after : Image}

/-! ### The intended image -/

/-- The blocks of an input file. -/
def InputFile.blocks (file : InputFile) : Nat := blocksOf file.contents.length

/-- The files with the blocks at which they start, one after the other. -/
def placeFiles : Nat → List InputFile → List (Nat × InputFile)
  | _, [] => []
  | start, file :: files => (start, file) :: placeFiles (start + file.blocks) files

/-- The first block behind the files. -/
def endBlock (start : Nat) (files : List InputFile) : Nat :=
  start + (files.map InputFile.blocks).sum

theorem endBlock_cons (start : Nat) (file : InputFile) (files : List InputFile) :
    endBlock start (file :: files) = endBlock (start + file.blocks) files := by
  simp only [endBlock, List.map_cons, List.sum_cons, Nat.add_assoc]

theorem endBlock_concat (start : Nat) (files : List InputFile) (file : InputFile) :
    endBlock start (files ++ [file]) = endBlock start files + file.blocks := by
  simp [endBlock, Nat.add_assoc]

theorem placeFiles_concat (start : Nat) (files : List InputFile) (file : InputFile) :
    placeFiles start (files ++ [file]) =
      placeFiles start files ++ [(endBlock start files, file)] := by
  induction files generalizing start with
  | nil => rfl
  | cons first files inductionHypothesis => grind [placeFiles, endBlock_cons]

theorem placeFiles_length (start : Nat) (files : List InputFile) :
    (placeFiles start files).length = files.length := by
  induction files generalizing start with
  | nil => rfl
  | cons first files inductionHypothesis =>
    rw [placeFiles, List.length_cons, inductionHypothesis, List.length_cons]

theorem placeFiles_bounds {start : Nat} {files : List InputFile} {placed : Nat × InputFile}
    (member : placed ∈ placeFiles start files) :
    start ≤ placed.1 ∧ placed.1 + placed.2.blocks ≤ endBlock start files := by
  induction files generalizing start with
  | nil => cases member
  | cons first files inductionHypothesis =>
    rw [endBlock_cons]
    rcases List.mem_cons.mp member with rfl | later
    · exact ⟨le_rfl, Nat.le_add_right _ _⟩
    · grind

/-- The inode of the inode file. -/
def inodefileDinode (count : Nat) : Dinode where
  type := tFile
  devid := 0
  size := UInt32.ofNat (count * dinodeSize)
  data := .single ⟨mkfsSb.inodestart, UInt32.ofNat (inodefileBlocks count)⟩

/-- The inode of the root directory with so many entries. -/
def rootDinode (count entries : Nat) : Dinode where
  type := tDir
  devid := 0
  size := UInt32.ofNat (entries * direntSize)
  data := .single ⟨UInt32.ofNat (rootStart count), UInt32.ofNat (blocksOf (count * direntSize))⟩

/-- The inode of the console. -/
def consoleDinode : Dinode where
  type := tDev
  devid := 1
  size := 0
  data := .single .zero

/-- The inode of a file. -/
def fileDinode (start size : Nat) : Dinode where
  type := tFile
  devid := 0
  size := UInt32.ofNat size
  data := .single ⟨UInt32.ofNat start, UInt32.ofNat (blocksOf size)⟩

/-- The inodes after some of the files. -/
def imageInode (count : Nat) (files : List InputFile) : Nat → Option Dinode
  | 0 => some (inodefileDinode count)
  | 1 => some (rootDinode count (files.length + 3))
  | 2 => some consoleDinode
  | index + 3 => ((placeFiles (dataStart count) files)[index]?).map fun placed =>
    fileDinode placed.1 placed.2.contents.length

/-- The inode numbers and names in the root directory after some of the files. -/
def imageNames (files : List InputFile) : List (UInt32 × List UInt8) :=
  [(1, cstring "."), (1, cstring ".."), (2, cstring "console")] ++
    files.mapIdx fun index file => (UInt32.ofNat (index + 3), file.storedName)

/-- The entries of the root directory after some of the files. -/
def imageEntries (files : List InputFile) : List Dirent :=
  (imageNames files).map fun named => mkDirent named.1 named.2

/-- The bytes of the root directory. -/
def imageDirectory (files : List InputFile) : List UInt8 :=
  (imageEntries files).flatMap Dirent.encode

/-- The contents of the files with their addresses. -/
def imageData (count : Nat) (files : List InputFile) : List (Nat × List UInt8) :=
  (placeFiles (dataStart count) files).map fun placed => (placed.1 * bsize, placed.2.contents)

theorem imageNames_length (files : List InputFile) :
    (imageNames files).length = files.length + 3 := by
  grind [imageNames]

theorem imageEntries_length (files : List InputFile) :
    (imageEntries files).length = files.length + 3 := by
  rw [imageEntries, List.length_map, imageNames_length]

theorem imageDirectory_length (files : List InputFile) :
    (imageDirectory files).length = (files.length + 3) * direntSize := by
  rw [imageDirectory, List.length_flatMap, List.map_congr_left (g := fun _ => direntSize)
    fun entry _ => entry.encode_length, List.map_const', List.sum_replicate, smul_eq_mul,
    imageEntries_length]

theorem imageDirectory_concat (files : List InputFile) (file : InputFile) :
    imageDirectory (files ++ [file]) = imageDirectory files ++
      (mkDirent (UInt32.ofNat (files.length + 3)) file.storedName).encode := by
  grind [imageDirectory, imageEntries, imageNames]

theorem imageData_concat (count : Nat) (files : List InputFile) (file : InputFile) :
    imageData count (files ++ [file]) =
      imageData count files ++ [(endBlock (dataStart count) files * bsize, file.contents)] := by
  rw [imageData, placeFiles_concat, List.map_append]
  rfl

/-- The data of the files stands behind the directory and before the next free block. -/
theorem imageData_bounds {files : List InputFile} {piece : Nat × List UInt8}
    (member : piece ∈ imageData count files) :
    dataStart count * bsize ≤ piece.1 ∧
      piece.1 + piece.2.length ≤ endBlock (dataStart count) files * bsize := by
  obtain ⟨placed, isPlaced, rfl⟩ := List.mem_map.mp member
  obtain ⟨above, below⟩ := placeFiles_bounds isPlaced
  refine ⟨Nat.mul_le_mul_right bsize above, ?_⟩
  calc placed.1 * bsize + placed.2.contents.length
      ≤ placed.1 * bsize + placed.2.blocks * bsize := Nat.add_le_add_left (le_blocksOf _) _
    _ = (placed.1 + placed.2.blocks) * bsize := (Nat.add_mul _ _ _).symm
    _ ≤ endBlock (dataStart count) files * bsize := Nat.mul_le_mul_right bsize below

/-! ### Numbers on the disk -/

theorem toNat_ofNat_of_le (inRange : number ≤ imageBytes) :
    (UInt32.ofNat number).toNat = number := by
  grind [UInt32.toNat_ofNat', imageBytes]

theorem toNat_ofNat_block (inRange : number ≤ fssize) :
    (UInt32.ofNat number).toNat = number :=
  toNat_ofNat_of_le (inRange.trans (Nat.le_mul_of_pos_right fssize (by decide)))

theorem toNat_ofNat_inode (inRange : number ≤ maxInodes) :
    (UInt32.ofNat number).toNat = number :=
  toNat_ofNat_of_le (inRange.trans (by decide))

theorem directory_fits (fits : dataStart count ≤ fssize) :
    rootStart count * bsize + count * direntSize ≤ imageBytes :=
  (directory_le count).trans (Nat.mul_le_mul_right bsize fits)

section Root

variable {count entries : Nat} (few : count ≤ maxInodes) (room : entries ≤ count)
include few room

theorem rootDinode_size : (rootDinode count entries).size.toNat = entries * direntSize := by
  apply toNat_ofNat_of_le
  exact (Nat.mul_le_mul_right direntSize (room.trans few)).trans (by decide)

theorem rootDinode_endAddress :
    (rootDinode count entries).endAddress = rootStart count * bsize + entries * direntSize := by
  rw [Dinode.endAddress, rootDinode_size few room]
  congr 2
  exact toNat_ofNat_block (rootStart_le few)

theorem rootDinode_grow :
    (rootDinode count entries).grow direntSize = rootDinode count (entries + 1) := by
  rw [Dinode.grow, rootDinode_size few room, ← Nat.succ_mul]
  rfl

end Root

/-! ### The steps of `mkfs` -/

theorem ialloc_eq (full : st.image.length = imageBytes) (inRange : st.freeinode.toNat < maxInodes)
    (type : UInt16) :
    ialloc st type = .ok (st.freeinode, { st with
      image := st.image.store (inodeAddress st.freeinode.toNat) (Dinode.fresh type).encode
      freeinode := st.freeinode + 1 }) := by
  rw [ialloc, winode_eq full inRange]
  rfl

section Steps

variable {image : Image} {count : Nat} {inodes : Nat → Option Dinode} {directory : List UInt8}
  {data : List (Nat × List UInt8)}

section

variable (building : image.Building count inodes directory data)
include building

theorem Image.Building.weaken {fewer : Nat → Option Dinode}
    (kept : ∀ inum din, fewer inum = some din → inodes inum = some din) :
    image.Building count fewer directory data :=
  ⟨⟨building.length, building.super, fun inum din isStored => building.inode inum din
    (kept inum din isStored), building.root, building.room, building.data⟩, building.unmapped⟩

section

variable (few : count ≤ maxInodes)
include few

theorem Image.Building.rinode {din : Dinode} (isStored : inodes inum.toNat = some din) :
    rinode image inum = .ok din := by
  grind [Image.Holding, Image.Building, rinode_eq]

theorem Image.Building.winode (inRange : inum.toNat < count) (din : Dinode) :
    ∃ after, winode image inum din = .ok after ∧
      after.Building count (Function.update inodes inum.toNat (some din)) directory data :=
  ⟨_, winode_eq building.length (inRange.trans_le few) din, building.store inRange din⟩

/-- A new entry of the root directory. -/
theorem Image.Building.addEntry (entries : Nat) (room : entries < count)
    (fits : rootStart count * bsize + (entries + 1) * direntSize ≤ imageBytes)
    (length : directory.length = entries * direntSize)
    (isRoot : inodes rootino.toNat = some (rootDinode count entries)) (entry : Dirent) :
    ∃ after, iappend image rootino entry.encode = .ok after ∧
      after.Building count
        (Function.update inodes rootino.toNat (some (rootDinode count (entries + 1))))
        (directory ++ entry.encode) data := by
  have endAddress := rootDinode_endAddress few room.le
  obtain ⟨inRange, has⟩ := building.inode rootino.toNat _ isRoot
  have scaled := Nat.mul_le_mul_right direntSize (Nat.succ_le_of_lt room)
  rw [Nat.succ_mul] at scaled
  have behind :
      inodeAddress rootino.toNat + dinodeSize ≤ (rootDinode count entries).endAddress := by
    rw [endAddress]
    exact (inodeAddress_le inRange).trans (Nat.le_add_right _ _)
  have entryFits : (rootDinode count entries).endAddress + entry.encode.length ≤ imageBytes := by
    rwa [endAddress, entry.encode_length, Nat.add_assoc, ← Nat.succ_mul]
  obtain ⟨after, appended, isAppended⟩ :=
    iappend_of_fits building.length (inRange.trans_le few) has behind entryFits
  refine ⟨after, appended, ?_⟩
  have grown := building.appendDirectory inRange isAppended (by rw [endAddress, length])
    (by rw [entry.encode_length, length]; exact scaled)
  rw [entry.encode_length, rootDinode_grow few room.le] at grown
  exact grown

/-- An entry that does not fit on the disk. -/
theorem Image.Building.addEntry_of_full (entries : Nat) (room : entries < count)
    (full : imageBytes < rootStart count * bsize + (entries + 1) * direntSize)
    (isRoot : inodes rootino.toNat = some (rootDinode count entries)) (entry : Dirent) :
    iappend image rootino entry.encode = .error .read := by
  have endAddress := rootDinode_endAddress few room.le
  obtain ⟨inRange, has⟩ := building.inode rootino.toNat _ isRoot
  have start := Nat.mul_le_mul_right bsize (rootStart_le few)
  have scaled := Nat.mul_le_mul_right direntSize (room.le.trans few)
  apply iappend_of_full building.length (inRange.trans_le few) has
  · grind
  · exact List.ne_nil_of_length_pos (by rw [entry.encode_length]; decide)
  · rwa [endAddress, entry.encode_length, Nat.add_assoc, ← Nat.succ_mul]

end

end

/-- The data of a file: with the blocks it takes it ends on the disk. -/
theorem blocks_le {start size : Nat}
    (fits : start * bsize + size ≤ imageBytes) : start + blocksOf size ≤ fssize := by
  grind [blocksOf, imageBytes]

theorem fileDinode_endAddress {start : Nat} (begun : start * bsize < 2 ^ 32) :
    (fileDinode start 0).endAddress = start * bsize := by
  have toNat : (UInt32.ofNat start).toNat = start := by grind [UInt32.toNat_ofNat']
  show (UInt32.ofNat start).toNat * bsize + 0 = start * bsize
  rw [toNat, Nat.add_zero]

/-- The inode of a file before its contents are copied. -/
theorem fileDinode_start (start : Nat) :
    (Dinode.fresh tFile).setFirst ⟨UInt32.ofNat start, (Dinode.fresh tFile).data.head.nblocks⟩ =
      fileDinode start 0 := by
  rfl

/-- The inode of a file whose contents are copied but not yet counted in blocks. -/
theorem fileDinode_grow (start size : Nat) :
    (fileDinode start 0).grow size = { fileDinode start 0 with size := UInt32.ofNat size } := by
  rw [Dinode.grow, show (fileDinode start 0).size.toNat = 0 from rfl, Nat.zero_add]

theorem InputFile.reads_eq_nil (empty : file.contents = []) :
    file.reads = [] := by
  cases reads : file.reads with
  | nil => rfl
  | cons chunk chunks =>
    rw [InputFile.contents, reads, List.flatten_cons, List.append_eq_nil_iff] at empty
    have sized := (file.sized chunk (reads ▸ List.mem_cons_self)).1
    rw [empty.1] at sized
    cases sized

/-- What copying the contents of a file leaves. A file without contents may stand behind the end of
the disk. -/
theorem copyLoop_of_fits (few : count ≤ maxInodes)
    (building : image.Building count inodes directory data) {start : Nat}
    (isStarted : inodes inum.toNat = some (fileDinode start 0)) (file : InputFile)
    (begun : start * bsize < 2 ^ 32) (behind : dataStart count ≤ start)
    (last : ∀ piece ∈ data, piece.1 + piece.2.length ≤ start * bsize)
    (fits : file.contents = [] ∨ start * bsize + file.contents.length ≤ imageBytes) :
    ∃ filled, file.reads.foldlM (fun image chunk => iappend image inum chunk) image = .ok filled ∧
      filled.Building count (Function.update inodes inum.toNat
        (some ((fileDinode start 0).grow file.contents.length))) directory
        (data ++ [(start * bsize, file.contents)]) := by
  obtain ⟨inRange, has⟩ := building.inode inum.toNat _ isStarted
  have endAddress := fileDinode_endAddress begun
  have dataBehind := Nat.mul_le_mul_right bsize behind
  have inodeBehind : inodeAddress inum.toNat + dinodeSize ≤ (fileDinode start 0).endAddress := by
    rw [endAddress]
    exact ((inodeAddress_le inRange).trans (Nat.le_of_add_right_le (directory_le count))).trans
      dataBehind
  have copied : ∃ filled,
      file.reads.foldlM (fun image chunk => iappend image inum chunk) image = .ok filled ∧
        image.Appended filled inum.toNat (fileDinode start 0) file.contents := by
    rcases fits with empty | fits
    · rw [InputFile.reads_eq_nil empty, empty]
      exact ⟨image, rfl, .refl has⟩
    · exact appendAll_of_fits (inRange.trans_le few) file.reads building.length has inodeBehind
        (by rw [endAddress]; exact fits)
  obtain ⟨filled, copied, appended⟩ := copied
  have built := building.appendData inRange appended (by rw [endAddress]; exact dataBehind)
    (by rw [endAddress]; exact last)
  rw [endAddress] at built
  exact ⟨filled, copied, built⟩

/-- Copying the contents of a file that fits. -/
theorem copyFile_of_fits (st : Mkfs) (few : count ≤ maxInodes)
    (building : st.image.Building count inodes directory data) {start : Nat}
    (isStarted : inodes inum.toNat = some (fileDinode start 0)) (file : InputFile)
    (begun : start * bsize < 2 ^ 32) (behind : dataStart count ≤ start)
    (last : ∀ piece ∈ data, piece.1 + piece.2.length ≤ start * bsize)
    (fits : file.contents = [] ∨ start * bsize + file.contents.length ≤ imageBytes) :
    ∃ after, copyFile st inum file = .ok { st with
        image := after, freeblock := st.freeblock + UInt32.ofNat file.blocks } ∧
      after.Building count (Function.update inodes inum.toNat
        (some (fileDinode start file.contents.length))) directory
        (data ++ [(start * bsize, file.contents)]) := by
  obtain ⟨inRange, -⟩ := building.inode inum.toNat _ isStarted
  have size : file.contents.length ≤ imageBytes := by grind
  obtain ⟨filled, copied, built⟩ :=
    copyLoop_of_fits few building isStarted file begun behind last fits
  rw [fileDinode_grow] at built
  obtain ⟨after, written, stored⟩ := built.winode few inRange
    (fileDinode start file.contents.length)
  rw [Function.update_idem] at stored
  refine ⟨after, ?_, stored⟩
  rw [copyFile, copied]
  show Except.bind (rinode filled inum) _ = _
  rw [built.rinode few (Function.update_self _ _ _)]
  show Except.bind (winode filled inum (Dinode.setFirst _ ⟨UInt32.ofNat start,
    UInt32.ofNat (blocksOf (UInt32.ofNat file.contents.length).toNat)⟩)) (fun image => .ok { st with
      image := image
      freeblock := st.freeblock +
        UInt32.ofNat (blocksOf (UInt32.ofNat file.contents.length).toNat) }) = _
  rw [toNat_ofNat_of_le size]
  show Except.bind (winode filled inum (fileDinode start file.contents.length)) _ = _
  rw [written]
  rfl

/-- Copying the contents of a file that does not fit. -/
theorem copyFile_of_full (st : Mkfs) (few : count ≤ maxInodes)
    (building : st.image.Building count inodes directory data) {start : Nat}
    (isStarted : inodes inum.toNat = some (fileDinode start 0)) (file : InputFile)
    (begun : start * bsize < 2 ^ 32) (behind : dataStart count ≤ start)
    (notEmpty : file.contents ≠ []) (tooLong : imageBytes < start * bsize + file.contents.length) :
    copyFile st inum file = .error .read := by
  obtain ⟨inRange, has⟩ := building.inode inum.toNat _ isStarted
  have endAddress := fileDinode_endAddress begun
  have inodeBehind : inodeAddress inum.toNat + dinodeSize ≤ (fileDinode start 0).endAddress := by
    rw [endAddress]
    exact ((inodeAddress_le inRange).trans (Nat.le_of_add_right_le (directory_le count))).trans
      (Nat.mul_le_mul_right bsize behind)
  have readsNotEmpty : file.reads ≠ [] := by grind [InputFile.contents]
  have failed := appendAll_of_full (inRange.trans_le few) file.reads building.length has inodeBehind
    (by rw [endAddress]; exact begun) readsNotEmpty
      (fun chunk member => (file.sized chunk member).1)
    (by rw [endAddress]; exact tooLong)
  rw [copyFile, failed]
  rfl

end Steps

/-! ### The loop over the files -/

/-- The image and the counters after some of the files. The directory entries of the files are on
the disk, but the blocks set aside for all entries may reach beyond its end, and then no file so far
has contents. -/
structure Mkfs.Laid (st : Mkfs) (count : Nat) (files : List InputFile) : Prop where
  building : st.image.Building count (imageInode count files) (imageDirectory files)
    (imageData count files)
  freeinode : st.freeinode = UInt32.ofNat (files.length + 3)
  freeblock : st.freeblock = UInt32.ofNat (endBlock (dataStart count) files)
  listed : rootStart count * bsize + (files.length + 3) * direntSize ≤ imageBytes
  fits : endBlock (dataStart count) files ≤ max fssize (dataStart count)

/-- The assertions about an argument hold. -/
def InputFile.Accepted (file : InputFile) : Prop :=
  strncmp file.path (cstring "out/user/") 9 = 0 ∧ '/'.toUInt8 ∉ file.name

theorem accepted_of_openFile {opened : UInt32 × Mkfs} (isOpened : openFile st file = .ok opened) :
    file.Accepted := by
  by_contra refused
  rw [openFile] at isOpened
  by_cases prefixed : strncmp file.path (cstring "out/user/") 9 = 0
  · have slash : '/'.toUInt8 ∈ file.name := not_not.mp fun free => refused ⟨prefixed, free⟩
    rw [if_neg (not_not.mpr prefixed), if_pos slash] at isOpened
    cases isOpened
  · rw [if_pos prefixed] at isOpened
    cases isOpened

theorem imageInode_concat_self (count : Nat) (files : List InputFile) (file : InputFile) :
    imageInode count (files ++ [file]) (files.length + 3) =
      some (fileDinode (endBlock (dataStart count) files) file.contents.length) := by
  grind [imageInode, placeFiles_concat, placeFiles_length]

theorem imageInode_concat_of_ne (count : Nat) (files : List InputFile) (file : InputFile)
    {inum : Nat} (notRoot : inum ≠ 1) (notNew : inum ≠ files.length + 3) :
    imageInode count (files ++ [file]) inum = imageInode count files inum := by
  match inum with
  | 0 => rfl
  | 1 => exact absurd rfl notRoot
  | 2 => rfl
  | index + 3 => grind [placeFiles_length, imageInode, placeFiles_concat]

theorem endBlock_ge (start : Nat) (files : List InputFile) : start ≤ endBlock start files :=
  Nat.le_add_right _ _

section Files

variable {st : Mkfs} {count : Nat} {files : List InputFile} {file : InputFile}

/-- The inode of a file, before its directory entry. -/
theorem Mkfs.Laid.ialloc (laid : st.Laid count files) (few : count ≤ maxInodes)
    (room : files.length + 3 < count) :
    ialloc st tFile = .ok (UInt32.ofNat (files.length + 3), { st with
      image := st.image.store (inodeAddress (files.length + 3)) (Dinode.fresh tFile).encode
      freeinode := st.freeinode + 1 }) := by
  have toNat := toNat_ofNat_inode (room.le.trans few)
  have inRange : st.freeinode.toNat < maxInodes := by grind [Mkfs.Laid]
  rw [ialloc_eq laid.building.length inRange, laid.freeinode, toNat]

/-- The inode, the directory entry and the first block of a file. -/
theorem Mkfs.Laid.openFile (laid : st.Laid count files) (few : count ≤ maxInodes)
    (room : files.length + 3 < count) (accepted : file.Accepted)
    (entryFits : rootStart count * bsize + (files.length + 4) * direntSize ≤ imageBytes) :
    ∃ image, openFile st file = .ok (UInt32.ofNat (files.length + 3), { st with
        image := image, freeinode := st.freeinode + 1 }) ∧
      image.Building count (Function.update (imageInode count (files ++ [file])) (files.length + 3)
        (some (fileDinode (endBlock (dataStart count) files) 0)))
        (imageDirectory (files ++ [file])) (imageData count files) := by
  have made := laid.ialloc few room
  set inum := UInt32.ofNat (files.length + 3) with isInum
  have toNat : inum.toNat = files.length + 3 := toNat_ofNat_inode (room.le.trans few)
  have notRoot : rootino.toNat ≠ inum.toNat := by grind
  have inRange : inum.toNat < count := by omega
  have allocated := laid.building.store inRange (.fresh tFile)
  obtain ⟨withEntry, appended, entered⟩ := allocated.addEntry few (files.length + 3) room
    entryFits (imageDirectory_length files) (by rw [Function.update_of_ne notRoot]; rfl)
    (mkDirent inum file.storedName)
  obtain ⟨image, written, started⟩ := entered.winode few inRange
    (fileDinode (endBlock (dataStart count) files) 0)
  refine ⟨image, ?_, ?_⟩
  · have read : rinode withEntry inum = .ok (.fresh tFile) :=
      entered.rinode few (by rw [Function.update_of_ne notRoot.symm, Function.update_self])
    rw [← fileDinode_start, ← laid.freeblock] at written
    rw [← toNat] at made
    simp only [Xk.openFile, accepted.1, accepted.2, made, appended, read, written, ok_bind]
    rfl
  · rw [imageDirectory_concat, ← isInum, ← toNat]
    refine started.weaken fun other din isStored => ?_
    by_cases isNew : other = inum.toNat
    · grind
    · rw [Function.update_of_ne isNew] at isStored ⊢
      by_cases isRoot : other = rootino.toNat
      · rw [isRoot] at isStored ⊢
        rw [Function.update_self, ← isStored]
        show _ = some (rootDinode count ((files ++ [file]).length + 3))
        rw [List.length_append]
        rfl
      · grind [imageInode_concat_of_ne]

/-- There is no room for the directory entry of a file. -/
theorem Mkfs.Laid.openFile_of_full (laid : st.Laid count files) (few : count ≤ maxInodes)
    (room : files.length + 3 < count) (accepted : file.Accepted)
    (full : imageBytes < rootStart count * bsize + (files.length + 4) * direntSize) :
    Xk.openFile st file = .error .read := by
  have made := laid.ialloc few room
  have notRoot : rootino.toNat ≠ files.length + 3 :=
    (Nat.lt_add_left files.length (by decide)).ne
  have failed := (laid.building.store room (.fresh tFile)).addEntry_of_full few (files.length + 3)
    room full (by rw [Function.update_of_ne notRoot]; rfl)
    (mkDirent (UInt32.ofNat (files.length + 3)) file.storedName)
  simp only [Xk.openFile, accepted.1, accepted.2, made, failed, ok_bind]
  rfl

theorem dataEnd_le {piece : Nat × List UInt8} (member : piece ∈ imageData count files) :
    piece.1 + piece.2.length ≤ endBlock (dataStart count) files * bsize :=
  (imageData_bounds member).2

theorem Mkfs.Laid.endBlock_lt (laid : st.Laid count files) (few : count ≤ maxInodes) :
    endBlock (dataStart count) files < 2 * fssize :=
  laid.fits.trans_lt (max_lt (by decide) (dataStart_lt few))

theorem Mkfs.Laid.begun (laid : st.Laid count files) (few : count ≤ maxInodes) :
    endBlock (dataStart count) files * bsize < 2 ^ 32 :=
  (Nat.mul_le_mul_right bsize (laid.endBlock_lt few).le).trans_lt (by decide)

/-- The directory entry and the contents of the next file fit on the disk. -/
structure FileFits (count : Nat) (files : List InputFile) (file : InputFile) : Prop where
  entry : rootStart count * bsize + (files.length + 4) * direntSize ≤ imageBytes
  contents : file.contents = [] ∨
    endBlock (dataStart count) files * bsize + file.contents.length ≤ imageBytes

/-- An accepted file that fits is added. -/
theorem Mkfs.Laid.addFile_of_fits (laid : st.Laid count files) (few : count ≤ maxInodes)
    (room : files.length + 3 < count) (accepted : file.Accepted)
    (fits : FileFits count files file) :
    ∃ next, addFile st file = .ok next ∧ next.Laid count (files ++ [file]) := by
  obtain ⟨image, opened, building⟩ := laid.openFile few room accepted fits.entry
  have toNat : (UInt32.ofNat (files.length + 3)).toNat = files.length + 3 :=
    toNat_ofNat_inode (room.le.trans few)
  rw [← toNat] at building
  obtain ⟨after, copied, built⟩ := copyFile_of_fits { st with
    image := image, freeinode := st.freeinode + 1 } few building (Function.update_self _ _ _) file
    (laid.begun few) (endBlock_ge _ _) (fun _ => dataEnd_le) fits.contents
  refine ⟨_, by rw [addFile, opened, ok_bind]; exact copied, ?_, ?_, ?_, ?_, ?_⟩
  · rw [imageData_concat]
    refine built.weaken fun inum din isStored => ?_
    rw [Function.update_idem]
    by_cases isNew : inum = files.length + 3
    · grind [imageInode_concat_self]
    · grind
  · show st.freeinode + 1 = _
    rw [laid.freeinode, List.length_append, Nat.add_right_comm]
    exact (UInt32.ofNat_add (files.length + 3) 1).symm
  · grind [Mkfs.Laid, endBlock_concat, UInt32.ofNat_add]
  · rw [List.length_append]
    exact fits.entry
  · rw [endBlock_concat]
    rcases fits.contents with empty | inImage
    · rw [InputFile.blocks, empty]
      exact laid.fits
    · exact (blocks_le inImage).trans (le_max_left _ _)

/-- A file is only added when the assertions about it hold and it fits. -/
theorem Mkfs.Laid.addFile_eq_ok (laid : st.Laid count files) (few : count ≤ maxInodes)
    (room : files.length + 3 < count) {next : Mkfs} (added : addFile st file = .ok next) :
    file.Accepted ∧ FileFits count files file := by
  have accepted : file.Accepted := by
    obtain ⟨opened, isOpened, _⟩ := ok_of_bind added
    exact accepted_of_openFile isOpened
  have entry : rootStart count * bsize + (files.length + 4) * direntSize ≤ imageBytes := by
    by_contra noRoom
    have failed := laid.openFile_of_full few room accepted (Nat.lt_of_not_le noRoom)
    rw [addFile, failed] at added
    cases added
  refine ⟨accepted, entry, ?_⟩
  by_contra noRoom
  obtain ⟨notEmpty, tooLong⟩ := not_or.mp noRoom
  obtain ⟨image, opened, building⟩ := laid.openFile few room accepted entry
  have toNat : (UInt32.ofNat (files.length + 3)).toNat = files.length + 3 :=
    toNat_ofNat_inode (room.le.trans few)
  rw [← toNat] at building
  rw [addFile, opened, ok_bind] at added
  have failed := copyFile_of_full { st with image := image, freeinode := st.freeinode + 1 } few
    building (Function.update_self _ _ _) file (laid.begun few) (endBlock_ge _ _) notEmpty
    (Nat.lt_of_not_le tooLong)
  cases failed.symm.trans added

/-- Each of the files fits when all of them do. -/
theorem fileFits_of_le {more : List InputFile} (room : files.length + 3 < count)
    (fits : endBlock (dataStart count) (files ++ file :: more) ≤ fssize) :
    FileFits count files file := by
  have start : dataStart count ≤ fssize := (endBlock_ge _ _).trans fits
  have upToFile : endBlock (dataStart count) (files ++ [file]) ≤ fssize := by grind [endBlock]
  constructor
  · refine le_trans (Nat.add_le_add_left ?_ _) (directory_fits start)
    exact Nat.mul_le_mul_right direntSize room
  · have scaled := Nat.mul_le_mul_right bsize upToFile
    rw [endBlock_concat, Nat.add_mul] at scaled
    exact Or.inr ((Nat.add_le_add_left (le_blocksOf _) _).trans scaled)

/-- The loop over the arguments. -/
theorem Mkfs.Laid.addFiles_of_fits (few : count ≤ maxInodes) (more : List InputFile) :
    ∀ {st : Mkfs} {files : List InputFile}, st.Laid count files →
      files.length + more.length + 3 ≤ count → (∀ file ∈ more, file.Accepted) →
      endBlock (dataStart count) (files ++ more) ≤ fssize →
      ∃ next, more.foldlM addFile st = .ok next ∧ next.Laid count (files ++ more) := by
  induction more with
  | nil =>
    intro st files laid _ _ _
    exact ⟨st, rfl, by rwa [List.append_nil]⟩
  | cons file more inductionHypothesis =>
    grind [addFile_of_fits, List.mem_cons_self, fileFits_of_le, Outcome.ok_bind]

theorem Mkfs.Laid.addFiles_eq_ok (few : count ≤ maxInodes) (more : List InputFile) :
    ∀ {st : Mkfs} {files : List InputFile}, st.Laid count files →
      files.length + more.length + 3 ≤ count → ∀ {next : Mkfs},
      more.foldlM addFile st = .ok next → next.Laid count (files ++ more) := by
  induction more with
  | nil =>
    intro st files laid _ next same
    rw [List.foldlM_nil] at same
    obtain rfl := Except.ok.inj same
    rwa [List.append_nil]
  | cons file more inductionHypothesis =>
    intro st files laid room next added
    rw [List.length_cons] at room
    rw [List.foldlM_cons] at added
    obtain ⟨between, first, added⟩ := ok_of_bind added
    obtain ⟨accepted, fits⟩ := laid.addFile_eq_ok few (by omega) first
    obtain ⟨same, isSame, laidBetween⟩ := laid.addFile_of_fits few (by omega) accepted fits
    obtain rfl := Except.ok.inj (isSame.symm.trans first)
    rw [List.append_cons]
    exact inductionHypothesis laidBetween
      (by rw [List.length_append, List.length_singleton]; omega) added

end Files

/-! ### Before the loop -/

theorem zeroed_length (count : Nat) (inRange : count ≤ fssize) :
    ((List.range count).foldl (fun image i => wsect image (UInt32.ofNat i)
      (List.replicate bsize 0)) ⟨0, fun _ => 0⟩).length = count * bsize := by
  induction count with
  | zero => rfl
  | succ count inductionHypothesis =>
    grind [toNat_ofNat_block, List.range_succ, wsect, sectorOffset_of_le]

theorem zeroed_bytes (count : Nat) :
    ((List.range count).foldl (fun image i => wsect image (UInt32.ofNat i)
      (List.replicate bsize 0)) ⟨0, fun _ => 0⟩).bytes = fun _ => 0 := by
  induction count with
  | zero => rfl
  | succ count inductionHypothesis => grind [List.range_succ, wsect, Bytes.write_replicate]

theorem superImage_eq : superImage = ⟨imageBytes,
    Bytes.write (fun _ => 0) bsize (patch (List.replicate bsize 0) 0 mkfsSb.encode)⟩ := by
  have offset : sectorOffset 1 = bsize := rfl
  have longer : max (fssize * bsize) (bsize + bsize) = imageBytes := max_eq_left (by decide)
  rw [superImage, wsect, zeroed_length fssize le_rfl, zeroed_bytes, offset, longer]

/-- The image before the first inode. -/
theorem superImage_building (count : Nat) :
    superImage.Building count (fun _ => none) [] [] := by
  have length : (patch (List.replicate bsize 0) 0 mkfsSb.encode).length = bsize := by
    grind [patch, Superblock.encode_length]
  rw [superImage_eq]
  refine ⟨⟨rfl, ?_, fun _ _ isStored => absurd isStored (Option.some_ne_none _).symm,
    Bytes.holds_nil _ _, Nat.zero_le _, fun _ member => absurd member List.not_mem_nil⟩,
    fun address above _ => ?_⟩
  · rfl
  · grind [Bytes.write_of_outside]

theorem imageDirectory_nil : imageDirectory [] =
    (([] ++ (mkDirent 1 (cstring ".")).encode) ++ (mkDirent 1 (cstring "..")).encode) ++
      (mkDirent 2 (cstring "console")).encode := by
  simp [imageDirectory, imageEntries, imageNames]

/-- The inode file, the root directory with its first entries, and the console: there must be a
block for the directory. -/
theorem setup_cases (few : count ≤ maxInodes) (room : 3 ≤ count) :
    (rootStart count < fssize → ∃ st, setup count = .ok st ∧ st.Laid count []) ∧
      (rootStart count = fssize → setup count = .error .read) := by
  have super := superImage_building count
  have inodefileInRange : inodefileino.toNat < count := Nat.lt_of_lt_of_le (by decide) room
  have rootInRange : rootino.toNat < count := Nat.lt_of_lt_of_le (by decide) room
  have consoleInRange : (2 : UInt32).toNat < count := Nat.lt_of_lt_of_le (by decide) room
  -- the inode file
  obtain ⟨first, allocated, building₁⟩ := super.winode few inodefileInRange (.fresh tFile)
  have readInodefile : rinode first inodefileino = .ok (.fresh tFile) :=
    building₁.rinode few (Function.update_self _ _ _)
  obtain ⟨second, written, building₂⟩ := building₁.winode few inodefileInRange
    (inodefileDinode count)
  rw [Function.update_idem] at building₂
  -- the root directory
  obtain ⟨third, allocatedRoot, building₃⟩ := building₂.winode few rootInRange (.fresh tDir)
  have readRoot : rinode third rootino = .ok (.fresh tDir) :=
    building₃.rinode few (Function.update_self _ _ _)
  obtain ⟨fourth, writtenRoot, building₄⟩ := building₃.winode few rootInRange (rootDinode count 0)
  rw [Function.update_idem] at building₄
  have rootBlock : UInt32.ofNat nmeta + UInt32.ofNat (inodefileBlocks count) =
      UInt32.ofNat (rootStart count) := by
    rw [rootStart]
    exact (UInt32.ofNat_add _ _).symm
  have dataBlock : UInt32.ofNat (rootStart count) + UInt32.ofNat (blocksOf (count * direntSize)) =
      UInt32.ofNat (dataStart count) := by
    rw [dataStart, UInt32.ofNat_add]
  have inodefile : ({ (Dinode.fresh tFile).setFirst ⟨mkfsSb.inodestart,
      UInt32.ofNat (inodefileBlocks count)⟩ with
      size := UInt32.ofNat (count * dinodeSize) } : Dinode) = inodefileDinode count := rfl
  have root : (Dinode.fresh tDir).setFirst ⟨UInt32.ofNat (rootStart count),
      UInt32.ofNat (blocksOf (count * direntSize))⟩ = rootDinode count 0 := rfl
  have one : (0 : UInt32) + 1 = rootino := rfl
  refine ⟨fun hasBlock => ?_, fun atEnd => ?_⟩
  · have blockFits : rootStart count * bsize + bsize ≤ imageBytes := by
      rw [← Nat.succ_mul]
      exact Nat.mul_le_mul_right bsize hasBlock
    have entryFits (entries : Nat) (first : entries < 3) :
        rootStart count * bsize + (entries + 1) * direntSize ≤ imageBytes :=
      le_trans (Nat.add_le_add_left ((Nat.mul_le_mul_right direntSize first).trans (by decide)) _)
        blockFits
    obtain ⟨fifth, appendedDot, building₅⟩ := building₄.addEntry few 0 (by omega)
      (entryFits 0 (by decide)) rfl (Function.update_self _ _ _) (mkDirent 1 (cstring "."))
    rw [Function.update_idem] at building₅
    obtain ⟨sixth, appendedDots, building₆⟩ := building₅.addEntry few 1 (by omega)
      (entryFits 1 (by decide)) rfl (Function.update_self _ _ _) (mkDirent 1 (cstring ".."))
    rw [Function.update_idem] at building₆
    -- the console
    obtain ⟨seventh, allocatedConsole, building₇⟩ :=
      building₆.winode few consoleInRange (.fresh tDev)
    have readConsole : rinode seventh 2 = .ok (.fresh tDev) :=
      building₇.rinode few (Function.update_self _ _ _)
    obtain ⟨eighth, writtenConsole, building₈⟩ :=
      building₇.winode few consoleInRange consoleDinode
    rw [Function.update_idem, Function.update_comm (by decide)] at building₈
    obtain ⟨ninth, appendedConsole, building₉⟩ := building₈.addEntry few 2 (by omega)
      (entryFits 2 (by decide)) rfl (Function.update_self _ _ _) (mkDirent 2 (cstring "console"))
    rw [Function.update_idem] at building₉
    refine ⟨⟨ninth, 3, UInt32.ofNat (dataStart count)⟩, ?_, ?_, rfl, ?_, ?_, ?_⟩
    · have two : rootino + 1 = 2 := rfl
      have three : (2 : UInt32) + 1 = 3 := rfl
      have console : ({ Dinode.fresh tDev with devid := 1 } : Dinode) = consoleDinode := rfl
      simp only [setup, Xk.ialloc, iallocblocks, allocated, readInodefile, inodefile, written,
        ok_bind, pure_bind, ne_eq, not_true_eq_false, if_false, one, allocatedRoot, readRoot,
        rootBlock, root, writtenRoot, appendedDot, appendedDots, two, allocatedConsole,
        readConsole, console, writtenConsole, appendedConsole, dataBlock, three]
      rfl
    · rw [imageDirectory_nil]
      refine building₉.weaken fun inum din isStored => ?_
      rcases inum with _ | _ | _ | index
      · exact isStored
      · exact isStored
      · exact isStored
      · cases isStored
    · rw [endBlock, List.map_nil, List.sum_nil, Nat.add_zero]
    · exact entryFits 2 (by decide)
    · grind [endBlock]
  · have failed := building₄.addEntry_of_full few 0 (by omega)
      (by rw [atEnd]; decide) (Function.update_self _ _ _) (mkDirent 1 (cstring "."))
    simp only [setup, Xk.ialloc, iallocblocks, allocated, readInodefile, inodefile, written,
      ok_bind, pure_bind, ne_eq, not_true_eq_false, if_false, one, allocatedRoot, readRoot,
      rootBlock, root, writtenRoot, failed]
    rfl

/-! ### After the loop -/

theorem bitmapBlock_length (count : Nat) : (bitmapBlock count).length = bsize := by
  rw [bitmapBlock]
  refine List.foldlRecOn (motive := fun (buf : List UInt8) => buf.length = bsize) _ _ ?_
    fun buf length i _ => ?_
  · exact List.length_replicate
  · rw [List.length_set, length]

theorem mapNext_le {nbuf remaining blocks size : Nat}
    (inMap : nbuf * size + remaining ≤ blocks * size) (more : nbuf < blocks) :
    (nbuf + 1) * size + (remaining - size) ≤ blocks * size := by
  have next := Nat.mul_le_mul_right size more
  rw [Nat.succ_mul] at next
  rw [Nat.succ_mul]
  omega

theorem mapSector_outside {nbuf address : Nat} (inMap : nbuf < nbitmap)
    (outside : address < 2 * bsize ∨ nmeta * bsize ≤ address) :
    address < (2 + nbuf) * bsize ∨ (2 + nbuf) * bsize + bsize ≤ address := by
  grind

/-- The place of a block of the bitmap. -/
theorem mapSector_offset {nbuf : UInt32} (mapBlock : nbuf.toNat < 25) :
    sectorOffset (mkfsSb.bmapstart + nbuf) = (2 + nbuf.toNat) * bsize := by
  have sector : (mkfsSb.bmapstart + nbuf).toNat = 2 + nbuf.toNat := by
    rw [UInt32.toNat_add]
    show (2 + nbuf.toNat) % 4294967296 = 2 + nbuf.toNat
    omega
  grind [sectorOffset_of_le]

/-- The bitmap is written between the super block and the inode file. -/
theorem ballocLoop_frame (turns : Nat) : ∀ (image : Image) (nbuf : UInt32) (remaining : Nat),
    image.length = imageBytes → nbuf.toNat * (bsize * 8) + remaining ≤ nbitmap * (bsize * 8) →
    (ballocLoop turns image nbuf remaining).length = imageBytes ∧
      ∀ address, address < 2 * bsize ∨ nmeta * bsize ≤ address →
        (ballocLoop turns image nbuf remaining).bytes address = image.bytes address := by
  induction turns with
  | zero => exact fun image _ _ full _ => ⟨full, fun _ _ => rfl⟩
  | succ turns inductionHypothesis =>
    intro image nbuf remaining full inMap
    rw [ballocLoop]
    split_ifs with more
    · have mapBlock : nbuf.toNat < 25 := by grind
      have next : (nbuf + 1).toNat = nbuf.toNat + 1 := by grind [UInt32.toNat_add]
      have offset := mapSector_offset mapBlock
      set written := wsect image (mkfsSb.bmapstart + nbuf)
        (bitmapBlock (min remaining (bsize * 8))) with isWritten
      have fullAfter : written.length = imageBytes := by
        rw [isWritten, wsect, offset, full]
        apply max_eq_left
        rw [← Nat.succ_mul]
        exact Nat.mul_le_mul_right bsize (by unfold fssize; omega)
      obtain ⟨length, others⟩ := inductionHypothesis written (nbuf + 1) (remaining - bsize * 8)
        fullAfter (by rw [next]; exact mapNext_le inMap mapBlock)
      refine ⟨length, fun address outside => (others address outside).trans ?_⟩
      rw [isWritten, wsect, offset]
      apply Bytes.write_of_outside
      rw [bitmapBlock_length]
      exact mapSector_outside mapBlock outside
    · exact ⟨full, fun _ _ => rfl⟩

theorem Image.Building.balloc {inodes : Nat → Option Dinode} {directory : List UInt8}
    {data : List (Nat × List UInt8)} (building : image.Building count inodes directory data)
    {used : Nat} (inRange : used ≤ fssize) :
    (balloc image used).Holding count inodes directory data := by
  have inMap : (0 : UInt32).toNat * (bsize * 8) + used ≤ nbitmap * (bsize * 8) := by grind
  obtain ⟨length, others⟩ := ballocLoop_frame used image 0 used building.length inMap
  have rootBehind := rootStart_ge count
  have dataBehind := Nat.le_of_add_right_le (directory_le count)
  refine ⟨length, ?_, fun inum din isStored => ?_, ?_, building.room, fun piece member => ?_⟩
  · apply building.super.congr
    intro address _ below
    refine others address (Or.inl (below.trans_le ?_))
    rw [Superblock.encode_length]
    decide
  · obtain ⟨inTable, has⟩ := building.inode inum din isStored
    refine ⟨inTable, has.congr fun address above _ => ?_⟩
    exact others address (Or.inr ((inodeAddress_ge inum).trans above))
  · apply building.root.congr
    intro address above _
    exact others address (Or.inr (rootBehind.trans above))
  · obtain ⟨behind, holds⟩ := building.data piece member
    refine ⟨behind, holds.congr fun address above _ => ?_⟩
    exact others address (Or.inr (rootBehind.trans (dataBehind.trans (behind.trans above))))

section

variable {files : List InputFile} (laid : st.Laid count files)
include laid

/-- The root directory has an entry for every inode, so that the blocks for its entries are on the
disk, and the files behind them are. -/
theorem Mkfs.Laid.endBlock_le (all : files.length + 3 = count) :
    endBlock (dataStart count) files ≤ fssize := by
  have listed := laid.listed
  rw [all] at listed
  have start : dataStart count ≤ fssize := by
    rw [dataStart]
    exact blocks_le listed
  exact laid.fits.trans (max_le le_rfl start)

theorem Mkfs.Laid.finish (few : count ≤ maxInodes) (all : files.length + 3 = count) :
    ∃ image, finish count st = .ok (balloc image st.freeblock.toNat) ∧
      image.Building count (imageInode count files) (imageDirectory files)
        (imageData count files) := by
  have isRoot : imageInode count files rootino.toNat = some (rootDinode count count) := by
    show some (rootDinode count (files.length + 3)) = _
    rw [all]
  obtain ⟨inRange, _⟩ := laid.building.inode rootino.toNat _ isRoot
  obtain ⟨image, written, building⟩ := laid.building.winode few inRange (rootDinode count count)
  rw [← isRoot, Function.update_eq_self] at building
  have read := laid.building.rinode few isRoot
  have size : ({ rootDinode count count with size := UInt32.ofNat (count * direntSize) } : Dinode) =
      rootDinode count count := rfl
  refine ⟨image, ?_, building⟩
  simp only [Xk.finish, read, ok_bind, size, written]
  rfl

theorem Mkfs.Laid.freeblock_toNat (all : files.length + 3 = count) :
    st.freeblock.toNat = endBlock (dataStart count) files := by
  rw [laid.freeblock, toNat_ofNat_block (laid.endBlock_le all)]

end

/-! ### The number of inodes -/

theorem rsect_eq_ok {sec : UInt32} {buf : List UInt8} (read : rsect image sec = .ok buf)
    (bytes : List UInt8) :
    (wsect image sec bytes).length = image.length := by
  unfold rsect at read
  split_ifs at read with inImage
  exact max_eq_left inImage

theorem winode_length {din : Dinode} (written : winode image inum din = .ok after) :
    after.length = image.length := by
  obtain ⟨buf, read, isAfter⟩ := ok_of_bind written
  obtain rfl := Except.ok.inj isAfter
  exact rsect_eq_ok read _

theorem appendLoop_length {startblkno : UInt32} {turns : Nat} {off : UInt32} {p : List UInt8}
    {after : Image × UInt32} (appended : appendLoop startblkno turns image off p = .ok after) :
    after.1.length = image.length := by
  induction turns generalizing image off p with
  | zero =>
    cases p with
    | nil =>
      obtain rfl := Except.ok.inj appended
      rfl
    | cons byte bytes => cases appended
  | succ turns inductionHypothesis =>
    cases p with
    | nil =>
      obtain rfl := Except.ok.inj appended
      rfl
    | cons byte bytes =>
      obtain ⟨buf, read, rest⟩ := ok_of_bind appended
      exact (inductionHypothesis rest).trans (rsect_eq_ok read _)

theorem iappend_length {p : List UInt8} (appended : iappend image inum p = .ok after) :
    after.length = image.length := by
  obtain ⟨din, _, appended⟩ := ok_of_bind appended
  obtain ⟨⟨between, off⟩, looped, written⟩ := ok_of_bind appended
  exact (winode_length written).trans (appendLoop_length looped)

theorem appendAll_length {chunks : List (List UInt8)}
    (appended : chunks.foldlM (fun image chunk => iappend image inum chunk) image = .ok after) :
    after.length = image.length := by
  induction chunks generalizing image with
  | nil =>
    obtain rfl := Except.ok.inj appended
    rfl
  | cons chunk chunks inductionHypothesis =>
    rw [List.foldlM_cons] at appended
    obtain ⟨between, first, rest⟩ := ok_of_bind appended
    exact (inductionHypothesis rest).trans (iappend_length first)

/-- The image keeps its length, and so many inodes have been allocated. -/
structure Mkfs.Counts (st : Mkfs) (inodes : Nat) : Prop where
  length : st.image.length = imageBytes
  freeinode : st.freeinode.toNat = inodes
  few : inodes ≤ maxInodes

theorem Mkfs.Counts.ialloc {next : Mkfs} (counts : st.Counts inodes) {type : UInt16}
    (allocated : ialloc st type = .ok (inum, next)) :
    next.Counts (inodes + 1) := by
  obtain ⟨image, written, isNext⟩ := ok_of_bind allocated
  obtain ⟨-, rfl⟩ := ok_pair isNext
  have room : inodes < maxInodes := by grind [Mkfs.Counts, winode_of_full]
  have wraps : inodes + 1 < 2 ^ 32 := Nat.lt_of_le_of_lt room (by decide)
  refine ⟨(winode_length written).trans counts.length, ?_, room⟩
  show (st.freeinode + 1).toNat = inodes + 1
  rw [UInt32.toNat_add, counts.freeinode]
  exact Nat.mod_eq_of_lt wraps

theorem Mkfs.Counts.openFile {next : Mkfs} (counts : st.Counts inodes)
    (opened : openFile st file = .ok (inum, next)) :
    next.Counts (inodes + 1) := by
  obtain ⟨prefixed, noSlash⟩ := accepted_of_openFile opened
  rw [Xk.openFile, if_neg (not_not.mpr prefixed), if_neg noSlash] at opened
  obtain ⟨⟨allocatedInum, between⟩, allocated, opened⟩ := ok_of_bind opened
  have countsBetween := counts.ialloc allocated
  obtain ⟨entered, appended, opened⟩ := ok_of_bind opened
  obtain ⟨din, _, opened⟩ := ok_of_bind opened
  obtain ⟨image, written, isNext⟩ := ok_of_bind opened
  obtain ⟨-, rfl⟩ := ok_pair isNext
  exact ⟨((winode_length written).trans (iappend_length appended)).trans countsBetween.length,
    countsBetween.freeinode, countsBetween.few⟩

theorem Mkfs.Counts.copyFile {next : Mkfs} (counts : st.Counts inodes)
    (copied : copyFile st inum file = .ok next) :
    next.Counts inodes := by
  obtain ⟨filled, looped, copied⟩ := ok_of_bind copied
  obtain ⟨din, _, copied⟩ := ok_of_bind copied
  obtain ⟨image, written, isNext⟩ := ok_of_bind copied
  obtain rfl := Except.ok.inj isNext
  exact ⟨((winode_length written).trans (appendAll_length looped)).trans counts.length,
    counts.freeinode, counts.few⟩

theorem Mkfs.Counts.addFiles {files : List InputFile} {next : Mkfs} (counts : st.Counts inodes)
    (added : files.foldlM addFile st = .ok next) :
    next.Counts (inodes + files.length) := by
  induction files generalizing st inodes with
  | nil =>
    rw [List.foldlM_nil] at added
    obtain rfl := Except.ok.inj added
    exact counts
  | cons file files inductionHypothesis =>
    rw [List.foldlM_cons] at added
    obtain ⟨between, first, added⟩ := ok_of_bind added
    obtain ⟨⟨inum, opened⟩, isOpened, isCopied⟩ := ok_of_bind first
    have after := inductionHypothesis ((counts.openFile isOpened).copyFile isCopied) added
    rwa [Nat.add_right_comm, Nat.add_assoc] at after

/-- The three inodes before the loop. -/
theorem setup_counts (isSetup : setup count = .ok st) : st.Counts 3 := by
  have start : Mkfs.Counts ⟨superImage, 0, UInt32.ofNat nmeta⟩ 0 :=
    ⟨(superImage_building 0).length, rfl, Nat.zero_le _⟩
  obtain ⟨⟨inodefile, st₁⟩, allocated, rest⟩ := ok_of_bind isSetup
  have counts₁ := start.ialloc allocated
  dsimp only at rest
  by_cases isInodefile : inodefile ≠ inodefileino
  · rw [if_pos isInodefile] at rest
    cases rest
  rw [if_neg isInodefile] at rest
  obtain ⟨din, _, rest⟩ := ok_of_bind rest
  obtain ⟨image, written, rest⟩ := ok_of_bind rest
  have counts₂ : Mkfs.Counts { st₁ with
      image := image
      freeblock := st₁.freeblock + UInt32.ofNat (inodefileBlocks count) } 1 :=
    ⟨(winode_length written).trans counts₁.length, counts₁.freeinode, counts₁.few⟩
  obtain ⟨⟨root, st₂⟩, allocatedRoot, rest⟩ := ok_of_bind rest
  have counts₃ := counts₂.ialloc allocatedRoot
  dsimp only at rest
  by_cases isRoot : root ≠ rootino
  · rw [if_pos isRoot] at rest
    cases rest
  rw [if_neg isRoot] at rest
  obtain ⟨blocks, allocatedBlocks, rest⟩ := ok_of_bind rest
  obtain ⟨dinRoot, _, writtenRoot⟩ := ok_of_bind allocatedBlocks
  obtain ⟨dot, appendedDot, rest⟩ := ok_of_bind rest
  obtain ⟨dots, appendedDots, rest⟩ := ok_of_bind rest
  have counts₄ : Mkfs.Counts { st₂ with
      image := dots
      freeblock := st₂.freeblock + UInt32.ofNat (blocksOf (count * direntSize)) } 2 :=
    ⟨(iappend_length appendedDots).trans ((iappend_length appendedDot).trans
      ((winode_length writtenRoot).trans counts₃.length)), counts₃.freeinode, counts₃.few⟩
  obtain ⟨⟨console, st₃⟩, allocatedConsole, rest⟩ := ok_of_bind rest
  have counts₅ := counts₄.ialloc allocatedConsole
  obtain ⟨dinConsole, _, rest⟩ := ok_of_bind rest
  obtain ⟨withDevid, writtenConsole, rest⟩ := ok_of_bind rest
  obtain ⟨final, appendedConsole, rest⟩ := ok_of_bind rest
  obtain rfl := Except.ok.inj rest
  exact ⟨(iappend_length appendedConsole).trans
    ((winode_length writtenConsole).trans counts₅.length), counts₅.freeinode, counts₅.few⟩

/-! ### The whole program -/

/-- The state before `finish` when `mkfs` succeeds. -/
theorem mkfs_laid {files : List InputFile} (made : mkfs files = .ok image) :
    ∃ st, (setup (files.length + 3) >>= fun st => files.foldlM addFile st) = .ok st ∧
      finish (files.length + 3) st = .ok image ∧ files.length + 3 ≤ maxInodes ∧
      st.Laid (files.length + 3) files := by
  obtain ⟨st, isSetup, made⟩ := ok_of_bind made
  obtain ⟨next, added, finished⟩ := ok_of_bind made
  have few : files.length + 3 ≤ maxInodes := by
    rw [Nat.add_comm]
    exact ((setup_counts isSetup).addFiles added).few
  obtain ⟨hasBlock, noBlock⟩ := setup_cases few (Nat.le_add_left 3 files.length)
  rcases (rootStart_le few).lt_or_eq with inImage | atEnd
  · obtain ⟨same, isSame, laid⟩ := hasBlock inImage
    obtain rfl := Except.ok.inj (isSame.symm.trans isSetup)
    refine ⟨next, by rw [isSetup, ok_bind, added], finished, few, ?_⟩
    exact laid.addFiles_eq_ok few files (by simp) added
  · cases (noBlock atEnd).symm.trans isSetup

/-- The image that `mkfs` leaves when it succeeds. -/
theorem mkfs_holding {files : List InputFile} (made : mkfs files = .ok image) :
    image.Holding (files.length + 3) (imageInode (files.length + 3) files) (imageDirectory files)
      (imageData (files.length + 3) files) ∧
      endBlock (dataStart (files.length + 3)) files ≤ fssize := by
  obtain ⟨st, _, finished, few, laid⟩ := mkfs_laid made
  obtain ⟨unmarked, isFinal, building⟩ := laid.finish few rfl
  obtain rfl := Except.ok.inj (isFinal.symm.trans finished)
  have fits := laid.endBlock_le rfl
  exact ⟨building.balloc (by rw [laid.freeblock_toNat rfl]; exact fits), fits⟩

/-- `mkfs` succeeds on files with accepted names that fit on the disk. -/
theorem mkfs_of_fits {files : List InputFile} (accepted : ∀ file ∈ files, file.Accepted)
    (fits : endBlock (dataStart (files.length + 3)) files ≤ fssize) :
    ∃ image, mkfs files = .ok image := by
  have start : dataStart (files.length + 3) ≤ fssize := (endBlock_ge _ _).trans fits
  have few := le_maxInodes start
  have hasBlock : rootStart (files.length + 3) < fssize := by grind [dataStart, blocksOf_pos]
  obtain ⟨st, isSetup, laid⟩ := (setup_cases few (Nat.le_add_left 3 files.length)).1 hasBlock
  obtain ⟨next, added, laidNext⟩ := laid.addFiles_of_fits few files (by simp) accepted fits
  obtain ⟨image, isFinal, _⟩ := laidNext.finish few rfl
  refine ⟨balloc image next.freeblock.toNat, ?_⟩
  rw [mkfs, isSetup, ok_bind, added, ok_bind]
  exact isFinal

/-- Two files of which the second has no bytes. -/
def twoFiles : List InputFile :=
  [⟨cstring "out/user/_cat", [[1, 2], [3]], by decide, by decide⟩,
    ⟨cstring "out/user/notes.txt", [], by decide, by decide⟩]

theorem mkfs_twoFiles : ∃ image, mkfs twoFiles = .ok image :=
  mkfs_of_fits (by unfold InputFile.Accepted; decide)
    (by unfold endBlock dataStart rootStart; decide)

end Xk
