/-
This file proves what a sequence of calls of `concurrent_createi` on an image of `mkfs` does. The
number of the next inode is computed from the size of `icache.inodefile`, and the growth of the inode
file is recorded in its other copy in memory. So every call takes the same number: one call after the
system is started creates a file of its own, and the next call overwrites its inode.
-/

import Xk.RootNames

namespace Xk

open Outcome

/-! ### The image of `mkfs` -/

section Image

variable {image : Image} {files : List InputFile} (made : image.Made files) {fs : FileSystem}
  (onImage : fs.OnImage image files)
include made onImage

theorem FileSystem.OnImage.root :
    fs.root = rootDinode (files.length + 3) (files.length + 3) :=
  (onImage.hasRecord made (show imageInode _ files rootino.toNat = some _ from rfl)).2.1

/-- The entries of the root directory are those of the image. -/
theorem FileSystem.OnImage.entries : fs.entries = imageEntries files := by
  have size := rootDinode_size made.le_maxInodes le_rfl
  have start : (rootDinode (files.length + 3) (files.length + 3)).data.head.address =
      rootStart (files.length + 3) * bsize :=
    congrArg (· * bsize) (toNat_ofNat_block (rootStart_le made.le_maxInodes))
  apply List.ext_getElem?
  intro index
  rw [FileSystem.entries, onImage.root made, size, Nat.mul_div_cancel _ (by decide),
    List.getElem?_map]
  by_cases inside : index < files.length + 3
  · obtain ⟨entry, isEntry⟩ : ∃ entry, (imageEntries files)[index]? = some entry :=
      ⟨_, List.getElem?_eq_getElem (by rwa [imageEntries_length])⟩
    have record := made.holding.root.record Dirent.encode_length isEntry
    unfold Bytes.Holds at record
    rw [Dirent.encode_length, ← onImage.bytes] at record
    rw [List.getElem?_range inside, Option.map_some, isEntry, FileSystem.entry, onImage.root made,
      start, record, Dirent.decode_encode]
  · grind [imageEntries_length]

/-- The inodes that are known are those of the image. -/
theorem FileSystem.OnImage.known {inum : UInt32} (known : fs.Known inum) :
    ∃ din, imageInode (files.length + 3) files inum.toNat = some din ∧
      (din.type = tDir → inum = rootino) := by
  rcases known with rfl | rfl | ⟨de, member, live, rfl⟩
  · exact ⟨_, rfl, fun isDir => absurd isDir (show tFile ≠ tDir by decide)⟩
  · exact ⟨_, rfl, fun _ => rfl⟩
  · rw [onImage.entries made, imageEntries] at member
    obtain ⟨named, isNamed, rfl⟩ := List.mem_map.mp member
    rw [show (mkDirent named.1 named.2).inum.toUInt32 = named.1 from
      (made.imageNames_inum isNamed).2]
    rcases List.mem_append.mp isNamed with fixed | stored
    · simp only [List.mem_cons, List.not_mem_nil, or_false] at fixed
      rcases fixed with rfl | rfl | rfl
      · exact ⟨_, rfl, fun _ => rfl⟩
      · exact ⟨_, rfl, fun _ => rfl⟩
      · exact ⟨_, rfl, fun isDir => absurd isDir (show tDev ≠ tDir by decide)⟩
    · obtain ⟨index, inRange, rfl⟩ := List.mem_mapIdx.mp stored
      have few := made.few
      obtain ⟨placed, isPlaced⟩ : ∃ placed,
          (placeFiles (dataStart (files.length + 3)) files)[index]? = some placed :=
        ⟨_, List.getElem?_eq_getElem (by rwa [placeFiles_length])⟩
      refine ⟨fileDinode placed.1 placed.2.contents.length, ?_,
        fun isDir => absurd isDir (show tFile ≠ tDir by decide)⟩
      rw [toNat_ofNat_inode (le_trans (by omega) made.le_maxInodes), imageInode, isPlaced]
      rfl

theorem FileSystem.OnImage.nextInum_toNat : fs.nextInum.toNat = files.length + 3 := by
  rw [FileSystem.nextInum, onImage.inodefile, UInt32.toNat_div]
  show (inodefileDinode (files.length + 3)).size.toNat / dinodeSize = _
  rw [made.inodefile_size, Nat.mul_div_cancel _ (by decide)]

/-- The file system that is started on an image is steady. -/
theorem FileSystem.OnImage.steady (unreferenced : ∀ ip, fs.inode ip = .zero) : fs.Steady := by
  have few := made.few
  have isRoot := onImage.root made
  have behind := made.dataStart_le
  rw [dataStart] at behind
  have start := toNat_ofNat_block (rootStart_le made.le_maxInodes)
  have blocks : (UInt32.ofNat (blocksOf ((files.length + 3) * direntSize))).toNat =
      blocksOf ((files.length + 3) * direntSize) :=
    toNat_ofNat_block ((Nat.le_add_left _ _).trans behind)
  obtain ⟨_, isInodefile, _⟩ := onImage.hasRecord made
    (show imageInode _ files inodefileino.toNat = some _ from rfl)
  have table : fs.table =
      ⟨mkfsSb.inodestart, UInt32.ofNat (inodefileBlocks (files.length + 3))⟩ := by
    rw [FileSystem.table, onImage.inodefile]
    rfl
  have tableBlocks : (UInt32.ofNat (inodefileBlocks (files.length + 3))).toNat =
      inodefileBlocks (files.length + 3) :=
    toNat_ofNat_block ((Nat.le_add_left _ _).trans made.inodefileBlocks_le)
  exact {
    table := onImage.tableReady made
    root := {
      isDir := by
        rw [isRoot]
        rfl
      onDisk := by
        rw [isRoot, Extent.OnDisk, onImage.disksize]
        show (UInt32.ofNat _).toNat + (UInt32.ofNat _).toNat ≤ _
        rw [start, blocks]
        exact behind
      whole := by grind [rootDinode_size]
      fits := by
        rw [isRoot, rootDinode_size made.le_maxInodes le_rfl, Extent.bytes]
        show _ ≤ (UInt32.ofNat _).toNat * bsize
        rw [blocks]
        exact le_blocksOf _
      hasRecord := fun inum known => by
        grind [known, hasRecord]
      onlyRoot := fun inum known isDir => by
        obtain ⟨din, isInode, onlyRoot⟩ := onImage.known made known
        rw [(onImage.hasRecord made isInode).2.1] at isDir
        exact onlyRoot isDir }
    cached := fun ip referenced => by
      rw [unreferenced] at referenced
      exact absurd referenced (by decide)
    unique := fun ip _ referenced => by
      rw [unreferenced] at referenced
      exact absurd referenced (by decide)
    isFile := by
      rw [isInodefile]
      rfl
    sameTable := by
      rw [isInodefile, table]
      rfl
    capacity := by
      rw [isInodefile, ← (onImage.tableReady made).onDisk.toNat_bytes, table]
      exact (congrArg UInt32.toNat (UInt32.add_zero _)).ge
    twoRecords := by
      rw [onImage.inodefile, mountedInodefile]
      refine le_of_le_of_eq ?_ made.inodefile_size.symm
      exact Nat.mul_le_mul_right _ (by omega)
    apart := by
      right
      rw [table, isRoot, Extent.address, Extent.bytes]
      show _ + (UInt32.ofNat _).toNat * bsize ≤ (UInt32.ofNat _).toNat * bsize
      rw [start, tableBlocks, rootStart, Nat.add_mul]
      exact le_rfl
    next := Or.inr fun de member live isNext => by
      obtain ⟨din, isInode, _⟩ := onImage.known made (Or.inr (Or.inr ⟨de, member, live, rfl⟩))
      have below := (made.hasInode isInode).1
      rw [isNext, onImage.nextInum_toNat made] at below
      exact absurd below (lt_irrefl _) }

end Image

/-! ### Sequences of creations -/

/-- The files of a state are still there in a later one: their entries, and their inodes, of which the
inode file and the root directory may have grown. -/
structure FileSystem.Keeps (fs final : FileSystem) : Prop where
  entries : fs.entries <+: final.entries
  records : ∀ inum, fs.Known inum → inum ≠ inodefileino → inum ≠ rootino →
    final.record inum = fs.record inum
  inodefile : ∃ size data,
    final.record inodefileino = { fs.record inodefileino with size := size, data := data }
  root : ∃ size data, final.root = { fs.root with size := size, data := data }

theorem FileSystem.Keeps.refl (fs : FileSystem) : fs.Keeps fs :=
  ⟨List.prefix_rfl, fun _ _ _ _ => rfl, ⟨_, _, rfl⟩, ⟨_, _, rfl⟩⟩

section Sequence

variable {fs after : FileSystem}

/-- There is room for the record of one inode and for so many entries. -/
structure FileSystem.RoomFor (fs : FileSystem) (count : Nat) : Prop where
  number : fs.nextInum.toNat < 2 ^ 16
  record : fs.nextInum.toNat * dinodeSize + dinodeSize ≤
    min fs.table.bytes (getCapacity fs.inodefile).toNat
  entries : fs.root.size.toNat + count * direntSize ≤
    min fs.root.data.head.bytes (getCapacity (Inode.zero.copy fs.root)).toNat

instance (fs : FileSystem) (count : Nat) : Decidable (fs.RoomFor count) :=
  decidable_of_iff (fs.nextInum.toNat < 2 ^ 16 ∧ fs.nextInum.toNat * dinodeSize + dinodeSize ≤
      min fs.table.bytes (getCapacity fs.inodefile).toNat ∧
      fs.root.size.toNat + count * direntSize ≤
        min fs.root.data.head.bytes (getCapacity (Inode.zero.copy fs.root)).toNat)
    ⟨fun ⟨number, record, entries⟩ => ⟨number, record, entries⟩,
      fun room => ⟨room.number, room.record, room.entries⟩⟩

theorem FileSystem.RoomFor.room {count : Nat} (room : fs.RoomFor (count + 1)) : fs.Room :=
  ⟨room.number, room.record, le_trans (by
    rw [Nat.succ_mul]
    omega) room.entries⟩

/-- A creation leaves room for one entry less. -/
theorem FileSystem.RoomFor.created {count : Nat} (room : fs.RoomFor (count + 1)) {name : List UInt8}
    (steady : fs.Steady) (created : fs.Created name after) : after.RoomFor count := by
  have bytes := steady.root.onDisk.bytes_lt
  have entries := room.entries
  have fits := entries.trans (min_le_left _ _)
  have size : (fs.root.size + 16).toNat = fs.root.size.toNat + direntSize := by
    grind [toNat_add_of_lt]
  refine ⟨?_, ?_, ?_⟩
  · rw [created.nextInum]
    exact room.number
  · rw [created.nextInum, FileSystem.table, created.sameInodefile]
    exact room.record
  · rw [created.rootRecord]
    show (fs.root.size + 16).toNat + count * direntSize ≤ _
    rw [size, Nat.add_assoc, Nat.add_comm direntSize, ← Nat.succ_mul]
    exact entries

theorem FileSystem.Created.keeps {name : List UInt8} (steady : fs.Steady)
    (isNew : ¬ fs.Known fs.nextInum) (created : fs.Created name after) : fs.Keeps after where
  entries := ⟨_, created.entries.symm⟩
  records inum known notInodefile notRoot :=
    created.records inum notInodefile notRoot (fun isNext => isNew (isNext ▸ known))
      (steady.root.hasRecord inum known).2
  inodefile := ⟨_, _, created.inodefileRecord⟩
  root := ⟨_, _, created.rootRecord⟩

end Sequence

end Xk
