/-
This file proves that `mkfs` allocates consistently. The blocks of the inode file, of the root
directory and of the files follow one another behind the metadata, each inode has as many of them as
its size asks for, and the bitmap marks exactly the blocks up to the last one in use.

The bitmap is written in blocks of 4096 bits, of which the last one that is written is marked in
part, and the ones behind it are zero from the start.
-/

import Xk.MkfsImage
import Xk.Tiling

namespace Xk

open Outcome Tiling

/-! ### The bits of the bitmap -/

theorem bitmapBlock_zero {j : Nat} (inBlock : j < bsize) : (bitmapBlock 0).getD j 0 = 0 := by
  rw [bitmapBlock, List.range_zero, List.foldl_nil, List.getD_replicate _ inBlock]

theorem bitmapBlock_succ (count : Nat) : bitmapBlock (count + 1) =
    (bitmapBlock count).set (count / 8)
      ((bitmapBlock count).getD (count / 8) 0 ||| (1 <<< UInt8.ofNat (count % 8))) := by
  grind [bitmapBlock, List.range_succ]

theorem testBit_shiftLeft_one : ∀ bit < 8, ∀ k < 8,
    ((1 : UInt8) <<< UInt8.ofNat bit).toNat.testBit k = decide (k = bit) := by
  decide

/-- The bits of a bitmap block. -/
theorem bitmapBlock_testBit (count : Nat) {j k : Nat} (inBlock : j < bsize) (inByte : k < 8) :
    ((bitmapBlock count).getD j 0).toNat.testBit k = decide (8 * j + k < count) := by
  induction count with
  | zero =>
    rw [bitmapBlock_zero inBlock, decide_eq_false (Nat.not_lt_zero _)]
    exact Nat.zero_testBit k
  | succ count inductionHypothesis =>
    have length := bitmapBlock_length count
    rw [bitmapBlock_succ]
    by_cases isByte : count / 8 = j
    · grind [UInt8.toNat_or, testBit_shiftLeft_one]
    · grind

/-- What the loop of `balloc` leaves in the bitmap: nothing changes before the block that is next,
and from there on the bytes are those of the blocks for what remains. -/
theorem ballocLoop_bytes (turns : Nat) : ∀ (image : Image) (nbuf : UInt32) (remaining : Nat),
    nbuf.toNat * (bsize * 8) + remaining ≤ nbitmap * (bsize * 8) → remaining ≤ turns →
    ∀ b j, b < nbitmap → j < bsize →
      (b < nbuf.toNat → (ballocLoop turns image nbuf remaining).bytes ((2 + b) * bsize + j) =
        image.bytes ((2 + b) * bsize + j)) ∧
      (nbuf.toNat ≤ b → image.bytes ((2 + b) * bsize + j) = 0 →
        (ballocLoop turns image nbuf remaining).bytes ((2 + b) * bsize + j) = (bitmapBlock
          (min (remaining - (b - nbuf.toNat) * (bsize * 8)) (bsize * 8))).getD j 0) := by
  induction turns with
  | zero =>
    intro image nbuf remaining _ enough b j _ inBlock
    refine ⟨fun _ => rfl, fun _ isZero => ?_⟩
    rw [Nat.le_zero.mp enough, Nat.zero_sub, Nat.zero_min, bitmapBlock_zero inBlock]
    exact isZero
  | succ turns inductionHypothesis =>
    intro image nbuf remaining inMap enough b j inBitmap inBlock
    rw [ballocLoop]
    split_ifs with more
    · have mapBlock : nbuf.toNat < 25 := by grind
      have next : (nbuf + 1).toNat = nbuf.toNat + 1 := by grind [UInt32.toNat_add]
      have offset := mapSector_offset mapBlock
      have length := bitmapBlock_length (min remaining (bsize * 8))
      set written := wsect image (mkfsSb.bmapstart + nbuf)
        (bitmapBlock (min remaining (bsize * 8))) with isWritten
      have outside : ∀ other, other ≠ nbuf.toNat →
          written.bytes ((2 + other) * bsize + j) = image.bytes ((2 + other) * bsize + j) :=
        fun other different => by
          rw [isWritten, wsect, offset]
          apply Bytes.write_of_outside
          rw [length]
          show (2 + other) * 512 + j < (2 + nbuf.toNat) * 512 ∨
            (2 + nbuf.toNat) * 512 + 512 ≤ (2 + other) * 512 + j
          change j < 512 at inBlock
          omega
      obtain ⟨before, behind⟩ := inductionHypothesis written (nbuf + 1) (remaining - bsize * 8)
        (by rw [next]; exact mapNext_le inMap mapBlock) (by unfold bsize; omega) b j inBitmap
        inBlock
      rw [next] at before behind
      refine ⟨fun isBefore => ?_, fun isBehind isZero => ?_⟩
      · exact (before (by omega)).trans (outside b (by omega))
      · by_cases isThis : b = nbuf.toNat
        · -- the block that is written in this turn
          rw [before (by omega), isThis, Nat.sub_self, Nat.zero_mul, Nat.sub_zero, isWritten, wsect,
            offset, List.getD_eq_getElem?_getD,
            List.getElem?_eq_getElem (by rw [length]; exact inBlock)]
          exact Bytes.write_of_inside image.bytes _ (List.getElem?_eq_getElem _)
        · have later : remaining - bsize * 8 - (b - (nbuf.toNat + 1)) * (bsize * 8) =
              remaining - (b - nbuf.toNat) * (bsize * 8) := by
            grind
          rw [behind (by omega) ((outside b isThis).trans isZero), later]
    · have done : remaining = 0 := Nat.le_zero.mp (Nat.not_lt.mp more)
      refine ⟨fun _ => rfl, fun _ isZero => ?_⟩
      rw [done, Nat.zero_sub, Nat.zero_min, bitmapBlock_zero inBlock]
      exact isZero

/-- The bit of a block in the bitmap of the image. -/
def Image.marks (image : Image) (block : Nat) : Bool :=
  (image.bytes (2 * bsize + block / 8)).toNat.testBit (block % 8)

/-- `balloc` marks the first blocks and no other. -/
theorem balloc_marks {image : Image} (unmapped : image.Unmapped) {used : Nat}
    (inRange : used ≤ nbitmap * (bsize * 8)) {block : Nat} (inMap : block < nbitmap * (bsize * 8)) :
    (balloc image used).marks block = decide (block < used) := by
  change used ≤ 25 * 4096 at inRange
  change block < 25 * 4096 at inMap
  have place : 2 * bsize + block / 8 = (2 + block / 4096) * bsize + block / 8 % bsize := by
    unfold bsize
    omega
  have inBlock : block / 8 % bsize < bsize := Nat.mod_lt _ (by decide)
  have isZero : image.bytes ((2 + block / 4096) * bsize + block / 8 % bsize) = 0 := by
    apply unmapped
    · omega
    · grind
  have bytes := (ballocLoop_bytes used image 0 used
    (by show 0 * 4096 + used ≤ 25 * 4096; omega) le_rfl (block / 4096) (block / 8 % bsize)
    (show block / 4096 < 25 by omega) inBlock).2 (Nat.zero_le _) isZero
  rw [Image.marks, place, balloc, bytes, bitmapBlock_testBit _ inBlock (Nat.mod_lt _ (by decide))]
  apply decide_eq_decide.mpr
  show 8 * (block / 8 % 512) + block % 8 < min (used - (block / 4096 - 0) * 4096)
    4096 ↔ block < used
  omega

/-! ### The blocks of the inodes -/

/-- The blocks of an inode: only its first extent is used. -/
def Dinode.blocks (din : Dinode) : Range :=
  ⟨din.data.head.startblkno.toNat, din.data.head.nblocks.toNat⟩

/-- The inodes that have blocks: all but that of the console. -/
def blockInodes (count : Nat) : List Nat := 0 :: 1 :: List.range' 3 (count - 3)

/-- The blocks of the inodes of an image are allocated consistently up to a block. -/
structure Image.Allocated (image : Image) (count : Nat) (inode : Nat → Dinode) (freeblock : Nat) :
    Prop where
  /-- The inodes are those in the image. -/
  stored : ∀ inum < count, rinode image (UInt32.ofNat inum) = .ok (inode inum)
  single : ∀ inum < count, ∀ extent ∈ (inode inum).data.toList.tail, extent = .zero
  consecutive : Tiles nmeta ((blockInodes count).map fun inum => (inode inum).blocks) freeblock
  disjoint : ((blockInodes count).map fun inum => (inode inum).blocks).Pairwise
    fun left right => Disjoint left.positions right.positions
  covers : ∀ block : Nat, (∃ inum ∈ blockInodes count, (block : Int) ∈
    (inode inum).blocks.positions) ↔
    nmeta ≤ block ∧ block < freeblock
  inDisk : freeblock ≤ fssize
  size : ∀ inum < count, (inode inum).size.toNat ≤ (inode inum).data.head.nblocks.toNat * bsize
  /-- For the root directory and the files, and the console, which has no blocks. -/
  slack : ∀ inum < count, inum ≠ 0 →
    (inode inum).data.head.nblocks.toNat * bsize < (inode inum).size.toNat + bsize
  bitmap : ∀ block < nbitmap * (bsize * 8), image.marks block = true ↔ block < freeblock

theorem blocksOf_lt (size : Nat) : blocksOf size * bsize < size + bsize := by
  unfold blocksOf bsize
  split_ifs <;> omega

theorem tiles_placeFiles (start : Nat) (files : List InputFile) :
    Tiles start ((placeFiles start files).map fun placed => ⟨placed.1, placed.2.blocks⟩)
      (endBlock start files) := by
  induction files generalizing start with
  | nil => rfl
  | cons file files inductionHypothesis =>
    refine ⟨rfl, ?_⟩
    rw [endBlock_cons]
    exact_mod_cast inductionHypothesis (start + file.blocks)

/-- The inodes of the image of the files. -/
def imageDinode (files : List InputFile) (inum : Nat) : Dinode :=
  (imageInode (files.length + 3) files inum).getD .zero

section Inodes

variable {files : List InputFile} (fits : endBlock (dataStart (files.length + 3)) files ≤ fssize)
include fits

/-- The numbers in the inode of a file. -/
theorem fileDinode_placed {placed : Nat × InputFile}
    (isPlaced : placed ∈ placeFiles (dataStart (files.length + 3)) files) :
    (fileDinode placed.1 placed.2.contents.length).blocks = ⟨placed.1, placed.2.blocks⟩ ∧
      (fileDinode placed.1 placed.2.contents.length).size.toNat = placed.2.contents.length := by
  obtain ⟨_, below⟩ := placeFiles_bounds isPlaced
  have inDisk := below.trans fits
  have start := toNat_ofNat_block ((Nat.le_add_right _ _).trans inDisk)
  have blocks := toNat_ofNat_block ((Nat.le_add_left _ _).trans inDisk)
  have size : placed.2.contents.length ≤ imageBytes :=
    (le_blocksOf _).trans (Nat.mul_le_mul_right bsize ((Nat.le_add_left _ _).trans inDisk))
  refine ⟨?_, toNat_ofNat_of_le size⟩
  show Range.mk (UInt32.ofNat placed.1).toNat (UInt32.ofNat placed.2.blocks).toNat = _
  rw [start, blocks]

theorem inodefileDinode_blocks : (inodefileDinode (files.length + 3)).blocks =
      ⟨nmeta, inodefileBlocks (files.length + 3)⟩ ∧
    (inodefileDinode (files.length + 3)).size.toNat = (files.length + 3) * dinodeSize := by
  have inDisk : rootStart (files.length + 3) ≤ fssize :=
    rootStart_le (le_maxInodes ((endBlock_ge _ _).trans fits))
  rw [rootStart] at inDisk
  have blocks := toNat_ofNat_block ((Nat.le_add_left _ _).trans inDisk)
  have size : (files.length + 3) * dinodeSize ≤ imageBytes :=
    (le_inodefileBlocks _).trans (Nat.mul_le_mul_right bsize ((Nat.le_add_left _ _).trans inDisk))
  refine ⟨?_, toNat_ofNat_of_le size⟩
  show Range.mk nmeta (UInt32.ofNat (inodefileBlocks (files.length + 3))).toNat = _
  rw [blocks]

theorem rootDinode_blocks : (rootDinode (files.length + 3) (files.length + 3)).blocks =
      ⟨rootStart (files.length + 3), blocksOf ((files.length + 3) * direntSize)⟩ ∧
    (rootDinode (files.length + 3) (files.length + 3)).size.toNat =
      (files.length + 3) * direntSize := by
  have start : dataStart (files.length + 3) ≤ fssize := (endBlock_ge _ _).trans fits
  have few := le_maxInodes start
  refine ⟨?_, rootDinode_size few le_rfl⟩
  rw [dataStart] at start
  have blocks := toNat_ofNat_block ((Nat.le_add_left _ _).trans start)
  show Range.mk (UInt32.ofNat (rootStart (files.length + 3))).toNat
    (UInt32.ofNat (blocksOf ((files.length + 3) * direntSize))).toNat = _
  rw [toNat_ofNat_block (rootStart_le few), blocks]

omit fits in
theorem imageDinode_file {index : Nat} (inFiles : index < files.length) :
    ∃ placed, (placeFiles (dataStart (files.length + 3)) files)[index]? = some placed ∧
      imageInode (files.length + 3) files (index + 3) =
        some (fileDinode placed.1 placed.2.contents.length) := by
  rw [← placeFiles_length (dataStart (files.length + 3)) files] at inFiles
  refine ⟨_, List.getElem?_eq_getElem inFiles, ?_⟩
  rw [imageInode, List.getElem?_eq_getElem inFiles]
  rfl

/-- What holds of each of the inodes: there is one, its further extents are not used, and its blocks
hold its size and, but for the inode file, not a block more. -/
theorem imageDinode_spec {inum : Nat} (inRange : inum < files.length + 3) :
    imageInode (files.length + 3) files inum = some (imageDinode files inum) ∧
      (∀ extent ∈ (imageDinode files inum).data.toList.tail, extent = .zero) ∧
      (imageDinode files inum).size.toNat ≤ (imageDinode files inum).blocks.length * bsize ∧
      (inum ≠ 0 → (imageDinode files inum).blocks.length * bsize <
        (imageDinode files inum).size.toNat + bsize) := by
  have unused (first : Extent) : ∀ extent ∈ (Extents.single first).toList.tail, extent = .zero :=
    fun extent member => List.eq_of_mem_replicate (n := 6) member
  rcases inum with _ | _ | _ | index
  · obtain ⟨blocks, size⟩ := inodefileDinode_blocks fits
    refine ⟨rfl, unused _, ?_, fun notFirst => absurd rfl notFirst⟩
    show (inodefileDinode _).size.toNat ≤ (inodefileDinode _).blocks.length * bsize
    rw [blocks, size]
    exact le_inodefileBlocks _
  · obtain ⟨blocks, size⟩ := rootDinode_blocks fits
    refine ⟨rfl, unused _, ?_, fun _ => ?_⟩
    · show (rootDinode _ _).size.toNat ≤ (rootDinode _ _).blocks.length * bsize
      rw [blocks, size]
      exact le_blocksOf _
    · show (rootDinode _ _).blocks.length * bsize < (rootDinode _ _).size.toNat + bsize
      rw [blocks, size]
      exact blocksOf_lt _
  · have blocks : consoleDinode.blocks.length = 0 := rfl
    refine ⟨rfl, unused _, Nat.zero_le _, fun _ => ?_⟩
    show consoleDinode.blocks.length * bsize < consoleDinode.size.toNat + bsize
    rw [blocks, Nat.zero_mul]
    exact Nat.add_pos_right _ (by decide)
  · obtain ⟨placed, isPlaced, isInode⟩ := imageDinode_file (Nat.lt_of_add_lt_add_right inRange)
    obtain ⟨blocks, size⟩ := fileDinode_placed fits (List.mem_of_getElem? isPlaced)
    have isFile : imageDinode files (index + 3) =
        fileDinode placed.1 placed.2.contents.length := by
      rw [imageDinode, isInode]
      rfl
    rw [isFile, blocks, size]
    exact ⟨isInode, unused _, le_blocksOf _, fun _ => blocksOf_lt _⟩

theorem imageDinode_tiles :
    Tiles nmeta ((blockInodes (files.length + 3)).map fun inum => (imageDinode files inum).blocks)
      (endBlock (dataStart (files.length + 3)) files) := by
  have fileBlocks : (List.range' 3 files.length).map (fun inum => (imageDinode files inum).blocks) =
      (placeFiles (dataStart (files.length + 3)) files).map
        fun placed => ⟨placed.1, placed.2.blocks⟩ := by
    apply List.ext_getElem?
    intro index
    rw [List.getElem?_map, List.getElem?_map]
    rcases Nat.lt_or_ge index files.length with inFiles | behind
    · grind [imageDinode_file, imageDinode, fileDinode_placed]
    · grind [placeFiles_length]
  have isInodefile : (imageDinode files 0).blocks = _ := (inodefileDinode_blocks fits).1
  have isRoot : (imageDinode files 1).blocks = _ := (rootDinode_blocks fits).1
  rw [blockInodes, List.map_cons, List.map_cons, Nat.add_sub_cancel, fileBlocks,
    isInodefile, isRoot]
  refine ⟨rfl, ?_, ?_⟩
  · rw [rootStart]
    exact Nat.cast_add _ _
  · grind [dataStart, rootStart, tiles_placeFiles]

end Inodes

/-- `mkfs` allocates consistently: on every list of files on which it succeeds, the blocks of the
inode file, the root directory and the files are those from the metadata to the value of `freeblock`
at the end, one behind the other, and the bitmap marks the blocks before it. -/
theorem mkfs_allocates {files : List InputFile} {image : Image} (made : mkfs files = .ok image) :
    ∃ st inode, (setup (files.length + 3) >>= fun st => files.foldlM addFile st) = .ok st ∧
      image.Allocated (files.length + 3) inode st.freeblock.toNat := by
  obtain ⟨holding, fits⟩ := mkfs_holding made
  obtain ⟨st, isBuilt, finished, few, laid⟩ := mkfs_laid made
  obtain ⟨unmarked, isFinal, building⟩ := laid.finish few rfl
  obtain rfl := Except.ok.inj (isFinal.symm.trans finished)
  have used := laid.freeblock_toNat rfl
  have tiles := imageDinode_tiles fits
  rw [← used] at fits tiles
  refine ⟨st, imageDinode files, isBuilt, fun inum inRange => ?_, fun inum inRange => ?_, tiles,
    tiles.pairwise, fun block => ?_, fits, fun inum inRange => ?_, fun inum inRange notFirst => ?_,
    fun block inMap => ?_⟩
  all_goals rw [used] at fits
  · grind [toNat_ofNat_inode, Image.Holding, imageDinode_spec, rinode_eq]
  · exact (imageDinode_spec fits inRange).2.1
  · have covers := @Tiles.mem_iff _ _ _ tiles block
    simp only [List.mem_map, exists_exists_and_eq_and] at covers
    exact covers.trans (and_congr Int.ofNat_le Int.ofNat_lt)
  · exact (imageDinode_spec fits inRange).2.2.1
  · exact (imageDinode_spec fits inRange).2.2.2 notFirst
  · grind [balloc_marks, Image.Building]

theorem mkfs_allocates_twoFiles : ∃ image st inode, mkfs twoFiles = .ok image ∧
    (setup 5 >>= fun st => twoFiles.foldlM addFile st) = .ok st ∧
      image.Allocated 5 inode st.freeblock.toNat := by
  obtain ⟨image, made⟩ := mkfs_twoFiles
  obtain ⟨st, inode, isBuilt, allocated⟩ := mkfs_allocates made
  exact ⟨image, st, inode, made, isBuilt, allocated⟩

end Xk
