/-
This file models `mkfs.c`, which builds the file system image from a list of files: the super
block, the inode file, the root directory with its entries, the contents of the files and the
bitmap, all through whole sectors of the image file.

The host is little-endian, so that `xint` and `xshort` are the identity. An input file is what
`open` and `read` give of it: a path, and the chunks that the calls of `read` return. The messages
of `mkfs` are left out.
-/

import Xk.FsFormat

namespace Xk

/-! ### The image file -/

/-- How `mkfs` ends early: a failed assertion, or a short `read` from the image. -/
inductive MkfsError
  | assertion
  | read
deriving DecidableEq

/-- The image file, up to its length. -/
structure Image where
  length : Nat
  bytes : Nat → UInt8

/-- The offset `sec * BSIZE`, a product of `uint`s. -/
def sectorOffset (sec : UInt32) : Nat := (sec * 512).toNat

/-- `wsect(sec, buf)`; a write past the end makes the file longer. -/
def wsect (image : Image) (sec : UInt32) (buf : List UInt8) : Image where
  length := max image.length (sectorOffset sec + bsize)
  bytes := Bytes.write image.bytes (sectorOffset sec) buf

/-- `rsect(sec, buf)`; a `read` past the end returns less than a sector. -/
def rsect (image : Image) (sec : UInt32) : Except MkfsError (List UInt8) :=
  if sectorOffset sec + bsize ≤ image.length then
    .ok (Bytes.load image.bytes (sectorOffset sec) bsize)
  else .error .read

/-- A buffer after a copy of `bytes` to an offset in it. -/
def patch (buf : List UInt8) (offset : Nat) (bytes : List UInt8) : List UInt8 :=
  buf.take offset ++ bytes ++ buf.drop (offset + bytes.length)

/-! ### The layout -/

/-- `nbitmap`. -/
abbrev nbitmap : Nat := fssize / (bsize * 8) + 1

/-- `nmeta`: the boot block, the super block and the bitmap. -/
abbrev nmeta : Nat := 2 + nbitmap

/-- `IPB`, the inodes of a block. -/
abbrev ipb : Nat := bsize / dinodeSize

/-- The variable `sb`. -/
def mkfsSb : Superblock where
  size := UInt32.ofNat fssize
  nblocks := UInt32.ofNat (fssize - nmeta)
  bmapstart := 2
  inodestart := UInt32.ofNat (2 + nbitmap)

/-- The image and the variables that count what is allocated. -/
structure Mkfs where
  image : Image
  freeinode : UInt32
  freeblock : UInt32

/-! ### Inodes -/

/-- The sector of an inode, `sb.inodestart + INODEOFF(inum) / BSIZE`. -/
def inodeSector (inum : UInt32) : UInt32 :=
  mkfsSb.inodestart + UInt32.ofNat (inum.toNat * dinodeSize / bsize)

/-- The offset of an inode in its sector. -/
def inodeInSector (inum : UInt32) : Nat := inum.toNat % ipb * dinodeSize

/-- `winode(inum, ip)`. -/
def winode (image : Image) (inum : UInt32) (din : Dinode) : Except MkfsError Image := do
  let buf ← rsect image (inodeSector inum)
  return wsect image (inodeSector inum) (patch buf (inodeInSector inum) din.encode)

/-- `rinode(inum, ip)`. -/
def rinode (image : Image) (inum : UInt32) : Except MkfsError Dinode := do
  let buf ← rsect image (inodeSector inum)
  return Dinode.decode ((buf.drop (inodeInSector inum)).take dinodeSize)

/-- An inode with its first extent replaced, the `din.data->` of the source. -/
def Dinode.setFirst (din : Dinode) (extent : Extent) : Dinode :=
  { din with data := extent ::ᵥ din.data.tail }

/-- The inode that `ialloc` writes. -/
def Dinode.fresh (type : UInt16) : Dinode := { Dinode.zero with type := type }

/-- `ialloc(type)`. -/
def ialloc (st : Mkfs) (type : UInt16) : Except MkfsError (UInt32 × Mkfs) := do
  let inum := st.freeinode
  let image ← winode st.image inum (.fresh type)
  return (inum, { st with image := image, freeinode := st.freeinode + 1 })

/-- `iallocblocks(inum, start, numblks)`. -/
def iallocblocks (image : Image) (inum start numblks : UInt32) : Except MkfsError Image := do
  let din ← rinode image inum
  winode image inum (din.setFirst ⟨start, numblks⟩)

/-- The loop of `iappend`: the image and `off` at its end. Each turn copies at least one byte. -/
def appendLoop (startblkno : UInt32) :
    Nat → Image → UInt32 → List UInt8 → Except MkfsError (Image × UInt32)
  | _, image, off, [] => .ok (image, off)
  | 0, _, _, _ :: _ => .error .read
  | turns + 1, image, off, byte :: bytes => do
    let p := byte :: bytes
    let fbn := off / 512
    let n1 := min p.length ((fbn + 1) * 512 - off).toNat
    let buf ← rsect image (startblkno + fbn)
    let image := wsect image (startblkno + fbn) (patch buf (off - fbn * 512).toNat (p.take n1))
    appendLoop startblkno turns image (off + UInt32.ofNat n1) (p.drop n1)

/-- `iappend(inum, xp, n)`. -/
def iappend (image : Image) (inum : UInt32) (p : List UInt8) : Except MkfsError Image := do
  let din ← rinode image inum
  let (image, off) ← appendLoop din.data.head.startblkno p.length image din.size p
  winode image inum { din with size := off }

/-! ### The bitmap -/

/-- The bitmap block of the first `count` of its blocks, bit by bit. -/
def bitmapBlock (count : Nat) : List UInt8 :=
  (List.range count).foldl (fun buf i =>
    buf.set (i / 8) (buf.getD (i / 8) 0 ||| (1 <<< UInt8.ofNat (i % 8))))
    (List.replicate bsize 0)

/-- The loop of `balloc`. -/
def ballocLoop : Nat → Image → UInt32 → Nat → Image
  | 0, image, _, _ => image
  | turns + 1, image, nbuf, remaining =>
    if 0 < remaining then
      ballocLoop turns
        (wsect image (mkfsSb.bmapstart + nbuf) (bitmapBlock (min remaining (bsize * 8))))
        (nbuf + 1) (remaining - bsize * 8)
    else image

/-- `balloc(used)`. -/
def balloc (image : Image) (used : Nat) : Image := ballocLoop used image 0 used

/-! ### The program -/

/-- The bytes of a C string without its terminator. -/
def cstring (text : String) : List UInt8 := text.toList.map Char.toUInt8

/-- An argument of `mkfs` that can be opened, and what `read` returns of it: at most a buffer full
at a time, until it returns nothing. -/
structure InputFile where
  path : List UInt8
  reads : List (List UInt8)
  proper : 0 ∉ path
  sized : ∀ chunk ∈ reads, 0 < chunk.length ∧ chunk.length ≤ bsize

/-- The contents of an input file. -/
def InputFile.contents (file : InputFile) : List UInt8 := file.reads.flatten

/-- `name` after the directory of the build. -/
def InputFile.name (file : InputFile) : List UInt8 := file.path.drop 9

/-- The name that is stored: one leading underscore is skipped. -/
def InputFile.storedName (file : InputFile) : List UInt8 :=
  if file.name.head? = some '_'.toUInt8 then file.name.tail else file.name

/-- The blocks of a number of bytes. -/
def blocksOf (size : Nat) : Nat := size / bsize + if size % bsize = 0 then 0 else 1

/-- A directory entry of `mkfs`. -/
def mkDirent (inum : UInt32) (name : List UInt8) : Dirent :=
  ⟨inum.toUInt16, strncpy name dirsiz⟩

/-- The body of the loop over the arguments up to the loop over the input: the inode, its directory
entry and the first block of the file. -/
def openFile (st : Mkfs) (file : InputFile) : Except MkfsError (UInt32 × Mkfs) := do
  if strncmp file.path (cstring "out/user/") 9 ≠ 0 then throw .assertion
  if '/'.toUInt8 ∈ file.name then throw .assertion
  let (inum, st) ← ialloc st tFile
  let image ← iappend st.image rootino (mkDirent inum file.storedName).encode
  let din ← rinode image inum
  let image ← winode image inum (din.setFirst ⟨st.freeblock, din.data.head.nblocks⟩)
  return (inum, { st with image := image })

/-- The rest of the body of the loop over the arguments. -/
def copyFile (st : Mkfs) (inum : UInt32) (file : InputFile) : Except MkfsError Mkfs := do
  let image ← file.reads.foldlM (fun image chunk => iappend image inum chunk) st.image
  let din ← rinode image inum
  let nblocks := UInt32.ofNat (blocksOf din.size.toNat)
  let image ← winode image inum (din.setFirst ⟨din.data.head.startblkno, nblocks⟩)
  return { st with image := image, freeblock := st.freeblock + nblocks }

/-- The body of the loop over the arguments. -/
def addFile (st : Mkfs) (file : InputFile) : Except MkfsError Mkfs := do
  let (inum, st) ← openFile st file
  copyFile st inum file

/-- The blocks of the inode file. -/
def inodefileBlocks (inumCount : Nat) : Nat :=
  if inumCount / ipb = 0 ∨ inumCount * dinodeSize % bsize ≠ 0 then inumCount / ipb + 1
  else inumCount / ipb

/-- The image with all sectors zeroed and the super block written. -/
def superImage : Image :=
  let zeroed := (List.range fssize).foldl
    (fun image i => wsect image (UInt32.ofNat i) (List.replicate bsize 0)) ⟨0, fun _ => 0⟩
  wsect zeroed 1 (patch (List.replicate bsize 0) 0 mkfsSb.encode)

/-- `main` up to the loop over the arguments, for `argc + 1` inodes. -/
def setup (inumCount : Nat) : Except MkfsError Mkfs := do
  let st : Mkfs := ⟨superImage, 0, UInt32.ofNat nmeta⟩
  let (inodefile, st) ← ialloc st tFile
  if inodefile ≠ inodefileino then throw .assertion
  let din ← rinode st.image inodefile
  let blocks := UInt32.ofNat (inodefileBlocks inumCount)
  let image ← winode st.image inodefile { din.setFirst ⟨mkfsSb.inodestart, blocks⟩ with
    size := UInt32.ofNat (inumCount * dinodeSize) }
  let st := { st with image := image, freeblock := st.freeblock + blocks }
  let (root, st) ← ialloc st tDir
  if root ≠ rootino then throw .assertion
  let rootBlocks := UInt32.ofNat (blocksOf (inumCount * direntSize))
  let image ← iallocblocks st.image root st.freeblock rootBlocks
  let st := { st with image := image, freeblock := st.freeblock + rootBlocks }
  let image ← iappend st.image root (mkDirent root (cstring ".")).encode
  let image ← iappend image root (mkDirent root (cstring "..")).encode
  let (console, st) ← ialloc { st with image := image } tDev
  let din ← rinode st.image console
  let image ← winode st.image console { din with devid := 1 }
  let image ← iappend image root (mkDirent console (cstring "console")).encode
  return { st with image := image }

/-- `main` after the loop: the size of the root directory, and the bitmap. -/
def finish (inumCount : Nat) (st : Mkfs) : Except MkfsError Image := do
  let din ← rinode st.image rootino
  let image ← winode st.image rootino { din with size := UInt32.ofNat (inumCount * direntSize) }
  return balloc image st.freeblock.toNat

/-- `main`, for the arguments after the name of the image. -/
def mkfs (files : List InputFile) : Except MkfsError Image := do
  let inumCount := files.length + 3
  let st ← setup inumCount
  let st ← files.foldlM addFile st
  finish inumCount st

end Xk
