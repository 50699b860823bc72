/-
This file models the on-disk format of the file system (`inc/fs.h`, `inc/extent.h`), which `mkfs`
and the kernel share: the super block, inodes with their extents, and directory entries, each as
the bytes that its C struct occupies on a little-endian machine.

For each record the file proves that reading its bytes back gives the record.
-/

import Xk.Bytes
import Xk.Params

namespace Xk

/-- `FSSIZE`, the blocks of the image that `mkfs` makes. -/
abbrev fssize : Nat := 100000

/-- The addresses of the image fit a signed word. -/
theorem fssize_linked : fssize * bsize < 2 ^ 31 := by decide

/-- `EXTENT_N`, the extents of an inode. -/
abbrev extentN : Nat := 7

/-- `DIRSIZ`, the bytes of a name in a directory entry. -/
abbrev dirsiz : Nat := 14

/-- `sizeof(struct dinode)`. -/
abbrev dinodeSize : Nat := 64

/-- `sizeof(struct dirent)`. -/
abbrev direntSize : Nat := 16

/-- `INODEFILEINO`. -/
abbrev inodefileino : UInt32 := 0

/-- `ROOTINO`. -/
abbrev rootino : UInt32 := 1

/-- `ROOTDEV`. -/
abbrev rootdev : UInt32 := 1

/-- `T_DIR`. -/
abbrev tDir : UInt16 := 1

/-- `T_FILE`. -/
abbrev tFile : UInt16 := 2

/-- `T_DEV`. -/
abbrev tDev : UInt16 := 3

/-! ### Fields -/

/-- The `ushort` at an offset of a record. -/
def ushortAt (record : List UInt8) (offset : Nat) : UInt16 :=
  UInt16.ofNat (Bytes.field record offset 2)

/-- The `uint` at an offset of a record. -/
def uintAt (record : List UInt8) (offset : Nat) : UInt32 :=
  UInt32.ofNat (Bytes.field record offset 4)

/-- The bytes of a `ushort`. -/
def ushortBytes (number : UInt16) : List UInt8 :=
  Bytes.little 2 number.toNat

/-- The bytes of a `uint`. -/
def uintBytes (number : UInt32) : List UInt8 :=
  Bytes.little 4 number.toNat

@[simp] theorem ushortBytes_length (number : UInt16) : (ushortBytes number).length = 2 :=
  Bytes.little_length 2 number.toNat

@[simp] theorem uintBytes_length (number : UInt32) : (uintBytes number).length = 4 :=
  Bytes.little_length 4 number.toNat

@[simp] theorem ushortAt_ushortBytes (number : UInt16) (rest : List UInt8) :
    ushortAt (ushortBytes number ++ rest) 0 = number := by
  rw [ushortAt, ushortBytes, Bytes.field_little,
    Nat.mod_eq_of_lt (show number.toNat < 256 ^ 2 from number.toNat_lt)]
  exact UInt16.ofNat_toNat

@[simp] theorem uintAt_uintBytes (number : UInt32) (rest : List UInt8) :
    uintAt (uintBytes number ++ rest) 0 = number := by
  rw [uintAt, uintBytes, Bytes.field_little,
    Nat.mod_eq_of_lt (show number.toNat < 256 ^ 4 from number.toNat_lt)]
  exact UInt32.ofNat_toNat

@[simp] theorem ushortAt_skip_ushort (number : UInt16) (rest : List UInt8) (further : Nat) :
    ushortAt (ushortBytes number ++ rest) (2 + further) = ushortAt rest further := by
  rw [ushortAt, Bytes.field_append (ushortBytes_length number), ushortAt]

@[simp] theorem uintAt_skip_ushort (number : UInt16) (rest : List UInt8) (further : Nat) :
    uintAt (ushortBytes number ++ rest) (2 + further) = uintAt rest further := by
  rw [uintAt, Bytes.field_append (ushortBytes_length number), uintAt]

@[simp] theorem uintAt_skip_uint (number : UInt32) (rest : List UInt8) (further : Nat) :
    uintAt (uintBytes number ++ rest) (4 + further) = uintAt rest further := by
  rw [uintAt, Bytes.field_append (uintBytes_length number), uintAt]

/-! ### The super block -/

/-- `struct superblock`. -/
structure Superblock where
  size : UInt32
  nblocks : UInt32
  bmapstart : UInt32
  inodestart : UInt32
deriving DecidableEq

def Superblock.encode (sb : Superblock) : List UInt8 :=
  uintBytes sb.size ++ (uintBytes sb.nblocks ++ (uintBytes sb.bmapstart ++
    (uintBytes sb.inodestart ++ [])))

def Superblock.decode (record : List UInt8) : Superblock where
  size := uintAt record 0
  nblocks := uintAt record 4
  bmapstart := uintAt record 8
  inodestart := uintAt record 12

@[simp] theorem Superblock.encode_length (sb : Superblock) : sb.encode.length = 16 := by
  simp [Superblock.encode]

theorem Superblock.decode_encode (sb : Superblock) : Superblock.decode sb.encode = sb := by
  have nblocks : uintAt sb.encode (4 + 0) = sb.nblocks := by
    rw [Superblock.encode, uintAt_skip_uint, uintAt_uintBytes]
  have bmapstart : uintAt sb.encode (4 + (4 + 0)) = sb.bmapstart := by
    rw [Superblock.encode, uintAt_skip_uint, uintAt_skip_uint, uintAt_uintBytes]
  have inodestart : uintAt sb.encode (4 + (4 + (4 + 0))) = sb.inodestart := by
    rw [Superblock.encode, uintAt_skip_uint, uintAt_skip_uint, uintAt_skip_uint, uintAt_uintBytes]
  rw [Superblock.decode, nblocks, bmapstart, inodestart, Superblock.encode, uintAt_uintBytes]

/-! ### Extents and inodes -/

/-- `struct extent`: a run of blocks. -/
structure Extent where
  startblkno : UInt32
  nblocks : UInt32
deriving DecidableEq

/-- An extent that holds nothing. -/
def Extent.zero : Extent := ⟨0, 0⟩

def Extent.encode (extent : Extent) : List UInt8 :=
  uintBytes extent.startblkno ++ (uintBytes extent.nblocks ++ [])

def Extent.decode (record : List UInt8) : Extent where
  startblkno := uintAt record 0
  nblocks := uintAt record 4

@[simp] theorem Extent.encode_length (extent : Extent) : extent.encode.length = 8 := by
  simp [Extent.encode]

theorem Extent.decode_encode (extent : Extent) : Extent.decode extent.encode = extent := by
  have nblocks : uintAt extent.encode (4 + 0) = extent.nblocks := by
    rw [Extent.encode, uintAt_skip_uint, uintAt_uintBytes]
  rw [Extent.decode, nblocks, Extent.encode, uintAt_uintBytes]

/-- The extent array of an inode. -/
abbrev Extents := List.Vector Extent extentN

/-- The array whose first extent is given and whose others are empty. -/
def Extents.single (extent : Extent) : Extents :=
  ⟨extent :: List.replicate 6 .zero, rfl⟩

/-- `count` extents, one after the other. -/
def decodeExtents : Nat → List UInt8 → List Extent
  | 0, _ => []
  | count + 1, record => Extent.decode (record.take 8) :: decodeExtents count (record.drop 8)

theorem decodeExtents_length (count : Nat) (record : List UInt8) :
    (decodeExtents count record).length = count := by
  induction count generalizing record with
  | zero => rfl
  | succ count inductionHypothesis =>
    rw [decodeExtents, List.length_cons, inductionHypothesis]

theorem decodeExtents_encode (extents : List Extent) :
    decodeExtents extents.length (extents.flatMap Extent.encode) = extents := by
  induction extents with
  | nil => rfl
  | cons extent extents inductionHypothesis =>
    grind [decodeExtents, Extent.encode_length, Extent.decode_encode]

/-- `struct dinode`. -/
structure Dinode where
  type : UInt16
  devid : UInt16
  size : UInt32
  data : Extents
deriving DecidableEq

/-- A `bzero`ed inode. -/
def Dinode.zero : Dinode := ⟨0, 0, 0, .single .zero⟩

def Dinode.encode (din : Dinode) : List UInt8 :=
  ushortBytes din.type ++ (ushortBytes din.devid ++ (uintBytes din.size ++
    din.data.toList.flatMap Extent.encode))

def Dinode.decode (record : List UInt8) : Dinode where
  type := ushortAt record 0
  devid := ushortAt record 2
  size := uintAt record 4
  data := ⟨decodeExtents extentN (record.drop 8), decodeExtents_length _ _⟩

@[simp] theorem Dinode.encode_length (din : Dinode) : din.encode.length = dinodeSize := by
  have extents : (din.data.toList.flatMap Extent.encode).length = 8 * din.data.toList.length := by
    rw [List.length_flatMap, List.map_congr_left (g := fun _ => 8) fun extent _ =>
      extent.encode_length, List.map_const', List.sum_replicate, smul_eq_mul, Nat.mul_comm]
  rw [Dinode.encode, List.length_append, List.length_append, List.length_append, extents,
    List.Vector.toList_length, ushortBytes_length, ushortBytes_length, uintBytes_length]
  rfl

theorem Dinode.decode_encode (din : Dinode) : Dinode.decode din.encode = din := by
  have devid : ushortAt din.encode (2 + 0) = din.devid := by
    rw [Dinode.encode, ushortAt_skip_ushort, ushortAt_ushortBytes]
  have size : uintAt din.encode (2 + (2 + 0)) = din.size := by
    rw [Dinode.encode, uintAt_skip_ushort, uintAt_skip_ushort, uintAt_uintBytes]
  have dropped : din.encode.drop 8 = din.data.toList.flatMap Extent.encode := by rfl
  have data : (⟨decodeExtents extentN (din.encode.drop 8), decodeExtents_length _ _⟩ : Extents) =
      din.data := by
    apply List.Vector.eq
    have extents := decodeExtents_encode din.data.toList
    rw [List.Vector.toList_length] at extents
    rw [dropped]
    exact extents
  rw [Dinode.decode, devid, size, data, Dinode.encode, ushortAt_ushortBytes]

/-! ### Directory entries -/

/-- `struct dirent`. -/
structure Dirent where
  inum : UInt16
  name : List.Vector UInt8 dirsiz
deriving DecidableEq

def Dirent.encode (de : Dirent) : List UInt8 :=
  ushortBytes de.inum ++ de.name.toList

def Dirent.decode (record : List UInt8) : Dirent where
  inum := ushortAt record 0
  name := ⟨(record.drop 2 ++ List.replicate dirsiz 0).take dirsiz, by simp⟩

@[simp] theorem Dirent.encode_length (de : Dirent) : de.encode.length = direntSize := by
  rw [Dirent.encode, List.length_append, ushortBytes_length, List.Vector.toList_length]
  rfl

theorem Dirent.decode_encode (de : Dirent) : Dirent.decode de.encode = de := by
  have name : (⟨(de.encode.drop 2 ++ List.replicate dirsiz 0).take dirsiz, by simp⟩ :
      List.Vector UInt8 dirsiz) = de.name := by
    apply List.Vector.eq
    show (de.encode.drop 2 ++ List.replicate dirsiz 0).take dirsiz = de.name.toList
    rw [Dirent.encode, List.drop_left' (ushortBytes_length de.inum),
      List.take_left' de.name.toList_length]
  rw [Dirent.decode, name, Dirent.encode, ushortAt_ushortBytes]

/-! ### Names -/

/-- `strncpy(s, name, n)` into `n` bytes for a C string without its terminator: the name is cut
after `n` bytes or padded with zeros. -/
def strncpy (name : List UInt8) (n : Nat) : List.Vector UInt8 n :=
  ⟨(name ++ List.replicate n 0).take n, by simp⟩

/-- `strncmp(p, q, n)`; a string that has ended reads as its terminator. -/
def strncmp : List UInt8 → List UInt8 → Nat → Int
  | _, _, 0 => 0
  | p, q, n + 1 =>
    if p.headD 0 ≠ 0 ∧ p.headD 0 = q.headD 0 then strncmp p.tail q.tail n
    else (p.headD 0).toNat - (q.headD 0).toNat

/-- `namecmp`. -/
def namecmp (s t : List UInt8) : Int := strncmp s t dirsiz

theorem strncmp_cons_same {byte : UInt8} (notZero : byte ≠ 0) (p q : List UInt8) (n : Nat) :
    strncmp (byte :: p) (byte :: q) (n + 1) = strncmp p q n := by
  grind [strncmp]

theorem strncmp_ne_zero {p q : List UInt8} (different : p.headD 0 ≠ q.headD 0) (n : Nat) :
    strncmp p q (n + 1) ≠ 0 := by
  grind [strncmp, UInt8.toNat_inj]

/-- The C string at the start of an array of `n` bytes. -/
def cstringOf (n : Nat) (bytes : List UInt8) : List UInt8 := (bytes.take n).takeWhile (· ≠ 0)

/-- `strncmp` compares the C strings. -/
theorem strncmp_eq_zero_iff (p q : List UInt8) (n : Nat) :
    strncmp p q n = 0 ↔ cstringOf n p = cstringOf n q := by
  unfold cstringOf
  induction n generalizing p q with
  | zero => simp [strncmp]
  | succ n inductionHypothesis =>
    match p, q with
    | [], [] => simp [strncmp]
    | [], byte :: q =>
      by_cases zero : byte = 0
      · simp [strncmp, zero]
      · refine iff_of_false (strncmp_ne_zero (by exact Ne.symm zero) n) ?_
        simp [zero]
    | byte :: p, [] =>
      by_cases zero : byte = 0
      · simp [strncmp, zero]
      · refine iff_of_false (strncmp_ne_zero (by exact zero) n) ?_
        simp [zero]
    | first :: p, byte :: q =>
      by_cases same : first = byte
      · by_cases zero : byte = 0
        · simp [strncmp, same, zero]
        · rw [same, strncmp_cons_same zero, inductionHypothesis]
          simp [zero]
      · grind [strncmp_ne_zero, List.takeWhile_cons_of_pos, List.takeWhile_cons_of_neg]

theorem cstringOf_strncpy (name : List UInt8) (n : Nat) :
    cstringOf n (strncpy name n).toList = cstringOf n name := by
  have list : (strncpy name n).toList = (name ++ List.replicate n 0).take n := rfl
  rw [cstringOf, cstringOf, list, List.take_take, min_self, List.take_append, List.takeWhile_append]
  split_ifs with all
  · rw [List.take_replicate]
    have none : (List.replicate (min (n - name.length) n) (0 : UInt8)).takeWhile (· ≠ 0) = [] := by
      cases min (n - name.length) n <;> simp [List.replicate_succ]
    rw [none, List.append_nil]
    exact (List.takeWhile_prefix _).eq_of_length all |>.symm
  · rfl
theorem cstringOf_proper {bytes : List UInt8} (n : Nat) (proper : 0 ∉ bytes) :
    cstringOf n bytes = bytes.take n := by
  refine List.takeWhile_eq_self_iff.mpr fun byte member => ?_
  have notZero : byte ≠ 0 := fun zero => proper (zero ▸ List.mem_of_mem_take member)
  simpa using notZero

/-- Comparing a name with a stored one compares their first `n` bytes. -/
theorem strncmp_strncpy_eq_zero_iff {p name : List UInt8} (n : Nat) (proper : 0 ∉ p)
    (stored : 0 ∉ name) : strncmp p (strncpy name n).toList n = 0 ↔ p.take n = name.take n := by
  rw [strncmp_eq_zero_iff, cstringOf_strncpy, cstringOf_proper n proper, cstringOf_proper n stored]

end Xk
