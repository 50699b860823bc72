/-
This file compares a descriptor on a regular file with what it is for: a string of bytes with a
cursor, that reads and writes advance.

The model of `fileread` and `filewrite` (`kernel/file.c`) is their branch for inodes, over the
inode layer. A sequence of calls behaves like the string with a cursor exactly when no read goes
past the end and no write has any bytes: `readi` does not cut a read at the size of the file,
`filewrite` leaves the offset where it was, and nothing changes the size.
-/

import Xk.Allocator
import Xk.FileTable
import Xk.MkfsReadBack

namespace Xk

open Outcome

/-! ### The calls -/

def oRdonly : Int := 0

def oWronly : Int := 1

/-- An open file and the file system below it. -/
structure OpenFile where
  fs : FileSystem
  file : FileInfo

/-- The branch of `fileread(fd, buf, bytes_read)` for an open file that is no pipe: what it returns,
what it copies to `buf`, and the state after it. -/
def filereadInode (opened : OpenFile) (bytesRead : Int) :
    Except Halt ((Int × List UInt8) × OpenFile) :=
  match opened.file.iptr with
  | none => .ok ((-1, []), opened)
  | some ip =>
    if opened.file.accessPermission = oWronly then .ok ((-1, []), opened)
    else do
      let (result, fs) ← concurrentReadi opened.fs ip (UInt32.ofInt opened.file.offset)
        (UInt32.ofInt bytesRead)
      return (result, { fs := fs, file := { opened.file with
        offset := wrapInt (opened.file.offset + result.1) } })

/-- The branch of `filewrite(fd, buf, bytes_written)` for an open file that is no pipe. -/
def filewriteInode (opened : OpenFile) (buf : List UInt8) (bytesWritten : Int) :
    Except Halt (Int × OpenFile) :=
  match opened.file.iptr with
  | none => .ok (-1, opened)
  | some ip =>
    if opened.file.accessPermission = oRdonly then .ok (-1, opened)
    else do
      let (result, fs) ← concurrentWritei opened.fs ip buf (UInt32.ofInt opened.file.offset)
        (UInt32.ofInt bytesWritten)
      return (result, { opened with fs := fs })

/-- A call with lengths that an `int` can hold. -/
inductive FileCall
  | read (n : Fin (2 ^ 31))
  | write (data : { bytes : List UInt8 // bytes.length < 2 ^ 31 })

/-- A call on the open file: what it returns, the bytes it delivers, and the state after it. -/
def fileCall (opened : OpenFile) : FileCall → Except Halt ((Int × List UInt8) × OpenFile)
  | .read n => filereadInode opened n.val
  | .write data => do
    let (result, after) ← filewriteInode opened data.val data.val.length
    return ((result, []), after)

/-! ### A string with a cursor -/

/-- The contents of a file and the position in it. -/
structure Cursor where
  contents : List UInt8
  pos : Nat

/-- What a call returns and delivers, and the string and the cursor after it. -/
def Cursor.call (cursor : Cursor) : FileCall → (Int × List UInt8) × Cursor
  | .read n =>
    let bytes := (cursor.contents.drop cursor.pos).take n.val
    ((bytes.length, bytes), { cursor with pos := cursor.pos + bytes.length })
  | .write data =>
    ((data.val.length, []), {
      contents := cursor.contents.take cursor.pos ++ data.val ++
        cursor.contents.drop (cursor.pos + data.val.length)
      pos := cursor.pos + data.val.length })

/-- The open file is at the position of the cursor, and its inode has the contents: their length,
and every range of them when it is read. -/
structure OpenFile.Represents (opened : OpenFile) (ip : Fin ninode) (cursor : Cursor) : Prop where
  offset : opened.file.offset = cursor.pos
  size : (opened.fs.inode ip).size.toNat = cursor.contents.length
  contents : ∀ off n : UInt32, off.toNat + n.toNat ≤ cursor.contents.length →
    readi opened.fs { opened.fs.inode ip with locked := true } off n =
      .ok (n.toNat, (cursor.contents.drop off.toNat).take n.toNat)

/-- A sequence of calls returns, delivers and leaves at every step what it does on the string with
a cursor. -/
def OpenFile.Conforms (ip : Fin ninode) : OpenFile → Cursor → List FileCall → Prop
  | _, _, [] => True
  | opened, cursor, call :: calls =>
    ∃ after, fileCall opened call = .ok ((cursor.call call).1, after) ∧
      after.Represents ip (cursor.call call).2 ∧ after.Conforms ip (cursor.call call).2 calls

/-- A read that does not go past the end, or a write of nothing. -/
def Cursor.Safe (cursor : Cursor) : FileCall → Prop
  | .read n => cursor.pos + n.val ≤ cursor.contents.length
  | .write data => data.val = []

/-- Every call of a sequence is safe where the cursor then is. -/
def Cursor.AllSafe : Cursor → List FileCall → Prop
  | _, [] => True
  | cursor, call :: calls => cursor.Safe call ∧ (cursor.call call).2.AllSafe calls

/-! ### Files that `mkfs` made -/

/-- A file of the image of `mkfs` is open for reading and writing, and nobody has its inode
locked. -/
structure OpenFile.OnFile (opened : OpenFile) (ip : Fin ninode) (image : Image)
    (files : List InputFile) (index place : Nat) (file : InputFile) : Prop where
  isPipe : opened.file.isPipe = false
  iptr : opened.file.iptr = some ip
  mode : opened.file.accessPermission = oRdwr
  isPlaced : (placeFiles (dataStart (files.length + 3)) files)[index]? = some (place, file)
  got : opened.fs.Got ip image files (UInt32.ofNat (index + 3))
    (fileDinode place file.contents.length)
  unlocked : (opened.fs.inode ip).locked = false

section OnFile

variable {image : Image} {files : List InputFile} (made : image.Made files) {opened : OpenFile}
  {ip : Fin ninode} {index place : Nat} {file : InputFile}
  (onFile : opened.OnFile ip image files index place file)
include made onFile

theorem OpenFile.OnFile.isInode :
    imageInode (files.length + 3) files (UInt32.ofNat (index + 3)).toNat =
      some (fileDinode place file.contents.length) := by
  have inFiles : index < files.length := by grind [placeFiles_length, OpenFile.OnFile]
  rw [toNat_ofNat_inode ((Nat.add_lt_add_right inFiles 3).le.trans made.le_maxInodes), imageInode,
    onFile.isPlaced]
  rfl

/-- The file is shorter than what an `int` can count. -/
theorem OpenFile.OnFile.length_lt : file.contents.length < 2 ^ 31 := by
  have placed := (placeFiles_bounds (List.mem_of_getElem? onFile.isPlaced)).2.trans made.fits
  have short : file.contents.length ≤ fssize * bsize := (le_blocksOf _).trans
    (Nat.mul_le_mul_right bsize ((Nat.le_add_left _ _).trans placed))
  exact short.trans_lt (by norm_num)

omit made onFile in
theorem fileDinode_typed : (fileDinode place file.contents.length).type ≠ 0 :=
  show tFile ≠ 0 by decide

theorem OpenFile.OnFile.represents {pos : Nat} (offset : opened.file.offset = pos) :
    opened.Represents ip ⟨file.contents, pos⟩ := by
  obtain ⟨size, reads⟩ := onFile.got.mounted.toOnImage.readFile made
    (List.mem_of_getElem? onFile.isPlaced)
    (show Inode.CopyOf { opened.fs.inode ip with locked := true } _ from onFile.got.copyOf) rfl
  exact ⟨offset, size, reads⟩

omit made onFile in
theorem toNat_ofInt {number : Nat} (inRange : number < 2 ^ 32) :
    (UInt32.ofInt (number : Int)).toNat = number := by
  grind [UInt32.ofInt, UInt32.toNat_ofNat']

omit made in
theorem OpenFile.OnFile.move {fs : FileSystem} (offset : Int)
    (got : fs.Got ip image files (UInt32.ofNat (index + 3)) (fileDinode place file.contents.length))
    (unlocked : (fs.inode ip).locked = false) :
    OpenFile.OnFile ⟨fs, { opened.file with offset := offset }⟩ ip image files index place file :=
  ⟨onFile.isPipe, onFile.iptr, onFile.mode, onFile.isPlaced, got, unlocked⟩

/-- A read that does not go past the end. -/
theorem OpenFile.OnFile.read {pos n : Nat} (offset : opened.file.offset = pos)
    (inside : pos + n ≤ file.contents.length) :
    ∃ after, filereadInode opened n =
        .ok (((n : Int), (file.contents.drop pos).take n), after) ∧
      after.OnFile ip image files index place file ∧ after.file.offset = (pos + n : Nat) := by
  have short := onFile.length_lt made
  have isInode := onFile.isInode made
  obtain ⟨locked, isLocked, gotLocked, held, _⟩ :=
    onFile.got.locki made isInode fileDinode_typed onFile.unlocked
  obtain ⟨size, reads⟩ := gotLocked.mounted.toOnImage.readFile made
    (List.mem_of_getElem? onFile.isPlaced) gotLocked.copyOf held
  obtain ⟨unlocked, isUnlocked, gotUnlocked, free⟩ := gotLocked.unlocki isInode held
  have posNat : (UInt32.ofInt (pos : Int)).toNat = pos := toNat_ofInt (by omega)
  have nNat : (UInt32.ofInt (n : Int)).toNat = n := toNat_ofInt (by omega)
  have read := reads (UInt32.ofInt pos) (UInt32.ofInt n) (by rw [posNat, nNat]; exact inside)
  rw [posNat, nNat] at read
  have moved : wrapInt ((pos : Int) + n) = (pos + n : Nat) := by
    rw [wrapInt_of_lt _ (by omega) (by omega)]
    rfl
  refine ⟨⟨unlocked, { opened.file with offset := wrapInt ((pos : Int) + n) }⟩, ?_,
    onFile.move _ gotUnlocked free, moved⟩
  have readable : ¬ oRdwr = oWronly := by decide
  simp only [filereadInode, onFile.iptr, onFile.mode, if_neg readable, concurrentReadi, offset,
    isLocked, read, isUnlocked, ok_bind]
  rfl

omit made onFile in
theorem getCapacity_of_copyOf {inode : Inode}
    (copyOf : inode.CopyOf (fileDinode place file.contents.length)) :
    getCapacity inode = UInt32.ofNat (blocksOf file.contents.length) * 512 := by
  obtain ⟨_, _, _, data⟩ := copyOf
  rw [getCapacity, data]
  exact UInt32.add_zero _

/-- A write of nothing. -/
theorem OpenFile.OnFile.writeNothing {pos : Nat} (offset : opened.file.offset = pos)
    (inside : pos ≤ file.contents.length) :
    ∃ after, filewriteInode opened [] 0 = .ok (0, after) ∧
      after.OnFile ip image files index place file ∧ after.file.offset = pos := by
  have short := onFile.length_lt made
  have isInode := onFile.isInode made
  obtain ⟨locked, isLocked, gotLocked, held, _⟩ :=
    onFile.got.locki made isInode fileDinode_typed onFile.unlocked
  obtain ⟨unlocked, isUnlocked, gotUnlocked, free⟩ := gotLocked.unlocki isInode held
  have notDevice : (locked.inode ip).type ≠ tDev := by
    rw [gotLocked.copyOf.1]
    exact (show tFile ≠ tDev by decide)
  set off := UInt32.ofInt (pos : Int) with isOff
  have posNat : off.toNat = pos := toNat_ofInt (by omega)
  have placed := (placeFiles_bounds (List.mem_of_getElem? onFile.isPlaced)).2.trans made.fits
  have capacityNat : (UInt32.ofNat (blocksOf file.contents.length) * 512).toNat =
      blocksOf file.contents.length * bsize := by
    have blocks : (UInt32.ofNat (blocksOf file.contents.length)).toNat =
        blocksOf file.contents.length := toNat_ofNat_block ((Nat.le_add_left _ _).trans placed)
    rw [toNat_mul_bsize, blocks]
    rw [blocks]
    exact (Nat.mul_le_mul_right bsize ((Nat.le_add_left _ _).trans placed)).trans_lt (by norm_num)
  have roomy : ¬ UInt32.ofNat (blocksOf file.contents.length) * 512 < off := by
    rw [UInt32.lt_iff_toNat_lt, capacityNat, posNat]
    exact Nat.not_lt.mpr (inside.trans (le_blocksOf _))
  have sought : seekExtent (locked.inode ip).data.toList 0 off =
      .ok ((locked.inode ip).data.toList, off) := by
    rw [gotLocked.copyOf.2.2.2]
    show (if 0 + UInt32.ofNat (blocksOf file.contents.length) * 512 < off then _ else _) = _
    rw [UInt32.zero_add, if_neg roomy, UInt32.sub_zero]
    rfl
  have written : writei locked (locked.inode ip) [] off 0 =
      .ok (0, { locked with disk := locked.disk }, locked.inode ip) := by
    have noLoop : ∀ turns, writeLoop 0 (turns + 1) locked.disk (locked.inode ip).data.toList off
        off 0 [] = .ok (locked.disk, []) := by
      intro turns
      unfold writeLoop
      exact if_neg (by decide)
    simp only [writei, held, notDevice, UInt32.add_zero, UInt32.lt_irrefl, getCapacity_of_copyOf
      gotLocked.copyOf, roomy, sought, ok_bind, if_false]
    rw [noLoop]
    rfl
  have same : locked.setInode ip (locked.inode ip) = locked := by
    rw [FileSystem.setInode, Function.update_eq_self]
  refine ⟨⟨unlocked, opened.file⟩, ?_,
    ⟨onFile.isPipe, onFile.iptr, onFile.mode, onFile.isPlaced, gotUnlocked, free⟩, offset⟩
  have writable : ¬ oRdwr = oRdonly := by decide
  simp only [filewriteInode, onFile.iptr, onFile.mode, if_neg writable, concurrentWritei, offset,
    isLocked, ← isOff, ok_bind]
  rw [show UInt32.ofInt 0 = 0 from rfl, written, ok_bind]
  show Except.bind (Except.bind (unlocki (locked.setInode ip (locked.inode ip)) ip) _) _ = _
  rw [same, isUnlocked]
  rfl

omit made onFile in
/-- What `readi` returns for an inode that is no device. -/
theorem readi_result {fs : FileSystem} {inode : Inode} (locked : inode.locked = true)
    (notDevice : inode.type ≠ tDev) {off n : UInt32}
    {result : Int × List UInt8} (isRead : readi fs inode off n = .ok result) :
    result.1 = -1 ∨ result.1 = n.toBitVec.toInt := by
  rw [readi, if_neg (by simp [locked]), if_neg notDevice] at isRead
  split_ifs at isRead with refused
  · grind
  · obtain ⟨sought, _, copied⟩ := ok_of_bind isRead
    obtain ⟨bytes, _, returned⟩ := ok_of_bind copied
    right
    exact (congrArg Prod.fst (Except.ok.inj returned)).symm

/-- A read past the end does not return the number of bytes that are left. -/
theorem OpenFile.OnFile.read_past {pos n : Nat} (offset : opened.file.offset = pos)
    (begun : pos ≤ file.contents.length) (past : file.contents.length < pos + n) (fits : n < 2 ^ 31)
    {result : Int × List UInt8} {after : OpenFile}
    (isRead : filereadInode opened n = .ok (result, after)) :
    result.1 ≠ (file.contents.length - pos : Nat) := by
  have short := onFile.length_lt made
  obtain ⟨locked, isLocked, gotLocked, held, _⟩ :=
    onFile.got.locki made (onFile.isInode made) fileDinode_typed onFile.unlocked
  have readable : ¬ oRdwr = oWronly := by decide
  simp only [filereadInode, onFile.iptr, onFile.mode, if_neg readable, concurrentReadi, offset,
    isLocked, ok_bind] at isRead
  obtain ⟨pair, isPair, returned⟩ := ok_of_bind isRead
  obtain ⟨inner, isInner, unlocked⟩ := ok_of_bind isPair
  obtain ⟨free, _, isFree⟩ := ok_of_bind unlocked
  obtain rfl := Except.ok.inj isFree
  obtain rfl := (ok_pair returned).1
  have nNat : (UInt32.ofInt (n : Int)).toNat = n := toNat_ofInt (by omega)
  have notDevice : (locked.inode ip).type ≠ tDev := by
    rw [gotLocked.copyOf.1]
    exact (show tFile ≠ tDev by decide)
  rcases readi_result held notDevice isInner with failed | all
  · rw [failed]
    omega
  · grind [toInt_of_lt]

omit made in
/-- A write leaves the offset where it was. -/
theorem OpenFile.OnFile.write_offset {buf : List UInt8} {length result : Int} {after : OpenFile}
    (isWritten : filewriteInode opened buf length = .ok (result, after)) :
    after.file = opened.file := by
  have writable : ¬ oRdwr = oRdonly := by decide
  simp only [filewriteInode, onFile.iptr, onFile.mode, if_neg writable] at isWritten
  obtain ⟨pair, _, returned⟩ := ok_of_bind isWritten
  obtain rfl := (ok_pair returned).2
  rfl

end OnFile

/-! ### Whole sequences of calls -/

section Calls

variable {image : Image} {files : List InputFile} {ip : Fin ninode} {index place : Nat}
  {file : InputFile} {opened : OpenFile} {pos : Nat}

/-- A safe call conforms and leaves the file open on the same contents. -/
theorem OpenFile.OnFile.call_of_safe (made : image.Made files)
    (onFile : opened.OnFile ip image files index place file) (offset : opened.file.offset = pos)
    (inside : pos ≤ file.contents.length) {call : FileCall}
    (safe : Cursor.Safe ⟨file.contents, pos⟩ call) :
    ∃ after next, fileCall opened call = .ok ((Cursor.call ⟨file.contents, pos⟩ call).1, after) ∧
      (Cursor.call ⟨file.contents, pos⟩ call).2 = ⟨file.contents, next⟩ ∧
      after.OnFile ip image files index place file ∧ after.file.offset = (next : Nat) ∧
      next ≤ file.contents.length := by
  cases call with
  | read n =>
    change pos + n.val ≤ file.contents.length at safe
    have length : ((file.contents.drop pos).take n.val).length = n.val := by grind
    obtain ⟨after, isRead, onAfter, moved⟩ := onFile.read made offset safe
    refine ⟨after, pos + n.val, ?_, ?_, onAfter, moved, safe⟩
    · show filereadInode opened n.val =
        .ok ((((file.contents.drop pos).take n.val).length, _), after)
      rw [length]
      exact isRead
    · show Cursor.mk file.contents (pos + ((file.contents.drop pos).take n.val).length) = _
      rw [length]
  | write data =>
    obtain ⟨bytes, fits⟩ := data
    obtain rfl : bytes = [] := safe
    obtain ⟨after, isWritten, onAfter, moved⟩ := onFile.writeNothing made offset inside
    refine ⟨after, pos, ?_, ?_, onAfter, moved, inside⟩
    · show (filewriteInode opened [] 0 >>= _) = _
      rw [isWritten]
      rfl
    · show Cursor.mk (file.contents.take pos ++ [] ++ file.contents.drop (pos + 0)) (pos + 0) = _
      rw [List.append_nil, Nat.add_zero, List.take_append_drop]

/-- A call that conforms is safe. -/
theorem OpenFile.OnFile.safe_of_call (made : image.Made files)
    (onFile : opened.OnFile ip image files index place file) (offset : opened.file.offset = pos)
    (inside : pos ≤ file.contents.length) {call : FileCall} {after : OpenFile}
    (called : fileCall opened call = .ok ((Cursor.call ⟨file.contents, pos⟩ call).1, after))
    (represents : after.Represents ip (Cursor.call ⟨file.contents, pos⟩ call).2) :
    Cursor.Safe ⟨file.contents, pos⟩ call := by
  cases call with
  | read n =>
    refine Nat.le_of_not_lt fun past => ?_
    refine onFile.read_past made offset inside past n.isLt called ?_
    show (((file.contents.drop pos).take n.val).length : Int) = (file.contents.length - pos : Nat)
    have past : file.contents.length < pos + n.val := past
    rw [List.length_take, List.length_drop, min_eq_right (by omega)]
  | write data =>
    obtain ⟨⟨result, written⟩, isWritten, returned⟩ := ok_of_bind called
    obtain rfl := (ok_pair returned).2
    have moved : written.file.offset = ((pos + data.val.length : Nat) : Int) := represents.offset
    rw [onFile.write_offset isWritten, offset] at moved
    apply List.eq_nil_of_length_eq_zero
    omega

/-- A sequence of calls conforms exactly when all of them are safe. -/
theorem OpenFile.OnFile.conforms_iff (made : image.Made files) (calls : List FileCall) :
    ∀ {opened : OpenFile} {pos : Nat}, opened.OnFile ip image files index place file →
      opened.file.offset = pos → pos ≤ file.contents.length →
      (opened.Conforms ip ⟨file.contents, pos⟩ calls ↔
        Cursor.AllSafe ⟨file.contents, pos⟩ calls) := by
  induction calls with
  | nil => exact fun _ _ _ => Iff.rfl
  | cons call calls inductionHypothesis =>
    intro opened pos onFile offset inside
    constructor
    · rintro ⟨after, called, represents, conforms⟩
      have safe := onFile.safe_of_call made offset inside called represents
      obtain ⟨same, next, isSame, moved, onAfter, offsetAfter, insideAfter⟩ :=
        onFile.call_of_safe made offset inside safe
      obtain rfl := (ok_pair (isSame.symm.trans called)).2
      refine ⟨safe, ?_⟩
      rw [moved] at conforms ⊢
      exact (inductionHypothesis onAfter offsetAfter insideAfter).mp conforms
    · rintro ⟨safe, rest⟩
      obtain ⟨after, next, called, moved, onAfter, offsetAfter, insideAfter⟩ :=
        onFile.call_of_safe made offset inside safe
      rw [moved] at rest
      refine ⟨after, called, ?_, ?_⟩
      · grind [represents]
      · grind

end Calls

/-- A descriptor on a file of `mkfs` that is at the start of the file behaves like the bytes of the
file with a cursor for exactly those sequences of calls in which every call is safe. -/
theorem fileCalls_conform_iff {files : List InputFile} (few : files.length < 65000) {image : Image}
    (isMade : mkfs files = .ok image) {ip : Fin ninode} {index place : Nat} {file : InputFile}
    {opened : OpenFile} (onFile : opened.OnFile ip image files index place file)
    (start : opened.file.offset = 0) (calls : List FileCall) :
    opened.Represents ip ⟨file.contents, 0⟩ ∧
      (opened.Conforms ip ⟨file.contents, 0⟩ calls ↔ Cursor.AllSafe ⟨file.contents, 0⟩ calls) := by
  have made := Image.made_of_mkfs few isMade
  exact ⟨onFile.represents made start,
    OpenFile.OnFile.conforms_iff made calls onFile start (Nat.zero_le _)⟩

/-- The open file after `iget` has returned the inode of a file. -/
def OpenFile.first (fs : FileSystem) (ip : Fin ninode) : OpenFile :=
  ⟨fs, { FileInfo.zero with iptr := some ip, accessPermission := oRdwr }⟩

/-- The kernel boots and gets the inode of any file of the image. -/
theorem Image.Made.boots {image : Image} {files : List InputFile} (made : image.Made files)
    {index place : Nat} {file : InputFile}
    (isPlaced : (placeFiles (dataStart (files.length + 3)) files)[index]? = some (place, file)) :
    ∃ booted ip fs, (∀ slot, booted.inode slot = .zero) ∧
      iget booted rootdev (UInt32.ofNat (index + 3)) = .ok (ip, fs) ∧
      (OpenFile.first fs ip).OnFile ip image files index place file ∧
      ∀ other, other ≠ ip → fs.inode other = .zero := by
  let disk : Disk := ⟨image.length / bsize, image.bytes, by rw [made.holding.length]; decide⟩
  obtain ⟨booted, _, mounted, zero⟩ := made.iinit (show disk.Linked image from ⟨rfl, rfl⟩)
    ⟨fun _ => none, fun _ => none⟩
  have inFiles : index < files.length := by grind [placeFiles_length]
  have isInode : imageInode (files.length + 3) files (UInt32.ofNat (index + 3)).toNat =
      some (fileDinode place file.contents.length) := by
    grind [toNat_ofNat_inode, Image.Made, imageInode]
  obtain ⟨ip, fs, isGot, got, _, lock, others⟩ :=
    mounted.iget made isInode fileDinode_typed ⟨0, by rw [zero]; rfl⟩
  refine ⟨booted, ip, fs, zero, isGot, ⟨rfl, rfl, rfl, isPlaced, got, ?_⟩,
    fun other different => ?_⟩
  · show (fs.inode ip).locked = false
    rw [lock, zero]
    rfl
  · rw [others other different, zero]

/-- Every file of the image can be opened. -/
theorem Image.Made.opens {image : Image} {files : List InputFile} (made : image.Made files)
    {index place : Nat} {file : InputFile}
    (isPlaced : (placeFiles (dataStart (files.length + 3)) files)[index]? = some (place, file)) :
    ∃ ip opened, OpenFile.OnFile opened ip image files index place file ∧
      opened.file.offset = 0 := by
  obtain ⟨_, ip, fs, _, _, onFile, _⟩ := made.boots isPlaced
  exact ⟨ip, _, onFile, rfl⟩

theorem fileCalls_conform_iff_twoFiles : ∃ (image : Image) (ip : Fin ninode) (place : Nat)
    (file : InputFile) (opened : OpenFile), mkfs twoFiles = .ok image ∧
      opened.OnFile ip image twoFiles 0 place file ∧ opened.file.offset = 0 ∧
      file.contents = [1, 2, 3] ∧
      opened.Conforms ip ⟨file.contents, 0⟩ [.read 2, .read 1, .read 0] := by
  obtain ⟨image, isMade⟩ := mkfs_twoFiles
  have made := Image.made_of_mkfs (by decide) isMade
  obtain ⟨ip, opened, onFile, start⟩ := made.opens
    (show (placeFiles (dataStart (twoFiles.length + 3)) twoFiles)[0]? = some _ from rfl)
  exact ⟨image, ip, _, _, opened, isMade, onFile, start, rfl,
    (fileCalls_conform_iff (by decide) isMade onFile start _).2.mpr
      (by simp only [Cursor.AllSafe, Cursor.Safe, Cursor.call]; decide)⟩

/-- One byte written at the start of a file of three: the call does not conform. -/
theorem write_not_conform : ∃ (image : Image) (ip : Fin ninode) (place : Nat) (file : InputFile)
    (opened : OpenFile), mkfs twoFiles = .ok image ∧
      opened.OnFile ip image twoFiles 0 place file ∧ opened.file.offset = 0 ∧
      file.contents = [1, 2, 3] ∧
      ¬ opened.Conforms ip ⟨file.contents, 0⟩ [.write ⟨[9], by decide⟩] ∧
      ¬ opened.Conforms ip ⟨file.contents, 0⟩ [.read 5] := by
  obtain ⟨image, isMade⟩ := mkfs_twoFiles
  have made := Image.made_of_mkfs (by decide) isMade
  obtain ⟨ip, opened, onFile, start⟩ := made.opens
    (show (placeFiles (dataStart (twoFiles.length + 3)) twoFiles)[0]? = some _ from rfl)
  have conforms := fun calls =>
    OpenFile.OnFile.conforms_iff made calls onFile start (Nat.zero_le _)
  refine ⟨image, ip, _, _, opened, isMade, onFile, start, rfl, fun wrote => ?_, fun read => ?_⟩
  · have safe := ((conforms _).mp wrote).1
    exact absurd safe (List.cons_ne_nil _ _)
  · have safe := ((conforms _).mp read).1
    exact absurd safe (show ¬ 0 + 5 ≤ 3 by decide)

end Xk
