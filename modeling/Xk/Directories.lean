/-
This file describes what a lookup does in a file system whose inode cache agrees with the disk. The
directories are stored in one extent each, and their entries are read off the disk.

`skipelem` takes the elements of a path one by one. `dirlookup` finds the first live entry with a
name and gets its inode, and so the loop of `namex` follows the elements from inode to inode. It
changes nothing but references, locks that it gives back, and entries of the cache that are copies of
records again.
-/

import Xk.InodeRecords
import Xk.InodeReferences

namespace Xk

open Outcome

variable {path : List UInt8} {index : Nat} {ip : Fin ninode}
  {found : Option (Fin ninode × List UInt8)}

/-! ### Elements of paths -/

/-- The elements of a path: its maximal pieces without a slash, cut to the length of a name. -/
def elements (path : List UInt8) : List (List UInt8) :=
  ((path.splitOn slash).filter (· ≠ [])).map (List.take dirsiz)

theorem elements_slash (path : List UInt8) : elements (slash :: path) = elements path := by rfl

theorem elements_dropWhile (path : List UInt8) :
    elements (path.dropWhile (· = slash)) = elements path := by
  induction path with
  | nil => rfl
  | cons byte path inductionHypothesis => grind [List.dropWhile_cons, elements_slash]

/-- The first element of a path that begins with one. -/
theorem elements_cons {byte : UInt8} (notSlash : byte ≠ slash) (rest : List UInt8) :
    elements (byte :: rest) = ((byte :: rest).takeWhile (· ≠ slash)).take dirsiz ::
      elements ((byte :: rest).dropWhile (· ≠ slash)) := by
  have split := List.takeWhile_append_dropWhile (p := (· ≠ slash)) (l := byte :: rest)
  have ended := List.head?_dropWhile_not (· ≠ slash) (byte :: rest)
  have piece : ∀ other ∈ (byte :: rest).takeWhile (· ≠ slash), (other == slash) = false :=
    fun other member => by simpa using List.mem_takeWhile_imp member
  have nonempty : (byte :: rest).takeWhile (· ≠ slash) ≠ [] := by grind
  generalize (byte :: rest).takeWhile (· ≠ slash) = first at split piece nonempty ⊢
  generalize (byte :: rest).dropWhile (· ≠ slash) = last at split ended ⊢
  rw [← split]
  cases last with
  | nil =>
    rw [List.append_nil, elements, List.splitOn, List.splitOnP_eq_singleton piece,
      List.filter_cons_of_pos (by simpa using nonempty)]
    rfl
  | cons other last =>
    grind [elements_slash, elements, List.splitOn, List.splitOnP_append_cons_of_forall_mem]

/-- A path without leading slashes has an element, or it is empty. -/
theorem elements_dropWhile_eq_nil (none : elements path = []) :
    path.dropWhile (· = slash) = [] := by
  have notSlash := List.head?_dropWhile_not (· = slash) path
  rw [← elements_dropWhile] at none
  cases isRest : path.dropWhile (· = slash) with
  | nil => rfl
  | cons byte rest => grind [elements_cons]

theorem skipelem_none (ended : skipelem path = none) : elements path = [] := by
  unfold skipelem at ended
  split at ended
  · rename_i isNil
    rw [← elements_dropWhile, isNil]
    rfl
  · cases ended

/-- `skipelem` takes the first element of a path. -/
theorem skipelem_some {name rest : List UInt8} (isElement : skipelem path = some (name, rest)) :
    elements path = name :: elements rest ∧ (rest = [] ↔ elements rest = []) ∧
      rest.length < path.length := by
  have notSlash := List.head?_dropWhile_not (· = slash) path
  have shorter := (List.dropWhile_sublist (l := path) (· = slash)).length_le
  unfold skipelem at isElement
  split at isElement
  · cases isElement
  · rename_i byte behind isCons
    obtain ⟨rfl, rfl⟩ := Prod.mk.inj (Option.some_inj.mp isElement)
    rw [isCons] at notSlash shorter
    have notSlash : byte ≠ slash := by simpa using notSlash
    refine ⟨?_, ⟨fun isNil => by rw [isNil]; rfl, fun isNil => ?_⟩, ?_⟩
    · rw [elements_dropWhile, ← elements_cons notSlash, ← isCons, elements_dropWhile]
    · rw [elements_dropWhile] at isNil
      exact elements_dropWhile_eq_nil isNil
    · grind [List.dropWhile_cons_of_pos, List.dropWhile_sublist]

/-! ### Entries of directories -/

/-- The name of an entry. -/
def Dirent.label (de : Dirent) : List UInt8 := cstringOf dirsiz de.name.toList

/-- The entry is live and has the name. -/
def Dirent.names (name : List UInt8) (de : Dirent) : Bool :=
  de.inum ≠ 0 ∧ de.label = cstringOf dirsiz name

/-- The test of `dirlookup`. -/
theorem Dirent.names_iff (name : List UInt8) (de : Dirent) :
    de.names name = true ↔ de.inum ≠ 0 ∧ namecmp name de.name.toList = 0 := by
  rw [names, decide_eq_true_eq, namecmp, strncmp_eq_zero_iff, label,
    eq_comm (a := cstringOf _ name)]

/-- An entry of a directory, by its index. -/
def FileSystem.entryOf (fs : FileSystem) (dir : UInt32) (index : Nat) : Dirent :=
  Dirent.decode (Bytes.load fs.disk.bytes
    ((fs.record dir).data.head.address + index * direntSize) direntSize)

/-- The entries of a directory. -/
def FileSystem.entriesOf (fs : FileSystem) (dir : UInt32) : List Dirent :=
  (List.range ((fs.record dir).size.toNat / direntSize)).map (fs.entryOf dir)

/-- The first live entry of a directory with the name. -/
def FileSystem.findIn (fs : FileSystem) (dir : UInt32) (name : List UInt8) : Option Dirent :=
  (fs.entriesOf dir).find? (Dirent.names name)

/-- The inode that a name leads to. Only directories lead on. -/
def FileSystem.child (fs : FileSystem) (inum : UInt32) (name : List UInt8) : Option UInt32 :=
  if (fs.record inum).type = tDir then (fs.findIn inum name).map fun de => de.inum.toUInt32
  else none

/-- The inode that names lead to, one after the other. -/
def FileSystem.follow (fs : FileSystem) (inum : UInt32) (names : List (List UInt8)) :
    Option UInt32 :=
  names.foldlM fs.child inum

/-- The directory of the last of the names, with this name. -/
def FileSystem.followParent (fs : FileSystem) (inum : UInt32) :
    List (List UInt8) → Option (UInt32 × List UInt8)
  | [] => none
  | [name] => if (fs.record inum).type = tDir then some (inum, name) else none
  | name :: next :: names => do
    let child ← fs.child inum name
    fs.followParent child (next :: names)

theorem FileSystem.entriesOf_length (fs : FileSystem) (dir : UInt32) :
    (fs.entriesOf dir).length = (fs.record dir).size.toNat / direntSize := by
  rw [entriesOf, List.length_map, List.length_range]

theorem FileSystem.entriesOf_drop (fs : FileSystem) {dir : UInt32}
    (inside : index < (fs.record dir).size.toNat / direntSize) :
    (fs.entriesOf dir).drop index = fs.entryOf dir index :: (fs.entriesOf dir).drop
      (index + 1) := by
  grind [List.drop_eq_getElem_cons, entriesOf]

/-! ### The inode cache and the disk -/

/-- A directory is on the disk in one piece. -/
structure FileSystem.DirStored (fs : FileSystem) (dir : UInt32) : Prop where
  isDir : (fs.record dir).type = tDir
  onDisk : (fs.record dir).data.head.OnDisk fs.disk
  whole : direntSize ∣ (fs.record dir).size.toNat
  fits : (fs.record dir).size.toNat ≤ (fs.record dir).data.head.bytes

/-- A set of inodes that have records and that lookups from the root do not leave. -/
structure FileSystem.Tree (fs : FileSystem) (Known : UInt32 → Prop) : Prop where
  root : Known rootino
  hasRecord : ∀ inum, Known inum → fs.HasRecord inum
  stored : ∀ inum, Known inum → (fs.record inum).type = tDir → fs.DirStored inum
  closed : ∀ inum, Known inum → (fs.record inum).type = tDir →
    ∀ de ∈ fs.entriesOf inum, de.inum ≠ 0 → Known de.inum.toUInt32

/-- The inode cache agrees with the disk: entries with references are copies of records, and no inode
has two of them. -/
structure FileSystem.Agrees (fs : FileSystem) (Known : UInt32 → Prop) : Prop where
  table : fs.TableReady
  tree : fs.Tree Known
  cached : ∀ ip, 1 ≤ (fs.inode ip).ref →
    (fs.inode ip).dev = rootdev ∧ fs.Cached ip ∧ Known (fs.inode ip).inum
  unique : ∀ ip other, 1 ≤ (fs.inode ip).ref → 1 ≤ (fs.inode other).ref →
    (fs.inode ip).inum = (fs.inode other).inum → ip = other

section SameStore

variable {fs after : FileSystem} (same : fs.SameStore after)
include same

theorem FileSystem.SameStore.record (inum : UInt32) : after.record inum = fs.record inum := by
  grind [FileSystem.record, FileSystem.recordAddress, FileSystem.table, FileSystem.SameStore]

theorem FileSystem.SameStore.entriesOf (dir : UInt32) : after.entriesOf dir = fs.entriesOf dir := by
  have sameEntry : after.entryOf dir = fs.entryOf dir := by
    funext index
    rw [FileSystem.entryOf, FileSystem.entryOf, same.record, same.disk]
  rw [FileSystem.entriesOf, FileSystem.entriesOf, same.record, sameEntry]

theorem FileSystem.SameStore.child : after.child = fs.child := by
  funext inum name
  rw [FileSystem.child, FileSystem.child, FileSystem.findIn, FileSystem.findIn, same.record,
    same.entriesOf]

theorem FileSystem.SameStore.follow : after.follow = fs.follow := by
  funext inum names
  rw [FileSystem.follow, FileSystem.follow, same.child]

theorem FileSystem.SameStore.followParent (inum : UInt32) (names : List (List UInt8)) :
    after.followParent inum names = fs.followParent inum names := by
  fun_induction FileSystem.followParent fs inum names with
  | case1 => rfl
  | case2 inum name isDir => rw [FileSystem.followParent, same.record, if_pos isDir]
  | case3 inum name isFile => rw [FileSystem.followParent, same.record, if_neg isFile]
  | case4 inum name next names inductionHypothesis =>
    rw [FileSystem.followParent, same.child]
    exact bind_congr inductionHypothesis

theorem FileSystem.DirStored.of_sameStore {dir : UInt32} (stored : fs.DirStored dir) :
    after.DirStored dir := by
  grind [FileSystem.SameStore.record, FileSystem.DirStored, FileSystem.SameStore]

theorem FileSystem.Tree.of_sameStore {Known : UInt32 → Prop} (tree : fs.Tree Known) :
    after.Tree Known where
  root := tree.root
  hasRecord inum known := (tree.hasRecord inum known).congr same.inodefile
  stored inum known isDir :=
    FileSystem.DirStored.of_sameStore same (tree.stored inum known (same.record inum ▸ isDir))
  closed inum known isDir := by
    rw [same.entriesOf]
    exact tree.closed inum known (same.record inum ▸ isDir)

end SameStore

section Cache

variable {fs after : FileSystem} {Known : UInt32 → Prop} {ip : Fin ninode}

section

variable (agrees : fs.Agrees Known)
include agrees

/-- An entry of the cache is replaced by one that is a copy of a record. -/
theorem FileSystem.Agrees.setInode {inode : Inode}
    (copied : 1 ≤ inode.ref → inode.dev = rootdev ∧ inode.CopyOf (fs.record inode.inum) ∧
      Known inode.inum ∧
      ∀ other, other ≠ ip → 1 ≤ (fs.inode other).ref → (fs.inode other).inum ≠ inode.inum) :
    (fs.setInode ip inode).Agrees Known where
  table := ⟨agrees.table.notDevice, agrees.table.onDisk, agrees.table.referenced,
    agrees.table.unlocked⟩
  tree := FileSystem.Tree.of_sameStore (setInode_sameStore fs ip inode) agrees.tree
  cached other referenced := by
    by_cases same : other = ip
    · subst same
      have isInode := fs.setInode_self other inode
      rw [isInode] at referenced ⊢
      obtain ⟨isDev, copyOf, known, _⟩ := copied referenced
      have hasRecord := agrees.tree.hasRecord inode.inum known
      exact ⟨isDev, ⟨by rwa [isInode], by rwa [isInode], by rwa [isInode]⟩, known⟩
    · have isInode := fs.setInode_of_ne inode same
      rw [isInode] at referenced ⊢
      obtain ⟨isDev, ⟨_, hasRecord, copyOf⟩, known⟩ := agrees.cached other referenced
      exact ⟨isDev, ⟨by rwa [isInode], by rwa [isInode], by rwa [isInode]⟩, known⟩
  unique first second firstRef secondRef same := by
    by_cases firstIs : first = ip
    · grind [FileSystem.setInode_of_ne, FileSystem.setInode_self]
    · grind [FileSystem.setInode_self, FileSystem.setInode_of_ne, FileSystem.Agrees]

/-- A change of an entry that leaves its inode as it was. -/
theorem FileSystem.Agrees.keepInode {inode : Inode} (sameDev : inode.dev = (fs.inode ip).dev)
    (sameInum : inode.inum = (fs.inode ip).inum) (counted : 1 ≤ inode.ref → 1 ≤ (fs.inode ip).ref)
    (copied : 1 ≤ inode.ref → inode.type = (fs.inode ip).type ∧ inode.devid = (fs.inode ip).devid ∧
      inode.size = (fs.inode ip).size ∧ inode.data = (fs.inode ip).data) :
    (fs.setInode ip inode).Agrees Known := by
  refine agrees.setInode fun referenced => ?_
  obtain ⟨isDev, ⟨_, _, copyOf⟩, known⟩ := agrees.cached ip (counted referenced)
  obtain ⟨isType, isDevid, isSize, isData⟩ := copied referenced
  rw [sameInum, sameDev]
  refine ⟨isDev, ?_, known, fun other different otherRef same => ?_⟩
  · rwa [Inode.CopyOf, isType, isDevid, isSize, isData]
  · exact different (agrees.unique other ip otherRef (counted referenced) same)

theorem FileSystem.Agrees.unlocki (unlocks : unlocki fs ip = .ok after) :
    after.Agrees Known := by
  rw [unlocki_eq unlocks]
  exact agrees.keepInode rfl rfl id fun _ => ⟨rfl, rfl, rfl, rfl⟩

theorem FileSystem.Agrees.idup (referenced : 1 ≤ (fs.inode ip).ref) :
    (idup fs ip).Agrees Known :=
  agrees.keepInode rfl rfl (fun _ => referenced) fun _ => ⟨rfl, rfl, rfl, rfl⟩

theorem FileSystem.Agrees.irelease (ip : Fin ninode) :
    (irelease fs ip).Agrees Known := by
  refine agrees.keepInode rfl rfl (fun referenced => ?_) fun referenced => ?_
  · grind
  · grind

/-- Locking an entry makes it valid and changes nothing else. -/
theorem FileSystem.Agrees.locki (locks : locki fs ip = .ok after) :
    1 ≤ (fs.inode ip).ref ∧ (fs.inode ip).locked = false ∧
      after = fs.setInode ip { fs.inode ip with locked := true, valid := true } ∧
      after.Agrees Known := by
  have described : 1 ≤ (fs.inode ip).ref ∧ (fs.inode ip).locked = false ∧
      after = fs.setInode ip { fs.inode ip with locked := true, valid := true } := by
    unfold Xk.locki at locks
    dsimp only at locks
    split_ifs at locks with unreferenced locked isValid
    · grind
    · have referenced : 1 ≤ (fs.inode ip).ref := by omega
      obtain ⟨_, ⟨_, hasRecord, copyOf⟩, _⟩ := agrees.cached ip referenced
      rw [agrees.table.readDinodeLocked hasRecord, ok_bind] at locks
      split_ifs at locks
      refine ⟨referenced, Bool.eq_false_iff.mpr locked, (Except.ok.inj locks).symm.trans ?_⟩
      exact congrArg (fs.setInode ip) (Inode.copy_of_copyOf copyOf)
  obtain ⟨referenced, unlocked, rfl⟩ := described
  exact ⟨referenced, unlocked, rfl,
    agrees.keepInode rfl rfl (fun _ => referenced) fun _ => ⟨rfl, rfl, rfl, rfl⟩⟩

/-- `iget` of a known inode. -/
theorem FileSystem.Agrees.iget {inum : UInt32} (known : Known inum)
    (got : iget fs rootdev inum = .ok (ip, after)) :
    after.Agrees Known ∧ 1 ≤ (after.inode ip).ref ∧ (after.inode ip).inum = inum := by
  unfold Xk.iget at got
  split at got
  · rename_i found hit
    obtain ⟨rfl, rfl⟩ := ok_pair got
    have caches := List.find?_some hit
    simp only [FileSystem.caches, decide_eq_true_eq] at caches
    obtain ⟨counted, _, isInum⟩ := caches
    refine ⟨agrees.keepInode rfl rfl (fun _ => counted) fun _ => ⟨rfl, rfl, rfl, rfl⟩, ?_, ?_⟩
    · grind [FileSystem.setInode_self]
    · simp_all
  · rename_i missing
    split at got
    · cases got
    · rename_i slot isFree
      have ready : ∀ inode, (fs.setInode slot inode).TableReady := fun _ =>
        ⟨agrees.table.notDevice, agrees.table.onDisk, agrees.table.referenced,
          agrees.table.unlocked⟩
      dsimp only at got
      rw [(ready _).readDinode (agrees.tree.hasRecord inum known), ok_bind] at got
      split_ifs at got
      obtain ⟨rfl, rfl⟩ := ok_pair got
      refine ⟨agrees.setInode fun _ => ⟨rfl, Inode.copy_copyOf _ _, known,
        fun other _ otherRef same => ?_⟩, ?_, ?_⟩
      · have notCached := List.find?_eq_none.mp missing other (List.mem_finRange other)
        refine notCached (decide_eq_true ⟨otherRef, (agrees.cached other otherRef).1, same⟩)
      · rw [fs.setInode_self]
        exact le_rfl
      · rw [fs.setInode_self]
        rfl

end

end Cache


/-! ### Searching a directory -/

section Lookup

variable {fs after : FileSystem} {Known : UInt32 → Prop} {dp : Fin ninode} {dir : UInt32}

/-- The entries of a directory are read one by one. -/
theorem FileSystem.DirStored.readi (stored : fs.DirStored dir)
    (copyOf : (fs.inode dp).CopyOf (fs.record dir)) (held : (fs.inode dp).locked = true)
    {off : UInt32} (isOff : off.toNat = index * direntSize) (inside : off < (fs.inode dp).size) :
    index < (fs.record dir).size.toNat / direntSize ∧ (off + 16).toNat = (index + 1) * direntSize ∧
      ∃ record, readi fs (fs.inode dp) off 16 = .ok (16, record) ∧
        Dirent.decode record = fs.entryOf dir index := by
  obtain ⟨isType, _, isSize, isData⟩ := copyOf
  have bytes := stored.onDisk.bytes_lt
  have fits := stored.fits
  obtain ⟨count, isCount⟩ := stored.whole
  rw [UInt32.lt_iff_toNat_lt, isSize, isOff, isCount] at inside
  rw [isCount, Nat.mul_div_cancel_left _ (by decide)]
  have indexInside : index < count :=
    Nat.lt_of_mul_lt_mul_right (inside.trans_eq (Nat.mul_comm _ _))
  have entryFits : index * 16 + 16 ≤ (fs.record dir).data.head.bytes := by grind
  refine ⟨indexInside, ?_, _, ?_, rfl⟩
  · grind [toNat_add_of_lt]
  · have notDevice : (fs.inode dp).type ≠ tDev := by
      rw [isType, stored.isDir]
      decide
    rw [← isOff]
    refine readi_first notDevice (congrArg List.Vector.head isData) stored.onDisk held ?_ ?_
    · grind
    · rw [isOff]
      exact entryFits

/-- The loop of `dirlookup` finds the first live entry with the name from an index on, and gets its
inode. -/
theorem FileSystem.DirStored.dirlookupLoop (stored : fs.DirStored dir)
    (copyOf : (fs.inode dp).CopyOf (fs.record dir)) (held : (fs.inode dp).locked = true)
    (name : List UInt8) {turns : Nat} {off : UInt32} (isOff : off.toNat = index * direntSize)
    (enough : (fs.inode dp).size.toNat - off.toNat < turns) :
    (((fs.entriesOf dir).drop index).find? (Dirent.names name) = none ∧
        dirlookupLoop fs dp name turns off = .ok (none, fs)) ∨
      ∃ de offset, ((fs.entriesOf dir).drop index).find? (Dirent.names name) = some de ∧
        dirlookupLoop fs dp name turns off = (do
          let (next, found) ← Xk.iget fs (fs.inode dp).dev de.inum.toUInt32
          return (some (next, offset), found)) := by
  induction turns generalizing off index with
  | zero => exact absurd enough (Nat.not_lt_zero _)
  | succ turns inductionHypothesis =>
    unfold Xk.dirlookupLoop
    by_cases inside : off < (fs.inode dp).size
    · obtain ⟨indexInside, nextOff, record, isRead, isEntry⟩ :=
        stored.readi copyOf held isOff inside
      have fewer : (fs.inode dp).size.toNat - (off + 16).toNat < turns := by
        grind [UInt32.lt_iff_toNat_lt]
      rw [if_pos inside, isRead, ok_bind]
      dsimp only
      rw [if_neg (by decide), isEntry, fs.entriesOf_drop indexInside, List.find?_cons]
      by_cases hit : Dirent.names name (fs.entryOf dir index) = true
      · obtain ⟨isLive, isNamed⟩ := (Dirent.names_iff _ _).mp hit
        rw [hit, if_neg isLive, if_pos isNamed]
        exact Or.inr ⟨_, off, rfl, rfl⟩
      · have passed := hit
        rw [Dirent.names_iff, not_and_or, ne_eq, not_not] at passed
        rw [Bool.eq_false_iff.mpr hit]
        have rest := inductionHypothesis nextOff fewer
        split_ifs with isFree isNamed
        · exact rest
        · exact absurd isNamed (passed.resolve_left isFree)
        · exact rest
    · rw [if_neg inside]
      refine Or.inl ⟨?_, rfl⟩
      have past : (fs.entriesOf dir).length ≤ index := by
        obtain ⟨_, _, isSize, _⟩ := copyOf
        rw [UInt32.lt_iff_toNat_lt, isSize, isOff] at inside
        rw [fs.entriesOf_length]
        exact Nat.div_le_of_le_mul (by rw [Nat.mul_comm]; omega)
      rw [List.drop_eq_nil_of_le past, List.find?_nil]

/-- A directory in the cache is stored. -/
theorem FileSystem.Agrees.dirStored (agrees : fs.Agrees Known)
    (referenced : 1 ≤ (fs.inode dp).ref) (isDir : (fs.inode dp).type = tDir) :
    fs.DirStored (fs.inode dp).inum := by
  obtain ⟨_, cached, known⟩ := agrees.cached dp referenced
  exact agrees.tree.stored _ known (cached.copyOf.1.symm.trans isDir)

/-- `dirlookup` finds the first live entry with the name and gets its inode. -/
theorem FileSystem.Agrees.dirlookup (agrees : fs.Agrees Known) (referenced : 1 ≤ (fs.inode dp).ref)
    (held : (fs.inode dp).locked = true) (isDir : (fs.inode dp).type = tDir) (name : List UInt8) :
    (fs.findIn (fs.inode dp).inum name = none ∧ dirlookup fs dp name = .ok (none, fs)) ∨
      ∃ de offset, fs.findIn (fs.inode dp).inum name = some de ∧
        dirlookup fs dp name = (do
          let (next, found) ← Xk.iget fs rootdev de.inum.toUInt32
          return (some (next, offset), found)) := by
  obtain ⟨isDev, cached, _⟩ := agrees.cached dp referenced
  rw [Xk.dirlookup, if_neg (not_not.mpr isDir), ← isDev]
  exact (agrees.dirStored referenced isDir).dirlookupLoop cached.copyOf held name
    (show (0 : UInt32).toNat = 0 * direntSize from rfl) (by rw [UInt32.toNat_zero]; omega)

theorem setInode_inum (fs : FileSystem) {inode : Inode} (same : inode.inum = (fs.inode ip).inum)
    (other : Fin ninode) :
    ((fs.setInode ip inode).inode other).inum = (fs.inode other).inum := by
  grind [FileSystem.setInode_self, FileSystem.setInode_of_ne]

/-! ### Entries that a lookup leaves alone -/

section Slots

variable {ip slot : Fin ninode}

theorem iget_inum {dev inum : UInt32} (got : iget fs dev inum = .ok (ip, after))
    (referenced : 1 ≤ (fs.inode slot).ref) :
    (after.inode slot).inum = (fs.inode slot).inum := by
  unfold iget at got
  split at got
  · grind [setInode_inum]
  · split at got
    · cases got
    · rename_i taken isFree
      obtain ⟨dip, _, got⟩ := ok_of_bind got
      split_ifs at got
      obtain ⟨rfl, rfl⟩ := ok_pair got
      have free : (fs.inode taken).ref = 0 := by simpa using List.find?_some isFree
      have differs : slot ≠ taken := by
        rintro rfl
        omega
      rw [fs.setInode_of_ne _ differs]

theorem locki_inum (locks : locki fs ip = .ok after) (slot : Fin ninode) :
    (after.inode slot).inum = (fs.inode slot).inum := by
  unfold locki at locks
  dsimp only at locks
  split_ifs at locks
  · grind [setInode_inum]
  · obtain ⟨dip, _, locks⟩ := ok_of_bind locks
    split_ifs at locks
    rw [← Except.ok.inj locks]
    exact setInode_inum fs (by rfl) slot

theorem unlocki_inum (unlocks : unlocki fs ip = .ok after) (slot : Fin ninode) :
    (after.inode slot).inum = (fs.inode slot).inum := by
  rw [unlocki_eq unlocks]
  exact setInode_inum fs (by rfl) slot

theorem irelease_inum (fs : FileSystem) (ip slot : Fin ninode) :
    ((irelease fs ip).inode slot).inum = (fs.inode slot).inum :=
  setInode_inum fs (by rfl) slot

/-- A lookup leaves entries alone that have a reference of their own. -/
theorem namexLoop_inum {parent : Bool} {turns : Nat} {name : List UInt8}
    (looked : namexLoop parent turns fs ip path name = .ok (found, after))
    (referenced : 1 ≤ (fs.inode slot).ref) (more : slot = ip → 2 ≤ (fs.inode slot).ref) :
    (after.inode slot).inum = (fs.inode slot).inum := by
  refine namexLoop_rule (fun now at' => (now.inode slot).inum = (fs.inode slot).inum ∧
      1 ≤ now.refs slot ∧ (slot = at' → 2 ≤ now.refs slot))
    (fun _ after => (after.inode slot).inum = (fs.inode slot).inum) ?_ ?_ ?_ ?_
    ⟨rfl, referenced, more⟩ looked
  · exact fun now at' kept => (irelease_inum now at' slot).trans kept.1
  · exact fun _ _ _ kept => kept.1
  · intro now at' locked unlocked kept locks unlocks
    rw [unlocki_inum unlocks, locki_inum locks, unlocki_refs unlocks, locki_refs locks]
    exact kept
  · -- the entry keeps its own reference, and has one more if the lookup goes on from it
    intro now at' locked dev inum next searched unlocked kept locks got unlocks
    obtain ⟨sameInum, one, two⟩ := kept
    have counted := congrFun (irelease_refs unlocked at') slot
    rw [Pi.add_apply, unlocki_refs unlocks, iget_refs got, locki_refs locks,
      Pi.add_apply] at counted
    have lockedRef : 1 ≤ locked.refs slot := by rwa [locki_refs locks]
    have nextRef : 0 ≤ oneRef next slot := oneRef_nonneg next slot
    refine ⟨?_, ?_, fun isNext => ?_⟩
    · rw [irelease_inum, unlocki_inum unlocks, iget_inum got lockedRef, locki_inum locks, sameInum]
    · by_cases isIp : slot = at'
      · grind [oneRef_self]
      · grind [oneRef_of_ne]
    · have added : oneRef next slot = 1 := by rw [isNext, oneRef_self]
      by_cases isIp : slot = at'
      · grind [oneRef_self]
      · grind [oneRef_of_ne]

theorem namexStart_inum (started : namexStart fs path = .ok (ip, after))
    (referenced : 1 ≤ (fs.inode slot).ref) :
    (after.inode slot).inum = (fs.inode slot).inum ∧ 1 ≤ (after.inode slot).ref ∧
      (slot = ip → 2 ≤ (after.inode slot).ref) := by
  have isGot : ∀ {root : Fin ninode} {taken : FileSystem},
      iget fs rootdev rootino = .ok (root, taken) →
      (taken.inode slot).inum = (fs.inode slot).inum ∧ 1 ≤ (taken.inode slot).ref ∧
        (slot = root → 2 ≤ (taken.inode slot).ref) := by
    intro root taken got
    have counted : (taken.inode slot).ref = (fs.inode slot).ref + oneRef root slot :=
      congrFun (iget_refs got) slot
    have added : 0 ≤ oneRef root slot := oneRef_nonneg root slot
    refine ⟨iget_inum got referenced, by omega, fun isRoot => ?_⟩
    rw [isRoot, oneRef_self, ← isRoot] at counted
    omega
  unfold namexStart at started
  split_ifs at started
  · exact isGot started
  · obtain ⟨⟨root, taken⟩, got, looked⟩ := ok_of_bind started
    obtain ⟨rfl, rfl⟩ := ok_pair
      (show Except.ok (root, idup taken root) = .ok (ip, after) from looked)
    obtain ⟨sameInum, takenRef, more⟩ := isGot got
    have counted : ((idup taken root).inode slot).ref = (taken.inode slot).ref + oneRef root slot :=
      congrFun (idup_refs taken root) slot
    have added : 0 ≤ oneRef root slot := oneRef_nonneg root slot
    refine ⟨(setInode_inum taken (by rfl) slot).trans sameInum, by omega, fun isRoot => ?_⟩
    have two := more isRoot
    omega

end Slots

section

variable (agrees : fs.Agrees Known)
include agrees

/-- `namex` goes on from a directory to the inode of an entry. -/
theorem FileSystem.Agrees.descend {locked searched unlocked : FileSystem} {name : List UInt8}
    {found : Option (Fin ninode × UInt32)} (locks : Xk.locki fs ip = .ok locked)
    (isDir : (locked.inode ip).type = tDir)
    (looks : Xk.dirlookup locked ip name = .ok (found, searched))
    (unlocks : Xk.unlocki searched ip = .ok unlocked) :
    (Xk.irelease unlocked ip).Agrees Known ∧ fs.SameStore (Xk.irelease unlocked ip) ∧
      fs.child (fs.inode ip).inum name =
        found.map (fun next => ((Xk.irelease unlocked ip).inode next.1).inum) ∧
      ∀ next offset, found = some (next, offset) →
        1 ≤ ((Xk.irelease unlocked ip).inode next).ref := by
  have lockedRefs := locki_refs locks
  have lockedStore := locki_sameStore locks
  have releasedStore : searched.SameStore (Xk.irelease unlocked ip) :=
    (unlocki_sameStore unlocks).trans (setInode_sameStore _ _ _)
  obtain ⟨referenced, _, isLocked, lockedAgrees⟩ := agrees.locki locks
  have isInode : locked.inode ip = { fs.inode ip with locked := true, valid := true } := by
    rw [isLocked, fs.setInode_self]
  have lockedRef : 1 ≤ (locked.inode ip).ref := by
    rw [isInode]
    exact referenced
  have sameInum : (locked.inode ip).inum = (fs.inode ip).inum := by rw [isInode]
  obtain ⟨_, cached, known⟩ := lockedAgrees.cached ip lockedRef
  have recordDir : (locked.record (locked.inode ip).inum).type = tDir :=
    cached.copyOf.1.symm.trans isDir
  have isChild : fs.child (fs.inode ip).inum name =
      (locked.findIn (locked.inode ip).inum name).map fun de => de.inum.toUInt32 := by
    rw [← lockedStore.child, FileSystem.child, ← sameInum, if_pos recordDir]
  obtain ⟨isNone, looked⟩ | ⟨de, offset, isFound, looked⟩ :=
    lockedAgrees.dirlookup lockedRef (by rw [isInode]) isDir name
  · grind [irelease, unlocki, FileSystem.SameStore.trans]
  · rw [looked] at looks
    obtain ⟨⟨next, taken⟩, got, looks⟩ := ok_of_bind looks
    obtain ⟨rfl, rfl⟩ := ok_pair looks
    have isLive : de.inum ≠ 0 := ((Dirent.names_iff _ _).mp (List.find?_some isFound)).1
    obtain ⟨gotAgrees, gotRef, gotInum⟩ := lockedAgrees.iget
      (lockedAgrees.tree.closed _ known recordDir de (List.mem_of_find?_eq_some isFound) isLive) got
    refine ⟨(gotAgrees.unlocki unlocks).irelease ip,
      (lockedStore.trans (iget_sameStore got).1).trans releasedStore, ?_, ?_⟩
    · grind [irelease_inum, unlocki_inum]
    · rintro next offset isNext
      obtain ⟨rfl, rfl⟩ := Prod.mk.inj (Option.some_inj.mp isNext)
      have counted := congrFun (irelease_refs unlocked ip) next
      rw [Pi.add_apply, unlocki_refs unlocks] at counted
      show 1 ≤ (Xk.irelease unlocked ip).refs next
      by_cases same : next = ip
      · have before : 1 ≤ fs.refs next := by
          rw [same]
          exact referenced
        rw [iget_refs got, lockedRefs, Pi.add_apply, same] at counted
        rw [same] at before ⊢
        omega
      · rw [oneRef, Pi.single_eq_of_ne same, add_zero] at counted
        rw [counted]
        exact gotRef

/-- The loop of `namex` follows the elements of the path. -/
theorem FileSystem.Agrees.namexLoop {parent : Bool} {turns : Nat}
    (referenced : 1 ≤ (fs.inode ip).ref) {name : List UInt8}
    (looked : namexLoop parent turns fs ip path name = .ok (found, after)) :
    after.Agrees Known ∧
      (∀ next last, found = some (next, last) → 1 ≤ (after.inode next).ref ∧
        (parent = true → (after.inode next).valid = true)) ∧
      (parent = false → found.map (fun result => (after.inode result.1).inum) =
        fs.follow (fs.inode ip).inum (elements path)) ∧
      (parent = true → found.map (fun result => ((after.inode result.1).inum, result.2)) =
        fs.followParent (fs.inode ip).inum (elements path)) := by
  induction turns generalizing fs ip path name with
  | zero => cases looked
  | succ turns inductionHypothesis =>
    unfold Xk.namexLoop at looked
    split at looked
    · rename_i ended
      rw [skipelem_none ended]
      split_ifs at looked with isParent
      · obtain ⟨rfl, rfl⟩ := ok_pair looked
        exact ⟨agrees.irelease ip, nofun, fun notParent => by simp [isParent] at notParent,
          fun _ => rfl⟩
      · obtain ⟨rfl, rfl⟩ := ok_pair looked
        refine ⟨agrees, ?_, fun _ => rfl, fun parental => absurd parental isParent⟩
        rintro next last isNext
        obtain ⟨rfl, rfl⟩ := Prod.mk.inj (Option.some_inj.mp isNext)
        exact ⟨referenced, fun parental => absurd parental isParent⟩
    · rename_i element rest isElement
      obtain ⟨isSplit, restNil, _⟩ := skipelem_some isElement
      obtain ⟨locked, locks, looked⟩ := ok_of_bind looked
      obtain ⟨_, _, isLocked, lockedAgrees⟩ := agrees.locki locks
      have isInode : locked.inode ip = { fs.inode ip with locked := true, valid := true } := by
        rw [isLocked, fs.setInode_self]
      have recordType : (fs.record (fs.inode ip).inum).type = (locked.inode ip).type := by
        rw [isInode]
        exact (agrees.cached ip referenced).2.1.copyOf.1.symm
      rw [isSplit]
      split_ifs at looked with notDir atEnd
      · obtain ⟨unlocked, unlocks, looked⟩ := ok_of_bind looked
        obtain ⟨rfl, rfl⟩ := ok_pair looked
        have noChild : fs.child (fs.inode ip).inum element = none := by
          rw [FileSystem.child, recordType, if_neg notDir]
        refine ⟨(lockedAgrees.unlocki unlocks).irelease ip, nofun, fun _ => ?_, fun _ => ?_⟩
        · grind [FileSystem.follow]
        · cases elements rest with
          | nil => grind [FileSystem.followParent]
          | cons =>
            rw [FileSystem.followParent, noChild]
            rfl
      · obtain ⟨unlocked, unlocks, looked⟩ := ok_of_bind looked
        obtain ⟨rfl, rfl⟩ := ok_pair looked
        rw [restNil.mp atEnd.2]
        refine ⟨lockedAgrees.unlocki unlocks, ?_, fun notParent => ?_, fun _ => ?_⟩
        · grind [unlocki_eq, FileSystem.setInode_self]
        · grind
        · grind [FileSystem.followParent, unlocki_inum]
      · obtain ⟨⟨step, searched⟩, searches, turned⟩ := ok_of_bind looked
        obtain ⟨unlocked, unlocks, ended⟩ := ok_of_bind turned
        obtain ⟨stepAgrees, stepStore, isChild, stepRef⟩ :=
          agrees.descend locks (not_not.mp notDir) searches unlocks
        have parentRest : parent = true → ∃ next names, elements rest = next :: names :=
          fun isParent => List.exists_cons_of_ne_nil fun isNil =>
            atEnd ⟨isParent, restNil.mpr isNil⟩
        cases step with
        | none =>
          obtain ⟨rfl, rfl⟩ := ok_pair ended
          refine ⟨stepAgrees, nofun, fun _ => ?_, fun isParent => ?_⟩
          · rw [FileSystem.follow, List.foldlM_cons, isChild]
            rfl
          · obtain ⟨next, names, isRest⟩ := parentRest isParent
            rw [isRest, FileSystem.followParent, isChild]
            rfl
        | some step =>
          obtain ⟨endAgrees, endRef, follows, followsParent⟩ :=
            inductionHypothesis stepAgrees (stepRef step.1 step.2 rfl) ended
          refine ⟨endAgrees, endRef, fun notParent => ?_, fun isParent => ?_⟩
          · rw [follows notParent, stepStore.follow, FileSystem.follow, FileSystem.follow,
              List.foldlM_cons, isChild]
            rfl
          · obtain ⟨next, names, isRest⟩ := parentRest isParent
            rw [followsParent isParent, stepStore.followParent, isRest,
              FileSystem.followParent.eq_3, isChild]
            rfl

/-- Every lookup starts at the root. -/
theorem FileSystem.Agrees.namexStart (started : namexStart fs path = .ok (ip, after)) :
    after.Agrees Known ∧ 1 ≤ (after.inode ip).ref ∧ (after.inode ip).inum = rootino ∧
      fs.SameStore after ∧ after.locks = fs.locks := by
  unfold Xk.namexStart at started
  split_ifs at started
  · obtain ⟨sameStore, sameLocks⟩ := iget_sameStore started
    obtain ⟨gotAgrees, gotRef, gotInum⟩ := agrees.iget agrees.tree.root started
    exact ⟨gotAgrees, gotRef, gotInum, sameStore, sameLocks⟩
  · obtain ⟨⟨root, taken⟩, got, looked⟩ := ok_of_bind started
    obtain ⟨sameStore, sameLocks⟩ := iget_sameStore got
    obtain ⟨gotAgrees, gotRef, gotInum⟩ := agrees.iget agrees.tree.root got
    -- the path `"/"` has no elements
    obtain ⟨rfl, rfl⟩ := ok_pair
      (show Except.ok (root, Xk.idup taken root) = .ok (ip, after) from looked)
    refine ⟨gotAgrees.idup gotRef, ?_, ?_, sameStore.trans (setInode_sameStore _ _ _), ?_⟩
    · rw [Xk.idup, taken.setInode_self]
      show 1 ≤ (taken.inode root).ref + 1
      omega
    · rw [Xk.idup, taken.setInode_self]
      exact gotInum
    · exact (locks_setInode_same (by rfl)).trans sameLocks

/-- What `namei` does. -/
theorem FileSystem.Agrees.namei {found : Option (Fin ninode)}
    (looked : namei fs path = .ok (found, after)) :
    after.Agrees Known ∧ fs.SameStore after ∧ after.locks = fs.locks ∧
      (∀ ip, found = some ip → 1 ≤ (after.inode ip).ref) ∧
      found.map (fun ip => (after.inode ip).inum) = fs.follow rootino (elements path) := by
  obtain ⟨named, rfl, looks⟩ := namei_eq looked
  obtain ⟨⟨root, started⟩, starts, looks⟩ := ok_of_bind looks
  obtain ⟨startAgrees, startRef, startInum, startStore, startLocks⟩ := agrees.namexStart starts
  obtain ⟨rest, restLocks⟩ := namexLoop_sameStore looks
  obtain ⟨endAgrees, endRef, follows, _⟩ := startAgrees.namexLoop startRef looks
  refine ⟨endAgrees, startStore.trans rest, restLocks.trans startLocks, ?_, ?_⟩
  · simp_all
  · rw [Option.map_map]
    exact (follows rfl).trans (by rw [startStore.follow, startInum])

/-- What `nameiparent` does. -/
theorem FileSystem.Agrees.nameiparent (looked : nameiparent fs path = .ok (found, after)) :
    after.Agrees Known ∧ fs.SameStore after ∧ after.locks = fs.locks ∧
      (∀ ip name, found = some (ip, name) →
        1 ≤ (after.inode ip).ref ∧ (after.inode ip).valid = true) ∧
      found.map (fun result => ((after.inode result.1).inum, result.2)) =
        fs.followParent rootino (elements path) := by
  obtain ⟨⟨root, started⟩, starts, looks⟩ := ok_of_bind looked
  obtain ⟨startAgrees, startRef, startInum, startStore, startLocks⟩ := agrees.namexStart starts
  obtain ⟨rest, restLocks⟩ := namexLoop_sameStore looks
  obtain ⟨endAgrees, endRef, _, followsParent⟩ := startAgrees.namexLoop startRef looks
  refine ⟨endAgrees, startStore.trans rest, restLocks.trans startLocks, ?_, ?_⟩
  · grind
  · rw [followsParent rfl, startStore.followParent, startInum]

end

end Lookup

end Xk
