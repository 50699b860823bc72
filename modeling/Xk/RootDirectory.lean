/-
This file describes file systems whose only directory is the root: this is how `mkfs` leaves them and
how `sys_open` keeps them. All names are then names in the root directory, and a path leads to what
its last element names there.
-/

import Xk.Directories

namespace Xk

open Outcome

/-! ### The entries of the root directory -/

/-- The record of the root directory. -/
def FileSystem.root (fs : FileSystem) : Dinode := fs.record rootino

/-- An entry of the root directory, by its index. -/
def FileSystem.entry (fs : FileSystem) (index : Nat) : Dirent :=
  Dirent.decode (Bytes.load fs.disk.bytes (fs.root.data.head.address + index *
    direntSize) direntSize)

/-- The entries of the root directory. -/
def FileSystem.entries (fs : FileSystem) : List Dirent :=
  (List.range (fs.root.size.toNat / direntSize)).map fs.entry

/-- The first live entry with the name. -/
def FileSystem.find (fs : FileSystem) (name : List UInt8) : Option Dirent :=
  fs.entries.find? (Dirent.names name)

/-- The inode file, the root, or an inode that a live entry of the root has. -/
def FileSystem.Known (fs : FileSystem) (inum : UInt32) : Prop :=
  inum = inodefileino ∨ inum = rootino ∨ ∃ de ∈ fs.entries, de.inum ≠ 0 ∧ de.inum.toUInt32 = inum

/-- The root directory is on the disk in one piece. The inodes that are known have records, and none
of them but the root is a directory. -/
structure FileSystem.RootStored (fs : FileSystem) : Prop where
  isDir : fs.root.type = tDir
  onDisk : fs.root.data.head.OnDisk fs.disk
  whole : direntSize ∣ fs.root.size.toNat
  fits : fs.root.size.toNat ≤ fs.root.data.head.bytes
  hasRecord : ∀ inum, fs.Known inum → fs.HasRecord inum
  onlyRoot : ∀ inum, fs.Known inum → (fs.record inum).type = tDir → inum = rootino

/-- The inode cache agrees with the disk, and the root is the only directory. -/
structure FileSystem.Coherent (fs : FileSystem) : Prop where
  table : fs.TableReady
  root : fs.RootStored
  cached : ∀ ip, 1 ≤ (fs.inode ip).ref →
    (fs.inode ip).dev = rootdev ∧ fs.Cached ip ∧ fs.Known (fs.inode ip).inum
  unique : ∀ ip other, 1 ≤ (fs.inode ip).ref → 1 ≤ (fs.inode other).ref →
    (fs.inode ip).inum = (fs.inode other).inum → ip = other

theorem FileSystem.find_eq_none_iff (fs : FileSystem) (name : List UInt8) :
    fs.find name = none ↔
      ∀ de ∈ fs.entries, de.inum ≠ 0 → de.label ≠ cstringOf dirsiz name := by
  grind [FileSystem.find, Dirent.names]

theorem FileSystem.known_root (fs : FileSystem) : fs.Known rootino := Or.inr (Or.inl rfl)

theorem FileSystem.known_inodefile (fs : FileSystem) : fs.Known inodefileino := Or.inl rfl

section Root

variable {fs after : FileSystem} {ip : Fin ninode}

theorem FileSystem.SameStore.entries (same : fs.SameStore after) : after.entries = fs.entries :=
  same.entriesOf rootino

theorem FileSystem.SameStore.known (same : fs.SameStore after) : after.Known = fs.Known := by
  funext inum
  rw [FileSystem.Known, FileSystem.Known, same.entries]

/-! ### The tree of the root directory -/

section

variable (coherent : fs.Coherent)
include coherent

theorem FileSystem.Coherent.agrees : fs.Agrees fs.Known where
  table := coherent.table
  tree :=
    { root := fs.known_root
      hasRecord := coherent.root.hasRecord
      stored := fun inum known isDir => by
        rw [coherent.root.onlyRoot inum known isDir]
        exact ⟨coherent.root.isDir, coherent.root.onDisk, coherent.root.whole, coherent.root.fits⟩
      closed := fun inum known isDir de member live => by
        rw [coherent.root.onlyRoot inum known isDir] at member
        exact Or.inr (Or.inr ⟨de, member, live, rfl⟩) }
  cached := coherent.cached
  unique := coherent.unique

/-- The cache has changed, and agrees with the same disk. -/
theorem FileSystem.Coherent.of_agrees (same : fs.SameStore after) (agrees : after.Agrees fs.Known) :
    after.Coherent := by
  have stored := agrees.tree.stored rootino fs.known_root
    ((congrArg Dinode.type (same.record rootino)).trans coherent.root.isDir)
  rw [← same.known] at agrees
  refine ⟨agrees.table, ⟨stored.isDir, stored.onDisk, stored.whole, stored.fits,
    agrees.tree.hasRecord, fun inum known isDir => ?_⟩, agrees.cached, agrees.unique⟩
  rw [same.record] at isDir
  exact coherent.root.onlyRoot inum (same.known ▸ known) isDir

/-- A change of an entry of the cache that leaves its inode as it was. -/
theorem FileSystem.Coherent.keepInode {inode : Inode} (sameDev : inode.dev = (fs.inode ip).dev)
    (sameInum : inode.inum = (fs.inode ip).inum) (counted : 1 ≤ inode.ref → 1 ≤ (fs.inode ip).ref)
    (copied : 1 ≤ inode.ref → inode.type = (fs.inode ip).type ∧ inode.devid = (fs.inode ip).devid ∧
      inode.size = (fs.inode ip).size ∧ inode.data = (fs.inode ip).data) :
    (fs.setInode ip inode).Coherent :=
  coherent.of_agrees (setInode_sameStore fs ip inode)
    (coherent.agrees.keepInode sameDev sameInum counted copied)

/-- `iget` of a known inode. -/
theorem FileSystem.Coherent.iget {inum : UInt32} (known : fs.Known inum)
    (got : iget fs rootdev inum = .ok (ip, after)) :
    after.Coherent ∧ 1 ≤ (after.inode ip).ref ∧ (after.inode ip).inum = inum := by
  obtain ⟨agrees, counted, isInum⟩ := coherent.agrees.iget known got
  exact ⟨coherent.of_agrees (iget_sameStore got).1 agrees, counted, isInum⟩

/-- `concurrent_stati` makes an entry of the cache valid. -/
theorem FileSystem.Coherent.concurrentStati {stat : Stat}
    (stated : concurrentStati fs ip = .ok (stat, after)) :
    after.Coherent ∧ fs.SameStore after ∧ after.locks = fs.locks ∧
      ∀ slot, (after.inode slot).inum = (fs.inode slot).inum := by
  obtain ⟨locked, locks, stated⟩ := ok_of_bind stated
  obtain ⟨unlocked, unlocks, stated⟩ := ok_of_bind stated
  obtain ⟨-, rfl⟩ := ok_pair stated
  obtain ⟨_, _, _, lockedAgrees⟩ := coherent.agrees.locki locks
  have sameStore := (locki_sameStore locks).trans (unlocki_sameStore unlocks)
  refine ⟨coherent.of_agrees sameStore (lockedAgrees.unlocki unlocks), sameStore,
    locks_unlocked locks rfl unlocks, fun slot => ?_⟩
  rw [unlocki_inum unlocks, locki_inum locks]

end

/-! ### Paths -/

section

variable (coherent : fs.Coherent)
include coherent

/-- A name leads from the root to the inode of its entry, and from other inodes nowhere. -/
theorem FileSystem.Coherent.child {inum : UInt32} (known : fs.Known inum) (name : List UInt8) :
    fs.child inum name =
      if inum = rootino then (fs.find name).map fun de => de.inum.toUInt32 else none := by
  rw [FileSystem.child]
  by_cases isRoot : inum = rootino
  · rw [if_pos isRoot, isRoot]
    exact if_pos coherent.root.isDir
  · rw [if_neg isRoot, if_neg fun isDir => isRoot (coherent.root.onlyRoot inum known isDir)]

theorem FileSystem.Coherent.known_child {inum child : UInt32} (known : fs.Known inum)
    {name : List UInt8} (isChild : fs.child inum name = some child) :
    fs.Known child := by
  rw [coherent.child known] at isChild
  split_ifs at isChild
  obtain ⟨de, isFound, rfl⟩ := Option.map_eq_some_iff.mp isChild
  exact Or.inr (Or.inr ⟨de, List.mem_of_find?_eq_some isFound,
    ((Dirent.names_iff name de).mp (List.find?_some isFound)).1, rfl⟩)

/-- A path that leads to an inode leads to that of its last element. -/
theorem FileSystem.Coherent.follow_last {inum target : UInt32} (known : fs.Known inum)
    {names : List (List UInt8)} (nonempty : names ≠ [])
    (follows : fs.follow inum names = some target) :
    ∃ name de, names.getLast? = some name ∧ fs.find name = some de ∧
      de.inum.toUInt32 = target := by
  induction names generalizing inum with
  | nil => exact absurd rfl nonempty
  | cons name rest inductionHypothesis =>
    rw [FileSystem.follow, List.foldlM_cons] at follows
    obtain ⟨child, isChild, follows⟩ := Option.bind_eq_some_iff.mp follows
    cases rest with
    | nil => grind [Option.map_eq_some_iff, child]
    | cons next names =>
      obtain ⟨last, de, isLast, found⟩ := inductionHypothesis
        (coherent.known_child known isChild) (List.cons_ne_nil _ _) follows
      exact ⟨last, de, by rwa [List.getLast?_cons_cons], found⟩

/-- The directory of a path is the root, when there is one. -/
theorem FileSystem.Coherent.followParent_last {inum dir : UInt32} (known : fs.Known inum)
    {names : List (List UInt8)} {last : List UInt8}
    (follows : fs.followParent inum names = some (dir, last)) :
    dir = rootino ∧ names.getLast? = some last := by
  fun_induction FileSystem.followParent fs inum names with
  | case1 => cases follows
  | case2 inum name isDir => grind [FileSystem.RootStored, FileSystem.Coherent]
  | case3 => cases follows
  | case4 inum name next names inductionHypothesis => grind [Option.bind_eq_some_iff, known_child]

/-- Entries that are found again lead to the same directory. -/
theorem FileSystem.Coherent.followParent_of_find (later : after.Coherent)
    (kept : ∀ name de, fs.find name = some de → after.find name = some de) {inum : UInt32}
    (known : fs.Known inum) {names : List (List UInt8)} {result : UInt32 × List UInt8}
    (follows : fs.followParent inum names = some result) :
    after.followParent inum names = some result := by
  fun_induction FileSystem.followParent fs inum names with
  | case1 => cases follows
  | case2 inum name isDir =>
    obtain rfl := coherent.root.onlyRoot inum known isDir
    rw [FileSystem.followParent]
    exact (if_pos later.root.isDir).trans follows
  | case3 => cases follows
  | case4 inum name next names inductionHypothesis =>
    obtain ⟨child, isChild, follows⟩ := Option.bind_eq_some_iff.mp follows
    have childKnown := coherent.known_child known isChild
    have again : after.child inum name = some child := by
      grind [Option.map_eq_some_iff, child, FileSystem.known_root]
    rw [FileSystem.followParent, again]
    exact inductionHypothesis child childKnown follows

end

/-- What `namei` does. -/
theorem FileSystem.Coherent.namei (coherent : fs.Coherent) {path : List UInt8}
    {found : Option (Fin ninode)} (looked : namei fs path = .ok (found, after)) :
    after.Coherent ∧ fs.SameStore after ∧ after.locks = fs.locks ∧
      ∀ ip, found = some ip → elements path ≠ [] → ∃ name de,
        (elements path).getLast? = some name ∧ fs.find name = some de ∧
          (after.inode ip).inum = de.inum.toUInt32 := by
  obtain ⟨agrees, same, locks, _, follows⟩ := coherent.agrees.namei looked
  refine ⟨coherent.of_agrees same agrees, same, locks, fun ip isFound nonempty => ?_⟩
  rw [isFound, Option.map_some] at follows
  obtain ⟨name, de, isLast, isEntry, isInum⟩ :=
    coherent.follow_last fs.known_root nonempty follows.symm
  exact ⟨name, de, isLast, isEntry, isInum.symm⟩

/-- What `nameiparent` does. -/
theorem FileSystem.Coherent.nameiparent (coherent : fs.Coherent) {path name : List UInt8}
    (looked : nameiparent fs path = .ok (some (ip, name), after)) :
    after.Coherent ∧ fs.SameStore after ∧ after.locks = fs.locks ∧ 1 ≤ (after.inode ip).ref ∧
      (after.inode ip).inum = rootino ∧ (after.inode ip).valid = true ∧
      fs.followParent rootino (elements path) = some (rootino, name) ∧
      ∀ slot, 1 ≤ (fs.inode slot).ref → (after.inode slot).inum = (fs.inode slot).inum := by
  obtain ⟨agrees, same, locks, result, follows⟩ := coherent.agrees.nameiparent looked
  obtain ⟨counted, valid⟩ := result ip name rfl
  obtain ⟨isRoot, _⟩ := coherent.followParent_last fs.known_root follows.symm
  rw [Option.map_some, show (after.inode ip).inum = rootino from isRoot] at follows
  refine ⟨coherent.of_agrees same agrees, same, locks, counted, isRoot, valid, follows.symm,
    fun slot referenced => ?_⟩
  obtain ⟨⟨root, started⟩, starts, looks⟩ := ok_of_bind looked
  obtain ⟨sameInum, startedRef, more⟩ := namexStart_inum starts referenced
  exact (namexLoop_inum looks startedRef more).trans sameInum

end Root

end Xk
