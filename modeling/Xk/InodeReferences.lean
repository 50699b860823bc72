/-
This file decides when the references of the inode cache balance: an entry should have as many as
there are open files on it. Every function of `fs.c` is described by what it adds to the references.
A lookup of an absolute path that finds nothing adds nothing, and all other ways through `sys_open`
add a reference that nobody gives back: `sys_open` drops the inode of its own lookup, a relative
path leaves a reference to the root directory, and a creation leaves one to the inode file. So a run
keeps the balance exactly when no `sys_open` in it finds or creates a file, or has a path that does
not begin with a slash.
-/

import Xk.FileReferences
import Xk.OpenFiles

namespace Xk

open Outcome Transition

variable {dev inum off n : UInt32} {found : Option (Fin ninode × List UInt8)} {parent : Bool}
  {path : List UInt8} {fd : Int}

/-! ### References -/

/-- The references of the entries of the inode cache. -/
def FileSystem.refs (fs : FileSystem) : Fin ninode → Int := fun ip => (fs.inode ip).ref

/-- One reference. -/
def oneRef (ip : Fin ninode) : Fin ninode → Int := Pi.single ip 1

theorem oneRef_nonneg (ip : Fin ninode) : 0 ≤ oneRef ip :=
  Pi.single_nonneg.mpr zero_le_one

theorem oneRef_self (ip : Fin ninode) : oneRef ip ip = 1 := Pi.single_eq_same ip 1

theorem oneRef_of_ne {ip other : Fin ninode} (different : other ≠ ip) : oneRef ip other = 0 :=
  Pi.single_eq_of_ne different 1

section Refs

variable {fs after : FileSystem} {ip : Fin ninode}

theorem refs_setInode (fs : FileSystem) (ip : Fin ninode) {inode : Inode} {change : Int}
    (added : inode.ref = (fs.inode ip).ref + change) :
    (fs.setInode ip inode).refs = fs.refs + Pi.single ip change := by
  funext other
  rw [Pi.add_apply]
  by_cases same : other = ip
  · rw [same, Pi.single_eq_same, FileSystem.refs, fs.setInode_self ip inode, added]
    rfl
  · grind [FileSystem.refs, FileSystem.setInode_of_ne]

theorem refs_setInode_same {inode : Inode} (same : inode.ref = (fs.inode ip).ref) :
    (fs.setInode ip inode).refs = fs.refs := by
  rw [refs_setInode fs ip (same.trans (add_zero _).symm), Pi.single_zero, add_zero]

theorem refs_locked (fs : FileSystem) (ip : Fin ninode) (locked : Bool) :
    (fs.setInode ip { fs.inode ip with locked := locked }).refs = fs.refs :=
  refs_setInode_same rfl

theorem refs_written (fs : FileSystem) (disk : Disk) (ip : Fin ninode) (data : Extents) :
    ({ fs with disk := disk }.setInode ip { fs.inode ip with data := data }).refs = fs.refs := by
  refine refs_setInode_same ?_
  rfl

/-- What `iget` does: it counts a reference of the entry that it returns. -/
theorem iget_eq (got : iget fs dev inum = .ok (ip, after)) :
    ∃ inode : Inode, after = fs.setInode ip inode ∧ inode.ref = (fs.inode ip).ref + 1 ∧
      inode.locked = (fs.inode ip).locked := by
  unfold iget at got
  split at got
  · grind
  · split at got
    · cases got
    · rename_i found isFree
      obtain ⟨dip, _, got⟩ := ok_of_bind got
      split_ifs at got
      obtain ⟨rfl, rfl⟩ := ok_pair got
      have free : (fs.inode found).ref = 0 := by simpa using List.find?_some isFree
      exact ⟨_, rfl, by rw [free]; rfl, rfl⟩

/-- What `locki` does. -/
theorem locki_eq (locks : locki fs ip = .ok after) :
    ∃ inode : Inode, after = fs.setInode ip inode ∧ inode.ref = (fs.inode ip).ref ∧
      inode.locked = true ∧ (fs.inode ip).locked = false := by
  unfold locki at locks
  dsimp only at locks
  split_ifs at locks with _ locked
  · exact ⟨_, (Except.ok.inj locks).symm, rfl, rfl, Bool.eq_false_iff.mpr locked⟩
  · obtain ⟨dip, _, locks⟩ := ok_of_bind locks
    split_ifs at locks
    exact ⟨_, (Except.ok.inj locks).symm, rfl, rfl, Bool.eq_false_iff.mpr locked⟩

/-- What `unlocki` does. -/
theorem unlocki_eq (unlocks : unlocki fs ip = .ok after) :
    after = fs.setInode ip { fs.inode ip with locked := false } := by
  grind [unlocki]

/-- What `dirlookup` does: it finds nothing, or it is an `iget`. -/
theorem dirlookupLoop_eq {name : List UInt8} {turns : Nat} {found : Option (Fin ninode × UInt32)}
    (looked : dirlookupLoop fs ip name turns off = .ok (found, after)) :
    (found = none ∧ after = fs) ∨
      ∃ next offset dev inum, found = some (next, offset) ∧
        iget fs dev inum = .ok (next, after) := by
  induction turns generalizing off with
  | zero => cases looked
  | succ turns inductionHypothesis =>
    unfold dirlookupLoop at looked
    split_ifs at looked
    · obtain ⟨⟨result, record⟩, _, looked⟩ := ok_of_bind looked
      dsimp only at looked
      split_ifs at looked
      · exact inductionHypothesis looked
      · obtain ⟨⟨next, taken⟩, got, looked⟩ := ok_of_bind looked
        obtain ⟨rfl, rfl⟩ := ok_pair looked
        exact Or.inr ⟨next, off, _, _, rfl, got⟩
      · exact inductionHypothesis looked
    · grind

theorem dirlookup_eq {name : List UInt8} {found : Option (Fin ninode × UInt32)}
    (looked : dirlookup fs ip name = .ok (found, after)) :
    (found = none ∧ after = fs) ∨
      ∃ next offset dev inum, found = some (next, offset) ∧
        iget fs dev inum = .ok (next, after) := by
  grind [dirlookup, dirlookupLoop_eq]

/-- What `writei` does: it changes the disk and the extents of the inode. -/
theorem writei_eq {inode changed : Inode} {src : List UInt8} {result : Int}
    (written : writei fs inode src off n = .ok (result, after, changed)) :
    (∃ disk, after = { fs with disk := disk }) ∧ ∃ data, changed = { inode with data := data } := by
  have unchanged {value : Int} (same : Except.ok (value, fs, inode) =
      (.ok (result, after, changed) : Except Halt (Int × FileSystem × Inode))) :
      (∃ disk, after = { fs with disk := disk }) ∧
        ∃ data, changed = { inode with data := data } := by
    obtain ⟨-, same⟩ := ok_pair same
    obtain ⟨rfl, rfl⟩ := Prod.mk.inj same
    exact ⟨⟨_, rfl⟩, _, rfl⟩
  unfold writei at written
  split_ifs at written
  · split at written <;> exact unchanged written
  · exact unchanged written
  · exact unchanged written
  · dsimp only at written
    generalize (if getCapacity inode < off + n then off + n - getCapacity inode else 0) = append
      at written
    generalize (if getCapacity inode < off + n then getCapacity inode - off else n) = bytes
      at written
    obtain ⟨⟨data, size⟩, _, written⟩ := ok_of_bind written
    obtain ⟨⟨disk, rest⟩, _, written⟩ := ok_of_bind written
    dsimp only at written
    split_ifs at written
    · obtain ⟨⟨grown, extents⟩, _, written⟩ := ok_of_bind written
      obtain ⟨-, written⟩ := ok_pair written
      obtain ⟨rfl, rfl⟩ := Prod.mk.inj written
      exact ⟨⟨_, rfl⟩, _, rfl⟩
    · obtain ⟨-, written⟩ := ok_pair written
      obtain ⟨rfl, rfl⟩ := Prod.mk.inj written
      exact ⟨⟨_, rfl⟩, _, rfl⟩

theorem iget_refs (got : iget fs dev inum = .ok (ip, after)) :
    after.refs = fs.refs + oneRef ip := by
  obtain ⟨inode, rfl, counted, -⟩ := iget_eq got
  exact refs_setInode fs ip counted

theorem idup_refs (fs : FileSystem) (ip : Fin ninode) : (idup fs ip).refs = fs.refs + oneRef ip :=
  refs_setInode fs ip rfl

theorem irelease_refs (fs : FileSystem) (ip : Fin ninode) :
    (irelease fs ip).refs + oneRef ip = fs.refs := by
  have released : (irelease fs ip).refs = fs.refs + Pi.single ip (-1) := refs_setInode fs ip rfl
  rw [released, oneRef, add_assoc, ← Pi.single_add, neg_add_cancel, Pi.single_zero, add_zero]

theorem locki_refs (locks : locki fs ip = .ok after) : after.refs = fs.refs := by
  grind [locki_eq, refs_setInode_same]

theorem unlocki_refs (unlocks : unlocki fs ip = .ok after) : after.refs = fs.refs := by
  rw [unlocki_eq unlocks]
  exact refs_locked fs ip false

theorem concurrentReadi_refs {result : Int × List UInt8}
    (isRead : concurrentReadi fs ip off n = .ok (result, after)) : after.refs = fs.refs := by
  obtain ⟨locked, locks, isRead⟩ := ok_of_bind isRead
  obtain ⟨_, _, isRead⟩ := ok_of_bind isRead
  obtain ⟨unlocked, unlocks, isRead⟩ := ok_of_bind isRead
  obtain ⟨-, rfl⟩ := ok_pair isRead
  exact (unlocki_refs unlocks).trans (locki_refs locks)

theorem concurrentStati_refs {stat : Stat} (stated : concurrentStati fs ip = .ok (stat, after)) :
    after.refs = fs.refs := by
  obtain ⟨locked, locks, stated⟩ := ok_of_bind stated
  obtain ⟨unlocked, unlocks, stated⟩ := ok_of_bind stated
  obtain ⟨-, rfl⟩ := ok_pair stated
  exact (unlocki_refs unlocks).trans (locki_refs locks)

theorem concurrentWritei_refs {src : List UInt8} {result : Int}
    (isWritten : concurrentWritei fs ip src off n = .ok (result, after)) :
    after.refs = fs.refs := by
  obtain ⟨locked, locks, isWritten⟩ := ok_of_bind isWritten
  obtain ⟨⟨_, written, inode⟩, writes, isWritten⟩ := ok_of_bind isWritten
  obtain ⟨unlocked, unlocks, isWritten⟩ := ok_of_bind isWritten
  obtain ⟨-, rfl⟩ := ok_pair isWritten
  obtain ⟨⟨disk, rfl⟩, data, rfl⟩ := writei_eq writes
  calc unlocked.refs
    _ = ({ locked with disk := disk }.setInode ip { locked.inode ip with data := data }).refs :=
      unlocki_refs unlocks
    _ = locked.refs := refs_written locked disk ip data
    _ = fs.refs := locki_refs locks

end Refs

/-! ### Lookups -/

/-- The reference that a lookup leaves to its caller. -/
def foundRef (found : Option (Fin ninode × List UInt8)) : Fin ninode → Int :=
  match found with
  | none => 0
  | some (ip, _) => oneRef ip

section Lookups

variable {fs after : FileSystem} {ip : Fin ninode}

theorem foundRef_nonneg (found : Option (Fin ninode × List UInt8)) : 0 ≤ foundRef found := by
  cases found with
  | none => exact le_rfl
  | some found => exact oneRef_nonneg found.1

/-- The rule for the loop of `namex`: `Before` holds where a turn begins, and `After` of what the
loop returns. A turn ends with the inode or releases it, and may have locked it before, or it moves
on to the inode of an entry. -/
theorem namexLoop_rule (Before : FileSystem → Fin ninode → Prop)
    (After : Option (Fin ninode × List UInt8) → FileSystem → Prop)
    (released : ∀ fs ip, Before fs ip → After none (irelease fs ip))
    (returned : ∀ fs ip last, Before fs ip → After (some (ip, last)) fs)
    (visited : ∀ fs ip locked unlocked, Before fs ip → locki fs ip = .ok locked →
      unlocki locked ip = .ok unlocked → Before unlocked ip)
    (moved : ∀ fs ip locked dev inum next searched unlocked, Before fs ip →
      locki fs ip = .ok locked → iget locked dev inum = .ok (next, searched) →
      unlocki searched ip = .ok unlocked → Before (irelease unlocked ip) next)
    {turns : Nat} {name : List UInt8} (begins : Before fs ip)
    (looked : namexLoop parent turns fs ip path name = .ok (found, after)) : After found after := by
  induction turns generalizing fs ip path name with
  | zero => cases looked
  | succ turns inductionHypothesis =>
    unfold namexLoop at looked
    split at looked
    · split_ifs at looked
      · obtain ⟨rfl, rfl⟩ := ok_pair looked
        exact released _ _ begins
      · obtain ⟨rfl, rfl⟩ := ok_pair looked
        exact returned _ _ _ begins
    · obtain ⟨locked, locks, looked⟩ := ok_of_bind looked
      split_ifs at looked
      · obtain ⟨unlocked, unlocks, looked⟩ := ok_of_bind looked
        obtain ⟨rfl, rfl⟩ := ok_pair looked
        exact released _ _ (visited _ _ _ _ begins locks unlocks)
      · obtain ⟨unlocked, unlocks, looked⟩ := ok_of_bind looked
        obtain ⟨rfl, rfl⟩ := ok_pair looked
        exact returned _ _ _ (visited _ _ _ _ begins locks unlocks)
      · obtain ⟨⟨next, searched⟩, searches, turned⟩ := ok_of_bind looked
        obtain ⟨unlocked, unlocks, ended⟩ := ok_of_bind turned
        obtain ⟨rfl, rfl⟩ | ⟨next, offset, dev, inum, rfl, got⟩ := dirlookup_eq searches
        · obtain ⟨rfl, rfl⟩ := ok_pair ended
          exact released _ _ (visited _ _ _ _ begins locks unlocks)
        · exact inductionHypothesis (moved _ _ _ _ _ _ _ _ begins locks got unlocks) ended

/-- The loop of `namex` gives back the reference that it begins with. -/
theorem namexLoop_refs {turns : Nat} {name : List UInt8}
    (looked : namexLoop parent turns fs ip path name = .ok (found, after)) :
    after.refs + oneRef ip = fs.refs + foundRef found := by
  refine namexLoop_rule (fun now at' => now.refs + oneRef ip = fs.refs + oneRef at')
    (fun found after => after.refs + oneRef ip = fs.refs + foundRef found) ?_ ?_ ?_ ?_ rfl looked
  · intro now at' same
    rw [foundRef]
    linear_combination same + irelease_refs now at'
  · exact fun _ _ _ same => same
  · intro now at' locked unlocked same locks unlocks
    rw [unlocki_refs unlocks, locki_refs locks, same]
  · intro now at' locked dev inum next searched unlocked same locks got unlocks
    have gone := irelease_refs unlocked at'
    rw [unlocki_refs unlocks, iget_refs got, locki_refs locks] at gone
    linear_combination same + gone

/-- A path that begins with a slash takes one reference at the start, and any other path two. -/
theorem namexStart_refs (started : namexStart fs path = .ok (ip, after)) :
    after.refs = fs.refs + oneRef ip + (if path.head? = some slash then 0 else oneRef ip) := by
  unfold namexStart at started
  split_ifs at started ⊢
  · rw [iget_refs started, add_zero]
  · obtain ⟨⟨root, taken⟩, got, started⟩ := ok_of_bind started
    obtain ⟨⟨found, looked⟩, looks, started⟩ := ok_of_bind started
    have lookedRefs := namexLoop_refs looks
    cases found with
    | none => cases started
    | some found =>
      obtain ⟨rfl, rfl⟩ := ok_pair started
      have gotRefs := iget_refs got
      rw [idup_refs]
      simp only [foundRef] at lookedRefs
      linear_combination lookedRefs + gotRefs

/-- `namex` adds what it leaves to its caller, and a reference that is lost for a relative path. -/
theorem namex_refs (looked : namex fs path parent = .ok (found, after)) :
    ∃ root, after.refs = fs.refs + foundRef found +
      (if path.head? = some slash then 0 else oneRef root) := by
  obtain ⟨⟨root, started⟩, starts, looked⟩ := ok_of_bind looked
  refine ⟨root, ?_⟩
  linear_combination namexLoop_refs looked + namexStart_refs starts

theorem namex_refs_le (looked : namex fs path parent = .ok (found, after)) :
    fs.refs + foundRef found ≤ after.refs := by
  grind [namex_refs, le_add_of_nonneg_right, oneRef_nonneg]

/-- `namei` is `namex` without the name. -/
theorem namei_eq {found : Option (Fin ninode)} (looked : namei fs path = .ok (found, after)) :
    ∃ named, found = named.map Prod.fst ∧ namex fs path false = .ok (named, after) := by
  obtain ⟨⟨named, looked⟩, looks, same⟩ := ok_of_bind looked
  obtain ⟨rfl, rfl⟩ := ok_pair same
  exact ⟨named, rfl, looks⟩

theorem namei_refs_le {found : Option (Fin ninode)} (looked : namei fs path = .ok (found, after)) :
    fs.refs ≤ after.refs := by
  obtain ⟨named, _, looks⟩ := namei_eq looked
  exact (le_add_of_nonneg_right (foundRef_nonneg named)).trans (namex_refs_le looks)

/-- An inode that `namei` finds has a reference more. -/
theorem namei_refs_found (looked : namei fs path = .ok (some ip, after)) :
    fs.refs + oneRef ip ≤ after.refs := by
  obtain ⟨named, isFound, looks⟩ := namei_eq looked
  cases named with
  | none => cases isFound
  | some named =>
    obtain rfl := Option.some_inj.mp isFound
    exact namex_refs_le looks

/-- A relative path costs a reference, also where it names nothing. -/
theorem namei_refs_relative {found : Option (Fin ninode)} (relative : path.head? ≠ some slash)
    (looked : namei fs path = .ok (found, after)) :
    ∃ root, fs.refs + oneRef root ≤ after.refs := by
  obtain ⟨named, _, looks⟩ := namei_eq looked
  obtain ⟨root, added⟩ := namex_refs looks
  rw [if_neg relative] at added
  refine ⟨root, ?_⟩
  rw [added, add_right_comm]
  exact le_add_of_nonneg_right (foundRef_nonneg named)

/-- An absolute path that names nothing costs nothing. -/
theorem namei_refs_missing (absolute : path.head? = some slash)
    (looked : namei fs path = .ok (none, after)) : after.refs = fs.refs := by
  obtain ⟨named, isFound, looks⟩ := namei_eq looked
  obtain rfl := Option.map_eq_none_iff.mp isFound.symm
  obtain ⟨root, added⟩ := namex_refs looks
  rw [if_pos absolute] at added
  exact added.trans (by rw [add_zero]; exact add_zero _)

end Lookups

/-! ### Creation -/

section Creation

variable {fs after : FileSystem} {ip : Fin ninode}

theorem updateDinode_refs (updated : updateDinode fs ip = .ok after) : fs.refs ≤ after.refs := by
  obtain ⟨⟨inodefile, taken⟩, got, updated⟩ := ok_of_bind updated
  have counted : fs.refs ≤ taken.refs := by
    rw [iget_refs got]
    exact le_add_of_nonneg_right (oneRef_nonneg inodefile)
  obtain ⟨curr, _, updated⟩ := ok_of_bind updated
  split_ifs at updated
  · obtain ⟨⟨_, written, inode⟩, writes, updated⟩ := ok_of_bind updated
    obtain ⟨⟨disk, rfl⟩, data, rfl⟩ := writei_eq writes
    rw [← Except.ok.inj updated]
    exact counted.trans (refs_written taken disk inodefile data).ge
  · rw [← Except.ok.inj updated]
    exact counted

theorem listLoop_refs {turns : Nat} {dirent last : Dirent}
    (listed : listLoop ip turns fs off dirent = .ok (last, after)) : after.refs = fs.refs := by
  induction turns generalizing fs off dirent with
  | zero => cases listed
  | succ turns inductionHypothesis =>
    unfold listLoop at listed
    split_ifs at listed
    · obtain ⟨⟨⟨result, record⟩, read⟩, reads, listed⟩ := ok_of_bind listed
      dsimp only at listed
      split_ifs at listed
      exact (inductionHypothesis listed).trans (concurrentReadi_refs reads)
    · grind

theorem grow_refs (fs : FileSystem) (ip : Fin ninode) (bytes : UInt32) :
    (fs.grow ip bytes).refs = fs.refs :=
  refs_setInode_same rfl

theorem writeCreated_refs (written : writeCreated fs = .ok after) : after.refs = fs.refs := by
  unfold writeCreated at written
  split_ifs at written
  obtain ⟨⟨_, writtenFs, inode⟩, writes, written⟩ := ok_of_bind written
  obtain ⟨⟨disk, rfl⟩, -⟩ := writei_eq writes
  rw [← Except.ok.inj written]
  rfl

/-- `createi` gives no reference back. -/
theorem createi_refs {inodefile : Fin ninode}
    (created : createi fs inodefile path = .ok (ip, after)) : fs.refs ≤ after.refs := by
  obtain ⟨written, writes, created⟩ := ok_of_bind created
  obtain ⟨⟨parent, looked⟩, looks, created⟩ := ok_of_bind created
  cases parent with
  | none => cases created
  | some parent =>
    obtain ⟨⟨_, entered⟩, enters, created⟩ := ok_of_bind created
    obtain ⟨⟨last, listed⟩, lists, created⟩ := ok_of_bind created
    obtain ⟨updated, updates, created⟩ := ok_of_bind created
    obtain ⟨updatedParent, updatesParent, got⟩ := ok_of_bind created
    calc fs.refs
      _ = written.refs := (writeCreated_refs writes).symm
      _ ≤ looked.refs :=
        (le_add_of_nonneg_right (foundRef_nonneg _)).trans (namex_refs_le looks)
      _ = entered.refs := (concurrentWritei_refs enters).symm
      _ = listed.refs := by rw [listLoop_refs lists, grow_refs, grow_refs]
      _ ≤ updated.refs := updateDinode_refs updates
      _ ≤ updatedParent.refs := updateDinode_refs updatesParent
      _ ≤ after.refs := by
        rw [iget_refs got]
        exact le_add_of_nonneg_right (oneRef_nonneg ip)

/-- `concurrent_createi` leaves a reference to the inode file. -/
theorem concurrentCreatei_refs (created : concurrentCreatei fs path = .ok (ip, after)) :
    ∃ inodefile, fs.refs + oneRef inodefile ≤ after.refs := by
  obtain ⟨⟨inodefile, taken⟩, got, created⟩ := ok_of_bind created
  dsimp only at created
  split_ifs at created
  obtain ⟨⟨_, made⟩, makes, created⟩ := ok_of_bind created
  obtain ⟨rfl, rfl⟩ := ok_pair created
  refine ⟨inodefile, ?_⟩
  calc fs.refs + oneRef inodefile
    _ = taken.refs := (iget_refs got).symm
    _ = (taken.setInode inodefile { taken.inode inodefile with locked := true }).refs :=
      (refs_locked taken inodefile true).symm
    _ ≤ made.refs := createi_refs makes
    _ = _ := (refs_locked made inodefile false).symm

end Creation

/-! ### Lookups that leave no trace -/

/-- The locks of the entries of the inode cache. -/
def FileSystem.locks (fs : FileSystem) : Fin ninode → Bool := fun ip => (fs.inode ip).locked

/-- Two file systems that differ in their inode caches at most. -/
structure FileSystem.SameStore (fs after : FileSystem) : Prop where
  disk : after.disk = fs.disk
  devsw : after.devsw = fs.devsw
  inodefile : after.inodefile = fs.inodefile

section Traces

variable {fs after : FileSystem} {ip : Fin ninode}

theorem FileSystem.SameStore.refl (fs : FileSystem) : fs.SameStore fs := ⟨rfl, rfl, rfl⟩

theorem FileSystem.SameStore.trans {middle : FileSystem} (first : fs.SameStore middle)
    (second : middle.SameStore after) : fs.SameStore after :=
  ⟨second.disk.trans first.disk, second.devsw.trans first.devsw,
    second.inodefile.trans first.inodefile⟩

theorem setInode_sameStore (fs : FileSystem) (ip : Fin ninode) (inode : Inode) :
    fs.SameStore (fs.setInode ip inode) :=
  ⟨rfl, rfl, rfl⟩

theorem locks_setInode (fs : FileSystem) (ip : Fin ninode) (inode : Inode) :
    (fs.setInode ip inode).locks = Function.update fs.locks ip inode.locked := by
  funext other
  by_cases same : other = ip
  · rw [same, Function.update_self, FileSystem.locks, fs.setInode_self ip inode]
  · grind [FileSystem.locks, FileSystem.setInode_of_ne]

theorem locks_setInode_same {inode : Inode} (same : inode.locked = (fs.inode ip).locked) :
    (fs.setInode ip inode).locks = fs.locks := by
  rw [locks_setInode, same]
  exact Function.update_eq_self ip fs.locks

theorem irelease_locks (fs : FileSystem) (ip : Fin ninode) : (irelease fs ip).locks = fs.locks :=
  locks_setInode_same rfl

/-- A lock that is taken and given back is as before. -/
theorem locks_unlocked {locked searched unlocked : FileSystem} (locks : locki fs ip = .ok locked)
    (same : searched.locks = locked.locks) (unlocks : unlocki searched ip = .ok unlocked) :
    unlocked.locks = fs.locks := by
  obtain ⟨inode, rfl, -, isLocked, wasFree⟩ := locki_eq locks
  rw [unlocki_eq unlocks, locks_setInode, same, locks_setInode, Function.update_idem]
  exact Function.update_eq_self_iff.mpr wasFree.symm

theorem locki_sameStore (locks : locki fs ip = .ok after) : fs.SameStore after := by
  grind [locki_eq, setInode_sameStore]

theorem unlocki_sameStore (unlocks : unlocki fs ip = .ok after) : fs.SameStore after := by
  rw [unlocki_eq unlocks]
  exact setInode_sameStore fs ip _

theorem iget_sameStore (got : iget fs dev inum = .ok (ip, after)) :
    fs.SameStore after ∧ after.locks = fs.locks := by
  grind [iget_eq, setInode_sameStore, locks_setInode_same]

/-- A lookup changes the inode cache only, and leaves the locks as they were. -/
theorem namexLoop_sameStore {turns : Nat} {name : List UInt8}
    (looked : namexLoop parent turns fs ip path name = .ok (found, after)) :
    fs.SameStore after ∧ after.locks = fs.locks := by
  refine namexLoop_rule (fun now _ => fs.SameStore now ∧ now.locks = fs.locks)
    (fun _ after => fs.SameStore after ∧ after.locks = fs.locks) ?_ ?_ ?_ ?_ ⟨.refl fs, rfl⟩ looked
  · intro now at' same
    exact ⟨same.1.trans (setInode_sameStore ..), (irelease_locks now at').trans same.2⟩
  · exact fun _ _ _ same => same
  · intro now at' locked unlocked same locks unlocks
    exact ⟨(same.1.trans (locki_sameStore locks)).trans (unlocki_sameStore unlocks),
      (locks_unlocked locks rfl unlocks).trans same.2⟩
  · intro now at' locked dev inum next searched unlocked same locks got unlocks
    obtain ⟨gotStore, gotLocks⟩ := iget_sameStore got
    refine ⟨(((same.1.trans (locki_sameStore locks)).trans gotStore).trans
      (unlocki_sameStore unlocks)).trans (setInode_sameStore ..), ?_⟩
    rw [irelease_locks, locks_unlocked locks gotLocks unlocks, same.2]

theorem namei_absolute_sameStore {found : Option (Fin ninode)} (absolute : path.head? = some slash)
    (looked : namei fs path = .ok (found, after)) :
    fs.SameStore after ∧ after.locks = fs.locks := by
  obtain ⟨named, _, looks⟩ := namei_eq looked
  obtain ⟨⟨root, started⟩, starts, looks⟩ := ok_of_bind looks
  rw [namexStart, if_pos absolute] at starts
  obtain ⟨gotStore, gotLocks⟩ := iget_sameStore starts
  obtain ⟨rest, restLocks⟩ := namexLoop_sameStore looks
  exact ⟨gotStore.trans rest, restLocks.trans gotLocks⟩

end Traces

/-! ### The second lookup of a path -/

/-- Two file systems whose caches differ in entries without references only. -/
structure FileSystem.SameHeld (left right : FileSystem) : Prop where
  store : left.SameStore right
  held : ∀ ip, left.inode ip = right.inode ip ∨
    (left.inode ip).ref = 0 ∧ (right.inode ip).ref = 0 ∧
      (left.inode ip).locked = (right.inode ip).locked

section SecondLookup

variable {left right after : FileSystem} {ip : Fin ninode}

theorem setInode_same {inode : Inode} (other : Fin ninode)
    (same : left.inode other = right.inode other) :
    (left.setInode ip inode).inode other = (right.setInode ip inode).inode other := by
  grind [FileSystem.setInode_self, FileSystem.setInode_of_ne]

theorem FileSystem.SameHeld.setInode (alike : left.SameHeld right) (ip : Fin ninode)
    (inode : Inode) : (left.setInode ip inode).SameHeld (right.setInode ip inode) where
  store := ⟨alike.store.disk, alike.store.devsw, alike.store.inodefile⟩
  held other := by grind [FileSystem.setInode_self, FileSystem.setInode_of_ne, FileSystem.SameHeld]

theorem FileSystem.SameStore.readi (same : left.SameStore right) (inode : Inode)
    (off n : UInt32) : Xk.readi right inode off n = Xk.readi left inode off n := by
  simp only [Xk.readi, same.disk, same.devsw]

theorem FileSystem.SameStore.readDinodeLocked (same : left.SameStore right) (inum : UInt32) :
    Xk.readDinodeLocked right inum = Xk.readDinodeLocked left inum := by
  simp only [Xk.readDinodeLocked, same.inodefile, same.readi]

theorem FileSystem.SameStore.readDinode (same : left.SameStore right) (inum : UInt32) :
    Xk.readDinode right inum = Xk.readDinode left inum := by
  simp only [Xk.readDinode, same.inodefile, same.readDinodeLocked]

theorem FileSystem.SameHeld.caches (alike : left.SameHeld right) (dev inum : UInt32) :
    right.caches dev inum = left.caches dev inum := by
  grind [FileSystem.caches, FileSystem.SameHeld]

/-- `iget` takes the same entry for the same inode in both. -/
theorem FileSystem.SameHeld.iget (alike : left.SameHeld right)
    (got : Xk.iget left dev inum = .ok (ip, after)) :
    ∃ inode, after = left.setInode ip inode ∧
      Xk.iget right dev inum = .ok (ip, right.setInode ip inode) := by
  have free : (fun ip => decide ((right.inode ip).ref = 0)) =
      fun ip => decide ((left.inode ip).ref = 0) := by
    grind [FileSystem.SameHeld]
  unfold Xk.iget at got ⊢
  rw [alike.caches, free]
  split at got
  · grind [FileSystem.SameHeld, FileSystem.caches]
  · rename_i notCached
    split at got
    · cases got
    · rename_i found isFree
      obtain ⟨dip, reads, got⟩ := ok_of_bind got
      split_ifs at got with typed
      obtain ⟨rfl, rfl⟩ := ok_pair got
      have locked : (right.inode found).locked = (left.inode found).locked := by
        grind [FileSystem.SameHeld]
      refine ⟨_, rfl, ?_⟩
      have sameTaken : (left.setInode found { left.inode found with
            ref := 1, valid := false, dev := dev, inum := inum }).SameStore
          (right.setInode found { right.inode found with
            ref := 1, valid := false, dev := dev, inum := inum }) :=
        ⟨alike.store.disk, alike.store.devsw, alike.store.inodefile⟩
      dsimp only at sameTaken reads ⊢
      rw [sameTaken.readDinode, reads, ok_bind, if_neg typed]
      simp only [Inode.copy, locked]
      rfl

theorem FileSystem.SameHeld.locki (alike : left.SameHeld right)
    (same : left.inode ip = right.inode ip) (locks : Xk.locki left ip = .ok after) :
    ∃ inode, after = left.setInode ip inode ∧
      Xk.locki right ip = .ok (right.setInode ip inode) := by
  unfold Xk.locki at locks ⊢
  dsimp only at locks ⊢
  rw [← same, alike.store.inodefile, alike.store.readDinodeLocked]
  split_ifs at locks ⊢
  · exact ⟨_, (Except.ok.inj locks).symm, rfl⟩
  · obtain ⟨dip, reads, locks⟩ := ok_of_bind locks
    split_ifs at locks with typed
    refine ⟨_, (Except.ok.inj locks).symm, ?_⟩
    rw [reads, ok_bind, if_neg typed]
    rfl

theorem unlocki_same (same : left.inode ip = right.inode ip)
    (unlocks : Xk.unlocki left ip = .ok after) :
    ∃ inode, after = left.setInode ip inode ∧
      Xk.unlocki right ip = .ok (right.setInode ip inode) := by
  grind [Xk.unlocki]

theorem irelease_same (same : left.inode ip = right.inode ip) {other : Fin ninode}
    (sameOther : left.inode other = right.inode other) :
    (irelease left ip).inode other = (irelease right ip).inode other := by
  grind [irelease, setInode_same]

section

variable (alike : left.SameHeld right)
include alike

theorem FileSystem.SameHeld.irelease (same : left.inode ip = right.inode ip) :
    (Xk.irelease left ip).SameHeld (Xk.irelease right ip) := by
  unfold Xk.irelease
  dsimp only
  rw [← same]
  exact alike.setInode ip _

theorem FileSystem.SameHeld.dirlookupLoop (same : left.inode ip = right.inode ip)
    {name : List UInt8} {turns : Nat} {found : Option (Fin ninode × UInt32)}
    (looked : Xk.dirlookupLoop left ip name turns off = .ok (found, after)) :
    ∃ rightAfter, Xk.dirlookupLoop right ip name turns off = .ok (found, rightAfter) ∧
      after.SameHeld rightAfter ∧ after.inode ip = rightAfter.inode ip ∧
      ∀ next offset, found = some (next, offset) → after.inode next = rightAfter.inode next := by
  induction turns generalizing off with
  | zero => cases looked
  | succ turns inductionHypothesis =>
    unfold Xk.dirlookupLoop at looked ⊢
    rw [← same, alike.store.readi]
    split_ifs at looked ⊢
    · obtain ⟨⟨result, record⟩, reads, looked⟩ := ok_of_bind looked
      rw [reads, ok_bind]
      dsimp only at looked ⊢
      split_ifs at looked ⊢
      · exact inductionHypothesis looked
      · obtain ⟨⟨next, taken⟩, got, looked⟩ := ok_of_bind looked
        obtain ⟨rfl, rfl⟩ := ok_pair looked
        obtain ⟨inode, rfl, gotRight⟩ := alike.iget got
        refine ⟨right.setInode next inode, by rw [gotRight]; rfl, alike.setInode next inode,
          setInode_same ip same, fun other offset isNext => ?_⟩
        obtain ⟨rfl, -⟩ := Prod.mk.inj (Option.some_inj.mp isNext)
        rw [left.setInode_self, right.setInode_self]
      · exact inductionHypothesis looked
    · grind

theorem FileSystem.SameHeld.dirlookup (same : left.inode ip = right.inode ip) {name : List UInt8}
    {found : Option (Fin ninode × UInt32)} (looked : Xk.dirlookup left ip name = .ok (found, after))
    :
    ∃ rightAfter, Xk.dirlookup right ip name = .ok (found, rightAfter) ∧
      after.SameHeld rightAfter ∧ after.inode ip = rightAfter.inode ip ∧
      ∀ next offset, found = some (next, offset) → after.inode next = rightAfter.inode next := by
  unfold Xk.dirlookup at looked ⊢
  rw [← same]
  split_ifs at looked ⊢
  exact alike.dirlookupLoop same looked

/-- A lookup finds the same in both. -/
theorem FileSystem.SameHeld.namexLoop (same : left.inode ip = right.inode ip) {turns : Nat}
    {name : List UInt8} (looked : Xk.namexLoop false turns left ip path name = .ok (found, after)) :
    ∃ rightAfter, Xk.namexLoop false turns right ip path name = .ok (found, rightAfter) := by
  induction turns generalizing left right ip path name with
  | zero => cases looked
  | succ turns inductionHypothesis =>
    unfold Xk.namexLoop at looked ⊢
    split at looked
    · grind
    · obtain ⟨locked, locks, looked⟩ := ok_of_bind looked
      obtain ⟨inode, rfl, locksRight⟩ := alike.locki same locks
      have alikeLocked := alike.setInode ip inode
      have sameLocked : (left.setInode ip inode).inode ip = (right.setInode ip inode).inode ip :=
        setInode_same ip same
      rw [locksRight, ok_bind, ← sameLocked]
      split_ifs at looked ⊢ with notDir parent
      · obtain ⟨unlocked, unlocks, looked⟩ := ok_of_bind looked
        obtain ⟨changed, rfl, unlocksRight⟩ := unlocki_same sameLocked unlocks
        obtain ⟨rfl, rfl⟩ := ok_pair looked
        rw [unlocksRight]
        exact ⟨_, rfl⟩
      · exact parent.1.elim
      · obtain ⟨⟨next, searched⟩, searches, turned⟩ := ok_of_bind looked
        obtain ⟨unlocked, unlocks, ended⟩ := ok_of_bind turned
        obtain ⟨searchedRight, searchesRight, alikeSearched, sameDir, sameNext⟩ :=
          alikeLocked.dirlookup sameLocked searches
        obtain ⟨changed, rfl, unlocksRight⟩ := unlocki_same sameDir unlocks
        rw [searchesRight, ok_bind]
        dsimp only
        rw [unlocksRight, ok_bind]
        cases next with
        | none =>
          obtain ⟨rfl, rfl⟩ := ok_pair ended
          exact ⟨_, rfl⟩
        | some next => grind [setInode, setInode_same, irelease, irelease_same]

end

/-- Looking up an absolute path that names nothing, with no references to begin with, can be
repeated with the same result. -/
theorem namei_missing_again (absolute : path.head? = some slash) (unused : left.refs = 0)
    (looked : namei left path = .ok (none, after)) :
    ∃ again, namei after path = .ok (none, again) := by
  have alike : left.SameHeld after := by
    obtain ⟨store, locks⟩ := namei_absolute_sameStore absolute looked
    refine ⟨store, fun ip => Or.inr ⟨congrFun unused ip, ?_, (congrFun locks ip).symm⟩⟩
    exact congrFun ((namei_refs_missing absolute looked).trans unused) ip
  obtain ⟨named, isFound, looks⟩ := namei_eq looked
  obtain ⟨⟨root, started⟩, starts, looks⟩ := ok_of_bind looks
  rw [namexStart, if_pos absolute] at starts
  obtain ⟨inode, rfl, startsAgain⟩ := alike.iget starts
  have same : (left.setInode root inode).inode root = (after.setInode root inode).inode root := by
    rw [left.setInode_self, after.setInode_self]
  obtain ⟨again, looksAgain⟩ := (alike.setInode root inode).namexLoop same looks
  refine ⟨again, ?_⟩
  have isNamex : namex after path false = .ok (named, again) := by
    grind [namex, namexStart, ok_bind]
  rw [namei, isNamex, ok_bind]
  dsimp only
  rw [← isFound]
  rfl

end SecondLookup

/-! ### Room in the cache -/

section Room

variable {fs : FileSystem} {ip : Fin ninode}

theorem seekExtent_room {extents : List Extent} {size : UInt32} {message : String} :
    seekExtent extents size off ≠ .error (.panic message) := by
  induction extents generalizing size with
  | nil =>
    intro failed
    cases failed
  | cons extent rest inductionHypothesis => grind [seekExtent]

theorem readLoop_room {disk : Disk} {turns : Nat} {data : List Extent} {size tot : UInt32} :
    readLoop disk n turns data size off tot ≠ .error (.panic "iget: no inodes") := by
  induction turns generalizing data size off tot with
  | zero => exact fun failed => nomatch failed
  | succ turns inductionHypothesis =>
    intro failed
    unfold readLoop at failed
    split_ifs at failed
    split at failed
    · cases failed
    · split_ifs at failed
      · rcases error_of_bind failed with failed | ⟨block, _, failed⟩
        · grind [bread]
        · rcases error_of_bind failed with failed | ⟨others, _, failed⟩
          · exact inductionHypothesis failed
          · cases failed
      · exact inductionHypothesis failed

theorem readi_room {inode : Inode} :
    readi fs inode off n ≠ .error (.panic "iget: no inodes") := by
  intro failed
  unfold readi at failed
  split_ifs at failed
  · exact absurd failed (by decide)
  · split at failed <;> cases failed
  · rcases error_of_bind failed with failed | ⟨sought, _, failed⟩
    · exact seekExtent_room failed
    · rcases error_of_bind failed with failed | ⟨bytes, _, failed⟩
      · exact readLoop_room failed
      · cases failed

theorem readDinode_room :
    readDinode fs inum ≠ .error (.panic "iget: no inodes") := by
  intro failed
  unfold readDinode at failed
  split_ifs at failed
  · exact absurd failed (by decide)
  · rcases error_of_bind failed with failed | ⟨record, _, failed⟩
    · exact readi_room failed
    · dsimp only at failed
      split_ifs at failed <;> cases failed

/-- `iget` has room as long as one entry is free. -/
theorem iget_room (free : (fs.inode ip).ref = 0) (dev inum : UInt32) :
    iget fs dev inum ≠ .error (.panic "iget: no inodes") := by
  intro failed
  unfold iget at failed
  split at failed
  · cases failed
  · split at failed
    · grind
    · rcases error_of_bind failed with failed | ⟨dip, _, failed⟩
      · exact readDinode_room failed
      · split_ifs at failed
        · exact absurd (Halt.panic.inj (Except.error.inj failed)) (by decide)
        · cases failed

end Room

/-! ### Balance -/

/-- The number of open files on an entry of the inode cache. -/
def FileTables.inodeSlots (tables : FileTables) (ip : Fin ninode) : Nat :=
  Counting.places Finset.univ tables.ftable fun file => 0 < file.ref ∧ file.iptr = some ip

/-- The number of entries of the inode cache that are open. -/
def FileTables.openInodes (tables : FileTables) : Nat :=
  (Finset.univ.filter fun ip => 0 < tables.inodeSlots ip).card

/-- Every entry of the inode cache has as many references as open files. -/
def OpenSystem.Balanced (system : OpenSystem) : Prop :=
  ∀ ip, (system.fs.inode ip).ref = system.tables.inodeSlots ip

/-- The references balance: with no descriptor open every entry is free, and with fewer than all but
one of the entries open `iget` finds room. -/
structure OpenSystem.RefsBalance (system : OpenSystem) : Prop where
  balanced : system.Balanced
  free : (∀ descriptor, system.tables.pftable descriptor = none) →
    ∀ ip, (system.fs.inode ip).ref = 0
  room : system.tables.openInodes < ninode - 1 →
    ∀ dev inum, iget system.fs dev inum ≠ .error (.panic "iget: no inodes")

/-- A path names a file. -/
def FileSystem.Names (fs : FileSystem) (path : List UInt8) : Prop :=
  ∃ ip after, namei fs path = .ok (some ip, after)

/-- The calls that lose no reference: all but those of `sys_open` with a relative path, a path that
names a file, or a mode that creates one. -/
def OpenSystem.Clean (system : OpenSystem) : OpenAction → Prop
  | .sysOpen _ path mode => path.head? = some slash ∧ ¬ system.fs.Names path ∧
      ¬ (mode ∈ openModes ∧ Creates mode)
  | _ => True

/-- Nothing is open, and the inode cache is free. -/
structure OpenSystem.Quiet (system : OpenSystem) : Prop where
  refs : system.fs.refs = 0
  ftable : ∀ slot, (system.tables.ftable slot).ref = 0
  pftable : ∀ descriptor, system.tables.pftable descriptor = none

section Balance

variable {system next : OpenSystem} {process : Fin nproc} {path : List UInt8} {mode : Int}

theorem OpenSystem.Quiet.inodeSlots (quiet : system.Quiet) (ip : Fin ninode) :
    system.tables.inodeSlots ip = 0 := by
  refine (Counting.places_eq_zero_iff _ _ _).mpr fun slot _ isOpen => ?_
  rw [quiet.ftable slot] at isOpen
  exact lt_irrefl _ isOpen.1

theorem point_inodeSlots (tables : FileTables) (descriptor : Descriptor) (slot : Fin nfile)
    (file : FileInfo) (ip : Fin ninode) :
    (tables.point descriptor slot file).inodeSlots ip +
        (if 0 < (tables.ftable slot).ref ∧ (tables.ftable slot).iptr = some ip then 1 else 0) =
      tables.inodeSlots ip + (if 0 < file.ref ∧ file.iptr = some ip then 1 else 0) :=
  Counting.places_update Finset.univ tables.ftable
    (fun file => 0 < file.ref ∧ file.iptr = some ip) (Finset.mem_univ slot) file

/-- Opening a file adds at most one open file to its inode. -/
theorem fileopen_inodeSlots (tables : FileTables) (process : Fin nproc) (mode : Int)
    (ip other : Fin ninode) :
    ((Xk.fileopen tables process (some ip) mode).2.inodeSlots other : Int) ≤
      tables.inodeSlots other + oneRef ip other := by
  have unchanged : (tables.inodeSlots other : Int) ≤ tables.inodeSlots other + oneRef ip other :=
    le_add_of_nonneg_right (oneRef_nonneg ip other)
  have share : ((if (0 : Int) < 1 ∧ some ip = some other then 1 else 0 : Nat) : Int) =
      oneRef ip other := by
    by_cases same : ip = other
    · rw [if_pos ⟨zero_lt_one, congrArg some same⟩, ← same, oneRef, Pi.single_eq_same]
      rfl
    · rw [if_neg fun both => same (Option.some_inj.mp both.2), oneRef,
        Pi.single_eq_of_ne (Ne.symm same)]
      rfl
  unfold Xk.fileopen
  dsimp only
  split_ifs
  · exact unchanged
  · grind [point_inodeSlots]

/-- `fileopen` takes at least as many references as it opens files. -/
theorem OpenSystem.fileopen_refs (opened : system.fileopen process path mode = .ok (fd, next))
    (ip : Fin ninode) :
    next.tables.inodeSlots ip + system.fs.refs ip ≤
      next.fs.refs ip + system.tables.inodeSlots ip := by
  obtain ⟨⟨found, looked⟩, looks, opened⟩ := ok_of_bind opened
  cases found with
  | none =>
    obtain ⟨-, rfl⟩ := ok_pair opened
    have kept : system.fs.refs ip ≤ looked.refs ip := namei_refs_le looks ip
    exact (add_comm _ _).trans_le (add_le_add_left kept _)
  | some found =>
    obtain ⟨⟨_, stated⟩, states, opened⟩ := ok_of_bind opened
    obtain ⟨-, rfl⟩ := ok_pair opened
    have taken : system.fs.refs ip + oneRef found ip ≤ looked.refs ip := namei_refs_found looks ip
    have installed := fileopen_inodeSlots system.tables process mode found ip
    have same : stated.refs ip = looked.refs ip := congrFun (concurrentStati_refs states) ip
    calc ((Xk.fileopen system.tables process (some found) mode).2.inodeSlots ip : Int) +
          system.fs.refs ip
      _ ≤ system.tables.inodeSlots ip + oneRef found ip + system.fs.refs ip :=
        add_le_add_left installed _
      _ ≤ stated.refs ip + system.tables.inodeSlots ip := by omega

/-- A lost reference shows in the balance. -/
theorem OpenSystem.Quiet.not_balanced (quiet : system.Quiet) {middle : FileSystem}
    {lost : Fin ninode} (leak : system.fs.refs + oneRef lost ≤ middle.refs)
    (kept : ∀ ip, next.tables.inodeSlots ip + middle.refs ip ≤
      next.fs.refs ip + system.tables.inodeSlots ip) : ¬ next.Balanced := by
  intro balanced
  have isLost : system.fs.refs lost + oneRef lost lost ≤ middle.refs lost := leak lost
  rw [quiet.refs, oneRef, Pi.single_eq_same, Pi.zero_apply] at isLost
  have slots := kept lost
  rw [quiet.inodeSlots lost] at slots
  have same : next.fs.refs lost = next.tables.inodeSlots lost := balanced lost
  omega

/-- A lookup that finds something, or whose path is relative, loses a reference. -/
theorem namei_leaks {fs looked : FileSystem} {found : Option (Fin ninode)}
    (looks : namei fs path = .ok (found, looked))
    (unclean : path.head? ≠ some slash ∨ found ≠ none) :
    ∃ lost, fs.refs + oneRef lost ≤ looked.refs := by
  rcases unclean with relative | isFound
  · exact namei_refs_relative relative looks
  · obtain ⟨ip, rfl⟩ := Option.ne_none_iff_exists'.mp isFound
    exact ⟨ip, namei_refs_found looks⟩

section

variable (quiet : system.Quiet)
include quiet

/-- Every other way through `sys_open` loses a reference. -/
theorem OpenSystem.Quiet.sysOpen_leaks (opened : system.sysOpen process path mode = .ok (fd, next))
    (balanced : next.Balanced) :
    system.Clean (.sysOpen process path mode) := by
  by_contra unclean
  obtain ⟨⟨found, looked⟩, looks, opened⟩ := ok_of_bind opened
  dsimp only at opened
  by_cases traceless : path.head? = some slash ∧ found = none
  · obtain ⟨absolute, rfl⟩ := traceless
    have unnamed : ¬ system.fs.Names path := by
      rintro ⟨ip, after, named⟩
      rw [looks] at named
      cases named
    have creates : mode ∈ openModes ∧ Creates mode := by
      by_contra plain
      exact unclean ⟨absolute, unnamed, plain⟩
    rw [if_neg (not_not.mpr creates.1), if_pos ⟨creates.2, rfl⟩] at opened
    obtain ⟨⟨_, created⟩, creation, opened⟩ := ok_of_bind opened
    obtain ⟨inodefile, lost⟩ := concurrentCreatei_refs creation
    rw [namei_refs_missing absolute looks] at lost
    exact quiet.not_balanced lost (fileopen_refs opened) balanced
  · obtain ⟨lost, leak⟩ := namei_leaks looks (by
      rwa [not_and_or] at traceless)
    split_ifs at opened
    · obtain ⟨⟨_, created⟩, creation, opened⟩ := ok_of_bind opened
      obtain ⟨inodefile, more⟩ := concurrentCreatei_refs creation
      have leakCreated := (leak.trans (le_add_of_nonneg_right (oneRef_nonneg inodefile))).trans more
      exact quiet.not_balanced leakCreated (fileopen_refs opened) balanced
    · exact quiet.not_balanced leak (fileopen_refs opened) balanced
    · obtain ⟨-, rfl⟩ := ok_pair opened
      exact quiet.not_balanced leak (fun ip => (add_comm _ _).le) balanced

theorem OpenSystem.Quiet.looked (absolute : path.head? = some slash) {looked : FileSystem}
    (looks : namei system.fs path = .ok (none, looked)) :
    Quiet { system with fs := looked } where
  refs := (namei_refs_missing absolute looks).trans quiet.refs
  ftable := quiet.ftable
  pftable := quiet.pftable

/-- `sys_open` of an absolute path that names nothing and is not created leaves no reference. -/
theorem OpenSystem.Quiet.sysOpen (opened : system.sysOpen process path mode = .ok (fd, next))
    (clean : system.Clean (.sysOpen process path mode)) : next.Quiet := by
  obtain ⟨absolute, unnamed, plain⟩ := clean
  obtain ⟨⟨found, looked⟩, looks, opened⟩ := ok_of_bind opened
  cases found with
  | some ip => exact absurd ⟨ip, looked, looks⟩ unnamed
  | none =>
    dsimp only at opened
    have quietLooked := quiet.looked absolute looks
    split_ifs at opened with valid creates
    · exact absurd ⟨valid, creates.1⟩ plain
    · obtain ⟨again, looksAgain⟩ := namei_missing_again absolute quiet.refs looks
      rw [OpenSystem.fileopen, looksAgain] at opened
      obtain ⟨-, rfl⟩ := ok_pair opened
      exact quietLooked.looked absolute looksAgain
    · obtain ⟨-, rfl⟩ := ok_pair opened
      exact quietLooked

/-- A call on a descriptor finds it empty. -/
theorem OpenSystem.Quiet.fileclose (fd : Fin nofile) :
    (system.fileclose process fd).2 = system := by
  simp only [OpenSystem.fileclose, Xk.fileclose, quiet.pftable]

theorem OpenSystem.Quiet.filedup (fd : Fin nofile) :
    (Xk.filedup system.tables process fd).2 = system.tables := by
  simp only [Xk.filedup, quiet.pftable]

theorem OpenSystem.Quiet.forkTurns (parent child : Fin nproc) (fds : List (Fin nofile)) :
    fds.foldl (forkTurn parent child) system.tables = system.tables := by
  induction fds with
  | nil => rfl
  | cons fd rest inductionHypothesis =>
    rw [List.foldl_cons]
    simp only [forkTurn, quiet.pftable]
    exact inductionHypothesis

end

theorem OpenSystem.Quiet.fork (quiet : system.Quiet) (stack : Bool) :
    Quiet { system with tables := (forkFiles system.tables process stack).2 } := by
  unfold forkFiles
  split
  · exact quiet
  · split_ifs
    · exact quiet
    · rw [quiet.forkTurns]
      exact ⟨quiet.refs, quiet.ftable, quiet.pftable⟩

theorem OpenSystem.Quiet.exit (quiet : system.Quiet) : (system.exit process).Quiet := by
  have closed : ∀ fds : List (Fin nofile), fds.foldl (fun system fd =>
      if system.tables.pftable (process, fd) = none then system
      else (OpenSystem.fileclose system process fd).2) system = system := by
    intro fds
    induction fds with
    | nil => rfl
    | cons fd rest inductionHypothesis =>
      rw [List.foldl_cons, if_pos (quiet.pftable (process, fd))]
      exact inductionHypothesis
  unfold OpenSystem.exit
  rw [closed]
  exact ⟨quiet.refs, quiet.ftable, quiet.pftable⟩

/-- With nothing open the references balance. -/
theorem OpenSystem.Quiet.refsBalance (quiet : system.Quiet) : system.RefsBalance where
  balanced ip := by
    rw [quiet.inodeSlots ip]
    exact congrFun quiet.refs ip
  free _ := congrFun quiet.refs
  room _ dev inum := iget_room (congrFun quiet.refs 0) dev inum

/-- A step that loses no reference leaves nothing open. -/
theorem OpenSystem.Quiet.openStep {action : OpenAction} (quiet : system.Quiet)
    (stepped : Xk.openStep system action = some next) (clean : system.Clean action) :
    next.Quiet := by
  unfold Xk.openStep at stepped
  split_ifs at stepped
  cases action with
  | sysOpen process path mode => grind [Option.map_eq_some_iff, sysOpen, Outcome.ok_of_toOption]
  | sysClose process fd => grind [fileclose]
  | dup process fd =>
    rw [← Option.some_inj.mp stepped, quiet.filedup]
    exact quiet
  | fork process stack => grind [fork]
  | exit process =>
    rw [← Option.some_inj.mp stepped]
    exact quiet.exit
  | wait process zombie =>
    dsimp only at stepped
    split_ifs at stepped
    rw [← Option.some_inj.mp stepped]
    exact ⟨quiet.refs, quiet.ftable, quiet.pftable⟩

/-- With nothing open, only a step that loses no reference leads to a balance. -/
theorem OpenSystem.Quiet.clean_of_balanced {action : OpenAction} (quiet : system.Quiet)
    (stepped : Xk.openStep system action = some next) (balanced : next.Balanced) :
    system.Clean action := by
  cases action with
  | sysOpen process path mode =>
    unfold Xk.openStep at stepped
    split_ifs at stepped
    obtain ⟨⟨fd, after⟩, isOk, rfl⟩ := Option.map_eq_some_iff.mp stepped
    exact quiet.sysOpen_leaks (ok_of_toOption isOk) balanced
  | sysClose | dup | fork | exit | wait => trivial

/-- The references of the inode cache balance in every state of a run exactly when no `sys_open` of
the run finds or creates a file, or has a relative path. -/
theorem run_refsBalance_iff {fs : FileSystem} {actions : List OpenAction} {final : OpenSystem}
    (unused : ∀ ip, (fs.inode ip).ref = 0)
    (runs : run openStep (.initial fs) actions = some final) :
    Along openStep OpenSystem.RefsBalance (.initial fs) actions ↔
      Respects openStep OpenSystem.Clean (.initial fs) actions :=
  have start : (OpenSystem.initial fs).Quiet := ⟨funext unused, fun _ => rfl, fun _ => rfl⟩
  along_iff_respects_of_strong (fun _ quiet => quiet.refsBalance)
    (fun _ _ _ stepped quiet clean => quiet.openStep stepped clean)
    (fun _ _ _ stepped quiet balance => quiet.clean_of_balanced stepped balance.balanced) runs start

end Balance

/-- A file system with an empty root directory. Its inodes are in block 0 of the disk. -/
def FileSystem.emptyRoot : FileSystem where
  disk := ⟨1, fun address => if address = 64 then 1 else 0, by decide⟩
  devsw := ⟨fun _ => none, fun _ => none⟩
  sb := ⟨1, 0, 0, 0⟩
  inode := fun _ => .zero
  inodefile := ⟨rootdev, inodefileino, 1, true, false, tFile, 0, 128, .single ⟨0, 1⟩⟩

/-- Opening a file that does not exist, in an empty root directory. -/
theorem run_refsBalance_iff_missing : ∃ final, run openStep (.initial .emptyRoot)
      [.sysOpen 0 [slash, 97] oRdonly, .sysClose 0 0] = some final ∧
    (Along openStep OpenSystem.RefsBalance (.initial .emptyRoot)
        [.sysOpen 0 [slash, 97] oRdonly, .sysClose 0 0] ↔
      Respects openStep OpenSystem.Clean (.initial .emptyRoot)
        [.sysOpen 0 [slash, 97] oRdonly, .sysClose 0 0]) := by
  obtain ⟨final, runs⟩ := Option.isSome_iff_exists.mp (by decide +kernel :
    (run openStep (.initial .emptyRoot)
      [.sysOpen 0 [slash, 97] oRdonly, .sysClose 0 0]).isSome = true)
  exact ⟨final, runs, run_refsBalance_iff (fun _ => rfl) runs⟩

/-- The root directory is opened once and has two references, and one when it is closed again. -/
theorem openRoot_not_balanced : ∃ opened closed,
    openStep (.initial .emptyRoot) (.sysOpen 0 [slash] oRdonly) = some opened ∧
    (opened.fs.inode 0).ref = 2 ∧ opened.tables.inodeSlots 0 = 1 ∧
    openStep opened (.sysClose 0 0) = some closed ∧
    (∀ descriptor, closed.tables.pftable descriptor = none) ∧ (closed.fs.inode 0).ref = 1 := by
  obtain ⟨opened, opens, facts⟩ := Option.map_eq_some_iff.mp (by decide +kernel :
    (openStep (.initial .emptyRoot) (.sysOpen 0 [slash] oRdonly)).map (fun opened =>
      decide ((opened.fs.inode 0).ref = 2 ∧ opened.tables.inodeSlots 0 = 1 ∧
        (openStep opened (.sysClose 0 0)).map (fun closed =>
          decide ((∀ descriptor, closed.tables.pftable descriptor = none) ∧
            (closed.fs.inode 0).ref = 1)) = some true)) = some true)
  obtain ⟨refs, slots, closes⟩ := of_decide_eq_true facts
  obtain ⟨closed, closes, free⟩ := Option.map_eq_some_iff.mp closes
  exact ⟨opened, closed, opens, refs, slots, closes, of_decide_eq_true free⟩

/-! ### `fileopen` -/

section Opening

variable {system next : OpenSystem} {process : Fin nproc} {path : List UInt8} {mode : Int}

/-- What a call of `fileopen` is to leave behind. A descriptor that it returns was empty and refers to
a slot with one reference and the inode of the path. A call that fails leaves the tables and the
references of the inode cache as they were. -/
structure OpenSystem.Opens (system : OpenSystem) (process : Fin nproc)
    (path : List UInt8) (fd : Int)
    (next : OpenSystem) : Prop where
  usable : 0 ≤ fd → ∃ descriptor : Fin nofile, ∃ slot ip looked, fd = descriptor ∧
    system.tables.pftable (process, descriptor) = none ∧
    next.tables.pftable (process, descriptor) = some slot ∧
    (next.tables.ftable slot).ref = 1 ∧ (next.tables.ftable slot).iptr = some ip ∧
    namei system.fs path = .ok (some ip, looked)
  failed : fd = -1 → next.tables = system.tables ∧ next.fs.refs = system.fs.refs

/-- Where `fileopen` does that. -/
structure OpenSystem.CanOpen (system : OpenSystem) (process : Fin nproc) (path : List UInt8)
    (mode : Int) : Prop where
  absolute : ¬ system.fs.Names path → path.head? = some slash
  mode : system.fs.Names path → mode ≠ tDevMode
  descriptor : system.fs.Names path → ∃ fd, system.tables.pftable (process, fd) = none
  slot : system.fs.Names path → ∃ slot, (system.tables.ftable slot).ref = 0

/-- A reference that has been taken shows. -/
theorem FileSystem.refs_ne {fs after : FileSystem} {taken : Fin ninode}
    (more : fs.refs + oneRef taken ≤ after.refs) : after.refs ≠ fs.refs := by
  intro same
  have atTaken : fs.refs taken + oneRef taken taken ≤ after.refs taken := more taken
  rw [same, oneRef_self] at atTaken
  omega

/-- `fileopen` returns a usable descriptor or changes nothing exactly where the path names a file, the
mode is not `T_DEV` and both tables have room, or where the path is absolute and names nothing. -/
theorem OpenSystem.fileopen_opens_iff {fd : Int}
    (returned : system.fileopen process path mode = .ok (fd, next)) :
    system.Opens process path fd next ↔ system.CanOpen process path mode := by
  obtain ⟨⟨found, looked⟩, looks, opened⟩ := ok_of_bind returned
  cases found with
  | none =>
    obtain ⟨rfl, rfl⟩ := ok_pair opened
    have unnamed : ¬ system.fs.Names path := by
      rintro ⟨ip, after, named⟩
      rw [looks] at named
      cases named
    constructor
    · intro opens
      refine ⟨fun _ => ?_, fun named => absurd named unnamed, fun named => absurd named unnamed,
        fun named => absurd named unnamed⟩
      by_contra relative
      obtain ⟨root, more⟩ := namei_refs_relative relative looks
      exact FileSystem.refs_ne more (opens.failed rfl).2
    · intro canOpen
      refine ⟨fun nonneg => absurd nonneg (by decide), fun _ => ⟨rfl, ?_⟩⟩
      exact namei_refs_missing (canOpen.absolute unnamed) looks
  | some ip =>
    obtain ⟨⟨_, stated⟩, states, opened⟩ := ok_of_bind opened
    have named : system.fs.Names path := ⟨ip, looked, looks⟩
    have changed : stated.refs ≠ system.fs.refs := by
      rw [concurrentStati_refs states]
      exact FileSystem.refs_ne (namei_refs_found looks)
    have notFailed {tables : FileTables} : ¬ system.Opens process path (-1) ⟨tables, stated⟩ :=
      fun opens => changed (opens.failed rfl).2
    unfold Xk.fileopen at opened
    dsimp only at opened
    by_cases isDev : mode = tDevMode
    · rw [if_pos isDev] at opened
      cases opened
      exact iff_of_false notFailed fun canOpen => canOpen.mode named isDev
    rw [if_neg isDev] at opened
    cases free : system.tables.freeDescriptor process with
    | none =>
      rw [free] at opened
      cases opened
      refine iff_of_false notFailed fun canOpen => ?_
      obtain ⟨descriptor, empty⟩ := canOpen.descriptor named
      exact freeDescriptor_eq_none.mp free descriptor empty
    | some descriptor =>
      rw [free] at opened
      have empty := (freeDescriptor_eq_some free).1
      cases freeSlot : system.tables.freeSlot with
      | none =>
        rw [freeSlot] at opened
        cases opened
        -- The descriptor is returned and is still empty.
        refine iff_of_false (fun opens => ?_) fun canOpen => ?_
        · grind [OpenSystem.Opens]
        · grind [CanOpen, freeSlot_eq_none]
      | some slot =>
        rw [freeSlot] at opened
        dsimp only at opened
        obtain ⟨rfl, rfl⟩ := ok_pair opened
        have nonneg : (0 : Int) ≤ (descriptor : Nat) := Int.natCast_nonneg _
        refine iff_of_true ⟨fun _ => ?_, fun negative => by rw [negative] at nonneg; cases nonneg⟩
          ⟨fun unnamed => absurd named unnamed, fun _ => isDev, fun _ => ⟨descriptor, empty⟩,
            fun _ => ⟨slot, freeSlot_eq_some freeSlot⟩⟩
        refine ⟨descriptor, slot, ip, looked, rfl, empty, ?_, ?_, ?_, looks⟩
        · exact Function.update_self _ _ _
        · rw [FileTables.point_ftable_self]
        · rw [FileTables.point_ftable_self]

/-- The root directory is opened in empty tables. -/
theorem OpenSystem.fileopen_opens_iff_root : ∃ fd next,
    (OpenSystem.initial .emptyRoot).fileopen 0 [slash] oRdonly = .ok (fd, next) ∧
    ((OpenSystem.initial .emptyRoot).Opens 0 [slash] fd next ↔
      (OpenSystem.initial .emptyRoot).CanOpen 0 [slash] oRdonly) := by
  obtain ⟨⟨fd, next⟩, returned⟩ := Option.isSome_iff_exists.mp (by decide +kernel :
    ((OpenSystem.initial .emptyRoot).fileopen 0 [slash] oRdonly).toOption.isSome = true)
  exact ⟨fd, next, ok_of_toOption returned, fileopen_opens_iff (ok_of_toOption returned)⟩

/-- Six children are made, and seven processes open a hundred files. -/
def hundredOpen : List FileAction :=
  List.replicate 6 (.fork 0 true) ++ (List.range 100).map fun count =>
    .fileopen (Fin.ofNat nproc (count / 16)) (some 3) oRdonly

/-- With the table full `fileopen` returns a descriptor that stays empty. -/
theorem OpenSystem.hundredOpen_not_opens : ∃ tables fd next,
    run fileStep .initial hundredOpen = some tables ∧
    (OpenSystem.mk tables .emptyRoot).fileopen 6 [slash] oRdonly = .ok (fd, next) ∧
    fd = 4 ∧ next.tables.pftable (6, 4) = none ∧
    ¬ (OpenSystem.mk tables .emptyRoot).Opens 6 [slash] fd next := by
  have returns : (run fileStep .initial hundredOpen).bind (fun tables =>
      ((OpenSystem.mk tables .emptyRoot).fileopen 6 [slash] oRdonly).toOption.map fun opened =>
        (opened.1, opened.2.tables.pftable (6, 4))) = some (4, none) := by decide +kernel
  obtain ⟨tables, runs, returns⟩ := Option.bind_eq_some_iff.mp returns
  obtain ⟨⟨fd, next⟩, returned, isReturned⟩ := Option.map_eq_some_iff.mp returns
  obtain ⟨isFour, empty⟩ := Prod.mk.inj isReturned
  dsimp only at isFour empty
  refine ⟨tables, fd, next, runs, ok_of_toOption returned, isFour, empty, fun opens => ?_⟩
  obtain ⟨descriptor, slot, _, _, isDescriptor, -, points, -⟩ := opens.usable (isFour ▸ by decide)
  have same : descriptor = 4 :=
    Fin.ext (Int.natCast_inj.mp (isDescriptor.symm.trans isFour))
  rw [same, empty] at points
  cases points

end Opening

end Xk
