/-
This file says when an entry of the inode cache stays usable for somebody who has a reference to it.
An entry is given away by `iget` only while nobody has a reference, so that an entry that has been
read from the disk stays read as long as the references that are known of are counted. Every function
of `fs.c` keeps that, and leaves the locks of the entries as it found them.
-/

import Xk.InodeReferences

namespace Xk

open Outcome

/-- The entries have the references of `pins` and, besides them, those of `own`; those that are
pinned have been read from the disk. -/
structure FileSystem.Holds (fs : FileSystem) (pins own : Fin ninode → Int) : Prop where
  refs : pins + own ≤ fs.refs
  loaded : ∀ ip, 1 ≤ pins ip → (fs.inode ip).valid = true

section Holds

variable {fs after : FileSystem} {pins own : Fin ninode → Int} {ip : Fin ninode}

theorem FileSystem.valid_setInode {inode : Inode} {other : Fin ninode}
    (kept : (fs.inode ip).valid = true → inode.valid = true)
    (loaded : (fs.inode other).valid = true) :
    ((fs.setInode ip inode).inode other).valid = true := by
  grind [setInode_self, setInode_of_ne]

/-- An entry that is changed but for its references, and not unread. -/
theorem FileSystem.Holds.setInode (holds : fs.Holds pins own) {inode : Inode}
    (sameRef : inode.ref = (fs.inode ip).ref)
    (kept : (fs.inode ip).valid = true → inode.valid = true) :
    (fs.setInode ip inode).Holds pins own where
  refs := by
    rw [refs_setInode_same sameRef]
    exact holds.refs
  loaded other pinned := FileSystem.valid_setInode kept (holds.loaded other pinned)

/-- A pinned entry is not free. -/
theorem FileSystem.Holds.not_free (holds : fs.Holds pins own) (ownNonneg : 0 ≤ own)
    (pinned : 1 ≤ pins ip) : (fs.inode ip).ref ≠ 0 := by
  have counted : pins ip + own ip ≤ (fs.inode ip).ref := holds.refs ip
  have nonneg : 0 ≤ own ip := ownNonneg ip
  omega

theorem FileSystem.Holds.iget (holds : fs.Holds pins own) (ownNonneg : 0 ≤ own) {dev inum : UInt32}
    (got : iget fs dev inum = .ok (ip, after)) : after.Holds pins (own + oneRef ip) := by
  refine ⟨?_, fun other pinned => ?_⟩
  · rw [iget_refs got, ← add_assoc]
    exact add_le_add_left holds.refs _
  · have wasLoaded := holds.loaded other pinned
    unfold Xk.iget at got
    split at got
    · grind [FileSystem.valid_setInode]
    · split at got
      · cases got
      · rename_i found isFree
        obtain ⟨dip, _, got⟩ := ok_of_bind got
        split_ifs at got
        obtain ⟨rfl, rfl⟩ := ok_pair got
        have free : (fs.inode found).ref = 0 := by simpa using List.find?_some isFree
        have different : other ≠ found := by
          rintro rfl
          exact holds.not_free ownNonneg pinned free
        rw [fs.setInode_of_ne _ different]
        exact wasLoaded

theorem FileSystem.Holds.idup (holds : fs.Holds pins own) (ip : Fin ninode) :
    (idup fs ip).Holds pins (own + oneRef ip) where
  refs := by
    rw [idup_refs, ← add_assoc]
    exact add_le_add_left holds.refs _
  loaded other pinned := FileSystem.valid_setInode id (holds.loaded other pinned)

theorem FileSystem.Holds.irelease (holds : fs.Holds pins (own + oneRef ip)) :
    (irelease fs ip).Holds pins own where
  refs := by
    have counted := holds.refs
    rw [← irelease_refs fs ip, ← add_assoc] at counted
    exact le_of_add_le_add_right counted
  loaded other pinned := FileSystem.valid_setInode id (holds.loaded other pinned)

section

variable (holds : fs.Holds pins own)
include holds

/-- `locki` reads the entry. -/
theorem FileSystem.Holds.locki (locks : locki fs ip = .ok after) :
    after.Holds pins own ∧ (after.inode ip).valid = true := by
  unfold Xk.locki at locks
  dsimp only at locks
  split_ifs at locks with _ _ valid
  · grind [setInode, FileSystem.setInode_self]
  · obtain ⟨dip, _, locks⟩ := ok_of_bind locks
    split_ifs at locks
    rw [← Except.ok.inj locks]
    refine ⟨holds.setInode rfl fun _ => rfl, ?_⟩
    rw [fs.setInode_self]
    rfl

theorem FileSystem.Holds.unlocki (unlocks : unlocki fs ip = .ok after) :
    after.Holds pins own := by
  rw [unlocki_eq unlocks]
  exact holds.setInode rfl id

/-- `concurrent_stati` reads the entry. -/
theorem FileSystem.Holds.concurrentStati {stat : Stat}
    (stated : concurrentStati fs ip = .ok (stat, after)) :
    after.Holds pins own ∧ (after.inode ip).valid = true ∧ after.locks = fs.locks := by
  obtain ⟨locked, locks, stated⟩ := ok_of_bind stated
  obtain ⟨unlocked, unlocks, stated⟩ := ok_of_bind stated
  obtain ⟨-, rfl⟩ := ok_pair stated
  obtain ⟨held, valid⟩ := holds.locki locks
  refine ⟨held.unlocki unlocks, ?_, locks_unlocked locks rfl unlocks⟩
  rw [unlocki_eq unlocks]
  exact FileSystem.valid_setInode id valid

theorem FileSystem.Holds.concurrentReadi {off n : UInt32} {result : Int × List UInt8}
    (isRead : concurrentReadi fs ip off n = .ok (result, after)) :
    after.Holds pins own ∧ after.locks = fs.locks := by
  obtain ⟨locked, locks, isRead⟩ := ok_of_bind isRead
  obtain ⟨_, _, isRead⟩ := ok_of_bind isRead
  obtain ⟨unlocked, unlocks, isRead⟩ := ok_of_bind isRead
  obtain ⟨-, rfl⟩ := ok_pair isRead
  exact ⟨(holds.locki locks).1.unlocki unlocks, locks_unlocked locks rfl unlocks⟩

/-- Fewer references are held as well. -/
theorem FileSystem.Holds.weaken {fewer : Fin ninode → Int} (le : fewer ≤ own) :
    fs.Holds pins fewer :=
  ⟨(add_le_add_right le pins).trans holds.refs, holds.loaded⟩

theorem FileSystem.Holds.fewer {fewer : Fin ninode → Int} (le : fewer ≤ pins) :
    fs.Holds fewer own :=
  ⟨(add_le_add_left le own).trans holds.refs,
    fun other pinned => holds.loaded other (pinned.trans (le other))⟩

end

end Holds

/-! ### Writing -/

section Writing

variable {fs after : FileSystem} {pins own : Fin ninode → Int} {ip : Fin ninode}

/-- What a write leaves in the cache. -/
theorem FileSystem.Holds.written (holds : fs.Holds pins own) (disk : Disk) (ip : Fin ninode)
    (data : Extents) :
    ({ fs with disk := disk }.setInode ip { fs.inode ip with data := data }).Holds pins own :=
  ⟨(refs_written fs disk ip data).symm ▸ holds.refs,
    fun other pinned => FileSystem.valid_setInode id (holds.loaded other pinned)⟩

theorem locks_written (fs : FileSystem) (disk : Disk) (ip : Fin ninode) (data : Extents) :
    ({ fs with disk := disk }.setInode ip { fs.inode ip with data := data }).locks = fs.locks := by
  refine locks_setInode_same ?_
  rfl

section

variable (holds : fs.Holds pins own)
include holds

theorem FileSystem.Holds.concurrentWritei {src : List UInt8} {off n : UInt32} {result : Int}
    (isWritten : concurrentWritei fs ip src off n = .ok (result, after)) :
    after.Holds pins own ∧ after.locks = fs.locks := by
  obtain ⟨locked, locks, isWritten⟩ := ok_of_bind isWritten
  obtain ⟨⟨_, written, inode⟩, writes, isWritten⟩ := ok_of_bind isWritten
  obtain ⟨unlocked, unlocks, isWritten⟩ := ok_of_bind isWritten
  obtain ⟨-, rfl⟩ := ok_pair isWritten
  obtain ⟨⟨disk, rfl⟩, data, rfl⟩ := writei_eq writes
  refine ⟨((holds.locki locks).1.written disk ip data).unlocki unlocks, ?_⟩
  exact locks_unlocked locks (locks_written locked disk ip data) unlocks

theorem FileSystem.Holds.updateDinode (ownNonneg : 0 ≤ own)
    (updated : updateDinode fs ip = .ok after) :
    after.Holds pins own ∧ after.locks = fs.locks := by
  obtain ⟨⟨inodefile, taken⟩, got, updated⟩ := ok_of_bind updated
  obtain ⟨-, gotLocks⟩ := iget_sameStore got
  have taking := (holds.iget ownNonneg got).weaken
    (le_add_of_nonneg_right (oneRef_nonneg inodefile))
  obtain ⟨curr, _, updated⟩ := ok_of_bind updated
  split_ifs at updated
  · obtain ⟨⟨_, written, inode⟩, writes, updated⟩ := ok_of_bind updated
    obtain ⟨⟨disk, rfl⟩, data, rfl⟩ := writei_eq writes
    rw [← Except.ok.inj updated]
    exact ⟨taking.written disk inodefile data,
      (locks_written taken disk inodefile data).trans gotLocks⟩
  · rw [← Except.ok.inj updated]
    exact ⟨taking, gotLocks⟩

theorem FileSystem.Holds.listLoop {turns : Nat} {off : UInt32} {dirent last : Dirent}
    (listed : listLoop ip turns fs off dirent = .ok (last, after)) :
    after.Holds pins own ∧ after.locks = fs.locks := by
  induction turns generalizing fs off dirent with
  | zero => cases listed
  | succ turns inductionHypothesis =>
    unfold Xk.listLoop at listed
    split_ifs at listed
    · obtain ⟨⟨⟨result, record⟩, read⟩, reads, listed⟩ := ok_of_bind listed
      dsimp only at listed
      split_ifs at listed
      obtain ⟨held, readLocks⟩ := holds.concurrentReadi reads
      obtain ⟨later, laterLocks⟩ := inductionHypothesis held listed
      exact ⟨later, laterLocks.trans readLocks⟩
    · grind

theorem FileSystem.Holds.grow (ip : Fin ninode) (bytes : UInt32) :
    (fs.grow ip bytes).Holds pins own ∧ (fs.grow ip bytes).locks = fs.locks :=
  ⟨holds.setInode rfl id, locks_setInode_same rfl⟩

theorem FileSystem.Holds.writeCreated (written : writeCreated fs = .ok after) :
    after.Holds pins own ∧ after.locks = fs.locks := by
  unfold Xk.writeCreated at written
  split_ifs at written
  obtain ⟨⟨_, writtenFs, inode⟩, writes, written⟩ := ok_of_bind written
  obtain ⟨⟨disk, rfl⟩, -⟩ := writei_eq writes
  rw [← Except.ok.inj written]
  exact ⟨⟨holds.refs, holds.loaded⟩, rfl⟩

end

end Writing

/-! ### Lookups and creation -/

section Lookups

variable {fs after : FileSystem} {pins own : Fin ninode → Int} {ip : Fin ninode}

/-- The loop of `namex` gives back the reference that it begins with. -/
theorem FileSystem.Holds.namexLoop {parent : Bool} {turns : Nat} {path name : List UInt8}
    {found : Option (Fin ninode × List UInt8)} (ownNonneg : 0 ≤ own)
    (holds : fs.Holds pins (own + oneRef ip))
    (looked : namexLoop parent turns fs ip path name = .ok (found, after)) :
    after.Holds pins (own + foundRef found) := by
  refine namexLoop_rule (fun now at' => now.Holds pins (own + oneRef at'))
    (fun found after => after.Holds pins (own + foundRef found)) ?_ ?_ ?_ ?_ holds looked
  · intro now at' held
    rw [foundRef, add_zero]
    exact held.irelease
  · exact fun _ _ _ held => held
  · exact fun _ _ _ _ held locks unlocks => (held.locki locks).1.unlocki unlocks
  · intro now at' locked dev inum next searched unlocked held locks got unlocks
    have taken := (held.locki locks).1.iget (add_nonneg ownNonneg (oneRef_nonneg at')) got
    rw [add_right_comm] at taken
    exact (taken.unlocki unlocks).irelease

theorem idup_locks (fs : FileSystem) (ip : Fin ninode) : (Xk.idup fs ip).locks = fs.locks := by
  refine locks_setInode_same ?_
  rfl

theorem FileSystem.Holds.namexStart (holds : fs.Holds pins own) (ownNonneg : 0 ≤ own)
    {path : List UInt8} (started : namexStart fs path = .ok (ip, after)) :
    after.Holds pins (own + oneRef ip) ∧ after.locks = fs.locks := by
  unfold Xk.namexStart at started
  split_ifs at started
  · exact ⟨holds.iget ownNonneg started, (iget_sameStore started).2⟩
  · obtain ⟨⟨root, taken⟩, got, started⟩ := ok_of_bind started
    obtain ⟨⟨found, looked⟩, looks, started⟩ := ok_of_bind started
    have held := FileSystem.Holds.namexLoop ownNonneg (holds.iget ownNonneg got) looks
    have locks := (namexLoop_sameStore looks).2.trans (iget_sameStore got).2
    cases found with
    | none => cases started
    | some found =>
      obtain ⟨rfl, rfl⟩ := ok_pair started
      refine ⟨(held.idup found.1).weaken ?_, (idup_locks looked found.1).trans locks⟩
      exact add_le_add_left (le_add_of_nonneg_right (foundRef_nonneg _)) _

theorem FileSystem.Holds.namex (holds : fs.Holds pins own) (ownNonneg : 0 ≤ own)
    {path : List UInt8} {parent : Bool} {found : Option (Fin ninode × List UInt8)}
    (looked : namex fs path parent = .ok (found, after)) :
    after.Holds pins (own + foundRef found) ∧ after.locks = fs.locks := by
  obtain ⟨⟨root, started⟩, starts, looks⟩ := ok_of_bind looked
  obtain ⟨held, locks⟩ := holds.namexStart ownNonneg starts
  exact ⟨FileSystem.Holds.namexLoop ownNonneg held looks, (namexLoop_sameStore looks).2.trans locks⟩

/-- An inode that `namei` finds has a reference for its caller. -/
theorem FileSystem.Holds.namei (holds : fs.Holds pins 0) {path : List UInt8}
    {found : Option (Fin ninode)} (looked : namei fs path = .ok (found, after)) :
    after.Holds pins 0 ∧ (∀ ip, found = some ip → after.Holds pins (oneRef ip)) ∧
      after.locks = fs.locks := by
  obtain ⟨named, rfl, looks⟩ := namei_eq looked
  obtain ⟨held, locks⟩ := holds.namex le_rfl looks
  rw [zero_add] at held
  refine ⟨held.weaken (foundRef_nonneg named), fun ip isFound => ?_, locks⟩
  obtain ⟨⟨_, name⟩, rfl, rfl⟩ := Option.map_eq_some_iff.mp isFound
  exact held

theorem FileSystem.Holds.createi (holds : fs.Holds pins 0) {inodefile : Fin ninode}
    {path : List UInt8} (created : createi fs inodefile path = .ok (ip, after)) :
    after.Holds pins 0 ∧ after.locks = fs.locks := by
  obtain ⟨written, writes, created⟩ := ok_of_bind created
  obtain ⟨⟨parent, looked⟩, looks, created⟩ := ok_of_bind created
  cases parent with
  | none => cases created
  | some parent =>
    obtain ⟨⟨_, entered⟩, enters, created⟩ := ok_of_bind created
    obtain ⟨⟨last, listed⟩, lists, created⟩ := ok_of_bind created
    obtain ⟨updated, updates, created⟩ := ok_of_bind created
    obtain ⟨updatedParent, updatesParent, got⟩ := ok_of_bind created
    obtain ⟨held, writtenLocks⟩ := holds.writeCreated writes
    obtain ⟨held, lookedLocks⟩ := held.namex le_rfl looks
    obtain ⟨held, enteredLocks⟩ := held.concurrentWritei enters
    obtain ⟨held, grownLocks⟩ := held.grow inodefile 64
    obtain ⟨held, grownParentLocks⟩ := held.grow parent.1 16
    obtain ⟨held, listedLocks⟩ := held.listLoop lists
    have nonneg : 0 ≤ 0 + foundRef (some parent) := by
      rw [zero_add]
      exact foundRef_nonneg _
    obtain ⟨held, updatedLocks⟩ := held.updateDinode nonneg updates
    obtain ⟨held, updatedParentLocks⟩ := held.updateDinode nonneg updatesParent
    refine ⟨(held.iget nonneg got).weaken (add_nonneg nonneg (oneRef_nonneg ip)), ?_⟩
    calc after.locks
      _ = updatedParent.locks := (iget_sameStore got).2
      _ = updated.locks := updatedParentLocks
      _ = listed.locks := updatedLocks
      _ = ((entered.grow inodefile 64).grow parent.1 16).locks := listedLocks
      _ = entered.locks := grownParentLocks.trans grownLocks
      _ = looked.locks := enteredLocks
      _ = fs.locks := lookedLocks.trans writtenLocks

theorem FileSystem.Holds.concurrentCreatei (holds : fs.Holds pins 0) {path : List UInt8}
    (created : concurrentCreatei fs path = .ok (ip, after)) :
    after.Holds pins 0 ∧ after.locks = fs.locks := by
  obtain ⟨⟨inodefile, taken⟩, got, created⟩ := ok_of_bind created
  dsimp only at created
  split_ifs at created with locked
  obtain ⟨⟨_, made⟩, makes, created⟩ := ok_of_bind created
  obtain ⟨rfl, rfl⟩ := ok_pair created
  have taking := (holds.iget le_rfl got).weaken (add_nonneg le_rfl (oneRef_nonneg inodefile))
  have locking : (taken.setInode inodefile
      { taken.inode inodefile with locked := true }).Holds pins 0 := taking.setInode rfl id
  obtain ⟨held, madeLocks⟩ := locking.createi makes
  refine ⟨held.setInode rfl id, ?_⟩
  rw [locks_setInode, madeLocks, locks_setInode, Function.update_idem, ← (iget_sameStore got).2]
  exact Function.update_eq_self_iff.mpr (Bool.eq_false_iff.mpr locked).symm

end Lookups

end Xk
