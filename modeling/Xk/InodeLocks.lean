/-
This file asks whether the data of an inode is read and written under the lock of whoever does it.

A process owns the locks that it has taken and the references that it has to entries of the cache.
While there is a reference to an entry, the entry is for the same inode, and no other entry is for
it. This is why `update_dinode` gets the entry of the inode file that `concurrent_createi` has
locked. `read_dinode` asks whether the lock of the inode file is held. As long as nobody else holds
it then, every program is proper for what its process owns.
-/

import Xk.InodeCode
import Xk.Outcome

namespace Xk

open Fibers Transition

variable {own : Multiset InodeReference} {reference : InodeReference} {ip : InodeAddr}
  {error : Halt}

/-! ### References -/

/-- A reference to an entry of the cache, with the inode that it is for. -/
structure InodeReference where
  slot : Fin ninode
  dev : UInt32
  inum : UInt32
deriving DecidableEq

/-- The number of references to an entry. -/
def referencesTo (own : Multiset InodeReference) (slot : Fin ninode) : Nat :=
  own.countP fun reference => reference.slot = slot

variable {Proc : Type}

/-- There are at least as many references as the processes have, they are to what the entries are
for, and no inode has two entries. -/
structure ReferencesValid (owns : Proc → Multiset InodeReference) (fs : FileSystem) : Prop where
  counted : ∀ slot (processes : Finset Proc),
    (∑ process ∈ processes, (referencesTo (owns process) slot : Int)) ≤ (fs.inode slot).ref
  labelled : ∀ process, ∀ reference ∈ owns process,
    (fs.inode reference.slot).dev = reference.dev ∧ (fs.inode reference.slot).inum = reference.inum
  distinct : ∀ slot other, 0 < (fs.inode slot).ref → 0 < (fs.inode other).ref →
    (fs.inode slot).dev = (fs.inode other).dev → (fs.inode slot).inum = (fs.inode other).inum →
      slot = other

/-- The entries of the cache are for the same inodes, with the same numbers of references. -/
def SameEntries (fs after : FileSystem) : Prop :=
  ∀ slot, (after.inode slot).ref = (fs.inode slot).ref ∧
    (after.inode slot).dev = (fs.inode slot).dev ∧ (after.inode slot).inum = (fs.inode slot).inum

theorem referencesTo_cons (reference : InodeReference) (own : Multiset InodeReference)
    (slot : Fin ninode) : referencesTo (reference ::ₘ own) slot =
      referencesTo own slot + if reference.slot = slot then 1 else 0 :=
  Multiset.countP_cons _ _ _

theorem referencesTo_pos (isIn : reference ∈ own) : 0 < referencesTo own reference.slot :=
  Multiset.countP_pos.mpr ⟨reference, isIn, rfl⟩

namespace ReferencesValid

variable {owns : Proc → Multiset InodeReference} {fs after : FileSystem}

theorem congr (valid : ReferencesValid owns fs) (same : SameEntries fs after) :
    ReferencesValid owns after := by
  refine ⟨fun slot processes => ?_, fun process reference isIn => ?_, fun slot other => ?_⟩
  · rw [(same slot).1]
    exact valid.counted slot processes
  · rw [(same reference.slot).2.1, (same reference.slot).2.2]
    exact valid.labelled process reference isIn
  · rw [(same slot).1, (same other).1, (same slot).2.1, (same other).2.1, (same slot).2.2,
      (same other).2.2]
    exact valid.distinct slot other

theorem one (valid : ReferencesValid owns fs) (process : Proc) (slot : Fin ninode) :
    (referencesTo (owns process) slot : Int) ≤ (fs.inode slot).ref := by
  have counted := valid.counted slot {process}
  rwa [Finset.sum_singleton] at counted

theorem ref_pos (valid : ReferencesValid owns fs) {process : Proc} (isIn : reference ∈ owns process)
    : 0 < (fs.inode reference.slot).ref := by
  have counted := valid.one process reference.slot
  have isPos := referencesTo_pos isIn
  omega

variable [DecidableEq Proc] {process : Proc} {slot : Fin ninode} {inode : Inode}

/-- The references of one process to one entry change, and the count with them. -/
theorem change (valid : ReferencesValid owns fs)
    (counted : ∀ other, (referencesTo own other : Int) - referencesTo (owns process) other ≤
      ((fs.setInode slot inode).inode other).ref - (fs.inode other).ref)
    (kept : ∀ other, ∀ reference ∈ owns other, reference.slot = slot →
      inode.dev = reference.dev ∧ inode.inum = reference.inum) (new : ∀ reference ∈ own,
      reference ∈ owns process ∨ reference = ⟨slot, inode.dev, inode.inum⟩)
    (distinct : 0 < inode.ref → ∀ other, other ≠ slot → 0 < (fs.inode other).ref →
      ¬ (inode.dev = (fs.inode other).dev ∧ inode.inum = (fs.inode other).inum)) :
    ReferencesValid (Function.update owns process own) (fs.setInode slot inode) := by
  have labelled : ∀ other, ∀ reference ∈ owns other,
      ((fs.setInode slot inode).inode reference.slot).dev = reference.dev ∧
        ((fs.setInode slot inode).inode reference.slot).inum = reference.inum :=
    fun other reference isIn => by
      grind [FileSystem.setInode_self, FileSystem.setInode_of_ne, ReferencesValid]
  refine ⟨fun entry processes => ?_, fun other reference isIn => ?_, fun first second => ?_⟩
  · have change := counted entry
    by_cases isIn : process ∈ processes
    · have before := valid.counted entry processes
      rw [← Finset.add_sum_erase _ _ isIn] at before ⊢
      have same : ∀ other ∈ processes.erase process,
          (referencesTo (Function.update owns process own other) entry : Int) =
            referencesTo (owns other) entry := fun other isOther => by
        rw [Function.update_of_ne (Finset.ne_of_mem_erase isOther)]
      rw [Finset.sum_congr rfl same, Function.update_self]
      omega
    · -- the process keeps its references, so that they are besides those of the others
      have before := valid.counted entry (insert process processes)
      rw [Finset.sum_insert isIn] at before
      have same : ∀ other ∈ processes,
          (referencesTo (Function.update owns process own other) entry : Int) =
            referencesTo (owns other) entry := fun other isOther => by
        rw [Function.update_of_ne fun isProcess : other = process => isIn (isProcess ▸ isOther)]
      rw [Finset.sum_congr rfl same]
      omega
  · grind [FileSystem.setInode_self]
  · unfold FileSystem.setInode
    dsimp only
    by_cases isFirst : first = slot
    · grind
    · grind [ReferencesValid]

omit [DecidableEq Proc] in
/-- An entry that is for the same inode as before is still the only one. -/
theorem apart (valid : ReferencesValid owns fs) (isReferenced : 0 < (fs.inode slot).ref)
    (dev : inode.dev = (fs.inode slot).dev) (inum : inode.inum = (fs.inode slot).inum)
    (other : Fin ninode) (different : other ≠ slot) (isOther : 0 < (fs.inode other).ref) :
    ¬ (inode.dev = (fs.inode other).dev ∧ inode.inum = (fs.inode other).inum) := fun same =>
  different (valid.distinct slot other isReferenced isOther (dev.symm.trans same.1)
    (inum.symm.trans same.2)).symm

/-- The process gets another reference to an entry. -/
theorem idup (valid : ReferencesValid owns fs) (process : Proc)
    (isReferenced : 0 < (fs.inode slot).ref) :
    ReferencesValid (Function.update owns process
      (⟨slot, (fs.inode slot).dev, (fs.inode slot).inum⟩ ::ₘ owns process)) (Xk.idup fs slot) := by
  refine valid.change (fun entry => ?_) (fun other reference isIn isSlot => ?_)
    (fun reference isIn => (Multiset.mem_cons.mp isIn).symm) fun _ => ?_
  · grind [referencesTo_cons, FileSystem.setInode_self, FileSystem.setInode_of_ne]
  · grind [ReferencesValid]
  · exact valid.apart isReferenced rfl rfl

/-- The process gives a reference back. -/
theorem irelease (valid : ReferencesValid owns fs) (isOwn : owns process = reference ::ₘ own) :
    ReferencesValid (Function.update owns process own) (Xk.irelease fs reference.slot) := by
  have isReferenced := valid.ref_pos (isOwn ▸ Multiset.mem_cons_self reference own)
  refine valid.change (fun entry => ?_) (fun other held isIn isSlot => ?_)
    (fun held isIn => Or.inl (isOwn ▸ Multiset.mem_cons_of_mem isIn)) fun _ => ?_
  · grind [referencesTo_cons, FileSystem.setInode_self, FileSystem.setInode_of_ne]
  · grind [ReferencesValid]
  · exact valid.apart isReferenced rfl rfl

/-- An entry without references is taken for an inode that has no entry. -/
theorem take (valid : ReferencesValid owns fs) (process : Proc) (dev inum : UInt32)
    (isFree : (fs.inode slot).ref = 0)
    (absent : ∀ other, fs.caches dev inum other = false) :
    ReferencesValid (Function.update owns process (⟨slot, dev, inum⟩ ::ₘ owns process))
      (fs.setInode slot
        { fs.inode slot with ref := 1, valid := false, dev := dev, inum := inum }) := by
  refine valid.change (fun entry => ?_) (fun other reference isIn isSlot => ?_)
    (fun reference isIn => (Multiset.mem_cons.mp isIn).symm)
    fun _ other different isOther same => ?_
  · grind [referencesTo_cons, FileSystem.setInode_self, FileSystem.setInode_of_ne]
  · have isReferenced := valid.ref_pos isIn
    rw [isSlot, isFree] at isReferenced
    cases isReferenced
  · have isAbsent := absent other
    simp [FileSystem.caches, isOther, ← same.1, ← same.2] at isAbsent

end ReferencesValid

/-! ### Steps -/

/-- Every error but the one of a process that is inside of an inode without its lock. -/
def NotUnlocked (error : Halt) : Prop := error ≠ .panic "not holding lock"

theorem panic_allowed {message : String} (other : message ≠ "not holding lock") :
    NotUnlocked (.panic message) := fun same => other (Halt.panic.inj same)

section Rules

variable {Value Result : Type} [DecidableEq Proc] {process : Proc} {locks : Set InodeAddr}
  {own : Multiset InodeReference} {Post : Set InodeAddr → Multiset InodeReference → Value → Prop}

/-- What a process runs, for what it owns. -/
abbrev InodeProper (process : Proc) (code : InodeCode Value) (locks : Set InodeAddr)
    (own : Multiset InodeReference)
    (Post : Set InodeAddr → Multiset InodeReference → Value → Prop) : Prop :=
  Proper ReferencesValid NotUnlocked process code locks own Post

/-- The program returns with what the process owned before. -/
abbrev InodeKeeps (process : Proc) (code : InodeCode Value) (locks : Set InodeAddr)
    (own : Multiset InodeReference) : Prop :=
  InodeProper process code locks own fun after references _ => after = locks ∧ references = own

theorem InodeKeeps.bind {code : InodeCode Result} {next : Result → InodeCode Value}
    (first : InodeKeeps process code locks own)
    (second : ∀ result, InodeProper process (next result) locks own Post) :
    InodeProper process (code >>= next) locks own Post :=
  Proper.bind first fun _ _ result same => by
    grind

section

variable {place : Option InodeAddr} (within : ∀ lock ∈ place, lock ∈ locks)
include within

theorem look_proper {read : FileSystem → Result} :
    InodeKeeps process (InodeCode.look place read) locks own :=
  Proper.quiet within (fun _ _ _ isOk _ valid => by cases isOk; exact valid) nofun
    fun _ => ⟨rfl, rfl⟩

theorem modify_proper {change : Inode → Inode}
    (same : ∀ inode, (change inode).ref = inode.ref ∧ (change inode).dev = inode.dev ∧
      (change inode).inum = inode.inum) :
    InodeKeeps process (InodeCode.modify place ip change) locks own := by
  refine Proper.quiet within (fun fs _ _ isOk owns valid => ?_) nofun fun _ => ⟨rfl, rfl⟩
  cases isOk
  refine valid.congr fun slot => ?_
  cases ip with
  | none => exact ⟨rfl, rfl, rfl⟩
  | some ip =>
    by_cases isIp : slot = ip
    · rw [isIp]
      simp only [FileSystem.setInodeAt, FileSystem.setInode_self]
      exact same (fs.inode ip)
    · simp [FileSystem.setInodeAt, FileSystem.setInode_of_ne _ _ isIp]

theorem useBlock_proper {action : Disk → Except Halt (Result × Disk)}
    (allowed : ∀ disk error, action disk = .error error → NotUnlocked error) :
    InodeKeeps process (InodeCode.useBlock place action) locks own := by
  refine Proper.quiet within (fun fs result after isOk owns valid => ?_)
    (fun fs error isError => ?_) fun _ => ⟨rfl, rfl⟩
  · obtain ⟨value, isValue, isResult⟩ := Outcome.ok_of_bind isOk
    cases isResult
    exact valid.congr fun _ => ⟨rfl, rfl, rfl⟩
  · rcases Outcome.error_of_bind isError with isFailed | ⟨value, _, isResult⟩
    · exact allowed fs.disk error isFailed
    · cases isResult

end

/-- A value that does not depend on the memory, or an error that is allowed. -/
theorem lift_proper {result : Except Halt Result}
    (allowed : ∀ error, result = .error error → NotUnlocked error) :
    InodeKeeps process (Fiber.lift result : InodeCode Result) locks own := by
  cases result with
  | ok value => exact ⟨rfl, rfl⟩
  | error error => exact allowed error rfl

theorem panic_proper {message : String} (other : message ≠ "not holding lock") :
    InodeProper process (InodeCode.panic message) locks own Post := panic_allowed other

/-- The process asks about a lock of its own. -/
theorem holdingsleep_proper {place : Option InodeAddr} {next : Bool → InodeCode Value}
    (within : ∀ lock ∈ place, lock ∈ locks)
    (held : ip ∈ locks → InodeProper process (next true) locks own Post)
    (free : ip ∉ locks → InodeProper process (next false) locks own Post) :
    InodeProper process (InodeCode.holdingsleep place ip >>= next) locks own Post := by
  refine ⟨within, fun isHeld same => ?_⟩
  cases isHeld with
  | true => exact held (same.mp rfl)
  | false => exact free fun isIn => nomatch same.mpr isIn

/-! ### Reading and writing -/

theorem bread_allowed {disk : Disk} {blockno : UInt32} (failed : bread disk blockno = .error error)
    : NotUnlocked error := by
  grind [bread, panic_allowed]

theorem copyIn_allowed {block src : List UInt8} {offset m : UInt32}
    (failed : copyIn block src offset m = .error error) : NotUnlocked error := by
  unfold copyIn at failed
  split_ifs at failed
  cases failed
  exact nofun

theorem seekExtent_allowed {data : List Extent} {size off : UInt32}
    (failed : seekExtent data size off = .error error) : NotUnlocked error := by
  induction data generalizing size with
  | nil =>
    cases failed
    exact nofun
  | cons extent data inductionHypothesis => grind [seekExtent]

section Inside

variable {ip : InodeAddr} (isHeld : ip ∈ locks)

include isHeld

theorem within_some : ∀ lock ∈ some ip, lock ∈ locks := fun lock isLock => by
  grind

theorem readLoop_proper (n : UInt32) (turns : Nat) (data : List Extent) (size off tot : UInt32) :
    InodeKeeps process (InodeCode.readLoop ip n turns data size off tot) locks own := by
  induction turns generalizing data size off tot with
  | zero => exact nofun
  | succ turns inductionHypothesis =>
    unfold InodeCode.readLoop
    split_ifs
    · cases data with
      | nil => exact nofun
      | cons extent rest =>
        dsimp only
        split_ifs
        · refine (useBlock_proper (within_some isHeld) fun disk error failed => ?_).bind
            fun block => ?_
          · rcases Outcome.error_of_bind failed with failed | ⟨_, _, isResult⟩
            · exact bread_allowed failed
            · cases isResult
          · exact (inductionHypothesis _ _ _ _).bind fun others => ⟨rfl, rfl⟩
        · exact inductionHypothesis _ _ _ _
    · exact ⟨rfl, rfl⟩

theorem readi_proper (off n : UInt32) :
    InodeKeeps process (InodeCode.readi ip off n) locks own := by
  unfold InodeCode.readi
  refine holdingsleep_proper (within_some isHeld) (fun _ => ?_) fun free => absurd isHeld free
  refine (look_proper (within_some isHeld)).bind fun inode => ?_
  split_ifs
  · exact look_proper (within_some isHeld)
  · exact ⟨rfl, rfl⟩
  · exact ⟨rfl, rfl⟩
  · exact (lift_proper fun _ => seekExtent_allowed).bind fun found =>
      (readLoop_proper isHeld _ _ _ _ _ _).bind fun bytes => ⟨rfl, rfl⟩

theorem freeScan_proper (sb : Superblock) (i : Nat) :
    InodeKeeps process (InodeCode.freeScan ip sb i) locks own := by
  induction i with
  | zero => exact ⟨rfl, rfl⟩
  | succ i inductionHypothesis =>
    unfold InodeCode.freeScan
    split_ifs
    · exact ⟨rfl, rfl⟩
    · refine (useBlock_proper (within_some isHeld) fun disk error failed => ?_).bind fun found => ?_
      · rcases Outcome.error_of_bind failed with failed | ⟨block, _, isResult⟩
        · exact bread_allowed failed
        · split at isResult <;> cases isResult
      · cases found with
        | some j => exact ⟨rfl, rfl⟩
        | none => exact inductionHypothesis

theorem writeBlock_proper (blockno offset m : UInt32) (src : List UInt8) :
    InodeKeeps process (InodeCode.writeBlock ip blockno offset m src) locks own := by
  refine useBlock_proper (within_some isHeld) fun disk error failed => ?_
  rcases Outcome.error_of_bind failed with failed | ⟨block, _, failed⟩
  · exact bread_allowed failed
  · rcases Outcome.error_of_bind failed with failed | ⟨changed, _, isResult⟩
    · exact copyIn_allowed failed
    · cases isResult

theorem writeLoop_proper (n : UInt32) (turns : Nat) (data : List Extent) (size off tot : UInt32)
    (src : List UInt8) :
    InodeKeeps process (InodeCode.writeLoop ip n turns data size off tot src) locks own := by
  induction turns generalizing data size off tot src with
  | zero => exact nofun
  | succ turns inductionHypothesis =>
    unfold InodeCode.writeLoop
    split_ifs
    · cases data with
      | nil => exact nofun
      | cons extent rest => grind [InodeKeeps.bind, writeBlock_proper]
    · exact ⟨rfl, rfl⟩

theorem provideExtent_proper (data : Fin extentN) :
    InodeKeeps process (InodeCode.provideExtent ip data) locks own := by
  unfold InodeCode.provideExtent InodeCode.getfreestartblkno
  refine (look_proper (within_some isHeld)).bind fun inode => ?_
  split_ifs
  · refine InodeKeeps.bind ((look_proper (within_some isHeld)).bind fun sb =>
      freeScan_proper isHeld sb _) fun startblkno => ?_
    refine (modify_proper (within_some isHeld) ?_).bind fun _ => ⟨rfl, rfl⟩
    exact fun _ => ⟨rfl, rfl, rfl⟩
  · exact ⟨rfl, rfl⟩

theorem appendiLoop_proper (append : UInt32) (turns data : Nat) (size tot : UInt32)
    (src : List UInt8) :
    InodeKeeps process (InodeCode.appendiLoop ip append turns data size tot src) locks own := by
  induction turns generalizing data size tot src with
  | zero => exact nofun
  | succ turns inductionHypothesis =>
    unfold InodeCode.appendiLoop
    split_ifs
    · grind [InodeKeeps.bind, provideExtent_proper, writeBlock_proper]
    · exact nofun
    · exact ⟨rfl, rfl⟩

theorem appendi_proper (src : List UInt8) (append : UInt32) :
    InodeKeeps process (InodeCode.appendi ip src append) locks own := by
  unfold InodeCode.appendi
  refine (look_proper (within_some isHeld)).bind fun inode => ?_
  split
  · exact nofun
  · exact appendiLoop_proper isHeld _ _ _ _ _ _

theorem writei_proper (src : List UInt8) (off n : UInt32) :
    InodeKeeps process (InodeCode.writei ip src off n) locks own := by
  unfold InodeCode.writei
  refine holdingsleep_proper (within_some isHeld) (fun _ => ?_) fun free => absurd isHeld free
  refine (look_proper (within_some isHeld)).bind fun inode => ?_
  split_ifs
  · exact look_proper (within_some isHeld)
  · exact ⟨rfl, rfl⟩
  · exact ⟨rfl, rfl⟩
  · refine (lift_proper fun _ => seekExtent_allowed).bind fun found =>
      (writeLoop_proper isHeld _ _ _ _ _ _ _).bind fun rest => ?_
    generalize (if getCapacity inode < off + n then off + n - getCapacity inode else 0) = append
    by_cases isLonger : 0 < append
    · rw [if_pos isLonger]
      exact (appendi_proper isHeld _ _).bind fun _ => ⟨rfl, rfl⟩
    · rw [if_neg isLonger]
      exact ⟨rfl, rfl⟩

end Inside

/-! ### The inode cache -/

theorem notWithin : ∀ lock ∈ (none : Option InodeAddr), lock ∈ locks := nofun

theorem unlocki_proper (isHeld : ip ∈ locks) :
    InodeProper process (InodeCode.unlocki ip) locks own
      fun after references _ => after = locks \ {ip} ∧ references = own := by
  unfold InodeCode.unlocki
  refine holdingsleep_proper notWithin (fun _ => ?_) fun free => absurd isHeld free
  refine (look_proper notWithin).bind fun inode => ?_
  split_ifs
  · exact panic_proper (by decide)
  · exact ⟨isHeld, rfl, rfl⟩

theorem lockInodefile_proper :
    InodeProper process InodeCode.lockInodefile locks own fun after references _ =>
      inodefileAddr ∉ locks ∧ after = insert inodefileAddr locks ∧ references = own := by
  unfold InodeCode.lockInodefile
  refine (look_proper notWithin).bind fun inodefile => ?_
  split_ifs
  · exact panic_proper (by decide)
  · exact fun free => ⟨free, rfl, rfl⟩

theorem readRecord_proper (isHeld : inodefileAddr ∈ locks) (inum : UInt32) :
    InodeKeeps process (InodeCode.readRecord inum) locks own := by
  unfold InodeCode.readRecord
  refine (readi_proper isHeld _ _).bind fun result => ?_
  dsimp only
  split_ifs
  · exact nofun
  · exact ⟨rfl, rfl⟩

theorem readDinode_proper (inum : UInt32) :
    InodeKeeps process (InodeCode.readDinode inum) locks own := by
  unfold InodeCode.readDinode
  refine holdingsleep_proper notWithin (fun isHeld => readRecord_proper isHeld inum) fun _ => ?_
  refine lockInodefile_proper.bind fun after references _ facts => ?_
  obtain ⟨free, rfl, rfl⟩ := facts
  refine (readRecord_proper (Set.mem_insert _ _) inum).bind fun dip => ?_
  refine (unlocki_proper (Set.mem_insert _ _)).bind fun after references _ facts => ?_
  exact ⟨facts.1.trans (Set.insert_sdiff_self_of_notMem free), facts.2⟩

/-- The section of `iget` gives the process a reference. There is no other entry for the inode. -/
theorem igetSection_valid {owns : Proc → Multiset InodeReference} {fs after : FileSystem}
    (valid : ReferencesValid owns fs) {dev inum : UInt32} {ip : Fin ninode} {cached : Bool}
    (isOk : InodeCode.igetSection dev inum fs = .ok ((ip, cached), after)) :
    ReferencesValid (Function.update owns process (⟨ip, dev, inum⟩ ::ₘ owns process)) after ∧
      ∀ slot, ⟨slot, dev, inum⟩ ∈ owns process → slot = ip := by
  unfold InodeCode.igetSection at isOk
  split at isOk
  case h_1 found isFound =>
    cases isOk
    have isCached : 0 < (fs.inode ip).ref ∧ (fs.inode ip).dev = dev ∧
        (fs.inode ip).inum = inum := by
      simpa [FileSystem.caches] using List.find?_some isFound
    obtain ⟨isReferenced, rfl, rfl⟩ := isCached
    refine ⟨valid.idup process isReferenced, fun slot isIn => ?_⟩
    obtain ⟨sameDev, sameInum⟩ := valid.labelled process _ isIn
    exact valid.distinct slot ip (valid.ref_pos isIn) isReferenced sameDev sameInum
  case h_2 isNone =>
    have absent : ∀ other, fs.caches dev inum other = false := fun other => by
      simpa using List.find?_eq_none.mp isNone other (List.mem_finRange other)
    split at isOk
    case h_1 => cases isOk
    case h_2 found isFound =>
      cases isOk
      have isFree : (fs.inode ip).ref = 0 := by simpa using List.find?_some isFound
      refine ⟨valid.take process dev inum isFree absent, fun slot isIn => ?_⟩
      obtain ⟨sameDev, sameInum⟩ := valid.labelled process _ isIn
      have isAbsent := absent slot
      simp [FileSystem.caches, valid.ref_pos isIn, sameDev, sameInum] at isAbsent

/-- `iget` returns a new reference, to the entry that the process has a reference to already. -/
theorem iget_proper (dev inum : UInt32) :
    InodeProper process (InodeCode.iget dev inum) locks own fun after references ip =>
      after = locks ∧ references = ⟨ip, dev, inum⟩ ::ₘ own ∧
        ∀ slot, ⟨slot, dev, inum⟩ ∈ own → slot = ip := by
  unfold InodeCode.iget
  refine ⟨notWithin, fun owns fs valid isOwn => ?_⟩
  cases isResult : InodeCode.igetSection dev inum fs with
  | error error => grind [InodeCode.igetSection, panic_allowed]
  | ok result =>
    obtain ⟨⟨ip, cached⟩, after⟩ := result
    have taken : ReferencesValid (Function.update owns process (⟨ip, dev, inum⟩ ::ₘ owns process))
        after ∧ ∀ slot, ⟨slot, dev, inum⟩ ∈ owns process → slot = ip :=
      igetSection_valid valid isResult
    rw [isOwn] at taken
    obtain ⟨validAfter, only⟩ := taken
    refine ⟨_, validAfter, ?_⟩
    cases cached with
    | true => exact ⟨rfl, rfl, only⟩
    | false =>
      refine (readDinode_proper inum).bind fun dip => (modify_proper notWithin ?_).bind fun _ => ?_
      · exact fun _ => ⟨rfl, rfl, rfl⟩
      · split_ifs
        · exact panic_proper (by decide)
        · exact ⟨rfl, rfl, only⟩

theorem irelease_proper (reference : InodeReference) :
    InodeProper process (InodeCode.irelease reference.slot) locks (reference ::ₘ own)
      fun after references _ => after = locks ∧ references = own :=
  ⟨notWithin, fun _ _ valid isOwn => ⟨own, valid.irelease isOwn, rfl, rfl⟩⟩

theorem idup_proper (isIn : reference ∈ own) :
    InodeProper process (InodeCode.idup reference.slot) locks own
      fun after references _ => after = locks ∧ references = reference ::ₘ own := by
  refine ⟨notWithin, fun owns fs valid isOwn => ?_⟩
  rw [← isOwn] at isIn
  obtain ⟨sameDev, sameInum⟩ := valid.labelled process reference isIn
  have validAfter := valid.idup process (valid.ref_pos isIn)
  rw [sameDev, sameInum, isOwn] at validAfter
  exact ⟨reference ::ₘ own, validAfter, rfl, rfl⟩

theorem locki_proper (ip : Fin ninode) :
    InodeProper process (InodeCode.locki ip) locks own fun after references _ =>
      some ip ∉ locks ∧ after = insert (some ip) locks ∧ references = own := by
  unfold InodeCode.locki
  refine (look_proper notWithin).bind fun inode => ?_
  split_ifs
  · exact panic_proper (by decide)
  · refine fun free => (look_proper notWithin).bind fun inode => ?_
    split_ifs
    · exact ⟨free, rfl, rfl⟩
    · refine lockInodefile_proper.bind fun after references _ facts => ?_
      obtain ⟨unlocked, rfl, rfl⟩ := facts
      refine (readDinode_proper _).bind fun dip => ?_
      refine (unlocki_proper (Set.mem_insert _ _)).bind fun after references _ facts => ?_
      obtain ⟨rfl, rfl⟩ := facts
      rw [Set.insert_sdiff_self_of_notMem unlocked]
      refine (modify_proper notWithin ?_).bind fun _ => ?_
      · exact fun _ => ⟨rfl, rfl, rfl⟩
      · split_ifs
        · exact panic_proper (by decide)
        · exact ⟨free, rfl, rfl⟩

/-- What is done between `locki` and `unlocki`. -/
theorem locked_proper (ip : Fin ninode) {code : InodeCode Value}
    (keeps : some ip ∈ insert (some ip) locks →
      InodeKeeps process code (insert (some ip) locks) own) :
    InodeKeeps process (do
      InodeCode.locki ip
      let value ← code
      InodeCode.unlocki (some ip)
      return value) locks own := by
  refine (locki_proper ip).bind fun after references _ facts => ?_
  obtain ⟨free, rfl, rfl⟩ := facts
  refine (keeps (Set.mem_insert _ _)).bind fun value => ?_
  refine (unlocki_proper (Set.mem_insert _ _)).bind fun after references _ facts => ?_
  exact ⟨facts.1.trans (Set.insert_sdiff_self_of_notMem free), facts.2⟩

theorem concurrentReadi_proper (ip : Fin ninode) (off n : UInt32) :
    InodeKeeps process (InodeCode.concurrentReadi ip off n) locks own :=
  locked_proper ip fun isHeld => readi_proper isHeld off n

theorem concurrentWritei_proper (ip : Fin ninode) (src : List UInt8) (off n : UInt32) :
    InodeKeeps process (InodeCode.concurrentWritei ip src off n) locks own :=
  locked_proper ip fun isHeld => writei_proper isHeld src off n

/-! ### Directories and paths -/

/-- The references after a search: one more, where something is found. -/
def Found (own references : Multiset InodeReference) : Option (Fin ninode) → Prop
  | none => references = own
  | some ip => ∃ dev inum, references = ⟨ip, dev, inum⟩ ::ₘ own

theorem dirlookupLoop_proper {dp : Fin ninode} (isHeld : some dp ∈ locks) (name : List UInt8)
    (turns : Nat) (off : UInt32) :
    InodeProper process (InodeCode.dirlookupLoop dp name turns off) locks own
      fun after references found => after = locks ∧ Found own references found := by
  induction turns generalizing off with
  | zero => exact nofun
  | succ turns inductionHypothesis =>
    unfold InodeCode.dirlookupLoop
    refine (look_proper notWithin).bind fun inode => ?_
    split_ifs
    · refine (readi_proper isHeld off 16).bind fun result => ?_
      dsimp only
      split_ifs
      · exact panic_proper (by decide)
      · exact inductionHypothesis _
      · refine (iget_proper _ _).bind fun after references ip facts => ?_
        exact ⟨facts.1, _, _, facts.2.1⟩
      · exact inductionHypothesis _
    · exact ⟨rfl, rfl⟩

theorem dirlookup_proper {dp : Fin ninode} (isHeld : some dp ∈ locks) (name : List UInt8) :
    InodeProper process (InodeCode.dirlookup dp name) locks own
      fun after references found => after = locks ∧ Found own references found := by
  unfold InodeCode.dirlookup
  refine (look_proper notWithin).bind fun inode => ?_
  split_ifs
  · exact panic_proper (by decide)
  · exact dirlookupLoop_proper isHeld name _ _

theorem namexLoop_proper (nameiparent : Bool) (turns : Nat) (ip : Fin ninode) (dev inum : UInt32)
    (path name : List UInt8) :
    InodeProper process (InodeCode.namexLoop nameiparent turns ip path name) locks
      (⟨ip, dev, inum⟩ ::ₘ own) fun after references found =>
        after = locks ∧ Found own references (found.map Prod.fst) := by
  induction turns generalizing ip dev inum path name with
  | zero => exact nofun
  | succ turns inductionHypothesis =>
    unfold InodeCode.namexLoop
    split
    · split_ifs
      · exact (irelease_proper ⟨ip, dev, inum⟩).bind fun after references _ facts => facts
      · exact ⟨rfl, dev, inum, rfl⟩
    · refine (locki_proper ip).bind fun after references _ facts => ?_
      obtain ⟨free, rfl, rfl⟩ := facts
      refine (look_proper notWithin).bind fun inode => ?_
      have unlocked : ∀ {references : Multiset InodeReference},
          InodeProper process (InodeCode.unlocki (some ip)) (insert (some ip) locks) references
            fun after left _ => after = locks ∧ left = references :=
        (unlocki_proper (Set.mem_insert _ _)).mono fun after left _ facts =>
          ⟨facts.1.trans (Set.insert_sdiff_self_of_notMem free), facts.2⟩
      split_ifs
      · refine unlocked.bind fun after references _ facts => ?_
        obtain ⟨rfl, rfl⟩ := facts
        exact (irelease_proper ⟨ip, dev, inum⟩).bind fun after references _ facts => facts
      · refine unlocked.bind fun after references _ facts => ?_
        exact ⟨facts.1, dev, inum, facts.2⟩
      · refine (dirlookup_proper (Set.mem_insert _ _) _).bind fun after references next facts => ?_
        obtain ⟨rfl, isFound⟩ := facts
        refine unlocked.bind fun after left _ facts => ?_
        obtain ⟨rfl, rfl⟩ := facts
        cases next with
        | none =>
          obtain rfl : left = _ := isFound
          exact (irelease_proper ⟨ip, dev, inum⟩).bind fun after references _ facts => facts
        | some next =>
          obtain ⟨nextDev, nextInum, rfl⟩ := isFound
          rw [Multiset.cons_swap]
          refine (irelease_proper ⟨ip, dev, inum⟩).bind fun after references _ facts => ?_
          obtain ⟨rfl, rfl⟩ := facts
          exact inductionHypothesis next nextDev nextInum _ _

theorem Found.le {references : Multiset InodeReference} {found : Option (Fin ninode)}
    (isFound : Found own references found) : own ≤ references := by
  cases found with
  | none => exact isFound.ge
  | some ip =>
    obtain ⟨dev, inum, rfl⟩ := isFound
    exact Multiset.le_cons_self own _

theorem namexStart_proper (path : List UInt8) :
    InodeProper process (InodeCode.namexStart path) locks own fun after references ip =>
      after = locks ∧ ∃ kept, own ≤ kept ∧ references = ⟨ip, rootdev, rootino⟩ ::ₘ kept := by
  unfold InodeCode.namexStart
  refine (iget_proper rootdev rootino).bind fun after references root facts => ?_
  obtain ⟨rfl, rfl, -⟩ := facts
  split_ifs
  · exact ⟨rfl, own, le_rfl, rfl⟩
  · refine (idup_proper (Multiset.mem_cons_self _ own)).bind fun after references _ facts => ?_
    exact ⟨facts.1, _, Multiset.le_cons_self own _, facts.2⟩

/-- The walk gives back the reference to the root that it starts with, but not the one of `namei`.
-/
theorem nameiparent_proper (path : List UInt8) :
    InodeProper process (InodeCode.nameiparent path) locks own fun after references _ =>
      after = locks ∧ own ≤ references := by
  unfold InodeCode.nameiparent
  refine (namexStart_proper path).bind fun after references ip facts => ?_
  obtain ⟨rfl, kept, isKept, rfl⟩ := facts
  exact (namexLoop_proper true _ ip rootdev rootino path []).mono fun _ _ _ facts =>
    ⟨facts.1, isKept.trans facts.2.le⟩

/-! ### Creation -/

/-- The entry of the inode file is the one that the process has locked. -/
theorem updateDinode_proper {inodefile : Fin ninode} (isHeld : some inodefile ∈ locks)
    (isIn : ⟨inodefile, rootdev, inodefileino⟩ ∈ own) (ip : Fin ninode) :
    InodeProper process (InodeCode.updateDinode ip) locks own fun after references _ =>
      after = locks ∧ own ≤ references := by
  unfold InodeCode.updateDinode
  refine (iget_proper rootdev inodefileino).bind fun after references found facts => ?_
  obtain ⟨rfl, rfl, only⟩ := facts
  obtain rfl := only inodefile isIn
  refine (look_proper notWithin).bind fun inode => (readDinode_proper _).bind fun curr => ?_
  refine (look_proper notWithin).bind fun inode => ?_
  split_ifs
  · refine (writei_proper isHeld _ _ _).bind fun _ => ?_
    exact ⟨rfl, Multiset.le_cons_self own _⟩
  · exact ⟨rfl, Multiset.le_cons_self own _⟩

theorem listLoop_proper (dp : Fin ninode) (turns : Nat) (off : UInt32) (dirent : Dirent) :
    InodeKeeps process (InodeCode.listLoop dp turns off dirent) locks own := by
  induction turns generalizing off dirent with
  | zero => exact nofun
  | succ turns inductionHypothesis =>
    unfold InodeCode.listLoop
    refine (look_proper notWithin).bind fun inode => ?_
    split_ifs
    · grind [InodeKeeps.bind, concurrentReadi_proper, panic_proper]
    · exact ⟨rfl, rfl⟩

theorem writeCreated_proper : InodeKeeps process InodeCode.writeCreated locks own := by
  unfold InodeCode.writeCreated
  refine fun free => (look_proper notWithin).bind fun inodefile => ?_
  refine (writei_proper (Set.mem_insert _ _) _ _ _).bind fun _ => ?_
  exact ⟨Set.mem_insert _ _, Set.insert_sdiff_self_of_notMem free, rfl⟩

theorem createi_proper {inodefile : Fin ninode} (isHeld : some inodefile ∈ locks)
    (isIn : ⟨inodefile, rootdev, inodefileino⟩ ∈ own) (path : List UInt8) :
    InodeProper process (InodeCode.createi inodefile path) locks own
      fun after _ _ => after = locks := by
  unfold InodeCode.createi
  refine writeCreated_proper.bind fun inum => ?_
  refine (nameiparent_proper path).bind fun after references parent facts => ?_
  obtain ⟨rfl, isKept⟩ := facts
  have isIn := Multiset.mem_of_le isKept isIn
  cases parent with
  | none => exact nofun
  | some parent =>
    refine (look_proper notWithin).bind fun root =>
      (concurrentWritei_proper _ _ _ _).bind fun _ => ?_
    refine (modify_proper notWithin ?_).bind fun _ => (modify_proper notWithin ?_).bind fun _ => ?_
    · exact fun _ => ⟨rfl, rfl, rfl⟩
    · exact fun _ => ⟨rfl, rfl, rfl⟩
    refine (listLoop_proper _ _ _ _).bind fun last => ?_
    refine (updateDinode_proper isHeld isIn _).bind fun after references _ facts => ?_
    obtain ⟨rfl, isKept⟩ := facts
    have isIn := Multiset.mem_of_le isKept isIn
    refine (updateDinode_proper isHeld isIn _).bind fun after references _ facts => ?_
    obtain ⟨rfl, -⟩ := facts
    exact (iget_proper _ _).mono fun _ _ _ facts => facts.1

theorem concurrentCreatei_proper (path : List UInt8) :
    InodeProper process (InodeCode.concurrentCreatei path) locks own
      fun after _ _ => after = locks := by
  unfold InodeCode.concurrentCreatei
  refine (iget_proper rootdev inodefileino).bind fun after references inodefile facts => ?_
  obtain ⟨rfl, rfl, -⟩ := facts
  refine fun free => ?_
  refine (createi_proper (Set.mem_insert _ _) (Multiset.mem_cons_self _ _) path).bind
    fun after references ip same => ?_
  rw [same]
  exact ⟨Set.mem_insert _ _, Set.insert_sdiff_self_of_notMem free⟩

/-- Every call is proper for a process that has the locks that it needs. -/
theorem InodeCall.proper (call : InodeCall) (isReady : ∀ lock ∈ call.needs, lock ∈ locks) :
    InodeProper process call.program locks own fun _ _ _ => True := by
  cases call with
  | concurrentReadi ip off n => exact (concurrentReadi_proper ip off n).bind fun _ => trivial
  | concurrentWritei ip src off n =>
    exact (concurrentWritei_proper ip src off n).bind fun _ => trivial
  | locki ip => exact (locki_proper ip).mono fun _ _ _ _ => trivial
  | readi ip off n =>
    exact (readi_proper (isReady _ List.mem_cons_self) off n).bind fun _ => trivial
  | writei ip src off n =>
    exact (writei_proper (isReady _ List.mem_cons_self) src off n).bind fun _ => trivial
  | unlocki ip =>
    exact (unlocki_proper (isReady _ List.mem_cons_self)).mono fun _ _ _ _ => trivial
  | iget dev inum => exact (iget_proper dev inum).bind fun _ _ _ _ => trivial
  | concurrentCreatei path => exact (concurrentCreatei_proper path).bind fun _ _ _ _ => trivial

end Rules

/-! ### Every run -/

variable [DecidableEq Proc]

abbrev InodeSystem (Proc : Type) := System Proc InodeAddr FileSystem Halt

/-- Everybody is outside of the calls, no lock is held, and no inode has two entries. -/
structure InodeSystem.Quiet (system : InodeSystem Proc) : Prop where
  code : ∀ process, system.code process = .done ()
  owner : ∀ ip, system.owner ip = none
  references : ReferencesValid (fun _ : Proc => 0) system.shared

/-- One step of a process. -/
abbrev inodeStep (system : InodeSystem Proc) (action : Action Proc InodeCall) :
    Option (InodeSystem Proc) :=
  system.step InodeCall.program InodeCall.needs action

/-- In every state of a run in which a process asks for a lock only while nobody else holds it,
whoever is inside of `readi` or `writei` holds the lock of the inode. No two processes are inside of
the same inode, and nobody has stopped with the panic of `readi` and `writei`. -/
theorem run_inodeLocks {start final : InodeSystem Proc} {actions : List (Action Proc InodeCall)}
    (quiet : start.Quiet) (runs : run inodeStep start actions = some final)
    (undisturbed : Respects inodeStep System.Undisturbed start actions) :
    (∀ process ip, (final.code process).inside = some ip → final.owner ip = some process) ∧
      (∀ process other ip, (final.code process).inside = some ip →
        (final.code other).inside = some ip → process = other) ∧
      ∀ process, (final.code process).stopped ≠ some (.panic "not holding lock") := by
  have owned : final.Owned ReferencesValid NotUnlocked := by
    refine run_owned (fun process call locks own => call.proper) runs undisturbed
      ⟨fun _ => 0, quiet.references, fun process => ?_⟩
    rw [quiet.code process]
    trivial
  refine ⟨fun process ip => owned.inside, fun process other ip isInside otherInside => ?_,
    fun process stopped => owned.allowed stopped rfl⟩
  exact Option.some_inj.mp ((owned.inside isInside).symm.trans (owned.inside otherInside))

/-- A file system in which every inode is a file without data. -/
def FileSystem.emptyFiles : FileSystem where
  disk := ⟨100, fun address => if address % 64 = 0 then 2 else 0, by decide⟩
  devsw := ⟨fun _ => none, fun _ => none⟩
  sb := ⟨100, 90, 2, 10⟩
  inode := fun _ => .zero
  inodefile := ⟨1, 0, 1, true, false, tFile, 0, 640, .single ⟨10, 2⟩⟩

/-- Nobody has called anything yet. -/
def InodeSystem.initial (Proc : Type) (fs : FileSystem) : InodeSystem Proc :=
  ⟨fun _ => .done (), fun _ => none, fs⟩

omit [DecidableEq Proc] in
theorem InodeSystem.quiet_initial {fs : FileSystem} (unused : ∀ slot, (fs.inode slot).ref = 0) :
    (InodeSystem.initial Proc fs).Quiet where
  code _ := rfl
  owner _ := rfl
  references := by
    refine ⟨fun slot processes => ?_, nofun, fun slot other isReferenced => ?_⟩
    · show _ ≤ (fs.inode slot).ref
      rw [unused slot]
      exact (Finset.sum_eq_zero fun _ _ => rfl).le
    · grind [InodeSystem.initial]

/-- A process gets an inode and locks it, and another process gets the next one afterwards. -/
def oneAfterTheOther : List (Action Bool InodeCall) :=
  .start true (.iget 1 3) :: List.replicate 11 (.turn true) ++
    .start true (.concurrentReadi 0 0 0) :: List.replicate 3 (.turn true) ++
    .start false (.iget 1 4) :: List.replicate 5 (.turn false)

theorem run_inodeLocks_oneAfterTheOther :
    ∃ final, run inodeStep (InodeSystem.initial Bool .emptyFiles) oneAfterTheOther = some final ∧
      (final.code false).inside = some inodefileAddr ∧ final.owner inodefileAddr = some false := by
  obtain ⟨final, runs, isInside⟩ := Option.map_eq_some_iff.mp
    (show (run inodeStep (InodeSystem.initial Bool .emptyFiles) oneAfterTheOther).map
      (fun system => (system.code false).inside) = some (some inodefileAddr) by decide +kernel)
  refine ⟨final, runs, isInside, ?_⟩
  exact (run_inodeLocks (InodeSystem.quiet_initial fun _ => rfl) runs (by decide +kernel)).1
    false inodefileAddr isInside

/-- While a process reads an inode from the inode file, another process wants to get one, too. -/
def getsWhileReading : List (Action Bool InodeCall) :=
  .start true (.iget 1 3) :: List.replicate 4 (.turn true) ++
    .start false (.iget 1 4) :: List.replicate 2 (.turn false)

/-- Two processes are inside of the inode file, and one of them does not have its lock. When the
other one has released it, the process panics. -/
theorem getsWhileReading_unlocked : ∃ middle final,
    run inodeStep (InodeSystem.initial Bool .emptyFiles) getsWhileReading = some middle ∧
      (middle.code true).inside = some inodefileAddr ∧
      (middle.code false).inside = some inodefileAddr ∧ middle.owner inodefileAddr = some true ∧
      run inodeStep middle (List.replicate 7 (.turn true) ++ [.turn false]) = some final ∧
      (final.code false).stopped = some (.panic "not holding lock") := by
  obtain ⟨middle, runs, facts⟩ := Option.map_eq_some_iff.mp
    (show (run inodeStep (InodeSystem.initial Bool .emptyFiles) getsWhileReading).map
      (fun system => ((system.code true).inside, (system.code false).inside,
        system.owner inodefileAddr, (run inodeStep system
          (List.replicate 7 (.turn true) ++ [.turn false])).map
            fun final => (final.code false).stopped)) =
      some (some inodefileAddr, some inodefileAddr, some true,
        some (some (.panic "not holding lock"))) by decide +kernel)
  obtain ⟨first, facts⟩ := Prod.mk.inj facts
  obtain ⟨second, facts⟩ := Prod.mk.inj facts
  obtain ⟨isOwner, facts⟩ := Prod.mk.inj facts
  obtain ⟨final, runsOn, isStopped⟩ := Option.map_eq_some_iff.mp facts
  exact ⟨middle, final, runs, first, second, isOwner, runsOn, isStopped⟩

end Xk
