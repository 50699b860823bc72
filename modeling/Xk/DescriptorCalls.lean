/-
This file asks whether a process can make the kernel panic through a descriptor: with `sys_read`,
`sys_write`, `sys_close`, `sys_dup` or `sys_fstat` on any number at all. The processes open files by
their paths, so that the references of the inode cache are counted, and make and use pipes; every
step of `Xk.PipeCalls` is a step here.

An open slot with an inode has a reference to it, and `fileopen` has read the inode. Nobody gives it
away while the slot is open, so `locki` and `unlocki` find it in order. A slot without an inode is a
pipe, and the calls on a pipe do not look for one, with the exception of `filestat`: it hands the
null pointer to `locki`, which panics.
-/

import Xk.AppendTurns
import Xk.InodeHolds
import Xk.SlotHistory

namespace Xk

open Outcome Transition

variable {process : Fin nproc} {fd : Fin nofile} {ip : Fin ninode} {fs : FileSystem} {disk : Disk}
  {src : List UInt8} {data : List Extent} {off n tot : UInt32} {sb : Superblock}

/-! ### The calls -/

/-- `argfd`: the number of a descriptor. -/
def argfd (fd : Int) : Option (Fin nofile) :=
  if inTable : 0 ≤ fd ∧ fd < nofile then some ⟨fd.toNat, by omega⟩ else none

namespace CallSystem

variable (system : CallSystem)

/-- The tables and the file system. -/
def files : OpenSystem := ⟨system.tables, system.fs⟩

def setFiles (files : OpenSystem) : CallSystem :=
  { system with tables := files.tables, fs := files.fs }

/-- `fileclose(fd)`, with the release of the inode. -/
def closeFile (process : Fin nproc) (fd : Fin nofile) : CallSystem :=
  { system.setFiles (system.files.fileclose process fd).2 with
    ends := Function.update system.ends (process, fd) none }

/-- A system call on a descriptor with a valid buffer: `sys_read`, `sys_write`, `sys_fstat`,
`sys_dup` and `sys_close`, up to the lock of the pipe where it is one. -/
def sysUse (process : Fin nproc) (fd : Int) (use : FdUse) : Except Halt CallSystem :=
  match argfd fd with
  | none => .ok (system.finish process ⟨-1, [], none⟩)
  | some fd =>
    match use with
    | .call (.fileread bytesRead) =>
      if bytesRead < 0 then .ok (system.finish process ⟨-1, [], none⟩)
      else system.fileread process fd bytesRead
    | .call (.filewrite data) => system.filewrite process fd data
    | .call .filestat => system.filestat process fd
    | .filedup =>
      let (result, tables) := filedup system.tables process fd
      .ok ({ system with tables := tables }.finish process ⟨result, [], none⟩)
    | .fileclose =>
      .ok ((system.closeFile process fd).finish process
        ⟨(system.files.fileclose process fd).1, [], none⟩)

end CallSystem

/-! ### Steps -/

/-- A file is opened or closed, or something else happens. -/
inductive DescriptorAction
  | sysOpen (process : Fin nproc) (path : List UInt8) (mode : Int)
  | sysClose (process : Fin nproc) (fd : Fin nofile)
  | other (action : CallAction)

/-- The actions that leave the inode cache out. -/
def CallAction.OpensOrCloses : CallAction → Bool
  | .table (.fileopen _ _ _) | .table (.fileclose _ _) => true
  | _ => false

/-- One step. After a panic there is no next state. -/
def descriptorStep (system : CallSystem) : DescriptorAction → Option CallSystem
  | .sysOpen process path mode =>
    if system.Ready process then
      (system.files.sysOpen process path mode).toOption.map fun opened => system.setFiles opened.2
    else none
  | .sysClose process fd =>
    if system.Ready process then some (system.closeFile process fd) else none
  | .other action => if action.OpensOrCloses then none else callStep system action

/-! ### Open files and the inode cache -/

/-- The references that open files have to the entries of the inode cache. -/
def FileTables.pins (tables : FileTables) : Fin ninode → Int := fun ip => tables.inodeSlots ip

/-- What holds in every reachable state: an unused slot has no inode, the inodes of open slots are
counted and read, and nobody is in the middle of a call on an inode. -/
structure DescriptorInvariant (system : CallSystem) : Prop where
  calls : PipeCallInvariant system
  cleared : ∀ slot, (system.tables.ftable slot).ref = 0 → (system.tables.ftable slot).iptr = none
  holds : system.fs.Holds system.tables.pins 0
  unlocked : system.fs.locks = fun _ => false

section Tables

variable {tables after : FileTables}

/-- A change of the tables that moves no inode. -/
structure FileTables.KeepsInodes (before after : FileTables) : Prop where
  iptr : ∀ slot, (after.ftable slot).iptr = (before.ftable slot).iptr
  ref : ∀ slot, (before.ftable slot).ref ≤ (after.ftable slot).ref

theorem FileTables.KeepsInodes.refl (tables : FileTables) : tables.KeepsInodes tables :=
  ⟨fun _ => rfl, fun _ => le_rfl⟩

theorem Counted.ref_nonneg (counted : Counted tables) (slot : Fin nfile) :
    0 ≤ (tables.ftable slot).ref := by
  grind [Counted]

/-- Such a change pins what was pinned. -/
theorem FileTables.KeepsInodes.pins (keeps : tables.KeepsInodes after) (counted : Counted tables)
    (cleared : ∀ slot, (tables.ftable slot).ref = 0 → (tables.ftable slot).iptr = none) :
    after.pins = tables.pins := by
  funext ip
  refine congrArg Nat.cast (Counting.places_congr _ _ fun slot _ => ?_)
  rw [keeps.iptr slot]
  refine and_congr_left fun isOpen => ⟨fun _ => ?_, fun positive => positive.trans_le
    (keeps.ref slot)⟩
  refine lt_of_le_of_ne (counted.ref_nonneg slot) fun unused => ?_
  rw [cleared slot unused.symm] at isOpen
  cases isOpen

theorem FileTables.KeepsInodes.cleared (keeps : tables.KeepsInodes after) (counted : Counted tables)
    (cleared : ∀ slot, (tables.ftable slot).ref = 0 → (tables.ftable slot).iptr = none)
    (slot : Fin nfile) (unused : (after.ftable slot).ref = 0) :
      (after.ftable slot).iptr = none := by
  grind [FileTables.KeepsInodes, Counted]

theorem FileTables.KeepsInodes.point {descriptor : Descriptor} {slot : Fin nfile} {file : FileInfo}
    (iptr : file.iptr = (tables.ftable slot).iptr) (ref : (tables.ftable slot).ref ≤ file.ref) :
    tables.KeepsInodes (tables.point descriptor slot file) where
  iptr other := tables.store_keeps FileInfo.iptr slot iptr other
  ref other := by
    by_cases same : other = slot
    · rw [same, FileTables.point_ftable_self]
      exact ref
    · exact (congrArg FileInfo.ref (Function.update_of_ne same _ _)).ge

/-- The operations on the tables other than opening and closing. -/
theorem fileStep_keepsInodes {action : FileAction} (taken : fileStep tables action = some after)
    (quiet : CallAction.OpensOrCloses (.table action) = false)
    (exits : ∀ process, action = .exit process → ∀ fd, tables.pftable (process, fd) = none) :
    tables.KeepsInodes after := by
  unfold fileStep at taken
  split_ifs at taken with live
  cases action with
  | fileopen | fileclose => cases quiet
  | filedup process fd =>
    rw [← Option.some_inj.mp taken]
    rcases filedup_cases tables process fd with same | ⟨new, slot, -, -, dup⟩
    · rw [same]
      exact .refl tables
    · grind [FileTables.KeepsInodes.point]
  | pipe process =>
    dsimp only at taken
    split at taken
    case h_2 => cases taken
    case h_1 ends opened success =>
      obtain ⟨readEnd, writeEnd⟩ := ends
      obtain ⟨slot, -, -, isMade⟩ := pipe_eq_some success
      rw [← Option.some_inj.mp taken, isMade]
      refine ⟨fun other => ?_, fun other => ?_⟩
      · refine tables.store_keeps FileInfo.iptr slot ?_ other
        rfl
      · by_cases same : other = slot
        · rw [same, FileTables.makePipe_ftable_self]
          exact Int.le_add_of_nonneg_right (by decide)
        · rw [FileTables.makePipe_ftable_other _ _ _ _ _ same]
  | fork process stack =>
    rw [← Option.some_inj.mp taken]
    exact ⟨fun slot => forkFiles_field FileInfo.iptr (fun _ => rfl) _ _ _ slot,
      fun slot => (forkFiles_kept process stack slot).ref⟩
  | exit process =>
    rw [← Option.some_inj.mp taken, exitFiles_of_closed (exits process rfl)]
    exact ⟨fun _ => rfl, fun _ => le_rfl⟩
  | wait process zombie =>
    dsimp only at taken
    split_ifs at taken
    rw [← Option.some_inj.mp taken]
    exact ⟨fun _ => rfl, fun _ => le_rfl⟩

end Tables

/-! ### The file system below the calls -/

section Calls

variable {system next : CallSystem} {pins : Fin ninode → Int}

theorem tableStep_fs {action : FileAction} (taken : system.tableStep action = some next) :
    next.fs = system.fs := by
  unfold CallSystem.tableStep at taken
  split at taken
  case h_1 =>
    split_ifs at taken
    obtain ⟨tables, -, rfl⟩ := Option.map_eq_some_iff.mp taken
    rfl
  all_goals
    obtain ⟨tables, -, rfl⟩ := Option.map_eq_some_iff.mp taken
    rfl

/-- A call that goes on leaves the file system alone. -/
theorem turn_fs (turned : system.turn process = some next) :
    next.fs = system.fs := by
  cases turn_move turned with
  | returned ready | onInode ready => exact absurd ready (not_ready_of_turn turned)
  | beganRead | beganWrite | foundBytes | gaveUp | foundNone | resumedRead | dropped
  | brokenWrite | resumedWrite | endedRead | endedWrite | sleptRead | sleptWrite | copied
  | stored => rfl

theorem fileread_holds {bytesRead : Int} (holds : system.fs.Holds pins 0)
    (began : system.fileread process fd bytesRead = .ok next) :
    next.fs.Holds pins 0 ∧ next.fs.locks = system.fs.locks := by
  unfold CallSystem.fileread at began
  split at began
  · rw [← Except.ok.inj began]
    exact ⟨holds, rfl⟩
  · dsimp only at began
    split_ifs at began
    · rw [← Except.ok.inj began]
      exact ⟨holds, rfl⟩
    · rw [← Except.ok.inj began]
      exact ⟨holds, rfl⟩
    · obtain ⟨⟨result, after⟩, isRead, isNext⟩ := ok_of_bind began
      rw [← Except.ok.inj isNext]
      show after.fs.Holds pins 0 ∧ after.fs.locks = system.fs.locks
      unfold filereadInode at isRead
      split at isRead
      · grind
      · split_ifs at isRead
        · grind
        · obtain ⟨⟨result, fs⟩, reads, isAfter⟩ := ok_of_bind isRead
          cases isAfter
          exact holds.concurrentReadi reads

theorem filewrite_holds {data : List UInt8} (holds : system.fs.Holds pins 0)
    (began : system.filewrite process fd data = .ok next) :
    next.fs.Holds pins 0 ∧ next.fs.locks = system.fs.locks := by
  unfold CallSystem.filewrite at began
  split at began
  · rw [← Except.ok.inj began]
    exact ⟨holds, rfl⟩
  · dsimp only at began
    split_ifs at began
    · rw [← Except.ok.inj began]
      exact ⟨holds, rfl⟩
    · obtain ⟨⟨result, after⟩, isWritten, isNext⟩ := ok_of_bind began
      rw [← Except.ok.inj isNext]
      show after.fs.Holds pins 0 ∧ after.fs.locks = system.fs.locks
      unfold filewriteInode at isWritten
      split at isWritten
      · grind
      · split_ifs at isWritten
        · grind
        · obtain ⟨⟨result, fs⟩, writes, isAfter⟩ := ok_of_bind isWritten
          cases isAfter
          exact holds.concurrentWritei writes

theorem filestat_holds (holds : system.fs.Holds pins 0)
    (began : system.filestat process fd = .ok next) :
    next.fs.Holds pins 0 ∧ next.fs.locks = system.fs.locks := by
  unfold CallSystem.filestat at began
  split at began
  · rw [← Except.ok.inj began]
    exact ⟨holds, rfl⟩
  · dsimp only at began
    split at began
    · split_ifs at began
      rw [← Except.ok.inj began]
      exact ⟨holds, rfl⟩
    · obtain ⟨⟨stat, fs⟩, stated, isNext⟩ := ok_of_bind began
      rw [← Except.ok.inj isNext]
      obtain ⟨held, -, locks⟩ := holds.concurrentStati stated
      exact ⟨held, locks⟩

theorem callStep_holds {action : CallAction} (taken : callStep system action = some next)
    (holds : system.fs.Holds pins 0) :
    next.fs.Holds pins 0 ∧ next.fs.locks = system.fs.locks := by
  cases action with
  | table tableAction => grind [callStep, tableStep_fs]
  | fileread process fd bytesRead => grind [callStep, fileread_holds, ok_of_toOption]
  | filewrite process fd data => grind [callStep, filewrite_holds, ok_of_toOption]
  | filestat process fd => grind [callStep, filestat_holds, ok_of_toOption]
  | turn process => grind [callStep, turn_fs]
  | kill process =>
    rw [← Option.some_inj.mp taken]
    unfold CallSystem.kill
    dsimp only
    split_ifs
    · exact ⟨holds, rfl⟩
    · exact ⟨holds, rfl⟩

/-- The steps that open and close no file keep the invariant. -/
theorem DescriptorInvariant.other (held : DescriptorInvariant system) {action : CallAction}
    (quiet : action.OpensOrCloses = false) (taken : callStep system action = some next) :
    DescriptorInvariant next := by
  have counted := held.calls.exact.counted
  obtain ⟨holds, locks⟩ := callStep_holds taken held.holds
  have keeps : system.tables.KeepsInodes next.tables := by
    rcases callStep_cases taken with
      ⟨tableAction, rfl, -, stepped⟩ | ⟨process, -, move, -⟩ | ⟨process, -, rfl⟩
    · have frame := tableStep_frame stepped
      exact fileStep_keepsInodes frame.taken quiet frame.exits
    · refine ⟨fun slot => ?_, fun slot => (move.frame.ref slot).ge⟩
      exact congrArg (fun fixed => fixed.2.1) (move.frame.fixed slot)
    · exact ⟨fun slot => by rw [kill_ftable], fun slot => by rw [kill_ftable]⟩
  refine ⟨held.calls.step taken, keeps.cleared counted held.cleared, ?_, locks.trans held.unlocked⟩
  rw [keeps.pins counted held.cleared]
  exact holds

end Calls

/-! ### Opening and closing -/

/-- What the invariant says of the tables and the file system. -/
structure OpenSystem.Pinned (files : OpenSystem) : Prop where
  cleared : ∀ slot, (files.tables.ftable slot).ref = 0 → (files.tables.ftable slot).iptr = none
  holds : files.fs.Holds files.tables.pins 0
  unlocked : files.fs.locks = fun _ => false

section Opening

variable {files opened : OpenSystem} {process : Fin nproc} {path : List UInt8} {mode fd : Int}

/-- A slot that `fileopen` takes is in use. -/
theorem fileopen_cleared {tables : FileTables}
    (cleared : ∀ slot, (tables.ftable slot).ref = 0 → (tables.ftable slot).iptr = none)
    (slot : Fin nfile) :
    ((Xk.fileopen tables process (some ip) mode).2.ftable slot).ref = 0 →
      ((Xk.fileopen tables process (some ip) mode).2.ftable slot).iptr = none := by
  rcases fileopen_cases tables process (some ip) mode with
    same | ⟨new, found, iptr, -, -, installs⟩
  · rw [same]
    exact cleared slot
  · rw [installs]
    dsimp only
    by_cases isFound : slot = found
    · grind [FileTables.point_ftable_self]
    · rw [show (tables.point (process, new) found { tables.ftable found with
        ref := 1, iptr := some iptr, accessPermission := mode }).ftable slot =
          tables.ftable slot from Function.update_of_ne isFound _ _]
      exact cleared slot

/-- `fileopen` pins the inode that it installs, which it has read before. -/
theorem OpenSystem.Pinned.fileopen (pinned : files.Pinned)
    (opens : files.fileopen process path mode = .ok (fd, opened)) :
    opened.Pinned ∧ (opened.tables = files.tables ∨
      ∃ ip, opened.tables = (Xk.fileopen files.tables process (some ip) mode).2) := by
  obtain ⟨⟨found, looked⟩, looks, opens⟩ := ok_of_bind opens
  obtain ⟨held, heldFor, lookedLocks⟩ := pinned.holds.namei looks
  cases found with
  | none =>
    cases opens
    exact ⟨⟨pinned.cleared, held, lookedLocks.trans pinned.unlocked⟩, .inl rfl⟩
  | some ip =>
    obtain ⟨⟨_, stated⟩, states, opens⟩ := ok_of_bind opens
    obtain ⟨heldStated, valid, statedLocks⟩ := (heldFor ip rfl).concurrentStati states
    obtain ⟨-, rfl⟩ := ok_pair opens
    refine ⟨⟨fun slot unused => ?_, ⟨?_, fun other isPinned => ?_⟩,
      statedLocks.trans (lookedLocks.trans pinned.unlocked)⟩, .inr ⟨ip, rfl⟩⟩
    · exact fileopen_cleared pinned.cleared slot unused
    · rw [add_zero]
      refine le_trans (fun other => ?_) heldStated.refs
      exact fileopen_inodeSlots files.tables process mode ip other
    · by_cases isFound : other = ip
      · rw [isFound]
        exact valid
      · have more : (Xk.fileopen files.tables process (some ip) mode).2.pins other ≤
            files.tables.pins other + oneRef ip other :=
          fileopen_inodeSlots files.tables process mode ip other
        rw [oneRef_of_ne isFound, add_zero] at more
        exact heldStated.loaded other (isPinned.trans more)

theorem OpenSystem.Pinned.sysOpen (pinned : files.Pinned)
    (opens : files.sysOpen process path mode = .ok (fd, opened)) :
    opened.Pinned ∧ (opened.tables = files.tables ∨
      ∃ ip, opened.tables = (Xk.fileopen files.tables process (some ip) mode).2) := by
  obtain ⟨⟨found, looked⟩, looks, opens⟩ := ok_of_bind opens
  obtain ⟨held, -, lookedLocks⟩ := pinned.holds.namei looks
  have afterLookup : OpenSystem.Pinned { files with fs := looked } :=
    ⟨pinned.cleared, held, lookedLocks.trans pinned.unlocked⟩
  dsimp only at opens
  split_ifs at opens
  · obtain ⟨⟨_, created⟩, creates, opens⟩ := ok_of_bind opens
    obtain ⟨heldCreated, createdLocks⟩ := held.concurrentCreatei creates
    have afterCreation : OpenSystem.Pinned { files with fs := created } :=
      ⟨pinned.cleared, heldCreated, createdLocks.trans afterLookup.unlocked⟩
    exact afterCreation.fileopen opens
  · exact afterLookup.fileopen opens
  · cases opens
    exact ⟨afterLookup, .inl rfl⟩

/-- Closing a slot pins nothing. -/
theorem FileTables.closed_pins (tables : FileTables) (descriptor : Descriptor) (slot : Fin nfile) :
    (tables.unpoint descriptor slot (tables.ftable slot).closed).pins ≤ tables.pins := by
  intro ip
  refine Int.ofNat_le.mpr (Counting.places_mono _ _ fun other _ isOpen => ?_)
  by_cases same : other = slot
  · rw [same] at isOpen ⊢
    rw [show (tables.unpoint descriptor slot (tables.ftable slot).closed).ftable slot =
      (tables.ftable slot).closed from Function.update_self _ _ _, FileInfo.closed] at isOpen
    split_ifs at isOpen with shared
    · exact ⟨zero_lt_one.trans shared, isOpen.2⟩
    · cases isOpen.2
  · rwa [show (tables.unpoint descriptor slot (tables.ftable slot).closed).ftable other =
      tables.ftable other from Function.update_of_ne same _ _] at isOpen

/-- The last descriptor of a file takes the pin of its inode away. -/
theorem FileTables.closed_pins_last {tables : FileTables} {slot : Fin nfile}
    (descriptor : Descriptor) (positive : 0 < (tables.ftable slot).ref)
    (last : ¬ 1 < (tables.ftable slot).ref) (hasInode : (tables.ftable slot).iptr = some ip) :
    (tables.unpoint descriptor slot (tables.ftable slot).closed).pins + oneRef ip ≤
      tables.pins := by
  intro other
  have moved := Counting.places_update Finset.univ tables.ftable
    (fun file => 0 < file.ref ∧ file.iptr = some other) (Finset.mem_univ slot)
    (tables.ftable slot).closed
  have isClosed : (tables.ftable slot).closed.ref = 0 := by
    rw [FileInfo.closed, if_neg last]
  rw [isClosed, if_neg (fun isOpen : (0 : Int) < 0 ∧ _ => lt_irrefl _ isOpen.1), add_zero] at moved
  have share : ((if 0 < (tables.ftable slot).ref ∧ (tables.ftable slot).iptr = some other then 1
      else 0 : Nat) : Int) = oneRef ip other := by
    by_cases same : ip = other
    · rw [if_pos ⟨positive, hasInode.trans (congrArg some same)⟩, ← same, oneRef,
        Pi.single_eq_same]
      rfl
    · grind [oneRef_of_ne]
  rw [Pi.add_apply, ← share]
  exact Int.ofNat_le.mpr moved.le

/-- A closed slot has no inode. -/
theorem FileTables.closed_cleared {tables : FileTables} (descriptor : Descriptor) (slot : Fin nfile)
    (cleared : ∀ slot, (tables.ftable slot).ref = 0 → (tables.ftable slot).iptr = none)
    (other : Fin nfile) :
    ((tables.unpoint descriptor slot (tables.ftable slot).closed).ftable other).ref = 0 →
      ((tables.unpoint descriptor slot (tables.ftable slot).closed).ftable other).iptr = none := by
  by_cases same : other = slot
  · rw [same, show (tables.unpoint descriptor slot (tables.ftable slot).closed).ftable slot =
      (tables.ftable slot).closed from Function.update_self _ _ _, FileInfo.closed]
    split_ifs with shared
    · grind
    · exact fun _ => rfl
  · rw [show (tables.unpoint descriptor slot (tables.ftable slot).closed).ftable other =
      tables.ftable other from Function.update_of_ne same _ _]
    exact cleared other

theorem OpenSystem.fileclose_tables (files : OpenSystem) (process : Fin nproc) (fd : Fin nofile) :
    (files.fileclose process fd).2.tables = (Xk.fileclose files.tables process fd).2 := by
  grind [OpenSystem.fileclose]

/-- `fileclose` of the last descriptor of a file unpins its inode, and gives the reference back. -/
theorem OpenSystem.Pinned.fileclose (pinned : files.Pinned) (counted : Counted files.tables)
    (fd : Fin nofile) : (files.fileclose process fd).2.Pinned := by
  cases points : files.tables.pftable (process, fd) with
  | none =>
    have unchanged : (files.fileclose process fd).2 = files := by
      simp only [OpenSystem.fileclose, Xk.fileclose, points]
    rw [unchanged]
    exact pinned
  | some slot =>
    have closes := counted.fileclose_eq points
    have fewer := files.tables.closed_pins (process, fd) slot
    have cleared := FileTables.closed_cleared (process, fd) slot pinned.cleared
    have kept : OpenSystem.Pinned
        ⟨files.tables.unpoint (process, fd) slot (files.tables.ftable slot).closed, files.fs⟩ :=
      ⟨cleared, pinned.holds.fewer fewer, pinned.unlocked⟩
    unfold OpenSystem.fileclose
    rw [closes, points]
    dsimp only
    split
    · exact kept
    · rename_i ip hasInode
      split_ifs with last
      · refine ⟨cleared, ?_, (locks_setInode_same ?_).trans pinned.unlocked⟩
        · have gone := FileTables.closed_pins_last (process, fd) (counted.ref_pos points)
            last.2 hasInode
          refine FileSystem.Holds.irelease ⟨?_, fun other isPinned => ?_⟩
          · rw [zero_add]
            exact gone.trans (by simpa using pinned.holds.refs)
          · exact pinned.holds.loaded other (isPinned.trans (fewer other))
        · rfl
      · exact kept

end Opening

/-! ### Every reachable state -/

section Reachable

variable {system next : CallSystem}

/-- The invariant of the calls on pipes says nothing about the file system. -/
theorem PipeCallInvariant.setFiles (invariant : PipeCallInvariant system)
    (ready : system.Ready process) {files : OpenSystem} {mode : Int}
    (opens : files.tables = system.tables ∨
      ∃ ip, files.tables = (Xk.fileopen system.tables process (some ip) mode).2) :
    PipeCallInvariant (system.setFiles files) := by
  obtain ⟨tables, fs⟩ := files
  rcases opens with rfl | ⟨ip, rfl⟩
  · exact ⟨invariant.exact, invariant.engaged, invariant.held, invariant.asleep⟩
  · have stepped : callStep system (.table (.fileopen process (some ip) mode)) = some { system with
        tables := (Xk.fileopen system.tables process (some ip) mode).2
        ends := endsAfter system.tables system.ends (.fileopen process (some ip) mode) } := by
      have caller : (FileAction.fileopen process (some ip) mode).caller = process := rfl
      simp only [callStep, CallSystem.tableStep, fileStep, caller]
      rw [if_pos ready, if_pos ready.1.live, Option.map_some]
    have after := invariant.step stepped
    exact ⟨after.exact, after.engaged, after.held, after.asleep⟩

theorem PipeCallInvariant.closeFile (invariant : PipeCallInvariant system)
    (ready : system.Ready process) (fd : Fin nofile) :
    PipeCallInvariant (system.closeFile process fd) := by
  have stepped := callStep_fileclose system process fd
  rw [if_pos ready] at stepped
  have after := invariant.step stepped
  have tables : (system.closeFile process fd).tables = (fileclose system.tables process fd).2 :=
    system.files.fileclose_tables process fd
  refine ⟨?_, ?_, after.held, ?_⟩
  · rw [tables]
    exact after.exact
  · rw [tables]
    exact after.engaged
  · rw [tables]
    exact after.asleep

/-- Every step keeps the invariant. -/
theorem DescriptorInvariant.step (held : DescriptorInvariant system) {action : DescriptorAction}
    (stepped : descriptorStep system action = some next) : DescriptorInvariant next := by
  have before : system.files.Pinned := ⟨held.cleared, held.holds, held.unlocked⟩
  cases action with
  | sysOpen process path mode =>
    simp only [descriptorStep] at stepped
    split_ifs at stepped with ready
    obtain ⟨⟨fd, opened⟩, isOk, rfl⟩ := Option.map_eq_some_iff.mp stepped
    obtain ⟨pinned, opens⟩ := before.sysOpen (ok_of_toOption isOk)
    exact ⟨held.calls.setFiles ready opens, pinned.cleared, pinned.holds, pinned.unlocked⟩
  | sysClose process fd =>
    simp only [descriptorStep] at stepped
    split_ifs at stepped with ready
    obtain rfl := Option.some_inj.mp stepped
    have pinned : (system.files.fileclose process fd).2.Pinned :=
      before.fileclose held.calls.exact.counted fd
    exact ⟨held.calls.closeFile ready fd, pinned.cleared, pinned.holds, pinned.unlocked⟩
  | other action =>
    simp only [descriptorStep] at stepped
    split_ifs at stepped with quiet
    exact held.other (Bool.eq_false_of_not_eq_true quiet) stepped

/-- No inode is in use. -/
def FileSystem.Unused (fs : FileSystem) : Prop :=
  ∀ ip, (fs.inode ip).ref = 0 ∧ (fs.inode ip).locked = false

theorem DescriptorInvariant.initial (unused : fs.Unused) :
    DescriptorInvariant (.initial fs) := by
  have noPins : FileTables.pins .initial = 0 := by rfl
  refine ⟨.initial fs, fun slot _ => rfl, ⟨fun ip => ?_, fun ip isPinned => ?_⟩,
    funext fun ip => (unused ip).2⟩
  · show FileTables.pins .initial ip + 0 ≤ (fs.inode ip).ref
    rw [noPins, (unused ip).1]
    exact le_rfl
  · change 1 ≤ FileTables.pins .initial ip at isPinned
    rw [noPins] at isPinned
    exact absurd isPinned (show ¬ (1 : Int) ≤ 0 by decide)

theorem DescriptorInvariant.run (unused : fs.Unused) {actions : List DescriptorAction}
    (runs : Transition.run descriptorStep (.initial fs) actions = some system) :
    DescriptorInvariant system :=
  run_invariant DescriptorInvariant (fun _ _ _ stepped good => good.step stepped) runs
    (.initial unused)

end Reachable

/-! ### The calls on a file -/

/-- `acquiresleep` on the inode. -/
def FileSystem.lock (fs : FileSystem) (ip : Fin ninode) : FileSystem :=
  fs.setInode ip { fs.inode ip with locked := true }

theorem FileSystem.lock_locked (fs : FileSystem) (ip : Fin ninode) :
    ((fs.lock ip).inode ip).locked = true := by
  rw [FileSystem.lock, fs.setInode_self]

section Locked

variable {fs : FileSystem} {ip : Fin ninode}

theorem locki_of_valid (counted : 1 ≤ (fs.inode ip).ref) (unlocked : (fs.inode ip).locked = false)
    (valid : (fs.inode ip).valid = true) : locki fs ip = .ok (fs.lock ip) := by
  unfold locki
  dsimp only
  rw [if_neg (not_lt.mpr counted), if_neg (Bool.eq_false_iff.mp unlocked), if_pos valid]
  rfl

theorem unlocki_of_locked (inode : Inode) (counted : 1 ≤ inode.ref) (locked : inode.locked = true) :
    unlocki (fs.setInode ip inode) ip = .ok (fs.setInode ip { inode with locked := false }) := by
  have isHeld : ¬ (inode.locked = false ∨ inode.ref < 1) := by grind
  simp only [unlocki, fs.setInode_self, if_neg isHeld, fs.setInode_setInode]

section

variable (counted : 1 ≤ (fs.inode ip).ref)
include counted

section

variable (unlocked : (fs.inode ip).locked = false)
include unlocked

/-- Locking a valid inode and unlocking it again leaves everything as it was. -/
theorem unlocki_lock :
    unlocki (fs.lock ip) ip = .ok fs := by
  have same : { fs.inode ip with locked := false } = fs.inode ip := by rw [← unlocked]
  have unlocks := @unlocki_of_locked fs ip { fs.inode ip with locked := true } counted rfl
  dsimp only at unlocks
  rwa [same, fs.setInode_inode] at unlocks

theorem concurrentStati_of_valid (valid : (fs.inode ip).valid = true) :
    ∃ stat, concurrentStati fs ip = .ok (stat, fs) := by
  rw [concurrentStati, locki_of_valid counted unlocked valid, ok_bind]
  dsimp only
  rw [unlocki_lock counted unlocked, ok_bind]
  exact ⟨_, rfl⟩

/-- With the lock free `concurrent_readi` stops only where `readi` does. -/
theorem concurrentReadi_of_valid (valid : (fs.inode ip).valid = true) (off n : UInt32) :
    concurrentReadi fs ip off n =
      readi (fs.lock ip) ((fs.lock ip).inode ip) off n >>= fun result => .ok (result, fs) := by
  rw [concurrentReadi, locki_of_valid counted unlocked valid, ok_bind]
  rcases readi (fs.lock ip) ((fs.lock ip).inode ip) off n with halt | result
  · rfl
  · rw [ok_bind, ok_bind, unlocki_lock counted unlocked]
    rfl

/-- With the lock free `concurrent_writei` stops only where `writei` does. -/
theorem concurrentWritei_of_valid (valid : (fs.inode ip).valid = true) (src : List UInt8)
    (off n : UInt32) :
    (∃ result after, concurrentWritei fs ip src off n = .ok (result, after) ∧
      ∃ written, writei (fs.lock ip) ((fs.lock ip).inode ip) src off n = .ok written) ∨
    ∃ halt, concurrentWritei fs ip src off n = .error halt ∧
      writei (fs.lock ip) ((fs.lock ip).inode ip) src off n = .error halt := by
  rw [concurrentWritei, locki_of_valid counted unlocked valid, ok_bind]
  cases writes : writei (fs.lock ip) ((fs.lock ip).inode ip) src off n with
  | error halt => exact .inr ⟨halt, rfl, rfl⟩
  | ok value =>
    obtain ⟨result, written, inode⟩ := value
    obtain ⟨-, data, isInode⟩ := writei_eq writes
    have lockedInode : (fs.lock ip).inode ip = { fs.inode ip with locked := true } :=
      fs.setInode_self ip _
    rw [lockedInode] at isInode
    refine .inl ⟨result, written.setInode ip { inode with locked := false }, ?_, _, rfl⟩
    rw [ok_bind]
    dsimp only
    rw [unlocki_of_locked inode (by rw [isInode]; exact counted) (by rw [isInode])]
    rfl

end

end

end Locked

/-! ### Where a transfer can stop -/

/-- How the loops of `readi` and `writei` stop: outside the array of extents, or at a block that is
not on the disk. -/
def Halt.Transfer (halt : Halt) : Prop :=
  halt = .undefined ∨ halt = .panic "iderw: block out of range"

section Transfer

variable {halt : Halt}

theorem bread_error {blockno : UInt32} (failed : bread disk blockno = .error halt) :
    halt.Transfer := by
  unfold bread at failed
  split_ifs at failed
  exact .inr (Except.error.inj failed).symm

theorem copyIn_error {block : List UInt8} {offset m : UInt32}
    (failed : copyIn block src offset m = .error halt) : halt.Transfer := by
  unfold copyIn at failed
  split_ifs at failed
  exact .inl (Except.error.inj failed).symm

theorem seekExtent_error {size : UInt32} (failed : seekExtent data size off = .error halt) :
    halt.Transfer := by
  fun_induction seekExtent data size off with
  | case1 => exact .inl (Except.error.inj failed).symm
  | case2 _ _ _ _ _ inductionHypothesis => exact inductionHypothesis failed
  | case3 => cases failed

theorem readLoop_error {turns : Nat} {size : UInt32}
    (failed : readLoop disk n turns data size off tot = .error halt) :
    halt.Transfer := by
  induction turns generalizing data size off tot with
  | zero => exact .inl (Except.error.inj failed).symm
  | succ turns inductionHypothesis =>
    unfold readLoop at failed
    split_ifs at failed
    split at failed
    · exact .inl (Except.error.inj failed).symm
    · split_ifs at failed
      · rcases error_of_bind failed with stopped | ⟨block, -, failed⟩
        · exact bread_error stopped
        · rcases error_of_bind failed with stopped | ⟨others, -, failed⟩
          · exact inductionHypothesis stopped
          · cases failed
      · exact inductionHypothesis failed

theorem readi_error {inode : Inode} (locked : inode.locked = true)
    (failed : readi fs inode off n = .error halt) :
    halt.Transfer := by
  unfold readi at failed
  rw [if_neg (by rw [locked]; decide)] at failed
  split_ifs at failed
  · split at failed <;> cases failed
  · rcases error_of_bind failed with stopped | ⟨⟨data, size⟩, -, failed⟩
    · exact seekExtent_error stopped
    · rcases error_of_bind failed with stopped | ⟨bytes, -, failed⟩
      · exact readLoop_error stopped
      · cases failed

theorem writeLoop_error {turns : Nat} {size : UInt32}
    (failed : writeLoop n turns disk data size off tot src = .error halt) : halt.Transfer := by
  induction turns generalizing disk data size off tot src with
  | zero => exact .inl (Except.error.inj failed).symm
  | succ turns inductionHypothesis =>
    unfold writeLoop at failed
    split_ifs at failed
    split at failed
    · exact .inl (Except.error.inj failed).symm
    · grind [error_of_bind, bread_error, copyIn_error]

theorem freeScan_error {i : Nat} (failed : freeScan disk sb i = .error halt) : halt.Transfer := by
  induction i with
  | zero => cases failed
  | succ i inductionHypothesis =>
    unfold freeScan at failed
    split_ifs at failed
    rcases error_of_bind failed with stopped | ⟨block, -, failed⟩
    · exact bread_error stopped
    · split at failed
      · cases failed
      · exact inductionHypothesis failed

theorem fillSlot_error {extent : Extent} (failed : fillSlot sb disk extent = .error halt) :
    halt.Transfer := by
  unfold fillSlot at failed
  split_ifs at failed
  · rcases error_of_bind failed with stopped | ⟨_, -, failed⟩
    · exact freeScan_error stopped
    · cases failed
  · cases failed

theorem appendiLoop_error {append : UInt32} {turns : Nat} {extents : Extents} {data : Nat}
    {size : UInt32}
    (failed : appendiLoop sb append turns disk extents data size tot src = .error halt) :
    halt.Transfer := by
  induction turns generalizing disk extents data size tot src with
  | zero => exact .inl (Except.error.inj failed).symm
  | succ turns inductionHypothesis =>
    by_cases more : tot < append
    · by_cases inArray : data < extentN
      · rw [appendiLoop_succ more inArray] at failed
        rcases error_of_bind failed with stopped | ⟨⟨extent, filled⟩, -, failed⟩
        · exact fillSlot_error stopped
        · grind [error_of_bind, bread_error, copyIn_error]
      · rw [appendiLoop, if_pos more, dif_neg inArray] at failed
        exact .inl (Except.error.inj failed).symm
    · grind [appendiLoop_done]

theorem appendi_error {extents : Extents} {append : UInt32}
    (failed : appendi sb disk extents src append = .error halt) :
    halt.Transfer := by
  unfold appendi at failed
  split at failed
  · exact .inl (Except.error.inj failed).symm
  · exact appendiLoop_error failed

theorem writei_error {inode : Inode} (locked : inode.locked = true)
    (failed : writei fs inode src off n = .error halt) :
    halt.Transfer := by
  unfold writei at failed
  rw [if_neg (by rw [locked]; decide)] at failed
  split_ifs at failed
  · split at failed <;> cases failed
  · dsimp only at failed
    generalize (if getCapacity inode < off + n then off + n - getCapacity inode else 0) =
      append at failed
    rcases error_of_bind failed with stopped | ⟨⟨data, size⟩, -, failed⟩
    · exact seekExtent_error stopped
    · rcases error_of_bind failed with stopped | ⟨⟨disk, rest⟩, -, failed⟩
      · exact writeLoop_error stopped
      · by_cases grows : 0 < append
        · rw [if_pos grows] at failed
          rcases error_of_bind failed with stopped | ⟨⟨disk, extents⟩, -, failed⟩
          · exact appendi_error stopped
          · cases failed
        · rw [if_neg grows] at failed
          cases failed

end Transfer

/-! ### Every call on every number -/

namespace CallSystem

variable (system : CallSystem) (process : Fin nproc) (fd : Int)

/-- The call returns, or it waits for another process that is in the pipe. -/
def Answers (use : FdUse) : Prop :=
  (∃ next, system.sysUse process fd use = .ok next) ∨
    system.sysUse process fd use = .error .sleeps

/-- The number is that of an open descriptor of the slot. -/
def Points (slot : Fin nfile) : Prop :=
  ∃ number, argfd fd = some number ∧ system.tables.pftable (process, number) = some slot

/-- `sys_fstat` on a pipe without an inode. -/
def StatsPipe (use : FdUse) : Prop :=
  use = .call .filestat ∧
    ∃ slot, system.Points process fd slot ∧ (system.tables.ftable slot).iptr = none

/-- The bytes of a call on an open file can be moved: with its inode locked, the loops of `readi` and
`writei` stay in the array of extents and on the disk. -/
def Moves (slot : Fin nfile) (ip : Fin ninode) : FdUse → Prop
  | .call (.fileread bytesRead) =>
    0 ≤ bytesRead → (system.tables.ftable slot).accessPermission ≠ oWronly →
      ∃ result, readi (system.fs.lock ip) ((system.fs.lock ip).inode ip)
        (UInt32.ofInt (system.tables.ftable slot).offset) (UInt32.ofInt bytesRead) = .ok result
  | .call (.filewrite data) =>
    (system.tables.ftable slot).accessPermission ≠ oRdonly →
      ∃ result, writei (system.fs.lock ip) ((system.fs.lock ip).inode ip) data
        (UInt32.ofInt (system.tables.ftable slot).offset) (UInt32.ofInt data.length) = .ok result
  | _ => True

/-- A call on a file can move its bytes. -/
def Transfers (use : FdUse) : Prop :=
  ∀ slot ip, system.Points process fd slot → (system.tables.ftable slot).isPipe = false →
    (system.tables.ftable slot).iptr = some ip → system.Moves slot ip use

end CallSystem

section Answers

variable {system : CallSystem} {process : Fin nproc} {fd : Int} {use : FdUse}

/-- What a call can come to. -/
inductive CallSystem.Ending (system : CallSystem) (process : Fin nproc) (fd : Int) (use : FdUse) :
    Prop
  | answers (isFile : ¬ system.StatsPipe process fd use)
      (transfers : system.Transfers process fd use) (answers : system.Answers process fd use)
  | stops (isFile : ¬ system.StatsPipe process fd use)
      (stays : ¬ system.Transfers process fd use) {halt : Halt} (transfer : halt.Transfer)
      (failed : system.sysUse process fd use = .error halt)
  | panics (stats : system.StatsPipe process fd use)
      (failed : system.sysUse process fd use = .error (.panic "locki"))

theorem CallSystem.Points.unique {number : Fin nofile} {slot other : Fin nfile}
    (isNumber : argfd fd = some number) (points : system.tables.pftable
      (process, number) = some slot)
    (also : system.Points process fd other) : other = slot := by
  obtain ⟨same, isSame, pointsOther⟩ := also
  obtain rfl := Option.some_inj.mp (isNumber.symm.trans isSame)
  exact Option.some_inj.mp (pointsOther.symm.trans points)

/-- An open file has its inode in the cache, read and unlocked. -/
theorem DescriptorInvariant.inode (held : DescriptorInvariant system) {descriptor : Descriptor}
    {slot : Fin nfile} (points : system.tables.pftable descriptor = some slot)
    (hasInode : (system.tables.ftable slot).iptr = some ip) :
    1 ≤ (system.fs.inode ip).ref ∧ (system.fs.inode ip).locked = false ∧
      (system.fs.inode ip).valid = true := by
  have positive := held.calls.exact.counted.ref_pos points
  have pinned : 1 ≤ system.tables.pins ip := by
    refine Int.ofNat_le.mpr (Nat.one_le_iff_ne_zero.mpr fun none => ?_)
    exact (Counting.places_eq_zero_iff _ _ _).mp none slot (Finset.mem_univ slot)
      ⟨positive, hasInode⟩
  have counted : system.tables.pins ip + 0 ≤ (system.fs.inode ip).ref := held.holds.refs ip
  exact ⟨by omega, congrFun held.unlocked ip, held.holds.loaded ip pinned⟩

/-- A number that is none of an open descriptor. -/
theorem CallSystem.Ending.closed (unopened : ∀ slot, ¬ system.Points process fd slot)
    (answers : system.Answers process fd use) : system.Ending process fd use :=
  .answers (fun stats => by
    obtain ⟨-, slot, points, -⟩ := stats
    exact unopened slot points) (fun slot ip points => absurd points (unopened slot)) answers

theorem CallSystem.not_points_of_closed {number : Fin nofile} (isNumber : argfd fd = some number)
    (empty : system.tables.pftable (process, number) = none) (slot : Fin nfile) :
    ¬ system.Points process fd slot := by
  rintro ⟨same, isSame, points⟩
  obtain rfl := Option.some_inj.mp (isNumber.symm.trans isSame)
  rw [empty] at points
  cases points

theorem CallSystem.not_statsPipe {call : FdCall} (different : call ≠ .filestat) :
    ¬ system.StatsPipe process fd (.call call) := fun stats =>
  different (FdUse.call.inj stats.1)

section OpenSlot

variable {number : Fin nofile} {slot : Fin nfile}
  (points : system.tables.pftable (process, number) = some slot)
include points

theorem CallSystem.fileread_pipe (isPipe : (system.tables.ftable slot).isPipe = true)
    (bytesRead : Int) :
    (∃ next, system.fileread process number bytesRead = .ok next) ∨
      system.fileread process number bytesRead = .error .sleeps := by
  grind [CallSystem.fileread]

theorem CallSystem.filewrite_pipe (isPipe : (system.tables.ftable slot).isPipe = true)
    (data : List UInt8) :
    (∃ next, system.filewrite process number data = .ok next) ∨
      system.filewrite process number data = .error .sleeps := by
  grind [CallSystem.filewrite]

variable {ip : Fin ninode} (held : DescriptorInvariant system)
  (hasInode : (system.tables.ftable slot).iptr = some ip)
  (isFile : (system.tables.ftable slot).isPipe = false)
include held hasInode

include isFile in
/-- A read of a file stops only where `readi` does. -/
theorem DescriptorInvariant.fileread (bytesRead : Int)
    (readable : (system.tables.ftable slot).accessPermission ≠ oWronly) :
    (∃ next, system.fileread process number bytesRead = .ok next ∧
      ∃ result, readi (system.fs.lock ip) ((system.fs.lock ip).inode ip)
        (UInt32.ofInt (system.tables.ftable slot).offset) (UInt32.ofInt bytesRead) = .ok result) ∨
    ∃ halt : Halt, halt.Transfer ∧ system.fileread process number bytesRead = .error halt ∧
      readi (system.fs.lock ip) ((system.fs.lock ip).inode ip)
        (UInt32.ofInt (system.tables.ftable slot).offset) (UInt32.ofInt bytesRead) =
          .error halt := by
  obtain ⟨counted, unlocked, valid⟩ := held.inode points hasInode
  unfold CallSystem.fileread
  rw [points]
  dsimp only
  rw [if_neg (Bool.eq_false_iff.mp isFile), filereadInode]
  dsimp only
  rw [hasInode]
  dsimp only
  rw [if_neg readable, concurrentReadi_of_valid counted unlocked valid]
  cases reads : readi (system.fs.lock ip) ((system.fs.lock ip).inode ip)
    (UInt32.ofInt (system.tables.ftable slot).offset) (UInt32.ofInt bytesRead) with
  | ok result => exact .inl ⟨_, rfl, result, rfl⟩
  | error halt => exact .inr ⟨halt, readi_error (system.fs.lock_locked ip) reads, rfl, rfl⟩

include isFile in
/-- A write to a file stops only where `writei` does. -/
theorem DescriptorInvariant.filewrite (data : List UInt8)
    (writable : (system.tables.ftable slot).accessPermission ≠ oRdonly) :
    (∃ next, system.filewrite process number data = .ok next ∧
      ∃ result, writei (system.fs.lock ip) ((system.fs.lock ip).inode ip) data
        (UInt32.ofInt (system.tables.ftable slot).offset) (UInt32.ofInt data.length) =
          .ok result) ∨
    ∃ halt : Halt, halt.Transfer ∧ system.filewrite process number data = .error halt ∧
      writei (system.fs.lock ip) ((system.fs.lock ip).inode ip) data
        (UInt32.ofInt (system.tables.ftable slot).offset) (UInt32.ofInt data.length) =
          .error halt := by
  obtain ⟨counted, unlocked, valid⟩ := held.inode points hasInode
  unfold CallSystem.filewrite
  rw [points]
  dsimp only
  rw [if_neg (Bool.eq_false_iff.mp isFile), filewriteInode]
  dsimp only
  rw [hasInode]
  dsimp only
  rw [if_neg writable]
  rcases concurrentWritei_of_valid counted unlocked valid data
    (UInt32.ofInt (system.tables.ftable slot).offset) (UInt32.ofInt data.length) with
    ⟨result, after, isWritten, writes⟩ | ⟨halt, isError, failed⟩
  · simp_all
  · rw [isError]
    exact .inr ⟨halt, writei_error (system.fs.lock_locked ip) failed, rfl, failed⟩

theorem DescriptorInvariant.filestat : ∃ next, system.filestat process number = .ok next := by
  obtain ⟨counted, unlocked, valid⟩ := held.inode points hasInode
  obtain ⟨stat, states⟩ := concurrentStati_of_valid counted unlocked valid
  unfold CallSystem.filestat
  rw [points]
  dsimp only
  rw [hasInode]
  dsimp only
  rw [states]
  exact ⟨_, rfl⟩

end OpenSlot

section Ending

variable {number : Fin nofile} {slot : Fin nfile} {ip : Fin ninode} {call : FdCall}

/-- A call on a pipe moves no bytes of a file. -/
theorem CallSystem.transfers_of_pipe (isNumber : argfd fd = some number)
    (points : system.tables.pftable (process, number) = some slot)
    (isPipe : (system.tables.ftable slot).isPipe = true) : system.Transfers process fd use := by
  intro other ip alsoPoints isFile
  rw [CallSystem.Points.unique isNumber points alsoPoints, isPipe] at isFile
  cases isFile

theorem CallSystem.transfers_iff (isNumber : argfd fd = some number)
    (points : system.tables.pftable (process, number) = some slot)
    (isFile : (system.tables.ftable slot).isPipe = false)
    (hasInode : (system.tables.ftable slot).iptr = some ip) :
    system.Transfers process fd use ↔ system.Moves slot ip use := by
  refine ⟨fun transfers => transfers slot ip ⟨number, isNumber, points⟩ isFile hasInode,
    fun moves other otherInode alsoPoints _ alsoInode => ?_⟩
  obtain rfl := CallSystem.Points.unique isNumber points alsoPoints
  obtain rfl := Option.some_inj.mp (alsoInode.symm.trans hasInode)
  exact moves

/-- A call that stops only where the transfer of its bytes does. -/
theorem CallSystem.Ending.ofTransfer {Value : Type} {transfer : Except Halt Value}
    (isFile : ¬ system.StatsPipe process fd use)
    (moves : system.Transfers process fd use ↔ ∃ result, transfer = .ok result)
    (both : (∃ next, system.sysUse process fd use = .ok next ∧ ∃ result, transfer = .ok result) ∨
      ∃ halt : Halt, halt.Transfer ∧ system.sysUse process fd use = .error halt ∧
        transfer = .error halt) : system.Ending process fd use := by
  rcases both with ⟨next, returns, moved⟩ | ⟨halt, isTransfer, failed, stopped⟩
  · exact .answers isFile (moves.mpr moved) (.inl ⟨next, returns⟩)
  · refine .stops isFile (fun transfers => ?_) isTransfer failed
    obtain ⟨result, moved⟩ := moves.mp transfers
    cases moved.symm.trans stopped

variable (held : DescriptorInvariant system) (isNumber : argfd fd = some number)
include held isNumber

theorem CallSystem.Ending.fileread (bytesRead : Int) :
    system.Ending process fd (.call (.fileread bytesRead)) := by
  have notStat : ¬ system.StatsPipe process fd (.call (.fileread bytesRead)) :=
    CallSystem.not_statsPipe (by rintro ⟨⟩)
  by_cases negative : bytesRead < 0
  · refine .answers notStat (fun slot ip _ _ _ nonneg => absurd nonneg (not_le.mpr negative))
      (.inl ?_)
    simp only [CallSystem.sysUse, isNumber, if_pos negative]
    exact ⟨_, rfl⟩
  have isCall : system.sysUse process fd (.call (.fileread bytesRead)) =
      system.fileread process number bytesRead := by
    simp only [CallSystem.sysUse, isNumber, if_neg negative]
  cases points : system.tables.pftable (process, number) with
  | none =>
    refine .closed (CallSystem.not_points_of_closed isNumber points) (.inl ?_)
    rw [isCall]
    simp only [CallSystem.fileread, points]
    exact ⟨_, rfl⟩
  | some slot =>
    cases isPipe : (system.tables.ftable slot).isPipe with
    | true =>
      refine .answers notStat (CallSystem.transfers_of_pipe isNumber points isPipe) ?_
      rw [CallSystem.Answers, isCall]
      exact CallSystem.fileread_pipe points isPipe bytesRead
    | false =>
      obtain ⟨ip, hasInode⟩ := Option.ne_none_iff_exists'.mp fun none =>
        held.calls.exact.counted.used points ⟨isPipe, none⟩
      have moves : system.Transfers process fd (.call (.fileread bytesRead)) ↔ _ :=
        CallSystem.transfers_iff isNumber points isPipe hasInode
      by_cases readable : (system.tables.ftable slot).accessPermission = oWronly
      · refine .answers notStat (moves.mpr fun _ allowed => absurd readable allowed) (.inl ?_)
        rw [isCall]
        simp only [CallSystem.fileread, points, isPipe, filereadInode, hasInode, if_pos readable]
        exact ⟨_, rfl⟩
      · refine .ofTransfer notStat (moves.trans ⟨fun can => can (not_lt.mp negative) readable,
          fun moved _ _ => moved⟩) ?_
        rw [isCall]
        exact held.fileread points hasInode isPipe bytesRead readable

theorem CallSystem.Ending.filewrite (data : List UInt8) :
    system.Ending process fd (.call (.filewrite data)) := by
  have notStat : ¬ system.StatsPipe process fd (.call (.filewrite data)) :=
    CallSystem.not_statsPipe (by rintro ⟨⟩)
  have isCall : system.sysUse process fd (.call (.filewrite data)) =
      system.filewrite process number data := by
    simp only [CallSystem.sysUse, isNumber]
  cases points : system.tables.pftable (process, number) with
  | none =>
    refine .closed (CallSystem.not_points_of_closed isNumber points) (.inl ?_)
    rw [isCall]
    simp only [CallSystem.filewrite, points]
    exact ⟨_, rfl⟩
  | some slot =>
    cases isPipe : (system.tables.ftable slot).isPipe with
    | true =>
      refine .answers notStat (CallSystem.transfers_of_pipe isNumber points isPipe) ?_
      rw [CallSystem.Answers, isCall]
      exact CallSystem.filewrite_pipe points isPipe data
    | false =>
      obtain ⟨ip, hasInode⟩ := Option.ne_none_iff_exists'.mp fun none =>
        held.calls.exact.counted.used points ⟨isPipe, none⟩
      have moves : system.Transfers process fd (.call (.filewrite data)) ↔ _ :=
        CallSystem.transfers_iff isNumber points isPipe hasInode
      by_cases writable : (system.tables.ftable slot).accessPermission = oRdonly
      · refine .answers notStat (moves.mpr fun allowed => absurd writable allowed) (.inl ?_)
        rw [isCall]
        simp only [CallSystem.filewrite, points, isPipe, filewriteInode, hasInode, if_pos writable]
        exact ⟨_, rfl⟩
      · refine .ofTransfer notStat (moves.trans ⟨fun can => can writable,
          fun moved _ => moved⟩) ?_
        rw [isCall]
        exact held.filewrite points hasInode isPipe data writable

theorem CallSystem.Ending.filestat : system.Ending process fd (.call .filestat) := by
  have isCall : system.sysUse process fd (.call .filestat) = system.filestat process number := by
    simp only [CallSystem.sysUse, isNumber]
  cases points : system.tables.pftable (process, number) with
  | none =>
    refine .closed (CallSystem.not_points_of_closed isNumber points) (.inl ?_)
    rw [isCall]
    simp only [CallSystem.filestat, points]
    exact ⟨_, rfl⟩
  | some slot =>
    cases hasInode : (system.tables.ftable slot).iptr with
    | none =>
      have isPipe : (system.tables.ftable slot).isPipe = true := by
        rcases held.calls.exact.counted.isOpen (process, number) slot points with isPipe | inode
        · exact isPipe
        · exact absurd hasInode inode
      refine .panics ⟨rfl, slot, ⟨number, isNumber, points⟩, hasInode⟩ ?_
      rw [isCall]
      simp only [CallSystem.filestat, points, hasInode, if_pos isPipe]
    | some ip =>
      refine .answers (fun stats => ?_) (fun _ _ _ _ _ => trivial) (.inl ?_)
      · obtain ⟨-, other, alsoPoints, none⟩ := stats
        rw [CallSystem.Points.unique isNumber points alsoPoints, hasInode] at none
        cases none
      · rw [isCall]
        exact held.filestat points hasInode

end Ending

end Answers

end Xk
