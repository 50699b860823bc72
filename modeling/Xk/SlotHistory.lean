/-
This file asks whether a file that has just been opened depends on what its slot of `ftable` was
used for before. `fileopen` sets the inode, the mode and the count of the slot. The offset it
leaves, and `fileclose` has reset it. The flag `isPipe` neither of the two touches: in a slot that a
pipe had, a file is read and written as if it were that pipe. So two slots are as good as each other
where none of them had a pipe, and only there.
-/

import Xk.DescriptorCopies

namespace Xk

open Outcome Transition

/-! ### Using a descriptor -/

/-- A call on a descriptor. -/
inductive FdUse
  | call (call : FdCall)
  | filedup
  | fileclose

/-- A process makes a call on a descriptor while nobody else makes a step, and the call returns. -/
def CallSystem.Uses (system : CallSystem) (process : Fin nproc) (fd : Fin nofile) (use : FdUse)
    (result : CallResult) (after : CallSystem) : Prop :=
  match use with
  | .call call =>
    system.Performs process fd call after ∧ after.call process = .idle ∧
      after.result process = some result
  | .filedup =>
    callStep system (.table (.filedup process fd)) = some after ∧
      result = ⟨(filedup system.tables process fd).1, [], none⟩
  | .fileclose =>
    callStep system (.table (.fileclose process fd)) = some after ∧
      result = ⟨(fileclose system.tables process fd).1, [], none⟩

/-- The results of a sequence of calls on a descriptor. -/
inductive CallSystem.Results (process : Fin nproc) (fd : Fin nofile) :
    (system : CallSystem) → List FdUse → List CallResult → Prop
  | nil (system : CallSystem) : Results process fd system [] []
  | cons {system after : CallSystem} {use : FdUse} {rest : List FdUse} {result : CallResult}
      {results : List CallResult} (uses : system.Uses process fd use result after)
      (later : Results process fd after rest results) :
      Results process fd system (use :: rest) (result :: results)

/-! ### What a process sees of a slot -/

/-- The part of a slot that the calls on a file with an inode look at. -/
def FileInfo.sansPipe (file : FileInfo) : FileInfo := { file with pipeBuffer := .zero }

/-- A descriptor is the same for its process in two systems: the files and the other descriptors
look the same, and no pipe is behind it. -/
structure SameUse (process : Fin nproc) (fd : Fin nofile) (left right : CallSystem) : Prop where
  fs : left.fs = right.fs
  state : left.tables.state process = right.tables.state process
  call : left.call process = right.call process
  empty : ∀ other, left.tables.pftable (process, other) = none ↔
    right.tables.pftable (process, other) = none
  file : ∀ slot, left.tables.pftable (process, fd) = some slot →
    (left.tables.ftable slot).isPipe = false ∧ ∃ other,
      right.tables.pftable (process, fd) = some other ∧
        (right.tables.ftable other).sansPipe = (left.tables.ftable slot).sansPipe

section Use

variable {left right leftAfter : CallSystem} {process : Fin nproc} {fd : Fin nofile}

theorem SameUse.ready (same : SameUse process fd left right) :
    left.Ready process ↔ right.Ready process := by
  unfold CallSystem.Ready
  rw [same.state, same.call]

theorem SameUse.freeDescriptor (same : SameUse process fd left right) :
    left.tables.freeDescriptor process = right.tables.freeDescriptor process := by
  grind [FileTables.freeDescriptor, SameUse]

/-- A slot is another one with a different pipe buffer. -/
theorem FileInfo.eq_of_sansPipe {file other : FileInfo} (same : other.sansPipe = file.sansPipe) :
    other = { file with pipeBuffer := other.pipeBuffer } := by
  obtain ⟨ref, iptr, offset, mode, isPipe, pipe⟩ := file
  obtain ⟨_, _, _, _, _, otherPipe⟩ := other
  simp only [FileInfo.sansPipe, FileInfo.mk.injEq] at same
  obtain ⟨rfl, rfl, rfl, rfl, rfl, -⟩ := same
  rfl

/-- A call on a file with an inode: what it returns, the file system and the offset after it. -/
def FdCall.onInode (fs : FileSystem) (file : FileInfo) :
    FdCall → Except Halt (CallResult × FileSystem × Int)
  | .fileread bytesRead => do
    let (result, after) ← filereadInode ⟨fs, file⟩ bytesRead
    return (⟨result.1, result.2, none⟩, after.fs, after.file.offset)
  | .filewrite data => do
    let (result, after) ← filewriteInode ⟨fs, file⟩ data data.length
    return (⟨result, [], none⟩, after.fs, file.offset)
  | .filestat =>
    match file.iptr with
    | none => .ok (⟨-1, [], none⟩, fs, file.offset)
    | some ip => do
      let (stat, fs) ← concurrentStati fs ip
      return (⟨0, [], some stat⟩, fs, file.offset)

/-- Such a call does not look at the pipe buffer. -/
theorem FdCall.onInode_pipe (call : FdCall) (fs : FileSystem) (file : FileInfo) (pipe : Pipe) :
    call.onInode fs { file with pipeBuffer := pipe } = call.onInode fs file := by
  obtain ⟨ref, iptr, offset, mode, isPipe, buffer⟩ := file
  cases call with
  | fileread bytesRead =>
    unfold FdCall.onInode filereadInode
    cases iptr with
    | none => rfl
    | some ip =>
      dsimp only
      split_ifs
      · rfl
      · simp
  | filewrite data =>
    unfold FdCall.onInode filewriteInode
    cases iptr with
    | none => rfl
    | some ip =>
      dsimp only
      split_ifs
      · rfl
      · simp
  | filestat => rfl

theorem callStep_closed {system : CallSystem} (ready : system.Ready process)
    (closed : system.tables.pftable (process, fd) = none) (call : FdCall) :
    callStep system (call.action process fd) =
      some (system.finish process ⟨-1, [], none⟩) := by
  cases call with
  | fileread bytesRead =>
    simp only [FdCall.action, callStep, if_pos ready, CallSystem.fileread, closed]
    rfl
  | filewrite data =>
    simp only [FdCall.action, callStep, if_pos ready, CallSystem.filewrite, closed]
    rfl
  | filestat =>
    simp only [FdCall.action, callStep, if_pos ready, CallSystem.filestat, closed]
    rfl

theorem callStep_onInode {system : CallSystem} (ready : system.Ready process) {slot : Fin nfile}
    (points : system.tables.pftable (process, fd) = some slot)
    (notPipe : (system.tables.ftable slot).isPipe = false) (call : FdCall) :
    callStep system (call.action process fd) =
      (call.onInode system.fs (system.tables.ftable slot)).toOption.map fun (result, fs, offset) =>
        { system with
          fs := fs
          tables := system.tables.store slot
            { system.tables.ftable slot with offset := offset } }.finish process result := by
  have isInode : ¬ (system.tables.ftable slot).isPipe = true := by grind
  cases call with
  | fileread bytesRead =>
    simp only [FdCall.action, callStep, if_pos ready, CallSystem.fileread, points, if_neg isInode,
      FdCall.onInode]
    cases inode : filereadInode ⟨system.fs, system.tables.ftable slot⟩ bytesRead with
    | error halt => rfl
    | ok outcome =>
      obtain ⟨result, after⟩ := outcome
      obtain ⟨offset, isFile⟩ := filereadInode_file inode
      refine congrArg some ?_
      dsimp only
      rw [isFile]
  | filewrite data =>
    simp only [FdCall.action, callStep, if_pos ready, CallSystem.filewrite, points, if_neg isInode,
      FdCall.onInode]
    cases inode : filewriteInode ⟨system.fs, system.tables.ftable slot⟩ data data.length with
    | error halt => rfl
    | ok outcome =>
      obtain ⟨result, after⟩ := outcome
      refine congrArg some ?_
      dsimp only
      rw [filewriteInode_file inode]
  | filestat =>
    have stats : ∀ record : CallResult × FileSystem × Int → CallSystem,
        (∀ result fs, record (result, fs, (system.tables.ftable slot).offset) =
          { system with fs := fs }.finish process result) →
        (system.filestat process fd).toOption =
          (FdCall.onInode system.fs (system.tables.ftable slot) .filestat).toOption.map record := by
      intro record isRecord
      unfold CallSystem.filestat FdCall.onInode
      rw [points]
      dsimp only
      cases (system.tables.ftable slot).iptr with
      | none =>
        dsimp only
        rw [if_neg isInode]
        exact congrArg some (isRecord _ _).symm
      | some ip =>
        dsimp only
        cases concurrentStati system.fs ip with
        | error halt => rfl
        | ok outcome => exact congrArg some (isRecord _ _).symm
    simp only [FdCall.action, callStep, if_pos ready]
    refine stats _ fun result fs => ?_
    dsimp only
    unfold FileTables.store
    rw [Function.update_eq_self]

section

variable (same : SameUse process fd left right)
include same

/-- The systems look the same after a call that returns the same in both. -/
theorem SameUse.finish (result : CallResult) :
    SameUse process fd (left.finish process result) (right.finish process result) where
  fs := same.fs
  state := same.state
  call := by simp only [CallSystem.finish, Function.update_self]
  empty := same.empty
  file := same.file

/-- A file with an inode gets another offset. -/
theorem SameUse.store {slot other : Fin nfile}
    (points : left.tables.pftable (process, fd) = some slot)
    (pointsOther : right.tables.pftable (process, fd) = some other) (fs : FileSystem)
    {file otherFile : FileInfo} (notPipe : file.isPipe = false)
    (sameFile : otherFile.sansPipe = file.sansPipe) :
    SameUse process fd { left with fs := fs, tables := left.tables.store slot file }
      { right with fs := fs, tables := right.tables.store other otherFile } where
  fs := rfl
  state := same.state
  call := same.call
  empty := same.empty
  file found isFound := by
    obtain rfl := Option.some_inj.mp (points.symm.trans isFound)
    refine ⟨?_, other, pointsOther, ?_⟩
    · rw [FileTables.store_ftable_self]
      exact notPipe
    · grind [FileTables.store_ftable_self]

/-- A call returns at once in both systems, with the same result. -/
theorem SameUse.callStep {call : FdCall}
    (begins : callStep left (call.action process fd) = some leftAfter) :
    leftAfter.call process = .idle ∧ ∃ rightAfter,
      callStep right (call.action process fd) = some rightAfter ∧
        rightAfter.call process = .idle ∧
        rightAfter.result process = leftAfter.result process ∧
        SameUse process fd leftAfter rightAfter := by
  have finished (system : CallSystem) (result : CallResult) :
      (system.finish process result).call process = .idle := Function.update_self ..
  have returns (system : CallSystem) (result : CallResult) :
      (system.finish process result).result process = some result := Function.update_self ..
  have ready : left.Ready process := by
    cases call <;>
    · grind [FdCall.action, Xk.callStep]
  have readyRight := same.ready.mp ready
  cases points : left.tables.pftable (process, fd) with
  | none => grind [callStep_closed, SameUse, finish]
  | some slot =>
    obtain ⟨notPipe, other, pointsOther, sameFile⟩ := same.file slot points
    have isOther := FileInfo.eq_of_sansPipe sameFile
    have notPipeOther : (right.tables.ftable other).isPipe = false := by rw [isOther]; exact notPipe
    rw [callStep_onInode ready points notPipe] at begins
    rw [callStep_onInode readyRight pointsOther notPipeOther, ← same.fs, isOther,
      FdCall.onInode_pipe]
    obtain ⟨⟨result, fs, offset⟩, outcome, rfl⟩ := Option.map_eq_some_iff.mp begins
    rw [outcome]
    refine ⟨finished _ _, _, rfl, finished _ _, (returns _ _).trans (returns _ _).symm, ?_⟩
    refine SameUse.finish (same.store points pointsOther fs ?_ ?_) result
    · exact notPipe
    · rfl

/-- A file with an inode gets another count, and a descriptor more or less. -/
theorem SameUse.tables {leftTables rightTables : FileTables}
    (states : leftTables.state process = rightTables.state process)
    (empty : ∀ other, leftTables.pftable (process, other) = none ↔
      rightTables.pftable (process, other) = none)
    (file : ∀ slot, leftTables.pftable (process, fd) = some slot →
      (leftTables.ftable slot).isPipe = false ∧ ∃ other,
        rightTables.pftable (process, fd) = some other ∧
          (rightTables.ftable other).sansPipe = (leftTables.ftable slot).sansPipe)
    (leftEnds rightEnds : Descriptor → Option PipeEnd) :
    SameUse process fd { left with tables := leftTables, ends := leftEnds }
      { right with tables := rightTables, ends := rightEnds } :=
  ⟨same.fs, states, same.call, empty, file⟩

theorem SameUse.unchanged (leftEnds rightEnds : Descriptor → Option PipeEnd) :
    SameUse process fd { left with ends := leftEnds } { right with ends := rightEnds } :=
  same.tables same.state same.empty same.file leftEnds rightEnds

end

theorem FileInfo.unused_iff {file other : FileInfo} (same : other.sansPipe = file.sansPipe) :
    (other.isPipe = false ∧ other.iptr = none) ↔ (file.isPipe = false ∧ file.iptr = none) := by
  rw [FileInfo.eq_of_sansPipe same]

theorem callStep_filedup (system : CallSystem) (process : Fin nproc) (fd : Fin nofile) :
    callStep system (.table (.filedup process fd)) =
      if system.Ready process then some { system with
        tables := (filedup system.tables process fd).2
        ends := endsAfter system.tables system.ends (.filedup process fd) }
      else none := by
  have caller : (FileAction.filedup process fd).caller = process := rfl
  by_cases ready : system.Ready process
  · simp only [Xk.callStep, CallSystem.tableStep, fileStep, caller]
    rw [if_pos ready, if_pos ready, if_pos ready.1.live, Option.map_some]
  · grind [Xk.callStep]

theorem callStep_fileclose (system : CallSystem) (process : Fin nproc) (fd : Fin nofile) :
    callStep system (.table (.fileclose process fd)) =
      if system.Ready process then some { system with
        tables := (fileclose system.tables process fd).2
        ends := endsAfter system.tables system.ends (.fileclose process fd) }
      else none := by
  have caller : (FileAction.fileclose process fd).caller = process := rfl
  by_cases ready : system.Ready process
  · simp only [Xk.callStep, CallSystem.tableStep, fileStep, caller]
    rw [if_pos ready, if_pos ready, if_pos ready.1.live, Option.map_some]
  · grind [Xk.callStep]

section

variable (same : SameUse process fd left right)
include same

/-- `filedup` returns the same in both systems. -/
theorem SameUse.filedup :
    (filedup left.tables process fd).1 = (filedup right.tables process fd).1 ∧
      ∀ leftEnds rightEnds, SameUse process fd
        { left with tables := (filedup left.tables process fd).2, ends := leftEnds }
        { right with tables := (filedup right.tables process fd).2, ends := rightEnds } := by
  have unchanged := same.unchanged
  cases points : left.tables.pftable (process, fd) with
  | none => grind [SameUse, Xk.filedup]
  | some slot =>
    obtain ⟨notPipe, other, pointsOther, sameFile⟩ := same.file slot points
    have isOther := FileInfo.eq_of_sansPipe sameFile
    have used := FileInfo.unused_iff sameFile
    unfold Xk.filedup
    rw [points, pointsOther]
    dsimp only
    by_cases noInode : (left.tables.ftable slot).isPipe = false ∧
        (left.tables.ftable slot).iptr = none
    · grind
    · rw [if_neg noInode, if_neg (noInode ∘ used.mp), ← same.freeDescriptor]
      cases free : left.tables.freeDescriptor process with
      | none => exact ⟨rfl, unchanged⟩
      | some new =>
        have notFd : (process, fd) ≠ (process, new) := fun isNew => by
          grind [freeDescriptor_eq_some]
        refine ⟨rfl, fun leftEnds rightEnds => ?_⟩
        refine same.tables ?_ (fun descriptor => ?_) (fun found isFound => ?_) leftEnds rightEnds
        · exact same.state
        · rw [FileTables.point_pftable, FileTables.point_pftable]
          by_cases isNew : (process, descriptor) = (process, new)
          · grind
          · grind [SameUse]
        · rw [FileTables.point_pftable, Function.update_of_ne notFd, points] at isFound
          obtain rfl := Option.some_inj.mp isFound
          rw [FileTables.point_ftable_self]
          refine ⟨notPipe, other, ?_, ?_⟩
          · rw [FileTables.point_pftable, Function.update_of_ne notFd]
            exact pointsOther
          · rw [FileTables.point_ftable_self, isOther]
            rfl

/-- `fileclose` returns the same in both systems. -/
theorem SameUse.fileclose :
    (fileclose left.tables process fd).1 = (fileclose right.tables process fd).1 ∧
      ∀ leftEnds rightEnds, SameUse process fd
        { left with tables := (fileclose left.tables process fd).2, ends := leftEnds }
        { right with tables := (fileclose right.tables process fd).2, ends := rightEnds } := by
  have unchanged := same.unchanged
  cases points : left.tables.pftable (process, fd) with
  | none => grind [SameUse, Xk.fileclose]
  | some slot =>
    obtain ⟨-, other, pointsOther, sameFile⟩ := same.file slot points
    have isOther := FileInfo.eq_of_sansPipe sameFile
    have used := FileInfo.unused_iff sameFile
    unfold Xk.fileclose
    rw [points, pointsOther]
    dsimp only
    by_cases noInode : (left.tables.ftable slot).isPipe = false ∧
        (left.tables.ftable slot).iptr = none
    · grind
    · rw [if_neg noInode, if_neg (noInode ∘ used.mp)]
      refine ⟨rfl, fun leftEnds rightEnds => ?_⟩
      refine same.tables ?_ (fun descriptor => ?_) (fun found isFound => ?_) leftEnds rightEnds
      · exact same.state
      · rw [FileTables.unpoint_pftable, FileTables.unpoint_pftable]
        by_cases isFd : (process, descriptor) = (process, fd)
        · rw [isFd, Function.update_self, Function.update_self]
        · grind [SameUse]
      · rw [FileTables.unpoint_pftable, Function.update_self] at isFound
        cases isFound

/-- A use of the descriptor returns the same in both systems. -/
theorem SameUse.uses {use : FdUse} {result : CallResult}
    (uses : left.Uses process fd use result leftAfter) :
    ∃ rightAfter, right.Uses process fd use result rightAfter ∧
      SameUse process fd leftAfter rightAfter := by
  cases use with
  | call call =>
    obtain ⟨⟨began, begins, settles⟩, isIdle, isResult⟩ := uses
    obtain ⟨idle, rightBegan, beginsRight, idleRight, sameResult, sameAfter⟩ := same.callStep begins
    have rests : ∀ {system : CallSystem}, system.call process = .idle →
        (system.call process).holds = none := fun isIdle => by rw [isIdle]; rfl
    obtain rfl := (Settles.rests_iff (rests idle)).mp settles
    refine ⟨rightBegan, ⟨⟨rightBegan, beginsRight, .rests (rests idleRight)⟩, idleRight, ?_⟩,
      sameAfter⟩
    rw [sameResult]
    exact isResult
  | filedup =>
    obtain ⟨steps, isResult⟩ := uses
    obtain ⟨sameValue, sameAfter⟩ := same.filedup
    rw [callStep_filedup] at steps
    split_ifs at steps with ready
    obtain rfl := Option.some_inj.mp steps
    have stepsRight := callStep_filedup right process fd
    rw [if_pos (same.ready.mp ready)] at stepsRight
    exact ⟨_, ⟨stepsRight, by rw [isResult, sameValue]⟩, sameAfter _ _⟩
  | fileclose =>
    obtain ⟨steps, isResult⟩ := uses
    obtain ⟨sameValue, sameAfter⟩ := same.fileclose
    rw [callStep_fileclose] at steps
    split_ifs at steps with ready
    obtain rfl := Option.some_inj.mp steps
    have stepsRight := callStep_fileclose right process fd
    rw [if_pos (same.ready.mp ready)] at stepsRight
    exact ⟨_, ⟨stepsRight, by rw [isResult, sameValue]⟩, sameAfter _ _⟩

/-- All uses of the descriptor return the same in both systems. -/
theorem SameUse.results {uses : List FdUse} {results : List CallResult}
    (gives : left.Results process fd uses results) :
    right.Results process fd uses results := by
  induction gives generalizing right with
  | nil => exact .nil right
  | cons once _ inductionHypothesis =>
    obtain ⟨rightAfter, onceRight, sameAfter⟩ := same.uses once
    exact .cons onceRight (inductionHypothesis sameAfter)

theorem SameUse.symm : SameUse process fd right left where
  fs := same.fs.symm
  state := same.state.symm
  call := same.call.symm
  empty other := (same.empty other).symm
  file slot points := by
    cases pointsLeft : left.tables.pftable (process, fd) with
    | none => grind [SameUse]
    | some other =>
      obtain ⟨notPipe, found, pointsFound, sameFile⟩ := same.file other pointsLeft
      obtain rfl := Option.some_inj.mp (pointsFound.symm.trans points)
      refine ⟨?_, other, rfl, sameFile.symm⟩
      rw [FileInfo.eq_of_sansPipe sameFile]
      exact notPipe

end

end Use

/-! ### Slots that have been closed -/

/-- A slot without references has its offset reset. -/
def CallSystem.OffsetsReset (system : CallSystem) : Prop :=
  ∀ slot, (system.tables.ftable slot).ref = 0 → (system.tables.ftable slot).offset = 0

section Closed

variable {system next : CallSystem}

/-- `fork` changes the counts of the slots only. -/
theorem forkFiles_field {Value : Type} (field : FileInfo → Value)
    (same : ∀ file, field { file with ref := file.ref + 1 } = field file) (tables : FileTables)
    (parent : Fin nproc) (stack : Bool) (slot : Fin nfile) :
    field ((forkFiles tables parent stack).2.ftable slot) = field (tables.ftable slot) := by
  have turns : ∀ child (fds : List (Fin nofile)),
      field ((fds.foldl (forkTurn parent child) tables).ftable slot) =
        field (tables.ftable slot) := fun child fds => by
    refine List.foldlRecOn fds (forkTurn parent child)
      (motive := fun turned => field (turned.ftable slot) = field (tables.ftable slot))
      rfl fun turned kept fd _ => ?_
    unfold forkTurn
    split
    · exact kept
    · rename_i found _
      exact (turned.store_keeps field found (same _) slot).trans kept
  unfold forkFiles
  split
  · rfl
  · grind

/-- An operation on the tables resets the offset of a slot that loses its last reference. -/
theorem CallSystem.OffsetsReset.table (reset : system.OffsetsReset)
    (calls : PipeCallInvariant system) {action : FileAction}
    (frame : TableFrame system action next) (exactly : FilesExact next.tables) :
    next.OffsetsReset := by
  have counted := calls.exact.counted
  have taken := frame.taken
  intro slot unused
  -- a slot that the operation points a descriptor at has a reference
  have pointed : ∀ {descriptor : Descriptor} {found : Fin nfile} {file : FileInfo},
      next.tables = system.tables.point descriptor found file →
        (next.tables.ftable slot).offset = 0 := by
    intro descriptor found file isNext
    by_cases isFound : slot = found
    · have points : next.tables.pftable descriptor = some slot := by
        rw [isNext, isFound, FileTables.point_pftable, Function.update_self]
      have positive := exactly.counted.ref_pos points
      omega
    · have same : next.tables.ftable slot = system.tables.ftable slot := by
        rw [isNext]
        exact Function.update_of_ne isFound _ _
      rw [same] at unused ⊢
      exact reset slot unused
  have unchanged : next.tables.ftable slot = system.tables.ftable slot →
      (next.tables.ftable slot).offset = 0 := fun same => by
    rw [same] at unused ⊢
    exact reset slot unused
  unfold fileStep at taken
  split_ifs at taken with live
  cases action with
  | fileopen process inode mode => grind [fileopen_cases]
  | fileclose process fd =>
    cases points : system.tables.pftable (process, fd) with
    | none => exact unchanged (by rw [fileclose_step_none points frame.taken])
    | some closed =>
      have isNext := counted.fileclose_step points frame.taken
      by_cases isClosed : slot = closed
      · have atSlot : next.tables.ftable slot = (system.tables.ftable closed).closed := by
          rw [isNext, isClosed]
          exact Function.update_self closed _ _
        rw [atSlot] at unused ⊢
        unfold FileInfo.closed at unused ⊢
        split_ifs at unused ⊢ with shared
        · grind
        · rfl
      · refine unchanged ?_
        rw [isNext]
        exact Function.update_of_ne isClosed _ _
  | filedup process fd => grind [filedup_cases]
  | pipe process =>
    dsimp only at taken
    split at taken
    case h_2 => cases taken
    case h_1 ends opened success =>
      obtain ⟨made, isMade⟩ := pipe_made success
      rw [Option.some_inj.mp taken] at isMade
      by_cases isSlot : slot = made
      · have points : next.tables.pftable (process, ends.2) = some slot := by
          rw [isMade.pftable, isSlot, Function.update_self]
        have positive := exactly.counted.ref_pos points
        omega
      · exact unchanged (isMade.others slot isSlot)
  | fork process stack =>
    have isNext := Option.some_inj.mp taken
    rw [← isNext] at unused ⊢
    rw [forkFiles_field FileInfo.offset fun _ => rfl]
    have fewer : (system.tables.ftable slot).ref ≤ _ := (forkFiles_kept process stack slot).ref
    have positive := counted.ref_eq slot
    exact reset slot (by omega)
  | exit process => grind [exitFiles_of_closed, TableFrame]
  | wait process zombie => grind

section

variable {call : FdCall} {fd : Fin nofile} {process : Fin nproc}
  (taken : callStep system (call.action process fd) = some next)
include taken

theorem callStep_ready : system.Ready process := by
  cases call <;> simp only [FdCall.action, callStep] at taken <;>
    split_ifs at taken with ready <;>
    exact ready

/-- A call on a pipe that begins leaves the tables alone. -/
theorem callStep_onPipe {slot : Fin nfile}
    (points : system.tables.pftable (process, fd) = some slot)
    (isPipe : (system.tables.ftable slot).isPipe = true) : next.tables = system.tables := by
  have ready := callStep_ready taken
  cases call with
  | fileread bytesRead =>
    simp only [FdCall.action, callStep, if_pos ready, CallSystem.fileread, points,
      if_pos isPipe] at taken
    split_ifs at taken
    · rw [← Option.some_inj.mp taken]
      rfl
    · cases taken
    · rw [← Option.some_inj.mp taken]
      rfl
  | filewrite data =>
    simp only [FdCall.action, callStep, if_pos ready, CallSystem.filewrite, points,
      if_pos isPipe] at taken
    split_ifs at taken
    · cases taken
    · rw [← Option.some_inj.mp taken]
      rfl
  | filestat =>
    simp only [FdCall.action, callStep, if_pos ready, CallSystem.filestat, points,
      if_pos isPipe] at taken
    split at taken
    · cases taken
    · obtain ⟨⟨stat, fs⟩, -, isNext⟩ := ok_of_bind (ok_of_toOption taken)
      rw [← Except.ok.inj isNext]
      rfl

/-- A call that begins leaves the slots alone that its descriptor does not point at. -/
theorem callStep_call_others {slot : Fin nfile}
    (apart : system.tables.pftable (process, fd) ≠ some slot) :
    next.tables.ftable slot = system.tables.ftable slot := by
  have ready := callStep_ready taken
  cases points : system.tables.pftable (process, fd) with
  | none =>
    rw [callStep_closed ready points, Option.some_inj] at taken
    rw [← taken]
    rfl
  | some on =>
    have different : slot ≠ on := fun same => apart (same ▸ points)
    cases isPipe : (system.tables.ftable on).isPipe with
    | false =>
      rw [callStep_onInode ready points isPipe, Option.map_eq_some_iff] at taken
      obtain ⟨⟨result, fs, offset⟩, -, rfl⟩ := taken
      exact Function.update_of_ne different _ _
    | true => rw [callStep_onPipe taken points isPipe]

end

/-- Only a call that has begun goes on. -/
theorem not_ready_of_turn {process : Fin nproc} (turned : system.turn process = some next) :
    ¬ system.Ready process := by
  intro ready
  have isIdle := ready.2
  unfold CallSystem.turn at turned
  split at turned
  case h_1 => cases turned
  all_goals
    rename_i isCall
    rw [isCall] at isIdle
    cases isIdle

/-- A call that goes on leaves the offsets alone. -/
theorem turn_offset {process : Fin nproc} (turned : system.turn process = some next)
    (slot : Fin nfile) : (next.tables.ftable slot).offset = (system.tables.ftable slot).offset := by
  cases turn_move turned with
  | returned ready | onInode ready => exact absurd ready (not_ready_of_turn turned)
  | beganRead | beganWrite | foundBytes | gaveUp | foundNone | resumedRead | dropped
  | brokenWrite | resumedWrite | endedRead | endedWrite | sleptRead | sleptWrite => rfl
  | copied on | stored on =>
    refine system.tables.store_keeps FileInfo.offset on ?_ slot
    rfl

theorem CallSystem.OffsetsReset.step (reset : system.OffsetsReset)
    (calls : PipeCallInvariant system) {action : CallAction}
    (taken : callStep system action = some next) : next.OffsetsReset := by
  have began : ∀ (call : FdCall) process fd,
      callStep system (call.action process fd) = some next → next.OffsetsReset := by
    intro call process fd taken slot unused
    have sameRef : (next.tables.ftable slot).ref = (system.tables.ftable slot).ref := by
      rcases callStep_cases taken with ⟨_, isTable, _⟩ | ⟨_, _, move, _⟩ | ⟨_, isKill, _⟩
      · cases call <;> cases isTable
      · exact move.frame.ref slot
      · cases call <;> cases isKill
    rw [sameRef] at unused
    have apart : system.tables.pftable (process, fd) ≠ some slot := fun points => by
      have positive := calls.exact.counted.ref_pos points
      omega
    rw [callStep_call_others taken apart]
    exact reset slot unused
  cases action with
  | table tableAction =>
    have nextCalls := calls.step taken
    simp only [callStep] at taken
    split_ifs at taken
    exact reset.table calls (tableStep_frame taken) nextCalls.exact
  | fileread process fd bytesRead => exact began (.fileread bytesRead) process fd taken
  | filewrite process fd data => exact began (.filewrite data) process fd taken
  | filestat process fd => exact began .filestat process fd taken
  | turn process =>
    simp only [callStep] at taken
    split_ifs at taken
    intro slot unused
    rw [turn_offset taken]
    exact reset slot ((turn_move taken).frame.ref slot ▸ unused)
  | kill process =>
    have same : next.tables.ftable = system.tables.ftable := by
      rw [← Option.some_inj.mp taken]
      unfold CallSystem.kill
      dsimp only
      split_ifs
      · rfl
      · rfl
    intro slot unused
    rw [same] at unused ⊢
    exact reset slot unused

theorem CallSystem.OffsetsReset.initial (fs : FileSystem) :
    (CallSystem.initial fs).OffsetsReset := fun _ _ => rfl

end Closed

/-! ### Opening a file in a used slot -/

/-- In a reachable state `fileopen` points an empty descriptor of the process at a slot. -/
structure CallSystem.Opens (system : CallSystem) (process : Fin nproc) (ip : InodePtr) (mode : Int)
    (fd : Fin nofile) (slot : Fin nfile) (opened : CallSystem) : Prop where
  reached : ∃ fs actions, run callStep (.initial fs) actions = some system
  taken : callStep system (.table (.fileopen process (some ip) mode)) = some opened
  empty : system.tables.pftable (process, fd) = none
  points : opened.tables.pftable (process, fd) = some slot

/-- Two states in which a process sees the same files, and has the same descriptors in use. -/
structure CallSystem.SameView (process : Fin nproc) (left right : CallSystem) : Prop where
  fs : left.fs = right.fs
  state : left.tables.state process = right.tables.state process
  empty : ∀ fd, left.tables.pftable (process, fd) = none ↔
    right.tables.pftable (process, fd) = none

section Opens

variable {system opened : CallSystem} {process : Fin nproc} {ip : InodePtr} {mode : Int}
  {fd : Fin nofile} {slot : Fin nfile}

/-- What holds in every reachable state. -/
theorem CallSystem.Opens.invariant (opens : system.Opens process ip mode fd slot opened) :
    PipeCallInvariant system ∧ system.OffsetsReset := by
  obtain ⟨fs, actions, runs⟩ := opens.reached
  refine run_invariant (fun system => PipeCallInvariant system ∧ system.OffsetsReset)
    (fun system action next taken both => ?_) runs ⟨.initial fs, .initial fs⟩
  exact ⟨both.1.step taken, both.2.step both.1 taken⟩

theorem fileopen_points {tables : FileTables} (empty : tables.pftable (process, fd) = none)
    (points : (fileopen tables process (some ip) mode).2.pftable (process, fd) = some slot) :
    tables.freeSlot = some slot ∧ (fileopen tables process (some ip) mode).2 =
      tables.point (process, fd) slot { tables.ftable slot with
        ref := 1, iptr := some ip, accessPermission := mode } := by
  have notEmpty : ¬ tables.pftable (process, fd) = some slot := by grind
  unfold fileopen at points ⊢
  dsimp only at points ⊢
  split_ifs at points ⊢
  · exact absurd points notEmpty
  · split at points
    case h_1 => exact absurd points notEmpty
    case h_2 found free =>
      split at points
      case h_1 => exact absurd points notEmpty
      case h_2 place isFree =>
        dsimp only at points ⊢
        rw [FileTables.point_pftable] at points
        by_cases same : (process, fd) = (process, found)
        · grind
        · grind

/-- The file in the slot is new but for the flag and the buffer of a pipe. -/
theorem CallSystem.Opens.isOpened (opens : system.Opens process ip mode fd slot opened) :
    system.Ready process ∧ opened = { system with
      tables := system.tables.point (process, fd) slot { system.tables.ftable slot with
        ref := 1, iptr := some ip, offset := 0, accessPermission := mode } } := by
  have taken := opens.taken
  simp only [callStep, CallSystem.tableStep, fileStep] at taken
  split_ifs at taken with ready live
  · have isNext := Option.some_inj.mp taken
    obtain ⟨isFree, isTables⟩ := fileopen_points opens.empty (by
      have points := opens.points
      rw [← isNext] at points
      exact points)
    refine ⟨ready, ?_⟩
    rw [← opens.invariant.2 slot (freeSlot_eq_some isFree), ← isNext, isTables]
    rfl
  · cases taken

/-- Opened in a slot that no pipe had, the descriptor is the same for its process. -/
theorem CallSystem.SameView.sameUse {left right leftOpened rightOpened : CallSystem}
    {leftSlot rightSlot : Fin nfile} (same : SameView process left right)
    (leftOpens : left.Opens process ip mode fd leftSlot leftOpened)
    (rightOpens : right.Opens process ip mode fd rightSlot rightOpened)
    (leftFile : (left.tables.ftable leftSlot).isPipe = false)
    (rightFile : (right.tables.ftable rightSlot).isPipe = false) :
    SameUse process fd leftOpened rightOpened := by
  obtain ⟨leftReady, rfl⟩ := leftOpens.isOpened
  obtain ⟨rightReady, rfl⟩ := rightOpens.isOpened
  have idle : ∀ {system : CallSystem}, system.Ready process → system.call process = .idle :=
    fun {system} ready => by
      have noSlot := ready.2
      cases isCall : system.call process with
      | idle => rfl
      | _ =>
        rw [isCall] at noSlot
        cases noSlot
  refine ⟨same.fs, same.state, (idle leftReady).trans (idle rightReady).symm, fun other => ?_,
    fun slot points => ?_⟩
  · simp only [FileTables.point_pftable]
    by_cases isFd : (process, other) = (process, fd)
    · grind
    · grind [CallSystem.SameView]
  · simp only [FileTables.point_pftable, Function.update_self, Option.some_inj] at points
    subst points
    simp only [FileTables.point_ftable_self, FileTables.point_pftable, Function.update_self]
    exact ⟨leftFile, rightSlot, rfl, by
      simp only [FileTables.point_ftable_self, FileInfo.sansPipe, leftFile, rightFile]⟩

/-- Where nobody else has a descriptor, a write that has begun on a pipe returns nothing but `-1`.
-/
theorem Settles.writing_alone {final : CallSystem} (settles : Settles process system final)
    {write : PipeWrite} {byte : UInt8} {rest : List UInt8}
    (isCall : system.call process = .writing slot write (byte :: rest))
    (alone : (system.tables.ftable slot).ref = 1) (isIdle : final.call process = .idle) :
    final.result process = some ⟨-1, [], none⟩ := by
  cases settles with
  | rests idle =>
    rw [isCall] at idle
    cases idle
  | turns busy turned settles =>
    simp only [callStep] at turned
    split_ifs at turned
    simp only [CallSystem.turn, isCall, CallSystem.writeTurn, if_pos alone] at turned
    split_ifs at turned with full
    · rw [← Option.some_inj.mp turned, Settles.rests_iff (sleep_holds _ process slot rfl)]
        at settles
      rw [settles] at isIdle
      simp only [CallSystem.sleep, CallSystem.setState, CallSystem.setCall, CallSystem.release,
        Function.update_self] at isIdle
      cases isIdle
    · rw [← Option.some_inj.mp turned, Settles.rests_iff (finish_holds _ process _)] at settles
      rw [settles]
      exact Function.update_self process _ _

/-- Opened in a slot that a pipe had, no write of a byte returns anything but `-1`. -/
theorem CallSystem.Opens.write_broken (opens : system.Opens process ip mode fd slot opened)
    (isPipe : (system.tables.ftable slot).isPipe = true) {data : List UInt8} (someData : data ≠ [])
    {result : CallResult} {after : CallSystem}
    (uses : opened.Uses process fd (.call (.filewrite data)) result after) :
    result = ⟨-1, [], none⟩ := by
  obtain ⟨⟨began, begins, settles⟩, isIdle, isResult⟩ := uses
  have isFile : opened.tables.ftable slot = { system.tables.ftable slot with
      ref := 1, iptr := some ip, offset := 0, accessPermission := mode } := by
    rw [opens.isOpened.2]
    exact FileTables.point_ftable_self _ _ _ _
  simp only [FdCall.action, callStep, CallSystem.filewrite, opens.points] at begins
  split_ifs at begins with ready isInode held
  · cases begins
  · rw [← Option.some_inj.mp begins] at settles
    cases data with
    | nil => exact absurd rfl someData
    | cons byte rest =>
      have broken := settles.writing_alone (Function.update_self process _ _)
        (show (opened.tables.ftable slot).ref = 1 by rw [isFile]) isIdle
      exact Option.some_inj.mp (isResult.symm.trans broken)
  · grind

/-- The calls on a descriptor that has just been opened return the same whatever the slot was used
for before, except for a pipe: then every write of a byte that returns has failed. -/
theorem fileopen_slot_history {left right leftOpened rightOpened : CallSystem}
    {leftSlot rightSlot : Fin nfile} (same : CallSystem.SameView process left right)
    (leftOpens : left.Opens process ip mode fd leftSlot leftOpened)
    (rightOpens : right.Opens process ip mode fd rightSlot rightOpened)
    (rightFile : (right.tables.ftable rightSlot).isPipe = false) :
    ((left.tables.ftable leftSlot).isPipe = false → ∀ uses results,
      leftOpened.Results process fd uses results ↔ rightOpened.Results process fd uses results) ∧
    ((left.tables.ftable leftSlot).isPipe = true → ∀ data result, data ≠ [] →
      leftOpened.Results process fd [.call (.filewrite data)] [result] →
        result = ⟨-1, [], none⟩) := by
  constructor
  · intro leftFile uses results
    have sameUse := same.sameUse leftOpens rightOpens leftFile rightFile
    exact ⟨sameUse.results, sameUse.symm.results⟩
  · intro isPipe data result someData gives
    cases gives with
    | cons uses => exact leftOpens.write_broken isPipe someData uses

end Opens

/-- A file system with a device in its first inode, which takes all bytes that are written to it. -/
def FileSystem.console : FileSystem := { FileSystem.blank with
  devsw := ⟨fun _ => none, fun _ => some fun bytes => bytes.length⟩
  inode := fun _ => { Inode.zero with ref := 1, valid := true, type := tDev } }

/-- The device is opened in a slot that nobody used, and in one that was used for the device. -/
theorem fileopen_slot_history_reopened : ∃ left right leftOpened rightOpened,
    run callStep (.initial .console)
      [.table (.fileopen 0 (some 0) oRdwr), .table (.fileclose 0 0)] = some left ∧
    run callStep (.initial .console) [] = some right ∧
    left.Opens 0 0 oRdwr 0 0 leftOpened ∧ right.Opens 0 0 oRdwr 0 0 rightOpened ∧
    ∀ uses results, leftOpened.Results 0 0 uses results ↔ rightOpened.Results 0 0 uses results := by
  have leftRuns : run callStep (.initial .console)
      [.table (.fileopen 0 (some 0) oRdwr), .table (.fileclose 0 0)] = some _ := rfl
  have rightRuns : run callStep (.initial .console) [] = some _ := rfl
  have leftOpens : CallSystem.Opens _ 0 0 oRdwr 0 0 _ := ⟨⟨_, _, leftRuns⟩, rfl, rfl, rfl⟩
  have rightOpens : CallSystem.Opens _ 0 0 oRdwr 0 0 _ := ⟨⟨_, _, rightRuns⟩, rfl, rfl, rfl⟩
  refine ⟨_, _, _, _, leftRuns, rightRuns, leftOpens, rightOpens, ?_⟩
  refine (fileopen_slot_history ?_ leftOpens rightOpens rfl).1 rfl
  exact ⟨rfl, rfl, by decide +kernel⟩

/-- The device is opened in a slot that nobody used, and in one that a pipe had: the first takes a
byte and the second does not. -/
theorem fileopen_afterPipe : ∃ left right leftOpened rightOpened,
    run callStep (.initial .console)
      [.table (.pipe 0), .table (.fileclose 0 0), .table (.fileclose 0 1)] = some left ∧
    run callStep (.initial .console) [] = some right ∧ CallSystem.SameView 0 left right ∧
    left.Opens 0 0 oRdwr 0 0 leftOpened ∧ right.Opens 0 0 oRdwr 0 0 rightOpened ∧
    rightOpened.Results 0 0 [.call (.filewrite [65])] [⟨1, [], none⟩] ∧
    ¬ leftOpened.Results 0 0 [.call (.filewrite [65])] [⟨1, [], none⟩] ∧
    leftOpened.Results 0 0 [.call (.filewrite [65])] [⟨-1, [], none⟩] := by
  have leftRuns : run callStep (.initial .console)
      [.table (.pipe 0), .table (.fileclose 0 0), .table (.fileclose 0 1)] = some _ := rfl
  have rightRuns : run callStep (.initial .console) [] = some _ := rfl
  have leftOpens : CallSystem.Opens _ 0 0 oRdwr 0 0 _ := ⟨⟨_, _, leftRuns⟩, rfl, rfl, rfl⟩
  have rightOpens : CallSystem.Opens _ 0 0 oRdwr 0 0 _ := ⟨⟨_, _, rightRuns⟩, rfl, rfl, rfl⟩
  refine ⟨_, _, _, _, leftRuns, rightRuns, ⟨rfl, rfl, by decide +kernel⟩, leftOpens, rightOpens,
    ?_, ?_, ?_⟩
  · exact .cons ⟨⟨_, rfl, .rests rfl⟩, rfl, rfl⟩ (.nil _)
  · rintro (_ | ⟨uses, _⟩)
    exact nomatch leftOpens.write_broken rfl (List.cons_ne_nil _ _) uses
  · exact .cons ⟨⟨_, rfl, .turns (by decide +kernel) rfl (.rests rfl)⟩, rfl, rfl⟩ (.nil _)

end Xk
