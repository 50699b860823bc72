/-
This file says once what a step of a call on a descriptor can do, and derives what every step keeps
alike: descriptors, reference counts and the calls of other processes stay as they are, and the
only states that change are those of the process and of those it wakes. The invariant that the later
proofs share is that a process in a call on a pipe has a descriptor on it, that a call which should
have the lock has it, and that only a call sleeps.
-/

import Xk.FileReferences
import Xk.PipeCalls

namespace Xk

open Outcome

variable {bytesRead : Int} {fd : Fin nofile} {process : Fin nproc} {system : CallSystem}

/-! ### The moves -/

/-- What a step of a call by a process does. -/
inductive CallMove (system : CallSystem) (process : Fin nproc) : CallSystem → Prop
  /-- A call returns at once, or after it has asked an inode. -/
  | returned (ready : system.Ready process) (fs : FileSystem) (result : CallResult) :
      CallMove system process ({ system with fs := fs }.finish process result)
  /-- A call on an inode moves the offset. -/
  | onInode (ready : system.Ready process) (slot : Fin nfile) (fs : FileSystem) (offset : Int)
      (result : CallResult) :
      CallMove system process
        ({ system with
          fs := fs
          tables := system.tables.store slot
            { system.tables.ftable slot with offset := offset } }.finish process result)
  | beganRead (ready : system.Ready process) (fd : Fin nofile) (slot : Fin nfile)
      (points : system.tables.pftable (process, fd) = some slot)
      (free : system.holder slot = none) (bytesRead : Int) :
      CallMove system process
        ((system.acquire process slot).setCall process (.reading slot bytesRead))
  | beganWrite (ready : system.Ready process) (fd : Fin nofile) (slot : Fin nfile)
      (points : system.tables.pftable (process, fd) = some slot)
      (free : system.holder slot = none) (data : List UInt8) :
      CallMove system process
        (({ system with writes := system.writes + 1 }.acquire process slot).setCall process
          (.writing slot ⟨system.writes, data⟩ data))
  | foundBytes (slot : Fin nfile) (bytesRead : Int)
      (isCall : system.call process = .reading slot bytesRead) :
      CallMove system process (system.setCall process (.copying slot bytesRead []))
  | gaveUp (slot : Fin nfile) (bytesRead : Int)
      (isCall : system.call process = .reading slot bytesRead)
      (empty : (system.pipeAt slot).head = (system.pipeAt slot).tail) (result : CallResult) :
      CallMove system process ((system.release slot).finish process result)
  | foundNone (slot : Fin nfile) (bytesRead : Int)
      (isCall : system.call process = .reading slot bytesRead)
      (empty : (system.pipeAt slot).head = (system.pipeAt slot).tail) :
      CallMove system process (system.setCall process (.emptied slot bytesRead))
  | sleptRead (slot : Fin nfile) (bytesRead : Int)
      (isCall : system.call process = .emptied slot bytesRead) :
      CallMove system process
        ((system.wakeup (.write slot)).sleep process slot (.readAsleep slot bytesRead))
  | resumedRead (slot : Fin nfile) (bytesRead : Int)
      (isCall : system.call process = .readAsleep slot bytesRead)
      (free : system.holder slot = none) :
      CallMove system process
        ((system.acquire process slot).setCall process (.reading slot bytesRead))
  | dropped (slot : Fin nfile) (bytesRead : Int) (bytes : List UInt8)
      (isCall : system.call process = .copying slot bytesRead bytes)
      (killed : system.killed process = true) :
      CallMove system process (system.finish process ⟨-1, bytes, none⟩)
  | endedRead (slot : Fin nfile) (bytesRead : Int) (bytes : List UInt8)
      (isCall : system.call process = .copying slot bytesRead bytes) :
      CallMove system process (system.endRead process slot bytes)
  | copied (slot : Fin nfile) (bytesRead : Int) (bytes : List UInt8)
      (isCall : system.call process = .copying slot bytesRead bytes)
      (filled : (system.pipeAt slot).head ≠ (system.pipeAt slot).tail) (place : Fin pipeSize)
      (isPlace : pipePlace (system.pipeAt slot).head = some place) :
      CallMove system process
        (system.copyByte process slot bytesRead bytes ((system.pipeAt slot).buf place))
  | endedWrite (slot : Fin nfile) (write : PipeWrite)
      (isCall : system.call process = .writing slot write []) :
      CallMove system process (system.endWrite process slot write)
  | sleptWrite (slot : Fin nfile) (write : PipeWrite) (rest : List UInt8)
      (isCall : system.call process = .writing slot write rest) (left : rest ≠ [])
      (full : (system.pipeAt slot).Full) :
      CallMove system process
        ((system.wakeup (.read slot)).sleep process slot (.writeAsleep slot write rest))
  | brokenWrite (slot : Fin nfile) (write : PipeWrite) (rest : List UInt8)
      (isCall : system.call process = .writing slot write rest)
      (ref : (system.tables.ftable slot).ref = 1) :
      CallMove system process ((system.release slot).finish process ⟨-1, [], none⟩)
  | stored (slot : Fin nfile) (write : PipeWrite) (byte : UInt8) (rest : List UInt8)
      (isCall : system.call process = .writing slot write (byte :: rest))
      (notFull : ¬ (system.pipeAt slot).Full) (shared : (system.tables.ftable slot).ref ≠ 1)
      (place : Fin pipeSize) (isPlace : pipePlace (system.pipeAt slot).tail = some place) :
      CallMove system process (system.storeByte process slot write byte rest place)
  | resumedWrite (slot : Fin nfile) (write : PipeWrite) (rest : List UInt8)
      (isCall : system.call process = .writeAsleep slot write rest)
      (free : system.holder slot = none) :
      CallMove system process
        ((system.acquire process slot).setCall process (.writing slot write rest))

section Inversion

variable {system next : CallSystem} {process : Fin nproc}

theorem readTurn_move {slot : Fin nfile} (isCall : system.call process = .reading slot bytesRead) :
    CallMove system process (system.readTurn process slot bytesRead) := by
  unfold CallSystem.readTurn
  dsimp only
  split_ifs with filled killed alone
  · exact .foundBytes slot bytesRead isCall
  · exact .gaveUp slot bytesRead isCall (not_not.mp filled) _
  · exact .gaveUp slot bytesRead isCall (not_not.mp filled) _
  · exact .foundNone slot bytesRead isCall (not_not.mp filled)

theorem copyTurn_move {slot : Fin nfile} {bytes : List UInt8}
    (isCall : system.call process = .copying slot bytesRead bytes)
    (turned : system.copyTurn process slot bytesRead bytes = some next) :
    CallMove system process next := by
  unfold CallSystem.copyTurn at turned
  dsimp only at turned
  split_ifs at turned with wanted killed empty
  · rw [← Option.some_inj.mp turned]
    exact .dropped slot bytesRead bytes isCall killed
  · rw [← Option.some_inj.mp turned]
    exact .endedRead slot bytesRead bytes isCall
  · obtain ⟨place, isPlace, isNext⟩ := Option.map_eq_some_iff.mp turned
    rw [← isNext]
    exact .copied slot bytesRead bytes isCall empty place isPlace
  · rw [← Option.some_inj.mp turned]
    exact .endedRead slot bytesRead bytes isCall

theorem writeTurn_move {slot : Fin nfile} {write : PipeWrite} {rest : List UInt8}
    (isCall : system.call process = .writing slot write rest)
    (turned : system.writeTurn process slot write rest = some next) :
    CallMove system process next := by
  cases rest with
  | nil =>
    rw [← Option.some_inj.mp turned]
    exact .endedWrite slot write isCall
  | cons byte rest =>
    unfold CallSystem.writeTurn at turned
    dsimp only at turned
    split_ifs at turned with full alone
    · rw [← Option.some_inj.mp turned]
      exact .sleptWrite slot write (byte :: rest) isCall (List.cons_ne_nil _ _) full
    · rw [← Option.some_inj.mp turned]
      exact .brokenWrite slot write (byte :: rest) isCall alone
    · obtain ⟨place, isPlace, isNext⟩ := Option.map_eq_some_iff.mp turned
      rw [← isNext]
      exact .stored slot write byte rest isCall full alone place isPlace

theorem turn_move (turned : system.turn process = some next) : CallMove system process next := by
  unfold CallSystem.turn at turned
  cases isCall : system.call process with
  | idle => simp only [isCall, reduceCtorEq] at turned
  | reading slot bytesRead => grind [readTurn_move]
  | emptied slot bytesRead =>
    simp only [isCall, Option.some_inj] at turned
    rw [← turned]
    exact .sleptRead slot bytesRead isCall
  | readAsleep slot bytesRead =>
    simp only [isCall, CallSystem.resume] at turned
    split_ifs at turned with free
    rw [← Option.some_inj.mp turned]
    exact .resumedRead slot bytesRead isCall free
  | copying slot bytesRead bytes => grind [copyTurn_move]
  | writing slot write rest => grind [writeTurn_move]
  | writeAsleep slot write rest =>
    simp only [isCall, CallSystem.resume] at turned
    split_ifs at turned with free
    rw [← Option.some_inj.mp turned]
    exact .resumedWrite slot write rest isCall free

theorem filereadInode_file {opened after : OpenFile} {result : Int × List UInt8}
    (isRead : filereadInode opened bytesRead = .ok (result, after)) :
    ∃ offset, after.file = { opened.file with offset := offset } := by
  unfold filereadInode at isRead
  split at isRead
  · rw [← (ok_pair isRead).2]
    exact ⟨_, rfl⟩
  · split_ifs at isRead with refused
    · rw [← (ok_pair isRead).2]
      exact ⟨_, rfl⟩
    · obtain ⟨pair, _, returned⟩ := ok_of_bind isRead
      rw [← (ok_pair returned).2]
      exact ⟨_, rfl⟩

theorem filewriteInode_file {opened after : OpenFile} {buf : List UInt8} {bytesWritten result : Int}
    (isWritten : filewriteInode opened buf bytesWritten = .ok (result, after)) :
    after.file = opened.file := by
  unfold filewriteInode at isWritten
  split at isWritten
  · rw [← (ok_pair isWritten).2]
  · split_ifs at isWritten with refused
    · rw [← (ok_pair isWritten).2]
    · obtain ⟨pair, _, returned⟩ := ok_of_bind isWritten
      rw [← (ok_pair returned).2]

theorem fileread_move (ready : system.Ready process)
    (began : system.fileread process fd bytesRead = .ok next) : CallMove system process next := by
  unfold CallSystem.fileread at began
  cases points : system.tables.pftable (process, fd) with
  | none =>
    simp only [points, Except.ok.injEq] at began
    rw [← began]
    exact .returned ready system.fs _
  | some slot =>
    simp only [points] at began
    split_ifs at began with isPipe wrongEnd held
    · rw [← Except.ok.inj began]
      exact .returned ready system.fs _
    · rw [← Except.ok.inj began]
      exact .beganRead ready fd slot points (not_not.mp held) bytesRead
    · obtain ⟨⟨result, after⟩, isRead, returned⟩ := ok_of_bind began
      obtain ⟨offset, isFile⟩ := filereadInode_file isRead
      rw [← Except.ok.inj returned, isFile]
      exact .onInode ready slot after.fs offset _

theorem filewrite_move {data : List UInt8} (ready : system.Ready process)
    (began : system.filewrite process fd data = .ok next) : CallMove system process next := by
  unfold CallSystem.filewrite at began
  cases points : system.tables.pftable (process, fd) with
  | none =>
    simp only [points, Except.ok.injEq] at began
    rw [← began]
    exact .returned ready system.fs _
  | some slot =>
    simp only [points] at began
    split_ifs at began with isPipe held
    · rw [← Except.ok.inj began]
      exact .beganWrite ready fd slot points (not_not.mp held) data
    · obtain ⟨⟨result, after⟩, isWritten, returned⟩ := ok_of_bind began
      have isFile : after.file = { system.tables.ftable slot with
          offset := (system.tables.ftable slot).offset } := filewriteInode_file isWritten
      rw [← Except.ok.inj returned, isFile]
      exact .onInode ready slot after.fs _ _

theorem filestat_move (ready : system.Ready process) (began : system.filestat process fd = .ok next)
    : CallMove system process next := by
  unfold CallSystem.filestat at began
  cases points : system.tables.pftable (process, fd) with
  | none =>
    simp only [points, Except.ok.injEq] at began
    rw [← began]
    exact .returned ready system.fs _
  | some slot =>
    simp only [points] at began
    split at began
    · split_ifs at began
      rw [← Except.ok.inj began]
      exact .returned ready system.fs _
    · obtain ⟨⟨stat, fs⟩, _, returned⟩ := ok_of_bind began
      rw [← Except.ok.inj returned]
      exact .returned ready fs _

/-- A step is an operation on the tables, a step of a call by a process that is awake, or a
`kill`. -/
theorem callStep_cases {action : CallAction} (taken : callStep system action = some next) :
    (∃ tableAction, action = .table tableAction ∧ system.Ready tableAction.caller ∧
        system.tableStep tableAction = some next) ∨
      (∃ process, (system.tables.state process).Awake ∧ CallMove system process next ∧
        ((system.call process).slot ≠ none → action = .turn process)) ∨
      ∃ process, action = .kill process ∧ next = system.kill process := by
  cases action with
  | table tableAction => grind [callStep]
  | fileread process fd bytesRead =>
    simp only [callStep] at taken
    split_ifs at taken with ready
    exact Or.inr (Or.inl ⟨process, ready.1, fileread_move ready (ok_of_toOption taken),
      fun inCall => absurd ready.2 inCall⟩)
  | filewrite process fd data =>
    simp only [callStep] at taken
    split_ifs at taken with ready
    exact Or.inr (Or.inl ⟨process, ready.1, filewrite_move ready (ok_of_toOption taken),
      fun inCall => absurd ready.2 inCall⟩)
  | filestat process fd =>
    simp only [callStep] at taken
    split_ifs at taken with ready
    exact Or.inr (Or.inl ⟨process, ready.1, filestat_move ready (ok_of_toOption taken),
      fun inCall => absurd ready.2 inCall⟩)
  | turn process => grind [callStep, turn_move]
  | kill process => exact Or.inr (Or.inr ⟨process, rfl, (Option.some_inj.mp taken).symm⟩)

end Inversion

/-! ### What every move keeps -/

/-- A slot that is stored again with the same value of a field has it everywhere. -/
theorem FileTables.store_keeps {Value : Type} (field : FileInfo → Value) (tables : FileTables)
    (slot : Fin nfile) {file : FileInfo} (same : field file = field (tables.ftable slot))
    (other : Fin nfile) :
    field ((tables.store slot file).ftable other) = field (tables.ftable other) := by
  show field (Function.update tables.ftable slot file other) = _
  by_cases isSlot : other = slot
  · rw [isSlot, Function.update_self, same]
  · rw [Function.update_of_ne isSlot]

/-- The parts of a slot that a call only reads. -/
def FileInfo.fixed (file : FileInfo) : Int × Option InodePtr × Bool × Int × Int :=
  (file.ref, file.iptr, file.isPipe, file.pipeBuffer.readFd, file.pipeBuffer.writeFd)

/-- What a step of a call keeps of the whole system. -/
structure CallFrame (system : CallSystem) (process : Fin nproc) (next : CallSystem) : Prop where
  pftable : next.tables.pftable = system.tables.pftable
  fixed : ∀ slot, (next.tables.ftable slot).fixed = (system.tables.ftable slot).fixed
  ends : next.ends = system.ends
  killed : next.killed = system.killed
  calls : ∀ other, other ≠ process → next.call other = system.call other
  states : ∀ other, other ≠ process →
    next.tables.state other = system.tables.state other ∨
      system.tables.state other = .sleeping ∧ next.tables.state other = .runnable

section Frame

variable {system next : CallSystem} {process : Fin nproc}

theorem CallFrame.ref (frame : CallFrame system process next) (slot : Fin nfile) :
    (next.tables.ftable slot).ref = (system.tables.ftable slot).ref :=
  congrArg Prod.fst (frame.fixed slot)

theorem wakeup_states (system : CallSystem) (chan : PipeChan) (other : Fin nproc) :
    (system.wakeup chan).tables.state other = system.tables.state other ∨
      system.tables.state other = .sleeping ∧
        (system.wakeup chan).tables.state other = .runnable := by
  show (if _ then _ else _) = _ ∨ _ ∧ (if _ then _ else _) = _
  split_ifs with woken
  · exact Or.inr ⟨woken.1, rfl⟩
  · exact Or.inl rfl

theorem CallMove.frame (move : CallMove system process next) : CallFrame system process next := by
  cases move with
  | returned | beganRead | beganWrite | foundBytes | gaveUp | foundNone | resumedRead | dropped
  | brokenWrite | resumedWrite =>
    exact ⟨rfl, fun _ => rfl, rfl, rfl, fun _ different => Function.update_of_ne different _ _,
      fun _ _ => Or.inl rfl⟩
  | onInode _ slot | copied slot | stored slot =>
    exact ⟨rfl, system.tables.store_keeps FileInfo.fixed slot rfl, rfl, rfl,
      fun _ different => Function.update_of_ne different _ _, fun _ _ => Or.inl rfl⟩
  | endedRead slot =>
    exact ⟨rfl, fun _ => rfl, rfl, rfl, fun _ different => Function.update_of_ne different _ _,
      fun other _ => wakeup_states system (.write slot) other⟩
  | endedWrite slot =>
    exact ⟨rfl, fun _ => rfl, rfl, rfl, fun _ different => Function.update_of_ne different _ _,
      fun other _ => wakeup_states system (.read slot) other⟩
  | sleptRead slot =>
    refine ⟨rfl, fun _ => rfl, rfl, rfl, fun _ different => Function.update_of_ne different _ _,
      fun other different => ?_⟩
    rw [show ∀ call, ((system.wakeup (.write slot)).sleep process slot call).tables.state other =
      (system.wakeup (.write slot)).tables.state other from
        fun call => Function.update_of_ne different _ _]
    exact wakeup_states system (.write slot) other
  | sleptWrite slot =>
    refine ⟨rfl, fun _ => rfl, rfl, rfl, fun _ different => Function.update_of_ne different _ _,
      fun other different => ?_⟩
    rw [show ∀ call, ((system.wakeup (.read slot)).sleep process slot call).tables.state other =
      (system.wakeup (.read slot)).tables.state other from
        fun call => Function.update_of_ne different _ _]
    exact wakeup_states system (.read slot) other

/-- A step leaves a process on the pipe it was on, or brings it to one it has a descriptor for. -/
theorem CallMove.slot (move : CallMove system process next) {slot : Fin nfile}
    (isOn : (next.call process).slot = some slot) :
    (system.call process).slot = some slot ∨
      ∃ fd, system.tables.pftable (process, fd) = some slot := by
  have onCall : ∀ call : PipeCall,
      (Function.update system.call process call process).slot = some slot →
        call.slot = some slot := fun call isOn => by
    grind
  cases move with
  | returned | onInode | gaveUp | dropped | endedRead | endedWrite | brokenWrite =>
    exact nomatch onCall .idle isOn
  | beganRead _ fd on points | beganWrite _ fd on points =>
    obtain rfl : on = slot := Option.some_inj.mp (onCall _ isOn)
    exact Or.inr ⟨fd, points⟩
  | foundBytes _ _ isCall | foundNone _ _ isCall | sleptRead _ _ isCall | resumedRead _ _ isCall
  | copied _ _ _ isCall | sleptWrite _ _ _ isCall | stored _ _ _ _ isCall
  | resumedWrite _ _ _ isCall =>
    have isSlot := onCall _ isOn
    left
    rw [isCall]
    exact isSlot

/-- A process that is awake stays in its state or goes to sleep in a call. -/
theorem CallMove.state (move : CallMove system process next)
    (awake : (system.tables.state process).Awake) :
    next.tables.state process = system.tables.state process ∨
      next.tables.state process = .sleeping ∧ (next.call process).chan ≠ none := by
  have notAsleep : system.tables.state process ≠ .sleeping := by
    rcases awake with runnable | running
    · rw [runnable]
      decide
    · rw [running]
      decide
  have stays : ∀ chan,
      (system.wakeup chan).tables.state process = system.tables.state process := fun chan =>
    (wakeup_states system chan process).resolve_right fun woken => notAsleep woken.1
  cases move with
  | returned | onInode | beganRead | beganWrite | foundBytes | gaveUp | foundNone | resumedRead
  | dropped | copied | brokenWrite | stored | resumedWrite => exact Or.inl rfl
  | endedRead | endedWrite => exact Or.inl (stays _)
  | sleptRead | sleptWrite =>
    refine Or.inr ⟨Function.update_self process _ _, ?_⟩
    rw [show ∀ call, ((system.wakeup _).sleep process _ call).call process = call from
      fun call => Function.update_self process _ _]
    exact Option.some_ne_none _

/-- What a step does to the locks. -/
inductive LockMove (system : CallSystem) (process : Fin nproc) (next : CallSystem) : Prop
  | kept (same : next.holder = system.holder)
      (holds : (next.call process).holds = (system.call process).holds ∨
        (next.call process).holds = none)
  | acquired (slot : Fin nfile) (free : system.holder slot = none)
      (taken : next.holder = Function.update system.holder slot (some process))
      (holds : (next.call process).holds = some slot)
  | released (slot : Fin nfile) (held : (system.call process).holds = some slot)
      (given : next.holder = Function.update system.holder slot none)
      (holds : (next.call process).holds = none)

theorem CallMove.lock (move : CallMove system process next) : LockMove system process next := by
  have holds : ∀ call : PipeCall, (Function.update system.call process call process).holds =
      call.holds := fun call => by rw [Function.update_self]
  cases move with
  | returned | onInode | dropped => exact .kept rfl (Or.inr (holds .idle))
  | beganRead _ _ slot _ free | resumedRead slot _ _ free | beganWrite _ _ slot _ free
  | resumedWrite slot _ _ _ free => exact .acquired slot free rfl (holds _)
  | foundBytes slot bytesRead isCall | foundNone slot bytesRead isCall
  | copied slot bytesRead _ isCall | stored slot _ _ _ isCall =>
    refine .kept rfl (Or.inl ?_)
    rw [isCall]
    exact holds _
  | gaveUp slot bytesRead isCall | sleptRead slot bytesRead isCall
  | endedRead slot bytesRead bytes isCall | endedWrite slot write isCall
  | sleptWrite slot write rest isCall | brokenWrite slot write rest isCall =>
    refine .released slot ?_ rfl (holds _)
    rw [isCall]
    rfl

end Frame

/-! ### What operations on the tables keep -/

/-- A slot that keeps its pipe and loses no reference. -/
structure SlotKept (before after : FileInfo) : Prop where
  pipeBuffer : after.pipeBuffer = before.pipeBuffer
  isPipe : before.isPipe = true → after.isPipe = true
  ref : before.ref ≤ after.ref

theorem SlotKept.refl (file : FileInfo) : SlotKept file file := ⟨rfl, id, le_rfl⟩

theorem SlotKept.trans {first second third : FileInfo} (left : SlotKept first second)
    (right : SlotKept second third) : SlotKept first third :=
  ⟨right.pipeBuffer.trans left.pipeBuffer, right.isPipe ∘ left.isPipe, left.ref.trans right.ref⟩

section Tables

variable {tables after : FileTables}

theorem SlotKept.point {descriptor : Descriptor} {slot : Fin nfile} {file : FileInfo}
    (kept : SlotKept (tables.ftable slot) file) (other : Fin nfile) :
    SlotKept (tables.ftable other) ((tables.point descriptor slot file).ftable other) := by
  show SlotKept _ (Function.update tables.ftable slot file other)
  by_cases same : other = slot
  · grind
  · rw [Function.update_of_ne same]
    exact .refl _

theorem forkFiles_kept (parent : Fin nproc) (stack : Bool) (slot : Fin nfile) :
    SlotKept (tables.ftable slot) ((forkFiles tables parent stack).2.ftable slot) := by
  have turns : ∀ child (fds : List (Fin nofile)), SlotKept (tables.ftable slot)
      ((fds.foldl (forkTurn parent child) tables).ftable slot) := fun child fds => by
    refine List.foldlRecOn fds (forkTurn parent child)
      (motive := fun turned => SlotKept (tables.ftable slot) (turned.ftable slot))
      (.refl _) fun turned kept fd _ => kept.trans ?_
    unfold forkTurn
    split
    · exact .refl _
    · refine SlotKept.point ?_ slot
      exact ⟨rfl, id, Int.le_add_of_nonneg_right zero_le_one⟩
  unfold forkFiles
  split
  · exact .refl _
  · split_ifs
    · exact .refl _
    · exact turns _ _

/-- What a successful `pipe` does. -/
structure PipeMade (tables : FileTables) (process : Fin nproc) (slot : Fin nfile)
    (readEnd writeEnd : Fin nofile) (after : FileTables) : Prop where
  free : tables.freeSlot = some slot
  distinct : readEnd ≠ writeEnd
  emptyRead : tables.pftable (process, readEnd) = none
  emptyWrite : tables.pftable (process, writeEnd) = none
  pftable : after.pftable = Function.update
    (Function.update tables.pftable (process, readEnd) (some slot)) (process, writeEnd) (some slot)
  others : ∀ other, other ≠ slot → after.ftable other = tables.ftable other
  isPipe : (after.ftable slot).isPipe = true
  readFd : (after.ftable slot).pipeBuffer.readFd = readEnd
  head : (after.ftable slot).pipeBuffer.head = 0
  tail : (after.ftable slot).pipeBuffer.tail = 0

theorem pipe_made {readEnd writeEnd : Fin nofile}
    (success : pipe tables process = .ok (some (readEnd, writeEnd), after)) :
    ∃ slot, PipeMade tables process slot readEnd writeEnd after := by
  obtain ⟨slot, free, taken, rfl⟩ := pipe_eq_some success
  obtain ⟨different, emptyRead, emptyWrite⟩ := FileTables.empty_of_take taken
  have atSlot := tables.makePipe_ftable_self process slot readEnd writeEnd
  exact ⟨slot, free, different, emptyRead, emptyWrite, rfl,
    fun _ isOther => tables.makePipe_ftable_other process slot readEnd writeEnd isOther,
    atSlot ▸ rfl, atSlot ▸ rfl, atSlot ▸ rfl, atSlot ▸ rfl⟩

/-- An operation touches the descriptors and the state of one process: the caller, or one that is
not running, as `fork` and `wait` do. It puts nobody to sleep. -/
structure Touches (tables : FileTables) (caller touched : Fin nproc) (after : FileTables) :
    Prop where
  who : touched = caller ∨ ¬ (tables.state touched).Live
  pftable : ∀ other fd, other ≠ touched →
    after.pftable (other, fd) = tables.pftable (other, fd)
  states : ∀ other, other ≠ touched → after.state other = tables.state other
  state : after.state touched = tables.state touched ∨ after.state touched ≠ .sleeping

theorem OnlyDescriptorsOf.touches {caller : Fin nproc}
    (only : OnlyDescriptorsOf caller tables after) : Touches tables caller caller after :=
  ⟨Or.inl rfl, only.others, fun other _ => congrFun only.state other,
    Or.inl (congrFun only.state caller)⟩

/-- The descriptors of one process change, and its state becomes another one. -/
theorem OnlyDescriptorsOf.touches_setState {caller touched : Fin nproc}
    (only : OnlyDescriptorsOf touched tables after)
    (who : touched = caller ∨ ¬ (tables.state touched).Live) {state : ProcState}
    (awake : state ≠ .sleeping) : Touches tables caller touched
      { after with state := Function.update after.state touched state } :=
  ⟨who, only.others,
    fun other different =>
      (Function.update_of_ne different _ _).trans (congrFun only.state other),
    Or.inr (by dsimp only; rw [Function.update_self]; exact awake)⟩

theorem FilesExact.fork_touches (exactly : FilesExact tables) (parent : Fin nproc) (stack : Bool) :
    ∃ touched, Touches tables parent touched (forkFiles tables parent stack).2 := by
  have unchanged : Touches tables parent parent tables :=
    (OnlyDescriptorsOf.refl parent tables).touches
  unfold forkFiles
  cases found : tables.unusedProcess with
  | none => exact ⟨parent, unchanged⟩
  | some child =>
    have notLive : ¬ (tables.state child).Live := by
      have first := List.find?_some (p := fun process => tables.state process = .unused) found
      rw [of_decide_eq_true first]
      decide
    dsimp only
    split_ifs
    · exact ⟨parent, unchanged⟩
    · obtain ⟨_, only⟩ := exactly.counted.forkLoop parent child (List.finRange nofile)
        (List.nodup_finRange nofile) fun fd _ => exactly.idle child notLive fd
      exact ⟨child, only.touches_setState (Or.inr notLive) (by decide)⟩

theorem FilesExact.fileStep_touches (exactly : FilesExact tables) {action : FileAction}
    (taken : Xk.fileStep tables action = some after) :
    ∃ touched, Touches tables action.caller touched after := by
  unfold Xk.fileStep at taken
  split_ifs at taken with callerLive
  cases action with
  | fileopen caller inode mode =>
    rw [← Option.some_inj.mp taken]
    rcases fileopen_cases tables caller inode mode with
      unchanged | ⟨fd, slot, iptr, _, _, opened⟩
    · rw [unchanged]
      exact ⟨caller, (OnlyDescriptorsOf.refl caller tables).touches⟩
    · rw [opened]
      exact ⟨caller, (OnlyDescriptorsOf.point tables caller fd slot _).touches⟩
  | fileclose caller fd =>
    rw [← Option.some_inj.mp taken]
    exact ⟨caller, (exactly.counted.onlyDescriptorsOf_fileclose caller fd).touches⟩
  | filedup caller fd =>
    rw [← Option.some_inj.mp taken]
    rcases filedup_cases tables caller fd with unchanged | ⟨new, slot, _, _, dup⟩
    · rw [unchanged]
      exact ⟨caller, (OnlyDescriptorsOf.refl caller tables).touches⟩
    · rw [dup]
      exact ⟨caller, (OnlyDescriptorsOf.point tables caller new slot _).touches⟩
  | pipe caller =>
    simp only at taken
    split at taken
    case h_1 ends opened success =>
      rw [← Option.some_inj.mp taken]
      exact ⟨caller, (exactly.counted.pipe success).2.1.touches⟩
    case h_2 => cases taken
  | fork parent stack =>
    rw [← Option.some_inj.mp taken]
    exact exactly.fork_touches parent stack
  | exit caller =>
    rw [← Option.some_inj.mp taken]
    obtain ⟨_, only, _⟩ := exactly.counted.exitLoop caller (List.finRange nofile)
    exact ⟨caller, only.touches_setState (Or.inl rfl) (by decide)⟩
  | wait caller zombie =>
    simp only at taken
    split_ifs at taken with isZombie
    rw [← Option.some_inj.mp taken]
    refine ⟨zombie, (OnlyDescriptorsOf.refl zombie tables).touches_setState (Or.inr ?_) (by decide)⟩
    rw [isZombie]
    decide

/-- The operations leave the descriptors and the states of the other processes alone. -/
theorem FilesExact.fileStep_others (exactly : FilesExact tables) {action : FileAction}
    (taken : Xk.fileStep tables action = some after) (different : process ≠ action.caller)
    (live : (tables.state process).Live) :
    (∀ fd, after.pftable (process, fd) = tables.pftable (process, fd)) ∧
      after.state process = tables.state process := by
  grind [fileStep_touches, Touches]

/-- No operation puts a process to sleep. -/
theorem FilesExact.fileStep_asleep (exactly : FilesExact tables) {action : FileAction}
    (taken : Xk.fileStep tables action = some after) (asleep : after.state process = .sleeping) :
    tables.state process = .sleeping := by
  grind [fileStep_touches, Touches]

theorem exitFiles_of_closed (closed : ∀ fd, tables.pftable (process, fd) = none) :
    exitFiles tables process =
      { tables with state := Function.update tables.state process .zombie } := by
  have loop : (List.finRange nofile).foldl (exitTurn process) tables = tables :=
    List.foldlRecOn (List.finRange nofile) (exitTurn process)
      (motive := fun turned => turned = tables) rfl fun turned same fd _ => by
        rw [same, exitTurn, if_pos (closed fd)]
  rw [exitFiles, loop]

/-- The operations other than `fileclose` keep every slot but the one that `pipe` takes. -/
theorem fileStep_kept {action : FileAction} (taken : fileStep tables action = some after)
    (notClose : ∀ process fd, action ≠ .fileclose process fd)
    (exits : ∀ process, action = .exit process → ∀ fd, tables.pftable (process, fd) = none)
    {slot : Fin nfile} (notMade : ∀ process, action = .pipe process → tables.freeSlot ≠ some slot) :
    SlotKept (tables.ftable slot) (after.ftable slot) := by
  unfold fileStep at taken
  split_ifs at taken with callerLive
  cases action with
  | fileopen caller inode mode =>
    rw [← Option.some_inj.mp taken]
    rcases fileopen_cases tables caller inode mode with
      unchanged | ⟨fd, free, iptr, _, isFree, opened⟩
    · rw [unchanged]
      exact .refl _
    · rw [opened]
      refine SlotKept.point ?_ slot
      refine ⟨rfl, id, ?_⟩
      rw [freeSlot_eq_some isFree]
      exact zero_le_one
  | fileclose process fd => exact absurd rfl (notClose process fd)
  | filedup caller fd =>
    rw [← Option.some_inj.mp taken]
    rcases filedup_cases tables caller fd with unchanged | ⟨new, points, _, _, dup⟩
    · rw [unchanged]
      exact .refl _
    · rw [dup]
      refine SlotKept.point ?_ slot
      exact ⟨rfl, id, Int.le_add_of_nonneg_right zero_le_one⟩
  | pipe caller => grind [pipe_made, PipeMade, SlotKept.refl]
  | fork parent stack => grind [forkFiles_kept]
  | exit caller => grind [exitFiles_of_closed, SlotKept.refl]
  | wait caller zombie => grind [SlotKept.refl]

/-- `fileclose` of an open descriptor. -/
theorem Counted.fileclose_step (counted : Counted tables) {slot : Fin nfile}
    (points : tables.pftable (process, fd) = some slot)
    (taken : fileStep tables (.fileclose process fd) = some after) :
    after = tables.unpoint (process, fd) slot (tables.ftable slot).closed := by
  unfold fileStep at taken
  split_ifs at taken
  rw [← Option.some_inj.mp taken, counted.fileclose_eq points]

/-- `fileclose` of an empty descriptor. -/
theorem fileclose_step_none (points : tables.pftable (process, fd) = none)
    (taken : fileStep tables (.fileclose process fd) = some after) : after = tables := by
  grind [fileStep, fileclose]

end Tables

/-- The operation makes a pipe in a slot. -/
def FileAction.Makes (action : FileAction) (tables : FileTables) (slot : Fin nfile) : Prop :=
  (∃ process, action = .pipe process) ∧ tables.freeSlot = some slot

/-- What an operation on the tables keeps of the system. -/
structure TableFrame (system : CallSystem) (action : FileAction) (next : CallSystem) : Prop where
  taken : fileStep system.tables action = some next.tables
  exits : ∀ process, action = .exit process → ∀ fd, system.tables.pftable (process, fd) = none
  call : next.call = system.call
  holder : next.holder = system.holder
  writes : next.writes = system.writes
  ends : next.ends = endsAfter system.tables system.ends action
  kept : ∀ slot, ¬ action.Makes system.tables slot → next.history slot = system.history slot
  made : ∀ slot, action.Makes system.tables slot → next.history slot = ⟨[], [], []⟩

theorem tableStep_frame {next : CallSystem} {action : FileAction}
    (taken : system.tableStep action = some next) : TableFrame system action next := by
  unfold CallSystem.tableStep at taken
  split at taken
  case h_1 process =>
    split_ifs at taken with closed
    obtain ⟨tables, isTables, rfl⟩ := Option.map_eq_some_iff.mp taken
    exact ⟨isTables, fun _ same => FileAction.exit.inj same ▸ closed, rfl, rfl, rfl, rfl,
      fun _ _ => rfl, fun _ makes => nomatch makes.1.choose_spec⟩
  case h_2 process =>
    obtain ⟨tables, isTables, rfl⟩ := Option.map_eq_some_iff.mp taken
    refine ⟨isTables, (fun _ same => nomatch same), rfl, rfl, rfl, rfl, fun slot other => ?_,
      fun slot makes => ?_⟩
    · cases isMade : system.tables.freeSlot with
      | none => rfl
      | some made =>
        have different : slot ≠ made := by
          rintro rfl
          exact other ⟨⟨process, rfl⟩, isMade⟩
        exact Function.update_of_ne different _ _
    · rw [makes.2]
      exact Function.update_self slot _ _
  case h_3 =>
    obtain ⟨tables, isTables, rfl⟩ := Option.map_eq_some_iff.mp taken
    exact ⟨isTables, (fun _ same => nomatch same), rfl, rfl, rfl, rfl, fun _ _ => rfl,
      fun _ makes => nomatch makes.1.choose_spec⟩
  case h_4 notExit notPipe _ =>
    obtain ⟨tables, isTables, rfl⟩ := Option.map_eq_some_iff.mp taken
    exact ⟨isTables, fun process same => absurd same (notExit process), rfl, rfl, rfl, rfl,
      fun _ _ => rfl, fun _ makes => absurd makes.1.choose_spec (notPipe _)⟩

section

variable {action : FileAction} {next : CallSystem} (frame : TableFrame system action next)
include frame

theorem TableFrame.slot_kept (notClose : ∀ process fd, action ≠ .fileclose process fd)
    {slot : Fin nfile} (other : ¬ action.Makes system.tables slot) :
    SlotKept (system.tables.ftable slot) (next.tables.ftable slot) :=
  fileStep_kept frame.taken notClose frame.exits
    fun process isPipe free => other ⟨⟨process, isPipe⟩, free⟩

/-- An operation on the tables leaves a pipe alone that it does not make. -/
theorem TableFrame.pipe_kept (counted : Counted system.tables) {slot : Fin nfile}
    (other : ¬ action.Makes system.tables slot) : next.pipeAt slot = system.pipeAt slot := by
  by_cases closes : ∃ process fd, action = .fileclose process fd
  · obtain ⟨process, fd, isClose⟩ := closes
    have taken := frame.taken
    rw [isClose] at taken
    cases points : system.tables.pftable (process, fd) with
    | none => rw [CallSystem.pipeAt, fileclose_step_none points taken, CallSystem.pipeAt]
    | some closed =>
      have isClosed : (system.tables.ftable closed).closed.pipeBuffer =
          (system.tables.ftable closed).pipeBuffer := by
        unfold FileInfo.closed
        split_ifs <;> rfl
      rw [CallSystem.pipeAt, counted.fileclose_step points taken]
      exact system.tables.store_keeps FileInfo.pipeBuffer closed isClosed slot
  · push Not at closes
    exact (frame.slot_kept closes other).pipeBuffer

/-- A pipe that is made is empty. -/
theorem TableFrame.pipe_made {slot : Fin nfile} (makes : action.Makes system.tables slot) :
    (next.pipeAt slot).head = 0 ∧ (next.pipeAt slot).tail = 0 := by
  obtain ⟨⟨process, isPipe⟩, free⟩ := makes
  have taken := frame.taken
  rw [isPipe] at taken
  simp only [fileStep] at taken
  split_ifs at taken with live
  split at taken
  case h_2 => cases taken
  case h_1 ends opened success =>
    obtain ⟨made, isMade⟩ := Xk.pipe_made success
    obtain rfl := Option.some_inj.mp (isMade.free.symm.trans free)
    rw [Option.some_inj.mp taken] at isMade
    exact ⟨isMade.head, isMade.tail⟩

end

/-! ### The invariant -/

/-- What holds between the tables, the locks and the calls. -/
structure PipeCallInvariant (system : CallSystem) : Prop where
  exact : FilesExact system.tables
  engaged : ∀ process slot, (system.call process).slot = some slot →
    ∃ fd, system.tables.pftable (process, fd) = some slot
  held : ∀ process slot, (system.call process).holds = some slot →
    system.holder slot = some process
  asleep : ∀ process, system.tables.state process = .sleeping → (system.call process).chan ≠ none

section Invariant

variable {system next : CallSystem}

theorem PipeCall.slot_of_holds {call : PipeCall} {slot : Fin nfile}
    (holds : call.holds = some slot) : call.slot = some slot := by
  cases call with
  | idle | readAsleep | writeAsleep => cases holds
  | reading | emptied | copying | writing => exact holds

section

variable (invariant : PipeCallInvariant system)
include invariant

theorem PipeCallInvariant.live {slot : Fin nfile} (isOn : (system.call process).slot = some slot) :
    (system.tables.state process).Live := by
  grind [PipeCallInvariant, FilesExact]

/-- Two processes on a pipe have two references to it. -/
theorem PipeCallInvariant.two_le_ref {first second : Fin nproc} {slot : Fin nfile}
    (different : first ≠ second) (fd : Fin nofile)
    (points : system.tables.pftable (first, fd) = some slot) (other : Fin nofile)
    (pointsOther : system.tables.pftable (second, other) = some slot) :
    2 ≤ (system.tables.ftable slot).ref := by
  grind [Counted, FilesExact, PipeCallInvariant, two_le_references]

/-- Nobody is in a call on a pipe that is made. -/
theorem PipeCallInvariant.not_makes {slot : Fin nfile}
    (isOn : (system.call process).slot = some slot) {action : FileAction} :
    ¬ action.Makes system.tables slot := fun makes => by
  obtain ⟨fd, points⟩ := invariant.engaged process slot isOn
  exact invariant.exact.counted.freeSlot_unreferenced makes.2 (process, fd) points

theorem PipeCallInvariant.move (awake : (system.tables.state process).Awake)
    (move : CallMove system process next) :
    PipeCallInvariant next where
  exact := by
    have frame := move.frame
    have liveNext : ∀ other, (system.tables.state other).Live →
        (next.tables.state other).Live := fun other live => by
      by_cases same : other = process
      · rw [same] at live ⊢
        rcases move.state awake with kept | ⟨asleep, _⟩
        · rwa [kept]
        · rw [asleep]
          exact Or.inl rfl
      · rcases frame.states other same with kept | ⟨_, woken⟩
        · rwa [kept]
        · rw [woken]
          exact Or.inr (Or.inl rfl)
    refine ⟨⟨fun slot => ?_, fun descriptor slot points => ?_⟩, fun other notLive fd => ?_⟩
    · rw [frame.ref slot, invariant.exact.counted.ref_eq slot, FileTables.references,
        FileTables.references, frame.pftable]
    · rw [frame.pftable] at points
      obtain ⟨_, rest⟩ := Prod.mk.inj (frame.fixed slot)
      obtain ⟨iptr, rest⟩ := Prod.mk.inj rest
      rw [iptr, (Prod.mk.inj rest).1]
      exact invariant.exact.counted.isOpen descriptor slot points
    · rw [frame.pftable]
      exact invariant.exact.idle other (fun live => notLive (liveNext other live)) fd
  engaged := by
    intro other slot isOn
    rw [move.frame.pftable]
    by_cases same : other = process
    · grind [CallMove.slot, PipeCallInvariant]
    · rw [move.frame.calls other same] at isOn
      exact invariant.engaged other slot isOn
  held := by
    intro other slot holds
    by_cases same : other = process
    · rw [same] at holds ⊢
      cases move.lock with
      | kept isSame kept => grind [PipeCallInvariant]
      | acquired taken _ isTaken holdsTaken => simp_all
      | released _ _ _ none => cases none.symm.trans holds
    · rw [move.frame.calls other same] at holds
      have before := invariant.held other slot holds
      cases move.lock with
      | kept isSame _ => rwa [isSame]
      | acquired taken free isTaken _ =>
        have different : slot ≠ taken := by grind
        rwa [isTaken, Function.update_of_ne different]
      | released given held isGiven _ =>
        have different : slot ≠ given := by grind [PipeCallInvariant]
        rwa [isGiven, Function.update_of_ne different]
  asleep := by
    intro other asleep
    by_cases same : other = process
    · rw [same] at asleep ⊢
      rcases move.state awake with kept | ⟨_, inSleep⟩
      · rw [kept] at asleep
        rw [asleep] at awake
        exact absurd awake (by decide)
      · exact inSleep
    · rw [move.frame.calls other same]
      rcases move.frame.states other same with kept | ⟨_, woken⟩
      · exact invariant.asleep other (kept ▸ asleep)
      · cases asleep.symm.trans woken

theorem PipeCallInvariant.table {action : FileAction} (ready : system.Ready action.caller)
    (frame : TableFrame system action next) :
    PipeCallInvariant next where
  exact := invariant.exact.fileStep frame.taken
  engaged := by
    intro process slot isOn
    rw [frame.call] at isOn
    have different : process ≠ action.caller := by
      rintro rfl
      exact nomatch ready.2.symm.trans isOn
    obtain ⟨fd, points⟩ := invariant.engaged process slot isOn
    have others := invariant.exact.fileStep_others frame.taken different (invariant.live isOn)
    exact ⟨fd, (others.1 fd).trans points⟩
  held := by
    intro process slot holds
    rw [frame.holder]
    exact invariant.held process slot (frame.call ▸ holds)
  asleep := by
    intro process asleep
    rw [frame.call]
    exact invariant.asleep process (invariant.exact.fileStep_asleep frame.taken asleep)

theorem PipeCallInvariant.kill (process : Fin nproc) :
    PipeCallInvariant (system.kill process) := by
  unfold CallSystem.kill
  dsimp only
  split_ifs with isAsleep
  · refine ⟨⟨⟨invariant.exact.counted.ref_eq, invariant.exact.counted.isOpen⟩,
      fun other notLive fd => ?_⟩, invariant.engaged, invariant.held, fun other asleep => ?_⟩
    · refine invariant.exact.idle other (fun live => notLive ?_) fd
      show (Function.update system.tables.state process .runnable other).Live
      by_cases same : other = process
      · rw [same, Function.update_self]
        exact Or.inr (Or.inl rfl)
      · rwa [Function.update_of_ne same]
    · refine invariant.asleep other ?_
      change Function.update system.tables.state process .runnable other = _ at asleep
      by_cases same : other = process
      · rw [same]
        exact isAsleep
      · rwa [Function.update_of_ne same] at asleep
  · exact ⟨invariant.exact, invariant.engaged, invariant.held, invariant.asleep⟩

theorem PipeCallInvariant.step {action : CallAction} (taken : callStep system action = some next) :
    PipeCallInvariant next := by
  rcases callStep_cases taken with ⟨_, _, ready, tables⟩ | ⟨_, awake, move, _⟩ | ⟨process, _, rfl⟩
  · exact invariant.table ready (tableStep_frame tables)
  · exact invariant.move awake move
  · exact invariant.kill process

end

theorem PipeCallInvariant.initial (fs : FileSystem) : PipeCallInvariant (.initial fs) where
  exact := .initial
  engaged _ _ isOn := nomatch isOn
  held _ _ holds := nomatch holds
  asleep process asleep := by
    change Function.update (fun _ => ProcState.unused) 0 .runnable process = _ at asleep
    by_cases same : process = 0
    · grind
    · grind

end Invariant

end Xk
