/-
This file follows the locks through a call on a pipe. `acquire` disables interrupts one level deeper
and `release` one level less, so a call has to release what it has acquired on every way out.

There is one way out of `fileread` that does not: the loop that copies bytes returns as soon as it
sees that the process has been killed. The lock of the pipe stays taken, the interrupts stay
disabled, and the bytes that have been copied are gone from the pipe. Every other way out gives the
lock back, and is at the depth at which the call began.
-/

import Xk.PipeStreams

namespace Xk

open Outcome Transition

variable {bytesRead : Int} {fd : Fin nofile} {process : Fin nproc} {after : CallSystem}

/-! ### Locks -/

/-- The locks that a call on a pipe takes: that of the pipe, and `ptable.lock`. -/
inductive SpinLock
  | pipe (slot : Fin nfile)
  | ptable

inductive LockCall
  | acquire (lock : SpinLock)
  | release (lock : SpinLock)

/-- `pushcli` and `popcli`: how much deeper interrupts are disabled. -/
def LockCall.deeper : LockCall → Int
  | .acquire _ => 1
  | .release _ => -1

/-- How much deeper interrupts are disabled after a sequence of calls. -/
def deeper (calls : List LockCall) : Int := (calls.map LockCall.deeper).sum

/-- `wakeup(chan)`. -/
def wakeupLocks : List LockCall := [.acquire .ptable, .release .ptable]

/-- `sleep(chan, lk)` up to `sched`. -/
def sleepLocks (slot : Fin nfile) : List LockCall := [.acquire .ptable, .release (.pipe slot)]

/-- `sleep(chan, lk)` from `sched` on. -/
def resumeLocks (slot : Fin nfile) : List LockCall := [.release .ptable, .acquire (.pipe slot)]

/-- The calls of `acquire` and `release` in the next turn of a process. -/
def CallSystem.turnLocks (system : CallSystem) (process : Fin nproc) : List LockCall :=
  match system.call process with
  | .idle => []
  | .reading slot _ =>
    let file := system.tables.ftable slot
    if file.pipeBuffer.head ≠ file.pipeBuffer.tail then []
    else if system.killed process then [.release (.pipe slot)]
    else if file.ref = 1 then [.release (.pipe slot)]
    else []
  | .emptied slot _ => wakeupLocks ++ sleepLocks slot
  | .readAsleep slot _ | .writeAsleep slot _ _ => resumeLocks slot
  | .copying slot bytesRead bytes =>
    let pipe := system.pipeAt slot
    if (bytes.length : Int) < bytesRead then
      if system.killed process then []
      else if pipe.head = pipe.tail then wakeupLocks ++ [.release (.pipe slot)]
      else []
    else wakeupLocks ++ [.release (.pipe slot)]
  | .writing slot _ [] => wakeupLocks ++ [.release (.pipe slot)]
  | .writing slot _ (_ :: _) =>
    let file := system.tables.ftable slot
    if file.pipeBuffer.Full then wakeupLocks ++ sleepLocks slot
    else if file.ref = 1 then [.release (.pipe slot)]
    else []

/-- The calls of `acquire` with which a call on a pipe begins. -/
def CallSystem.beginLocks (system : CallSystem) : CallAction → List LockCall
  | .fileread process fd _ =>
    match system.tables.pftable (process, fd) with
    | none => []
    | some slot =>
      let file := system.tables.ftable slot
      if file.isPipe = true ∧ file.pipeBuffer.readFd = fd.val then [.acquire (.pipe slot)] else []
  | .filewrite process fd _ =>
    match system.tables.pftable (process, fd) with
    | none => []
    | some slot => if (system.tables.ftable slot).isPipe then [.acquire (.pipe slot)] else []
  | _ => []

/-! ### Processes and the depth -/

/-- The calls, with how deep interrupts are disabled on the processor that runs a process, and how
deep they were when its last `fileread` or `filewrite` began. A process is switched away from at depth
1, and finds depth 1 where it goes on. What a call does about the locks of inodes is left out. -/
structure LockedSystem where
  calls : CallSystem
  ncli : Fin nproc → Int
  entry : Fin nproc → Int

def LockedSystem.initial (fs : FileSystem) : LockedSystem := ⟨.initial fs, fun _ => 0, fun _ => 0⟩

/-- One step. -/
def lockedStep (system : LockedSystem) (action : CallAction) : Option LockedSystem :=
  (callStep system.calls action).map fun next =>
    match action with
    | .fileread process _ _ | .filewrite process _ _ =>
      { calls := next
        ncli := Function.update system.ncli process
          (system.ncli process + deeper (system.calls.beginLocks action))
        entry := Function.update system.entry process (system.ncli process) }
    | .turn process =>
      { system with
        calls := next
        ncli := Function.update system.ncli process
          (system.ncli process + deeper (system.calls.turnLocks process)) }
    | .table _ | .filestat _ _ | .kill _ => { system with calls := next }

/-- A process is killed when its `fileread` looks whether it is, with bytes still to copy. -/
def CallSystem.Interrupted (system : CallSystem) (process : Fin nproc) : Prop :=
  ∃ slot bytesRead bytes, system.call process = .copying slot bytesRead bytes ∧
    (bytes.length : Int) < bytesRead ∧ system.killed process = true

section Turns

variable {system next : CallSystem} {process : Fin nproc}

/-- The ways a turn can go: the call goes on, it returns and gives the lock back, or it is
interrupted. -/
inductive TurnEnds (system : CallSystem) (process : Fin nproc) (next : CallSystem) : Prop
  | goesOn (slot : Fin nfile) (isOn : (next.call process).slot = some slot)
      (level : deeper (system.turnLocks process) = 0) (calm : ¬ system.Interrupted process)
  | returns (slot : Fin nfile) (wasOn : (system.call process).slot = some slot)
      (isIdle : next.call process = .idle) (level : deeper (system.turnLocks process) = -1)
      (calm : ¬ system.Interrupted process) (free : next.holder slot = none) (result : CallResult)
      (isResult : next.result process = some result)
      (whole : result.value = -1 → result.bytes = [])
  | drops (slot : Fin nfile) (bytesRead : Int) (bytes : List UInt8)
      (isCall : system.call process = .copying slot bytesRead bytes)
      (left : (bytes.length : Int) < bytesRead) (killed : system.killed process = true)
      (level : deeper (system.turnLocks process) = 0)
      (isNext : next = system.finish process ⟨-1, bytes, none⟩)

@[simp] theorem CallSystem.setCall_call_self (system : CallSystem) (process : Fin nproc)
    (call : PipeCall) : (system.setCall process call).call process = call :=
  Function.update_self _ _ _

@[simp] theorem CallSystem.sleep_call_self (system : CallSystem) (process : Fin nproc)
    (slot : Fin nfile) (call : PipeCall) : (system.sleep process slot call).call process = call :=
  Function.update_self _ _ _

@[simp] theorem CallSystem.finish_call_self (system : CallSystem) (process : Fin nproc)
    (result : CallResult) : (system.finish process result).call process = .idle :=
  Function.update_self _ _ _

@[simp] theorem CallSystem.finish_result_self (system : CallSystem) (process : Fin nproc)
    (result : CallResult) : (system.finish process result).result process = some result :=
  Function.update_self _ _ _

@[simp] theorem CallSystem.release_holder_self (system : CallSystem) (slot : Fin nfile) :
    (system.release slot).holder slot = none :=
  Function.update_self _ _ _

/-- `fileread` returns with what it has copied. -/
theorem endRead_returns {slot : Fin nfile} {bytes : List UInt8}
    (wasOn : (system.call process).slot = some slot)
    (locks : system.turnLocks process = wakeupLocks ++ [.release (.pipe slot)])
    (calm : ¬ system.Interrupted process) :
    TurnEnds system process (system.endRead process slot bytes) := by
  refine .returns slot wasOn (CallSystem.finish_call_self _ _ _) (by rw [locks]; rfl) calm
    (CallSystem.release_holder_self _ _) _ (CallSystem.finish_result_self _ _ _) ?_
  intro negative
  have nonneg : (0 : Int) ≤ bytes.length := Int.natCast_nonneg _
  rw [show (bytes.length : Int) = -1 from negative] at nonneg
  cases nonneg

/-- A call returns with nothing stored. -/
theorem release_returns {slot : Fin nfile} {value : Int}
    (wasOn : (system.call process).slot = some slot)
    (locks : system.turnLocks process = [.release (.pipe slot)])
    (calm : ¬ system.Interrupted process) :
    TurnEnds system process ((system.release slot).finish process ⟨value, [], none⟩) :=
  .returns slot wasOn (CallSystem.finish_call_self _ _ _) (by rw [locks]; rfl) calm
    (CallSystem.release_holder_self _ _) _ (CallSystem.finish_result_self _ _ _) fun _ => rfl

theorem CallSystem.not_interrupted (notCopying : ∀ slot bytesRead bytes,
    system.call process ≠ .copying slot bytesRead bytes) : ¬ system.Interrupted process := by
  rintro ⟨slot, bytesRead, bytes, isCall, -⟩
  exact notCopying slot bytesRead bytes isCall

theorem readTurn_ends {slot : Fin nfile} (isCall : system.call process = .reading slot bytesRead) :
    TurnEnds system process (system.readTurn process slot bytesRead) := by
  have calm : ¬ system.Interrupted process :=
    system.not_interrupted fun _ _ _ isCopying => by rw [isCall] at isCopying; cases isCopying
  have wasOn : (system.call process).slot = some slot := by rw [isCall]; rfl
  unfold CallSystem.readTurn
  dsimp only
  split_ifs with filled killed alone
  · refine .goesOn slot (by rw [CallSystem.setCall_call_self]; rfl) ?_ calm
    rw [CallSystem.turnLocks, isCall]
    dsimp only
    rw [if_pos filled]
    rfl
  · grind [release_returns, CallSystem.turnLocks]
  · grind [release_returns, CallSystem.turnLocks]
  · refine .goesOn slot (by rw [CallSystem.setCall_call_self]; rfl) ?_ calm
    rw [CallSystem.turnLocks, isCall]
    dsimp only
    rw [if_neg filled, if_neg killed, if_neg alone]
    rfl

theorem copyTurn_ends {slot : Fin nfile} {bytes : List UInt8}
    (isCall : system.call process = .copying slot bytesRead bytes)
    (turned : system.copyTurn process slot bytesRead bytes = some next) :
    TurnEnds system process next := by
  have wasOn : (system.call process).slot = some slot := by rw [isCall]; rfl
  have calmUnless (unkilled : ¬ ((bytes.length : Int) < bytesRead ∧
      system.killed process = true)) : ¬ system.Interrupted process := by
    rintro ⟨_, _, _, isCopying, left, killed⟩
    rw [isCall] at isCopying
    cases isCopying
    exact unkilled ⟨left, killed⟩
  unfold CallSystem.copyTurn at turned
  dsimp only at turned
  split_ifs at turned with left killed empty
  · obtain rfl := Option.some_inj.mp turned
    refine .drops slot bytesRead bytes isCall left killed ?_ rfl
    rw [CallSystem.turnLocks, isCall]
    dsimp only
    rw [if_pos left, if_pos killed]
    rfl
  · grind [endRead_returns, CallSystem.turnLocks]
  · obtain ⟨place, -, rfl⟩ := Option.map_eq_some_iff.mp turned
    refine .goesOn slot (by rw [CallSystem.copyByte, CallSystem.setCall_call_self]; rfl) ?_
      (calmUnless fun both => killed both.2)
    rw [CallSystem.turnLocks, isCall]
    dsimp only
    rw [if_pos left, if_neg killed, if_neg empty]
    rfl
  · grind [endRead_returns, CallSystem.turnLocks]

theorem writeTurn_ends {slot : Fin nfile} {write : PipeWrite} {rest : List UInt8}
    (isCall : system.call process = .writing slot write rest)
    (turned : system.writeTurn process slot write rest = some next) :
    TurnEnds system process next := by
  have calm : ¬ system.Interrupted process :=
    system.not_interrupted fun _ _ _ isCopying => by rw [isCall] at isCopying; cases isCopying
  have wasOn : (system.call process).slot = some slot := by rw [isCall]; rfl
  cases rest with
  | nil =>
    obtain rfl := Option.some_inj.mp turned
    refine .returns slot wasOn (CallSystem.finish_call_self _ _ _) ?_ calm
      (CallSystem.release_holder_self _ _) _ (CallSystem.finish_result_self _ _ _) fun _ => rfl
    rw [CallSystem.turnLocks, isCall]
    rfl
  | cons byte rest =>
    unfold CallSystem.writeTurn at turned
    dsimp only at turned
    split_ifs at turned with full alone
    · obtain rfl := Option.some_inj.mp turned
      refine .goesOn slot (by rw [CallSystem.sleep_call_self]; rfl) ?_ calm
      rw [CallSystem.turnLocks, isCall]
      dsimp only
      rw [if_pos full]
      rfl
    · grind [release_returns, CallSystem.turnLocks]
    · obtain ⟨place, -, rfl⟩ := Option.map_eq_some_iff.mp turned
      refine .goesOn slot (by rw [CallSystem.storeByte, CallSystem.setCall_call_self]; rfl) ?_ calm
      rw [CallSystem.turnLocks, isCall]
      dsimp only
      rw [if_neg full, if_neg alone]
      rfl

/-- Waking up takes the lock of the pipe for that of the table. -/
theorem resume_ends {slot : Fin nfile} {call : PipeCall} (isOn : call.slot = some slot)
    (locks : system.turnLocks process = resumeLocks slot) (calm : ¬ system.Interrupted process)
    (turned : system.resume process slot call = some next) : TurnEnds system process next := by
  unfold CallSystem.resume at turned
  split_ifs at turned
  obtain rfl := Option.some_inj.mp turned
  refine .goesOn slot ?_ ?_ calm
  · simp_all
  · rw [locks]
    rfl

theorem turn_ends (turned : system.turn process = some next) : TurnEnds system process next := by
  unfold CallSystem.turn at turned
  cases isCall : system.call process with
  | idle => grind
  | reading slot bytesRead => grind [readTurn_ends]
  | emptied slot bytesRead =>
    rw [isCall] at turned
    obtain rfl := Option.some_inj.mp turned
    refine .goesOn slot (by rw [CallSystem.sleep_call_self]; rfl) ?_
      (system.not_interrupted fun _ _ _ isCopying => by rw [isCall] at isCopying; cases isCopying)
    rw [CallSystem.turnLocks, isCall]
    rfl
  | readAsleep slot bytesRead =>
    rw [isCall] at turned
    refine resume_ends ?_ (by rw [CallSystem.turnLocks, isCall])
      (system.not_interrupted fun _ _ _ isCopying => by rw [isCall] at isCopying; cases isCopying)
      turned
    rfl
  | copying slot bytesRead bytes => grind [copyTurn_ends]
  | writing slot write rest => grind [writeTurn_ends]
  | writeAsleep slot write rest =>
    rw [isCall] at turned
    refine resume_ends ?_ (by rw [CallSystem.turnLocks, isCall])
      (system.not_interrupted fun _ _ _ isCopying => by rw [isCall] at isCopying; cases isCopying)
      turned
    rfl

/-! ### Calls that begin -/

/-- The ways a call can begin: with the lock of the pipe, or it is over at once. -/
inductive BeginEnds (system : CallSystem) (process : Fin nproc) (fd : Fin nofile)
    (locks : List LockCall) (next : CallSystem) : Prop
  | begins (slot : Fin nfile) (isOn : (next.call process).slot = some slot)
      (level : deeper locks = 1)
  | returns (isIdle : next.call process = .idle) (level : deeper locks = 0)
      (holder : next.holder = system.holder)
      (refused : ∀ slot, system.tables.pftable (process, fd) = some slot →
        (system.tables.ftable slot).isPipe = true → next.result process = some ⟨-1, [], none⟩)

theorem fileread_begins (taken : callStep system (.fileread process fd bytesRead) = some next) :
    BeginEnds system process fd (system.beginLocks (.fileread process fd bytesRead)) next := by
  simp only [callStep] at taken
  split_ifs at taken with ready
  replace taken := ok_of_toOption taken
  unfold CallSystem.fileread at taken
  cases points : system.tables.pftable (process, fd) with
  | none =>
    rw [points] at taken
    obtain rfl := Except.ok.inj taken
    refine .returns (CallSystem.finish_call_self _ _ _) ?_ rfl fun slot isSlot => ?_
    · rw [CallSystem.beginLocks, points]
      rfl
    · simp
  | some slot =>
    rw [points] at taken
    dsimp only at taken
    by_cases isPipe : (system.tables.ftable slot).isPipe = true
    · rw [if_pos isPipe] at taken
      split_ifs at taken with wrongEnd held
      · obtain rfl := Except.ok.inj taken
        refine .returns (CallSystem.finish_call_self _ _ _) ?_ rfl fun _ _ _ =>
          CallSystem.finish_result_self _ _ _
        rw [CallSystem.beginLocks, points]
        dsimp only
        rw [if_neg fun both => wrongEnd both.2]
        rfl
      · obtain rfl := Except.ok.inj taken
        refine .begins slot (by rw [CallSystem.setCall_call_self]; rfl) ?_
        rw [CallSystem.beginLocks, points]
        dsimp only
        rw [if_pos ⟨isPipe, not_not.mp wrongEnd⟩]
        rfl
    · rw [if_neg isPipe] at taken
      obtain ⟨⟨result, after⟩, -, isNext⟩ := ok_of_bind taken
      obtain rfl := Except.ok.inj isNext
      refine .returns (CallSystem.finish_call_self _ _ _) ?_ rfl fun other isSlot isOther => ?_
      · rw [CallSystem.beginLocks, points]
        dsimp only
        rw [if_neg fun both => isPipe both.1]
        rfl
      · grind

theorem filewrite_begins {data : List UInt8}
    (taken : callStep system (.filewrite process fd data) = some next) :
    BeginEnds system process fd (system.beginLocks (.filewrite process fd data)) next := by
  simp only [callStep] at taken
  split_ifs at taken with ready
  replace taken := ok_of_toOption taken
  unfold CallSystem.filewrite at taken
  cases points : system.tables.pftable (process, fd) with
  | none =>
    rw [points] at taken
    obtain rfl := Except.ok.inj taken
    refine .returns (CallSystem.finish_call_self _ _ _) ?_ rfl fun slot isSlot => ?_
    · rw [CallSystem.beginLocks, points]
      rfl
    · simp
  | some slot =>
    rw [points] at taken
    dsimp only at taken
    by_cases isPipe : (system.tables.ftable slot).isPipe = true
    · rw [if_pos isPipe] at taken
      split_ifs at taken with held
      obtain rfl := Except.ok.inj taken
      refine .begins slot (by rw [CallSystem.setCall_call_self]; rfl) ?_
      rw [CallSystem.beginLocks, points]
      dsimp only
      rw [if_pos isPipe]
      rfl
    · rw [if_neg isPipe] at taken
      obtain ⟨⟨result, after⟩, -, isNext⟩ := ok_of_bind taken
      obtain rfl := Except.ok.inj isNext
      refine .returns (CallSystem.finish_call_self _ _ _) ?_ rfl fun other isSlot isOther => ?_
      · rw [CallSystem.beginLocks, points]
        dsimp only
        rw [if_neg isPipe]
        rfl
      · grind

theorem filestat_idle (stated : system.filestat process fd = .ok next) :
    next.call process = .idle := by
  unfold CallSystem.filestat at stated
  split at stated
  · rw [← Except.ok.inj stated, CallSystem.finish_call_self]
  · dsimp only at stated
    split at stated
    · grind [CallSystem.finish_call_self]
    · obtain ⟨⟨stat, fs⟩, -, isNext⟩ := ok_of_bind stated
      rw [← Except.ok.inj isNext, CallSystem.finish_call_self]

end Turns

/-! ### Runs -/

/-- A process in a call on a pipe is one level deeper than where the call began. -/
def LockedSystem.Nested (system : LockedSystem) : Prop :=
  ∀ process, (system.calls.call process).slot ≠ none →
    system.ncli process = system.entry process + 1

section Runs

variable {system next : LockedSystem}

theorem LockedSystem.Nested.begins (nested : system.Nested) {locks : List LockCall}
    (ends : BeginEnds system.calls process fd locks after)
    (others : ∀ other ≠ process, after.call other = system.calls.call other) :
    LockedSystem.Nested
      { calls := after
        ncli := Function.update system.ncli process (system.ncli process + deeper locks)
        entry := Function.update system.entry process (system.ncli process) } := by
  intro other inCall
  dsimp only at inCall ⊢
  by_cases isProcess : other = process
  · rw [isProcess] at inCall ⊢
    rw [Function.update_self, Function.update_self]
    cases ends with
    | begins slot isOn level => rw [level]
    | returns isIdle => exact absurd (by rw [isIdle]; rfl) inCall
  · rw [others other isProcess] at inCall
    rw [Function.update_of_ne isProcess, Function.update_of_ne isProcess]
    exact nested other inCall

theorem LockedSystem.Nested.turn (nested : system.Nested)
    (turned : system.calls.turn process = some after) :
    LockedSystem.Nested { system with
      calls := after
      ncli := Function.update system.ncli process
        (system.ncli process + deeper (system.calls.turnLocks process)) } := by
  have wasOn : (system.calls.call process).slot ≠ none := by
    intro notOn
    unfold CallSystem.turn at turned
    cases isCall : system.calls.call process with
    | idle => grind
    | reading | emptied | readAsleep | copying | writing | writeAsleep =>
      rw [isCall] at notOn
      cases notOn
  intro other inCall
  dsimp only at inCall ⊢
  by_cases isProcess : other = process
  · rw [isProcess] at inCall ⊢
    rw [Function.update_self]
    cases turn_ends turned with
    | goesOn slot isOn level calm => rw [level, nested process wasOn, Int.add_zero]
    | returns _ _ isIdle => exact absurd (by rw [isIdle]; rfl) inCall
    | drops _ _ _ _ _ _ _ isNext =>
      rw [isNext, CallSystem.finish_call_self] at inCall
      exact absurd rfl inCall
  · rw [(turn_move turned).frame.calls other isProcess] at inCall
    rw [Function.update_of_ne isProcess]
    exact nested other inCall

theorem LockedSystem.Nested.step (nested : system.Nested) {action : CallAction}
    (taken : lockedStep system action = some next) : next.Nested := by
  obtain ⟨after, called, rfl⟩ := Option.map_eq_some_iff.mp taken
  cases action with
  | fileread process fd bytesRead =>
    have ends := fileread_begins called
    simp only [callStep] at called
    split_ifs at called with ready
    exact nested.begins ends (fileread_move ready (ok_of_toOption called)).frame.calls
  | filewrite process fd data =>
    have ends := filewrite_begins called
    simp only [callStep] at called
    split_ifs at called with ready
    exact nested.begins ends (filewrite_move ready (ok_of_toOption called)).frame.calls
  | turn process =>
    simp only [callStep] at called
    split_ifs at called
    exact nested.turn called
  | filestat process fd =>
    intro other inCall
    simp only [callStep] at called
    split_ifs at called with ready
    have move := filestat_move ready (ok_of_toOption called)
    by_cases isProcess : other = process
    · rw [isProcess, filestat_idle (ok_of_toOption called)] at inCall
      exact absurd rfl inCall
    · exact nested other (move.frame.calls other isProcess ▸ inCall)
  | table tableAction =>
    simp only [callStep] at called
    split_ifs at called
    intro other inCall
    exact nested other ((tableStep_frame called).call ▸ inCall)
  | kill process =>
    intro other inCall
    have same : after.call = system.calls.call := by
      rw [← Option.some_inj.mp called]
      unfold CallSystem.kill
      dsimp only
      split_ifs
      · rfl
      · rfl
    exact nested other (same ▸ inCall)

end Runs

end Xk
