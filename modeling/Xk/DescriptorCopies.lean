/-
This file compares a descriptor with the copy that `filedup` makes of it. A call through the one and
a call through the other find the same slot, and only `fileread` on a pipe looks at the number of
the descriptor besides. So the two are interchangeable exactly where that test cannot tell them
apart.
-/

import Xk.PipeEnds

namespace Xk

open Transition

/-! ### What it means to be interchangeable -/

/-- The system without which descriptor points where. -/
def CallSystem.shared (system : CallSystem) : CallSystem :=
  { system with
    tables := { system.tables with pftable := fun _ => none }
    ends := fun _ => none }

/-- Every call ends the same through one descriptor of one system as through one of another: it
returns the same, delivers the same and leaves the same files. -/
def SameCalls (left right : CallSystem) (process : Fin nproc) (first second : Fin nofile) : Prop :=
  ∀ call outcome, (∃ final, left.Performs process first call final ∧ final.shared = outcome) ↔
    ∃ final, right.Performs process second call final ∧ final.shared = outcome

/-- Two descriptors of a process can stand for each other, while both are open and when one of them
has been closed. -/
def CallSystem.Interchangeable (system : CallSystem) (process : Fin nproc)
    (first second : Fin nofile) : Prop :=
  SameCalls system system process first second ∧
    ∃ left right, callStep system (.table (.fileclose process second)) = some left ∧
      callStep system (.table (.fileclose process first)) = some right ∧
      SameCalls left right process first second

/-- `fileread` cannot tell two descriptors on a slot apart: it is not a pipe, or none of them has
the number of its read end, or the caller is killed and the pipe is empty. -/
def CallSystem.Alike (system : CallSystem) (process : Fin nproc) (slot : Fin nfile)
    (first second : Fin nofile) : Prop :=
  (system.tables.ftable slot).isPipe = false ∨
    (system.pipeAt slot).readFd ≠ first.val ∧ (system.pipeAt slot).readFd ≠ second.val ∨
    system.killed process = true ∧ system.holder slot = none ∧
      (system.pipeAt slot).head = (system.pipeAt slot).tail

/-! ### Calls do not look at the descriptors again -/

section Shared

variable {system left right : CallSystem} {process : Fin nproc} {slot : Fin nfile}

theorem turn_shared (system : CallSystem) (process : Fin nproc) :
    system.shared.turn process = (system.turn process).map CallSystem.shared := by
  have sameCall : system.shared.call process = system.call process := rfl
  unfold CallSystem.turn
  rw [sameCall]
  cases isCall : system.call process with
  | idle => rfl
  | reading slot bytesRead =>
    show some (system.shared.readTurn process slot bytesRead) =
      some (system.readTurn process slot bytesRead).shared
    unfold CallSystem.readTurn
    simp only [apply_ite CallSystem.shared]
    rfl
  | emptied slot bytesRead => rfl
  | readAsleep slot bytesRead =>
    show system.shared.resume process slot _ = (system.resume process slot _).map _
    unfold CallSystem.resume
    rw [apply_ite (Option.map CallSystem.shared)]
    rfl
  | copying slot bytesRead bytes =>
    show system.shared.copyTurn process slot bytesRead bytes =
      (system.copyTurn process slot bytesRead bytes).map CallSystem.shared
    unfold CallSystem.copyTurn
    simp only [apply_ite (Option.map CallSystem.shared), Option.map_map]
    rfl
  | writing slot write rest =>
    show system.shared.writeTurn process slot write rest =
      (system.writeTurn process slot write rest).map CallSystem.shared
    cases rest with
    | nil => rfl
    | cons byte rest =>
      unfold CallSystem.writeTurn
      simp only [apply_ite (Option.map CallSystem.shared), Option.map_map]
      rfl
  | writeAsleep slot write rest =>
    show system.shared.resume process slot _ = (system.resume process slot _).map _
    unfold CallSystem.resume
    rw [apply_ite (Option.map CallSystem.shared)]
    rfl

theorem callStep_turn_shared (system : CallSystem) (process : Fin nproc) :
    callStep system.shared (.turn process) =
      (callStep system (.turn process)).map CallSystem.shared := by
  grind [callStep, turn_shared, CallSystem.shared]

/-- The turns of a call run the same without the descriptors. -/
theorem settles_shared_iff {outcome : CallSystem} :
    Settles process system.shared outcome ↔
      ∃ final, Settles process system final ∧ final.shared = outcome := by
  constructor
  · intro settles
    generalize isShared : system.shared = start at settles
    induction settles generalizing system with
    | rests idle =>
      subst isShared
      exact ⟨system, .rests idle, rfl⟩
    | turns busy turned _ inductionHypothesis =>
      subst isShared
      rw [callStep_turn_shared] at turned
      obtain ⟨next, turnedTo, isNext⟩ := Option.map_eq_some_iff.mp turned
      obtain ⟨final, settles, isFinal⟩ := inductionHypothesis isNext
      exact ⟨final, .turns busy turnedTo settles, isFinal⟩
  · rintro ⟨final, settles, rfl⟩
    induction settles with
    | rests idle => exact .rests idle
    | turns busy turned _ inductionHypothesis =>
      refine .turns busy ?_ inductionHypothesis
      rw [callStep_turn_shared, turned, Option.map_some]

theorem performs_shared_iff {fd : Fin nofile} {call : FdCall} {outcome : CallSystem} :
    (∃ final, system.Performs process fd call final ∧ final.shared = outcome) ↔
      ∃ began, (callStep system (call.action process fd)).map CallSystem.shared = some began ∧
        Settles process began outcome := by
  constructor
  · rintro ⟨final, ⟨began, begins, settles⟩, isFinal⟩
    refine ⟨began.shared, by rw [begins, Option.map_some], ?_⟩
    exact settles_shared_iff.mpr ⟨final, settles, isFinal⟩
  · rintro ⟨_, begins, settles⟩
    obtain ⟨began, isBegun, rfl⟩ := Option.map_eq_some_iff.mp begins
    obtain ⟨final, settles, isFinal⟩ := settles_shared_iff.mp settles
    exact ⟨final, ⟨began, isBegun, settles⟩, isFinal⟩

/-- A call begins the same through two descriptors on a slot that `fileread` cannot tell apart by
their numbers. -/
theorem begins_shared (same : left.shared = right.shared) {first second : Fin nofile}
    (pointsFirst : left.tables.pftable (process, first) = some slot)
    (pointsSecond : right.tables.pftable (process, second) = some slot) {call : FdCall}
    (alike : (∃ bytesRead, call = .fileread bytesRead) →
      (left.tables.ftable slot).isPipe = true →
        (left.pipeAt slot).readFd ≠ first.val ∧ (left.pipeAt slot).readFd ≠ second.val) :
    (callStep left (call.action process first)).map CallSystem.shared =
      (callStep right (call.action process second)).map CallSystem.shared := by
  obtain ⟨⟨ftable, points, state⟩, fs, killed, holder, calls, result, writes, history, ends⟩ := left
  obtain ⟨⟨_, pftableRight, _⟩, _, _, _, _, _, _, _, endsRight⟩ := right
  simp only [CallSystem.shared, CallSystem.mk.injEq, FileTables.mk.injEq] at same
  obtain ⟨⟨rfl, _, rfl⟩, rfl, rfl, rfl, rfl, rfl, rfl, rfl, _⟩ := same
  dsimp only at pointsFirst pointsSecond
  cases call with
  | fileread bytesRead =>
    simp only [FdCall.action, callStep, CallSystem.fileread, pointsFirst, pointsSecond]
    by_cases isPipe : (ftable slot).isPipe = true
    · obtain ⟨notFirst, notSecond⟩ := alike ⟨bytesRead, rfl⟩ isPipe
      have notFirst : (ftable slot).pipeBuffer.readFd ≠ first.val := notFirst
      have notSecond : (ftable slot).pipeBuffer.readFd ≠ second.val := notSecond
      simp only [isPipe, if_true, if_pos notFirst, if_pos notSecond,
        apply_ite (Option.map CallSystem.shared)]
      rfl
    · simp only [isPipe, Bool.false_eq_true, if_false, apply_ite (Option.map CallSystem.shared)]
      cases filereadInode ⟨fs, ftable slot⟩ bytesRead with
      | error halt => rfl
      | ok outcome => rfl
  | filewrite data =>
    simp only [FdCall.action, callStep, CallSystem.filewrite, pointsFirst, pointsSecond]
    by_cases isPipe : (ftable slot).isPipe = true
    · simp only [isPipe, if_true, apply_ite (Option.map CallSystem.shared),
        apply_ite Except.toOption]
      rfl
    · simp only [isPipe, Bool.false_eq_true, if_false, apply_ite (Option.map CallSystem.shared)]
      cases filewriteInode ⟨fs, ftable slot⟩ data data.length with
      | error halt => rfl
      | ok outcome => rfl
  | filestat =>
    simp only [FdCall.action, callStep, CallSystem.filestat, pointsFirst, pointsSecond]
    cases (ftable slot).iptr with
    | none =>
      simp only [apply_ite (Option.map CallSystem.shared), apply_ite Except.toOption]
      rfl
    | some ip =>
      simp only [apply_ite (Option.map CallSystem.shared)]
      cases concurrentStati fs ip with
      | error halt => rfl
      | ok outcome => rfl

theorem sameCalls_of_begins {first second : Fin nofile} {call : FdCall}
    (begins : (callStep left (call.action process first)).map CallSystem.shared =
      (callStep right (call.action process second)).map CallSystem.shared) (outcome : CallSystem) :
    (∃ final, left.Performs process first call final ∧ final.shared = outcome) ↔
      ∃ final, right.Performs process second call final ∧ final.shared = outcome := by
  rw [performs_shared_iff, performs_shared_iff, begins]

/-- A killed process that reads an empty pipe gets `-1` in any case. -/
theorem OnPipe.read_killed_iff {fd : Fin nofile} {final : CallSystem}
    (on : OnPipe system process fd slot) (killed : system.killed process = true)
    (empty : (system.pipeAt slot).head = (system.pipeAt slot).tail) (bytesRead : Int) :
    system.Performs process fd (.fileread bytesRead) final ↔
      final = system.finish process ⟨-1, [], none⟩ := by
  by_cases same : (system.pipeAt slot).readFd = fd.val
  · rw [on.read_empty_iff bytesRead same empty, if_pos killed]
    have isFinish : ((system.begunRead process slot bytesRead).release slot).finish process
        ⟨-1, [], none⟩ = system.finish process ⟨-1, [], none⟩ := by
      simp only [CallSystem.begunRead, CallSystem.acquire, CallSystem.setCall, CallSystem.release,
        CallSystem.finish, Function.update_idem]
      rw [← on.free, Function.update_eq_self]
    rw [isFinish]
  · exact on.refused_iff bytesRead same

/-- Two descriptors on a slot of systems that are otherwise the same, which `fileread` cannot tell
apart. -/
theorem CallSystem.Alike.sameCalls {first second : Fin nofile}
    (alike : left.Alike process slot first second) (same : left.shared = right.shared)
    (ready : left.Ready process)
    (pointsFirst : left.tables.pftable (process, first) = some slot)
    (pointsSecond : right.tables.pftable (process, second) = some slot) :
    SameCalls left right process first second := by
  intro call outcome
  by_cases byNumber : (∃ bytesRead, call = .fileread bytesRead) →
      (left.tables.ftable slot).isPipe = true →
        (left.pipeAt slot).readFd ≠ first.val ∧ (left.pipeAt slot).readFd ≠ second.val
  · exact sameCalls_of_begins (begins_shared same pointsFirst pointsSecond byNumber) outcome
  · push Not at byNumber
    obtain ⟨⟨bytesRead, rfl⟩, isPipe, oneIs⟩ := byNumber
    obtain ⟨killed, free, empty⟩ : left.killed process = true ∧ left.holder slot = none ∧
        (left.pipeAt slot).head = (left.pipeAt slot).tail := by
      rcases alike with notPipe | neither | read
      · exact absurd (notPipe.symm.trans isPipe) Bool.false_ne_true
      · exact absurd (oneIs neither.1) neither.2
      · exact read
    have onFirst : OnPipe left process first slot := ⟨ready, pointsFirst, isPipe, free⟩
    have facts : left.shared.Ready process ∧ (left.shared.tables.ftable slot).isPipe = true ∧
        left.shared.holder slot = none ∧ left.shared.killed process = true ∧
        (left.shared.pipeAt slot).head = (left.shared.pipeAt slot).tail :=
      ⟨ready, isPipe, free, killed, empty⟩
    rw [same] at facts
    obtain ⟨readyRight, isPipeRight, freeRight, killedRight, emptyRight⟩ := facts
    have onSecond : OnPipe right process second slot :=
      ⟨readyRight, pointsSecond, isPipeRight, freeRight⟩
    simp only [onFirst.read_killed_iff killed empty,
      onSecond.read_killed_iff killedRight emptyRight, exists_eq_left]
    show left.shared.finish process _ = outcome ↔ right.shared.finish process _ = outcome
    rw [same]

/-- The read end of a pipe does not return `-1` from every read, where a descriptor with another
number does. -/
theorem not_alike_read {fd : Fin nofile} (ready : system.Ready process)
    (points : system.tables.pftable (process, fd) = some slot)
    (isPipe : (system.tables.ftable slot).isPipe = true)
    (same : (system.pipeAt slot).readFd = fd.val)
    (otherwise : ¬ (system.killed process = true ∧ system.holder slot = none ∧
      (system.pipeAt slot).head = (system.pipeAt slot).tail)) :
    ¬ ∃ final, system.Performs process fd (.fileread 0) final ∧ final.Returned process (-1) := by
  by_cases free : system.holder slot = none
  · have on : OnPipe system process fd slot := ⟨ready, points, isPipe, free⟩
    by_cases empty : (system.pipeAt slot).head = (system.pipeAt slot).tail
    · rintro ⟨final, performs, returned⟩
      rw [on.read_empty_iff 0 same empty,
        if_neg fun killed => otherwise ⟨killed, free, empty⟩] at performs
      rw [performs] at returned
      split_ifs at returned
      · grind [finish_returned]
      · exact sleep_not_returned _ process slot PipeCall.noConfusion (-1) returned
    · rw [on.read_filled_iff 0 same empty]
      exact fun wants => lt_irrefl 0 wants.2
  · rintro ⟨final, ⟨began, begins, _⟩, _⟩
    simp only [FdCall.action, callStep, if_pos ready, CallSystem.fileread, points, isPipe, if_true]
      at begins
    have isRead : (system.tables.ftable slot).pipeBuffer.readFd = fd.val := same
    rw [if_neg (not_not.mpr isRead), if_pos free] at begins
    cases begins

/-- Two descriptors of a process on a slot end every call the same exactly when `fileread` cannot
tell them apart. -/
theorem sameCalls_self_iff {first second : Fin nofile} (ready : system.Ready process)
    (different : first ≠ second)
    (pointsFirst : system.tables.pftable (process, first) = some slot)
    (pointsSecond : system.tables.pftable (process, second) = some slot) :
    SameCalls system system process first second ↔ system.Alike process slot first second := by
  refine ⟨fun sameCalls => ?_, fun alike => alike.sameCalls rfl ready pointsFirst pointsSecond⟩
  -- the one that is not the read end returns `-1`, so the other one would have to
  have refuses : ∀ {fd : Fin nofile}, system.tables.pftable (process, fd) = some slot →
      (system.tables.ftable slot).isPipe = true → (system.pipeAt slot).readFd ≠ fd.val →
        ∃ final, system.Performs process fd (.fileread 0) final ∧ final.Returned process (-1) := by
    intro fd points isPipe other
    refine ⟨system.finish process ⟨-1, [], none⟩, ⟨_, ?_, .rests (finish_holds system process _)⟩,
      (finish_returned system process _ _).mpr rfl⟩
    simp only [FdCall.action, callStep, if_pos ready, CallSystem.fileread, points, isPipe, if_true]
    rw [if_pos (show (system.tables.ftable slot).pipeBuffer.readFd ≠ fd.val from other)]
    rfl
  by_contra unlike
  simp only [CallSystem.Alike, not_or, Bool.not_eq_false, not_and_or, not_not] at unlike
  obtain ⟨isPipe, oneIs, otherwise⟩ := unlike
  simp only [← not_and_or] at otherwise
  rcases oneIs with isFirst | isSecond
  · obtain ⟨final, performs, returned⟩ := refuses pointsSecond isPipe fun isSecond =>
      different (Fin.ext (Nat.cast_injective (isFirst.symm.trans isSecond)))
    obtain ⟨other, performsOther, same⟩ :=
      (sameCalls (.fileread 0) final.shared).mpr ⟨final, performs, rfl⟩
    refine not_alike_read ready pointsFirst isPipe isFirst otherwise ⟨other, performsOther, ?_⟩
    have returnedShared : final.shared.Returned process (-1) := returned
    rw [← same] at returnedShared
    exact returnedShared
  · obtain ⟨final, performs, returned⟩ := refuses pointsFirst isPipe fun isFirst =>
      different (Fin.ext (Nat.cast_injective (isFirst.symm.trans isSecond)))
    obtain ⟨other, performsOther, same⟩ :=
      (sameCalls (.fileread 0) final.shared).mp ⟨final, performs, rfl⟩
    refine not_alike_read ready pointsSecond isPipe isSecond otherwise ⟨other, performsOther, ?_⟩
    have returnedShared : final.shared.Returned process (-1) := returned
    rw [← same] at returnedShared
    exact returnedShared

end Shared

/-! ### Every reachable state -/

section Reached

variable {system after : CallSystem} {process : Fin nproc} {fd : Fin nofile} {slot : Fin nfile}

theorem ProcState.Awake.live {state : ProcState} (awake : state.Awake) : state.Live := Or.inr awake

/-- A successful `filedup` as a step. -/
theorem filedup_step {copy : Fin nofile}
    (points : system.tables.pftable (process, fd) = some slot)
    (dup : (filedup system.tables process fd).1 = copy)
    (taken : callStep system (.table (.filedup process fd)) = some after) :
    system.Ready process ∧ system.tables.freeDescriptor process = some copy ∧
      after = { system with
        tables := system.tables.point (process, copy) slot
          { system.tables.ftable slot with ref := (system.tables.ftable slot).ref + 1 }
        ends := endsAfter system.tables system.ends (.filedup process fd) } := by
  simp only [callStep] at taken
  split_ifs at taken with ready
  have ready : system.Ready process := ready
  obtain ⟨copied, free, isDup⟩ : ∃ new, system.tables.freeDescriptor process = some new ∧
      filedup system.tables process fd = ((new : Int), system.tables.point (process, new) slot
        { system.tables.ftable slot with ref := (system.tables.ftable slot).ref + 1 }) := by
    grind [filedup]
  rw [isDup] at dup
  obtain rfl : copied = copy := Fin.ext (Nat.cast_injective dup)
  refine ⟨ready, free, ?_⟩
  simp only [CallSystem.tableStep, fileStep, FileAction.caller, if_pos ready.1.live,
    Option.map_some, Option.some_inj, isDup] at taken
  exact taken.symm

/-- A `fileclose` of an open descriptor as a step. -/
theorem fileclose_callStep (counted : Counted system.tables) (ready : system.Ready process)
    (points : system.tables.pftable (process, fd) = some slot) :
    callStep system (.table (.fileclose process fd)) = some { system with
      tables := system.tables.unpoint (process, fd) slot (system.tables.ftable slot).closed
      ends := Function.update system.ends (process, fd) none } := by
  simp only [callStep, FileAction.caller, if_pos ready, CallSystem.tableStep, fileStep,
    if_pos ready.1.live, Option.map_some, counted.fileclose_eq points]
  rfl

/-- What `fileread` cannot tell apart depends on the slot and on the process. -/
theorem alike_congr (left right : CallSystem) {first second : Fin nofile}
    (isPipe : (left.tables.ftable slot).isPipe = (right.tables.ftable slot).isPipe)
    (pipe : left.pipeAt slot = right.pipeAt slot) (killed : left.killed = right.killed)
    (holder : left.holder = right.holder) :
    left.Alike process slot first second ↔ right.Alike process slot first second := by
  grind [CallSystem.Alike]

/-- A descriptor and the copy that `filedup` makes of it, in any state that a run reaches, are
interchangeable exactly when `fileread` cannot tell them apart. -/
theorem run_filedup_interchangeable_iff {fs : FileSystem} {actions : List CallAction}
    (runs : run callStep (.initial fs) actions = some system) {copy : Fin nofile}
    (points : system.tables.pftable (process, fd) = some slot)
    (dup : (filedup system.tables process fd).1 = copy)
    (taken : callStep system (.table (.filedup process fd)) = some after) :
    after.Interchangeable process fd copy ↔ system.Alike process slot fd copy := by
  have calls : PipeCallInvariant system :=
    run_invariant PipeCallInvariant (fun _ _ _ taken kept => kept.step taken) runs (.initial fs)
  have callsAfter := calls.step taken
  obtain ⟨ready, free, isAfter⟩ := filedup_step points dup taken
  have empty := (freeDescriptor_eq_some free).1
  have different : fd ≠ copy := by grind
  have isPointed : after.tables.pftable =
      Function.update system.tables.pftable (process, copy) (some slot) := by rw [isAfter]; rfl
  have isFile : after.tables.ftable slot =
      { system.tables.ftable slot with ref := (system.tables.ftable slot).ref + 1 } := by
    rw [isAfter]
    exact FileTables.point_ftable_self _ _ _ _
  have readyAfter : after.Ready process := by
    rw [isAfter]
    exact ready
  have pointsFd : after.tables.pftable (process, fd) = some slot := by simp_all
  have pointsCopy : after.tables.pftable (process, copy) = some slot := by
    rw [isPointed, Function.update_self]
  have alikeAfter : after.Alike process slot fd copy ↔ system.Alike process slot fd copy :=
    alike_congr after system (by rw [isFile]) (by rw [CallSystem.pipeAt, isFile]; rfl)
      (by rw [isAfter]) (by rw [isAfter])
  have shared : 1 < (after.tables.ftable slot).ref := by
    have positive := calls.exact.counted.ref_pos points
    rw [isFile]
    show 1 < (system.tables.ftable slot).ref + 1
    omega
  refine ⟨fun interchangeable => ?_, fun alike => ⟨?_, _, _,
    fileclose_callStep callsAfter.exact.counted readyAfter pointsCopy,
    fileclose_callStep callsAfter.exact.counted readyAfter pointsFd, ?_⟩⟩
  · rw [← alikeAfter, ← sameCalls_self_iff readyAfter different pointsFd pointsCopy]
    exact interchangeable.1
  · grind [sameCalls_self_iff]
  · have isClosed : (after.tables.unpoint (process, copy) slot
        (after.tables.ftable slot).closed).ftable slot = { after.tables.ftable slot with
          ref := (after.tables.ftable slot).ref - 1 } := by
      rw [FileInfo.closed, if_pos shared]
      exact Function.update_self slot _ _
    have pointsLeft : (after.tables.unpoint (process, copy) slot
        (after.tables.ftable slot).closed).pftable (process, fd) = some slot := by
      simp_all
    have pointsRight : (after.tables.unpoint (process, fd) slot
        (after.tables.ftable slot).closed).pftable (process, copy) = some slot := by
      rw [FileTables.unpoint_pftable,
        Function.update_of_ne fun same => different (congrArg Prod.snd same).symm]
      exact pointsCopy
    refine CallSystem.Alike.sameCalls ?_ rfl readyAfter pointsLeft pointsRight
    refine (alike_congr after { after with
      tables := after.tables.unpoint (process, copy) slot (after.tables.ftable slot).closed
      ends := Function.update after.ends (process, copy) none } ?_ ?_ rfl rfl).mp
        (alikeAfter.mpr alike)
    · exact (congrArg FileInfo.isPipe isClosed).symm
    · exact (congrArg FileInfo.pipeBuffer isClosed).symm

/-- A write end is interchangeable with its copy. -/
theorem run_filedup_interchangeable_iff_writeEnd : ∃ system after,
    run callStep (.initial .blank) [.table (.pipe 0)] = some system ∧
      callStep system (.table (.filedup 0 1)) = some after ∧ after.Interchangeable 0 1 2 := by
  obtain ⟨system, runs, facts⟩ := Option.map_eq_some_iff.mp (by decide +kernel :
    (run callStep (.initial .blank) [.table (.pipe 0)]).map (fun system =>
      decide (system.tables.pftable (0, 1) = some 0 ∧ (filedup system.tables 0 1).1 = 2 ∧
        (callStep system (.table (.filedup 0 1))).isSome = true ∧
        (system.pipeAt 0).readFd = 0)) = some true)
  obtain ⟨points, dup, steps, readFd⟩ := of_decide_eq_true facts
  obtain ⟨after, taken⟩ := Option.isSome_iff_exists.mp steps
  refine ⟨system, after, runs, taken, ?_⟩
  rw [run_filedup_interchangeable_iff runs points dup taken]
  refine Or.inr (Or.inl ?_)
  rw [readFd]
  decide

/-- A copy of a read end is refused by `fileread`. -/
theorem readEnd_not_interchangeable : ∃ system after,
    run callStep (.initial .blank) [.table (.pipe 0)] = some system ∧
      (filedup system.tables 0 0).1 = 2 ∧
      callStep system (.table (.filedup 0 0)) = some after ∧ ¬ after.Interchangeable 0 0 2 := by
  obtain ⟨system, runs, facts⟩ := Option.map_eq_some_iff.mp (by decide +kernel :
    (run callStep (.initial .blank) [.table (.pipe 0)]).map (fun system =>
      decide ((filedup system.tables 0 0).1 = 2 ∧
        (callStep system (.table (.filedup 0 0))).map (fun after => decide (after.Ready 0 ∧
          after.tables.pftable (0, 0) = some 0 ∧ after.tables.pftable (0, 2) = some 0 ∧
          (after.tables.ftable 0).isPipe = true ∧ (after.pipeAt 0).readFd = 0 ∧
          after.killed 0 = false)) = some true)) = some true)
  obtain ⟨dup, factsAfter⟩ := of_decide_eq_true facts
  obtain ⟨after, taken, isAfter⟩ := Option.map_eq_some_iff.mp factsAfter
  obtain ⟨ready, points, pointsCopy, isPipe, readFd, spared⟩ := of_decide_eq_true isAfter
  refine ⟨system, after, runs, dup, taken, fun interchangeable => ?_⟩
  rcases (sameCalls_self_iff ready (by decide) points pointsCopy).mp interchangeable.1 with
    notPipe | ⟨notRead, _⟩ | ⟨killed, _⟩
  · exact Bool.false_ne_true (notPipe.symm.trans isPipe)
  · exact notRead readFd
  · exact Bool.false_ne_true (spared.symm.trans killed)

end Reached

end Xk
