/-
This file decides when a process sleeps in a call on a pipe that it should return from. Whoever
sleeps in `fileread` sleeps on an empty pipe, and whoever sleeps in `filewrite` on a full one,
because every call that stores or takes bytes wakes the other side before it gives up the lock. That
another descriptor is left is what can fail: `fileclose` wakes nobody, `fileread` tests `ref` before
it goes to sleep and not while it does so, and `filewrite` does not test it on a full pipe at all.
A run goes through good states only exactly when none of its steps does one of these three.
-/

import Xk.PipeStreams

namespace Xk

open Transition

/-! ### What should hold -/

/-- A process sleeps on a channel of a pipe, which it does inside `fileread` on the one and inside
`filewrite` on the other. -/
def CallSystem.AsleepOn (system : CallSystem) (chan : PipeChan) (process : Fin nproc) : Prop :=
  system.tables.state process = .sleeping ∧ (system.call process).chan = some chan

/-- A process sleeps in a call on a pipe. -/
def CallSystem.AsleepIn (system : CallSystem) (slot : Fin nfile) (process : Fin nproc) : Prop :=
  system.AsleepOn (.read slot) process ∨ system.AsleepOn (.write slot) process

/-- While the lock of a pipe is free, those who sleep in `fileread` sleep on an empty pipe, those
who sleep in `filewrite` on a full one, and both have somebody to wait for. -/
def CallSystem.SleepsRightly (system : CallSystem) : Prop :=
  ∀ slot, system.holder slot = none → ∀ process,
    (system.AsleepOn (.read slot) process →
      (system.pipeAt slot).head = (system.pipeAt slot).tail ∧
        1 < (system.tables.ftable slot).ref) ∧
    (system.AsleepOn (.write slot) process →
      (system.pipeAt slot).Full ∧ 1 < (system.tables.ftable slot).ref)

/-- The pipe that a call goes to sleep on in its next turn. -/
def PipeCall.emptiedOn : PipeCall → Option (Fin nfile)
  | .emptied slot _ => some slot
  | _ => none

/-- The next turn of a process is a `sleep` on a pipe. -/
def CallSystem.SleepsNext (system : CallSystem) (process : Fin nproc) (slot : Fin nfile) : Prop :=
  (system.call process).emptiedOn = some slot ∨
    (system.call process).storesTo = some slot ∧ (system.pipeAt slot).Full

/-- No `fileclose` takes the last but one descriptor away while somebody sleeps in a call on the
pipe, and nobody goes to sleep with the only descriptor. -/
def CallSystem.Careful (system : CallSystem) : CallAction → Prop
  | .table (.fileclose process fd) => ∀ slot, system.tables.pftable (process, fd) = some slot →
    (system.tables.ftable slot).ref = 2 → system.holder slot = none →
      ∀ sleeper, ¬ system.AsleepIn slot sleeper
  | .turn process => ∀ slot, system.SleepsNext process slot → (system.tables.ftable slot).ref ≠ 1
  | _ => True

/-! ### Empty and full -/

/-- What the sleepers and the calls with the lock know about the pipe. -/
structure SleepInvariant (system : CallSystem) : Prop where
  emptied : ∀ process slot bytesRead, system.call process = .emptied slot bytesRead →
    (system.pipeAt slot).head = (system.pipeAt slot).tail
  readers : ∀ slot process, system.AsleepOn (.read slot) process →
    (system.pipeAt slot).head = (system.pipeAt slot).tail ∨
      ∃ writer write rest, system.call writer = .writing slot write rest
  writers : ∀ slot process, system.AsleepOn (.write slot) process →
    (system.pipeAt slot).Full ∨
      (∃ reader bytesRead bytes, system.call reader = .copying slot bytesRead bytes) ∨
      ∃ lost, system.holder slot = some lost ∧ (system.call lost).holds ≠ some slot

section Sleep

variable {system next : CallSystem} {process : Fin nproc}

theorem PipeCall.slot_of_chan {call : PipeCall} {slot : Fin nfile}
    (isChan : call.chan = some (.read slot) ∨ call.chan = some (.write slot)) :
    call.slot = some slot := by
  cases call with
  | idle | reading | emptied | copying | writing => exact isChan.elim nofun nofun
  | readAsleep on =>
    refine isChan.elim (fun same => ?_) nofun
    exact congrArg some (PipeChan.read.inj (Option.some_inj.mp same))
  | writeAsleep on =>
    refine isChan.elim nofun fun same => ?_
    exact congrArg some (PipeChan.write.inj (Option.some_inj.mp same))

theorem CallSystem.AsleepIn.slot {slot : Fin nfile} {sleeper : Fin nproc}
    (asleep : system.AsleepIn slot sleeper) : (system.call sleeper).slot = some slot :=
  PipeCall.slot_of_chan (asleep.imp And.right And.right)

theorem CallFrame.asleepOn (frame : CallFrame system process next) {other : Fin nproc}
    (different : other ≠ process) {chan : PipeChan} (asleep : next.AsleepOn chan other) :
    system.AsleepOn chan other := by
  obtain ⟨isAsleep, isChan⟩ := asleep
  rw [frame.calls other different] at isChan
  rcases frame.states other different with same | ⟨_, woken⟩
  · exact ⟨same ▸ isAsleep, isChan⟩
  · exact nomatch isAsleep.symm.trans woken

/-- Nobody sleeps on a channel that has just been woken. -/
theorem not_asleepOn_wakeup (system : CallSystem) (chan : PipeChan) (other : Fin nproc) :
    ¬ (system.wakeup chan).AsleepOn chan other := by
  rintro ⟨isAsleep, isChan⟩
  change (if _ then _ else _) = _ at isAsleep
  split_ifs at isAsleep with woken
  exact woken ⟨isAsleep, isChan⟩

/-- A lock that its holder has forgotten stays taken. -/
theorem CallMove.lost (calls : PipeCallInvariant system) (move : CallMove system process next)
    {slot : Fin nfile} {lost : Fin nproc} (holder : system.holder slot = some lost)
    (forgotten : (system.call lost).holds ≠ some slot) :
    next.holder slot = some lost ∧ (next.call lost).holds ≠ some slot := by
  cases move.lock with
  | kept same holds =>
    refine ⟨by rw [same]; exact holder, ?_⟩
    by_cases isProcess : lost = process
    · grind
    · rw [move.frame.calls lost isProcess]
      exact forgotten
  | acquired taken free isTaken holds =>
    have different : slot ≠ taken := by grind
    refine ⟨by rw [isTaken, Function.update_of_ne different]; exact holder, ?_⟩
    by_cases isProcess : lost = process
    · grind
    · rw [move.frame.calls lost isProcess]
      exact forgotten
  | released given held isGiven holds =>
    have different : slot ≠ given := by grind [PipeCallInvariant]
    refine ⟨by rw [isGiven, Function.update_of_ne different]; exact holder, ?_⟩
    by_cases isProcess : lost = process
    · grind
    · rw [move.frame.calls lost isProcess]
      exact forgotten

/-- A move that changes a pipe takes a byte out of it or puts one into it. -/
theorem CallMove.pipe (move : CallMove system process next) (slot : Fin nfile) :
    next.pipeAt slot = system.pipeAt slot ∨
      (∃ bytesRead bytes more, system.call process = .copying slot bytesRead bytes ∧
        (system.pipeAt slot).head ≠ (system.pipeAt slot).tail ∧
        next.call process = .copying slot bytesRead more) ∨
      ∃ write byte rest, system.call process = .writing slot write (byte :: rest) ∧
        ¬ (system.pipeAt slot).Full ∧ next.call process = .writing slot write rest := by
  cases move with
  | returned | beganRead | beganWrite | foundBytes | gaveUp | foundNone | sleptRead | resumedRead
  | dropped | endedRead | endedWrite | sleptWrite | brokenWrite | resumedWrite => exact Or.inl rfl
  | onInode _ on =>
    left
    refine system.tables.store_keeps FileInfo.pipeBuffer on ?_ slot
    rfl
  | copied on bytesRead bytes isCall filled =>
    by_cases same : slot = on
    · subst same
      exact Or.inr (Or.inl ⟨bytesRead, bytes, _, isCall, filled, Function.update_self process _ _⟩)
    · exact Or.inl (pipeAt_setPipe_of_ne system same _)
  | stored on write byte rest isCall notFull =>
    by_cases same : slot = on
    · subst same
      exact Or.inr (Or.inr ⟨write, byte, rest, isCall, notFull, Function.update_self process _ _⟩)
    · exact Or.inl (pipeAt_setPipe_of_ne system same _)

/-- A move does not change a pipe whose lock another process has. -/
theorem CallMove.pipe_kept (move : CallMove system process next) {slot : Fin nfile}
    (notHeld : (system.call process).holds ≠ some slot) :
    next.pipeAt slot = system.pipeAt slot := by
  rcases move.pipe slot with kept | ⟨_, _, _, isCall, _⟩ | ⟨_, _, _, isCall, _⟩
  · exact kept
  · exact absurd (by rw [isCall]; rfl) notHeld
  · exact absurd (by rw [isCall]; rfl) notHeld

theorem SleepInvariant.emptied_move (invariant : SleepInvariant system)
    (calls : PipeCallInvariant system) (move : CallMove system process next) {other : Fin nproc}
    {slot : Fin nfile} {bytesRead : Int} (isCall : next.call other = .emptied slot bytesRead) :
    (next.pipeAt slot).head = (next.pipeAt slot).tail := by
  have own : ∀ {call : PipeCall},
      Function.update system.call process call process = .emptied slot bytesRead →
        call = .emptied slot bytesRead := fun isCall => by
    grind
  by_cases same : other = process
  · rw [same] at isCall
    cases move with
    | foundNone on _ _ empty =>
      obtain ⟨rfl, _⟩ := PipeCall.emptied.inj (own isCall)
      exact empty
    | returned | onInode | beganRead | beganWrite | foundBytes | gaveUp | sleptRead | resumedRead
    | dropped | endedRead | copied | endedWrite | sleptWrite | brokenWrite | stored
    | resumedWrite => exact nomatch own isCall
  · rw [move.frame.calls other same] at isCall
    have notHeld : (system.call process).holds ≠ some slot := fun held => same
      (Option.some_inj.mp ((calls.held other slot (by rw [isCall]; rfl)).symm.trans
        (calls.held process slot held)))
    rw [move.pipe_kept notHeld]
    exact invariant.emptied other slot bytesRead isCall

theorem SleepInvariant.readers_move (invariant : SleepInvariant system)
    (calls : PipeCallInvariant system) (move : CallMove system process next) {other : Fin nproc}
    (different : other ≠ process) {slot : Fin nfile}
    (asleep : next.AsleepOn (.read slot) other) :
    (next.pipeAt slot).head = (next.pipeAt slot).tail ∨
      ∃ writer write rest, next.call writer = .writing slot write rest := by
  have before := move.frame.asleepOn different asleep
  obtain ⟨fd, points⟩ := calls.engaged other slot
    (CallSystem.AsleepIn.slot (Or.inl before))
  by_cases writes : ∃ write rest, system.call process = .writing slot write rest
  · -- the process is the one that writes: it wakes the readers before it gives up the lock
    obtain ⟨write, rest, isCall⟩ := writes
    cases move with
    | returned ready | onInode ready | beganRead ready | beganWrite ready =>
      have none := ready.2
      rw [isCall] at none
      cases none
    | foundBytes _ _ isOther | gaveUp _ _ isOther | foundNone _ _ isOther | sleptRead _ _ isOther
    | resumedRead _ _ isOther | dropped _ _ _ isOther | endedRead _ _ _ isOther
    | copied _ _ _ isOther | resumedWrite _ _ _ isOther => exact nomatch isCall.symm.trans isOther
    | endedWrite on written isSame =>
      obtain ⟨rfl, _, _⟩ := PipeCall.writing.inj (isCall.symm.trans isSame)
      refine absurd ?_ (not_asleepOn_wakeup system (.read slot) other)
      exact ⟨asleep.1, before.2⟩
    | sleptWrite on written left isSame =>
      obtain ⟨rfl, _, _⟩ := PipeCall.writing.inj (isCall.symm.trans isSame)
      refine absurd ?_ (not_asleepOn_wakeup system (.read slot) other)
      refine ⟨?_, before.2⟩
      rw [← asleep.1]
      exact (Function.update_of_ne different _ _).symm
    | brokenWrite on written left isSame alone =>
      obtain ⟨rfl, _, _⟩ := PipeCall.writing.inj (isCall.symm.trans isSame)
      obtain ⟨own, pointsOwn⟩ := calls.engaged process slot (by rw [isCall]; rfl)
      have two := calls.two_le_ref different fd points own pointsOwn
      rw [alone] at two
      exact absurd two (by decide)
    | stored on written byte left isSame =>
      obtain ⟨rfl, _, _⟩ := PipeCall.writing.inj (isCall.symm.trans isSame)
      exact Or.inr ⟨process, written, left, Function.update_self process _ _⟩
  · push Not at writes
    rcases invariant.readers slot other before with empty | ⟨writer, write, rest, isWriter⟩
    · grind [CallMove.pipe]
    · have isOther : writer ≠ process := by grind
      exact Or.inr ⟨writer, write, rest, (move.frame.calls writer isOther).trans isWriter⟩

theorem SleepInvariant.writers_move (invariant : SleepInvariant system)
    (calls : PipeCallInvariant system) (move : CallMove system process next) {other : Fin nproc}
    (different : other ≠ process) {slot : Fin nfile}
    (asleep : next.AsleepOn (.write slot) other) :
    (next.pipeAt slot).Full ∨
      (∃ reader bytesRead bytes, next.call reader = .copying slot bytesRead bytes) ∨
      ∃ lost, next.holder slot = some lost ∧ (next.call lost).holds ≠ some slot := by
  have before := move.frame.asleepOn different asleep
  by_cases copies : ∃ bytesRead bytes, system.call process = .copying slot bytesRead bytes
  · -- the process is the one that copies: it wakes the writers before it gives up the lock
    obtain ⟨bytesRead, bytes, isCall⟩ := copies
    cases move with
    | returned ready | onInode ready | beganRead ready | beganWrite ready =>
      have none := ready.2
      rw [isCall] at none
      cases none
    | foundBytes _ _ isOther | gaveUp _ _ isOther | foundNone _ _ isOther | sleptRead _ _ isOther
    | resumedRead _ _ isOther | endedWrite _ _ isOther | sleptWrite _ _ _ isOther
    | brokenWrite _ _ _ isOther | stored _ _ _ _ isOther | resumedWrite _ _ _ isOther =>
      exact nomatch isCall.symm.trans isOther
    | dropped on _ _ isSame =>
      -- the process returns with the lock, which nobody gives back
      refine Or.inr (Or.inr ⟨process, calls.held process slot (by rw [isCall]; rfl), ?_⟩)
      rw [show (system.finish process ⟨-1, _, none⟩).call process = .idle from
        Function.update_self process _ _]
      exact fun taken => nomatch taken
    | endedRead on _ _ isSame =>
      obtain ⟨rfl, _, _⟩ := PipeCall.copying.inj (isCall.symm.trans isSame)
      refine absurd ?_ (not_asleepOn_wakeup system (.write slot) other)
      exact ⟨asleep.1, before.2⟩
    | copied on _ _ isSame =>
      obtain ⟨rfl, _, _⟩ := PipeCall.copying.inj (isCall.symm.trans isSame)
      exact Or.inr (Or.inl ⟨process, _, _, Function.update_self process _ _⟩)
  · push Not at copies
    rcases invariant.writers slot other before with full | ⟨reader, bytesRead, bytes, isReader⟩ |
      ⟨lost, holder, forgotten⟩
    · grind [CallMove.pipe]
    · have isOther : reader ≠ process := by grind
      exact Or.inr (Or.inl ⟨reader, bytesRead, bytes,
        (move.frame.calls reader isOther).trans isReader⟩)
    · exact Or.inr (Or.inr ⟨lost, move.lost calls holder forgotten⟩)

/-- A process falls asleep only in `sleep`, which it enters with the lock. -/
inductive FellAsleep (system : CallSystem) (process : Fin nproc) (slot : Fin nfile)
    (next : CallSystem) : Prop
  | read (bytesRead : Int) (isCall : system.call process = .emptied slot bytesRead)
      (asleep : next.AsleepOn (.read slot) process)
  | write (stores : (system.call process).storesTo = some slot)
      (full : (system.pipeAt slot).Full) (asleep : next.AsleepOn (.write slot) process)

theorem CallMove.fellAsleep (move : CallMove system process next)
    (awake : (system.tables.state process).Awake) {slot : Fin nfile}
    (asleep : next.AsleepIn slot process) :
    FellAsleep system process slot next ∧ next.pipeAt slot = system.pipeAt slot := by
  have isAsleep : next.tables.state process = .sleeping := asleep.elim And.left And.left
  have inSleep : (next.call process).chan ≠ none := by
    rcases move.state awake with kept | ⟨_, inSleep⟩
    · rw [kept] at isAsleep
      rw [isAsleep] at awake
      exact absurd awake (by decide)
    · exact inSleep
  have notIn : ∀ {call : PipeCall},
      (Function.update system.call process call process).chan ≠ none → call.chan ≠ none :=
    fun inCall => by
      grind
  have isSlot : ∀ {call : PipeCall},
      (Function.update system.call process call process).slot = some slot →
        call.slot = some slot := fun isOn => by
    grind
  cases move with
  | returned | onInode | beganRead | beganWrite | foundBytes | gaveUp | foundNone | resumedRead
  | dropped | endedRead | copied | endedWrite | brokenWrite | stored | resumedWrite =>
    exact absurd rfl (notIn inSleep)
  | sleptRead on bytesRead isCall =>
    obtain rfl : on = slot := Option.some_inj.mp (isSlot asleep.slot)
    refine ⟨.read bytesRead isCall ⟨isAsleep, ?_⟩, rfl⟩
    exact congrArg PipeCall.chan (Function.update_self process _ system.call)
  | sleptWrite on write rest isCall left full =>
    obtain rfl : on = slot := Option.some_inj.mp (isSlot asleep.slot)
    refine ⟨.write ?_ full ⟨isAsleep, ?_⟩, rfl⟩
    · rw [isCall]
      cases rest with
      | nil => exact absurd rfl left
      | cons => rfl
    · exact congrArg PipeCall.chan (Function.update_self process _ system.call)

/-- Nobody sleeps on both channels. -/
theorem CallSystem.AsleepOn.chan_eq {first second : PipeChan} {sleeper : Fin nproc}
    (onFirst : system.AsleepOn first sleeper) (onSecond : system.AsleepOn second sleeper) :
    first = second :=
  Option.some_inj.mp (onFirst.2.symm.trans onSecond.2)

theorem SleepInvariant.move (invariant : SleepInvariant system) (calls : PipeCallInvariant system)
    (awake : (system.tables.state process).Awake) (move : CallMove system process next) :
    SleepInvariant next where
  emptied _ _ _ isCall := invariant.emptied_move calls move isCall
  readers slot other asleep := by
    by_cases same : other = process
    · subst same
      obtain ⟨fell, pipe⟩ := move.fellAsleep awake (Or.inl asleep)
      left
      rw [pipe]
      cases fell with
      | read bytesRead isCall _ => exact invariant.emptied other slot bytesRead isCall
      | write _ _ onWrite => exact nomatch asleep.chan_eq onWrite
    · exact invariant.readers_move calls move same asleep
  writers slot other asleep := by
    by_cases same : other = process
    · subst same
      obtain ⟨fell, pipe⟩ := move.fellAsleep awake (Or.inr asleep)
      left
      rw [pipe]
      cases fell with
      | read _ _ onRead => exact nomatch onRead.chan_eq asleep
      | write _ full _ => exact full
    · exact invariant.writers_move calls move same asleep

theorem TableFrame.asleepOn {action : FileAction} (calls : PipeCallInvariant system)
    (frame : TableFrame system action next) {chan : PipeChan} {other : Fin nproc}
    (asleep : next.AsleepOn chan other) : system.AsleepOn chan other :=
  ⟨calls.exact.fileStep_asleep frame.taken asleep.1, frame.call ▸ asleep.2⟩

theorem SleepInvariant.table (invariant : SleepInvariant system) (calls : PipeCallInvariant system)
    {action : FileAction} (frame : TableFrame system action next) : SleepInvariant next where
  emptied other slot bytesRead isCall := by
    rw [frame.call] at isCall
    rw [frame.pipe_kept calls.exact.counted (calls.not_makes (by rw [isCall]; rfl))]
    exact invariant.emptied other slot bytesRead isCall
  readers slot other asleep := by
    have before := frame.asleepOn calls asleep
    rw [frame.call, frame.pipe_kept calls.exact.counted
      (calls.not_makes (CallSystem.AsleepIn.slot (Or.inl before)))]
    exact invariant.readers slot other before
  writers slot other asleep := by
    have before := frame.asleepOn calls asleep
    rw [frame.call, frame.holder, frame.pipe_kept calls.exact.counted
      (calls.not_makes (CallSystem.AsleepIn.slot (Or.inr before)))]
    exact invariant.writers slot other before

theorem kill_call (system : CallSystem) (target : Fin nproc) :
    (system.kill target).call = system.call := by
  unfold CallSystem.kill
  dsimp only
  split_ifs <;> rfl

theorem kill_holder (system : CallSystem) (target : Fin nproc) :
    (system.kill target).holder = system.holder := by
  unfold CallSystem.kill
  dsimp only
  split_ifs <;> rfl

theorem kill_ftable (system : CallSystem) (target : Fin nproc) :
    (system.kill target).tables.ftable = system.tables.ftable := by
  unfold CallSystem.kill
  dsimp only
  split_ifs <;> rfl

theorem kill_asleepOn {target other : Fin nproc} {chan : PipeChan}
    (asleep : (system.kill target).AsleepOn chan other) : system.AsleepOn chan other := by
  refine ⟨?_, kill_call system target ▸ asleep.2⟩
  have isAsleep := asleep.1
  unfold CallSystem.kill at isAsleep
  dsimp only at isAsleep
  split_ifs at isAsleep with wasAsleep
  · by_cases same : other = target
    · rw [same]
      exact wasAsleep
    · rw [← isAsleep]
      exact (Function.update_of_ne same _ _).symm
  · exact isAsleep

theorem SleepInvariant.kill (invariant : SleepInvariant system) (target : Fin nproc) :
    SleepInvariant (system.kill target) where
  emptied other slot bytesRead isCall := by
    rw [kill_call] at isCall
    rw [CallSystem.pipeAt, kill_ftable]
    exact invariant.emptied other slot bytesRead isCall
  readers slot other asleep := by
    rw [CallSystem.pipeAt, kill_ftable, kill_call]
    exact invariant.readers slot other (kill_asleepOn asleep)
  writers slot other asleep := by
    rw [CallSystem.pipeAt, kill_ftable, kill_call, kill_holder]
    exact invariant.writers slot other (kill_asleepOn asleep)

theorem SleepInvariant.initial (fs : FileSystem) : SleepInvariant (.initial fs) :=
  ⟨(fun _ _ _ isCall => nomatch isCall), (fun _ _ asleep => nomatch asleep.2),
    (fun _ _ asleep => nomatch asleep.2)⟩

/-! ### Somebody to wait for -/

/-- While the lock of a pipe is free, those who sleep in a call on it do not have its only
descriptor. -/
def CallSystem.Accompanied (system : CallSystem) : Prop :=
  ∀ slot, system.holder slot = none → ∀ sleeper, system.AsleepIn slot sleeper →
    1 < (system.tables.ftable slot).ref

theorem SleepInvariant.sleepsRightly_iff (invariant : SleepInvariant system)
    (calls : PipeCallInvariant system) : system.SleepsRightly ↔ system.Accompanied := by
  constructor
  · intro rightly slot free sleeper asleep
    rcases asleep with onRead | onWrite
    · exact ((rightly slot free sleeper).1 onRead).2
    · exact ((rightly slot free sleeper).2 onWrite).2
  · intro accompanied slot free sleeper
    refine ⟨fun onRead => ⟨?_, accompanied slot free sleeper (Or.inl onRead)⟩,
      fun onWrite => ⟨?_, accompanied slot free sleeper (Or.inr onWrite)⟩⟩
    · rcases invariant.readers slot sleeper onRead with empty | ⟨writer, _, _, isCall⟩
      · exact empty
      · exact nomatch free.symm.trans (calls.held writer slot (by rw [isCall]; rfl))
    · rcases invariant.writers slot sleeper onWrite with full | ⟨reader, _, _, isCall⟩ |
        ⟨lost, holder, _⟩
      · exact full
      · exact nomatch free.symm.trans (calls.held reader slot (by rw [isCall]; rfl))
      · exact nomatch free.symm.trans holder

theorem CallSystem.SleepsNext.slot {slot : Fin nfile} (sleeps : system.SleepsNext process slot) :
    (system.call process).slot = some slot := by
  unfold CallSystem.SleepsNext at sleeps
  cases isCall : system.call process with
  | emptied =>
    rw [isCall] at sleeps
    exact sleeps.elim id fun stores => nomatch stores.1
  | writing on write rest =>
    rw [isCall] at sleeps
    refine sleeps.elim nofun fun stores => ?_
    cases rest with
    | nil => cases stores.1
    | cons => exact stores.1
  | idle | reading | readAsleep | copying | writeAsleep =>
    rw [isCall] at sleeps
    exact sleeps.elim nofun fun stores => nomatch stores.1

/-- Who gives up a lock has a descriptor, and so has everybody who sleeps. -/
theorem CallMove.accompanied (calls : PipeCallInvariant system)
    (awake : (system.tables.state process).Awake) (move : CallMove system process next)
    (accompanied : system.Accompanied)
    (careful : ∀ slot, system.SleepsNext process slot → (system.tables.ftable slot).ref ≠ 1) :
    next.Accompanied := by
  intro slot free sleeper asleep
  rw [move.frame.ref slot]
  by_cases same : sleeper = process
  · subst same
    obtain ⟨fell, _⟩ := move.fellAsleep awake asleep
    have sleeps : system.SleepsNext sleeper slot := by
      cases fell with
      | read bytesRead isCall _ => exact Or.inl (by rw [isCall]; rfl)
      | write stores full _ => exact Or.inr ⟨stores, full⟩
    obtain ⟨fd, points⟩ := calls.engaged sleeper slot sleeps.slot
    have positive := calls.exact.counted.ref_pos points
    have notOne := careful slot sleeps
    omega
  · have before : system.AsleepIn slot sleeper :=
      asleep.imp (move.frame.asleepOn same) (move.frame.asleepOn same)
    by_cases wasFree : system.holder slot = none
    · exact accompanied slot wasFree sleeper before
    · -- the process has just released the lock of this pipe
      cases move.lock with
      | kept isSame _ => exact absurd (isSame ▸ free) wasFree
      | acquired taken _ isTaken _ =>
        rw [isTaken] at free
        by_cases isSlot : slot = taken
        · grind
        · grind
      | released given held isGiven _ =>
        have isSlot : slot = given := by
          by_contra different
          rw [isGiven, Function.update_of_ne different] at free
          exact wasFree free
        subst isSlot
        obtain ⟨fd, points⟩ := calls.engaged sleeper slot before.slot
        obtain ⟨own, pointsOwn⟩ := calls.engaged process slot (PipeCall.slot_of_holds held)
        exact calls.two_le_ref same fd points own pointsOwn

/-- The references to a pipe that somebody sleeps on, after an operation on the tables. -/
theorem TableFrame.ref_asleep {action : FileAction} (calls : PipeCallInvariant system)
    (frame : TableFrame system action next) {slot : Fin nfile} {sleeper : Fin nproc}
    (asleep : system.AsleepIn slot sleeper) :
    (system.tables.ftable slot).ref ≤ (next.tables.ftable slot).ref ∨
      ∃ caller fd, action = .fileclose caller fd ∧
        system.tables.pftable (caller, fd) = some slot := by
  by_cases closes : ∃ caller fd, action = .fileclose caller fd
  · obtain ⟨caller, fd, isClose⟩ := closes
    have taken := frame.taken
    rw [isClose] at taken
    cases points : system.tables.pftable (caller, fd) with
    | none => grind [fileclose_step_none]
    | some closed =>
      by_cases same : slot = closed
      · exact Or.inr ⟨caller, fd, isClose, same ▸ points⟩
      · rw [calls.exact.counted.fileclose_step points taken]
        left
        exact le_of_eq (congrArg FileInfo.ref (Function.update_of_ne same _ _)).symm
  · push Not at closes
    exact Or.inl (frame.slot_kept closes (calls.not_makes asleep.slot)).ref

theorem Counted.fileclose_ref {tables after : FileTables} (counted : Counted tables)
    {caller : Fin nproc} {fd : Fin nofile} {slot : Fin nfile}
    (points : tables.pftable (caller, fd) = some slot)
    (taken : fileStep tables (.fileclose caller fd) = some after)
    (shared : 1 < (tables.ftable slot).ref) :
    (after.ftable slot).ref = (tables.ftable slot).ref - 1 := by
  rw [counted.fileclose_step points taken]
  show (Function.update tables.ftable slot _ slot).ref = _
  rw [Function.update_self, FileInfo.closed, if_pos shared]

theorem TableFrame.accompanied {action : FileAction} (calls : PipeCallInvariant system)
    (frame : TableFrame system action next) (accompanied : system.Accompanied)
    (careful : system.Careful (.table action)) : next.Accompanied := by
  intro slot free sleeper asleep
  have before : system.AsleepIn slot sleeper :=
    asleep.imp (frame.asleepOn calls) (frame.asleepOn calls)
  rw [frame.holder] at free
  have shared := accompanied slot free sleeper before
  rcases frame.ref_asleep calls before with grows | ⟨caller, fd, rfl, points⟩
  · exact shared.trans_le grows
  · have notTwo : (system.tables.ftable slot).ref ≠ 2 := fun two =>
      careful slot points two free sleeper before
    rw [calls.exact.counted.fileclose_ref points frame.taken shared]
    omega

/-- A `fileclose` leaves the last descriptor to somebody who sleeps. -/
theorem not_accompanied_fileclose (calls : PipeCallInvariant system) {caller : Fin nproc}
    {fd : Fin nofile} (taken : callStep system (.table (.fileclose caller fd)) = some next)
    {slot : Fin nfile} (points : system.tables.pftable (caller, fd) = some slot)
    (two : (system.tables.ftable slot).ref = 2) (free : system.holder slot = none)
    {sleeper : Fin nproc} (asleep : system.AsleepIn slot sleeper) : ¬ next.Accompanied := by
  intro accompanied
  simp only [callStep] at taken
  split_ifs at taken with ready
  have frame := tableStep_frame taken
  have isAsleep : system.tables.state sleeper = .sleeping := asleep.elim And.left And.left
  have different : sleeper ≠ caller := by
    rintro rfl
    have awake := ready.1
    change (system.tables.state sleeper).Awake at awake
    rw [isAsleep] at awake
    exact absurd awake (by decide)
  have stays := (calls.exact.fileStep_others frame.taken different (calls.live asleep.slot)).2
  have asleepNext : next.AsleepIn slot sleeper := asleep.imp
    (fun on => ⟨stays.trans on.1, frame.call ▸ on.2⟩)
    (fun on => ⟨stays.trans on.1, frame.call ▸ on.2⟩)
  have shared := accompanied slot (by rw [frame.holder]; exact free) sleeper asleepNext
  rw [calls.exact.counted.fileclose_ref points frame.taken (by rw [two]; decide), two] at shared
  exact absurd shared (by decide)

/-- What `sleep` leaves behind. -/
theorem sleep_asleepOn (system : CallSystem) (process : Fin nproc) (slot : Fin nfile)
    {call : PipeCall} {chan : PipeChan} (isChan : call.chan = some chan) :
    (system.sleep process slot call).AsleepOn chan process := by
  refine ⟨Function.update_self process _ _, ?_⟩
  simp only [CallSystem.sleep, CallSystem.setState, CallSystem.setCall, CallSystem.release,
    Function.update_self, isChan]

theorem sleep_holder (system : CallSystem) (process : Fin nproc) (slot : Fin nfile)
    (call : PipeCall) : (system.sleep process slot call).holder slot = none := by
  simp only [CallSystem.sleep, CallSystem.setState, CallSystem.setCall, CallSystem.release,
    Function.update_self]

/-- A process goes to sleep with the only descriptor. -/
theorem not_accompanied_sleep (taken : system.turn process = some next) {slot : Fin nfile}
    (sleeps : system.SleepsNext process slot) (alone : (system.tables.ftable slot).ref = 1) :
    ¬ next.Accompanied := by
  intro accompanied
  unfold CallSystem.SleepsNext at sleeps
  unfold CallSystem.turn at taken
  cases isCall : system.call process with
  | emptied on bytesRead =>
    rw [isCall] at sleeps
    obtain rfl : on = slot := Option.some_inj.mp (sleeps.elim id fun stores => by cases stores.1)
    simp only [isCall, Option.some_inj] at taken
    rw [← taken] at accompanied
    have shared := accompanied on (sleep_holder _ _ _ _) process
      (Or.inl (sleep_asleepOn _ process on rfl))
    exact absurd alone (ne_of_gt shared)
  | writing on write rest =>
    rw [isCall] at sleeps
    obtain ⟨stores, full⟩ := sleeps.resolve_left fun isSome => by cases isSome
    cases rest with
    | nil => cases stores
    | cons byte rest =>
      obtain rfl : on = slot := Option.some_inj.mp stores
      simp only [isCall, CallSystem.writeTurn] at taken
      rw [if_pos (show (system.tables.ftable on).pipeBuffer.Full from full),
        Option.some_inj] at taken
      rw [← taken] at accompanied
      have shared := accompanied on (sleep_holder _ _ _ _) process
        (Or.inr (sleep_asleepOn _ process on rfl))
      exact absurd alone (ne_of_gt shared)
  | idle | reading | readAsleep | copying | writeAsleep =>
    rw [isCall] at sleeps
    rcases sleeps with isSome | ⟨isSome, _⟩ <;> cases isSome

/-- A step keeps the sleepers accompanied exactly when it is careful. -/
theorem accompanied_step_iff (calls : PipeCallInvariant system) (accompanied : system.Accompanied)
    {action : CallAction} (taken : callStep system action = some next) :
    next.Accompanied ↔ system.Careful action := by
  constructor
  · intro accompaniedNext
    unfold CallSystem.Careful
    split
    · grind [not_accompanied_fileclose]
    · grind [callStep, not_accompanied_sleep]
    · trivial
  · intro careful
    rcases callStep_cases taken with ⟨tableAction, rfl, _, tables⟩ | ⟨mover, awake, move, isTurn⟩ |
      ⟨target, _, rfl⟩
    · exact (tableStep_frame tables).accompanied calls accompanied careful
    · refine move.accompanied calls awake accompanied fun slot sleeps => ?_
      rw [isTurn (by rw [sleeps.slot]; exact Option.some_ne_none slot)] at careful
      exact careful slot sleeps
    · intro slot free sleeper asleep
      rw [kill_holder] at free
      rw [kill_ftable]
      exact accompanied slot free sleeper (asleep.imp kill_asleepOn kill_asleepOn)

theorem SleepInvariant.step (invariant : SleepInvariant system) (calls : PipeCallInvariant system)
    {action : CallAction} (taken : callStep system action = some next) : SleepInvariant next := by
  rcases callStep_cases taken with ⟨_, _, _, tables⟩ | ⟨_, awake, move, _⟩ | ⟨target, _, rfl⟩
  · exact invariant.table calls (tableStep_frame tables)
  · exact invariant.move calls awake move
  · exact invariant.kill target

end Sleep

/-! ### Whole runs -/

/-- A run goes only through states in which nobody sleeps in a call on a pipe that they should
return from exactly when all of its steps are careful. -/
theorem run_sleepsRightly_iff {fs : FileSystem} {actions : List CallAction} {final : CallSystem}
    (runs : run callStep (.initial fs) actions = some final) :
    Along callStep CallSystem.SleepsRightly (.initial fs) actions ↔
      Respects callStep CallSystem.Careful (.initial fs) actions := by
  have kept : ∀ system action next, callStep system action = some next →
      PipeCallInvariant system ∧ SleepInvariant system →
        PipeCallInvariant next ∧ SleepInvariant next :=
    fun _ _ _ taken ⟨calls, sleeps⟩ => ⟨calls.step taken, sleeps.step calls taken⟩
  refine along_iff_respects kept ?_ runs ⟨.initial fs, .initial fs⟩ ?_
  · grind [SleepInvariant.sleepsRightly_iff, accompanied_step_iff]
  · intro slot _ process
    exact ⟨(fun asleep => nomatch asleep.2), (fun asleep => nomatch asleep.2)⟩

instance decidableAsleepOn (system : CallSystem) (chan : PipeChan) (process : Fin nproc) :
    Decidable (system.AsleepOn chan process) :=
  inferInstanceAs (Decidable (_ ∧ _))

instance decidableAsleepIn (system : CallSystem) (slot : Fin nfile) (process : Fin nproc) :
    Decidable (system.AsleepIn slot process) :=
  inferInstanceAs (Decidable (_ ∨ _))

instance decidableSleepsNext (system : CallSystem) (process : Fin nproc) (slot : Fin nfile) :
    Decidable (system.SleepsNext process slot) :=
  inferInstanceAs (Decidable (_ ∨ _ ∧ _))

instance decidableCareful (system : CallSystem) (action : CallAction) :
    Decidable (system.Careful action) := by
  unfold CallSystem.Careful
  split <;> infer_instance

/-- A child waits in `fileread` until its parent has written. -/
theorem run_sleepsRightly_iff_waits : ∃ final, run callStep (.initial .blank)
      [.table (.pipe 0), .table (.fork 0 true), .fileread 1 0 5, .turn 1, .turn 1,
        .filewrite 0 1 [7], .turn 0, .turn 0] = some final ∧
      Along callStep CallSystem.SleepsRightly (.initial .blank)
        [.table (.pipe 0), .table (.fork 0 true), .fileread 1 0 5, .turn 1, .turn 1,
          .filewrite 0 1 [7], .turn 0, .turn 0] := by
  obtain ⟨final, runs⟩ := Option.isSome_iff_exists.mp (by decide +kernel :
    (run callStep (.initial .blank)
      [.table (.pipe 0), .table (.fork 0 true), .fileread 1 0 5, .turn 1, .turn 1,
        .filewrite 0 1 [7], .turn 0, .turn 0]).isSome = true)
  exact ⟨final, runs, (run_sleepsRightly_iff runs).mpr (by decide +kernel)⟩

/-- A child waits in `fileread`, and then its parent, which has the only write end, closes it: the
child has the only descriptor of the pipe and sleeps on. -/
theorem reader_leftAsleep : ∃ final, run callStep (.initial .blank)
      [.table (.pipe 0), .table (.fork 0 true), .table (.fileclose 1 1), .table (.fileclose 0 0),
        .fileread 1 0 5, .turn 1, .turn 1, .table (.fileclose 0 1)] = some final ∧
      (final.tables.ftable 0).ref = 1 ∧ final.AsleepOn (.read 0) 1 ∧ ¬ final.SleepsRightly := by
  obtain ⟨final, runs, facts⟩ := Option.map_eq_some_iff.mp (by decide +kernel :
    (run callStep (.initial .blank)
      [.table (.pipe 0), .table (.fork 0 true), .table (.fileclose 1 1), .table (.fileclose 0 0),
        .fileread 1 0 5, .turn 1, .turn 1, .table (.fileclose 0 1)]).map (fun final =>
          (final.holder 0, (final.tables.ftable 0).ref, decide (final.AsleepOn (.read 0) 1))) =
            some (none, 1, true))
  obtain ⟨free, facts⟩ := Prod.mk.inj facts
  obtain ⟨ref, asleep⟩ := Prod.mk.inj facts
  have isAsleep := of_decide_eq_true asleep
  refine ⟨final, runs, ref, isAsleep, fun rightly => ?_⟩
  have shared := ((rightly 0 free 1).1 isAsleep).2
  rw [ref] at shared
  exact absurd shared (by decide)

end Xk
