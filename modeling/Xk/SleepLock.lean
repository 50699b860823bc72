/-
This file models the sleep locks of `kernel/sleeplock.c` together with `sleep` and `wakeup` of
`kernel/proc.c`, for any number of processes on any number of processors. A step is one access to
memory that other processors see: taking or releasing one of the two spinlocks, a test or an
assignment, or one entry of the process table in the loop of `wakeup1`.

What `sleep` does with its two locks is what no wake-up is lost by. A process that has found the
lock taken holds the inner spinlock until it holds `ptable.lock`, and this one until it is
`SLEEPING`. So whoever releases the lock afterwards still has the table to go through, and
somebody in it.
-/

import Xk.Mutex
import Xk.Params
import Xk.Transition

namespace Xk

open Mutex Transition

/-! ### The code -/

/-- Where a process is: the statement of `acquiresleep`, `releasesleep`, `sleep` or `wakeup` that it
executes next. -/
inductive SleepPc (Proc : Type)
  /-- In none of them. -/
  | outside
  /-- `acquire(&lk->lk)` of `acquiresleep`, also where `sleep` takes the lock back. -/
  | acquire
  /-- `while (lk->locked)` -/
  | test
  /-- `acquire(&ptable.lock)` of `sleep` -/
  | sleep
  /-- `release(lk)` of `sleep` -/
  | handOver
  /-- `myproc()->chan = chan` -/
  | setChan
  /-- `myproc()->state = SLEEPING` -/
  | setState
  /-- `sched()` -/
  | sched
  /-- Off the processor, in `sched()`. -/
  | parked
  /-- `myproc()->chan = 0` -/
  | tidy
  /-- `release(&ptable.lock)` of `sleep` -/
  | letGo
  /-- `lk->locked = 1` -/
  | lock
  /-- `lk->pid = myproc()->pid` -/
  | sign
  /-- `release(&lk->lk)` of `acquiresleep` -/
  | leave
  /-- `acquire(&lk->lk)` of `releasesleep` -/
  | release
  /-- `lk->locked = 0` -/
  | unlock
  /-- `lk->pid = 0` -/
  | unsign
  /-- `acquire(&ptable.lock)` of `wakeup` -/
  | wakeup
  /-- `wakeup1`, with the entries of the table it has not looked at. -/
  | scan (rest : List Proc)
  /-- `release(&ptable.lock)` of `wakeup` -/
  | woken
  /-- `release(&lk->lk)` of `releasesleep` -/
  | depart
deriving DecidableEq

/-- What `p->chan` can be: nothing, the lock, or something else. -/
inductive SleepChan
  | none
  | lock
  | other
deriving DecidableEq

/-- One sleep lock and the processes. `inner` and `ptable` are who holds `lk->lk` and `ptable.lock`,
`inside` is who has returned from `acquiresleep` and not released the lock since. -/
structure SleepLock (Proc : Type) where
  inner : Option Proc
  ptable : Option Proc
  locked : Bool
  pid : Option Proc
  pc : Proc → SleepPc Proc
  state : Proc → ProcState
  chan : Proc → SleepChan
  inside : Proc → Bool

namespace SleepLock

variable {Proc : Type}

/-- `initsleeplock(lk, name)`, when nobody uses the lock. -/
def initsleeplock (state : Proc → ProcState) : SleepLock Proc :=
  ⟨none, none, false, none, fun _ => .outside, state, fun _ => .none, fun _ => false⟩

variable [DecidableEq Proc]

/-- The process goes on at another statement. -/
def goto (lk : SleepLock Proc) (process : Proc) (pc : SleepPc Proc) : SleepLock Proc :=
  { lk with pc := Function.update lk.pc process pc }

def setState (lk : SleepLock Proc) (process : Proc) (state : ProcState) : SleepLock Proc :=
  { lk with state := Function.update lk.state process state }

def setChan (lk : SleepLock Proc) (process : Proc) (chan : SleepChan) : SleepLock Proc :=
  { lk with chan := Function.update lk.chan process chan }

def setInside (lk : SleepLock Proc) (process : Proc) (inside : Bool) : SleepLock Proc :=
  { lk with inside := Function.update lk.inside process inside }

/-- The body of the loop of `wakeup1(lk)`. -/
def wakeup1 (lk : SleepLock Proc) (process : Proc) : SleepLock Proc :=
  if lk.state process = .sleeping ∧ lk.chan process = .lock then lk.setState process .runnable
  else lk

/-- The next statement of a process. One that waits for a spinlock has none. -/
def turn [FinEnum Proc] (lk : SleepLock Proc) (process : Proc) : Option (SleepLock Proc) :=
  match lk.pc process with
  | .outside => none
  | .acquire =>
    if lk.inner = none then some ({ lk with inner := some process }.goto process .test) else none
  | .test => some (lk.goto process (if lk.locked then .sleep else .lock))
  | .sleep =>
    if lk.ptable = none then some ({ lk with ptable := some process }.goto process .handOver)
    else none
  | .handOver => some ({ lk with inner := none }.goto process .setChan)
  | .setChan => some ((lk.setChan process .lock).goto process .setState)
  | .setState => some ((lk.setState process .sleeping).goto process .sched)
  -- the scheduler of the processor releases `ptable.lock`
  | .sched => some ({ lk with ptable := none }.goto process .parked)
  | .parked => none
  | .tidy => some ((lk.setChan process .none).goto process .letGo)
  | .letGo => some ({ lk with ptable := none }.goto process .acquire)
  | .lock => some ({ lk with locked := true }.goto process .sign)
  | .sign => some ({ lk with pid := some process }.goto process .leave)
  | .leave => some (({ lk with inner := none }.setInside process true).goto process .outside)
  | .release =>
    if lk.inner = none then some ({ lk with inner := some process }.goto process .unlock) else none
  | .unlock => some (({ lk with locked := false }.setInside process false).goto process .unsign)
  | .unsign => some ({ lk with pid := none }.goto process .wakeup)
  | .wakeup =>
    if lk.ptable = none then
      some ({ lk with ptable := some process }.goto process (.scan (FinEnum.toList Proc)))
    else none
  | .scan [] => some (lk.goto process .woken)
  | .scan (other :: rest) => some ((lk.wakeup1 other).goto process (.scan rest))
  | .woken => some ({ lk with ptable := none }.goto process .depart)
  | .depart => some ({ lk with inner := none }.goto process .outside)

/-- What can happen next. The processes call the two functions, a processor executes a statement of
a process, switches to a runnable one or takes the processor from one that holds no spinlock, and
somebody kills a process. Outside of the lock's code a process may sleep on another channel. -/
inductive Action (Proc : Type)
  | acquiresleep (process : Proc)
  | releasesleep (process : Proc)
  | turn (process : Proc)
  | schedule (process : Proc)
  | yield (process : Proc)
  | kill (process : Proc)
  | sleepElsewhere (process : Proc)
  | wakeupElsewhere (process : Proc)

/-- A processor executes the process. In `sched()` it is no longer `RUNNING`. -/
def OnCpu (lk : SleepLock Proc) (process : Proc) : Prop :=
  lk.state process = .running ∨ lk.pc process = .sched

instance (lk : SleepLock Proc) (process : Proc) : Decidable (lk.OnCpu process) :=
  inferInstanceAs (Decidable (_ ∨ _))

/-- The process executes none of the modelled statements. -/
def Outside (lk : SleepLock Proc) (process : Proc) : Prop :=
  lk.state process = .running ∧ lk.pc process = .outside

instance (lk : SleepLock Proc) (process : Proc) : Decidable (lk.Outside process) :=
  inferInstanceAs (Decidable (_ ∧ _))

/-- The scheduler switches to the process. From `sched()` in `sleep` it comes back with
`ptable.lock`; elsewhere it had given up the processor, or slept on another channel. -/
def schedule (lk : SleepLock Proc) (process : Proc) : SleepLock Proc :=
  if lk.pc process = .parked then
    { lk with ptable := some process }.setState process .running |>.goto process .tidy
  else (lk.setChan process .none).setState process .running

/-- `kill(pid)` of the process. -/
def kill (lk : SleepLock Proc) (process : Proc) : SleepLock Proc :=
  if lk.state process = .sleeping then lk.setState process .runnable else lk

/-- One step. What needs `ptable.lock` for its whole length is one step when the lock is free. -/
def step [FinEnum Proc] (lk : SleepLock Proc) : Action Proc → Option (SleepLock Proc)
  | .acquiresleep process =>
    if lk.Outside process then some (lk.goto process .acquire) else none
  | .releasesleep process =>
    if lk.Outside process ∧ lk.inside process then some (lk.goto process .release) else none
  | .turn process => if lk.OnCpu process then lk.turn process else none
  | .schedule process =>
    if lk.ptable = none ∧ lk.state process = .runnable then some (lk.schedule process) else none
  | .yield process =>
    if lk.ptable = none ∧ lk.inner ≠ some process ∧ lk.state process = .running then
      some (lk.setState process .runnable)
    else none
  | .kill process => if lk.ptable = none then some (lk.kill process) else none
  | .sleepElsewhere process =>
    if lk.ptable = none ∧ lk.Outside process then
      some ((lk.setChan process .other).setState process .sleeping)
    else none
  | .wakeupElsewhere process =>
    if lk.ptable = none ∧ lk.state process = .sleeping ∧ lk.chan process = .other then
      some (lk.setState process .runnable)
    else none

end SleepLock

/-! ### What the statements say about a process -/

namespace SleepPc

variable {Proc : Type}

/-- Before these statements a process holds `lk->lk`. -/
def HoldsInner : SleepPc Proc → Prop
  | .test | .sleep | .handOver | .lock | .sign | .leave | .unlock | .unsign | .wakeup | .scan _
  | .woken | .depart => True
  | _ => False

/-- Before these statements a process holds `ptable.lock`. -/
def HoldsTable : SleepPc Proc → Prop
  | .handOver | .setChan | .setState | .sched | .tidy | .letGo | .scan _ | .woken => True
  | _ => False

/-- Before these statements a process has found the lock taken and is not `SLEEPING` yet. -/
def Dozes : SleepPc Proc → Prop
  | .sleep | .handOver | .setChan | .setState => True
  | _ => False

/-- Before these statements a process has cleared `lk->locked`, and `wakeup1` is still to look at an
entry of the table. -/
def Wakes (process : Proc) : SleepPc Proc → Prop
  | .unsign | .wakeup => True
  | .scan rest => process ∈ rest
  | _ => False

end SleepPc

namespace SleepLock

variable {Proc : Type}

/-- The process has the lock. -/
def Owns (lk : SleepLock Proc) (process : Proc) : Prop :=
  lk.inside process = true ∨ lk.pc process = .sign ∨ lk.pc process = .leave

/-- The process is `SLEEPING` on the channel of the lock. -/
def Sleeps (lk : SleepLock Proc) (process : Proc) : Prop :=
  lk.state process = .sleeping ∧ lk.chan process = .lock

/-- The spinlocks are held by those who execute the statements between taking and releasing them;
the owner of the lock is one process, and there is one exactly while `locked` is set; and who waits
for the lock, or is about to, has an owner to wait for or somebody who will wake it up. -/
structure Sound (lk : SleepLock Proc) : Prop where
  inner : Held lk.inner lk.pc SleepPc.HoldsInner
  ptable : Held lk.ptable lk.pc SleepPc.HoldsTable
  locked : ∀ process, lk.Owns process → lk.locked = true
  alone : ∀ process other, lk.Owns process → lk.Owns other → process = other
  owned : lk.locked = true → ∃ process, lk.Owns process
  free : ∀ process, lk.pc process = .lock → lk.locked = false
  releases : ∀ process, lk.pc process = .release ∨ lk.pc process = .unlock →
    lk.inside process = true
  waits : ∀ process, (lk.pc process).Dozes ∨ lk.Sleeps process →
    lk.locked = true ∨ ∃ waker, (lk.pc waker).Wakes process

section Step

variable {lk next : SleepLock Proc}

theorem Sound.initsleeplock (state : Proc → ProcState) :
    (SleepLock.initsleeplock state).Sound where
  inner _ := iff_of_false nofun id
  ptable _ := iff_of_false nofun id
  locked _ owner := by rcases owner with owner | owner | owner <;> cases owner
  alone _ _ owner := by rcases owner with owner | owner | owner <;> cases owner
  owned := nofun
  free := nofun
  releases _ isRelease := by rcases isRelease with isRelease | isRelease <;> cases isRelease
  waits _ isWaiting := nomatch (isWaiting.resolve_left id).2

/-- A step that moves nobody keeps the invariant if it puts nobody to sleep on the lock. -/
theorem Sound.rest (sound : lk.Sound) (pc : next.pc = lk.pc) (inner : next.inner = lk.inner)
    (ptable : next.ptable = lk.ptable) (locked : next.locked = lk.locked)
    (inside : next.inside = lk.inside) (sleeps : ∀ other, next.Sleeps other → lk.Sleeps other) :
    next.Sound := by
  have sameOwns : ∀ other, next.Owns other ↔ lk.Owns other := fun other => by
    rw [Owns, Owns, pc, inside]
  refine ⟨pc ▸ inner ▸ sound.inner, pc ▸ ptable ▸ sound.ptable, fun other owner => ?_,
    fun first second isFirst isSecond => ?_, fun isLocked => ?_, pc ▸ locked ▸ sound.free,
    pc ▸ inside ▸ sound.releases, fun other isWaiting => ?_⟩
  · exact locked ▸ sound.locked other ((sameOwns other).mp owner)
  · exact sound.alone first second ((sameOwns first).mp isFirst) ((sameOwns second).mp isSecond)
  · grind [SleepLock.Sound]
  · rw [pc] at isWaiting ⊢
    rw [locked]
    exact sound.waits other (isWaiting.imp_right (sleeps other))

variable [DecidableEq Proc]

theorem goto_self (lk : SleepLock Proc) (process : Proc) (pc : SleepPc Proc) :
    (lk.goto process pc).pc process = pc := Function.update_self process _ _

theorem goto_of_ne (lk : SleepLock Proc) {process other : Proc} (different : other ≠ process)
    (pc : SleepPc Proc) : (lk.goto process pc).pc other = lk.pc other :=
  Function.update_of_ne different _ _

/-- A process that sleeps, or is about to, is not to be forgotten: a step of another process that
leaves `locked` as it is keeps the invariant if it keeps what the process it moves means to the
others. -/
theorem Sound.move (sound : lk.Sound) {process : Proc} {pc : SleepPc Proc}
    (isPc : next.pc = Function.update lk.pc process pc)
    (inner : Held next.inner (Function.update lk.pc process pc) SleepPc.HoldsInner)
    (ptable : Held next.ptable (Function.update lk.pc process pc) SleepPc.HoldsTable)
    (locked : next.locked = lk.locked)
    (inside : ∀ other, other ≠ process → next.inside other = lk.inside other)
    (sleeps : ∀ other, other ≠ process → next.Sleeps other → lk.Sleeps other)
    (owns : (next.inside process = true ∨ pc = .sign ∨ pc = .leave) ↔ lk.Owns process)
    (free : pc = .lock → lk.locked = false)
    (releases : pc = .release ∨ pc = .unlock → next.inside process = true)
    (waits : pc.Dozes ∨ next.Sleeps process →
      lk.locked = true ∨ (lk.pc process).Dozes ∨ lk.Sleeps process)
    (wakes : ∀ other, (lk.pc process).Wakes other → (next.pc other).Dozes ∨ next.Sleeps other →
      pc.Wakes other) : next.Sound := by
  have own : next.pc process = pc := by rw [isPc, Function.update_self]
  have others : ∀ other, other ≠ process → next.pc other = lk.pc other := fun other different => by
    rw [isPc, Function.update_of_ne different]
  have sameOwns : ∀ other, next.Owns other ↔ lk.Owns other := fun other => by
    grind [Owns]
  refine ⟨isPc ▸ inner, isPc ▸ ptable, fun other owner => ?_,
    fun first second isFirst isSecond => ?_, fun isLocked => ?_, fun other isLock => ?_,
    fun other isRelease => ?_, fun other isWaiting => ?_⟩
  · grind [SleepLock.Sound]
  · exact sound.alone first second ((sameOwns first).mp isFirst) ((sameOwns second).mp isSecond)
  · grind [SleepLock.Sound]
  · grind [SleepLock.Sound]
  · by_cases same : other = process
    · grind
    · grind [SleepLock.Sound]
  · rw [locked]
    have waited : lk.locked = true ∨ (lk.pc other).Dozes ∨ lk.Sleeps other := by
      by_cases same : other = process
      · grind
      · grind
    rcases waited with isLocked | waited
    · exact Or.inl isLocked
    · refine (sound.waits other waited).imp_right fun ⟨waker, isWaker⟩ => ?_
      by_cases same : waker = process
      · grind
      · exact ⟨waker, others waker same ▸ isWaker⟩

/-- A statement that changes nothing but who holds the spinlocks. -/
theorem Sound.goto (sound : lk.Sound) {process : Proc} {pc : SleepPc Proc}
    {inner ptable pid : Option Proc}
    (isInner : Held inner (Function.update lk.pc process pc) SleepPc.HoldsInner)
    (isTable : Held ptable (Function.update lk.pc process pc) SleepPc.HoldsTable)
    (owns : pc = .sign ∨ pc = .leave ↔ lk.pc process = .sign ∨ lk.pc process = .leave)
    (free : pc = .lock → lk.locked = false)
    (releases : pc = .release ∨ pc = .unlock → lk.inside process = true)
    (dozes : pc.Dozes → lk.locked = true ∨ (lk.pc process).Dozes)
    (wakes : ∀ other, (lk.pc process).Wakes other → pc.Wakes other) :
    ({ lk with inner := inner, ptable := ptable, pid := pid }.goto process pc).Sound := by
  refine sound.move rfl isInner isTable rfl (fun _ _ => rfl) (fun _ _ => id)
    (or_congr_right owns) free releases (fun isWaiting => ?_) fun other isWaker _ =>
      wakes other isWaker
  rcases isWaiting with isDozing | isSleeping
  · exact (dozes isDozing).imp_right Or.inl
  · exact Or.inr (Or.inr isSleeping)

/-- `lk->locked = 1` -/
theorem Sound.lock (sound : lk.Sound) {process : Proc} (isPc : lk.pc process = .lock) :
    ({ lk with locked := true }.goto process .sign).Sound := by
  have unowned : ∀ other, ¬ lk.Owns other := fun other owner =>
    nomatch (sound.free process isPc).symm.trans (sound.locked other owner)
  have isOwner : ∀ other, ({ lk with locked := true }.goto process .sign).Owns other →
      other = process := fun other owner => by
    by_contra different
    rw [Owns, goto_of_ne _ different] at owner
    exact unowned other owner
  refine ⟨sound.inner.keep (by rw [isPc]; rfl), sound.ptable.keep (by rw [isPc]; rfl),
    fun _ _ => rfl, fun first second isFirst isSecond => ?_, fun _ => ⟨process, ?_⟩,
    fun other isLock => ?_, fun other isRelease => ?_, fun _ _ => Or.inl rfl⟩
  · exact (isOwner first isFirst).trans (isOwner second isSecond).symm
  · exact Or.inr (Or.inl (goto_self _ process _))
  · by_cases same : other = process
    · grind [goto_self]
    · rw [goto_of_ne _ same] at isLock
      exact absurd (sound.inner.unique (by rw [isLock]; trivial) (by rw [isPc]; trivial)) same
  · by_cases same : other = process
    · grind [goto_self]
    · rw [goto_of_ne _ same] at isRelease
      exact sound.releases other isRelease

/-- `lk->locked = 0` -/
theorem Sound.unlock (sound : lk.Sound) {process : Proc} (isPc : lk.pc process = .unlock) :
    (({ lk with locked := false }.setInside process false).goto process .unsign).Sound := by
  have isOwner : lk.Owns process := Or.inl (sound.releases process (Or.inr isPc))
  have unowned : ∀ other, ¬ (({ lk with locked := false }.setInside process false).goto process
      .unsign).Owns other := fun other owner => by
    by_cases same : other = process
    · rw [Owns, same, goto_self] at owner
      simp [SleepLock.goto, setInside] at owner
    · refine same (sound.alone other process ?_ isOwner)
      rw [Owns, goto_of_ne _ same] at owner
      simpa [Owns, SleepLock.goto, setInside, Function.update_of_ne same] using owner
  refine ⟨sound.inner.keep (by rw [isPc]; rfl), sound.ptable.keep (by rw [isPc]; rfl),
    fun other owner => absurd owner (unowned other),
    fun first _ isFirst => absurd isFirst (unowned first), nofun, fun _ _ => rfl,
    fun other isRelease => ?_, fun _ _ => Or.inr ⟨process, ?_⟩⟩
  · by_cases same : other = process
    · grind [goto_self]
    · rw [goto_of_ne _ same] at isRelease
      exact (Function.update_of_ne same _ _).trans (sound.releases other isRelease)
  · rw [goto_self]
    trivial

theorem wakeup1_sleeps (lk : SleepLock Proc) (process other : Proc) :
    (lk.wakeup1 process).Sleeps other ↔ lk.Sleeps other ∧ other ≠ process := by
  unfold wakeup1
  by_cases same : other = process
  · subst same
    split_ifs with asleep
    · simp [Sleeps, SleepLock.setState]
    · simpa [Sleeps] using asleep
  · split_ifs
    · simp [Sleeps, SleepLock.setState, same]
    · simp [same]

/-- One entry of the table in `wakeup1`. -/
theorem Sound.scan (sound : lk.Sound) {process other : Proc} {rest : List Proc}
    (isPc : lk.pc process = .scan (other :: rest)) :
    ((lk.wakeup1 other).goto process (.scan rest)).Sound := by
  have frame : (lk.wakeup1 other).pc = lk.pc ∧ (lk.wakeup1 other).inner = lk.inner ∧
      (lk.wakeup1 other).ptable = lk.ptable ∧ (lk.wakeup1 other).locked = lk.locked ∧
      (lk.wakeup1 other).inside = lk.inside := by
    unfold wakeup1
    split_ifs
    · exact ⟨rfl, rfl, rfl, rfl, rfl⟩
    · exact ⟨rfl, rfl, rfl, rfl, rfl⟩
  obtain ⟨samePc, sameInner, sameTable, sameLocked, sameInside⟩ := frame
  have woken := sound.rest samePc sameInner sameTable sameLocked sameInside fun sleeper asleep =>
    ((wakeup1_sleeps lk other sleeper).mp asleep).1
  rw [← samePc] at isPc
  refine woken.move rfl (woken.inner.keep (by rw [isPc]; rfl))
    (woken.ptable.keep (by rw [isPc]; rfl)) rfl (fun _ _ => rfl) (fun _ _ => id)
    (by simp [isPc, Owns, SleepLock.goto]) nofun nofun
    (fun isWaiting => Or.inr (Or.inr (isWaiting.resolve_left id)))
    fun sleeper isWaker isWaiting => ?_
  rw [isPc] at isWaker
  refine (List.mem_cons.mp isWaker).resolve_left fun same => ?_
  rcases isWaiting with isDozing | asleep
  · -- who is about to sleep holds one of the two spinlocks, and this process holds both
    by_cases isProcess : sleeper = process
    · rw [isProcess, goto_self] at isDozing
      exact isDozing
    · rw [goto_of_ne _ isProcess] at isDozing
      have holds : ((lk.wakeup1 other).pc sleeper).HoldsInner ∨
          ((lk.wakeup1 other).pc sleeper).HoldsTable := by
        cases isPlace : (lk.wakeup1 other).pc sleeper <;> rw [isPlace] at isDozing <;>
          first | exact isDozing.elim | exact Or.inl trivial | exact Or.inr trivial
      rcases holds with holdsInner | holdsTable
      · exact isProcess (woken.inner.unique holdsInner (by rw [isPc]; trivial))
      · exact isProcess (woken.ptable.unique holdsTable (by rw [isPc]; trivial))
  · exact ((wakeup1_sleeps lk other sleeper).mp asleep).2 same

theorem Sound.setState (sound : lk.Sound) (process : Proc) {state : ProcState}
    (notAsleep : state = .sleeping → lk.chan process ≠ .lock) :
    (lk.setState process state).Sound := by
  refine sound.rest rfl rfl rfl rfl rfl fun other ⟨asleep, onLock⟩ => ?_
  by_cases same : other = process
  · rw [same] at asleep onLock
    exact absurd onLock (notAsleep ((Function.update_self process _ _).symm.trans asleep))
  · exact ⟨(Function.update_of_ne same _ _).symm.trans asleep, onLock⟩

theorem Sound.setChan (sound : lk.Sound) (process : Proc) {chan : SleepChan}
    (notLock : chan ≠ .lock) : (lk.setChan process chan).Sound := by
  refine sound.rest rfl rfl rfl rfl rfl fun other ⟨asleep, onLock⟩ => ?_
  by_cases same : other = process
  · rw [same] at onLock
    exact absurd ((Function.update_self process _ _).symm.trans onLock) notLock
  · exact ⟨asleep, (Function.update_of_ne same _ _).symm.trans onLock⟩

theorem Sound.schedule (sound : lk.Sound) {process : Proc} (isFree : lk.ptable = none) :
    (lk.schedule process).Sound := by
  unfold SleepLock.schedule
  split_ifs with isPc
  · have awake : (lk.setState process .running).Sound := sound.setState process nofun
    replace isPc : (lk.setState process .running).pc process = .parked := isPc
    exact awake.goto (awake.inner.keep (by rw [isPc]; rfl)) (awake.ptable.take isFree trivial)
      (by simp [isPc]) nofun nofun nofun (by simp [isPc, SleepPc.Wakes])
  · grind [setChan, setState]

theorem Sound.turn [FinEnum Proc] (sound : lk.Sound) {process : Proc}
    (turned : lk.turn process = some next) : next.Sound := by
  unfold SleepLock.turn at turned
  cases isPc : lk.pc process with
  | outside | parked => simp only [isPc, reduceCtorEq] at turned
  | acquire =>
    simp only [isPc] at turned
    split_ifs at turned with isFree
    obtain rfl := Option.some_inj.mp turned
    exact sound.goto (sound.inner.take isFree trivial) (sound.ptable.keep (by rw [isPc]; rfl))
      (by simp [isPc]) nofun nofun nofun (by simp [isPc, SleepPc.Wakes])
  | test =>
    simp only [isPc, Option.some_inj] at turned
    obtain rfl := turned
    split_ifs with isLocked
    · exact sound.goto (sound.inner.keep (by rw [isPc]; rfl))
        (sound.ptable.keep (by rw [isPc]; rfl)) (by simp [isPc]) nofun nofun
        (fun _ => Or.inl isLocked) (by simp [isPc, SleepPc.Wakes])
    · exact sound.goto (sound.inner.keep (by rw [isPc]; rfl))
        (sound.ptable.keep (by rw [isPc]; rfl)) (by simp [isPc])
        (fun _ => Bool.eq_false_iff.mpr isLocked) nofun nofun
        (by simp [isPc, SleepPc.Wakes])
  | sleep =>
    simp only [isPc] at turned
    split_ifs at turned with isFree
    obtain rfl := Option.some_inj.mp turned
    exact sound.goto (sound.inner.keep (by rw [isPc]; rfl)) (sound.ptable.take isFree trivial)
      (by simp [isPc]) nofun nofun (fun _ => Or.inr (by rw [isPc]; trivial))
      (by simp [isPc, SleepPc.Wakes])
  | handOver =>
    simp only [isPc, Option.some_inj] at turned
    obtain rfl := turned
    exact sound.goto (sound.inner.drop (by rw [isPc]; trivial) id)
      (sound.ptable.keep (by rw [isPc]; rfl)) (by simp [isPc]) nofun nofun
      (fun _ => Or.inr (by rw [isPc]; trivial)) (by simp [isPc, SleepPc.Wakes])
  | setChan =>
    simp only [isPc, Option.some_inj] at turned
    obtain rfl := turned
    refine sound.move rfl (sound.inner.keep (by rw [isPc]; rfl))
      (sound.ptable.keep (by rw [isPc]; rfl)) rfl (fun _ _ => rfl)
      (fun other different asleep => ?_) (by simp [isPc, Owns, SleepLock.goto, SleepLock.setChan])
      nofun nofun
      (fun _ => Or.inr (Or.inl (by rw [isPc]; trivial))) (by simp [isPc, SleepPc.Wakes])
    exact ⟨asleep.1, (Function.update_of_ne different _ _).symm.trans asleep.2⟩
  | setState =>
    simp only [isPc, Option.some_inj] at turned
    obtain rfl := turned
    refine sound.move rfl (sound.inner.keep (by rw [isPc]; rfl))
      (sound.ptable.keep (by rw [isPc]; rfl)) rfl (fun _ _ => rfl)
      (fun other different asleep => ?_) (by simp [isPc, Owns, SleepLock.goto, SleepLock.setState])
      nofun nofun
      (fun _ => Or.inr (Or.inl (by rw [isPc]; trivial))) (by simp [isPc, SleepPc.Wakes])
    exact ⟨(Function.update_of_ne different _ _).symm.trans asleep.1, asleep.2⟩
  | sched | letGo | woken =>
    simp only [isPc, Option.some_inj] at turned
    obtain rfl := turned
    exact sound.goto (sound.inner.keep (by rw [isPc]; rfl))
      (sound.ptable.drop (by rw [isPc]; trivial) id) (by simp [isPc]) nofun nofun nofun
      (by simp [isPc, SleepPc.Wakes])
  | tidy =>
    simp only [isPc, Option.some_inj] at turned
    obtain rfl := turned
    refine sound.move rfl (sound.inner.keep (by rw [isPc]; rfl))
      (sound.ptable.keep (by rw [isPc]; rfl)) rfl (fun _ _ => rfl)
      (fun other different asleep => ?_) (by simp [isPc, Owns, SleepLock.goto, SleepLock.setChan])
      nofun nofun
      ?_ (by simp [isPc, SleepPc.Wakes])
    · exact ⟨asleep.1, (Function.update_of_ne different _ _).symm.trans asleep.2⟩
    · rintro (isDozing | asleep)
      · cases isDozing
      · exact nomatch (Function.update_self process _ _).symm.trans asleep.2
  | lock => grind [lock]
  | sign | unsign =>
    simp only [isPc, Option.some_inj] at turned
    obtain rfl := turned
    exact sound.goto (sound.inner.keep (by rw [isPc]; rfl)) (sound.ptable.keep (by rw [isPc]; rfl))
      (by simp [isPc]) nofun nofun nofun (by simp [isPc, SleepPc.Wakes])
  | leave =>
    simp only [isPc, Option.some_inj] at turned
    obtain rfl := turned
    refine sound.move rfl (sound.inner.drop (by rw [isPc]; trivial) id)
      (sound.ptable.keep (by rw [isPc]; rfl)) rfl (fun other different => ?_) (fun _ _ => id)
      ?_ nofun nofun (fun isWaiting => Or.inr (Or.inr (isWaiting.resolve_left id)))
      (by simp [isPc, SleepPc.Wakes])
    · exact Function.update_of_ne different _ _
    · exact iff_of_true (Or.inl (Function.update_self process _ _)) (Or.inr (Or.inr isPc))
  | release =>
    simp only [isPc] at turned
    split_ifs at turned with isFree
    obtain rfl := Option.some_inj.mp turned
    exact sound.goto (sound.inner.take isFree trivial) (sound.ptable.keep (by rw [isPc]; rfl))
      (by simp [isPc]) nofun (fun _ => sound.releases process (Or.inl isPc)) nofun
      (by simp [isPc, SleepPc.Wakes])
  | unlock => grind [unlock]
  | wakeup =>
    simp only [isPc] at turned
    split_ifs at turned with isFree
    obtain rfl := Option.some_inj.mp turned
    exact sound.goto (sound.inner.keep (by rw [isPc]; rfl)) (sound.ptable.take isFree trivial)
      (by simp [isPc]) nofun nofun nofun (fun other _ => FinEnum.mem_toList other)
  | scan rest =>
    cases rest with
    | nil =>
      simp only [isPc, Option.some_inj] at turned
      obtain rfl := turned
      exact sound.goto (sound.inner.keep (by rw [isPc]; rfl))
        (sound.ptable.keep (by rw [isPc]; rfl)) (by simp [isPc]) nofun nofun nofun (by simp [isPc,
        SleepPc.Wakes])
    | cons other rest => grind [scan]
  | depart =>
    simp only [isPc, Option.some_inj] at turned
    obtain rfl := turned
    exact sound.goto (sound.inner.drop (by rw [isPc]; trivial) id)
      (sound.ptable.keep (by rw [isPc]; rfl)) (by simp [isPc]) nofun nofun nofun
      (by simp [isPc, SleepPc.Wakes])

/-- Every step keeps the invariant. -/
theorem Sound.step [FinEnum Proc] (sound : lk.Sound) {action : Action Proc}
    (taken : lk.step action = some next) : next.Sound := by
  cases action with
  | acquiresleep process =>
    simp only [SleepLock.step] at taken
    split_ifs at taken with isOutside
    obtain rfl := Option.some_inj.mp taken
    have isPc := isOutside.2
    exact sound.goto (sound.inner.keep (by rw [isPc]; rfl)) (sound.ptable.keep (by rw [isPc]; rfl))
      (by simp [isPc]) nofun nofun nofun (by simp [isPc, SleepPc.Wakes])
  | releasesleep process =>
    simp only [SleepLock.step] at taken
    split_ifs at taken with isOutside
    obtain rfl := Option.some_inj.mp taken
    have isPc := isOutside.1.2
    exact sound.goto (sound.inner.keep (by rw [isPc]; rfl)) (sound.ptable.keep (by rw [isPc]; rfl))
      (by simp [isPc]) nofun (fun _ => isOutside.2) nofun (by simp [isPc, SleepPc.Wakes])
  | turn process =>
    simp only [SleepLock.step] at taken
    split_ifs at taken
    exact sound.turn taken
  | schedule process =>
    simp only [SleepLock.step] at taken
    split_ifs at taken with isFree
    obtain rfl := Option.some_inj.mp taken
    exact sound.schedule isFree.1
  | yield process =>
    simp only [SleepLock.step] at taken
    split_ifs at taken
    obtain rfl := Option.some_inj.mp taken
    exact sound.setState process nofun
  | kill process =>
    simp only [SleepLock.step] at taken
    split_ifs at taken
    obtain rfl := Option.some_inj.mp taken
    unfold SleepLock.kill
    split_ifs
    · exact sound.setState process nofun
    · exact sound
  | sleepElsewhere process =>
    simp only [SleepLock.step] at taken
    split_ifs at taken
    obtain rfl := Option.some_inj.mp taken
    have elsewhere : (lk.setChan process .other).Sound := sound.setChan process nofun
    refine elsewhere.setState process fun _ onLock => ?_
    exact nomatch (Function.update_self process _ _).symm.trans onLock
  | wakeupElsewhere process =>
    simp only [SleepLock.step] at taken
    split_ifs at taken
    obtain rfl := Option.some_inj.mp taken
    exact sound.setState process nofun

end Step

/-- In every state that a run from `initsleeplock` reaches, at most one process has returned from
`acquiresleep` and not released the lock, and while the inner spinlock is free a process that is
`SLEEPING` on the lock finds it held by a process. -/
theorem run_sleeplock [DecidableEq Proc] [FinEnum Proc] {state : Proc → ProcState}
    {actions : List (Action Proc)} {lk : SleepLock Proc}
    (runs : run step (initsleeplock state) actions = some lk) :
    (∀ process other, lk.inside process = true → lk.inside other = true → process = other) ∧
      (lk.inner = none → ∀ process, lk.state process = .sleeping ∧ lk.chan process = .lock →
        lk.locked = true ∧ ∃ holder, lk.inside holder = true) := by
  have sound := run_invariant Sound (fun _ _ _ taken sound => sound.step taken) runs
    (.initsleeplock state)
  refine ⟨fun process other isInside otherInside =>
    sound.alone process other (Or.inl isInside) (Or.inl otherInside),
    fun isFree process asleep => ?_⟩
  have nobody := sound.inner.not_guarded isFree
  have isLocked : lk.locked = true := by
    refine (sound.waits process (Or.inr asleep)).resolve_right fun ⟨waker, isWaker⟩ => ?_
    refine nobody waker ?_
    cases isPlace : lk.pc waker <;> rw [isPlace] at isWaker <;> trivial
  refine ⟨isLocked, ?_⟩
  obtain ⟨holder, isInside | isSigning | isLeaving⟩ := sound.owned isLocked
  · exact ⟨holder, isInside⟩
  · exact absurd (by rw [isSigning]; trivial) (nobody holder)
  · exact absurd (by rw [isLeaving]; trivial) (nobody holder)

/-- The first of two processes takes the lock, and the second falls asleep on it, is killed and
falls asleep again. -/
theorem run_sleeplock_asleep : ∃ lk : SleepLock (Fin 2),
    run step (initsleeplock fun _ => .running)
      (.acquiresleep 0 :: List.replicate 5 (.turn 0) ++ .acquiresleep 1 ::
        List.replicate 7 (.turn 1) ++ [.kill 1, .schedule 1] ++ List.replicate 9 (.turn 1)) =
          some lk ∧
      lk.state 1 = .sleeping ∧ lk.chan 1 = .lock ∧ lk.locked = true ∧
        ∃ holder, lk.inside holder = true := by
  obtain ⟨lk, runs, facts⟩ := Option.map_eq_some_iff.mp (by decide +kernel :
    (run step (initsleeplock fun _ : Fin 2 => .running)
      (.acquiresleep 0 :: List.replicate 5 (.turn 0) ++ .acquiresleep 1 ::
        List.replicate 7 (.turn 1) ++ [.kill 1, .schedule 1] ++ List.replicate 9 (.turn 1))).map
      (fun lk => decide (lk.inner = none ∧ lk.state 1 = .sleeping ∧ lk.chan 1 = .lock)) = some true)
  obtain ⟨isFree, asleep, onLock⟩ := of_decide_eq_true facts
  exact ⟨lk, runs, asleep, onLock, (run_sleeplock runs).2 isFree 1 ⟨asleep, onLock⟩⟩

end SleepLock

end Xk
