/-
This file models the process table of `kernel/proc.c` and the code that moves it: `allocproc`,
`fork`, `exit`, `wait`, `kill`, `sleep`, `wakeup`, `yield` and the scheduler of the one
processor. A section between `acquire(&ptable.lock)` and `release(&ptable.lock)` is one step.
A section that ends in `sched()` hands the lock to the scheduler, which hands it on to the
process it dispatches.

Between sections a process can be preempted anywhere, so each slot has a thread: the call it
is in with the local variables it holds there, and the place where `swtch` resumes it.

The memory and the open files of a process are left out; whether the kernel stack can be
allocated is a choice of the run. Reading the pid of a null parent matches no pid.
-/

import Xk.Params

namespace Xk

/-! ### The table -/

/-- A pointer to an entry of `ptable.proc`. -/
abbrev Slot := Fin nproc

/-- An `int` pid as its 32 bits: pids are only compared for equality, and `nextpid++` wraps. -/
abbrev Pid := BitVec 32

/-- A channel a process sleeps on: the null pointer, a `struct proc`, or another address. -/
inductive Channel
  | null
  | proc (slot : Slot)
  | other (address : Nat)
deriving DecidableEq

/-- The fields of `struct proc` that scheduling, waiting and exiting use. -/
structure Proc where
  state : ProcState
  pid : Pid
  parent : Option Slot
  chan : Channel
  killed : Bool

/-- The kernel code a process is in: `fork` between its first and its last section, the scan of
`wait` for children, or the loop of `wait` that looks for a zombie. Everything else is `user`. -/
inductive Call
  | user
  | fork (child : Slot)
  | wait (next : Nat) (hasActiveChildren : Bool)
  | reap
deriving DecidableEq

/-- Where a process that is not on the processor continues: in `forkret`, or after the `sched()` of
`yield` or of `sleep`. -/
inductive Resume
  | forkret
  | yield
  | sleep
deriving DecidableEq

structure Thread where
  call : Call
  resume : Resume

/-- The holder of `ptable.lock`. -/
inductive Lock
  | free
  | scheduler
  | process
deriving DecidableEq

/-- What happened to the process of the given birth, the serial number of its `allocproc`. A
`waited` is a `wait` of `caller` that returned the pid, and a `childless` one that returned
`-1`. -/
inductive ProcEvent
  | allocated (birth : Nat) (pid : Pid)
  | exited (birth : Nat)
  | waited (caller birth : Nat) (pid : Pid)
  | childless (caller : Nat)
deriving DecidableEq

/-- The process table and the processor. The last three fields record the past of the run; no
step reads them. -/
structure Kernel where
  procs : Slot → Proc
  threads : Slot → Thread
  nextpid : Pid
  /-- `mycpu()->proc`. -/
  cpuProc : Option Slot
  lock : Lock
  /-- The position of the scheduler's loop over the table. -/
  scan : Nat
  births : Slot → Nat
  allocations : Nat
  history : List ProcEvent

/-- The slot `userinit` gets for the first process. -/
def initproc : Slot := 0

def Proc.zero : Proc := ⟨.unused, 0, none, .null, false⟩

def Thread.fresh : Thread := ⟨.user, .forkret⟩

/-- The zeroed table of a booting kernel, with `nextpid` as initialised. -/
def Kernel.zero : Kernel where
  procs := fun _ => .zero
  threads := fun _ => .fresh
  nextpid := 1
  cpuProc := none
  lock := .free
  scan := 0
  births := fun _ => 0
  allocations := 0
  history := []

/-- Assign one process's entry. -/
def Kernel.setProc (kernel : Kernel) (slot : Slot) (proc : Proc) : Kernel :=
  { kernel with procs := Function.update kernel.procs slot proc }

/-- Move one process to another place of the kernel code. -/
def Kernel.setCall (kernel : Kernel) (slot : Slot) (call : Call) : Kernel :=
  { kernel with
    threads := Function.update kernel.threads slot { kernel.threads slot with call := call } }

def Kernel.record (kernel : Kernel) (event : ProcEvent) : Kernel :=
  { kernel with history := event :: kernel.history }

section

variable (kernel : Kernel)
include kernel

@[simp] theorem Kernel.setProc_procs_self (slot : Slot) (proc : Proc) :
    (kernel.setProc slot proc).procs slot = proc := by
  simp only [Kernel.setProc, Function.update_self]

theorem Kernel.setProc_procs_of_ne {slot other : Slot} (proc : Proc) (different : other ≠ slot) :
    (kernel.setProc slot proc).procs other = kernel.procs other := by
  simp only [Kernel.setProc, Function.update_of_ne different]

@[simp] theorem Kernel.setProc_threads (slot : Slot) (proc : Proc) :
    (kernel.setProc slot proc).threads = kernel.threads := rfl

@[simp] theorem Kernel.setCall_procs (slot : Slot) (call : Call) :
    (kernel.setCall slot call).procs = kernel.procs := rfl

@[simp] theorem Kernel.setCall_call_self (slot : Slot) (call : Call) :
    ((kernel.setCall slot call).threads slot).call = call := by
  simp only [Kernel.setCall, Function.update_self]

theorem Kernel.setCall_threads_of_ne {slot other : Slot} (call : Call) (different : other ≠ slot) :
    (kernel.setCall slot call).threads other = kernel.threads other := by
  simp only [Kernel.setCall, Function.update_of_ne different]

@[simp] theorem Kernel.record_procs (event : ProcEvent) :
    (kernel.record event).procs = kernel.procs := rfl

@[simp] theorem Kernel.record_threads (event : ProcEvent) :
    (kernel.record event).threads = kernel.threads := rfl

end

/-! ### The sections -/

/-- `wakeup1(chan)`. -/
def wakeup1 (procs : Slot → Proc) (chan : Channel) : Slot → Proc := fun slot =>
  if (procs slot).state = .sleeping ∧ (procs slot).chan = chan then
    { procs slot with state := .runnable }
  else procs slot

/-- The new process that `allocproc` makes of an unused slot. -/
def Kernel.create (kernel : Kernel) (slot : Slot) : Kernel :=
  { kernel with
    procs := Function.update kernel.procs slot
      { kernel.procs slot with state := .embryo, pid := kernel.nextpid, killed := false }
    threads := Function.update kernel.threads slot .fresh
    nextpid := kernel.nextpid + 1
    births := Function.update kernel.births slot kernel.allocations
    allocations := kernel.allocations + 1
    history := .allocated kernel.allocations kernel.nextpid :: kernel.history }

/-- The locked part of `allocproc`, and the context it then sets up for the new process. -/
def allocproc (kernel : Kernel) : Option (Slot × Kernel) :=
  match (List.finRange nproc).find? fun slot => (kernel.procs slot).state = .unused with
  | none => none
  | some slot => some (slot, kernel.create slot)

/-- `userinit`: the first process, whose slot is kept in the variable `initproc`. -/
def userinit (kernel : Kernel) : Option (Slot × Kernel) :=
  match allocproc kernel with
  | none => none
  | some (slot, created) =>
    some (slot, created.setProc slot { created.procs slot with state := .runnable })

/-- The last section of `fork`. -/
def forkFinish (kernel : Kernel) (me child : Slot) : Kernel :=
  (kernel.setProc child
    { kernel.procs child with state := .runnable, parent := some me }).setCall me .user

/-- One turn of the loop of `exit`: a child of the exiting process goes to `initproc`. The child
is found by its parent's pid. -/
def reparentTurn (me : Slot) (procs : Slot → Proc) (slot : Slot) : Slot → Proc :=
  match (procs slot).parent with
  | none => procs
  | some parent =>
    if (procs parent).pid = (procs me).pid then
      let adopted := Function.update procs slot { procs slot with parent := some initproc }
      if (adopted initproc).state = .sleeping then wakeup1 adopted (.proc initproc) else adopted
    else procs

/-- The channel that `wakeup1(p->parent)` is called with. -/
def parentChannel : Option Slot → Channel
  | none => .null
  | some parent => .proc parent

/-- The locked part of `exit` before `sched()`. -/
def exitSection (procs : Slot → Proc) (me : Slot) : Slot → Proc :=
  let adopted := (List.finRange nproc).foldl (reparentTurn me) procs
  let woken := wakeup1 adopted (parentChannel (adopted me).parent)
  Function.update woken me { woken me with state := .zombie }

/-- `sched()` by the running process: the scheduler continues its loop after the process's slot
and clears `mycpu()->proc`. -/
def Kernel.sched (kernel : Kernel) (me : Slot) (resume : Resume) : Kernel :=
  { kernel with
    threads := Function.update kernel.threads me { kernel.threads me with resume := resume }
    cpuProc := none
    lock := .scheduler
    scan := me.val + 1 }

@[simp] theorem Kernel.sched_procs (kernel : Kernel) (me : Slot) (resume : Resume) :
    (kernel.sched me resume).procs = kernel.procs := rfl

@[simp] theorem Kernel.sched_call (kernel : Kernel) (me slot : Slot) (resume : Resume) :
    ((kernel.sched me resume).threads slot).call = (kernel.threads slot).call := by
  by_cases same : slot = me
  · simp only [same, Kernel.sched, Function.update_self]
  · simp only [Kernel.sched, Function.update_of_ne same]

/-- The first zombie child in the table. -/
def zombieChild (procs : Slot → Proc) (me : Slot) : Option Slot :=
  (List.finRange nproc).find? fun slot =>
    (procs slot).parent = some me ∧ (procs slot).state = .zombie

/-- The body of the loop of `wait`, with the lock held: free the slot of a zombie child, release
the lock and return its pid, or sleep on the caller's own address. -/
def reapSection (kernel : Kernel) (me : Slot) : Kernel :=
  match zombieChild kernel.procs me with
  | some slot =>
    let freed := { kernel.procs slot with
      state := .unused, parent := none, pid := 0, killed := false }
    { ((kernel.setProc slot freed).setCall me .user).record
        (.waited (kernel.births me) (kernel.births slot) (kernel.procs slot).pid) with
      lock := .free }
  | none =>
    let asleep := { kernel.procs me with chan := .proc me, state := .sleeping }
    (kernel.setProc me asleep).sched me .sleep

/-- `kill(pid)`: the first process with the pid, in whatever state it is. -/
def kill (procs : Slot → Proc) (pid : Pid) : Slot → Proc :=
  match (List.finRange nproc).find? fun slot => (procs slot).pid = pid with
  | none => procs
  | some slot =>
    Function.update procs slot { procs slot with
      killed := true
      state := if (procs slot).state = .sleeping then .runnable else (procs slot).state }

/-! ### Steps -/

/-- A step of the running process. -/
inductive ProcessAction
  | fork
  | forkNoStack
  | forkFinish
  | wait
  | waitScan
  | waitTest
  | reap
  | exit
  | kill (pid : Pid)
  | sleep (chan : Channel)
  | yield
deriving DecidableEq

/-- A step of the machine: of the scheduler, of the process it has switched to and that still
holds the lock, of `wakeup` in a process or an interrupt handler, or of the running process. -/
inductive KernelAction
  | schedulerAcquire
  | schedulerNext
  | resume
  | wakeup (chan : Channel)
  | process (action : ProcessAction)
deriving DecidableEq

/-- The next process of the scheduler's loop that can run. -/
def nextRunnable (kernel : Kernel) : Option Slot :=
  (List.finRange nproc).find? fun slot =>
    kernel.scan ≤ slot.val ∧ (kernel.procs slot).state = .runnable

/-- The scheduler switches to the next process that can run, or ends its loop over the table. -/
def schedulerNext (kernel : Kernel) : Kernel :=
  match nextRunnable kernel with
  | none => { kernel with lock := .free }
  | some slot =>
    { kernel.setProc slot { kernel.procs slot with state := .running } with
      cpuProc := some slot, lock := .process }

/-- A dispatched process returns from `sched()`. After a `sleep` in the loop of `wait` it keeps the
lock and goes on with the loop; any other `sleep` was called with another lock. -/
def resumeSection (kernel : Kernel) (me : Slot) : Kernel :=
  match (kernel.threads me).resume with
  | .forkret | .yield => { kernel with lock := .free }
  | .sleep =>
    let tidied := kernel.setProc me { kernel.procs me with chan := .null }
    if (kernel.threads me).call = .reap then reapSection tidied me
    else { tidied with lock := .free }

/-- A step of the running process `me`, which holds no lock. -/
def processStep (kernel : Kernel) (me : Slot) (action : ProcessAction) : Option Kernel :=
  match (kernel.threads me).call, action with
  | .user, .fork =>
    match allocproc kernel with
    | none => some kernel
    | some (child, created) => some (created.setCall me (.fork child))
  | .fork child, .forkNoStack =>
    some ((kernel.setProc child { kernel.procs child with state := .unused }).setCall me .user)
  | .fork child, .forkFinish => some (forkFinish kernel me child)
  | .user, .wait => some (kernel.setCall me (.wait 0 false))
  | .wait next has, .waitScan =>
    if inTable : next < nproc then
      let proc := kernel.procs ⟨next, inTable⟩
      some (kernel.setCall me (.wait (next + 1)
        (has || (proc.parent = some me ∧ proc.state ≠ .unused : Bool))))
    else none
  | .wait next has, .waitTest =>
    if next < nproc then none
    else if has then some (kernel.setCall me .reap)
    else some ((kernel.setCall me .user).record (.childless (kernel.births me)))
  | .reap, .reap => some (reapSection kernel me)
  | .user, .exit =>
    -- `initproc` never exits
    if me = initproc then none
    else some (({ kernel with procs := exitSection kernel.procs me }.record
      (.exited (kernel.births me))).sched me .yield)
  | .user, .kill pid => some { kernel with procs := kill kernel.procs pid }
  | .user, .sleep chan =>
    some ((kernel.setProc me { kernel.procs me with chan := chan, state := .sleeping }).sched
      me .sleep)
  | _, .yield =>
    some ((kernel.setProc me { kernel.procs me with state := .runnable }).sched me .yield)
  | _, _ => none

def kernelStep (kernel : Kernel) (action : KernelAction) : Option Kernel :=
  match action, kernel.lock, kernel.cpuProc with
  | .schedulerAcquire, .free, none => some { kernel with lock := .scheduler, scan := 0 }
  | .schedulerNext, .scheduler, none => some (schedulerNext kernel)
  | .resume, .process, some me => some (resumeSection kernel me)
  | .wakeup chan, .free, _ => some { kernel with procs := wakeup1 kernel.procs chan }
  | .process action, .free, some me => processStep kernel me action
  | _, _, _ => none

end Xk
