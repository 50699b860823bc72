/-
This file shows that nobody starves: the scheduler's loop over the process table goes on behind the
process that it switched to last, so that while a process stays runnable no other gets two turns.
-/

import Xk.ProcessMoves
import Xk.Transition

namespace Xk

open Transition

/-- Where the loop goes on: behind the running process, or at the end between two passes. -/
def Kernel.turn (kernel : Kernel) : Nat :=
  match kernel.cpuProc, kernel.lock with
  | some me, _ => me.val + 1
  | none, .scheduler => kernel.scan
  | none, _ => nproc

/-- The loop gets from a position to `other` before it gets to `slot`. -/
def Ahead (slot : Slot) (position : Nat) (other : Slot) : Prop :=
  if position ≤ slot.val then position ≤ other.val ∧ other < slot
  else position ≤ other.val ∨ other < slot

/-- The process that a step switches to. -/
def dispatched (kernel : Kernel) : KernelAction → List Slot
  | .schedulerNext => (nextRunnable kernel).toList
  | _ => []

/-- The processes that a run switches to, in order. -/
def dispatches (kernel : Kernel) : List KernelAction → List Slot
  | [] => []
  | action :: rest =>
    dispatched kernel action ++
      ((kernelStep kernel action).map fun next => dispatches next rest).getD []

variable {kernel next : Kernel} {slot : Slot} {action : KernelAction}

theorem Move.turn {me : Slot} (running : kernel.cpuProc = some me) (move : Move kernel next) :
    next.turn = me.val + 1 := by
  cases move <;>
    simp_all [Kernel.turn, Kernel.sched, Kernel.setProc, Kernel.setCall, Kernel.record,
      Kernel.create, Xk.forkFinish]

/-- What is ahead after a step was ahead before it and is not what the step switched to. -/
theorem ahead_of_step (stepped : kernelStep kernel action = some next)
    (waited : (kernel.procs slot).state = .runnable) (waits : (next.procs slot).state = .runnable) :
    (∀ other ∈ dispatched kernel action, Ahead slot kernel.turn other) ∧
    ∀ other, Ahead slot next.turn other → Ahead slot kernel.turn other ∧
      other ∉ dispatched kernel action := by
  have inTable := slot.isLt
  cases isRunning : kernel.cpuProc with
  | some me =>
    have here : kernel.turn = me.val + 1 := by simp [Kernel.turn, isRunning]
    have same : next.turn = me.val + 1 := by
      rcases kernelStep_move stepped with one | ⟨_, _, second⟩
      · exact one.turn isRunning
      · exact Move.turn (by exact isRunning) second
    have nobody : dispatched kernel action = [] := by
      cases action <;> simp_all [kernelStep, dispatched]
    simp [here, same, nobody]
  | none =>
    cases action <;> cases isLock : kernel.lock <;>
      simp only [kernelStep, isRunning, isLock, reduceCtorEq, Option.some_inj] at stepped <;>
      subst stepped <;> simp only [Kernel.turn, isRunning, isLock, dispatched, Ahead]
    case schedulerNext.scheduler =>
      unfold schedulerNext at waits ⊢
      cases found : nextRunnable kernel with
      | none =>
        -- the pass is over, and it began behind `slot`
        have passed := List.find?_eq_none.mp found slot (List.mem_finRange slot)
        grind
      | some other =>
        -- `slot` is not the first that can run from `scan` on
        obtain ⟨runs, index, bound, isOther, before⟩ := List.find?_eq_some_iff_getElem.mp found
        rw [List.getElem_finRange] at isOther
        have isIndex : other.val = index := congrArg Fin.val isOther.symm
        have first := before slot.val
        have different : slot ≠ other := by
          rintro rfl
          simp [found] at waits
        grind
    all_goals grind

section

variable {final : Kernel} {actions : List KernelAction}
  (runs : run kernelStep kernel actions = some final)
  (waits : Along kernelStep (fun state => (state.procs slot).state = .runnable) kernel actions)
include runs waits

theorem dispatches_ahead : (dispatches kernel actions).Nodup ∧
    ∀ other ∈ dispatches kernel actions, Ahead slot kernel.turn other := by
  induction actions generalizing kernel with
  | nil => simp [dispatches]
  | cons action rest inductionHypothesis =>
    obtain ⟨next, stepped, runs⟩ := (run_cons_eq_some _).mp runs
    have later := waits.2 next stepped
    obtain ⟨nodup, ahead⟩ := inductionHypothesis runs later
    have waitsNext : (next.procs slot).state = .runnable := by
      cases rest with
      | nil => exact later
      | cons => exact later.1
    obtain ⟨new, old⟩ := ahead_of_step stepped waits.1 waitsNext
    have once : (dispatched kernel action).Nodup := by
      cases action <;> cases isNext : nextRunnable kernel <;> simp [dispatched, isNext]
    simp only [dispatches, stepped, Option.map_some, Option.getD_some]
    grind [List.nodup_append]

/-- While a process stays runnable the scheduler switches to every other process at most once. -/
theorem run_bounded_waiting :
    (dispatches kernel actions).Nodup ∧ (dispatches kernel actions).length < nproc := by
  obtain ⟨nodup, ahead⟩ := dispatches_ahead runs waits
  have notSlot : slot ∉ dispatches kernel actions := fun member => by
    grind [ahead slot member, Ahead]
  refine ⟨nodup, ?_⟩
  simpa using (nodup.cons notSlot).length_le_card

end

/-- Two runnable processes, of which the scheduler switches to the first. -/
def twoRunnable : Kernel :=
  { Kernel.zero with procs := fun slot => { Proc.zero with state :=
      if slot.val < 2 then .runnable else .unused } }

theorem twoRunnable_bounded_waiting :
    (dispatches twoRunnable [.schedulerAcquire, .schedulerNext]).length < nproc :=
  (@run_bounded_waiting twoRunnable 1 _ [.schedulerAcquire, .schedulerNext] rfl
    ⟨rfl, by rintro _ ⟨⟩; exact ⟨rfl, by rintro _ ⟨⟩; rfl⟩⟩).2

end Xk
