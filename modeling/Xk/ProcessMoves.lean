/-
This file says what a step of the process table can do. A step is one of seventeen moves
(`Move`), or two of them when a process that slept clears its channel first; the moves give
the new state explicitly together with what the code has checked, so that every invariant of
the table is a case analysis on them. The loops inside the sections are summarised first:
waking processes up, and the loop of `exit` that hands the children to `initproc`.
-/

import Xk.Process

namespace Xk

variable {before after procs : Slot → Proc} {me : Slot} {kernel : Kernel}

/-! ### Kinds of states -/

/-- What a state says about the slot, apart from scheduling. -/
inductive Kind
  | unused
  | embryo
  | live
  | zombie
deriving DecidableEq

def ProcState.kind : ProcState → Kind
  | .unused => .unused
  | .embryo => .embryo
  | .sleeping | .runnable | .running => .live
  | .zombie => .zombie

/-- The kind of a slot's state. -/
def Kernel.kind (kernel : Kernel) (slot : Slot) : Kind := (kernel.procs slot).state.kind

theorem kind_eq_unused {state : ProcState} : state.kind = .unused ↔ state = .unused := by
  cases state <;> simp [ProcState.kind]

theorem kind_eq_zombie {state : ProcState} : state.kind = .zombie ↔ state = .zombie := by
  cases state <;> simp [ProcState.kind]

/-! ### Waking up -/

/-- Some sleeping processes have become runnable, and nothing that the tree is about changed. -/
structure Woken (before after : Slot → Proc) : Prop where
  pid : ∀ slot, (after slot).pid = (before slot).pid
  parent : ∀ slot, (after slot).parent = (before slot).parent
  chan : ∀ slot, (after slot).chan = (before slot).chan
  state : ∀ slot, (after slot).state = (before slot).state ∨
    (before slot).state = .sleeping ∧ (after slot).state = .runnable

theorem Woken.refl (procs : Slot → Proc) : Woken procs procs :=
  ⟨fun _ => rfl, fun _ => rfl, fun _ => rfl, fun _ => Or.inl rfl⟩

theorem Woken.wakeup1 (procs : Slot → Proc) (chan : Channel) :
    Woken procs (wakeup1 procs chan) := by
  have slots : ∀ slot, Xk.wakeup1 procs chan slot = procs slot ∨
      (procs slot).state = .sleeping ∧
        Xk.wakeup1 procs chan slot = { procs slot with state := .runnable } := by
    grind [Xk.wakeup1]
  refine ⟨fun slot => ?_, fun slot => ?_, fun slot => ?_, fun slot => ?_⟩ <;>
    rcases slots slot with same | ⟨asleep, woken⟩
  all_goals first
    | rw [same]
    | rw [woken]
  · exact Or.inl rfl
  · exact Or.inr ⟨asleep, rfl⟩

/-- After `wakeup1(chan)` nobody sleeps on the channel. -/
theorem wakeup1_awake (procs : Slot → Proc) (chan : Channel) (slot : Slot)
    (onChannel : (wakeup1 procs chan slot).chan = chan) :
    (wakeup1 procs chan slot).state ≠ .sleeping := by
  grind [wakeup1]

theorem Woken.kill (procs : Slot → Proc) (pid : Pid) : Woken procs (kill procs pid) := by
  unfold Xk.kill
  split
  case h_1 => exact .refl procs
  case h_2 slot _ =>
    refine ⟨fun other => ?_, fun other => ?_, fun other => ?_, fun other => ?_⟩ <;>
      by_cases same : other = slot
    all_goals first
      | rw [Function.update_of_ne same]
      | rw [same, Function.update_self]
    · grind
    · exact Or.inl rfl

theorem Woken.kind (woken : Woken before after) (slot : Slot) :
    (after slot).state.kind = (before slot).state.kind := by
  rcases woken.state slot with same | ⟨asleep, runnable⟩
  · rw [same]
  · rw [asleep, runnable]
    rfl

/-! ### The loop of `exit` -/

/-- The test of the loop of `exit`: the slot's parent has the pid of the exiting process. -/
def HasParentPid (me : Slot) (procs : Slot → Proc) (slot : Slot) : Prop :=
  ∃ parent, (procs slot).parent = some parent ∧ (procs parent).pid = (procs me).pid

/-- The first process does not sleep on its own address, as it does in `wait`. -/
def InitAwake (procs : Slot → Proc) : Prop :=
  (procs initproc).chan = .proc initproc → (procs initproc).state ≠ .sleeping

/-- What any number of turns of the loop do. A slot whose parent changed was found by the test,
and then the first process is awake. -/
structure Reparented (me : Slot) (before after : Slot → Proc) : Prop where
  pid : ∀ slot, (after slot).pid = (before slot).pid
  chan : ∀ slot, (after slot).chan = (before slot).chan
  state : ∀ slot, (after slot).state = (before slot).state ∨
    (before slot).state = .sleeping ∧ (after slot).state = .runnable
  parent : ∀ slot, (after slot).parent = (before slot).parent ∨
    (after slot).parent = some initproc ∧ HasParentPid me before slot ∧ InitAwake after

theorem Reparented.refl (me : Slot) (procs : Slot → Proc) : Reparented me procs procs :=
  ⟨fun _ => rfl, fun _ => rfl, fun _ => Or.inl rfl, fun _ => Or.inl rfl⟩

theorem Reparented.initAwake (turns : Reparented me before after) (awake : InitAwake before) :
    InitAwake after := by
  intro onItself
  rw [turns.chan] at onItself
  rcases turns.state initproc with same | ⟨asleep, _⟩
  · rw [same]
    exact awake onItself
  · exact absurd asleep (awake onItself)

theorem Reparented.hasParentPid {slot : Slot} (turns : Reparented me before after)
    (found : HasParentPid me after slot) :
    HasParentPid me before slot := by
  rcases turns.parent slot with same | ⟨_, foundBefore, _⟩
  · obtain ⟨parent, isParent, pids⟩ := found
    rw [turns.pid, turns.pid] at pids
    exact ⟨parent, same ▸ isParent, pids⟩
  · exact foundBefore

theorem Reparented.trans {first second third : Slot → Proc} (left : Reparented me first second)
    (right : Reparented me second third) :
    Reparented me first third where
  pid slot := (right.pid slot).trans (left.pid slot)
  chan slot := (right.chan slot).trans (left.chan slot)
  state slot := by grind [Reparented]
  parent slot := by grind [Reparented, initAwake, hasParentPid]

theorem Woken.reparented (woken : Woken before after) :
    Reparented me before after :=
  ⟨woken.pid, woken.chan, woken.state, fun slot => Or.inl (woken.parent slot)⟩

/-- A turn that finds its slot makes it a child of the first process, which it wakes. -/
theorem reparentTurn_found {slot : Slot} (found : HasParentPid me procs slot) :
    Reparented me procs (reparentTurn me procs slot) ∧
      (reparentTurn me procs slot slot).parent = some initproc := by
  obtain ⟨parent, isParent, pids⟩ := found
  let adopted := Function.update procs slot { procs slot with parent := some initproc }
  have adopted_slot : adopted slot = { procs slot with parent := some initproc } :=
    Function.update_self _ _ _
  have adopted_other : ∀ other, other ≠ slot → adopted other = procs other :=
    fun other different => Function.update_of_ne different _ _
  have turn : reparentTurn me procs slot =
      if (adopted initproc).state = .sleeping then wakeup1 adopted (.proc initproc)
      else adopted := by
    grind [reparentTurn]
  have woken : Woken adopted (reparentTurn me procs slot) := by grind [Woken.refl, Woken.wakeup1]
  have awake : InitAwake (reparentTurn me procs slot) := by
    rw [turn]
    split
    case isTrue => exact wakeup1_awake adopted (.proc initproc) initproc
    case isFalse alreadyAwake => exact fun _ => alreadyAwake
  refine ⟨⟨fun other => ?_, fun other => ?_, fun other => ?_, fun other => ?_⟩, ?_⟩
  · grind [Woken]
  · grind [Woken]
  · grind [Woken]
  · rw [woken.parent]
    by_cases same : other = slot
    · rw [same, adopted_slot]
      exact Or.inr ⟨rfl, ⟨parent, isParent, pids⟩, awake⟩
    · grind
  · rw [woken.parent, adopted_slot]

theorem reparentTurn_other {slot : Slot} (other : ¬ HasParentPid me procs slot) :
    reparentTurn me procs slot = procs := by
  unfold reparentTurn
  split
  case h_1 => rfl
  case h_2 parent isParent => exact if_neg fun pids => other ⟨parent, isParent, pids⟩

theorem Reparented.turn (me slot : Slot) (procs : Slot → Proc) :
    Reparented me procs (reparentTurn me procs slot) := by
  grind [reparentTurn_found, reparentTurn_other, refl]

theorem Reparented.loop (me : Slot) (slots : List Slot) (procs : Slot → Proc) :
    Reparented me procs (slots.foldl (reparentTurn me) procs) :=
  List.foldlRecOn slots (reparentTurn me) (motive := Reparented me procs) (.refl me procs)
    fun _ turns slot _ => turns.trans (.turn me slot _)

/-- The loop makes every slot it visits and finds a child of the first process. -/
theorem reparentLoop_found {slot : Slot} {slots : List Slot} (member : slot ∈ slots)
    (found : HasParentPid me procs slot) :
    (slots.foldl (reparentTurn me) procs slot).parent = some initproc := by
  obtain ⟨earlier, later, rfl⟩ := List.append_of_mem member
  rw [List.foldl_append, List.foldl_cons]
  -- before its turn the slot still has its parent, or it is already adopted
  have turn : (reparentTurn me (earlier.foldl (reparentTurn me) procs) slot slot).parent =
      some initproc := by
    by_cases foundNow : HasParentPid me (earlier.foldl (reparentTurn me) procs) slot
    · exact (reparentTurn_found foundNow).2
    · rw [reparentTurn_other foundNow]
      have turns := Reparented.loop me earlier procs
      rcases turns.parent slot with same | ⟨adopted, _, _⟩
      · obtain ⟨parent, isParent, pids⟩ := found
        exact absurd ⟨parent, same.trans isParent, by rw [turns.pid, turns.pid, pids]⟩ foundNow
      · exact adopted
  rcases (Reparented.loop me later
      (reparentTurn me (earlier.foldl (reparentTurn me) procs) slot)).parent slot with
    same | ⟨adopted, _, _⟩
  · exact same.trans turn
  · exact adopted

/-- What the locked part of `exit` does. -/
structure Exited (me : Slot) (before after : Slot → Proc) : Prop where
  zombie : (after me).state = .zombie
  pid : ∀ slot, (after slot).pid = (before slot).pid
  chan : ∀ slot, (after slot).chan = (before slot).chan
  state : ∀ slot, slot ≠ me → (after slot).state = (before slot).state ∨
    (before slot).state = .sleeping ∧ (after slot).state = .runnable
  parent : ∀ slot, (after slot).parent = (before slot).parent ∨
    (after slot).parent = some initproc ∧ HasParentPid me before slot ∧ InitAwake after
  found : ∀ slot, HasParentPid me before slot → (after slot).parent = some initproc
  parentAwake : ∀ parent, (after me).parent = some parent →
    (after parent).chan = .proc parent → (after parent).state ≠ .sleeping

theorem exitSection_exited (procs : Slot → Proc) (notInit : me ≠ initproc) :
    Exited me procs (exitSection procs me) := by
  let adopted := (List.finRange nproc).foldl (reparentTurn me) procs
  let woken := wakeup1 adopted (parentChannel (adopted me).parent)
  have turns : Reparented me procs adopted := .loop me _ procs
  have awakened : Woken adopted woken := .wakeup1 adopted _
  have both : Reparented me procs woken := turns.trans awakened.reparented
  have atMe : exitSection procs me me = { woken me with state := .zombie } :=
    Function.update_self _ _ _
  have atOther : ∀ slot, slot ≠ me → exitSection procs me slot = woken slot :=
    fun slot other => Function.update_of_ne other _ _
  have parents : ∀ slot, (exitSection procs me slot).parent = (woken slot).parent := by grind
  refine ⟨by rw [atMe], fun slot => ?_, fun slot => ?_, fun slot other => ?_, fun slot => ?_,
    fun slot found => ?_, fun parent isParent onItself => ?_⟩
  · grind [Reparented]
  · grind [Reparented]
  · grind [Reparented]
  · grind [InitAwake, Reparented]
  · grind [Woken, reparentLoop_found]
  · grind [Woken, parentChannel, wakeup1_awake]

/-! ### What a step can do -/

theorem allocproc_eq_some {created : Kernel} {child : Slot}
    (found : allocproc kernel = some (child, created)) :
    kernel.kind child = .unused ∧ created = kernel.create child := by
  unfold allocproc at found
  split at found
  case h_1 => cases found
  case h_2 slot first =>
    have unused := List.find?_some (p := fun slot => (kernel.procs slot).state = .unused) first
    simp only [Option.some_inj, Prod.mk.injEq] at found
    obtain ⟨rfl, rfl⟩ := found
    exact ⟨kind_eq_unused.mpr (of_decide_eq_true unused), rfl⟩

/-- The moves that steps are made of, with what the code has checked before each. -/
inductive Move (kernel : Kernel) : Kernel → Prop
  | acquire (idle : kernel.cpuProc = none) :
      Move kernel { kernel with lock := .scheduler, scan := 0 }
  | release : Move kernel { kernel with lock := .free }
  | dispatch (idle : kernel.cpuProc = none) {slot : Slot}
      (runnable : (kernel.procs slot).state = .runnable) :
      Move kernel { kernel.setProc slot { kernel.procs slot with state := .running } with
        cpuProc := some slot, lock := .process }
  | clearChan {me : Slot} (running : kernel.cpuProc = some me) :
      Move kernel (kernel.setProc me { kernel.procs me with chan := .null })
  | wake {procs : Slot → Proc} (woken : Woken kernel.procs procs) :
      Move kernel { kernel with procs := procs }
  | fork {me child : Slot} (running : kernel.cpuProc = some me)
      (call : (kernel.threads me).call = .user) (unused : kernel.kind child = .unused) :
      Move kernel ((kernel.create child).setCall me (.fork child))
  | forkNoStack {me child : Slot} (running : kernel.cpuProc = some me)
      (call : (kernel.threads me).call = .fork child) :
      Move kernel ((kernel.setProc child
        { kernel.procs child with state := .unused }).setCall me .user)
  | forkFinish {me child : Slot} (running : kernel.cpuProc = some me)
      (call : (kernel.threads me).call = .fork child) :
      Move kernel (forkFinish kernel me child)
  | wait {me : Slot} (running : kernel.cpuProc = some me)
      (call : (kernel.threads me).call = .user) :
      Move kernel (kernel.setCall me (.wait 0 false))
  | waitScan {me : Slot} {next : Nat} {has : Bool} (running : kernel.cpuProc = some me)
      (call : (kernel.threads me).call = .wait next has) (inTable : next < nproc) :
      Move kernel (kernel.setCall me (.wait (next + 1)
        (has || ((kernel.procs ⟨next, inTable⟩).parent = some me ∧
          (kernel.procs ⟨next, inTable⟩).state ≠ .unused : Bool))))
  | waitFound {me : Slot} {next : Nat} (running : kernel.cpuProc = some me)
      (call : (kernel.threads me).call = .wait next true) :
      Move kernel (kernel.setCall me .reap)
  | childless {me : Slot} {next : Nat} (running : kernel.cpuProc = some me)
      (call : (kernel.threads me).call = .wait next false) (scanned : nproc ≤ next) :
      Move kernel ((kernel.setCall me .user).record (.childless (kernel.births me)))
  | reap {me child : Slot} (running : kernel.cpuProc = some me)
      (call : (kernel.threads me).call = .reap)
      (parent : (kernel.procs child).parent = some me)
      (zombie : (kernel.procs child).state = .zombie) :
      Move kernel { ((kernel.setProc child { kernel.procs child with
          state := .unused, parent := none, pid := 0, killed := false }).setCall me .user).record
            (.waited (kernel.births me) (kernel.births child) (kernel.procs child).pid) with
        lock := .free }
  | waitSleep {me : Slot} (running : kernel.cpuProc = some me)
      (call : (kernel.threads me).call = .reap)
      (noZombie : ∀ child, (kernel.procs child).parent = some me →
        (kernel.procs child).state ≠ .zombie) :
      Move kernel ((kernel.setProc me { kernel.procs me with
        chan := .proc me, state := .sleeping }).sched me .sleep)
  | exit {me : Slot} (running : kernel.cpuProc = some me)
      (call : (kernel.threads me).call = .user) (notInit : me ≠ initproc) :
      Move kernel (({ kernel with procs := exitSection kernel.procs me }.record
        (.exited (kernel.births me))).sched me .yield)
  | sleep {me : Slot} (chan : Channel) (running : kernel.cpuProc = some me)
      (call : (kernel.threads me).call = .user) :
      Move kernel ((kernel.setProc me
        { kernel.procs me with chan := chan, state := .sleeping }).sched me .sleep)
  | yield {me : Slot} (running : kernel.cpuProc = some me) :
      Move kernel ((kernel.setProc me { kernel.procs me with state := .runnable }).sched me .yield)

theorem reapSection_move (running : kernel.cpuProc = some me)
    (call : (kernel.threads me).call = .reap) : Move kernel (reapSection kernel me) := by
  unfold reapSection
  split
  case h_1 child found =>
    have first := List.find?_some (p := fun slot =>
      (kernel.procs slot).parent = some me ∧ (kernel.procs slot).state = .zombie) found
    obtain ⟨parent, zombie⟩ := of_decide_eq_true first
    exact .reap running call parent zombie
  case h_2 none =>
    refine .waitSleep running call fun child parent zombie => ?_
    have noChild := List.find?_eq_none.mp none child (List.mem_finRange child)
    exact noChild (decide_eq_true ⟨parent, zombie⟩)

theorem processStep_move {after : Kernel} {action : ProcessAction}
    (running : kernel.cpuProc = some me) (taken : processStep kernel me action = some after) :
    Move kernel after := by
  unfold processStep at taken
  split at taken
  case h_1 call =>
    split at taken
    · rw [← Option.some_inj.mp taken]
      exact .wake (.refl _)
    case h_2 child created found =>
      obtain ⟨unused, rfl⟩ := allocproc_eq_some found
      rw [← Option.some_inj.mp taken]
      exact .fork running call unused
  case h_2 child call =>
    rw [← Option.some_inj.mp taken]
    exact .forkNoStack running call
  case h_3 child call =>
    rw [← Option.some_inj.mp taken]
    exact .forkFinish running call
  case h_4 call =>
    rw [← Option.some_inj.mp taken]
    exact .wait running call
  case h_5 next has call =>
    split at taken
    · rw [← Option.some_inj.mp taken]
      exact .waitScan running call _
    · cases taken
  case h_6 next has call =>
    split at taken
    · cases taken
    · split at taken
      case isTrue isSome =>
        rw [← Option.some_inj.mp taken]
        exact .waitFound running (isSome ▸ call)
      case isFalse scanned isNone =>
        rw [← Option.some_inj.mp taken]
        rw [Bool.not_eq_true] at isNone
        exact .childless running (isNone ▸ call) (not_lt.mp scanned)
  case h_7 call =>
    rw [← Option.some_inj.mp taken]
    exact reapSection_move running call
  case h_8 call =>
    split at taken
    · cases taken
    case isFalse notInit =>
      rw [← Option.some_inj.mp taken]
      exact .exit running call notInit
  case h_9 =>
    rw [← Option.some_inj.mp taken]
    exact .wake (.kill _ _)
  case h_10 chan call =>
    rw [← Option.some_inj.mp taken]
    exact .sleep chan running call
  case h_11 =>
    rw [← Option.some_inj.mp taken]
    exact .yield running
  case h_12 => cases taken

/-- A step is one move, or two when a process that slept clears its channel first. -/
theorem kernelStep_move {after : Kernel} {action : KernelAction}
    (taken : kernelStep kernel action = some after) :
    Move kernel after ∨ ∃ me, kernel.cpuProc = some me ∧
      Move (kernel.setProc me { kernel.procs me with chan := .null }) after := by
  unfold kernelStep at taken
  split at taken
  case h_1 idle =>
    rw [← Option.some_inj.mp taken]
    exact Or.inl (.acquire idle)
  case h_2 idle =>
    rw [← Option.some_inj.mp taken, schedulerNext]
    split
    · exact Or.inl .release
    case h_2 slot found =>
      have first := List.find?_some (p := fun (slot : Slot) =>
        kernel.scan ≤ slot.val ∧ (kernel.procs slot).state = .runnable) found
      exact Or.inl (.dispatch idle (of_decide_eq_true first).2)
  case h_3 me _ running =>
    rw [← Option.some_inj.mp taken, resumeSection]
    split
    · exact Or.inl .release
    · exact Or.inl .release
    · dsimp only
      split
      case isTrue call => exact Or.inr ⟨me, running, reapSection_move running call⟩
      case isFalse => exact Or.inr ⟨me, running, .release⟩
  case h_4 =>
    rw [← Option.some_inj.mp taken]
    exact Or.inl (.wake (.wakeup1 _ _))
  case h_5 me _ running => exact Or.inl (processStep_move running taken)
  case h_6 => cases taken

/-- An invariant of the moves is an invariant of the steps. -/
theorem kernelStep_keeps {Good : Kernel → Prop}
    (kept : ∀ kernel after, Move kernel after → Good kernel → Good after) {after : Kernel}
    {action : KernelAction} (taken : kernelStep kernel action = some after) (good : Good kernel) :
    Good after := by
  rcases kernelStep_move taken with one | ⟨me, running, second⟩
  · exact kept kernel after one good
  · exact kept _ after second (kept kernel _ (.clearChan running) good)

end Xk
