/-
This file proves that `wait` and `exit` never miss each other. No process sleeps in `wait`
while it has a zombie child; every pid that `fork` hands out is returned by at most one
`wait`, called by the parent after the child's `exit`; and a process other than the first gets
`-1` from `wait` exactly when it has no child left to reap.

Nobody but a process itself takes its children away or gives it new ones, except that orphans
go to the first process. That is what lets `wait` scan the table in sixty-four separate
sections: what a section has not found is not there later either (`Move.child_before`).
-/

import Xk.ProcessTree

namespace Xk

open Transition

variable {kernel after : Kernel}

/-- A child that has not been reaped. -/
def UnreapedChild (kernel : Kernel) (parent child : Slot) : Prop :=
  (kernel.procs child).parent = some parent ∧ (kernel.procs child).state ≠ .unused

/-- The process is inside `wait`. -/
def Call.InWait : Call → Prop
  | .wait _ _ | .reap => True
  | _ => False

theorem TableInvariant.unreapedChild_iff (table : TableInvariant kernel) {parent child : Slot} :
    UnreapedChild kernel parent child ↔ (kernel.procs child).parent = some parent := by
  refine ⟨fun unreaped => unreaped.1, fun isParent => ⟨isParent, fun unused => ?_⟩⟩
  have none := table.tree.parent_none child (Or.inl (kind_eq_unused.mpr unused))
  rw [isParent] at none
  cases none

/-! ### Children -/

/-- A process other than the first gets a child only at the end of its own `fork`. -/
theorem Move.child_before (move : Move kernel after) {slot : Slot} (child : Slot)
    (notInit : slot ≠ initproc) (notFork : ∀ other, (kernel.threads slot).call ≠ .fork other)
    (isParent : (after.procs child).parent = some slot) :
    (kernel.procs child).parent = some slot := by
  -- an assignment to one entry that does not set a parent
  have assigned : ∀ {entry : Slot} {proc : Proc}, (proc.parent = some slot →
      (kernel.procs entry).parent = some slot) →
      ((kernel.setProc entry proc).procs child).parent = some slot →
      (kernel.procs child).parent = some slot := by
    grind [Kernel.setProc_procs_self, Kernel.setProc_procs_of_ne]
  cases move with
  | acquire | release | wait | waitScan | waitFound | childless => exact isParent
  | dispatch => exact assigned (by exact id) isParent
  | clearChan => exact assigned (by exact id) isParent
  | wake woken => grind [Woken]
  | fork => exact assigned (by exact id) isParent
  | forkNoStack => exact assigned (by exact id) isParent
  | @forkFinish me grandchild running call =>
    refine assigned (fun isMe => ?_) isParent
    rw [Option.some_inj.mp isMe] at call
    exact absurd call (notFork grandchild)
  | reap => exact assigned (by exact nofun) isParent
  | waitSleep => exact assigned (by exact id) isParent
  | @exit me running call meNotInit =>
    rcases (exitSection_exited kernel.procs meNotInit).parent child with same | ⟨adopted, _, _⟩
    · exact same.symm.trans isParent
    · exact absurd (Option.some_inj.mp (isParent.symm.trans adopted)) notInit
  | sleep => exact assigned (by exact id) isParent
  | yield => exact assigned (by exact id) isParent

/-- While pids are distinct, a process inside `wait` loses a child only by reaping it. -/
theorem Move.child_after (move : Move kernel after) (table : TableInvariant kernel)
    (few : kernel.allocations ≤ 2 ^ 32) {slot child : Slot}
    (busy : (kernel.threads slot).call ≠ .user) (stays : (after.threads slot).call ≠ .user)
    (isParent : (kernel.procs child).parent = some slot) :
    (after.procs child).parent = some slot := by
  have assigned : ∀ {entry : Slot} {proc : Proc}, ((kernel.procs entry).parent = some slot →
      proc.parent = some slot) →
      ((kernel.setProc entry proc).procs child).parent = some slot := by
    grind [Kernel.setProc_procs_self, Kernel.setProc_procs_of_ne]
  cases move with
  | acquire | release | wait | waitScan | waitFound | childless => exact isParent
  | dispatch => exact assigned (by exact id)
  | clearChan => exact assigned (by exact id)
  | wake woken => grind [Woken]
  | fork => exact assigned (by exact id)
  | forkNoStack => exact assigned (by exact id)
  | @forkFinish me grandchild running call =>
    refine assigned fun hasParent => ?_
    have none := table.tree.parent_none grandchild (Or.inr (table.calls.child me grandchild call))
    rw [hasParent] at none
    cases none
  | @reap me zombie running call parent isZombie =>
    refine assigned fun hasParent => ?_
    -- the process that reaps returns from `wait`
    have isMe : me = slot := Option.some_inj.mp (parent.symm.trans hasParent)
    exact absurd (isMe ▸ Kernel.setCall_call_self _ me .user) stays
  | waitSleep => exact assigned (by exact id)
  | @exit me running call notInit =>
    have exited := exitSection_exited kernel.procs notInit
    rcases exited.parent child with same | ⟨_, ⟨parent, found, pids⟩, _⟩
    · exact same.trans isParent
    · -- the parent of a child that is handed on has the pid of the exiting process
      have isSlot : parent = slot := Option.some_inj.mp (found.symm.trans isParent)
      rw [isSlot] at pids
      have liveSlot := table.calls.busy slot busy
      have liveMe := table.processor.live running
      have usedSlot : kernel.kind slot ≠ .unused := by
        rw [liveSlot]
        decide
      have usedMe : kernel.kind me ≠ .unused := by
        rw [liveMe]
        decide
      rw [table.tree.pid_eq slot usedSlot, table.tree.pid_eq me usedMe] at pids
      have births := pidOf_injective ((table.tree.birth_lt slot usedSlot).trans_le few)
        ((table.tree.birth_lt me usedMe).trans_le few) pids
      rw [table.tree.birth_inj slot me usedSlot usedMe births] at busy
      exact absurd call busy
  | sleep => exact assigned (by exact id)
  | yield => exact assigned (by exact id)

/-! ### Sleeping in `wait` -/

/-- A process that is asleep in `wait` after a move was so before, or has just gone to sleep on its
own address after finding no zombie child. -/
theorem Move.asleep_before (move : Move kernel after) (table : TableInvariant kernel)
    {slot : Slot} (asleep : (after.procs slot).state = .sleeping)
    (inWait : (after.threads slot).call.InWait) :
    (kernel.procs slot).state = .sleeping ∧
        (after.threads slot).call = (kernel.threads slot).call ∧
        (after.procs slot).chan = (kernel.procs slot).chan ∨
      (after.threads slot).call = .reap ∧ (after.procs slot).chan = .proc slot ∧
        ∀ child, (kernel.procs child).parent = some slot →
          (kernel.procs child).state ≠ .zombie := by
  -- the running process does not sleep
  have notRunning : ∀ {me : Slot}, kernel.cpuProc = some me →
      (kernel.procs me).state ≠ .sleeping := by
    intro me running isAsleep
    rw [(table.processor me).mpr running] at isAsleep
    cases isAsleep
  -- an entry is assigned that does not sleep afterwards
  have assigned : ∀ (entry : Slot) (proc : Proc), proc.state ≠ .sleeping →
      ((kernel.setProc entry proc).procs slot).state = .sleeping →
      (kernel.procs slot).state = .sleeping ∧
        ((kernel.setProc entry proc).procs slot).chan = (kernel.procs slot).chan := by
    grind [Kernel.setProc_procs_self, Kernel.setProc_procs_of_ne]
  -- a call that changes is that of the running process
  have called : ∀ {me : Slot} {call : Call} {between : Kernel}, kernel.cpuProc = some me →
      between.threads = kernel.threads → (kernel.procs slot).state = .sleeping →
      ((between.setCall me call).threads slot).call = (kernel.threads slot).call := by
    grind [Kernel.setCall_threads_of_ne]
  cases move with
  | acquire | release => exact Or.inl ⟨asleep, rfl, rfl⟩
  | dispatch =>
    obtain ⟨before, chan⟩ := assigned _ _ (by simp) asleep
    exact Or.inl ⟨before, rfl, chan⟩
  | @clearChan me running =>
    obtain ⟨before, chan⟩ := assigned _ _ (by exact notRunning running) asleep
    exact Or.inl ⟨before, rfl, chan⟩
  | wake woken => grind [Woken]
  | @fork me child running call unused =>
    obtain ⟨before, chan⟩ := assigned child { kernel.procs child with
      state := .embryo, pid := kernel.nextpid, killed := false } (by simp) asleep
    have notChild : slot ≠ child := by
      rintro rfl
      rw [Kernel.kind, before] at unused
      cases unused
    have notMe : slot ≠ me := by grind
    refine Or.inl ⟨before, ?_, chan⟩
    rw [Kernel.setCall_threads_of_ne _ _ notMe]
    exact congrArg Thread.call (Function.update_of_ne notChild _ _)
  | forkNoStack running call =>
    obtain ⟨before, chan⟩ := assigned _ _ (by simp) asleep
    exact Or.inl ⟨before, called running rfl before, chan⟩
  | forkFinish running call =>
    obtain ⟨before, chan⟩ := assigned _ _ (by simp) asleep
    exact Or.inl ⟨before, called running rfl before, chan⟩
  | wait running => exact Or.inl ⟨asleep, called running rfl asleep, rfl⟩
  | waitScan running => exact Or.inl ⟨asleep, called running rfl asleep, rfl⟩
  | waitFound running => exact Or.inl ⟨asleep, called running rfl asleep, rfl⟩
  | childless running => exact Or.inl ⟨asleep, called running rfl asleep, rfl⟩
  | reap running =>
    obtain ⟨before, chan⟩ := assigned _ _ (by simp) asleep
    exact Or.inl ⟨before, called running rfl before, chan⟩
  | @waitSleep me running call noZombie =>
    by_cases same : slot = me
    · simp_all
    · rw [Kernel.sched_procs, Kernel.setProc_procs_of_ne kernel _ same] at asleep ⊢
      exact Or.inl ⟨asleep, Kernel.sched_call _ _ _ _, rfl⟩
  | @exit me running call notInit =>
    have exited := exitSection_exited kernel.procs notInit
    have notMe : slot ≠ me := by
      rintro rfl
      exact absurd (exited.zombie.symm.trans asleep) (by simp)
    rcases exited.state slot notMe with same | ⟨_, runnable⟩
    · exact Or.inl ⟨same.symm.trans asleep, Kernel.sched_call _ _ _ _, exited.chan slot⟩
    · exact absurd (asleep.symm.trans runnable) (by simp)
  | @sleep me chan running call =>
    have callAfter : ∀ other, (((kernel.setProc me { kernel.procs me with
        chan := chan, state := .sleeping }).sched me .sleep).threads other).call =
          (kernel.threads other).call := fun other => Kernel.sched_call _ me other .sleep
    by_cases same : slot = me
    · rw [same, callAfter, call] at inWait
      cases inWait
    · rw [Kernel.sched_procs, Kernel.setProc_procs_of_ne kernel _ same] at asleep ⊢
      exact Or.inl ⟨asleep, callAfter slot, rfl⟩
  | yield =>
    obtain ⟨before, chan⟩ := assigned _ _ (by simp) asleep
    exact Or.inl ⟨before, Kernel.sched_call _ _ _ _, chan⟩

/-- A zombie child was one before, or its parent is awake: the child has just exited, or has just
been handed to the first process. -/
theorem Move.zombie_before (move : Move kernel after) {slot child : Slot}
    (zombie : (after.procs child).state = .zombie)
    (isParent : (after.procs child).parent = some slot) :
    (kernel.procs child).state = .zombie ∧ (kernel.procs child).parent = some slot ∨
      ((after.procs slot).chan = .proc slot → (after.procs slot).state ≠ .sleeping) := by
  have assigned : ∀ (entry : Slot) (proc : Proc), proc.state ≠ .zombie ∨
      proc.state = (kernel.procs entry).state ∧ proc.parent = (kernel.procs entry).parent →
      ((kernel.setProc entry proc).procs child).state = .zombie →
      ((kernel.setProc entry proc).procs child).parent = some slot →
      (kernel.procs child).state = .zombie ∧ (kernel.procs child).parent = some slot := by
    grind [Kernel.setProc_procs_self, Kernel.setProc_procs_of_ne]
  cases move with
  | acquire | release | wait | waitScan | waitFound | childless => exact Or.inl ⟨zombie, isParent⟩
  | clearChan => exact Or.inl (assigned _ _ (by exact Or.inr ⟨rfl, rfl⟩) zombie isParent)
  | wake woken => grind [Woken]
  | dispatch | forkNoStack | forkFinish | reap | waitSleep | sleep | yield =>
    exact Or.inl (assigned _ _ (by exact Or.inl (by simp)) zombie isParent)
  | @fork me grandchild =>
    exact Or.inl (assigned grandchild { kernel.procs grandchild with
      state := .embryo, pid := kernel.nextpid, killed := false } (Or.inl (by simp))
      zombie isParent)
  | @exit me running call notInit =>
    have exited := exitSection_exited kernel.procs notInit
    by_cases same : child = me
    · rw [same] at isParent
      exact Or.inr (exited.parentAwake slot isParent)
    · rcases exited.parent child with kept | ⟨adopted, _, awake⟩
      · left
        rcases exited.state child same with unchanged | ⟨_, runnable⟩
        · exact ⟨unchanged.symm.trans zombie, kept.symm.trans isParent⟩
        · exact absurd (zombie.symm.trans runnable) (by simp)
      · right
        rw [Option.some_inj.mp (isParent.symm.trans adopted)]
        exact awake

/-! ### Scanning for children -/

/-- How the call of a process can change in one move. -/
theorem Move.call_cases (move : Move kernel after) (slot : Slot) :
    (after.threads slot).call = (kernel.threads slot).call ∨
      (after.threads slot).call = .user ∧ (kernel.kind slot = .unused ∨
        (∃ child, (kernel.threads slot).call = .fork child) ∨
        (kernel.threads slot).call = .reap ∨ kernel.cpuProc = some slot ∧
          after.history = .childless (kernel.births slot) :: kernel.history) ∨
      (∃ child, (kernel.threads slot).call = .user ∧ (after.threads slot).call = .fork child) ∨
      (after.threads slot).call = .wait 0 false ∨
      (∃ next has, ∃ inTable : next < nproc, (kernel.threads slot).call = .wait next has ∧
        (after.threads slot).call = .wait (next + 1)
          (has || ((kernel.procs ⟨next, inTable⟩).parent = some slot ∧
            (kernel.procs ⟨next, inTable⟩).state ≠ .unused : Bool))) ∨
      (∃ next, (kernel.threads slot).call = .wait next true ∧
        (after.threads slot).call = .reap) := by
  -- the call of `me` is set, and all others stay
  have called : ∀ {me : Slot} {call : Call} {between : Kernel},
      between.threads = kernel.threads →
      ((between.setCall me call).threads slot).call = (kernel.threads slot).call ∨
        slot = me ∧ ((between.setCall me call).threads slot).call = call := by
    grind [Kernel.setCall_call_self, Kernel.setCall_threads_of_ne]
  cases move with
  | acquire | release | dispatch | clearChan | wake => exact Or.inl rfl
  | waitSleep | sleep | yield | exit => exact Or.inl (Kernel.sched_call _ _ _ _)
  | @fork me child running call unused =>
    by_cases same : slot = me
    · simp_all
    · rw [Kernel.setCall_threads_of_ne _ _ same]
      by_cases isChild : slot = child
      · right
        left
        refine ⟨?_, Or.inl (isChild ▸ unused)⟩
        simp only [isChild, Kernel.create, Function.update_self, Thread.fresh]
      · left
        simp only [Kernel.create, Function.update_of_ne isChild]
  | forkNoStack running call | forkFinish running call =>
    rcases called (by exact rfl) with same | ⟨isMe, user⟩
    · exact Or.inl same
    · exact Or.inr (Or.inl ⟨user, Or.inr (Or.inl ⟨_, isMe ▸ call⟩)⟩)
  | reap running call =>
    rcases called (by exact rfl) with same | ⟨isMe, user⟩
    · exact Or.inl same
    · exact Or.inr (Or.inl ⟨user, Or.inr (Or.inr (Or.inl (isMe ▸ call)))⟩)
  | childless running =>
    rcases called (by exact rfl) with same | ⟨isMe, user⟩
    · exact Or.inl same
    · subst isMe
      exact Or.inr (Or.inl ⟨user, Or.inr (Or.inr (Or.inr ⟨running, rfl⟩))⟩)
  | wait => grind
  | @waitScan me next has running call inTable => grind
  | @waitFound me next running call => grind

/-- What holds of the processes inside `wait`. -/
structure WaitInvariant (kernel : Kernel) : Prop where
  asleep : ∀ slot, (kernel.procs slot).state = .sleeping → (kernel.threads slot).call.InWait →
    (kernel.procs slot).chan = .proc slot
  unmissed : ∀ slot child, (kernel.procs slot).state = .sleeping →
    (kernel.threads slot).call.InWait → (kernel.procs child).parent = some slot →
    (kernel.procs child).state ≠ .zombie
  scanned : ∀ slot next child, slot ≠ initproc → (kernel.threads slot).call = .wait next false →
    child.val < next → (kernel.procs child).parent ≠ some slot
  found : kernel.allocations ≤ 2 ^ 32 → ∀ slot, slot ≠ initproc →
    (∃ next, (kernel.threads slot).call = .wait next true) ∨
      (kernel.threads slot).call = .reap →
    ∃ child, (kernel.procs child).parent = some slot

theorem WaitInvariant.move_asleep (waits : WaitInvariant kernel) (table : TableInvariant kernel)
    (move : Move kernel after) (slot : Slot) (asleep : (after.procs slot).state = .sleeping)
    (inWait : (after.threads slot).call.InWait) : (after.procs slot).chan = .proc slot := by
  rcases move.asleep_before table asleep inWait with ⟨before, call, chan⟩ | ⟨_, chan, _⟩
  · grind [WaitInvariant]
  · exact chan

theorem WaitInvariant.move_unmissed (waits : WaitInvariant kernel)
    (table : TableInvariant kernel) (move : Move kernel after) (slot child : Slot)
    (asleep : (after.procs slot).state = .sleeping) (inWait : (after.threads slot).call.InWait)
    (isParent : (after.procs child).parent = some slot) :
    (after.procs child).state ≠ .zombie := by
  intro zombie
  have chan := waits.move_asleep table move slot asleep inWait
  rcases move.zombie_before zombie isParent with ⟨zombieBefore, parentBefore⟩ | awake
  · rcases move.asleep_before table asleep inWait with ⟨before, call, _⟩ | ⟨_, _, noZombie⟩
    · grind [WaitInvariant]
    · exact noZombie child parentBefore zombieBefore
  · exact awake chan asleep

theorem WaitInvariant.move_scanned (waits : WaitInvariant kernel) (move : Move kernel after)
    (table : TableInvariant kernel) (slot : Slot) (next : Nat) (child : Slot)
    (notInit : slot ≠ initproc) (call : (after.threads slot).call = .wait next false)
    (visited : child.val < next) : (after.procs child).parent ≠ some slot := by
  intro isParent
  have before := fun notFork => move.child_before child notInit notFork isParent
  rcases move.call_cases slot with same | ⟨user, ended⟩ | ⟨other, idle, fork⟩ | entered |
    ⟨position, has, inTable, callBefore, callAfter⟩ | ⟨_, _, reap⟩
  · grind [WaitInvariant]
  · exact nomatch user.symm.trans call
  · exact nomatch fork.symm.trans call
  · grind
  · have parentBefore := before fun other fork => nomatch callBefore.symm.trans fork
    have result := callAfter.symm.trans call
    rw [Call.wait.injEq, Bool.or_eq_false_iff] at result
    obtain ⟨isNext, hasNot, notFound⟩ := result
    rw [hasNot] at callBefore
    by_cases last : child.val = position
    · -- the section that has just run looked at this very slot
      have slots : child = ⟨position, inTable⟩ := Fin.ext last
      rw [← slots] at notFound
      exact of_decide_eq_false notFound (table.unreapedChild_iff.mpr parentBefore)
    · exact waits.scanned slot position child notInit callBefore (by omega) parentBefore
  · exact nomatch reap.symm.trans call

theorem Move.allocations_le (move : Move kernel after) :
    kernel.allocations ≤ after.allocations := by
  cases move with
  | fork => exact Nat.le_succ _
  | _ => exact le_rfl

theorem WaitInvariant.move_found (waits : WaitInvariant kernel) (move : Move kernel after)
    (table : TableInvariant kernel) (few : after.allocations ≤ 2 ^ 32) (slot : Slot)
    (notInit : slot ≠ initproc)
    (call : (∃ next, (after.threads slot).call = .wait next true) ∨
      (after.threads slot).call = .reap) :
    ∃ child, (after.procs child).parent = some slot := by
  have fewBefore := move.allocations_le.trans few
  have stays : (after.threads slot).call ≠ .user := by grind
  -- it is enough to have a child before the move
  have keep : (kernel.threads slot).call ≠ .user →
      (∃ child, (kernel.procs child).parent = some slot) →
      ∃ child, (after.procs child).parent = some slot := by
    rintro busy ⟨child, isParent⟩
    exact ⟨child, move.child_after table fewBefore busy stays isParent⟩
  rcases move.call_cases slot with same | ⟨user, ended⟩ | ⟨other, idle, fork⟩ | entered |
    ⟨position, has, inTable, callBefore, callAfter⟩ | ⟨next, callBefore, _⟩
  · rw [same] at call stays
    exact keep stays (waits.found fewBefore slot notInit call)
  · exact absurd user stays
  · grind
  · grind
  · refine keep (fun user => nomatch callBefore.symm.trans user) ?_
    rcases call with ⟨next, wait⟩ | reap
    · have result := callAfter.symm.trans wait
      rw [Call.wait.injEq, Bool.or_eq_true_iff] at result
      rcases result.2 with hasBefore | isChild
      · rw [hasBefore] at callBefore
        exact waits.found fewBefore slot notInit (Or.inl ⟨position, callBefore⟩)
      · exact ⟨⟨position, inTable⟩, (of_decide_eq_true isChild).1⟩
    · exact nomatch callAfter.symm.trans reap
  · exact keep (fun user => nomatch callBefore.symm.trans user)
      (waits.found fewBefore slot notInit (Or.inl ⟨next, callBefore⟩))

theorem WaitInvariant.move (waits : WaitInvariant kernel) (table : TableInvariant kernel)
    (move : Move kernel after) : WaitInvariant after :=
  ⟨waits.move_asleep table move, waits.move_unmissed table move,
    waits.move_scanned move table, waits.move_found move table⟩

/-! ### The history -/

/-- The event is a `wait` that returned the process of the given birth. -/
def ProcEvent.returnsBirth (birth : Nat) : ProcEvent → Bool
  | .waited _ reaped _ => reaped = birth
  | _ => false

/-- The event is a `wait` that returned the given pid. -/
def ProcEvent.returnsPid (pid : Pid) : ProcEvent → Bool
  | .waited _ _ returned => returned = pid
  | _ => false

/-- A `wait` returns a process only after its pid was handed out and it exited. The newest event of
a history comes first. -/
def ReapedAfterExit (history : List ProcEvent) : Prop :=
  ∀ later earlier caller birth pid, history = later ++ .waited caller birth pid :: earlier →
    .allocated birth pid ∈ earlier ∧ .exited birth ∈ earlier

theorem ReapedAfterExit.cons {history : List ProcEvent} (ordered : ReapedAfterExit history)
    {event : ProcEvent} (fits : ∀ caller birth pid, event = .waited caller birth pid →
      .allocated birth pid ∈ history ∧ .exited birth ∈ history) :
    ReapedAfterExit (event :: history) := by
  intro later earlier caller birth pid split
  cases later with
  | nil => grind
  | cons newest rest =>
    rw [List.cons_append, List.cons.injEq] at split
    exact ordered rest earlier caller birth pid split.2

/-- What the history says about the slots, and the order of its events. -/
structure HistoryInvariant (kernel : Kernel) : Prop where
  allocated : ∀ slot, kernel.kind slot ≠ .unused →
    .allocated (kernel.births slot) (kernel.procs slot).pid ∈ kernel.history
  exited : ∀ slot, kernel.kind slot = .zombie → .exited (kernel.births slot) ∈ kernel.history
  past : ∀ caller birth pid, .waited caller birth pid ∈ kernel.history →
    birth < kernel.allocations ∧ pid = pidOf birth ∧
      ∀ slot, kernel.kind slot ≠ .unused → kernel.births slot ≠ birth
  once : ∀ birth, kernel.history.countP (ProcEvent.returnsBirth birth) ≤ 1
  ordered : ReapedAfterExit kernel.history

theorem HistoryInvariant.of_same {before : Kernel} (past : HistoryInvariant before)
    (same : SameTree before after) (history : after.history = before.history) :
    HistoryInvariant after where
  allocated slot := by grind [SameTree, HistoryInvariant]
  exited slot := by
    rw [same.kind, same.births, history]
    exact past.exited slot
  past caller birth pid := by grind [SameTree, HistoryInvariant]
  once := by
    rw [history]
    exact past.once
  ordered := by
    rw [history]
    exact past.ordered

/-- A slot that is not a zombie any more, or was not one before, changes its kind without an
event. -/
theorem HistoryInvariant.setProc (past : HistoryInvariant kernel) {slot : Slot} (proc : Proc)
    (used : kernel.kind slot ≠ .unused) (notZombie : proc.state ≠ .zombie)
    (pid : proc.pid = (kernel.procs slot).pid) : HistoryInvariant (kernel.setProc slot proc) := by
  have only := OnlySlot.setProc kernel slot proc
  have usedBefore : ∀ other, (kernel.setProc slot proc).kind other ≠ .unused →
      kernel.kind other ≠ .unused := by
    grind [OnlySlot.kind]
  refine ⟨fun other usedAfter => ?_, fun other zombie => ?_, fun caller birth reaped waited => ?_,
    past.once, past.ordered⟩
  · have before := past.allocated other (usedBefore other usedAfter)
    by_cases same : other = slot
    · rw [same] at before ⊢
      rw [Kernel.setProc_procs_self, pid]
      exact before
    · rw [Kernel.setProc_procs_of_ne kernel proc same]
      exact before
  · by_cases same : other = slot
    · grind [Kernel.kind, Kernel.setProc_procs_self, kind_eq_zombie]
    · rw [only.kind same] at zombie
      exact past.exited other zombie
  · obtain ⟨older, isPid, gone⟩ := past.past caller birth reaped waited
    exact ⟨older, isPid, fun other usedAfter => gone other (usedBefore other usedAfter)⟩

theorem HistoryInvariant.create (past : HistoryInvariant kernel) (child : Slot) :
    HistoryInvariant (kernel.create child) := by
  have birth : (kernel.create child).births child = kernel.allocations :=
    Function.update_self _ _ _
  have birthOther : ∀ other, other ≠ child →
      (kernel.create child).births other = kernel.births other :=
    fun other different => Function.update_of_ne different _ _
  have procOther : ∀ other, other ≠ child →
      (kernel.create child).procs other = kernel.procs other :=
    fun other different => Function.update_of_ne different _ _
  have procChild : (kernel.create child).procs child = { kernel.procs child with
      state := .embryo, pid := kernel.nextpid, killed := false } := Function.update_self _ _ _
  have kindOther : ∀ other, other ≠ child →
      (kernel.create child).kind other = kernel.kind other := by
    grind [Kernel.kind]
  have history : (kernel.create child).history =
      .allocated kernel.allocations kernel.nextpid :: kernel.history := rfl
  refine ⟨fun other used => ?_, fun other zombie => ?_, fun caller reaped pid waited => ?_,
    fun reaped => ?_, ?_⟩
  · grind [HistoryInvariant]
  · rw [history]
    by_cases same : other = child
    · rw [same, Kernel.kind, procChild] at zombie
      cases zombie
    · grind [HistoryInvariant]
  · rw [history] at waited
    obtain ⟨older, isPid, gone⟩ := past.past caller reaped pid
      ((List.mem_cons.mp waited).resolve_left fun same => by cases same)
    refine ⟨older.trans (Nat.lt_succ_self _), isPid, fun other used => ?_⟩
    by_cases same : other = child
    · grind
    · grind
  · grind [ProcEvent.returnsBirth, HistoryInvariant]
  · exact past.ordered.cons fun _ _ _ same => by cases same

/-- An event that no `wait` caused and that changes nothing but the history. -/
theorem HistoryInvariant.record (past : HistoryInvariant kernel) (event : ProcEvent)
    (notWaited : ∀ caller birth pid, event ≠ .waited caller birth pid) :
    HistoryInvariant (kernel.record event) := by
  refine ⟨fun slot used => List.mem_cons_of_mem event (past.allocated slot used),
    fun slot zombie => List.mem_cons_of_mem event (past.exited slot zombie),
    fun caller birth pid waited => past.past caller birth pid
      ((List.mem_cons.mp waited).resolve_left fun same => notWaited caller birth pid same.symm),
    fun birth => ?_, past.ordered.cons fun caller birth pid same =>
      absurd same (notWaited caller birth pid)⟩
  have notReturn : ¬ event.returnsBirth birth = true := by
    cases event with
    | waited caller reaped pid => exact absurd rfl (notWaited caller reaped pid)
    | _ => simp [ProcEvent.returnsBirth]
  rw [show (kernel.record event).history = event :: kernel.history from rfl,
    List.countP_cons_of_neg notReturn]
  exact past.once birth

theorem HistoryInvariant.exit (past : HistoryInvariant kernel) {me : Slot}
    (live : kernel.kind me = .live) (notInit : me ≠ initproc) :
    HistoryInvariant ({ kernel with procs := exitSection kernel.procs me }.record
      (.exited (kernel.births me))) := by
  have exited := exitSection_exited kernel.procs notInit
  have recorded := past.record (.exited (kernel.births me)) nofun
  set zombied := ({ kernel with procs := exitSection kernel.procs me } : Kernel).record
    (.exited (kernel.births me))
  have kindOther : ∀ slot, slot ≠ me → zombied.kind slot = kernel.kind slot := by
    intro slot other
    show (exitSection kernel.procs me slot).state.kind = (kernel.procs slot).state.kind
    rcases exited.state slot other with same | ⟨asleep, runnable⟩
    · rw [same]
    · rw [runnable, asleep]
      rfl
  have used : ∀ slot, zombied.kind slot ≠ .unused → kernel.kind slot ≠ .unused := by grind
  refine ⟨fun slot usedAfter => ?_, fun slot zombie => ?_, fun caller birth pid waited => ?_,
    recorded.once, recorded.ordered⟩
  · show ProcEvent.allocated (kernel.births slot) (exitSection kernel.procs me slot).pid ∈ _
    rw [exited.pid slot]
    exact recorded.allocated slot (used slot usedAfter)
  · by_cases same : slot = me
    · rw [same]
      exact List.mem_cons_self
    · rw [kindOther slot same] at zombie
      exact recorded.exited slot zombie
  · obtain ⟨older, isPid, gone⟩ := recorded.past caller birth pid waited
    exact ⟨older, isPid, fun slot usedAfter => gone slot (used slot usedAfter)⟩

/-- Reaping a zombie: its birth has not been returned before, and no slot has it afterwards. -/
theorem HistoryInvariant.reap (past : HistoryInvariant kernel) (tree : TreeInvariant kernel)
    {child : Slot} (proc : Proc) (caller : Nat) (zombie : kernel.kind child = .zombie)
    (freed : proc.state = .unused) :
    HistoryInvariant ((kernel.setProc child proc).record
      (.waited caller (kernel.births child) (kernel.procs child).pid)) := by
  set event := ProcEvent.waited caller (kernel.births child) (kernel.procs child).pid
  set reaped := (kernel.setProc child proc).record event
  have kindChild : reaped.kind child = .unused := by
    show ((kernel.setProc child proc).procs child).state.kind = .unused
    rw [Kernel.setProc_procs_self, freed]
    rfl
  have procOther : ∀ slot, slot ≠ child → reaped.procs slot = kernel.procs slot :=
    fun slot other => Kernel.setProc_procs_of_ne kernel proc other
  have usedBefore : ∀ slot, reaped.kind slot ≠ .unused →
      slot ≠ child ∧ kernel.kind slot ≠ .unused := by
    grind [Kernel.kind]
  have usedChild : kernel.kind child ≠ .unused := by
    rw [zombie]
    decide
  have history : reaped.history = event :: kernel.history := rfl
  refine ⟨fun slot used => ?_, fun slot isZombie => ?_, fun waiter birth pid waited => ?_,
    fun birth => ?_, past.ordered.cons ?_⟩
  · obtain ⟨other, used⟩ := usedBefore slot used
    rw [procOther slot other, history]
    exact List.mem_cons_of_mem event (past.allocated slot used)
  · obtain ⟨other, _⟩ := usedBefore slot (by rw [isZombie]; decide)
    rw [Kernel.kind, procOther slot other] at isZombie
    rw [history]
    exact List.mem_cons_of_mem event (past.exited slot isZombie)
  · rw [history] at waited
    rcases List.mem_cons.mp waited with new | old
    · obtain ⟨rfl, rfl, rfl⟩ := ProcEvent.waited.inj new
      refine ⟨tree.birth_lt child usedChild, tree.pid_eq child usedChild, fun slot used same => ?_⟩
      obtain ⟨other, used⟩ := usedBefore slot used
      exact other (tree.birth_inj slot child used usedChild same)
    · obtain ⟨older, isPid, gone⟩ := past.past waiter birth pid old
      exact ⟨older, isPid, fun slot used => gone slot (usedBefore slot used).2⟩
  · rw [history]
    by_cases isChild : kernel.births child = birth
    · have none : kernel.history.countP (ProcEvent.returnsBirth birth) = 0 := by
        rw [List.countP_eq_zero]
        intro older member returns
        cases older with
        | waited waiter returned pid =>
          have same : returned = birth := of_decide_eq_true returns
          exact (past.past waiter returned pid member).2.2 child usedChild (isChild.trans same.symm)
        | _ => simp [ProcEvent.returnsBirth] at returns
      rw [List.countP_cons, none]
      split <;> simp
    · grind [ProcEvent.returnsBirth, HistoryInvariant]
  · grind [HistoryInvariant]

theorem HistoryInvariant.move (past : HistoryInvariant kernel) (table : TableInvariant kernel)
    (move : Move kernel after) : HistoryInvariant after := by
  have unrelated : ∀ {before next : Kernel}, HistoryInvariant before →
      next.procs = before.procs → next.births = before.births →
      next.allocations = before.allocations → next.nextpid = before.nextpid →
      next.history = before.history → HistoryInvariant next := by
    intro before next good procs births allocations nextpid history
    refine good.of_same ⟨fun slot => ?_, fun slot => ?_, fun slot => ?_, births, allocations,
      nextpid⟩ history
    · rw [Kernel.kind, procs]
      rfl
    · rw [procs]
    · rw [procs]
  cases move with
  | acquire | release | wait | waitScan | waitFound =>
    exact unrelated past rfl rfl rfl rfl rfl
  | @dispatch idle slot runnable =>
    have live : (kernel.procs slot).state.kind = .live := by
      rw [runnable]
      rfl
    exact unrelated (past.of_same (.setProc kernel slot (sameKind_of_live
      { kernel.procs slot with state := .running } live rfl rfl rfl)) rfl)
      rfl rfl rfl rfl rfl
  | @clearChan me running => exact past.of_same (.setProc kernel me ⟨rfl, rfl, rfl⟩) rfl
  | wake woken => exact past.of_same (.of_woken woken) rfl
  | @fork me child => exact unrelated (past.create child) rfl rfl rfl rfl rfl
  | @forkNoStack me child running call =>
    have used : kernel.kind child ≠ .unused := by
      rw [table.calls.child me child call]
      decide
    exact unrelated (past.setProc { kernel.procs child with state := .unused } used
      (by simp) rfl) rfl rfl rfl rfl rfl
  | @forkFinish me child running call =>
    have used : kernel.kind child ≠ .unused := by
      rw [table.calls.child me child call]
      decide
    exact unrelated (past.setProc { kernel.procs child with
      state := .runnable, parent := some me } used (by simp) rfl) rfl rfl rfl rfl rfl
  | @childless me next running call scanned =>
    exact unrelated (past.record (.childless (kernel.births me)) fun _ _ _ same => by cases same)
      rfl rfl rfl rfl rfl
  | @reap me child running call parent zombie =>
    exact unrelated (past.reap table.tree { kernel.procs child with
      state := .unused, parent := none, pid := 0, killed := false } (kernel.births me)
      (kind_eq_zombie.mpr zombie) rfl) rfl rfl rfl rfl rfl
  | @waitSleep me running call noZombie =>
    exact unrelated (past.of_same (.setProc kernel me (sameKind_of_live
      { kernel.procs me with chan := .proc me, state := .sleeping }
      (table.processor.live running) rfl rfl rfl)) rfl) rfl rfl rfl rfl rfl
  | @exit me running call notInit =>
    exact unrelated (past.exit (table.processor.live running) notInit) rfl rfl rfl rfl rfl
  | @sleep me chan running call =>
    exact unrelated (past.of_same (.setProc kernel me (sameKind_of_live
      { kernel.procs me with chan := chan, state := .sleeping }
      (table.processor.live running) rfl rfl rfl)) rfl) rfl rfl rfl rfl rfl
  | @yield me running =>
    exact unrelated (past.of_same (.setProc kernel me (sameKind_of_live
      { kernel.procs me with state := .runnable }
      (table.processor.live running) rfl rfl rfl)) rfl) rfl rfl rfl rfl rfl

/-! ### What a step records -/

/-- The events a step can record, with what holds in the state before. -/
inductive NewEvent (kernel : Kernel) : ProcEvent → Prop
  | allocated (birth : Nat) (pid : Pid) : NewEvent kernel (.allocated birth pid)
  | exited (birth : Nat) : NewEvent kernel (.exited birth)
  | waited {me child : Slot} (running : kernel.cpuProc = some me)
      (parent : (kernel.procs child).parent = some me)
      (zombie : (kernel.procs child).state = .zombie) :
      NewEvent kernel (.waited (kernel.births me) (kernel.births child) (kernel.procs child).pid)
  | childless {me : Slot} {next : Nat} (running : kernel.cpuProc = some me)
      (call : (kernel.threads me).call = .wait next false) (scanned : nproc ≤ next) :
      NewEvent kernel (.childless (kernel.births me))

theorem Move.history (move : Move kernel after) : after.history = kernel.history ∨
    ∃ event, NewEvent kernel event ∧ after.history = event :: kernel.history := by
  cases move with
  | fork => exact Or.inr ⟨_, .allocated _ _, rfl⟩
  | exit => exact Or.inr ⟨_, .exited _, rfl⟩
  | reap running call parent zombie => exact Or.inr ⟨_, .waited running parent zombie, rfl⟩
  | childless running call scanned => exact Or.inr ⟨_, .childless running call scanned, rfl⟩
  | _ => exact Or.inl rfl

/-- Clearing a channel changes nothing that an event depends on. -/
theorem NewEvent.of_clearChan {me : Slot} {event : ProcEvent}
    (new : NewEvent (kernel.setProc me { kernel.procs me with chan := .null }) event) :
    NewEvent kernel event := by
  have entries : ∀ slot, SameKind (kernel.procs slot)
      ((kernel.setProc me { kernel.procs me with chan := .null }).procs slot) ∧
      ((kernel.setProc me { kernel.procs me with chan := .null }).procs slot).state =
        (kernel.procs slot).state := by
    intro slot
    by_cases same : slot = me
    · rw [same, Kernel.setProc_procs_self]
      exact ⟨⟨rfl, rfl, rfl⟩, rfl⟩
    · rw [Kernel.setProc_procs_of_ne kernel _ same]
      exact ⟨⟨rfl, rfl, rfl⟩, rfl⟩
  cases new with
  | allocated birth pid => exact .allocated birth pid
  | exited birth => exact .exited birth
  | @waited caller child running parent zombie =>
    obtain ⟨same, state⟩ := entries child
    rw [same.pid]
    exact .waited running (same.parent.symm.trans parent) (state.symm.trans zombie)
  | childless running call scanned => exact .childless running call scanned

theorem kernelStep_history {action : KernelAction} (taken : kernelStep kernel action = some after) :
    after.history = kernel.history ∨
      ∃ event, NewEvent kernel event ∧ after.history = event :: kernel.history := by
  rcases kernelStep_move taken with move | ⟨me, running, move⟩
  · exact move.history
  · rcases move.history with same | ⟨event, new, recorded⟩
    · exact Or.inl same
    · exact Or.inr ⟨event, new.of_clearChan, recorded⟩

theorem kernelStep_newEvent {action : KernelAction} {event : ProcEvent}
    (taken : kernelStep kernel action = some after)
    (recorded : after.history = event :: kernel.history) : NewEvent kernel event := by
  grind [kernelStep_history, List.cons_ne_self]

/-- A process other than the first that has no child while it scans for one goes on without finding
any, or returns `-1`. -/
theorem Move.childless_stays (move : Move kernel after) (table : TableInvariant kernel)
    {slot : Slot} {next : Nat} (notInit : slot ≠ initproc)
    (call : (kernel.threads slot).call = .wait next false)
    (noChild : ∀ child, (kernel.procs child).parent ≠ some slot) :
    (∃ later, (after.threads slot).call = .wait later false) ∧
        (∀ child, (after.procs child).parent ≠ some slot) ∨
      kernel.cpuProc = some slot ∧ (after.threads slot).call = .user ∧
        after.history = .childless (kernel.births slot) :: kernel.history := by
  have noChildAfter : ∀ child, (after.procs child).parent ≠ some slot := fun child isParent =>
    noChild child
      (move.child_before child notInit (fun _ fork => nomatch call.symm.trans fork) isParent)
  rcases move.call_cases slot with same | ⟨user, ended⟩ | ⟨other, idle, fork⟩ | entered |
    ⟨position, has, inTable, callBefore, callAfter⟩ | ⟨_, callBefore, _⟩
  · exact Or.inl ⟨⟨next, same.trans call⟩, noChildAfter⟩
  · grind [CallInvariant, TableInvariant]
  · exact nomatch call.symm.trans idle
  · exact Or.inl ⟨⟨0, entered⟩, noChildAfter⟩
  · grind
  · grind

/-! ### Runs -/

/-- The invariants of the table, of the processes in `wait` and of the history. -/
structure KernelInvariant (kernel : Kernel) : Prop where
  table : TableInvariant kernel
  waits : WaitInvariant kernel
  past : HistoryInvariant kernel

theorem KernelInvariant.move (good : KernelInvariant kernel) (move : Move kernel after) :
    KernelInvariant after :=
  ⟨good.table.move move, good.waits.move good.table move, good.past.move good.table move⟩

theorem KernelInvariant.initial : KernelInvariant .initial := by
  have procs : ∀ slot, Kernel.initial.procs slot = ⟨.runnable, 1, none, .null, false⟩ ∨
      Kernel.initial.procs slot = .zero := by
    grind [Kernel.initial_procs_init, Kernel.initial_procs_other]
  have awake : ∀ slot, (Kernel.initial.procs slot).state ≠ .sleeping := by grind [Proc.zero]
  have calls : ∀ slot, (Kernel.initial.threads slot).call = .user := by
    intro slot
    by_cases same : slot = initproc
    · rw [same]
      rfl
    · rw [show Kernel.initial.threads slot = Thread.fresh from Function.update_of_ne same _ _]
      rfl
  have history : Kernel.initial.history = [.allocated 0 1] := rfl
  refine ⟨.initial, ⟨fun slot asleep => absurd asleep (awake slot),
    fun slot _ asleep => absurd asleep (awake slot), fun slot next child _ call => ?_,
    fun _ slot _ call => ?_⟩, ⟨fun slot used => ?_, fun slot zombie => ?_,
    fun caller birth pid waited => ?_, fun birth => ?_, ?_⟩⟩
  · cases (calls slot).symm.trans call
  · grind
  · by_cases same : slot = initproc
    · rw [same]
      exact List.mem_cons_self
    · rw [Kernel.kind, Kernel.initial_procs_other same] at used
      exact absurd rfl used
  · rcases procs slot with proc | proc <;> rw [Kernel.kind, proc] at zombie <;> cases zombie
  · grind
  · grind
  · have empty : ReapedAfterExit [] := fun later earlier _ _ _ split => by simp at split
    exact empty.cons fun _ _ _ same => by cases same

/-- What it means that `wait` and `exit` do not miss each other, in a state and for the next step. A
birth is one handing out of a pid; as long as no pid has been handed out twice, a pid is as good
as a birth. -/
structure WaitExit (kernel : Kernel) : Prop where
  /-- Nobody sleeps in `wait` beside a zombie child. -/
  unmissed : ∀ slot child, (kernel.procs slot).state = .sleeping →
    (kernel.threads slot).call.InWait → (kernel.procs child).parent = some slot →
    (kernel.procs child).state ≠ .zombie
  /-- At most one `wait` has returned each process. -/
  birth_once : ∀ birth, kernel.history.countP (ProcEvent.returnsBirth birth) ≤ 1
  pid_once : kernel.allocations ≤ 2 ^ 32 →
    ∀ pid, kernel.history.countP (ProcEvent.returnsPid pid) ≤ 1
  after_exit : ReapedAfterExit kernel.history
  /-- A `wait` that returns a pid is called by the parent of a zombie with that pid. -/
  by_parent : ∀ action after caller birth pid, kernelStep kernel action = some after →
    after.history = .waited caller birth pid :: kernel.history →
    ∃ me child, kernel.cpuProc = some me ∧ kernel.births me = caller ∧
      kernel.births child = birth ∧ (kernel.procs child).pid = pid ∧
      (kernel.procs child).parent = some me ∧ (kernel.procs child).state = .zombie
  /-- When a `wait` returns, it returns `-1` exactly if there is no child to reap. -/
  childless_iff : ∀ action after me, kernelStep kernel action = some after →
    kernel.cpuProc = some me → me ≠ initproc →
    (∃ event, after.history = event :: kernel.history ∧
      (event = .childless (kernel.births me) ∨
        ∃ birth pid, event = .waited (kernel.births me) birth pid)) →
    (after.history = .childless (kernel.births me) :: kernel.history ↔
      ∀ child, ¬ UnreapedChild kernel me child)
  /-- A `wait` called without a child goes on without finding one until it returns `-1`. -/
  childless_stays : ∀ action after slot next, kernelStep kernel action = some after →
    slot ≠ initproc → (kernel.threads slot).call = .wait next false →
    (∀ child, ¬ UnreapedChild kernel slot child) →
    (∃ later, (after.threads slot).call = .wait later false) ∧
        (∀ child, ¬ UnreapedChild after slot child) ∨
      kernel.cpuProc = some slot ∧ (after.threads slot).call = .user ∧
        after.history = .childless (kernel.births slot) :: kernel.history
  /-- A `wait` that has found a child still has one, so it does not sleep in vain. -/
  has_child : kernel.allocations ≤ 2 ^ 32 → ∀ slot, slot ≠ initproc →
    (∃ next, (kernel.threads slot).call = .wait next true) ∨
      (kernel.threads slot).call = .reap → ∃ child, UnreapedChild kernel slot child

theorem HistoryInvariant.pid_once (past : HistoryInvariant kernel)
    (few : kernel.allocations ≤ 2 ^ 32) (pid : Pid) :
    kernel.history.countP (ProcEvent.returnsPid pid) ≤ 1 := by
  -- the events that return the pid are events that return one birth
  by_cases returned : ∃ caller birth, ProcEvent.waited caller birth pid ∈ kernel.history
  · obtain ⟨caller, birth, member⟩ := returned
    obtain ⟨older, isPid, _⟩ := past.past caller birth pid member
    refine le_trans (List.countP_mono_left fun event eventMember returns => ?_) (past.once birth)
    cases event with
    | waited other otherBirth otherPid =>
      have samePid : otherPid = pid := of_decide_eq_true returns
      obtain ⟨otherOlder, otherIsPid, _⟩ := past.past other otherBirth otherPid eventMember
      refine decide_eq_true (pidOf_injective (otherOlder.trans_le few) (older.trans_le few) ?_)
      rw [← otherIsPid, ← isPid, samePid]
    | _ => simp [ProcEvent.returnsPid] at returns
  · have none : kernel.history.countP (ProcEvent.returnsPid pid) = 0 := by
      rw [List.countP_eq_zero]
      intro event member returns
      cases event with
      | waited caller birth other =>
        have samePid : other = pid := of_decide_eq_true returns
        exact returned ⟨caller, birth, samePid ▸ member⟩
      | _ => simp [ProcEvent.returnsPid] at returns
    rw [none]
    exact Nat.zero_le 1

theorem KernelInvariant.childless_iff (good : KernelInvariant kernel) {action : KernelAction}
    {me : Slot} (taken : kernelStep kernel action = some after)
    (running : kernel.cpuProc = some me) (notInit : me ≠ initproc)
    (returns : ∃ event, after.history = event :: kernel.history ∧
      (event = .childless (kernel.births me) ∨
        ∃ birth pid, event = .waited (kernel.births me) birth pid)) :
    after.history = .childless (kernel.births me) :: kernel.history ↔
      ∀ child, ¬ UnreapedChild kernel me child := by
  obtain ⟨event, recorded, returned⟩ := returns
  have new := kernelStep_newEvent taken recorded
  cases new with
  | allocated => simp at returned
  | exited => simp at returned
  | @waited caller child callerRunning parent zombie =>
    have isMe : caller = me := Option.some_inj.mp (callerRunning.symm.trans running)
    subst isMe
    rw [recorded]
    refine iff_of_false nofun fun noChild => noChild child ?_
    exact good.table.unreapedChild_iff.mpr parent
  | @childless caller next callerRunning call scanned =>
    have isMe : caller = me := Option.some_inj.mp (callerRunning.symm.trans running)
    subst isMe
    refine iff_of_true recorded fun child unreaped => ?_
    exact good.waits.scanned caller next child notInit call (child.isLt.trans_le scanned)
      unreaped.1

theorem KernelInvariant.childless_stays (good : KernelInvariant kernel) {action : KernelAction}
    {slot : Slot} {next : Nat} (taken : kernelStep kernel action = some after)
    (notInit : slot ≠ initproc) (call : (kernel.threads slot).call = .wait next false)
    (noChild : ∀ child, ¬ UnreapedChild kernel slot child) :
    (∃ later, (after.threads slot).call = .wait later false) ∧
        (∀ child, ¬ UnreapedChild after slot child) ∨
      kernel.cpuProc = some slot ∧ (after.threads slot).call = .user ∧
        after.history = .childless (kernel.births slot) :: kernel.history := by
  have noParent : ∀ child, (kernel.procs child).parent ≠ some slot := fun child isParent =>
    noChild child (good.table.unreapedChild_iff.mpr isParent)
  have cases : (∃ later, (after.threads slot).call = .wait later false) ∧
        (∀ child, (after.procs child).parent ≠ some slot) ∨
      kernel.cpuProc = some slot ∧ (after.threads slot).call = .user ∧
        after.history = .childless (kernel.births slot) :: kernel.history := by
    rcases kernelStep_move taken with move | ⟨me, running, move⟩
    · exact move.childless_stays good.table notInit call noParent
    · have clear := Move.clearChan running
      exact move.childless_stays (good.table.move clear) notInit call fun child isParent =>
        noParent child (clear.child_before child notInit
          (fun _ fork => nomatch call.symm.trans fork) isParent)
  rcases cases with ⟨scans, noChildAfter⟩ | returned
  · exact Or.inl ⟨scans, fun child unreaped => noChildAfter child unreaped.1⟩
  · exact Or.inr returned

/-- In every reachable state of the process table, `wait` and `exit` have not missed each other. -/
theorem run_waitExit {actions : List KernelAction} {final : Kernel}
    (runs : run kernelStep .initial actions = some final) : WaitExit final := by
  have good : KernelInvariant final := run_invariant KernelInvariant
    (fun _ _ _ taken good => kernelStep_keeps (fun _ _ move kept => kept.move move) taken good)
    runs .initial
  refine ⟨good.waits.unmissed, good.past.once, good.past.pid_once, good.past.ordered,
    fun action next caller birth pid taken recorded => ?_,
    fun action next me taken running notInit => good.childless_iff taken running notInit,
    fun action next slot position taken notInit => good.childless_stays taken notInit,
    fun few slot notInit call => ?_⟩
  · have new := kernelStep_newEvent taken recorded
    cases new with
    | @waited me child running parent zombie =>
      exact ⟨me, child, running, rfl, rfl, rfl, parent, zombie⟩
  · obtain ⟨child, isParent⟩ := good.waits.found few slot notInit call
    exact ⟨child, good.table.unreapedChild_iff.mpr isParent⟩

theorem run_waitExit_forkExitWait : ∃ final, run kernelStep .initial forkExitWait = some final ∧
    final.history = [.waited 0 1 2, .exited 1, .allocated 1 2, .allocated 0 1] ∧
    WaitExit final := by
  obtain ⟨final, runs, recorded⟩ := Option.map_eq_some_iff.mp (by decide +kernel :
    (run kernelStep .initial forkExitWait).map Kernel.history =
      some [.waited 0 1 2, .exited 1, .allocated 1 2, .allocated 0 1])
  exact ⟨final, runs, recorded, run_waitExit runs⟩

end Xk
