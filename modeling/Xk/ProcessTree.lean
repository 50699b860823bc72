/-
This file proves that the process table is a well-formed tree in every reachable state: pids
are distinct, every process but the first has a live parent, and the only running process is
the one the processor runs.

Most steps only move a process between the states that a live process has, so the facts about
the tree are stated through the kind of a state, and those steps keep them at once
(`TreeInvariant.of_same`). What is left are the five sections that change a kind: the two ends
of `fork`, its failure, `exit` and the reaping in `wait`.
-/

import Xk.ProcessMoves
import Xk.Transition

namespace Xk

open Transition

variable {before after kernel : Kernel} {proc : Proc} {me : Slot}

/-! ### The tree -/

/-- The pid that the `allocproc` with the given serial number hands out. -/
def pidOf (birth : Nat) : Pid := BitVec.ofNat 32 (birth + 1)

theorem pidOf_succ (birth : Nat) : pidOf birth + 1 = pidOf (birth + 1) := by
  rw [pidOf, pidOf, BitVec.ofNat_add (birth + 1) 1]
  rfl

theorem pidOf_injective {first second : Nat} (firstSmall : first < 2 ^ 32)
    (secondSmall : second < 2 ^ 32) (same : pidOf first = pidOf second) : first = second := by
  grind [pidOf, BitVec.toNat_ofNat]

/-- The facts about pids and parents. The pid of a slot in use is the one its birth handed out,
so pids are distinct as long as births have distinct ones. -/
structure TreeInvariant (kernel : Kernel) : Prop where
  birth_lt : ∀ slot, kernel.kind slot ≠ .unused → kernel.births slot < kernel.allocations
  birth_inj : ∀ first second, kernel.kind first ≠ .unused → kernel.kind second ≠ .unused →
    kernel.births first = kernel.births second → first = second
  pid_eq : ∀ slot, kernel.kind slot ≠ .unused →
    (kernel.procs slot).pid = pidOf (kernel.births slot)
  nextpid_eq : kernel.nextpid = pidOf kernel.allocations
  parent_live : ∀ slot parent, (kernel.procs slot).parent = some parent →
    kernel.kind parent = .live
  parent_none : ∀ slot, kernel.kind slot = .unused ∨ kernel.kind slot = .embryo →
    (kernel.procs slot).parent = none
  parent_some : ∀ slot, slot ≠ initproc → kernel.kind slot = .live ∨ kernel.kind slot = .zombie →
    (kernel.procs slot).parent ≠ none
  init_live : kernel.kind initproc = .live

/-- Two states that agree on everything the tree is about. -/
structure SameTree (before after : Kernel) : Prop where
  kind : ∀ slot, after.kind slot = before.kind slot
  pid : ∀ slot, (after.procs slot).pid = (before.procs slot).pid
  parent : ∀ slot, (after.procs slot).parent = (before.procs slot).parent
  births : after.births = before.births
  allocations : after.allocations = before.allocations
  nextpid : after.nextpid = before.nextpid

theorem TreeInvariant.of_same (tree : TreeInvariant before) (same : SameTree before after) :
    TreeInvariant after where
  birth_lt slot := by grind [SameTree, TreeInvariant]
  birth_inj first second := by grind [SameTree, TreeInvariant]
  pid_eq slot := by grind [SameTree, TreeInvariant]
  nextpid_eq := by grind [SameTree, TreeInvariant]
  parent_live slot parent := by grind [SameTree, TreeInvariant]
  parent_none slot := by
    rw [same.kind, same.parent]
    exact tree.parent_none slot
  parent_some slot := by
    rw [same.kind, same.parent]
    exact tree.parent_some slot
  init_live := by
    rw [same.kind]
    exact tree.init_live

/-- A slot changes only its scheduling: its kind, pid and parent stay. -/
structure SameKind (before after : Proc) : Prop where
  kind : after.state.kind = before.state.kind
  pid : after.pid = before.pid
  parent : after.parent = before.parent

theorem SameTree.setProc (kernel : Kernel) (slot : Slot) (same : SameKind (kernel.procs slot) proc)
    : SameTree kernel (kernel.setProc slot proc) := by
  have slots : ∀ other, SameKind (kernel.procs other) ((kernel.setProc slot proc).procs other) := by
    intro other
    by_cases changed : other = slot
    · simp_all
    · rw [show (kernel.setProc slot proc).procs other = kernel.procs other from
        Function.update_of_ne changed _ _]
      exact ⟨rfl, rfl, rfl⟩
  exact ⟨fun other => (slots other).kind, fun other => (slots other).pid,
    fun other => (slots other).parent, rfl, rfl, rfl⟩

theorem SameTree.of_woken {procs : Slot → Proc} (woken : Woken kernel.procs procs) :
    SameTree kernel { kernel with procs := procs } :=
  ⟨woken.kind, woken.pid, woken.parent, rfl, rfl, rfl⟩

/-! ### The sections that change the tree -/

/-- One slot changes; the rest of the table keeps its place in the tree. -/
structure OnlySlot (slot : Slot) (before after : Kernel) : Prop where
  procs : ∀ other, other ≠ slot → after.procs other = before.procs other
  births : ∀ other, other ≠ slot → after.births other = before.births other

theorem OnlySlot.kind {slot other : Slot} (only : OnlySlot slot before after)
    (different : other ≠ slot) :
    after.kind other = before.kind other :=
  congrArg (fun proc => proc.state.kind) (only.procs other different)

theorem OnlySlot.setProc (kernel : Kernel) (slot : Slot) (proc : Proc) :
    OnlySlot slot kernel (kernel.setProc slot proc) :=
  ⟨fun _ different => Function.update_of_ne different _ _, fun _ _ => rfl⟩

/-- What the changed slot has to satisfy in the new state: a birth and a pid of its own if it is in
use, a live parent exactly if its kind has one, and no children unless it is live. -/
structure SlotInTree (slot : Slot) (before after : Kernel) : Prop where
  birth : after.kind slot ≠ .unused → after.births slot < after.allocations ∧
    (after.procs slot).pid = pidOf (after.births slot) ∧
    ∀ other, other ≠ slot → before.kind other ≠ .unused →
      before.births other ≠ after.births slot
  parent_live : ∀ parent, (after.procs slot).parent = some parent → after.kind parent = .live
  parent_none : after.kind slot = .unused ∨ after.kind slot = .embryo →
    (after.procs slot).parent = none
  parent_some : slot ≠ initproc → after.kind slot = .live ∨ after.kind slot = .zombie →
    (after.procs slot).parent ≠ none
  children : after.kind slot ≠ .live → ∀ other, (before.procs other).parent ≠ some slot
  notInit : slot ≠ initproc

theorem TreeInvariant.of_onlySlot {slot : Slot} (tree : TreeInvariant before)
    (only : OnlySlot slot before after) (inTree : SlotInTree slot before after)
    (allocations : before.allocations ≤ after.allocations)
    (nextpid : after.nextpid = pidOf after.allocations) : TreeInvariant after where
  birth_lt other used := by
    by_cases same : other = slot
    · grind [SlotInTree]
    · grind [OnlySlot, TreeInvariant, OnlySlot.kind]
  birth_inj first second usedFirst usedSecond births := by
    by_cases isFirst : first = slot <;> by_cases isSecond : second = slot
    · rw [isFirst, isSecond]
    · grind [OnlySlot, SlotInTree, OnlySlot.kind]
    · grind [OnlySlot, SlotInTree, OnlySlot.kind]
    · grind [TreeInvariant, OnlySlot.kind, OnlySlot]
  pid_eq other used := by
    by_cases same : other = slot
    · grind [SlotInTree]
    · grind [OnlySlot, TreeInvariant, OnlySlot.kind]
  nextpid_eq := nextpid
  parent_live other parent isParent := by
    by_cases same : other = slot
    · grind [SlotInTree]
    · rw [only.procs other same] at isParent
      by_cases changed : parent = slot
      · grind [SlotInTree]
      · grind [OnlySlot.kind, TreeInvariant]
  parent_none other noParent := by
    by_cases same : other = slot
    · grind [SlotInTree]
    · grind [OnlySlot, TreeInvariant, OnlySlot.kind]
  parent_some other notInit hasParent := by
    by_cases same : other = slot
    · grind [SlotInTree]
    · grind [OnlySlot, TreeInvariant, OnlySlot.kind]
  init_live := by
    rw [only.kind (Ne.symm inTree.notInit)]
    exact tree.init_live

/-- A slot that is not live is neither the first process nor anybody's parent. -/
theorem TreeInvariant.not_live (tree : TreeInvariant kernel) (slot : Slot)
    (notLive : kernel.kind slot ≠ .live) :
    slot ≠ initproc ∧ ∀ other, (kernel.procs other).parent ≠ some slot := by
  grind [TreeInvariant]

theorem TreeInvariant.create (tree : TreeInvariant kernel) {child : Slot}
    (unused : kernel.kind child = .unused) : TreeInvariant (kernel.create child) := by
  have only : OnlySlot child kernel (kernel.create child) :=
    ⟨fun _ different => Function.update_of_ne different _ _,
      fun _ different => Function.update_of_ne different _ _⟩
  have proc : (kernel.create child).procs child = { kernel.procs child with
      state := .embryo, pid := kernel.nextpid, killed := false } := Function.update_self _ _ _
  have birth : (kernel.create child).births child = kernel.allocations :=
    Function.update_self _ _ _
  have kind : (kernel.create child).kind child = .embryo := by
    rw [Kernel.kind, proc]
    rfl
  have noParent : ((kernel.create child).procs child).parent = none := by grind [TreeInvariant]
  obtain ⟨notInit, noChildren⟩ := tree.not_live child (by rw [unused]; decide)
  refine tree.of_onlySlot only ⟨fun _ => ⟨?_, ?_, fun other _ used births => ?_⟩, ?_, ?_, ?_, ?_,
    notInit⟩ (Nat.le_succ _) ?_
  · rw [birth]
    exact Nat.lt_succ_self _
  · rw [proc, birth]
    exact tree.nextpid_eq
  · grind [TreeInvariant]
  · grind
  · exact fun _ => noParent
  · grind
  · exact fun _ => noChildren
  · show kernel.nextpid + 1 = pidOf (kernel.allocations + 1)
    rw [tree.nextpid_eq, pidOf_succ]

/-- Freeing a slot that is an embryo or a zombie and clearing its parent pointer. -/
theorem TreeInvariant.free (tree : TreeInvariant kernel) {slot : Slot} (proc : Proc)
    (notLive : kernel.kind slot ≠ .live) (unused : proc.state = .unused)
    (noParent : proc.parent = none) : TreeInvariant (kernel.setProc slot proc) := by
  have atSlot : (kernel.setProc slot proc).procs slot = proc := Function.update_self _ _ _
  have kind : (kernel.setProc slot proc).kind slot = .unused := by
    rw [Kernel.kind, atSlot, unused]
    rfl
  obtain ⟨notInit, noChildren⟩ := tree.not_live slot notLive
  refine tree.of_onlySlot (.setProc kernel slot proc) ⟨fun used => absurd kind used, ?_, ?_, ?_,
    fun _ => noChildren, notInit⟩ le_rfl tree.nextpid_eq
  · grind
  · intro _
    rw [atSlot, noParent]
  · grind

/-- The end of `fork`: an embryo becomes a runnable child of a live process. -/
theorem TreeInvariant.forkFinish {kernel : Kernel} (tree : TreeInvariant kernel)
    {me child : Slot} (live : kernel.kind me = .live) (embryo : kernel.kind child = .embryo) :
    TreeInvariant (kernel.setProc child
      { kernel.procs child with state := .runnable, parent := some me }) := by
  have atChild : (kernel.setProc child { kernel.procs child with
      state := .runnable, parent := some me }).procs child =
        { kernel.procs child with state := .runnable, parent := some me } :=
    Function.update_self _ _ _
  have only := OnlySlot.setProc kernel child
    { kernel.procs child with state := .runnable, parent := some me }
  set after := kernel.setProc child
    { kernel.procs child with state := .runnable, parent := some me }
  have kind : after.kind child = .live := by
    rw [Kernel.kind, atChild]
    rfl
  have used : kernel.kind child ≠ .unused := by
    rw [embryo]
    decide
  obtain ⟨notInit, _⟩ := tree.not_live child (by rw [embryo]; decide)
  refine tree.of_onlySlot only ⟨fun _ => ⟨tree.birth_lt child used, ?_, ?_⟩, ?_, ?_, ?_,
    fun notLive => absurd kind notLive, notInit⟩ le_rfl tree.nextpid_eq
  · rw [atChild]
    exact tree.pid_eq child used
  · intro other different usedOther births
    exact different (tree.birth_inj other child usedOther used births)
  · grind [OnlySlot.kind]
  · grind
  · grind

theorem TreeInvariant.exit {kernel : Kernel} (tree : TreeInvariant kernel) {me : Slot}
    (live : kernel.kind me = .live) (notInit : me ≠ initproc) :
    TreeInvariant { kernel with procs := exitSection kernel.procs me } := by
  have exited := exitSection_exited kernel.procs notInit
  set after : Kernel := { kernel with procs := exitSection kernel.procs me }
  have kindMe : after.kind me = .zombie := by
    rw [Kernel.kind, exited.zombie]
    rfl
  have kindOther : ∀ slot, slot ≠ me → after.kind slot = kernel.kind slot := by
    intro slot other
    rw [Kernel.kind]
    rcases exited.state slot other with same | ⟨asleep, runnable⟩
    · rw [same]
      rfl
    · rw [runnable, Kernel.kind, asleep]
      rfl
  have used : ∀ slot, after.kind slot ≠ .unused → kernel.kind slot ≠ .unused := by grind
  refine ⟨fun slot usedAfter => tree.birth_lt slot (used slot usedAfter),
    fun first second usedFirst usedSecond =>
      tree.birth_inj first second (used first usedFirst) (used second usedSecond),
    fun slot usedAfter => (exited.pid slot).trans (tree.pid_eq slot (used slot usedAfter)),
    tree.nextpid_eq, fun slot parent isParent => ?_, fun slot noParent => ?_,
    fun slot slotNotInit hasParent => ?_, ?_⟩
  · -- the exiting process is nobody's parent any more: all its children were found
    have parentNotMe : parent ≠ me := by
      rintro rfl
      rcases exited.parent slot with same | ⟨adopted, _, _⟩
      · have found := exited.found slot ⟨parent, same.symm.trans isParent, rfl⟩
        exact notInit (Option.some_inj.mp (isParent.symm.trans found))
      · exact notInit (Option.some_inj.mp (isParent.symm.trans adopted))
    rw [kindOther parent parentNotMe]
    rcases exited.parent slot with same | ⟨adopted, _, _⟩
    · exact tree.parent_live slot parent (same.symm.trans isParent)
    · grind [TreeInvariant]
  · have other : slot ≠ me := by grind
    rw [kindOther slot other] at noParent
    have before := tree.parent_none slot noParent
    rcases exited.parent slot with same | ⟨_, ⟨parent, isParent, _⟩, _⟩
    · exact same.trans before
    · grind
  · rcases exited.parent slot with same | ⟨adopted, _, _⟩
    · grind [TreeInvariant]
    · grind
  · grind [TreeInvariant]

/-! ### Calls and the processor -/

/-- A process inside `fork` or `wait` is live, and every `fork` under way has an embryo of its
own. -/
structure CallInvariant (kernel : Kernel) : Prop where
  busy : ∀ slot, (kernel.threads slot).call ≠ .user → kernel.kind slot = .live
  child : ∀ slot child, (kernel.threads slot).call = .fork child → kernel.kind child = .embryo
  child_inj : ∀ first second child, (kernel.threads first).call = .fork child →
    (kernel.threads second).call = .fork child → first = second

/-- Calls change, but none becomes a `fork`; and a slot whose kind changes is in no call and is
not the child of a `fork` any more. -/
theorem CallInvariant.of_change (calls : CallInvariant before)
    (call : ∀ slot, (after.threads slot).call = (before.threads slot).call ∨
      (∀ child, (after.threads slot).call ≠ .fork child) ∧
        ((after.threads slot).call ≠ .user → after.kind slot = .live))
    (kind : ∀ slot, after.kind slot = before.kind slot ∨
      (after.threads slot).call = .user ∧
        ∀ other, (after.threads other).call ≠ .fork slot) : CallInvariant after := by
  grind [CallInvariant]

theorem CallInvariant.of_same (calls : CallInvariant before)
    (call : ∀ slot, (after.threads slot).call = (before.threads slot).call)
    (kind : ∀ slot, after.kind slot = before.kind slot) : CallInvariant after :=
  calls.of_change (fun slot => Or.inl (call slot)) fun slot => Or.inl (kind slot)

/-- The running process is the one in `mycpu()->proc`. -/
def ProcessorInvariant (kernel : Kernel) : Prop :=
  ∀ slot, (kernel.procs slot).state = .running ↔ kernel.cpuProc = some slot

theorem ProcessorInvariant.live (processor : ProcessorInvariant kernel)
    (running : kernel.cpuProc = some me) : kernel.kind me = .live := by
  rw [Kernel.kind, (processor me).mpr running]
  rfl

theorem ProcessorInvariant.of_same (processor : ProcessorInvariant before)
    (states : ∀ slot, (after.procs slot).state = .running ↔
      (before.procs slot).state = .running) (cpu : after.cpuProc = before.cpuProc) :
    ProcessorInvariant after := by
  intro slot
  rw [states, cpu]
  exact processor slot

/-- The running process leaves the processor in another state. -/
theorem ProcessorInvariant.of_leave (processor : ProcessorInvariant before)
    (running : before.cpuProc = some me) (left : (after.procs me).state ≠ .running)
    (others : ∀ slot, slot ≠ me → (after.procs slot).state = .running →
      (before.procs slot).state = .running) (cpu : after.cpuProc = none) :
    ProcessorInvariant after := by
  intro slot
  rw [cpu]
  refine ⟨fun runs => ?_, fun impossible => nomatch impossible⟩
  by_cases same : slot = me
  · exact absurd (same ▸ runs) left
  · have onProcessor := (processor slot).mp (others slot same runs)
    exact absurd (Option.some_inj.mp (onProcessor.symm.trans running)) same

theorem Woken.running {before after : Slot → Proc} (woken : Woken before after) (slot : Slot) :
    (after slot).state = .running ↔ (before slot).state = .running := by
  grind [Woken]

/-! ### One move -/

/-- The three parts of the invariant of the process table. -/
structure TableInvariant (kernel : Kernel) : Prop where
  tree : TreeInvariant kernel
  calls : CallInvariant kernel
  processor : ProcessorInvariant kernel

variable {kernel after : Kernel}

theorem TreeInvariant.setCall (tree : TreeInvariant before) (slot : Slot) (call : Call) :
    TreeInvariant (before.setCall slot call) :=
  tree.of_same ⟨fun _ => rfl, fun _ => rfl, fun _ => rfl, rfl, rfl, rfl⟩

theorem TreeInvariant.record (tree : TreeInvariant before) (event : ProcEvent) :
    TreeInvariant (before.record event) :=
  tree.of_same ⟨fun _ => rfl, fun _ => rfl, fun _ => rfl, rfl, rfl, rfl⟩

theorem TreeInvariant.sched (tree : TreeInvariant before) (slot : Slot) (resume : Resume) :
    TreeInvariant (before.sched slot resume) :=
  tree.of_same ⟨fun _ => rfl, fun _ => rfl, fun _ => rfl, rfl, rfl, rfl⟩

/-- A live process changes its scheduling state. -/
theorem sameKind_of_live (next : Proc) (live : proc.state.kind = .live)
    (state : next.state.kind = .live) (pid : next.pid = proc.pid)
    (parent : next.parent = proc.parent) : SameKind proc next :=
  ⟨state.trans live.symm, pid, parent⟩

theorem TableInvariant.move_tree (table : TableInvariant kernel) (move : Move kernel after) :
    TreeInvariant after := by
  have tree := table.tree
  cases move with
  | acquire => exact tree.of_same ⟨fun _ => rfl, fun _ => rfl, fun _ => rfl, rfl, rfl, rfl⟩
  | release => exact tree.of_same ⟨fun _ => rfl, fun _ => rfl, fun _ => rfl, rfl, rfl, rfl⟩
  | @dispatch idle slot runnable =>
    have live : (kernel.procs slot).state.kind = .live := by
      rw [runnable]
      rfl
    have dispatched := tree.of_same (.setProc kernel slot (sameKind_of_live
      { kernel.procs slot with state := .running } live rfl rfl rfl))
    exact dispatched.of_same ⟨fun _ => rfl, fun _ => rfl, fun _ => rfl, rfl, rfl, rfl⟩
  | @clearChan me running => exact tree.of_same (.setProc kernel me ⟨rfl, rfl, rfl⟩)
  | wake woken => exact tree.of_same (.of_woken woken)
  | fork running call unused => exact (tree.create unused).setCall _ _
  | @forkNoStack me child running call =>
    have embryo := table.calls.child me child call
    have notLive : kernel.kind child ≠ .live := by
      rw [embryo]
      decide
    exact (tree.free { kernel.procs child with state := .unused } notLive rfl
      (tree.parent_none child (Or.inr embryo))).setCall me .user
  | @forkFinish me child running call =>
    exact (tree.forkFinish (table.processor.live running)
      (table.calls.child me child call)).setCall me .user
  | wait => exact tree.setCall _ _
  | waitScan => exact tree.setCall _ _
  | waitFound => exact tree.setCall _ _
  | childless => exact (tree.setCall _ _).record _
  | @reap me child running call parent zombie =>
    have notLive : kernel.kind child ≠ .live := by
      rw [Kernel.kind, zombie]
      decide
    have freed := tree.free { kernel.procs child with
      state := .unused, parent := none, pid := 0, killed := false } notLive rfl rfl
    exact freed.of_same ⟨fun _ => rfl, fun _ => rfl, fun _ => rfl, rfl, rfl, rfl⟩
  | @waitSleep me running call noZombie =>
    exact (tree.of_same (.setProc kernel me (sameKind_of_live
      { kernel.procs me with chan := .proc me, state := .sleeping }
      (table.processor.live running) rfl rfl rfl))).sched me .sleep
  | @exit me running call notInit =>
    exact ((tree.exit (table.processor.live running) notInit).record _).sched me .yield
  | @sleep me chan running call =>
    exact (tree.of_same (.setProc kernel me (sameKind_of_live
      { kernel.procs me with chan := chan, state := .sleeping }
      (table.processor.live running) rfl rfl rfl))).sched me .sleep
  | @yield me running =>
    exact (tree.of_same (.setProc kernel me (sameKind_of_live
      { kernel.procs me with state := .runnable }
      (table.processor.live running) rfl rfl rfl))).sched me .yield

theorem CallInvariant.setCall (calls : CallInvariant kernel) (call : Call)
    (notFork : ∀ child, call ≠ .fork child) (live : kernel.kind me = .live) :
    CallInvariant (kernel.setCall me call) := by
  refine calls.of_change (fun slot => ?_) fun _ => Or.inl rfl
  by_cases same : slot = me
  · rw [same, Kernel.setCall_call_self]
    exact Or.inr ⟨notFork, fun _ => live⟩
  · grind [Kernel.setCall_threads_of_ne]

/-- A slot that is not live changes its kind while the only `fork` it may belong to ends. -/
theorem CallInvariant.settle (calls : CallInvariant kernel) (me : Slot) {slot : Slot} (proc : Proc)
    (notLive : kernel.kind slot ≠ .live)
    (only : ∀ other, (kernel.threads other).call = .fork slot → other = me) :
    CallInvariant ((kernel.setProc slot proc).setCall me .user) := by
  have atMe : (((kernel.setProc slot proc).setCall me .user).threads me).call = .user :=
    Kernel.setCall_call_self _ me .user
  have atOther : ∀ other, other ≠ me →
      ((kernel.setProc slot proc).setCall me .user).threads other = kernel.threads other :=
    fun other different => Kernel.setCall_threads_of_ne _ .user different
  refine calls.of_change (fun other => ?_) fun other => ?_
  · grind
  · by_cases same : other = slot
    · right
      rw [same]
      constructor
      · grind [CallInvariant]
      · grind
    · exact Or.inl ((OnlySlot.setProc kernel slot proc).kind same)

theorem CallInvariant.create (calls : CallInvariant kernel) {child : Slot}
    (live : kernel.kind me = .live) (unused : kernel.kind child = .unused) :
    CallInvariant ((kernel.create child).setCall me (.fork child)) := by
  have different : me ≠ child := by grind
  have kindOther : ∀ slot, slot ≠ child →
      ((kernel.create child).setCall me (.fork child)).kind slot = kernel.kind slot := by
    intro slot other
    simp only [Kernel.kind, Kernel.setCall, Kernel.create, Function.update_of_ne other]
  have atMe := Kernel.setCall_call_self (kernel.create child) me (.fork child)
  have call : ∀ slot, slot ≠ me →
      (((kernel.create child).setCall me (.fork child)).threads slot).call = .user ∨
        (((kernel.create child).setCall me (.fork child)).threads slot).call =
          (kernel.threads slot).call ∧ slot ≠ child := by
    intro slot notMe
    rw [Kernel.setCall_threads_of_ne _ _ notMe]
    by_cases isChild : slot = child
    · left
      simp only [isChild, Kernel.create, Function.update_self, Thread.fresh]
    · right
      simp only [Kernel.create, Function.update_of_ne isChild]
      exact ⟨trivial, isChild⟩
  -- a `fork` of another process has another child, which was an embryo before
  have otherFork : ∀ slot grandchild, slot ≠ me →
      (((kernel.create child).setCall me (.fork child)).threads slot).call = .fork grandchild →
        (kernel.threads slot).call = .fork grandchild ∧ grandchild ≠ child := by
    grind [CallInvariant]
  refine ⟨fun slot busy => ?_, fun slot grandchild forking => ?_,
    fun first second grandchild left right => ?_⟩
  · grind [CallInvariant]
  · by_cases isMe : slot = me
    · rw [isMe, atMe] at forking
      cases forking
      simp only [Kernel.kind, Kernel.setCall, Kernel.create, Function.update_self]
      rfl
    · grind [CallInvariant]
  · grind [CallInvariant]

theorem CallInvariant.exit (calls : CallInvariant kernel) {me : Slot}
    (live : kernel.kind me = .live) (call : (kernel.threads me).call = .user)
    (notInit : me ≠ initproc) :
    CallInvariant { kernel with procs := exitSection kernel.procs me } := by
  refine calls.of_change (fun _ => Or.inl rfl) fun slot => ?_
  by_cases same : slot = me
  · grind [CallInvariant]
  · left
    rw [Kernel.kind, Kernel.kind]
    rcases (exitSection_exited kernel.procs notInit).state slot same with
      unchanged | ⟨asleep, runnable⟩
    · rw [unchanged]
    · rw [asleep, runnable]
      rfl

theorem CallInvariant.setProc (calls : CallInvariant kernel) {slot : Slot}
    (same : SameKind (kernel.procs slot) proc) : CallInvariant (kernel.setProc slot proc) :=
  calls.of_same (fun _ => rfl) (SameTree.setProc kernel slot same).kind

theorem CallInvariant.sched (calls : CallInvariant kernel) (me : Slot) (resume : Resume) :
    CallInvariant (kernel.sched me resume) :=
  calls.of_same (fun slot => kernel.sched_call me slot resume) fun _ => rfl

theorem TableInvariant.move_calls (table : TableInvariant kernel) (move : Move kernel after) :
    CallInvariant after := by
  have calls := table.calls
  cases move with
  | acquire => exact calls.of_same (fun _ => rfl) fun _ => rfl
  | release => exact calls.of_same (fun _ => rfl) fun _ => rfl
  | @dispatch idle slot runnable =>
    have live : (kernel.procs slot).state.kind = .live := by
      rw [runnable]
      rfl
    have dispatched := calls.setProc (sameKind_of_live
      { kernel.procs slot with state := .running } live rfl rfl rfl)
    exact dispatched.of_same (fun _ => rfl) fun _ => rfl
  | clearChan => exact calls.setProc ⟨rfl, rfl, rfl⟩
  | wake woken => exact calls.of_same (fun _ => rfl) (SameTree.of_woken woken).kind
  | fork running call unused => exact calls.create (table.processor.live running) unused
  | @forkNoStack me child running call => grind [CallInvariant.settle, CallInvariant]
  | @forkFinish me child running call =>
    refine calls.settle me _ ?_ fun other forking => calls.child_inj other me child forking call
    rw [calls.child me child call]
    decide
  | wait running => exact calls.setCall _ (fun _ => nofun) (table.processor.live running)
  | waitScan running => exact calls.setCall _ (fun _ => nofun) (table.processor.live running)
  | waitFound running => exact calls.setCall _ (fun _ => nofun) (table.processor.live running)
  | childless running =>
    have left := calls.setCall .user (fun _ => nofun) (table.processor.live running)
    exact left.of_same (fun _ => rfl) fun _ => rfl
  | @reap me child running call parent zombie =>
    have kind : kernel.kind child = .zombie := kind_eq_zombie.mpr zombie
    have settled := calls.settle me { kernel.procs child with
      state := .unused, parent := none, pid := 0, killed := false } (by rw [kind]; decide)
      fun other forking => by
        grind [CallInvariant]
    exact settled.of_same (fun _ => rfl) fun _ => rfl
  | @waitSleep me running call noZombie =>
    exact (calls.setProc (sameKind_of_live
      { kernel.procs me with chan := .proc me, state := .sleeping }
      (table.processor.live running) rfl rfl rfl)).sched me .sleep
  | @exit me running call notInit =>
    have exited := calls.exit (table.processor.live running) call notInit
    exact exited.of_same (fun slot => Kernel.sched_call _ me slot .yield) fun _ => rfl
  | @sleep me chan running call =>
    exact (calls.setProc (sameKind_of_live
      { kernel.procs me with chan := chan, state := .sleeping }
      (table.processor.live running) rfl rfl rfl)).sched me .sleep
  | @yield me running =>
    exact (calls.setProc (sameKind_of_live { kernel.procs me with state := .runnable }
      (table.processor.live running) rfl rfl rfl)).sched me .yield

/-- A slot that is not live is not running, whatever becomes of it short of running. -/
theorem running_setProc_iff (slot : Slot) (proc : Proc) (notLive : kernel.kind slot ≠ .live)
    (notRunning : proc.state ≠ .running) (other : Slot) :
    ((kernel.setProc slot proc).procs other).state = .running ↔
      (kernel.procs other).state = .running := by
  by_cases same : other = slot
  · rw [same, Kernel.setProc_procs_self]
    refine iff_of_false notRunning fun running => notLive ?_
    rw [Kernel.kind, running]
    rfl
  · rw [Kernel.setProc_procs_of_ne kernel proc same]

/-- The running process gives up the processor and only its own entry changes. -/
theorem ProcessorInvariant.leave (processor : ProcessorInvariant kernel) (proc : Proc)
    (running : kernel.cpuProc = some me) (notRunning : proc.state ≠ .running)
    (procs : after.procs = (kernel.setProc me proc).procs) (cpu : after.cpuProc = none) :
    ProcessorInvariant after := by
  refine processor.of_leave running ?_ (fun slot other runs => ?_) cpu
  · simp_all
  · rw [procs, Kernel.setProc_procs_of_ne kernel proc other] at runs
    exact runs

theorem TableInvariant.move_processor (table : TableInvariant kernel)
    (move : Move kernel after) : ProcessorInvariant after := by
  have processor := table.processor
  cases move with
  | acquire => exact processor
  | release => exact processor
  | @dispatch idle slot runnable =>
    intro other
    by_cases same : other = slot
    · simp_all
    · refine iff_of_false ?_ fun onProcessor => same (Option.some_inj.mp onProcessor).symm
      rw [show ({ kernel.setProc slot { kernel.procs slot with state := .running } with
        cpuProc := some slot, lock := .process } : Kernel).procs other = kernel.procs other from
          Kernel.setProc_procs_of_ne kernel _ same, processor other, idle]
      simp
  | @clearChan me running =>
    refine processor.of_same (fun slot => ?_) rfl
    by_cases same : slot = me
    · rw [same, Kernel.setProc_procs_self]
    · rw [Kernel.setProc_procs_of_ne kernel _ same]
  | wake woken => exact processor.of_same woken.running rfl
  | @fork me child running call unused =>
    refine processor.of_same (running_setProc_iff child { kernel.procs child with
      state := .embryo, pid := kernel.nextpid, killed := false } ?_ (by simp)) rfl
    rw [unused]
    decide
  | @forkNoStack me child running call =>
    refine processor.of_same (running_setProc_iff child _ ?_ (by simp)) rfl
    rw [table.calls.child me child call]
    decide
  | @forkFinish me child running call =>
    refine processor.of_same (running_setProc_iff child _ ?_ (by simp)) rfl
    rw [table.calls.child me child call]
    decide
  | wait => exact processor
  | waitScan => exact processor
  | waitFound => exact processor
  | childless => exact processor
  | @reap me child running call parent zombie =>
    refine processor.of_same (running_setProc_iff child { kernel.procs child with
      state := .unused, parent := none, pid := 0, killed := false } ?_ (by simp)) rfl
    rw [Kernel.kind, zombie]
    decide
  | @waitSleep me running call noZombie =>
    exact processor.leave { kernel.procs me with chan := .proc me, state := .sleeping } running
      (by simp) rfl rfl
  | @exit me running call notInit =>
    have exited := exitSection_exited kernel.procs notInit
    refine processor.of_leave running ?_ (fun slot other runs => ?_) rfl
    · rw [Kernel.sched_procs, Kernel.record_procs, exited.zombie]
      simp
    · rcases exited.state slot other with same | ⟨_, runnable⟩
      · exact same.symm.trans runs
      · exact absurd (runs.symm.trans runnable) (by simp)
  | @sleep me chan running call =>
    exact processor.leave { kernel.procs me with chan := chan, state := .sleeping } running
      (by simp) rfl rfl
  | @yield me running =>
    exact processor.leave { kernel.procs me with state := .runnable } running (by simp) rfl rfl

theorem TableInvariant.move (table : TableInvariant kernel) (move : Move kernel after) :
    TableInvariant after :=
  ⟨table.move_tree move, table.move_calls move, table.move_processor move⟩

/-! ### Runs -/

/-- The state after `userinit`. -/
def Kernel.initial : Kernel :=
  (Kernel.zero.create initproc).setProc initproc
    { (Kernel.zero.create initproc).procs initproc with state := .runnable }

theorem Kernel.initial_procs_init :
    Kernel.initial.procs initproc = ⟨.runnable, 1, none, .null, false⟩ := rfl

theorem Kernel.initial_procs_other {slot : Slot} (other : slot ≠ initproc) :
    Kernel.initial.procs slot = .zero := by
  rw [Kernel.initial, Kernel.setProc_procs_of_ne _ _ other]
  exact Function.update_of_ne other _ _

theorem TableInvariant.initial : TableInvariant .initial := by
  have kindInit : Kernel.initial.kind initproc = .live := rfl
  have kindOther : ∀ slot, slot ≠ initproc → Kernel.initial.kind slot = .unused := by
    intro slot other
    rw [Kernel.kind, Kernel.initial_procs_other other]
    rfl
  have used : ∀ slot, Kernel.initial.kind slot ≠ .unused → slot = initproc := by grind
  have noParent : ∀ slot, (Kernel.initial.procs slot).parent = none := by
    intro slot
    by_cases same : slot = initproc
    · rw [same]
      rfl
    · rw [Kernel.initial_procs_other same]
      rfl
  have noCall : ∀ slot, (Kernel.initial.threads slot).call = .user := by
    intro slot
    by_cases same : slot = initproc
    · rw [same]
      rfl
    · rw [show Kernel.initial.threads slot = Thread.fresh from Function.update_of_ne same _ _]
      rfl
  refine ⟨⟨fun slot usedSlot => ?_, fun first second usedFirst usedSecond _ => ?_,
    fun slot usedSlot => ?_, rfl, fun slot parent isParent => ?_, fun slot _ => noParent slot,
    fun slot other hasParent => ?_, kindInit⟩,
    ⟨fun slot busy => absurd (noCall slot) busy, fun slot child forking => ?_,
      fun first second child forking => ?_⟩, fun slot => ?_⟩
  · rw [used slot usedSlot]
    decide
  · rw [used first usedFirst, used second usedSecond]
  · rw [used slot usedSlot]
    rfl
  · grind
  · grind
  · grind
  · grind
  · refine iff_of_false (fun running => ?_) nofun
    by_cases same : slot = initproc
    · grind [Kernel.initial_procs_init]
    · rw [Kernel.initial_procs_other same] at running
      cases running

/-- The invariant holds in every reachable state. -/
theorem TableInvariant.run {actions : List KernelAction} {final : Kernel}
    (runs : run kernelStep .initial actions = some final) : TableInvariant final :=
  run_invariant TableInvariant
    (fun _ _ _ taken table => kernelStep_keeps (fun _ _ move good => good.move move) taken table)
    runs .initial

theorem reapSection_allocations (kernel : Kernel) (me : Slot) :
    (reapSection kernel me).allocations = kernel.allocations := by
  unfold reapSection
  split <;> rfl

/-- Only `fork` hands out pids, and at most one. -/
theorem kernelStep_allocations {action : KernelAction}
    (taken : kernelStep kernel action = some after) :
    after.allocations ≤ kernel.allocations + if action = .process .fork then 1 else 0 := by
  unfold kernelStep at taken
  split at taken
  case h_5 step me _ _ =>
    unfold processStep at taken
    split at taken
    case h_1 =>
      split at taken
      · grind
      case h_2 child created found =>
        obtain ⟨_, rfl⟩ := allocproc_eq_some found
        rw [← Option.some_inj.mp taken]
        exact le_rfl
    case h_5 =>
      split at taken <;> cases taken
      exact Nat.le_add_right _ _
    case h_6 =>
      split at taken
      · cases taken
      · split at taken <;> cases taken <;> exact Nat.le_add_right _ _
    case h_7 =>
      rw [← Option.some_inj.mp taken, reapSection_allocations]
      exact Nat.le_add_right _ _
    case h_8 =>
      split at taken <;> cases taken
      exact Nat.le_add_right _ _
    all_goals
      cases taken
      try exact Nat.le_add_right _ _
  case h_2 =>
    rw [← Option.some_inj.mp taken, schedulerNext]
    split <;> exact Nat.le_add_right _ _
  case h_3 =>
    rw [← Option.some_inj.mp taken, resumeSection]
    split
    · exact Nat.le_add_right _ _
    · exact Nat.le_add_right _ _
    · dsimp only
      split
      · rw [reapSection_allocations]
        exact Nat.le_add_right _ _
      · exact Nat.le_add_right _ _
  all_goals
    cases taken
    try exact Nat.le_add_right _ _

theorem run_allocations {actions : List KernelAction}
    (runs : run kernelStep kernel actions = some after) :
    after.allocations ≤ kernel.allocations + actions.count (.process .fork) := by
  induction actions generalizing kernel with
  | nil => simp_all
  | cons action rest inductionHypothesis =>
    obtain ⟨next, taken, restRuns⟩ := (run_cons_eq_some kernelStep).mp runs
    have first := kernelStep_allocations taken
    have later := inductionHypothesis restRuns
    rw [List.count_cons]
    simp only [beq_iff_eq]
    omega

/-- The process table is a tree of processes with distinct pids, one of which may be running. -/
structure ProcessTree (kernel : Kernel) : Prop where
  pids_distinct : ∀ first second, (kernel.procs first).state ≠ .unused →
    (kernel.procs second).state ≠ .unused →
    (kernel.procs first).pid = (kernel.procs second).pid → first = second
  parent : ∀ slot, slot ≠ initproc →
    (kernel.procs slot).state = .sleeping ∨ (kernel.procs slot).state = .runnable ∨
      (kernel.procs slot).state = .running ∨ (kernel.procs slot).state = .zombie →
    ∃ parent, (kernel.procs slot).parent = some parent ∧
      (kernel.procs parent).state ≠ .unused ∧ (kernel.procs parent).state ≠ .zombie
  running : ∀ slot, (kernel.procs slot).state = .running → kernel.cpuProc = some slot

/-- In every run with fewer than `2^31` forks the process table is a well-formed tree. -/
theorem run_processTree {actions : List KernelAction} {final : Kernel}
    (runs : run kernelStep .initial actions = some final)
    (few : actions.count (.process .fork) < 2 ^ 31) : ProcessTree final := by
  have table := TableInvariant.run runs
  have small : final.allocations < 2 ^ 32 := by
    have bound := run_allocations runs
    rw [show Kernel.initial.allocations = 1 from rfl] at bound
    omega
  refine ⟨fun first second usedFirst usedSecond pids => ?_, fun slot other alive => ?_,
    fun slot => (table.processor slot).mp⟩
  · have usedFirst := kind_eq_unused.not.mpr usedFirst
    have usedSecond := kind_eq_unused.not.mpr usedSecond
    rw [table.tree.pid_eq first usedFirst, table.tree.pid_eq second usedSecond] at pids
    refine table.tree.birth_inj first second usedFirst usedSecond (pidOf_injective ?_ ?_ pids)
    · exact (table.tree.birth_lt first usedFirst).trans small
    · exact (table.tree.birth_lt second usedSecond).trans small
  · have kind : final.kind slot = .live ∨ final.kind slot = .zombie := by
      grind [Kernel.kind, ProcState.kind]
    obtain ⟨parent, isParent⟩ := Option.ne_none_iff_exists'.mp
      (table.tree.parent_some slot other kind)
    have live := table.tree.parent_live slot parent isParent
    refine ⟨parent, isParent, fun unused => ?_, fun zombie => ?_⟩
    · rw [Kernel.kind, unused] at live
      cases live
    · rw [Kernel.kind, zombie] at live
      cases live

/-- The first process forks and sleeps in `wait`; the child exits, and the parent reaps it. -/
def forkExitWait : List KernelAction :=
  [.schedulerAcquire, .schedulerNext, .resume, .process .fork, .process .forkFinish,
    .process .wait] ++ List.replicate nproc (.process .waitScan) ++
  [.process .waitTest, .process .reap, .schedulerNext, .resume, .process .exit, .schedulerNext,
    .schedulerAcquire, .schedulerNext, .resume]

theorem run_processTree_forkExitWait : ∃ final, run kernelStep .initial forkExitWait = some final ∧
    forkExitWait.count (.process .fork) < 2 ^ 31 ∧ ProcessTree final := by
  obtain ⟨final, runs⟩ := Option.isSome_iff_exists.mp (by decide +kernel :
    (run kernelStep .initial forkExitWait).isSome = true)
  have few : forkExitWait.count (.process .fork) < 2 ^ 31 := by decide
  exact ⟨final, runs, few, run_processTree runs few⟩

end Xk
