/-
This file compares what `fileread` and `filewrite` on a pipe do at its ends with what a pipe should
do there. A pipe keeps one count for both of its ends, and the number that the read end had in the
process that made the pipe. So an end of file is seen when nobody but the caller has a descriptor,
and not when nobody has a write end, and a descriptor that is not the read end by its number is
refused by `fileread` even if it is a copy of it.

The ends that the descriptors come from are history. What connects them with the count is that the
descriptors on a slot all come from a `pipe` or none does.
-/

import Xk.PipeSleepers

namespace Xk

open Transition

/-! ### A call that nobody interrupts -/

/-- A call on a descriptor. -/
inductive FdCall
  | fileread (bytesRead : Int)
  | filewrite (data : List UInt8)
  | filestat

/-- The step that begins a call. -/
def FdCall.action (process : Fin nproc) (fd : Fin nofile) : FdCall → CallAction
  | .fileread bytesRead => .fileread process fd bytesRead
  | .filewrite data => .filewrite process fd data
  | .filestat => .filestat process fd

/-- The turns of one process up to where it has no lock any more: its call has returned, or it
sleeps. -/
inductive Settles (process : Fin nproc) : CallSystem → CallSystem → Prop
  | rests {system : CallSystem} (idle : (system.call process).holds = none) :
      Settles process system system
  | turns {system next final : CallSystem} (busy : (system.call process).holds ≠ none)
      (turned : callStep system (.turn process) = some next)
      (settles : Settles process next final) : Settles process system final

/-- A process makes a call while nobody else makes a step. -/
def CallSystem.Performs (system : CallSystem) (process : Fin nproc) (fd : Fin nofile)
    (call : FdCall) (final : CallSystem) : Prop :=
  ∃ began, callStep system (call.action process fd) = some began ∧ Settles process began final

/-- The call of a process has returned a value. -/
def CallSystem.Returned (system : CallSystem) (process : Fin nproc) (value : Int) : Prop :=
  system.call process = .idle ∧ (system.result process).map CallResult.value = some value

/-! ### What should happen -/

/-- The number of descriptors that come from one end of the pipe in a slot. -/
def CallSystem.endsOn (system : CallSystem) (slot : Fin nfile) (pipeEnd : PipeEnd) : Nat :=
  Counting.places Finset.univ (fun descriptor => (system.tables.pftable descriptor,
    system.ends descriptor)) fun entry => entry = (some slot, some pipeEnd)

/-- What a call through one end of a pipe should do. A read of an empty pipe returns `0` if nobody
has a write end, and waits otherwise. A write returns `-1` and stores nothing exactly if nobody has
a read end. A read through a write end and a write through a read end return `-1`. -/
def CallSystem.AsPipe (system : CallSystem) (process : Fin nproc) (fd : Fin nofile)
    (slot : Fin nfile) : PipeEnd → FdCall → Prop
  | .read, .fileread bytesRead => (system.pipeAt slot).head = (system.pipeAt slot).tail →
    if system.endsOn slot .write = 0 then
      ∃ final, system.Performs process fd (.fileread bytesRead) final ∧ final.Returned process 0
    else
      ∃ final, system.Performs process fd (.fileread bytesRead) final ∧
        final.AsleepOn (.read slot) process
  | .write, .filewrite data =>
    (∃ final, system.Performs process fd (.filewrite data) final ∧ final.Returned process (-1) ∧
      (final.history slot).stored = (system.history slot).stored) ↔ system.endsOn slot .read = 0
  | .write, .fileread bytesRead =>
    ∃ final, system.Performs process fd (.fileread bytesRead) final ∧ final.Returned process (-1)
  | .read, .filewrite data =>
    ∃ final, system.Performs process fd (.filewrite data) final ∧ final.Returned process (-1)
  | _, .filestat => True

/-- When the count and the number of the read end tell a call what it should do. -/
def CallSystem.SeesEnds (system : CallSystem) (process : Fin nproc) (fd : Fin nofile)
    (slot : Fin nfile) : PipeEnd → FdCall → Prop
  | .read, .fileread _ => (system.pipeAt slot).head = (system.pipeAt slot).tail →
    (system.pipeAt slot).readFd = fd.val ∧ system.killed process = false ∧
      (system.endsOn slot .write = 0 → system.endsOn slot .read = 1)
  | .write, .filewrite data => system.endsOn slot .read = 0 →
    system.endsOn slot .write = 1 ∧ data ≠ [] ∧ ¬ (system.pipeAt slot).Full
  | .write, .fileread bytesRead => (system.pipeAt slot).readFd ≠ fd.val ∨
    system.killed process = true ∧
      ((system.pipeAt slot).head = (system.pipeAt slot).tail ∨ 0 < bytesRead)
  | .read, .filewrite data => system.endsOn slot .read = 1 ∧ system.endsOn slot .write = 0 ∧
    data ≠ [] ∧ ¬ (system.pipeAt slot).Full
  | _, .filestat => True

/-! ### Descriptors and ends -/

/-- An empty descriptor comes from no end, one that comes from an end is on a pipe, and the
descriptors on a slot all come from an end or none does. -/
structure EndsInvariant (system : CallSystem) : Prop where
  empty : ∀ descriptor, system.tables.pftable descriptor = none → system.ends descriptor = none
  isPipe : ∀ descriptor slot, system.tables.pftable descriptor = some slot →
    system.ends descriptor ≠ none → (system.tables.ftable slot).isPipe = true
  uniform : ∀ first second slot, system.tables.pftable first = some slot →
    system.tables.pftable second = some slot → system.ends first ≠ none →
      system.ends second ≠ none

/-- What a step does with a descriptor: it empties it, keeps it or makes it a copy of one, or points
it at a slot that nobody pointed at, coming from an end or not. -/
inductive Entry (system next : CallSystem) (fresh : Fin nfile) (fromPipe : Prop)
    (descriptor : Descriptor) : Prop
  | emptied (isEmpty : next.tables.pftable descriptor = none) (noEnd : next.ends descriptor = none)
  | copied (source : Descriptor)
      (points : next.tables.pftable descriptor = system.tables.pftable source)
      (isEnd : next.ends descriptor = system.ends source)
  | opened (unused : ∀ other, system.tables.pftable other ≠ some fresh)
      (points : next.tables.pftable descriptor = some fresh)
      (isEnd : next.ends descriptor ≠ none ↔ fromPipe)

section Ends

variable {system next : CallSystem}

theorem EndsInvariant.of_entries (invariant : EndsInvariant system) (fresh : Fin nfile)
    (fromPipe : Prop) (entries : ∀ descriptor, Entry system next fresh fromPipe descriptor)
    (flags : ∀ slot, (system.tables.ftable slot).isPipe = true →
      (next.tables.ftable slot).isPipe = true)
    (made : fromPipe → (next.tables.ftable fresh).isPipe = true) : EndsInvariant next where
  empty descriptor isEmpty := by
    cases entries descriptor with
    | emptied _ noEnd => exact noEnd
    | copied source points isEnd => grind [EndsInvariant]
    | opened _ points => exact nomatch isEmpty.symm.trans points
  isPipe descriptor slot isSlot hasEnd := by
    cases entries descriptor with
    | emptied _ noEnd => exact absurd noEnd hasEnd
    | copied source points isEnd =>
      exact flags slot (invariant.isPipe source slot (points ▸ isSlot) (isEnd ▸ hasEnd))
    | opened _ points isEnd => grind
  uniform first second slot isFirst isSecond hasEnd := by
    cases entries first with
    | emptied _ noEnd => exact absurd noEnd hasEnd
    | copied source points isEnd =>
      cases entries second with
      | emptied isEmpty => exact nomatch isEmpty.symm.trans isSecond
      | copied other pointsOther isOther => grind [EndsInvariant]
      | opened unused pointsFresh => grind
    | opened unused points isEnd =>
      obtain rfl := Option.some_inj.mp (isFirst.symm.trans points)
      cases entries second with
      | emptied isEmpty => exact nomatch isEmpty.symm.trans isSecond
      | copied other pointsOther => exact absurd (pointsOther.symm.trans isSecond) (unused other)
      | opened _ _ isEndSecond => exact isEndSecond.mpr (isEnd.mp hasEnd)

/-- The descriptors of the child of a `fork`. -/
theorem forkLoop_pftable (tables : FileTables) {parent child : Fin nproc}
    (different : parent ≠ child) (fds : List (Fin nofile)) (descriptor : Descriptor) :
    (fds.foldl (forkTurn parent child) tables).pftable descriptor =
      if descriptor.1 = child ∧ descriptor.2 ∈ fds ∧
          tables.pftable (parent, descriptor.2) ≠ none then
        tables.pftable (parent, descriptor.2)
      else tables.pftable descriptor := by
  induction fds generalizing tables with
  | nil => rw [if_neg (fun inList => nomatch inList.2.1), List.foldl_nil]
  | cons fd rest inductionHypothesis =>
    rw [List.foldl_cons, inductionHypothesis]
    have ofParent : ∀ other, (forkTurn parent child tables fd).pftable (parent, other) =
        tables.pftable (parent, other) := fun other => by
      unfold forkTurn
      split
      · rfl
      · exact Function.update_of_ne (fun same => different (congrArg Prod.fst same)) _ _
    have turned : (forkTurn parent child tables fd).pftable descriptor =
        if descriptor = (child, fd) ∧ tables.pftable (parent, fd) ≠ none then
          tables.pftable (parent, fd)
        else tables.pftable descriptor := by
      unfold forkTurn
      split
      case h_1 isNone => rw [if_neg fun points => points.2 isNone]
      case h_2 slot isSome =>
        rw [FileTables.point_pftable, isSome]
        by_cases same : descriptor = (child, fd)
        · rw [same, Function.update_self, if_pos ⟨rfl, Option.some_ne_none slot⟩]
        · rw [Function.update_of_ne same, if_neg fun both => same both.1]
    rw [ofParent, turned]
    by_cases isChild : descriptor.1 = child
    · grind
    · grind

/-- No operation takes the flag of a pipe away. -/
theorem TableFrame.isPipe {action : FileAction} (calls : PipeCallInvariant system)
    (frame : TableFrame system action next) (slot : Fin nfile)
    (isPipe : (system.tables.ftable slot).isPipe = true) :
    (next.tables.ftable slot).isPipe = true := by
  by_cases closes : ∃ process fd, action = .fileclose process fd
  · obtain ⟨process, fd, rfl⟩ := closes
    cases points : system.tables.pftable (process, fd) with
    | none =>
      rw [fileclose_step_none points frame.taken]
      exact isPipe
    | some closed =>
      rw [calls.exact.counted.fileclose_step points frame.taken]
      show (Function.update system.tables.ftable closed _ slot).isPipe = true
      by_cases same : slot = closed
      · grind [FileInfo.closed]
      · grind
  · push Not at closes
    by_cases makes : action.Makes system.tables slot
    · obtain ⟨⟨process, rfl⟩, free⟩ := makes
      have taken := frame.taken
      simp only [fileStep] at taken
      split_ifs at taken
      split at taken
      case h_1 ends opened success =>
        obtain ⟨made, isMade⟩ := Xk.pipe_made success
        obtain rfl := Option.some_inj.mp (free.symm.trans isMade.free)
        rw [← Option.some_inj.mp taken]
        exact isMade.isPipe
      case h_2 => cases taken
    · exact (frame.slot_kept closes makes).isPipe isPipe

theorem Entry.kept {fresh : Fin nfile} {fromPipe : Prop} {descriptor : Descriptor}
    (points : next.tables.pftable descriptor = system.tables.pftable descriptor)
    (isEnd : next.ends descriptor = system.ends descriptor) :
    Entry system next fresh fromPipe descriptor := .copied descriptor points isEnd

section

variable (invariant : EndsInvariant system)
include invariant

theorem EndsInvariant.fileopen (calls : PipeCallInvariant system) {process : Fin nproc}
    {inode : Option InodePtr} {mode : Int}
    (frame : TableFrame system (.fileopen process inode mode) next) : EndsInvariant next := by
  have isEnds : next.ends = system.ends := frame.ends
  have taken := frame.taken
  simp only [fileStep] at taken
  split_ifs at taken
  rw [Option.some_inj] at taken
  rcases fileopen_cases system.tables process inode mode with
    unchanged | ⟨fd, slot, iptr, free, isFree, opened⟩
  · grind [EndsInvariant]
  · refine invariant.of_entries slot False
      (fun descriptor => ?_) (frame.isPipe calls) False.elim
    have isNext : next.tables.pftable =
        Function.update system.tables.pftable (process, fd) (some slot) := by
      rw [← taken, opened, FileTables.point_pftable]
    by_cases same : descriptor = (process, fd)
    · refine .opened (calls.exact.counted.freeSlot_unreferenced isFree)
        (by rw [isNext, same, Function.update_self]) ?_
      rw [isEnds, same, invariant.empty _ (freeDescriptor_eq_some free).1]
      exact iff_of_false (fun absent => absent rfl) id
    · exact .kept (by rw [isNext, Function.update_of_ne same]) (by rw [isEnds])

theorem EndsInvariant.fileclose (calls : PipeCallInvariant system) {process : Fin nproc}
    {fd : Fin nofile} (frame : TableFrame system (.fileclose process fd) next) :
    EndsInvariant next := by
  have isEnds : next.ends = Function.update system.ends (process, fd) none := frame.ends
  have isNext : next.tables.pftable =
      Function.update system.tables.pftable (process, fd) none := by
    cases points : system.tables.pftable (process, fd) with
    | none => rw [fileclose_step_none points frame.taken, ← points, Function.update_eq_self]
    | some slot =>
      rw [calls.exact.counted.fileclose_step points frame.taken, FileTables.unpoint_pftable]
  refine invariant.of_entries 0 False (fun descriptor => ?_)
    (frame.isPipe calls) False.elim
  by_cases same : descriptor = (process, fd)
  · exact .emptied (by rw [isNext, same, Function.update_self])
      (by rw [isEnds, same, Function.update_self])
  · exact .kept (by rw [isNext, Function.update_of_ne same])
      (by rw [isEnds, Function.update_of_ne same])

theorem EndsInvariant.filedup (calls : PipeCallInvariant system) {process : Fin nproc}
    {fd : Fin nofile} (frame : TableFrame system (.filedup process fd) next) :
    EndsInvariant next := by
  have isEnds := frame.ends
  have taken := frame.taken
  simp only [fileStep] at taken
  split_ifs at taken
  rw [Option.some_inj] at taken
  simp only [endsAfter] at isEnds
  refine invariant.of_entries 0 False (fun descriptor => ?_)
    (frame.isPipe calls) False.elim
  cases free : system.tables.freeDescriptor process with
  | none => grind [Entry.kept, filedup_cases]
  | some new =>
    simp only [free] at isEnds
    have isEmpty := (freeDescriptor_eq_some free).1
    cases points : system.tables.pftable (process, fd) with
    | none =>
      have unchanged : next.tables = system.tables := by grind [Xk.filedup]
      by_cases same : descriptor = (process, new)
      · refine .emptied (by rw [unchanged, same, isEmpty]) ?_
        rw [isEnds, same, Function.update_self, invariant.empty _ points]
      · exact .kept (by rw [unchanged]) (by rw [isEnds, Function.update_of_ne same])
    | some slot =>
      have isNext : next.tables.pftable =
          Function.update system.tables.pftable (process, new) (some slot) := by
        rw [← taken]
        simp only [Xk.filedup, points, if_neg (calls.exact.counted.used points), free,
          FileTables.point_pftable]
      by_cases same : descriptor = (process, new)
      · refine .copied (process, fd) (by rw [isNext, same, Function.update_self, points]) ?_
        rw [isEnds, same, Function.update_self]
      · exact .kept (by rw [isNext, Function.update_of_ne same])
          (by rw [isEnds, Function.update_of_ne same])

theorem EndsInvariant.pipe (calls : PipeCallInvariant system) {process : Fin nproc}
    (frame : TableFrame system (.pipe process) next) :
    EndsInvariant next := by
  have isEnds := frame.ends
  have taken := frame.taken
  simp only [fileStep] at taken
  split_ifs at taken
  simp only [endsAfter] at isEnds
  split at taken
  case h_2 => cases taken
  case h_1 ends opened success =>
    obtain ⟨readEnd, writeEnd⟩ := ends
    simp only [success] at isEnds
    rw [Option.some_inj] at taken
    obtain ⟨slot, isMade⟩ := pipe_made success
    have unused := calls.exact.counted.freeSlot_unreferenced isMade.free
    have isNext := isMade.pftable
    rw [taken] at isNext
    refine invariant.of_entries slot True (fun descriptor => ?_)
      (frame.isPipe calls) fun _ => taken ▸ isMade.isPipe
    by_cases isWrite : descriptor = (process, writeEnd)
    · refine .opened unused (by rw [isNext, isWrite, Function.update_self]) ?_
      rw [isEnds, isWrite, Function.update_self]
      exact iff_of_true (Option.some_ne_none _) trivial
    · by_cases isRead : descriptor = (process, readEnd)
      · refine .opened unused
          (by rw [isNext, Function.update_of_ne isWrite, isRead, Function.update_self]) ?_
        rw [isEnds, Function.update_of_ne isWrite, isRead, Function.update_self]
        exact iff_of_true (Option.some_ne_none _) trivial
      · exact .kept (by rw [isNext, Function.update_of_ne isWrite, Function.update_of_ne isRead])
          (by rw [isEnds, Function.update_of_ne isWrite, Function.update_of_ne isRead])

end

theorem EndsInvariant.fork (invariant : EndsInvariant system) (calls : PipeCallInvariant system)
    {parent : Fin nproc} {stack : Bool} (frame : TableFrame system (.fork parent stack) next) :
    EndsInvariant next := by
  have isEnds := frame.ends
  have taken := frame.taken
  simp only [fileStep] at taken
  split_ifs at taken with live
  rw [Option.some_inj] at taken
  simp only [endsAfter] at isEnds
  refine invariant.of_entries 0 False (fun descriptor => ?_)
    (frame.isPipe calls) False.elim
  unfold forkFiles at taken isEnds
  cases found : system.tables.unusedProcess with
  | none => grind [Entry.kept]
  | some child =>
    simp only [found] at taken isEnds
    split_ifs at taken isEnds with noStack
    · grind [Entry.kept]
    · dsimp only at taken isEnds
      have isUnused : system.tables.state child = .unused := of_decide_eq_true
        (List.find?_some (p := fun process => system.tables.state process = .unused) found)
      have notLive : ¬ (system.tables.state child).Live := by
        rw [isUnused]
        decide
      have different : parent ≠ child := by
        rintro rfl
        exact notLive live
      have isNext := forkLoop_pftable system.tables different (List.finRange nofile)
        descriptor
      have isCopied : next.tables.pftable descriptor =
          ((List.finRange nofile).foldl (forkTurn parent child) system.tables).pftable
            descriptor := by
        rw [← taken]
      rw [isNext] at isCopied
      by_cases isChild : descriptor.1 = child
      · refine .copied (parent, descriptor.2) ?_
          ((congrFun isEnds descriptor).trans (if_pos isChild))
        rw [isCopied]
        split_ifs with points
        · rfl
        · grind [FilesExact, PipeCallInvariant]
      · grind [Entry.kept]

theorem EndsInvariant.table (invariant : EndsInvariant system) (calls : PipeCallInvariant system)
    {action : FileAction} (frame : TableFrame system action next) : EndsInvariant next := by
  have unmoved : next.tables.pftable = system.tables.pftable → next.ends = system.ends →
      EndsInvariant next := fun samePoints sameEnds =>
    invariant.of_entries 0 False
      (fun _ => .kept (by rw [samePoints]) (by rw [sameEnds])) (frame.isPipe calls) False.elim
  cases action with
  | fileopen process inode mode => exact invariant.fileopen calls frame
  | fileclose process fd => exact invariant.fileclose calls frame
  | filedup process fd => exact invariant.filedup calls frame
  | pipe process => exact invariant.pipe calls frame
  | fork parent stack => exact invariant.fork calls frame
  | exit process =>
    refine unmoved ?_ frame.ends
    have taken := frame.taken
    simp only [fileStep] at taken
    split_ifs at taken
    rw [← Option.some_inj.mp taken, exitFiles_of_closed (frame.exits process rfl)]
  | wait process zombie =>
    refine unmoved ?_ frame.ends
    have taken := frame.taken
    simp only [fileStep] at taken
    split_ifs at taken
    rw [← Option.some_inj.mp taken]

theorem EndsInvariant.step (invariant : EndsInvariant system) (calls : PipeCallInvariant system)
    {action : CallAction} (taken : callStep system action = some next) : EndsInvariant next := by
  rcases callStep_cases taken with ⟨_, _, _, tables⟩ | ⟨process, _, move, _⟩ | ⟨target, _, rfl⟩
  · exact invariant.table calls (tableStep_frame tables)
  · have frame := move.frame
    have flags : ∀ slot, (next.tables.ftable slot).isPipe = (system.tables.ftable slot).isPipe :=
      fun slot => congrArg (fun fixed => fixed.2.2.1) (frame.fixed slot)
    exact invariant.of_entries 0 False
      (fun _ => .kept (by rw [frame.pftable]) (by rw [frame.ends]))
      (fun slot isPipe => (flags slot).trans isPipe) False.elim
  · unfold CallSystem.kill
    dsimp only
    split_ifs
    · exact ⟨invariant.empty, invariant.isPipe, invariant.uniform⟩
    · exact ⟨invariant.empty, invariant.isPipe, invariant.uniform⟩

theorem EndsInvariant.initial (fs : FileSystem) : EndsInvariant (.initial fs) :=
  ⟨fun _ _ => rfl, (fun _ _ points => nomatch points), (fun _ _ _ points => nomatch points)⟩

/-- The count of a pipe is the number of its read ends and write ends together. -/
theorem EndsInvariant.ref_eq (invariant : EndsInvariant system) (calls : PipeCallInvariant system)
    {descriptor : Descriptor} {slot : Fin nfile}
    (points : system.tables.pftable descriptor = some slot)
    (hasEnd : system.ends descriptor ≠ none) :
    (system.tables.ftable slot).ref = system.endsOn slot .read + system.endsOn slot .write := by
  rw [calls.exact.counted.ref_eq slot]
  have split : system.tables.references slot =
      system.endsOn slot .read + system.endsOn slot .write := by
    unfold FileTables.references CallSystem.endsOn Counting.places
    rw [← Finset.card_union_of_disjoint]
    · refine congrArg Finset.card (Finset.ext fun other => ?_)
      simp only [Finset.mem_filter, Finset.mem_univ, true_and, Finset.mem_union, Prod.mk.injEq]
      rw [← and_or_left]
      refine (and_iff_left_of_imp fun pointsOther => ?_).symm
      cases isEnd : system.ends other with
      | none => exact absurd isEnd (invariant.uniform _ _ slot points pointsOther hasEnd)
      | some pipeEnd =>
        cases pipeEnd with
        | read => exact Or.inl rfl
        | write => exact Or.inr rfl
    · grind [Finset.disjoint_filter]
  rw [split]
  rfl

end Ends

/-! ### Where a call ends -/

section Alone

variable {system next final : CallSystem} {process : Fin nproc} {fd : Fin nofile}
  {slot : Fin nfile}

theorem Settles.rests_iff (idle : (system.call process).holds = none) :
    Settles process system final ↔ final = system := by
  constructor
  · intro settles
    cases settles with
    | rests => rfl
    | turns busy => exact absurd idle busy
  · rintro rfl
    exact .rests idle

theorem Settles.turns_iff (busy : (system.call process).holds ≠ none)
    (turned : callStep system (.turn process) = some next) :
    Settles process system final ↔ Settles process next final := by
  constructor
  · intro settles
    cases settles with
    | rests idle => exact absurd idle busy
    | turns _ turnedTo settles => grind
  · exact .turns busy turned

theorem performs_iff {call : FdCall}
    (began : callStep system (call.action process fd) = some next) :
    system.Performs process fd call final ↔ Settles process next final := by
  grind [CallSystem.Performs]

theorem finish_holds (system : CallSystem) (process : Fin nproc) (result : CallResult) :
    ((system.finish process result).call process).holds = none := by
  simp only [CallSystem.finish, Function.update_self]
  rfl

theorem finish_returned (system : CallSystem) (process : Fin nproc) (result : CallResult)
    (value : Int) : (system.finish process result).Returned process value ↔
      result.value = value := by
  simp only [CallSystem.Returned, CallSystem.finish, Function.update_self, true_and,
    Option.map_some, Option.some_inj]

theorem finish_not_asleepOn (system : CallSystem) (process : Fin nproc) (result : CallResult)
    (chan : PipeChan) : ¬ (system.finish process result).AsleepOn chan process := by
  rintro ⟨_, isChan⟩
  simp only [CallSystem.finish, Function.update_self] at isChan
  cases isChan

theorem sleep_holds (system : CallSystem) (process : Fin nproc) (slot : Fin nfile)
    {call : PipeCall} (noLock : call.holds = none) :
    ((system.sleep process slot call).call process).holds = none := by
  simp only [CallSystem.sleep, CallSystem.setState, CallSystem.setCall, CallSystem.release,
    Function.update_self, noLock]

theorem sleep_not_returned (system : CallSystem) (process : Fin nproc) (slot : Fin nfile)
    {call : PipeCall} (busy : call ≠ .idle) (value : Int) :
    ¬ (system.sleep process slot call).Returned process value := by
  rintro ⟨isIdle, _⟩
  simp only [CallSystem.sleep, CallSystem.setState, CallSystem.setCall, CallSystem.release,
    Function.update_self] at isIdle
  exact busy isIdle

/-- Once a write on a pipe that others have too has begun, it does not return `-1`. -/
theorem Settles.writing_not_broken (settles : Settles process system final) {write : PipeWrite}
    {rest : List UInt8} (isCall : system.call process = .writing slot write rest)
    (shared : (system.tables.ftable slot).ref ≠ 1) : ¬ final.Returned process (-1) := by
  induction settles generalizing rest with
  | rests idle =>
    rw [isCall] at idle
    cases idle
  | @turns system next final _ turned settles inductionHypothesis =>
    simp only [callStep] at turned
    split_ifs at turned
    have sameRef := (turn_move turned).frame.ref slot
    simp only [CallSystem.turn, isCall] at turned
    cases rest with
    | nil =>
      rw [← Option.some_inj.mp turned, CallSystem.endWrite,
        Settles.rests_iff (finish_holds _ process _)] at settles
      rw [settles, finish_returned]
      exact fun negative => absurd negative (by simp)
    | cons byte rest =>
      simp only [CallSystem.writeTurn, if_neg shared] at turned
      split_ifs at turned with full
      · rw [← Option.some_inj.mp turned, Settles.rests_iff (sleep_holds _ process slot rfl)]
          at settles
        rw [settles]
        exact sleep_not_returned _ process slot PipeCall.noConfusion (-1)
      · obtain ⟨place, _, rfl⟩ := Option.map_eq_some_iff.mp turned
        have isNext : (system.storeByte process slot write byte rest place).call process =
            .writing slot write rest := by
          simp only [CallSystem.storeByte, CallSystem.setCall, Function.update_self]
        exact inductionHypothesis isNext (by rw [sameRef]; exact shared)

/-- Once a read of a process that nobody has killed has found bytes, it does not return `-1`. -/
theorem Settles.copying_not_broken (settles : Settles process system final) {bytesRead : Int}
    {bytes : List UInt8} (isCall : system.call process = .copying slot bytesRead bytes)
    (spared : bytesRead ≤ bytes.length ∨ system.killed process = false) :
    ¬ final.Returned process (-1) := by
  induction settles generalizing bytes with
  | rests idle =>
    rw [isCall] at idle
    cases idle
  | @turns system next final _ turned settles inductionHypothesis =>
    have ended : next = system.endRead process slot bytes → ¬ final.Returned process (-1) := by
      rintro rfl
      rw [CallSystem.endRead, Settles.rests_iff (finish_holds _ process _)] at settles
      rw [settles, finish_returned]
      exact fun negative => absurd negative (by simp)
    simp only [callStep] at turned
    split_ifs at turned
    simp only [CallSystem.turn, isCall, CallSystem.copyTurn] at turned
    split_ifs at turned with wanted killed empty
    · grind
    · exact ended (Option.some_inj.mp turned).symm
    · obtain ⟨place, _, rfl⟩ := Option.map_eq_some_iff.mp turned
      have isNext : (system.copyByte process slot bytesRead bytes
          ((system.pipeAt slot).buf place)).call process =
            .copying slot bytesRead (bytes ++ [(system.pipeAt slot).buf place]) := by
        simp only [CallSystem.copyByte, CallSystem.setCall, Function.update_self]
      exact inductionHypothesis isNext (Or.inr (spared.resolve_left (not_le.mpr wanted)))
    · exact ended (Option.some_inj.mp turned).symm

/-- What the theorems about a call on a pipe assume of the state it begins in. -/
structure OnPipe (system : CallSystem) (process : Fin nproc) (fd : Fin nofile) (slot : Fin nfile) :
    Prop where
  ready : system.Ready process
  points : system.tables.pftable (process, fd) = some slot
  isPipe : (system.tables.ftable slot).isPipe = true
  free : system.holder slot = none

/-- `fileread` after it has taken the lock. -/
def CallSystem.begunRead (system : CallSystem) (process : Fin nproc) (slot : Fin nfile)
    (bytesRead : Int) : CallSystem :=
  (system.acquire process slot).setCall process (.reading slot bytesRead)

/-- `filewrite` after it has taken the lock. -/
def CallSystem.begunWrite (system : CallSystem) (process : Fin nproc) (slot : Fin nfile)
    (data : List UInt8) : CallSystem :=
  ({ system with writes := system.writes + 1 }.acquire process slot).setCall process
    (.writing slot ⟨system.writes, data⟩ data)

theorem OnPipe.refused_iff (on : OnPipe system process fd slot) (bytesRead : Int)
    (other : (system.pipeAt slot).readFd ≠ fd.val) :
    system.Performs process fd (.fileread bytesRead) final ↔
      final = system.finish process ⟨-1, [], none⟩ := by
  have began : callStep system (.fileread process fd bytesRead) =
      some (system.finish process ⟨-1, [], none⟩) := by
    simp only [callStep, if_pos on.ready, CallSystem.fileread, on.points, on.isPipe, if_true]
    rw [if_pos (show (system.tables.ftable slot).pipeBuffer.readFd ≠ fd.val from other)]
    rfl
  rw [performs_iff began, Settles.rests_iff (finish_holds system process _)]

theorem OnPipe.read_iff (on : OnPipe system process fd slot) (bytesRead : Int)
    (same : (system.pipeAt slot).readFd = fd.val) :
    system.Performs process fd (.fileread bytesRead) final ↔
      Settles process ((system.begunRead process slot bytesRead).readTurn process slot bytesRead)
        final := by
  have began : callStep system (.fileread process fd bytesRead) =
      some (system.begunRead process slot bytesRead) := by
    simp only [callStep, if_pos on.ready, CallSystem.fileread, on.points, on.isPipe, if_true]
    rw [if_neg (not_not.mpr
      (show (system.tables.ftable slot).pipeBuffer.readFd = fd.val from same)),
      if_neg (not_not.mpr on.free)]
    rfl
  have isCall : (system.begunRead process slot bytesRead).call process =
      .reading slot bytesRead := Function.update_self process _ system.call
  have turned : callStep (system.begunRead process slot bytesRead) (.turn process) =
      some ((system.begunRead process slot bytesRead).readTurn process slot bytesRead) := by
    have awake : ((system.begunRead process slot bytesRead).tables.state process).Awake :=
      on.ready.1
    rw [callStep, if_pos awake]
    simp only [CallSystem.turn, isCall]
  rw [performs_iff began, Settles.turns_iff (by rw [isCall]; exact Option.some_ne_none slot) turned]

theorem OnPipe.write_iff (on : OnPipe system process fd slot) (data : List UInt8) :
    system.Performs process fd (.filewrite data) final ↔
      Settles process (system.begunWrite process slot data) final := by
  have began : callStep system (.filewrite process fd data) =
      some (system.begunWrite process slot data) := by
    simp only [callStep, if_pos on.ready, CallSystem.filewrite, on.points, on.isPipe, if_true]
    rw [if_neg (not_not.mpr on.free)]
    rfl
  rw [performs_iff began]

theorem begunRead_readTurn (system : CallSystem) (process : Fin nproc) (slot : Fin nfile)
    (bytesRead : Int) :
    (system.begunRead process slot bytesRead).readTurn process slot bytesRead =
      if (system.pipeAt slot).head ≠ (system.pipeAt slot).tail then
        (system.begunRead process slot bytesRead).setCall process (.copying slot bytesRead [])
      else if system.killed process then
        ((system.begunRead process slot bytesRead).release slot).finish process ⟨-1, [], none⟩
      else if (system.tables.ftable slot).ref = 1 then
        ((system.begunRead process slot bytesRead).release slot).finish process ⟨0, [], none⟩
      else (system.begunRead process slot bytesRead).setCall process (.emptied slot bytesRead) :=
  rfl

/-- A read of an empty pipe. -/
theorem OnPipe.read_empty_iff (on : OnPipe system process fd slot) (bytesRead : Int)
    (same : (system.pipeAt slot).readFd = fd.val)
    (empty : (system.pipeAt slot).head = (system.pipeAt slot).tail) :
    system.Performs process fd (.fileread bytesRead) final ↔
      final =
        if system.killed process then
          ((system.begunRead process slot bytesRead).release slot).finish process ⟨-1, [], none⟩
        else if (system.tables.ftable slot).ref = 1 then
          ((system.begunRead process slot bytesRead).release slot).finish process ⟨0, [], none⟩
        else
          (((system.begunRead process slot bytesRead).setCall process
            (.emptied slot bytesRead)).wakeup (.write slot)).sleep process slot
              (.readAsleep slot bytesRead) := by
  rw [on.read_iff bytesRead same, begunRead_readTurn, if_neg (not_not.mpr empty)]
  by_cases killed : system.killed process = true
  · rw [if_pos killed, if_pos killed, Settles.rests_iff (finish_holds _ process _)]
  · rw [if_neg killed, if_neg killed]
    by_cases alone : (system.tables.ftable slot).ref = 1
    · rw [if_pos alone, if_pos alone, Settles.rests_iff (finish_holds _ process _)]
    · rw [if_neg alone, if_neg alone]
      have isCall : ((system.begunRead process slot bytesRead).setCall process
          (.emptied slot bytesRead)).call process = .emptied slot bytesRead :=
        Function.update_self process _ _
      have awake : (((system.begunRead process slot bytesRead).setCall process
          (.emptied slot bytesRead)).tables.state process).Awake := on.ready.1
      have turned : callStep ((system.begunRead process slot bytesRead).setCall process
          (.emptied slot bytesRead)) (.turn process) =
            some ((((system.begunRead process slot bytesRead).setCall process
              (.emptied slot bytesRead)).wakeup (.write slot)).sleep process slot
                (.readAsleep slot bytesRead)) := by
        grind [callStep, CallSystem.turn]
      rw [Settles.turns_iff (by rw [isCall]; exact Option.some_ne_none slot) turned,
        Settles.rests_iff (sleep_holds _ process slot rfl)]

/-- A read of a pipe with bytes returns `-1` only for a process that is killed and wants some. -/
theorem OnPipe.read_filled_iff (on : OnPipe system process fd slot) (bytesRead : Int)
    (same : (system.pipeAt slot).readFd = fd.val)
    (filled : (system.pipeAt slot).head ≠ (system.pipeAt slot).tail) :
    (∃ final, system.Performs process fd (.fileread bytesRead) final ∧
      final.Returned process (-1)) ↔ system.killed process = true ∧ 0 < bytesRead := by
  simp only [on.read_iff bytesRead same, begunRead_readTurn, if_pos filled]
  have isCall : ((system.begunRead process slot bytesRead).setCall process
      (.copying slot bytesRead [])).call process = .copying slot bytesRead [] :=
    Function.update_self process _ _
  constructor
  · rintro ⟨final, settles, broken⟩
    by_contra spared
    refine settles.copying_not_broken isCall ?_ broken
    rw [List.length_nil]
    by_cases wanted : 0 < bytesRead
    · exact Or.inr (Bool.not_eq_true _ ▸ fun killed => spared ⟨killed, wanted⟩)
    · exact Or.inl (not_lt.mp wanted)
  · rintro ⟨killed, wanted⟩
    have awake : (((system.begunRead process slot bytesRead).setCall process
        (.copying slot bytesRead [])).tables.state process).Awake := on.ready.1
    have turned : callStep ((system.begunRead process slot bytesRead).setCall process
        (.copying slot bytesRead [])) (.turn process) =
          some (((system.begunRead process slot bytesRead).setCall process
            (.copying slot bytesRead [])).finish process ⟨-1, [], none⟩) := by
      rw [callStep, if_pos awake]
      simp only [CallSystem.turn, isCall, CallSystem.copyTurn]
      rw [if_pos (by exact wanted), if_pos (by exact killed)]
    refine ⟨_, (Settles.turns_iff (by rw [isCall]; exact Option.some_ne_none slot) turned).mpr
      (.rests (finish_holds _ process _)), ?_⟩
    rw [finish_returned]

/-- A write returns `-1` only if it has a byte to store, finds room for it and nobody else has a
descriptor; it then stores nothing. -/
theorem OnPipe.write_broken_iff (on : OnPipe system process fd slot) (data : List UInt8)
    (Further : CallSystem → Prop)
    (further : ∀ final, final.history = system.history → Further final) :
    (∃ final, system.Performs process fd (.filewrite data) final ∧ final.Returned process (-1) ∧
      Further final) ↔
      (system.tables.ftable slot).ref = 1 ∧ data ≠ [] ∧ ¬ (system.pipeAt slot).Full := by
  simp only [on.write_iff data]
  have isCall : (system.begunWrite process slot data).call process =
      .writing slot ⟨system.writes, data⟩ data := Function.update_self process _ _
  have awake : ((system.begunWrite process slot data).tables.state process).Awake := on.ready.1
  have busy : ((system.begunWrite process slot data).call process).holds ≠ none := by
    rw [isCall]
    exact Option.some_ne_none slot
  have isTurn : callStep (system.begunWrite process slot data) (.turn process) =
      (system.begunWrite process slot data).writeTurn process slot ⟨system.writes, data⟩ data := by
    grind [callStep, CallSystem.turn]
  constructor
  · rintro ⟨final, settles, broken, _⟩
    have alone : (system.tables.ftable slot).ref = 1 := by
      by_contra shared
      exact settles.writing_not_broken isCall shared broken
    cases data with
    | nil =>
      rw [Settles.turns_iff busy (isTurn.trans rfl),
        CallSystem.endWrite, Settles.rests_iff (finish_holds _ process _)] at settles
      rw [settles, finish_returned] at broken
      cases broken
    | cons byte rest =>
      refine ⟨alone, List.cons_ne_nil byte rest, fun full => ?_⟩
      rw [Settles.turns_iff busy (isTurn.trans (if_pos full)),
        Settles.rests_iff (sleep_holds _ process slot rfl)] at settles
      rw [settles] at broken
      exact sleep_not_returned _ process slot PipeCall.noConfusion (-1) broken
  · rintro ⟨alone, someData, room⟩
    cases data with
    | nil => exact absurd rfl someData
    | cons byte rest =>
      refine ⟨_, (Settles.turns_iff busy (isTurn.trans
        ((if_neg room).trans (if_pos alone)))).mpr (.rests (finish_holds _ process _)), ?_, ?_⟩
      · rw [finish_returned]
      · exact further _ rfl

end Alone

/-! ### Every reachable state -/

section Reached

variable {system : CallSystem} {process : Fin nproc} {fd : Fin nofile} {slot : Fin nfile}

/-- A descriptor from an end counts among the descriptors from it. -/
theorem endsOn_pos {pipeEnd : PipeEnd} (points : system.tables.pftable (process, fd) = some slot)
    (isEnd : system.ends (process, fd) = some pipeEnd) : 0 < system.endsOn slot pipeEnd := by
  grind [CallSystem.endsOn, Counting.places_eq_zero_iff]

section

variable (on : OnPipe system process fd slot)
include on

theorem OnPipe.read_asPipe_iff
    (ref : (system.tables.ftable slot).ref = system.endsOn slot .read + system.endsOn slot .write)
    (reader : 0 < system.endsOn slot .read) (bytesRead : Int) :
    system.AsPipe process fd slot .read (.fileread bytesRead) ↔
      system.SeesEnds process fd slot .read (.fileread bytesRead) := by
  refine imp_congr_right fun empty => ?_
  by_cases same : (system.pipeAt slot).readFd = fd.val
  · simp only [on.read_empty_iff bytesRead same empty, exists_eq_left]
    by_cases killed : system.killed process = true
    · grind [finish_returned, finish_not_asleepOn]
    · rw [if_neg killed]
      rw [Bool.not_eq_true] at killed
      by_cases alone : (system.tables.ftable slot).ref = 1
      · grind [finish_returned]
      · rw [if_neg alone]
        by_cases noWriter : system.endsOn slot .write = 0
        · grind [sleep_not_returned]
        · rw [if_neg noWriter]
          exact iff_of_true (sleep_asleepOn _ process slot rfl)
            ⟨same, killed, fun none => absurd none noWriter⟩
  · simp only [on.refused_iff bytesRead same, exists_eq_left, finish_returned]
    refine iff_of_false ?_ fun sees => same sees.1
    split_ifs
    · decide
    · exact finish_not_asleepOn system process _ _

theorem OnPipe.wrongRead_asPipe_iff (bytesRead : Int) :
    system.AsPipe process fd slot .write (.fileread bytesRead) ↔
      system.SeesEnds process fd slot .write (.fileread bytesRead) := by
  simp only [CallSystem.AsPipe, CallSystem.SeesEnds]
  by_cases same : (system.pipeAt slot).readFd = fd.val
  · by_cases empty : (system.pipeAt slot).head = (system.pipeAt slot).tail
    · simp only [on.read_empty_iff bytesRead same empty, exists_eq_left, same, ne_eq,
        not_true_eq_false, false_or, empty, true_or, and_true]
      by_cases killed : system.killed process = true
      · grind [finish_returned]
      · grind [finish_returned, sleep_not_returned]
    · rw [on.read_filled_iff bytesRead same empty]
      simp only [same, ne_eq, not_true_eq_false, empty, false_or]
  · simp only [on.refused_iff bytesRead same, exists_eq_left, finish_returned]
    exact iff_of_true trivial (Or.inl same)

theorem OnPipe.wrongWrite_asPipe_iff
    (ref : (system.tables.ftable slot).ref = system.endsOn slot .read + system.endsOn slot .write)
    (reader : 0 < system.endsOn slot .read) (data : List UInt8) :
    system.AsPipe process fd slot .read (.filewrite data) ↔
      system.SeesEnds process fd slot .read (.filewrite data) := by
  have broken := on.write_broken_iff data (fun _ => True) fun _ _ => trivial
  simp only [and_true] at broken
  have isAlone : (system.tables.ftable slot).ref = 1 ↔
      system.endsOn slot .read = 1 ∧ system.endsOn slot .write = 0 := by omega
  simp only [CallSystem.AsPipe, CallSystem.SeesEnds]
  rw [broken, isAlone, and_assoc]

theorem OnPipe.write_asPipe_iff
    (ref : (system.tables.ftable slot).ref = system.endsOn slot .read + system.endsOn slot .write)
    (writer : 0 < system.endsOn slot .write) (data : List UInt8) :
    system.AsPipe process fd slot .write (.filewrite data) ↔
      system.SeesEnds process fd slot .write (.filewrite data) := by
  simp only [CallSystem.AsPipe, CallSystem.SeesEnds]
  rw [on.write_broken_iff data
    (fun final => (final.history slot).stored = (system.history slot).stored)
    fun final same => by rw [same]]
  by_cases noReader : system.endsOn slot .read = 0
  · grind
  · omega

end

/-- In every state that a run reaches, a call on a pipe does what it should exactly when the count
and the number of the read end tell it so. -/
theorem run_pipeEnds_iff {fs : FileSystem} {actions : List CallAction}
    (runs : run callStep (.initial fs) actions = some system) (ready : system.Ready process)
    (points : system.tables.pftable (process, fd) = some slot) (free : system.holder slot = none)
    {pipeEnd : PipeEnd} (isEnd : system.ends (process, fd) = some pipeEnd) (call : FdCall) :
    system.AsPipe process fd slot pipeEnd call ↔ system.SeesEnds process fd slot pipeEnd call := by
  have invariant : PipeCallInvariant system ∧ EndsInvariant system := by
    refine run_invariant (fun state => PipeCallInvariant state ∧ EndsInvariant state)
      (fun state action next taken kept => ?_) runs ⟨.initial fs, .initial fs⟩
    exact ⟨kept.1.step taken, kept.2.step kept.1 taken⟩
  obtain ⟨calls, ends⟩ := invariant
  have hasEnd : system.ends (process, fd) ≠ none := by grind
  have ref := ends.ref_eq calls points hasEnd
  have on : OnPipe system process fd slot :=
    ⟨ready, points, ends.isPipe (process, fd) slot points hasEnd, free⟩
  have counts := endsOn_pos points isEnd
  cases pipeEnd with
  | read =>
    cases call with
    | fileread bytesRead => exact on.read_asPipe_iff ref counts bytesRead
    | filewrite data => exact on.wrongWrite_asPipe_iff ref counts data
    | filestat => exact Iff.rfl
  | write =>
    cases call with
    | fileread bytesRead => exact on.wrongRead_asPipe_iff bytesRead
    | filewrite data => exact on.write_asPipe_iff ref counts data
    | filestat => exact Iff.rfl

/-- The only descriptor that is left is the child's read end. -/
theorem run_pipeEnds_iff_endOfFile : ∃ final, run callStep (.initial .blank)
      [.table (.pipe 0), .table (.fork 0 true), .table (.fileclose 1 1), .table (.fileclose 0 0),
        .table (.fileclose 0 1)] = some final ∧ final.endsOn 0 .write = 0 ∧
      final.AsPipe 1 0 0 .read (.fileread 5) := by
  obtain ⟨final, runs, facts⟩ := Option.map_eq_some_iff.mp (by decide +kernel :
    (run callStep (.initial .blank)
      [.table (.pipe 0), .table (.fork 0 true), .table (.fileclose 1 1), .table (.fileclose 0 0),
        .table (.fileclose 0 1)]).map (fun final =>
          decide (final.Ready 1 ∧ final.tables.pftable (1, 0) = some 0 ∧ final.holder 0 = none ∧
            final.ends (1, 0) = some .read ∧ (final.pipeAt 0).readFd = 0 ∧
            final.killed 1 = false ∧ final.endsOn 0 .write = 0 ∧ final.endsOn 0 .read = 1)) =
              some true)
  obtain ⟨ready, points, free, isEnd, readFd, killed, writers, readers⟩ := of_decide_eq_true facts
  have sees : final.SeesEnds 1 0 0 .read (.fileread 5) :=
    fun _ => ⟨readFd, killed, fun _ => readers⟩
  refine ⟨final, runs, writers, ?_⟩
  rw [run_pipeEnds_iff runs ready points free isEnd (.fileread 5)]
  exact sees

/-- Parent and child both have a read end and nobody has a write end: the read of the parent waits
for bytes that cannot come. -/
theorem twoReaders_not_asPipe : ∃ final, run callStep (.initial .blank)
      [.table (.pipe 0), .table (.fork 0 true), .table (.fileclose 1 1),
        .table (.fileclose 0 1)] = some final ∧ final.Ready 0 ∧ final.holder 0 = none ∧
      final.tables.pftable (0, 0) = some 0 ∧ final.ends (0, 0) = some .read ∧
      final.endsOn 0 .write = 0 ∧ ¬ final.AsPipe 0 0 0 .read (.fileread 5) := by
  obtain ⟨final, runs, facts⟩ := Option.map_eq_some_iff.mp (by decide +kernel :
    (run callStep (.initial .blank)
      [.table (.pipe 0), .table (.fork 0 true), .table (.fileclose 1 1),
        .table (.fileclose 0 1)]).map (fun final =>
          decide (final.Ready 0 ∧ final.tables.pftable (0, 0) = some 0 ∧ final.holder 0 = none ∧
            final.ends (0, 0) = some .read ∧ (final.tables.ftable 0).isPipe = true ∧
            (final.pipeAt 0).head = (final.pipeAt 0).tail ∧ (final.tables.ftable 0).ref = 2 ∧
            final.endsOn 0 .write = 0 ∧ final.endsOn 0 .read = 2)) = some true)
  obtain ⟨ready, points, free, isEnd, isPipe, empty, ref, writers, readers⟩ :=
    of_decide_eq_true facts
  refine ⟨final, runs, ready, free, points, isEnd, writers, ?_⟩
  have on : OnPipe final 0 0 0 := ⟨ready, points, isPipe, free⟩
  rw [on.read_asPipe_iff (by rw [ref, readers, writers]; rfl) (by rw [readers]; decide)]
  intro sees
  exact absurd (readers.symm.trans ((sees empty).2.2 writers)) (by decide)

end Reached

end Xk
