/-
This file proves that the reference counts of the open-file table are exact. The count in a
slot of `ftable` is the number of descriptors, over all processes, that point at the slot; it
follows that a slot with count `0`, which is what `fileopen` and `pipe` take, is a slot that
nobody points at.

Every operation is a sequence of two moves: pointing an empty descriptor at a slot while
adding one to its count (`Counted.point`), and emptying a descriptor while taking one away
(`Counted.fileclose`). The loops of `pipe`, `fork` and `exit` repeat one of them, so each is
an induction over the descriptors.
-/

import Xk.PipeCreation
import Xk.Transition

namespace Xk

open Transition

variable {descriptor : Descriptor} {process : Fin nproc} {fd : Fin nofile} {after : FileTables}

/-- The number of descriptors of the system that point at a slot. -/
def FileTables.references (tables : FileTables) (slot : Fin nfile) : Nat :=
  Counting.places Finset.univ tables.pftable fun entry => entry = some slot

/-- The counts are exact, and every slot that is pointed at is open: it is a pipe or it has an
inode. The second half is what makes `fileclose` of a used descriptor succeed. -/
structure Counted (tables : FileTables) : Prop where
  ref_eq : ∀ slot, (tables.ftable slot).ref = tables.references slot
  isOpen : ∀ descriptor slot, tables.pftable descriptor = some slot →
    (tables.ftable slot).isPipe = true ∨ (tables.ftable slot).iptr ≠ none

variable {tables : FileTables}

theorem references_update (pftable : Descriptor → Option (Fin nfile)) (descriptor : Descriptor)
    (entry : Option (Fin nfile)) (slot : Fin nfile) :
    Counting.places Finset.univ (Function.update pftable descriptor entry)
          (fun entry => entry = some slot) +
        (if pftable descriptor = some slot then 1 else 0) =
      Counting.places Finset.univ pftable (fun entry => entry = some slot) +
        (if entry = some slot then 1 else 0) :=
  Counting.places_update Finset.univ pftable _ (Finset.mem_univ descriptor) entry

theorem references_eq_zero_iff (tables : FileTables) (slot : Fin nfile) :
    tables.references slot = 0 ↔ ∀ descriptor, tables.pftable descriptor ≠ some slot := by
  grind [FileTables.references, Counting.places_eq_zero_iff]

/-- Two descriptors on a slot count as two references. -/
theorem two_le_references (tables : FileTables) {first second : Descriptor} {slot : Fin nfile}
    (different : first ≠ second) (points : tables.pftable first = some slot)
    (pointsOther : tables.pftable second = some slot) : 2 ≤ tables.references slot := by
  refine Counting.two_le_places Finset.univ tables.pftable (fun entry => entry = some slot)
    different ?_ ?_ points pointsOther
  · simp only [Finset.mem_univ]
  · simp only [Finset.mem_univ]

/-! ### The two moves -/

/-- Pointing an empty descriptor at a slot whose count goes up by one. -/
theorem Counted.point (counted : Counted tables) {slot : Fin nfile} {file : FileInfo}
    (empty : tables.pftable descriptor = none) (ref : file.ref = (tables.ftable slot).ref + 1)
    (opened : file.isPipe = true ∨ file.iptr ≠ none) :
    Counted (tables.point descriptor slot file) where
  ref_eq other := by
    have moved := references_update tables.pftable descriptor (some slot) other
    rw [empty, if_neg (by simp)] at moved
    have before := counted.ref_eq other
    unfold FileTables.references at before ⊢
    by_cases same : other = slot
    · subst same
      simp only [FileTables.point, Function.update_self, ref, before]
      rw [if_pos rfl] at moved
      omega
    · simp only [FileTables.point, Function.update_of_ne same, before]
      rw [if_neg (by simpa using Ne.symm same)] at moved
      omega
  isOpen holder other points := by
    by_cases same : other = slot
    · simpa only [FileTables.point, same, Function.update_self] using opened
    · simp only [FileTables.point, Function.update_of_ne same] at points ⊢
      by_cases assigned : holder = descriptor
      · grind
      · grind [Counted]

/-- A used descriptor's slot has a positive count. -/
theorem Counted.ref_pos (counted : Counted tables) {slot : Fin nfile}
    (points : tables.pftable descriptor = some slot) : 0 < (tables.ftable slot).ref := by
  grind [references_eq_zero_iff, Counted]

/-- Emptying a descriptor while the count of its slot goes down by one. The slot has to stay open
only if somebody else points at it. -/
theorem Counted.unpoint (counted : Counted tables) {slot : Fin nfile} {file : FileInfo}
    (points : tables.pftable descriptor = some slot) (ref : file.ref = (tables.ftable slot).ref - 1)
    (opened : 0 < file.ref → file.isPipe = true ∨ file.iptr ≠ none) :
    Counted (tables.unpoint descriptor slot file) := by
  have ref_eq : ∀ other, ((tables.unpoint descriptor slot file).ftable other).ref =
      (tables.unpoint descriptor slot file).references other := by
    intro other
    have moved := references_update tables.pftable descriptor none other
    rw [if_neg (by simp : ¬ (none : Option (Fin nfile)) = some other), points] at moved
    have before := counted.ref_eq other
    unfold FileTables.references at before ⊢
    by_cases same : other = slot
    · subst same
      simp only [FileTables.unpoint, Function.update_self, ref, before]
      rw [if_pos rfl] at moved
      omega
    · simp only [FileTables.unpoint, Function.update_of_ne same, before]
      rw [if_neg (by simpa using Ne.symm same)] at moved
      omega
  refine ⟨ref_eq, fun holder other holds => ?_⟩
  by_cases same : other = slot
  · -- the holder still counts, so this was not the last reference
    have positive : (tables.unpoint descriptor slot file).references other ≠ 0 := fun zero =>
      (references_eq_zero_iff _ other).mp zero holder holds
    have count := ref_eq other
    have stored : (tables.unpoint descriptor slot file).ftable other = file := by
      rw [same]
      exact Function.update_self slot file tables.ftable
    rw [stored] at count ⊢
    exact opened (by omega)
  · simp only [FileTables.unpoint, Function.update_of_ne same] at holds ⊢
    by_cases emptied : holder = descriptor
    · grind
    · grind [Counted]

/-! ### The operations -/

/-- The slot of a used descriptor passes the checks of `fileclose` and `filedup`. -/
theorem Counted.used (counted : Counted tables) {slot : Fin nfile}
    (points : tables.pftable descriptor = some slot) :
    ¬ ((tables.ftable slot).isPipe = false ∧ (tables.ftable slot).iptr = none) := by
  grind [Counted]

/-- `fileclose` of a used descriptor succeeds. -/
theorem Counted.fileclose_eq (counted : Counted tables) {slot : Fin nfile}
    (points : tables.pftable (process, fd) = some slot) :
    fileclose tables process fd =
      (0, tables.unpoint (process, fd) slot (tables.ftable slot).closed) := by
  simp only [fileclose, points, if_neg (counted.used points)]

theorem Counted.fileclose (counted : Counted tables) (process : Fin nproc) (fd : Fin nofile) :
    Counted (fileclose tables process fd).2 := by
  cases points : tables.pftable (process, fd) with
  | none => grind [Xk.fileclose]
  | some slot =>
    rw [counted.fileclose_eq points]
    have positive := counted.ref_pos points
    by_cases shared : 1 < (tables.ftable slot).ref
    · rw [FileInfo.closed, if_pos shared]
      exact counted.unpoint points rfl fun _ => counted.isOpen (process, fd) slot points
    · grind [FileInfo.closed, unpoint]

theorem freeDescriptor_eq_some (found : tables.freeDescriptor process = some fd) :
    tables.pftable (process, fd) = none ∧
      ∀ lower < fd, tables.pftable (process, lower) ≠ none := by
  obtain ⟨empty, index, bound, isFd, before⟩ := List.find?_eq_some_iff_getElem.mp found
  refine ⟨of_decide_eq_true empty, fun lower less => ?_⟩
  have position : lower.val < index := by grind
  have occupied := before lower.val position
  simpa using occupied

theorem freeSlot_eq_some {slot : Fin nfile} (found : tables.freeSlot = some slot) :
    (tables.ftable slot).ref = 0 := by
  have zero := List.find?_some (p := fun slot => decide ((tables.ftable slot).ref = 0)) found
  exact of_decide_eq_true zero

theorem freeDescriptor_eq_none :
    tables.freeDescriptor process = none ↔ ∀ fd, tables.pftable (process, fd) ≠ none := by
  rw [FileTables.freeDescriptor, List.find?_eq_none]
  simp

theorem freeSlot_eq_none : tables.freeSlot = none ↔ ∀ slot, (tables.ftable slot).ref ≠ 0 := by
  rw [FileTables.freeSlot, List.find?_eq_none]
  simp

/-- A slot that the search for a free one returns is not pointed at. -/
theorem Counted.freeSlot_unreferenced (counted : Counted tables) {slot : Fin nfile}
    (found : tables.freeSlot = some slot) (descriptor : Descriptor) :
    tables.pftable descriptor ≠ some slot := by
  grind [freeSlot_eq_some, Counted, references_eq_zero_iff]

/-- What `fileopen` can do to the tables: nothing, or point the lowest empty descriptor, which it
returns, at a free slot. -/
theorem fileopen_cases (tables : FileTables) (process : Fin nproc) (inode : Option InodePtr)
    (mode : Int) :
    (fileopen tables process inode mode).2 = tables ∨
      ∃ fd slot iptr, tables.freeDescriptor process = some fd ∧ tables.freeSlot = some slot ∧
        fileopen tables process inode mode = ((fd : Int), tables.point (process, fd) slot
          { tables.ftable slot with
            ref := 1, iptr := some iptr, accessPermission := mode }) := by
  unfold fileopen
  cases inode with
  | none => exact Or.inl rfl
  | some iptr => grind

theorem Counted.fileopen (counted : Counted tables) (process : Fin nproc)
    (inode : Option InodePtr) (mode : Int) :
    Counted (fileopen tables process inode mode).2 := by
  grind [fileopen_cases, point, freeDescriptor_eq_some, freeSlot_eq_some]

/-- What `filedup` can do to the tables: nothing, or point the lowest empty descriptor, which it
returns, at the slot of the given one. -/
theorem filedup_cases (tables : FileTables) (process : Fin nproc) (fd : Fin nofile) :
    (filedup tables process fd).2 = tables ∨
      ∃ new slot, tables.freeDescriptor process = some new ∧
        tables.pftable (process, fd) = some slot ∧
        filedup tables process fd = ((new : Int), tables.point (process, new) slot
          { tables.ftable slot with ref := (tables.ftable slot).ref + 1 }) := by
  grind [filedup]

theorem Counted.filedup (counted : Counted tables) (process : Fin nproc) (fd : Fin nofile) :
    Counted (filedup tables process fd).2 := by
  grind [filedup_cases, point, freeDescriptor_eq_some, Counted]

/-! ### The loops of `pipe`, `fork` and `exit` -/

/-- Only the descriptors of one process change. -/
structure OnlyDescriptorsOf (process : Fin nproc) (before after : FileTables) : Prop where
  state : after.state = before.state
  others : ∀ other fd, other ≠ process →
    after.pftable (other, fd) = before.pftable (other, fd)

theorem OnlyDescriptorsOf.refl (process : Fin nproc) (tables : FileTables) :
    OnlyDescriptorsOf process tables tables :=
  ⟨rfl, fun _ _ _ => rfl⟩

theorem OnlyDescriptorsOf.trans {first second third : FileTables}
    (left : OnlyDescriptorsOf process first second) (right : OnlyDescriptorsOf process second third)
    : OnlyDescriptorsOf process first third :=
  ⟨right.state.trans left.state, fun other fd different =>
    (right.others other fd different).trans (left.others other fd different)⟩

theorem OnlyDescriptorsOf.point (tables : FileTables) (process : Fin nproc) (fd : Fin nofile)
    (slot : Fin nfile) (file : FileInfo) :
    OnlyDescriptorsOf process tables (tables.point (process, fd) slot file) :=
  ⟨rfl, fun _ _ different =>
    Function.update_of_ne (fun same => different (congrArg Prod.fst same)) _ _⟩

theorem OnlyDescriptorsOf.unpoint (tables : FileTables) (process : Fin nproc) (fd : Fin nofile)
    (slot : Fin nfile) (file : FileInfo) :
    OnlyDescriptorsOf process tables (tables.unpoint (process, fd) slot file) :=
  ⟨rfl, fun _ _ different =>
    Function.update_of_ne (fun same => different (congrArg Prod.fst same)) _ _⟩

theorem Counted.onlyDescriptorsOf_fileclose (counted : Counted tables) (process : Fin nproc)
    (fd : Fin nofile) : OnlyDescriptorsOf process tables (Xk.fileclose tables process fd).2 := by
  cases points : tables.pftable (process, fd) with
  | none =>
    simp only [Xk.fileclose, points]
    exact .refl process tables
  | some slot =>
    rw [counted.fileclose_eq points]
    exact .unpoint tables process fd slot _

/-- A successful `pipe` keeps the counts exact and takes a slot that was free. -/
theorem Counted.pipe (counted : Counted tables) {ends : Fin nofile × Fin nofile}
    (success : pipe tables process = .ok (some ends, after)) :
    Counted after ∧ OnlyDescriptorsOf process tables after ∧
      ∃ slot, tables.freeSlot = some slot ∧
        ∀ descriptor, after.pftable descriptor = tables.pftable descriptor ∨
          after.pftable descriptor = some slot := by
  obtain ⟨readEnd, writeEnd⟩ := ends
  obtain ⟨slot, free, taken, rfl⟩ := pipe_eq_some success
  obtain ⟨different, emptyRead, emptyWrite⟩ := FileTables.empty_of_take taken
  have differentEnds : (process, writeEnd) ≠ (process, readEnd) :=
    fun same => different (congrArg Prod.snd same).symm
  -- The two ends are taken one after the other.
  have inTurn : tables.makePipe process slot readEnd writeEnd =
      (tables.point (process, readEnd) slot { (tables.ftable slot).asPipe readEnd writeEnd with
        ref := (tables.ftable slot).ref + 1 }).point (process, writeEnd) slot
        ((tables.ftable slot).asPipe readEnd writeEnd) := by
    simp only [FileTables.makePipe, FileTables.point, Function.update_idem]
  refine ⟨?_, ⟨rfl, fun other fd isOther => ?_⟩, slot, free, fun descriptor => ?_⟩
  · rw [inTurn]
    refine Counted.point (Counted.point counted emptyRead rfl (.inl rfl)) ?_ ?_ (.inl rfl)
    · simp_all
    · simp only [FileInfo.asPipe, FileTables.point, Function.update_self, add_assoc]
      rfl
  · simp_all
  · grind [FileTables.makePipe_pftable_write, FileTables.makePipe_pftable_read,
      FileTables.makePipe_pftable_other]

/-- The loop of `fork` over descriptors that are still empty in the child. -/
theorem Counted.forkLoop (parent child : Fin nproc) (fds : List (Fin nofile))
    (counted : Counted tables) (distinct : fds.Nodup)
    (empty : ∀ fd ∈ fds, tables.pftable (child, fd) = none) :
    Counted (fds.foldl (forkTurn parent child) tables) ∧
      OnlyDescriptorsOf child tables (fds.foldl (forkTurn parent child) tables) := by
  induction fds generalizing tables with
  | nil => exact ⟨counted, .refl child tables⟩
  | cons fd rest inductionHypothesis =>
    obtain ⟨notLater, distinctRest⟩ := List.nodup_cons.mp distinct
    rw [List.foldl_cons]
    cases points : tables.pftable (parent, fd) with
    | none => grind [forkTurn]
    | some slot =>
      rw [show forkTurn parent child tables fd = tables.point (child, fd) slot
        { tables.ftable slot with ref := (tables.ftable slot).ref + 1 } by
          simp only [forkTurn, points]]
      have turn : Counted (tables.point (child, fd) slot
          { tables.ftable slot with ref := (tables.ftable slot).ref + 1 }) :=
        counted.point (empty fd List.mem_cons_self) rfl
          (counted.isOpen (parent, fd) slot points)
      obtain ⟨rest, only⟩ := inductionHypothesis turn distinctRest fun later member => by
        rw [FileTables.point_pftable, Function.update_of_ne]
        · exact empty later (List.mem_cons_of_mem fd member)
        · grind
      exact ⟨rest, (OnlyDescriptorsOf.point tables child fd slot _).trans only⟩

/-- The loop of `exit` empties the descriptors it visits and fills none. -/
theorem Counted.exitLoop (process : Fin nproc) (fds : List (Fin nofile))
    (counted : Counted tables) :
    Counted (fds.foldl (exitTurn process) tables) ∧
      OnlyDescriptorsOf process tables (fds.foldl (exitTurn process) tables) ∧
      ∀ fd, fd ∈ fds ∨ tables.pftable (process, fd) = none →
        (fds.foldl (exitTurn process) tables).pftable (process, fd) = none := by
  induction fds generalizing tables with
  | nil => grind [OnlyDescriptorsOf.refl]
  | cons fd rest inductionHypothesis =>
    rw [List.foldl_cons]
    cases points : tables.pftable (process, fd) with
    | none => grind [exitTurn]
    | some slot =>
      rw [show exitTurn process tables fd = tables.unpoint (process, fd) slot
        (tables.ftable slot).closed by
          rw [exitTurn, if_neg (by simp [points]), counted.fileclose_eq points]]
      have closed := counted.fileclose process fd
      rw [counted.fileclose_eq points] at closed
      obtain ⟨kept, only, empties⟩ := inductionHypothesis closed
      refine ⟨kept, (OnlyDescriptorsOf.unpoint tables process fd slot _).trans only,
        fun other reached => empties other ?_⟩
      by_cases same : other = fd
      · simp_all
      · simp_all

/-! ### Runs -/

/-- The counts are exact, and a process that cannot make system calls has nothing open. -/
structure FilesExact (tables : FileTables) : Prop where
  counted : Counted tables
  idle : ∀ process, ¬ (tables.state process).Live → ∀ fd, tables.pftable (process, fd) = none

/-- An operation of a live process that touches no other process's descriptors. -/
theorem FilesExact.of_only (exactly : FilesExact tables) (live : (tables.state process).Live)
    (counted : Counted after) (only : OnlyDescriptorsOf process tables after) :
    FilesExact after := by
  grind [OnlyDescriptorsOf, FilesExact]

/-- Moving one process to a state in which it has nothing open if it is not live. -/
theorem FilesExact.setState (exactly : FilesExact tables) {state : ProcState}
    (empty : ∀ fd, tables.pftable (process, fd) = none) :
    FilesExact { tables with state := Function.update tables.state process state } := by
  refine ⟨⟨exactly.counted.ref_eq, exactly.counted.isOpen⟩, fun other notLive fd => ?_⟩
  by_cases same : other = process
  · rw [same]
    exact empty fd
  · grind [FilesExact]

theorem FilesExact.fork (exactly : FilesExact tables) {parent : Fin nproc}
    (stack : Bool) : FilesExact (forkFiles tables parent stack).2 := by
  unfold forkFiles
  cases found : tables.unusedProcess with
  | none => exact exactly
  | some child =>
    have unused : tables.state child = .unused := by
      have first := List.find?_some (p := fun process => tables.state process = .unused) found
      exact of_decide_eq_true first
    have notLive : ¬ (tables.state child).Live := by
      rw [unused]
      decide
    cases stack with
    | false => exact exactly
    | true =>
      obtain ⟨counted, only⟩ := exactly.counted.forkLoop parent child (List.finRange nofile)
        (List.nodup_finRange nofile) fun fd _ => exactly.idle child notLive fd
      refine ⟨⟨counted.ref_eq, counted.isOpen⟩, fun other notLiveAfter fd => ?_⟩
      have different : other ≠ child := by grind [ProcState.Live]
      simp only [if_false, reduceCtorEq, Function.update_of_ne different, only.state]
        at notLiveAfter
      exact (only.others other fd different).trans (exactly.idle other notLiveAfter fd)

theorem FilesExact.exit (exactly : FilesExact tables) {process : Fin nproc}
    (live : (tables.state process).Live) : FilesExact (exitFiles tables process) := by
  obtain ⟨counted, only, empties⟩ := exactly.counted.exitLoop process (List.finRange nofile)
  exact (exactly.of_only live counted only).setState fun fd =>
    empties fd (Or.inl (List.mem_finRange fd))

/-- One step keeps the counts exact. -/
theorem FilesExact.fileStep {action : FileAction} (exactly : FilesExact tables)
    (taken : fileStep tables action = some after) :
    FilesExact after := by
  unfold Xk.fileStep at taken
  split at taken
  case isFalse => cases taken
  case isTrue live =>
    cases action with
    | fileopen process inode mode =>
      simp only [Option.some_inj] at taken
      rw [← taken]
      refine exactly.of_only live (exactly.counted.fileopen process inode mode) ?_
      rcases fileopen_cases tables process inode mode with
        unchanged | ⟨fd, slot, iptr, descriptor, free, opened⟩
      · rw [unchanged]
        exact .refl process tables
      · rw [opened]
        exact .point tables process fd slot _
    | fileclose process fd =>
      simp only [Option.some_inj] at taken
      rw [← taken]
      exact exactly.of_only live (exactly.counted.fileclose process fd)
        (exactly.counted.onlyDescriptorsOf_fileclose process fd)
    | filedup process fd =>
      simp only [Option.some_inj] at taken
      rw [← taken]
      refine exactly.of_only live (exactly.counted.filedup process fd) ?_
      rcases filedup_cases tables process fd with unchanged | ⟨new, slot, empty, points, dup⟩
      · rw [unchanged]
        exact .refl process tables
      · rw [dup]
        exact .point tables process new slot _
    | pipe process =>
      simp only at taken
      split at taken
      case h_1 ends opened success =>
        rw [← Option.some_inj.mp taken]
        obtain ⟨counted, only, _⟩ := exactly.counted.pipe success
        exact exactly.of_only live counted only
      case h_2 => cases taken
    | fork process stack => grind [fork]
    | exit process =>
      rw [← Option.some_inj.mp taken]
      exact exactly.exit live
    | wait process zombie =>
      simp only at taken
      split at taken
      case isTrue isZombie =>
        rw [← Option.some_inj.mp taken]
        refine exactly.setState (exactly.idle zombie ?_)
        rw [isZombie]
        decide
      case isFalse => cases taken

theorem FilesExact.initial : FilesExact .initial := by
  refine ⟨⟨fun slot => ?_, fun _ _ points => nomatch points⟩, fun _ _ _ => rfl⟩
  have none : FileTables.initial.references slot = 0 :=
    (references_eq_zero_iff _ slot).mpr fun _ points => nomatch points
  rw [none]
  rfl

/-- The new entry of an operation stands in the lowest empty descriptor of the caller, whose number
is the result. -/
def InstallsLowest (tables : FileTables) (process : Fin nproc) (result : Int × FileTables)
    (slot : Fin nfile) : Prop :=
  ∃ fd : Fin nofile, tables.pftable (process, fd) = none ∧
    (∀ lower < fd, tables.pftable (process, lower) ≠ none) ∧ result.1 = fd ∧
    result.2.pftable = Function.update tables.pftable (process, fd) (some slot)

/-- Every new entry points at a slot that nobody pointed at. -/
def TakesUnreferenced (tables after : FileTables) : Prop :=
  ∀ descriptor slot, after.pftable descriptor = some slot →
    tables.pftable descriptor ≠ some slot → ∀ holder, tables.pftable holder ≠ some slot

/-- What exact reference counts mean, in a state and for the next operation in it. -/
structure ReferencesExact (tables : FileTables) : Prop where
  ref_eq : ∀ slot, (tables.ftable slot).ref = tables.references slot
  fileopen_takes : ∀ process inode mode,
    TakesUnreferenced tables (fileopen tables process inode mode).2
  pipe_takes : ∀ process ends after, pipe tables process = .ok (some ends, after) →
    TakesUnreferenced tables after
  fileopen_only : ∀ process inode mode,
    (fileopen tables process inode mode).2.pftable = tables.pftable ∨
      ∃ slot, InstallsLowest tables process (fileopen tables process inode mode) slot
  fileopen_installs : ∀ process iptr mode, mode ≠ tDevMode →
    (∃ fd, tables.pftable (process, fd) = none) →
    (∃ slot, ∀ holder, tables.pftable holder ≠ some slot) →
      ∃ slot, InstallsLowest tables process (fileopen tables process (some iptr) mode) slot
  filedup_only : ∀ process fd, (filedup tables process fd).2.pftable = tables.pftable ∨
    ∃ slot, InstallsLowest tables process (filedup tables process fd) slot
  filedup_installs : ∀ process fd slot, tables.pftable (process, fd) = some slot →
    (∃ empty, tables.pftable (process, empty) = none) →
      InstallsLowest tables process (filedup tables process fd) slot

theorem installsLowest_point (slot : Fin nfile) (file : FileInfo)
    (descriptor : tables.freeDescriptor process = some fd) :
    InstallsLowest tables process ((fd : Int), tables.point (process, fd) slot file) slot :=
  ⟨fd, (freeDescriptor_eq_some descriptor).1, (freeDescriptor_eq_some descriptor).2, rfl, rfl⟩

theorem exists_freeDescriptor (empty : ∃ fd, tables.pftable (process, fd) = none) :
    ∃ fd, tables.freeDescriptor process = some fd := by
  obtain ⟨fd, isEmpty⟩ := empty
  rw [← Option.isSome_iff_exists, FileTables.freeDescriptor, List.find?_isSome]
  exact ⟨fd, List.mem_finRange fd, decide_eq_true isEmpty⟩

section

variable (counted : Counted tables)
include counted

theorem Counted.exists_freeSlot (unreferenced : ∃ slot, ∀ holder, tables.pftable holder ≠ some slot)
    :
    ∃ slot, tables.freeSlot = some slot := by
  obtain ⟨slot, nobody⟩ := unreferenced
  have zero : (tables.ftable slot).ref = 0 := by grind [Counted, references_eq_zero_iff]
  rw [← Option.isSome_iff_exists, FileTables.freeSlot, List.find?_isSome]
  exact ⟨slot, List.mem_finRange slot, decide_eq_true zero⟩

/-- An operation whose new entries all point at a slot found free takes an unreferenced one. -/
theorem Counted.takesUnreferenced {slot : Fin nfile} (free : tables.freeSlot = some slot)
    (entries : ∀ descriptor, after.pftable descriptor = tables.pftable descriptor ∨
      after.pftable descriptor = some slot) : TakesUnreferenced tables after := by
  intro descriptor taken points new
  rcases entries descriptor with old | fresh
  · exact absurd (old.symm.trans points) new
  · grind [freeSlot_unreferenced]

theorem Counted.fileopen_takes (process : Fin nproc) (inode : Option InodePtr) (mode : Int) :
    TakesUnreferenced tables (Xk.fileopen tables process inode mode).2 := by
  rcases fileopen_cases tables process inode mode with
    unchanged | ⟨fd, slot, iptr, descriptor, free, opened⟩
  · rw [unchanged]
    exact fun _ _ points new => absurd points new
  · rw [opened]
    refine counted.takesUnreferenced free fun holder => ?_
    by_cases same : holder = (process, fd)
    · exact Or.inr (same ▸ Function.update_self _ _ _)
    · exact Or.inl (Function.update_of_ne same _ _)

theorem Counted.filedup_installs {slot : Fin nfile}
    (points : tables.pftable (process, fd) = some slot)
    (empty : ∃ free, tables.pftable (process, free) = none) :
    InstallsLowest tables process (Xk.filedup tables process fd) slot := by
  obtain ⟨new, descriptor⟩ := exists_freeDescriptor empty
  have dup : Xk.filedup tables process fd = ((new : Int), tables.point (process, new) slot
      { tables.ftable slot with ref := (tables.ftable slot).ref + 1 }) := by
    simp only [Xk.filedup, points, if_neg (counted.used points), descriptor]
  rw [dup]
  exact installsLowest_point slot _ descriptor

theorem Counted.referencesExact : ReferencesExact tables where
  ref_eq := counted.ref_eq
  fileopen_takes := counted.fileopen_takes
  pipe_takes process ends after success := by
    obtain ⟨_, _, slot, free, entries⟩ := counted.pipe success
    exact counted.takesUnreferenced free entries
  fileopen_only process inode mode := by grind [fileopen_cases, installsLowest_point]
  fileopen_installs process iptr mode notDevice empty unreferenced := by
    obtain ⟨fd, descriptor⟩ := exists_freeDescriptor empty
    obtain ⟨slot, free⟩ := counted.exists_freeSlot unreferenced
    refine ⟨slot, ?_⟩
    simp only [Xk.fileopen, if_neg notDevice, descriptor, free]
    exact installsLowest_point slot _ descriptor
  filedup_only process fd := by grind [filedup_cases, installsLowest_point]
  filedup_installs _ _ _ points empty := counted.filedup_installs points empty

end

/-- In every run of the file operations from the empty tables, the reference counts are exact,
`fileopen` and `pipe` take slots nobody points at, and `fileopen` and `filedup` use the lowest
empty descriptor. -/
theorem run_referencesExact {actions : List FileAction} {final : FileTables}
    (runs : run fileStep .initial actions = some final) : ReferencesExact final :=
  (run_invariant FilesExact (fun _ _ _ taken exactly => exactly.fileStep taken) runs
    .initial).counted.referencesExact

/-- A file is opened, its descriptor duplicated, both shared with a child, and closed by it. -/
theorem run_referencesExact_shared : ∃ final, run fileStep .initial
      [.fileopen 0 (some 3) 2, .filedup 0 0, .pipe 0, .fork 0 true, .fileclose 0 1, .exit 1] =
        some final ∧ ReferencesExact final := by
  obtain ⟨final, runs⟩ := Option.isSome_iff_exists.mp (by decide +kernel :
    (run fileStep .initial [.fileopen 0 (some 3) 2, .filedup 0 0, .pipe 0, .fork 0 true,
      .fileclose 0 1, .exit 1]).isSome = true)
  exact ⟨final, runs, run_referencesExact runs⟩

/-! ### `pipe` -/

end Xk
