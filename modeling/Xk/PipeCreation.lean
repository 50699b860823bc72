/-
This file determines `pipe` of `kernel/file.c`. Its loop takes the caller's first two empty
descriptors, if there are two. If there are fewer, the call is to fail: it takes back the reference
count of the slot, but not the descriptors it has pointed at the slot, and gives the pipe buffer to
`kfree`. The buffer is a part of the table in the kernel's data and not a page, so `kfree` panics.
-/

import Xk.FileTable

namespace Xk

/-- The empty descriptors of a process, in the order of the loops over them. -/
def FileTables.emptyDescriptors (tables : FileTables) (process : Fin nproc) : List (Fin nofile) :=
  (List.finRange nofile).filter fun fd => tables.pftable (process, fd) = none

/-- What a slot holds when a pipe has been made in it. -/
def FileInfo.asPipe (file : FileInfo) (readEnd writeEnd : Fin nofile) : FileInfo :=
  { file with
    ref := file.ref + 2
    isPipe := true
    accessPermission := oRdwr
    pipeBuffer := { file.pipeBuffer with
      readFd := readEnd, writeFd := writeEnd, head := 0, tail := 0, full := false, empty := true } }

/-- The tables with a pipe in a slot, and its two ends at descriptors of a process. -/
def FileTables.makePipe (tables : FileTables) (process : Fin nproc) (slot : Fin nfile)
    (readEnd writeEnd : Fin nofile) : FileTables where
  ftable := Function.update tables.ftable slot ((tables.ftable slot).asPipe readEnd writeEnd)
  pftable := Function.update (Function.update tables.pftable (process, readEnd) (some slot))
    (process, writeEnd) (some slot)
  state := tables.state

variable {tables : FileTables} {process : Fin nproc} {slot : Fin nfile}

section Made

variable (tables process slot) (readEnd writeEnd : Fin nofile)

theorem FileTables.makePipe_ftable_self :
    (tables.makePipe process slot readEnd writeEnd).ftable slot =
      (tables.ftable slot).asPipe readEnd writeEnd :=
  Function.update_self _ _ _

theorem FileTables.makePipe_ftable_other {other : Fin nfile} (different : other ≠ slot) :
    (tables.makePipe process slot readEnd writeEnd).ftable other = tables.ftable other :=
  Function.update_of_ne different _ _

theorem FileTables.makePipe_pftable_other {descriptor : Descriptor}
    (notRead : descriptor ≠ (process, readEnd)) (notWrite : descriptor ≠ (process, writeEnd)) :
    (tables.makePipe process slot readEnd writeEnd).pftable descriptor =
      tables.pftable descriptor :=
  (Function.update_of_ne notWrite _ _).trans (Function.update_of_ne notRead _ _)

theorem FileTables.makePipe_pftable_read :
    (tables.makePipe process slot readEnd writeEnd).pftable (process, readEnd) = some slot := by
  show Function.update (Function.update tables.pftable _ _) _ _ _ = _
  rw [Function.update_apply, Function.update_self, ite_self]

theorem FileTables.makePipe_pftable_write :
    (tables.makePipe process slot readEnd writeEnd).pftable (process, writeEnd) = some slot :=
  Function.update_self _ _ _

end Made

/-! ### The loop -/

/-- One descriptor that the loop takes. -/
def FileTables.takeEnd (process : Fin nproc) (slot : Fin nfile) (tables : FileTables)
    (fd : Fin nofile) : FileTables :=
  tables.point (process, fd) slot { tables.ftable slot with ref := (tables.ftable slot).ref + 1 }

theorem FileTables.takeEnd_other {fd other : Fin nofile} (different : other ≠ fd) :
    (tables.takeEnd process slot fd).pftable (process, other) = tables.pftable (process, other) :=
  Function.update_of_ne (fun same => different (congrArg Prod.snd same)) _ _

/-- The loop of `pipe` takes the first empty descriptors, up to the second. -/
theorem pipeLoop_eq (fds : List (Fin nofile)) (distinct : fds.Nodup) (taken : List (Fin nofile))
    (tables : FileTables) (few : taken.length ≤ 2) :
    fds.foldl (pipeTurn process slot) (taken, tables) =
      (taken ++ (fds.filter fun fd => tables.pftable (process, fd) = none).take (2 - taken.length),
        ((fds.filter fun fd => tables.pftable (process, fd) = none).take (2 - taken.length)).foldl
          (FileTables.takeEnd process slot) tables) := by
  induction fds generalizing taken tables with
  | nil => simp
  | cons fd rest inductionHypothesis =>
    obtain ⟨notLater, distinctRest⟩ := List.nodup_cons.mp distinct
    rw [List.foldl_cons]
    by_cases takes : tables.pftable (process, fd) = none ∧ taken.length < 2
    · have turn : pipeTurn process slot (taken, tables) fd =
          (taken ++ [fd], tables.takeEnd process slot fd) := if_pos takes
      have later : (rest.filter fun other =>
            (tables.takeEnd process slot fd).pftable (process, other) = none) =
          rest.filter fun other => tables.pftable (process, other) = none := by
        refine List.filter_congr fun other member => ?_
        have different : other ≠ fd := fun same => notLater (same ▸ member)
        rw [FileTables.takeEnd_other different]
      obtain ⟨room, isRoom⟩ := Nat.exists_eq_add_of_lt takes.2
      have left : 2 - taken.length = room + 1 := by omega
      have leftLater : 2 - (taken ++ [fd]).length = room := by
        rw [List.length_append, List.length_singleton]
        omega
      rw [turn, inductionHypothesis distinctRest _ _ (by simp; omega), later, leftLater, left,
        List.filter_cons_of_pos (by simpa using takes.1), List.take_succ_cons, List.foldl_cons,
        List.append_assoc, List.singleton_append]
    · have turn : pipeTurn process slot (taken, tables) fd = (taken, tables) := if_neg takes
      rw [turn, inductionHypothesis distinctRest taken tables few]
      by_cases empty : tables.pftable (process, fd) = none
      · have full : 2 - taken.length = 0 := by grind
        rw [full, List.take_zero, List.take_zero]
      · rw [List.filter_cons_of_neg (by simpa using empty)]

/-- What `pipe` does with a free slot. -/
theorem pipe_eq (free : tables.freeSlot = some slot) :
    pipe tables process =
      match (tables.emptyDescriptors process).take 2 with
      | [readEnd, writeEnd] =>
        .ok (some (readEnd, writeEnd), tables.makePipe process slot readEnd writeEnd)
      | _ => .error (.panic "kfree") := by
  let marked := tables.store slot
    { tables.ftable slot with isPipe := true, accessPermission := oRdwr }
  have loop : (List.finRange nofile).foldl (pipeTurn process slot) ([], marked) =
      ((tables.emptyDescriptors process).take 2,
        ((tables.emptyDescriptors process).take 2).foldl
          (FileTables.takeEnd process slot) marked) :=
    pipeLoop_eq (List.finRange nofile) (List.nodup_finRange nofile) [] marked (Nat.zero_le 2)
  unfold pipe
  rw [free]
  dsimp only
  rw [loop]
  match (tables.emptyDescriptors process).take 2 with
  | [readEnd, writeEnd] =>
    have made : ((marked.takeEnd process slot readEnd).takeEnd process slot writeEnd).store slot
        { ((marked.takeEnd process slot readEnd).takeEnd process slot writeEnd).ftable slot with
          pipeBuffer := { (((marked.takeEnd process slot readEnd).takeEnd process slot
              writeEnd).ftable slot).pipeBuffer with
            readFd := readEnd, writeFd := writeEnd, head := 0, tail := 0, full := false,
            empty := true } } = tables.makePipe process slot readEnd writeEnd := by
      simp only [marked, FileTables.takeEnd, FileTables.store, FileTables.point,
        FileTables.makePipe, FileInfo.asPipe, Function.update_self, Function.update_idem, add_assoc]
      rfl
    exact congrArg (fun after => Except.ok (some (readEnd, writeEnd), after)) made
  | [] => rfl
  | [_] => rfl
  | _ :: _ :: _ :: _ => rfl

theorem FileTables.mem_emptyDescriptors {fd : Fin nofile} :
    fd ∈ tables.emptyDescriptors process ↔ tables.pftable (process, fd) = none := by
  simp [FileTables.emptyDescriptors]

/-- Two different empty descriptors, the first two. -/
theorem FileTables.empty_of_take {readEnd writeEnd : Fin nofile}
    (first : (tables.emptyDescriptors process).take 2 = [readEnd, writeEnd]) :
    readEnd ≠ writeEnd ∧ tables.pftable (process, readEnd) = none ∧
      tables.pftable (process, writeEnd) = none := by
  have distinct : ((tables.emptyDescriptors process).take 2).Nodup :=
    ((List.nodup_finRange nofile).filter _).sublist (List.take_sublist 2 _)
  have empty (fd : Fin nofile) (member : fd ∈ [readEnd, writeEnd]) :
      tables.pftable (process, fd) = none :=
    mem_emptyDescriptors.mp (List.mem_of_mem_take (first ▸ member))
  rw [first] at distinct
  refine ⟨?_, empty _ List.mem_cons_self, empty _ (List.mem_cons_of_mem _ List.mem_cons_self)⟩
  rintro rfl
  exact (List.nodup_cons.mp distinct).1 List.mem_cons_self

/-- What a successful `pipe` has done. -/
theorem pipe_eq_some {readEnd writeEnd : Fin nofile} {after : FileTables}
    (success : pipe tables process = .ok (some (readEnd, writeEnd), after)) :
    ∃ slot, tables.freeSlot = some slot ∧
      (tables.emptyDescriptors process).take 2 = [readEnd, writeEnd] ∧
      after = tables.makePipe process slot readEnd writeEnd := by
  cases free : tables.freeSlot with
  | none => grind [pipe]
  | some slot => grind [pipe_eq]

end Xk
