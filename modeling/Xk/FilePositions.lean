/-
This file asks what a read that fails does to the position of a file. `fileread` adds what
`concurrent_readi` returns to the offset of the slot before it looks at it, so an error, which is
`-1`, moves the position one byte back. A call that is turned down before it reads, because the slot
has no inode or is open for writing only, leaves the position alone.

It follows that an offset is negative after a failed read at the start of a file. The other way to a
negative offset is a read that brings it to `2 ^ 31`.
-/

import Xk.SlotHistory

namespace Xk

open Outcome Transition

/-! ### What a read returns -/

theorem wrapInt_lt (value : Int) : wrapInt value < 2 ^ 31 := by
  unfold wrapInt
  omega

/-- The offsets are values of an `int`. -/
def CallSystem.OffsetsInRange (system : CallSystem) : Prop :=
  ∀ slot, (system.tables.ftable slot).offset < 2 ^ 31

section Steps

variable {system next : CallSystem}

/-- An operation on the tables leaves an offset or resets it. -/
theorem TableFrame.offset {action : FileAction} (frame : TableFrame system action next)
    (counted : Counted system.tables) (slot : Fin nfile) :
    (next.tables.ftable slot).offset = (system.tables.ftable slot).offset ∨
      (next.tables.ftable slot).offset = 0 := by
  have taken := frame.taken
  unfold fileStep at taken
  split_ifs at taken with live
  cases action with
  | fileopen process inode mode =>
    rw [← Option.some_inj.mp taken]
    rcases fileopen_cases system.tables process inode mode with
      same | ⟨fd, found, iptr, -, -, opened⟩
    · exact .inl (by rw [same])
    · left
      rw [opened]
      refine system.tables.store_keeps FileInfo.offset found ?_ slot
      rfl
  | fileclose process fd =>
    cases points : system.tables.pftable (process, fd) with
    | none => exact .inl (by rw [fileclose_step_none points frame.taken])
    | some closed =>
      rw [counted.fileclose_step points frame.taken]
      by_cases isClosed : slot = closed
      · have atSlot : (system.tables.unpoint (process, fd) closed
            (system.tables.ftable closed).closed).ftable slot =
              (system.tables.ftable closed).closed := by
          rw [isClosed]
          exact Function.update_self closed _ _
        rw [atSlot, FileInfo.closed, isClosed]
        split_ifs
        · exact .inl rfl
        · exact .inr rfl
      · exact .inl (congrArg FileInfo.offset (Function.update_of_ne isClosed _ _))
  | filedup process fd =>
    rw [← Option.some_inj.mp taken]
    rcases filedup_cases system.tables process fd with same | ⟨new, found, -, -, dup⟩
    · exact .inl (by rw [same])
    · left
      rw [dup]
      refine system.tables.store_keeps FileInfo.offset found ?_ slot
      rfl
  | pipe process =>
    dsimp only at taken
    split at taken
    case h_2 => cases taken
    case h_1 ends opened success =>
      obtain ⟨readEnd, writeEnd⟩ := ends
      obtain ⟨made, -, -, isMade⟩ := pipe_eq_some success
      rw [← Option.some_inj.mp taken, isMade]
      left
      refine system.tables.store_keeps FileInfo.offset made ?_ slot
      rfl
  | fork process stack =>
    rw [← Option.some_inj.mp taken]
    exact .inl (forkFiles_field FileInfo.offset (fun _ => rfl) _ _ _ slot)
  | exit process => grind [exitFiles_of_closed, TableFrame]
  | wait process zombie => grind

/-- A `fileread` that reads its inode adds what it returns to the offset. -/
theorem callStep_reads {process : Fin nproc} {fd : Fin nofile} {bytesRead : Int} {slot : Fin nfile}
    {ip : Fin ninode} (taken : callStep system (.fileread process fd bytesRead) = some next)
    (points : system.tables.pftable (process, fd) = some slot)
    (notPipe : (system.tables.ftable slot).isPipe = false)
    (iptr : (system.tables.ftable slot).iptr = some ip)
    (readable : (system.tables.ftable slot).accessPermission ≠ oWronly) :
    ∃ locked result, locki system.fs ip = .ok locked ∧
      readi locked (locked.inode ip) (UInt32.ofInt (system.tables.ftable slot).offset)
        (UInt32.ofInt bytesRead) = .ok result ∧
      next.result process = some ⟨result.1, result.2, none⟩ ∧
      (next.tables.ftable slot).offset =
        wrapInt ((system.tables.ftable slot).offset + result.1) := by
  have isCall : callStep system ((FdCall.fileread bytesRead).action process fd) = some next := taken
  rw [callStep_onInode (callStep_ready isCall) points notPipe, Option.map_eq_some_iff] at isCall
  obtain ⟨outcome, called, rfl⟩ := isCall
  obtain ⟨⟨result, after⟩, isRead, isOutcome⟩ := ok_of_bind (ok_of_toOption called)
  cases isOutcome
  rw [filereadInode, iptr] at isRead
  dsimp only at isRead
  rw [if_neg readable] at isRead
  obtain ⟨⟨result, unlocked⟩, concurrent, isResult⟩ := ok_of_bind isRead
  cases isResult
  obtain ⟨locked, locks, inLock⟩ := ok_of_bind concurrent
  obtain ⟨_, reads, unlocks⟩ := ok_of_bind inLock
  obtain ⟨_, _, isResult⟩ := ok_of_bind unlocks
  cases isResult
  refine ⟨locked, result, locks, reads, Function.update_self _ _ _, ?_⟩
  exact congrArg FileInfo.offset (FileTables.store_ftable_self _ _ _)

/-- A call on a descriptor moves no offset, but for a `fileread` that reads its inode. -/
theorem callStep_call_offset {process : Fin nproc} {fd : Fin nofile} {call : FdCall}
    (taken : callStep system (call.action process fd) = some next) (slot : Fin nfile) :
    (next.tables.ftable slot).offset = (system.tables.ftable slot).offset ∨
      ∃ bytesRead ip, call = .fileread bytesRead ∧
        system.tables.pftable (process, fd) = some slot ∧
        (system.tables.ftable slot).isPipe = false ∧ (system.tables.ftable slot).iptr = some ip ∧
        (system.tables.ftable slot).accessPermission ≠ oWronly := by
  have ready := callStep_ready taken
  by_cases points : system.tables.pftable (process, fd) = some slot
  swap
  · exact .inl (congrArg FileInfo.offset (callStep_call_others taken points))
  cases isPipe : (system.tables.ftable slot).isPipe with
  | true => exact .inl (by rw [callStep_onPipe taken points isPipe])
  | false =>
    rw [callStep_onInode ready points isPipe, Option.map_eq_some_iff] at taken
    obtain ⟨⟨outcome, fs, offset⟩, called, rfl⟩ := taken
    replace called := ok_of_toOption called
    have stored : ((system.tables.store slot { system.tables.ftable slot with
        offset := offset }).ftable slot).offset = offset := by
      rw [FileTables.store_ftable_self]
    cases call with
    | fileread bytesRead =>
      obtain ⟨⟨result, after⟩, isRead, isOutcome⟩ := ok_of_bind called
      cases isOutcome
      unfold filereadInode at isRead
      split at isRead
      case h_1 =>
        cases isRead
        exact .inl stored
      case h_2 ip iptr =>
        split_ifs at isRead with writeOnly
        · cases isRead
          exact .inl stored
        · exact .inr ⟨bytesRead, ip, rfl, points, rfl, iptr, writeOnly⟩
    | filewrite data =>
      obtain ⟨⟨result, after⟩, -, isOutcome⟩ := ok_of_bind called
      cases isOutcome
      exact .inl stored
    | filestat =>
      unfold FdCall.onInode at called
      dsimp only at called
      split at called
      case h_1 =>
        cases called
        exact .inl stored
      case h_2 =>
        obtain ⟨⟨stat, stated⟩, -, isOutcome⟩ := ok_of_bind called
        cases isOutcome
        exact .inl stored

/-- What a step does to an offset: nothing, it resets it, or it is a `fileread` that adds what it
has read. -/
theorem callStep_offset (counted : Counted system.tables) {action : CallAction}
    (taken : callStep system action = some next) (slot : Fin nfile) :
    (next.tables.ftable slot).offset = (system.tables.ftable slot).offset ∨
      (next.tables.ftable slot).offset = 0 ∨
      ∃ process fd bytesRead ip, action = .fileread process fd bytesRead ∧
        system.tables.pftable (process, fd) = some slot ∧
        (system.tables.ftable slot).isPipe = false ∧ (system.tables.ftable slot).iptr = some ip ∧
        (system.tables.ftable slot).accessPermission ≠ oWronly := by
  have called (call : FdCall) (process : Fin nproc) (fd : Fin nofile)
      (taken : callStep system (call.action process fd) = some next) :=
    callStep_call_offset taken slot
  cases action with
  | table tableAction =>
    simp only [callStep] at taken
    split_ifs at taken
    exact ((tableStep_frame taken).offset counted slot).imp id .inl
  | fileread process fd bytesRead =>
    rcases called (.fileread bytesRead) process fd taken with same | ⟨_, ip, isCall, reads⟩
    · exact .inl same
    · grind
  | filewrite process fd data =>
    rcases called (.filewrite data) process fd taken with same | ⟨_, _, isCall, _⟩
    · exact .inl same
    · cases isCall
  | filestat process fd =>
    rcases called .filestat process fd taken with same | ⟨_, _, isCall, _⟩
    · exact .inl same
    · cases isCall
  | turn process => grind [callStep, turn_offset]
  | kill process =>
    rw [← Option.some_inj.mp taken, kill_ftable]
    exact .inl rfl

theorem CallSystem.OffsetsInRange.step (inRange : system.OffsetsInRange)
    (counted : Counted system.tables) {action : CallAction}
    (taken : callStep system action = some next) : next.OffsetsInRange := by
  intro slot
  rcases callStep_offset counted taken slot with
    same | reset | ⟨_, _, _, _, rfl, points, notPipe, iptr, readable⟩
  · rw [same]
    exact inRange slot
  · rw [reset]
    decide
  · obtain ⟨_, _, -, -, -, moved⟩ := callStep_reads taken points notPipe iptr readable
    rw [moved]
    exact wrapInt_lt _

end Steps

/-! ### Runs -/

end Xk
