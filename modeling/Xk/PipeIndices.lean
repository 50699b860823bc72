/-
This file proves where the indices of a pipe lie. `head` and `tail` are counters of type `int` that
are never set back, and the place of a byte is their remainder by the size of the buffer, which has
the sign of the counter.

The tests for a full and for an empty pipe are right for ever, since the two counters wrap together.
The places are not: past `2 ^ 31` bytes the remainder is negative, but for one byte in every buffer.
-/

import Xk.PipeStreams

namespace Xk

open Transition

/-! ### What the calls ask of the indices -/

/-- An index of the buffer that lies in the array. -/
def InBuffer (index : Int) : Prop := 0 ≤ index.tmod pipeSize ∧ index.tmod pipeSize < pipeSize

/-- The number of bytes of a pipe that have not been read. -/
def CallSystem.unread (system : CallSystem) (slot : Fin nfile) : Int :=
  (system.history slot).stored.length - (system.history slot).delivered.length

/-- The place that the next read and the next write use lies in the array, and the two tests say
whether the pipe is empty and whether it is full. -/
structure CallSystem.IndicesSound (system : CallSystem) (slot : Fin nfile) : Prop where
  read : (system.pipeAt slot).head ≠ (system.pipeAt slot).tail →
    InBuffer (system.pipeAt slot).head
  write : ¬ (system.pipeAt slot).Full → InBuffer (system.pipeAt slot).tail
  full : (system.pipeAt slot).Full ↔ system.unread slot = pipeSize
  empty : (system.pipeAt slot).head = (system.pipeAt slot).tail ↔ system.unread slot = 0

/-- A number of bytes whose counter is not negative, or a whole number of buffers. -/
def Indexable (count : Nat) : Prop := count % 2 ^ 32 < 2 ^ 31 ∨ count % pipeSize = 0

theorem inBuffer_iff (index : Int) : InBuffer index ↔ pipePlace index ≠ none := by
  unfold pipePlace InBuffer
  split_ifs with inside
  · exact iff_of_true inside (Option.some_ne_none _)
  · exact iff_of_false inside (not_not.mpr rfl)

theorem inBuffer_wrapInt (count : Nat) : InBuffer (wrapInt count) ↔ Indexable count := by
  rw [inBuffer_iff, pipePlace_wrapInt, Indexable]
  split_ifs with small
  · exact iff_of_true (Option.some_ne_none _) small
  · exact iff_of_false (not_not.mpr rfl) small

/-- In every run, the indices of a pipe are sound as long as the number of bytes read has an index
in the array, or nothing is left to read, and the number of bytes written has one, or there is no
room. -/
theorem run_indicesSound_iff {fs : FileSystem} {actions : List CallAction} {final : CallSystem}
    (runs : run callStep (.initial fs) actions = some final) (slot : Fin nfile) :
    final.IndicesSound slot ↔
      (final.unread slot = 0 ∨ Indexable (final.history slot).delivered.length) ∧
        (final.unread slot = pipeSize ∨ Indexable (final.history slot).stored.length) := by
  have streams := (run_streamInvariant runs).2 slot
  have ordered := streams.fits.1
  have full : (final.pipeAt slot).Full ↔ final.unread slot = pipeSize := by
    rw [streams.full_iff, CallSystem.unread]
    omega
  have empty : (final.pipeAt slot).head = (final.pipeAt slot).tail ↔ final.unread slot = 0 := by
    rw [streams.empty_iff, CallSystem.unread]
    omega
  have head : InBuffer (final.pipeAt slot).head ↔ _ := streams.head ▸ inBuffer_wrapInt _
  have tail : InBuffer (final.pipeAt slot).tail ↔ _ := streams.tail ▸ inBuffer_wrapInt _
  constructor
  · intro sound
    exact ⟨or_iff_not_imp_left.mpr fun some => head.mp (sound.read (empty.not.mpr some)),
      or_iff_not_imp_left.mpr fun room => tail.mp (sound.write (full.not.mpr room))⟩
  · rintro ⟨delivered, stored⟩
    exact ⟨fun some => head.mpr (delivered.resolve_left (empty.not.mp some)),
      fun room => tail.mpr (stored.resolve_left (full.not.mp room)), full, empty⟩

/-- After two bytes have been written and one has been read. -/
theorem run_indicesSound_iff_oneRead : ∃ final, run callStep (.initial .blank)
      [.table (.pipe 0), .table (.fork 0 true), .filewrite 0 1 [5, 6], .turn 0, .turn 0, .turn 0,
        .fileread 1 0 1, .turn 1, .turn 1, .turn 1] = some final ∧
      (final.history 0).stored.length = 2 ∧ (final.history 0).delivered.length = 1 ∧
      final.IndicesSound 0 := by
  obtain ⟨final, runs, lengths⟩ := Option.map_eq_some_iff.mp (by decide +kernel :
    (run callStep (.initial .blank)
      [.table (.pipe 0), .table (.fork 0 true), .filewrite 0 1 [5, 6], .turn 0, .turn 0, .turn 0,
        .fileread 1 0 1, .turn 1, .turn 1, .turn 1]).map (fun final =>
          ((final.history 0).stored.length, (final.history 0).delivered.length)) = some (2, 1))
  obtain ⟨stored, delivered⟩ := Prod.mk.inj lengths
  refine ⟨final, runs, stored, delivered, (run_indicesSound_iff runs 0).mpr ?_⟩
  rw [stored, delivered]
  exact ⟨Or.inr (by unfold Indexable; decide), Or.inr (by unfold Indexable; decide)⟩

/-! ### A run that leaves the buffer -/

/-- One process can write to a pipe and read from it, and both counters stand at a number of
bytes. -/
structure Resting (system : CallSystem) (count : Nat) : Prop where
  awake : (system.tables.state 0).Awake
  idle : system.call 0 = .idle
  readEnd : system.tables.pftable (0, 0) = some 0
  writeEnd : system.tables.pftable (0, 1) = some 0
  isPipe : (system.tables.ftable 0).isPipe = true
  shared : (system.tables.ftable 0).ref ≠ 1
  readFd : (system.tables.ftable 0).pipeBuffer.readFd = 0
  free : system.holder 0 = none
  alive : system.killed 0 = false
  head : (system.tables.ftable 0).pipeBuffer.head = wrapInt count
  tail : (system.tables.ftable 0).pipeBuffer.tail = wrapInt count

/-- The process writes one byte and reads it. -/
def oneByte : List CallAction :=
  [.filewrite 0 1 [0], .turn 0, .turn 0, .fileread 0 0 1, .turn 0, .turn 0, .turn 0]

theorem Resting.oneByte {system : CallSystem} {count : Nat} (rests : Resting system count)
    (inArray : Indexable count) :
    ∃ next, run callStep system oneByte = some next ∧ Resting next (count + 1) := by
  have place : pipePlace (wrapInt count) = some (RingBuffer.place pipeSize count) :=
    (pipePlace_wrapInt count).trans (if_pos inArray)
  have notFull : ¬ (system.tables.ftable 0).pipeBuffer.Full := by
    rw [Pipe.Full, rests.head, rests.tail, sub_self]
    decide
  have moved : wrapInt count ≠ wrapInt (wrapInt count + 1) := by
    unfold wrapInt
    omega
  obtain ⟨awake, idle, readEnd, writeEnd, isPipe, shared, readFd, free, alive, head, tail⟩ := rests
  simp [Xk.oneByte, run, callStep, CallSystem.Ready, CallSystem.filewrite, CallSystem.fileread,
    CallSystem.turn, CallSystem.writeTurn, CallSystem.endWrite, CallSystem.readTurn,
    CallSystem.copyTurn, CallSystem.copyByte, CallSystem.endRead, CallSystem.storeByte,
    CallSystem.setCall, CallSystem.acquire, CallSystem.release, CallSystem.finish,
    CallSystem.wakeup, CallSystem.setPipe, CallSystem.setHistory, CallSystem.pipeAt,
    FileTables.store, awake, idle, readEnd, writeEnd, isPipe, shared, readFd, free, alive, head,
    tail, notFull, place, moved, PipeCall.slot, PipeCall.chan, Except.toOption]
  constructor <;> simp [awake, shared, readEnd, writeEnd, alive, wrapInt_succ]

theorem Resting.bytes {system : CallSystem} (rests : Resting system 0) {count : Nat}
    (few : count ≤ 2 ^ 31 + 1) :
    ∃ actions next, run callStep system actions = some next ∧ Resting next count := by
  induction count with
  | zero => exact ⟨[], system, rfl, rests⟩
  | succ count inductionHypothesis =>
    obtain ⟨actions, next, runs, rested⟩ := inductionHypothesis (by omega)
    have inArray : Indexable count := by
      unfold Indexable pipeSize
      omega
    obtain ⟨after, turns, rests⟩ := rested.oneByte inArray
    refine ⟨actions ++ Xk.oneByte, after, ?_, rests⟩
    rw [run_append, runs]
    exact turns

theorem sharedPipe_resting : Resting sharedPipe 0 := by
  constructor <;> decide +kernel

/-- A process that shares a pipe writes and reads one byte after another, `2 ^ 31 + 1` times. The
pipe has room for the next byte, at the place `-2047`. -/
theorem indices_outside : ∃ actions final, run callStep (.initial .blank) actions = some final ∧
    ¬ final.IndicesSound 0 := by
  obtain ⟨actions, final, runs, rests⟩ := sharedPipe_resting.bytes le_rfl
  refine ⟨[.table (.pipe 0), .table (.fork 0 true), .table (.fork 0 true)] ++ actions, final, ?_,
    fun sound => ?_⟩
  · rw [run_append, sharedPipe_run]
    exact runs
  · have room : ¬ (final.pipeAt 0).Full := by
      rw [Pipe.Full, CallSystem.pipeAt, rests.head, rests.tail, sub_self]
      decide
    have place := sound.write room
    rw [CallSystem.pipeAt, rests.tail, inBuffer_wrapInt] at place
    revert place
    unfold Indexable
    decide

end Xk
