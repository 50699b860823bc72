/-
This file proves what the bytes of a pipe do. Whatever the calls on it and their order, what has
been read is a prefix of what has been written, and the rest is in the buffer: a turn of a loop is
a step of a queue, and nothing else touches the buffer. The bytes of one write follow each other in
the pipe as long as nobody stores a byte while another write has stored some of its bytes and not
yet all; a write that fills the buffer gives up the lock in such a state.
-/

import Xk.PipeMoves
import Xk.RingBuffer

namespace Xk

open Transition

variable {process : Fin nproc} {byte : UInt8} {left : List UInt8}

/-! ### The buffer is a queue -/

/-- The indices of a pipe are the lengths of its streams, as words that wrap, and its buffer carries
them. -/
structure CallSystem.Streams (system : CallSystem) (slot : Fin nfile) : Prop where
  head : (system.pipeAt slot).head = wrapInt (system.history slot).delivered.length
  tail : (system.pipeAt slot).tail = wrapInt (system.history slot).stored.length
  carries : RingBuffer.Carries (system.pipeAt slot).buf
    ((system.history slot).stored.map Prod.snd) (system.history slot).delivered

/-- Every pipe is a queue. -/
def StreamInvariant (system : CallSystem) : Prop := ∀ slot, system.Streams slot

theorem pipePlace_of_residue {index : Int} {counter : Nat} (inside : 0 ≤ index.tmod pipeSize)
    (residue : (index.tmod pipeSize).toNat = counter % pipeSize) :
    pipePlace index = some (RingBuffer.place pipeSize counter) := by
  have bound := Nat.mod_lt counter (show 0 < pipeSize by decide)
  rw [pipePlace, dif_pos ⟨inside, by omega⟩]
  exact congrArg some (Fin.ext residue)

/-- The place that an index has, where it lies in the array, is that of the number of bytes: the size
of the buffer divides `2 ^ 32`. -/
theorem pipePlace_wrapInt (counter : Nat) :
    pipePlace (wrapInt counter) =
      if counter % 2 ^ 32 < 2 ^ 31 ∨ counter % pipeSize = 0 then
        some (RingBuffer.place pipeSize counter)
      else none := by
  by_cases small : counter % 2 ^ 32 < 2 ^ 31
  · have value : wrapInt counter = (counter % 2 ^ 32 : Nat) := by
      unfold wrapInt
      omega
    rw [if_pos (Or.inl small), pipePlace_of_residue] <;> rw [value, ← Int.ofNat_tmod]
    · exact Int.natCast_nonneg _
    · exact Nat.mod_mod_of_dvd counter (by decide)
  · have value : wrapInt counter = -((2 ^ 32 - counter % 2 ^ 32 : Nat) : Int) := by
      unfold wrapInt
      omega
    have residue : (wrapInt counter).tmod pipeSize =
        -(((2 ^ 32 - counter % 2 ^ 32) % pipeSize : Nat) : Int) := by
      rw [value, Int.neg_tmod, ← Int.ofNat_tmod]
    by_cases whole : counter % pipeSize = 0
    · rw [if_pos (Or.inr whole), pipePlace_of_residue] <;> rw [residue] <;> unfold pipeSize
        at * <;> omega
    · rw [if_neg (not_or.mpr ⟨small, whole⟩), pipePlace, dif_neg]
      rw [residue]
      unfold pipeSize at *
      omega

theorem pipePlace_eq {counter : Nat} {place : Fin pipeSize}
    (isPlace : pipePlace (wrapInt counter) = some place) :
    place = RingBuffer.place pipeSize counter := by
  rw [pipePlace_wrapInt] at isPlace
  split_ifs at isPlace
  exact (Option.some_inj.mp isPlace).symm

section Queue

variable {system next : CallSystem} {slot : Fin nfile}

theorem CallSystem.Streams.of_same (streams : system.Streams slot)
    (pipe : next.pipeAt slot = system.pipeAt slot)
    (stored : (next.history slot).stored = (system.history slot).stored)
    (delivered : (next.history slot).delivered = (system.history slot).delivered) :
    next.Streams slot :=
  ⟨by rw [pipe, delivered]; exact streams.head, by rw [pipe, stored]; exact streams.tail,
    by rw [pipe, stored, delivered]; exact streams.carries⟩

theorem wrapInt_succ (counter : Nat) : wrapInt (wrapInt counter + 1) = wrapInt
    (counter + 1 : Nat) := by
  unfold wrapInt
  omega

theorem pipeAt_setPipe_self (system : CallSystem) (slot : Fin nfile) (pipe : Pipe) :
    (system.setPipe slot pipe).pipeAt slot = pipe := by
  rw [CallSystem.pipeAt, CallSystem.setPipe, FileTables.store_ftable_self]

theorem pipeAt_setPipe_of_ne (system : CallSystem) {slot other : Fin nfile}
    (different : other ≠ slot) (pipe : Pipe) :
    (system.setPipe slot pipe).pipeAt other = system.pipeAt other :=
  congrArg FileInfo.pipeBuffer (Function.update_of_ne different _ _)

section Tests

variable (streams : system.Streams slot)
include streams

theorem CallSystem.Streams.fits :
    (system.history slot).delivered.length ≤ (system.history slot).stored.length ∧
      (system.history slot).stored.length - (system.history slot).delivered.length ≤ pipeSize := by
  have ordered := streams.carries.ordered
  have fits := streams.carries.fits
  rw [List.length_map] at ordered fits
  exact ⟨ordered, fits⟩

/-- The test for an empty pipe is right, however often the indices have wrapped. -/
theorem CallSystem.Streams.empty_iff :
    (system.pipeAt slot).head = (system.pipeAt slot).tail ↔
      (system.history slot).stored.length - (system.history slot).delivered.length = 0 := by
  obtain ⟨ordered, fits⟩ := streams.fits
  rw [streams.head, streams.tail]
  unfold wrapInt
  unfold pipeSize at fits
  omega

/-- So is the test for a full one. -/
theorem CallSystem.Streams.full_iff :
    (system.pipeAt slot).Full ↔
      (system.history slot).stored.length - (system.history slot).delivered.length = pipeSize := by
  obtain ⟨ordered, fits⟩ := streams.fits
  rw [Pipe.Full, streams.head, streams.tail]
  unfold wrapInt
  unfold pipeSize at *
  omega

/-- One byte leaves the pipe. -/
theorem CallSystem.Streams.copyByte
    (filled : (system.pipeAt slot).head ≠ (system.pipeAt slot).tail) {place : Fin pipeSize}
    (isPlace : pipePlace (system.pipeAt slot).head = some place) (process : Fin nproc)
    (bytesRead : Int) (bytes : List UInt8) :
    (system.copyByte process slot bytesRead bytes ((system.pipeAt slot).buf place)).Streams
      slot := by
  have less := streams.empty_iff.not.mp filled
  rw [streams.head] at isPlace
  obtain rfl := pipePlace_eq isPlace
  have isPipe := pipeAt_setPipe_self system slot
    { system.pipeAt slot with head := wrapInt ((system.pipeAt slot).head + 1) }
  have isHistory : (system.copyByte process slot bytesRead bytes ((system.pipeAt slot).buf
      (RingBuffer.place pipeSize (system.history slot).delivered.length))).history slot =
        { system.history slot with delivered := (system.history slot).delivered ++
          [(system.pipeAt slot).buf
            (RingBuffer.place pipeSize (system.history slot).delivered.length)] } :=
    Function.update_self slot _ _
  have popped := streams.carries.pop (by rw [List.length_map]; omega)
  refine ⟨?_, ?_, ?_⟩
  · rw [isHistory]
    show ((system.setPipe slot _).pipeAt slot).head = _
    rw [isPipe, streams.head, List.length_append, List.length_singleton]
    exact wrapInt_succ _
  · rw [isHistory]
    show ((system.setPipe slot _).pipeAt slot).tail = _
    rw [isPipe]
    exact streams.tail
  · rw [isHistory]
    show RingBuffer.Carries ((system.setPipe slot _).pipeAt slot).buf _ _
    rw [isPipe]
    exact popped

/-- One byte enters the pipe. -/
theorem CallSystem.Streams.storeByte (notFull : ¬ (system.pipeAt slot).Full)
    {place : Fin pipeSize} (isPlace : pipePlace (system.pipeAt slot).tail = some place)
    (process : Fin nproc) (write : PipeWrite) (byte : UInt8) (rest : List UInt8) :
    (system.storeByte process slot write byte rest place).Streams slot := by
  have room := lt_of_le_of_ne streams.fits.2 (streams.full_iff.not.mp notFull)
  rw [streams.tail] at isPlace
  obtain rfl := pipePlace_eq isPlace
  have isPipe := pipeAt_setPipe_self system slot { system.pipeAt slot with
    buf := Function.update (system.pipeAt slot).buf
      (RingBuffer.place pipeSize (system.history slot).stored.length) byte
    tail := wrapInt ((system.pipeAt slot).tail + 1) }
  have isHistory : (system.storeByte process slot write byte rest
      (RingBuffer.place pipeSize (system.history slot).stored.length)).history slot =
        { system.history slot with
          stored := (system.history slot).stored ++ [(write.number, byte)] } :=
    Function.update_self slot _ _
  have pushed := streams.carries.push (by rw [List.length_map]; exact room) byte
  refine ⟨?_, ?_, ?_⟩
  · rw [isHistory]
    show ((system.setPipe slot _).pipeAt slot).head = _
    rw [isPipe]
    exact streams.head
  · rw [isHistory]
    show ((system.setPipe slot _).pipeAt slot).tail = _
    rw [isPipe, streams.tail, List.length_append, List.length_singleton]
    exact wrapInt_succ _
  · rw [isHistory]
    show RingBuffer.Carries ((system.setPipe slot _).pipeAt slot).buf _ _
    rw [isPipe, List.map_append]
    rw [List.length_map] at pushed
    exact pushed

end Tests

section

variable (invariant : StreamInvariant system)
include invariant

theorem StreamInvariant.of_same (pipes : ∀ slot, next.pipeAt slot = system.pipeAt slot)
    (stored : ∀ slot, (next.history slot).stored = (system.history slot).stored)
    (delivered : ∀ slot, (next.history slot).delivered = (system.history slot).delivered) :
    StreamInvariant next := fun slot =>
  (invariant slot).of_same (pipes slot) (stored slot) (delivered slot)

theorem StreamInvariant.move (move : CallMove system process next) : StreamInvariant next := by
  cases move with
  | returned | beganRead | beganWrite | foundBytes | gaveUp | foundNone | sleptRead | resumedRead
  | dropped | endedRead | sleptWrite | brokenWrite | resumedWrite =>
    exact invariant.of_same (fun _ => rfl) (fun _ => rfl) fun _ => rfl
  | onInode _ slot =>
    exact invariant.of_same (system.tables.store_keeps FileInfo.pipeBuffer slot rfl)
      (fun _ => rfl) fun _ => rfl
  | endedWrite on =>
    refine invariant.of_same (fun _ => rfl) (fun slot => ?_) fun slot => ?_
    · show (Function.update system.history on _ slot).stored = _
      by_cases same : slot = on
      · rw [same, Function.update_self]
      · rw [Function.update_of_ne same]
    · show (Function.update system.history on _ slot).delivered = _
      by_cases same : slot = on
      · rw [same, Function.update_self]
      · rw [Function.update_of_ne same]
  | copied on bytesRead bytes isCall filled place isPlace =>
    intro slot
    by_cases same : slot = on
    · subst same
      exact (invariant slot).copyByte filled isPlace process bytesRead bytes
    · have isHistory : (system.copyByte process on bytesRead bytes
          ((system.pipeAt on).buf place)).history slot = system.history slot :=
        Function.update_of_ne same _ _
      exact (invariant slot).of_same (pipeAt_setPipe_of_ne system same _)
        (congrArg PipeHistory.stored isHistory) (congrArg PipeHistory.delivered isHistory)
  | stored on write byte rest isCall notFull _ place isPlace =>
    intro slot
    by_cases same : slot = on
    · subst same
      exact (invariant slot).storeByte notFull isPlace process write byte rest
    · have isHistory : (system.storeByte process on write byte rest place).history slot =
          system.history slot := Function.update_of_ne same _ _
      exact (invariant slot).of_same (pipeAt_setPipe_of_ne system same _)
        (congrArg PipeHistory.stored isHistory) (congrArg PipeHistory.delivered isHistory)

theorem StreamInvariant.table {action : FileAction} (counted : Counted system.tables)
    (frame : TableFrame system action next) :
    StreamInvariant next := by
  intro slot
  by_cases makes : action.Makes system.tables slot
  · obtain ⟨head, tail⟩ := frame.pipe_made makes
    have isHistory := frame.made slot makes
    refine ⟨?_, ?_, ?_⟩
    · rw [head, isHistory]
      rfl
    · rw [tail, isHistory]
      rfl
    · rw [isHistory]
      exact .empty _
  · have isHistory := frame.kept slot makes
    exact (invariant slot).of_same (frame.pipe_kept counted makes)
      (congrArg PipeHistory.stored isHistory) (congrArg PipeHistory.delivered isHistory)

theorem StreamInvariant.kill (process : Fin nproc) :
    StreamInvariant (system.kill process) := by
  unfold CallSystem.kill
  dsimp only
  split_ifs
  · exact invariant.of_same (fun _ => rfl) (fun _ => rfl) fun _ => rfl
  · exact invariant.of_same (fun _ => rfl) (fun _ => rfl) fun _ => rfl

end

theorem StreamInvariant.initial (fs : FileSystem) : StreamInvariant (.initial fs) := by
  have zero : (0 : Int) = wrapInt ((0 : Nat) : Int) := by decide
  exact fun _ => ⟨zero, zero, .empty _⟩

end Queue

/-- The calls and the streams along every run. -/
theorem run_streamInvariant {fs : FileSystem} {actions : List CallAction} {final : CallSystem}
    (runs : run callStep (.initial fs) actions = some final) :
    PipeCallInvariant final ∧ StreamInvariant final := by
  refine run_invariant (fun system => PipeCallInvariant system ∧ StreamInvariant system)
    (fun system action next taken good => ?_) runs ⟨.initial fs, .initial fs⟩
  refine ⟨good.1.step taken, ?_⟩
  rcases callStep_cases taken with ⟨_, _, _, tables⟩ | ⟨_, _, move, _⟩ | ⟨process, _, rfl⟩
  · exact good.2.table good.1.exact.counted (tableStep_frame tables)
  · exact good.2.move move
  · exact good.2.kill process

/-- A pipe is first in, first out: along every run, while fewer than `2 ^ 31` bytes have been
written to it since it was made, its indices are at most the size of the buffer apart, the bytes
read are a prefix of the bytes written, and the others are in the buffer from `head` to `tail`. -/
theorem run_pipeFifo {fs : FileSystem} {actions : List CallAction} {final : CallSystem}
    (runs : run callStep (.initial fs) actions = some final) (slot : Fin nfile)
    (few : (final.history slot).stored.length < 2 ^ 31) :
    (0 ≤ (final.pipeAt slot).tail - (final.pipeAt slot).head ∧
        (final.pipeAt slot).tail - (final.pipeAt slot).head ≤ pipeSize) ∧
      (final.history slot).delivered <+: (final.history slot).stored.map Prod.snd ∧
      (final.history slot).delivered ++
          RingBuffer.contents (final.pipeAt slot).buf (final.pipeAt slot).head.toNat
            (final.pipeAt slot).tail.toNat =
        (final.history slot).stored.map Prod.snd := by
  have streams := (run_streamInvariant runs).2 slot
  obtain ⟨ordered, fits⟩ := streams.fits
  have stream := streams.carries.stream
  rw [List.length_map] at stream
  have size : (pipeSize : Int) = 2048 := rfl
  rw [streams.head, streams.tail, wrapInt_of_lt _ (by omega) (by omega),
    wrapInt_of_lt _ (by omega) (by omega), Int.toNat_natCast, Int.toNat_natCast]
  exact ⟨⟨by omega, by omega⟩, streams.carries.begins, stream⟩

/-- A file system with nothing on its disk. -/
def FileSystem.blank : FileSystem :=
  ⟨⟨0, fun _ => 0, by decide⟩, ⟨fun _ => none, fun _ => none⟩, ⟨0, 0, 0, 0⟩, fun _ => .zero, .zero⟩

/-- A parent writes three bytes and its child reads two of them. -/
theorem run_pipeFifo_twoOfThree : ∃ final, run callStep (.initial .blank)
      [.table (.pipe 0), .table (.fork 0 true), .filewrite 0 1 [5, 6, 7], .turn 0, .turn 0, .turn 0,
        .turn 0, .fileread 1 0 2, .turn 1, .turn 1, .turn 1, .turn 1] = some final ∧
      (final.history 0).delivered = [5, 6] ∧ (final.history 0).stored.length = 3 ∧
      (final.history 0).delivered <+: (final.history 0).stored.map Prod.snd := by
  obtain ⟨final, runs, facts⟩ := Option.map_eq_some_iff.mp (by decide +kernel :
    (run callStep (.initial .blank)
      [.table (.pipe 0), .table (.fork 0 true), .filewrite 0 1 [5, 6, 7], .turn 0, .turn 0, .turn 0,
        .turn 0, .fileread 1 0 2, .turn 1, .turn 1, .turn 1, .turn 1]).map (fun final =>
          ((final.history 0).delivered, (final.history 0).stored.length)) = some ([5, 6], 3))
  obtain ⟨delivered, stored⟩ := Prod.mk.inj facts
  exact ⟨final, runs, delivered, stored,
    (run_pipeFifo runs 0 (by rw [stored]; decide)).2.1⟩

/-! ### The bytes of one write -/

/-- The write that a call is, with the bytes it has left. -/
def PipeCall.write : PipeCall → Option (Fin nfile × PipeWrite × List UInt8)
  | .writing slot write rest | .writeAsleep slot write rest => some (slot, write, rest)
  | _ => none

/-- The pipe that a call has a byte for. -/
def PipeCall.storesTo : PipeCall → Option (Fin nfile)
  | .writing slot _ (_ :: _) => some slot
  | _ => none

/-- The next turn of a process stores a byte in a pipe. -/
def CallSystem.StoresNext (system : CallSystem) (process : Fin nproc) (slot : Fin nfile) : Prop :=
  (system.call process).storesTo = some slot ∧ ¬ (system.pipeAt slot).Full ∧
    (system.tables.ftable slot).ref ≠ 1

/-- A process is not in the middle of a write on a pipe: it has stored no byte or all of them. -/
def CallSystem.NotMidway (system : CallSystem) (process : Fin nproc) (slot : Fin nfile) : Prop :=
  ∀ entry ∈ (system.call process).write, entry.1 = slot →
    entry.2.2 = entry.2.1.data ∨ entry.2.2 = []

/-- A step stores a byte only where no other process is in the middle of a write. -/
def Undisturbed (system : CallSystem) : CallAction → Prop
  | .turn process => ∀ slot, system.StoresNext process slot →
    ∀ other, other ≠ process → system.NotMidway other slot
  | _ => True

instance (system : CallSystem) (process : Fin nproc) (slot : Fin nfile) :
    Decidable (system.StoresNext process slot) :=
  inferInstanceAs (Decidable (_ ∧ _))

instance (system : CallSystem) (process : Fin nproc) (slot : Fin nfile) :
    Decidable (system.NotMidway process slot) :=
  inferInstanceAs (Decidable (∀ entry ∈ (system.call process).write, entry.1 = slot →
    entry.2.2 = entry.2.1.data ∨ entry.2.2 = []))

instance (system : CallSystem) : ∀ action, Decidable (Undisturbed system action)
  | .turn process => inferInstanceAs (Decidable (∀ slot, system.StoresNext process slot →
      ∀ other, other ≠ process → system.NotMidway other slot))
  | .table _ | .fileread _ _ _ | .filewrite _ _ _ | .filestat _ _ | .kill _ => .isTrue trivial

/-- The bytes of a write, as they are stored in a pipe. -/
def PipeWrite.bytes (write : PipeWrite) (data : List UInt8) : List (Nat × UInt8) :=
  data.map (Prod.mk write.number)

/-- What a write has stored stands at the end of the pipe until it stores the next byte, and what
the finished writes have stored stands somewhere in one piece. -/
structure WriteInvariant (system : CallSystem) : Prop where
  progress : ∀ process slot write rest, (system.call process).write = some (slot, write, rest) →
    ∃ done, write.data = done ++ rest ∧
      (done ≠ [] → ∃ before, (system.history slot).stored = before ++ write.bytes done)
  waits : ∀ process slot write rest, system.call process = .writeAsleep slot write rest → rest ≠ []
  finished : ∀ slot, ∀ write ∈ (system.history slot).finished,
    ∃ before after, (system.history slot).stored = before ++ write.bytes write.data ++ after

section Writes

variable {system next : CallSystem}

/-- A step that stores nothing and finishes no write, and after which the process is in no write
that it was not in before. -/
theorem WriteInvariant.of_same (invariant : WriteInvariant system)
    (calls : ∀ other, other ≠ process → next.call other = system.call other)
    (histories : ∀ slot, (next.history slot).stored = (system.history slot).stored ∧
      (next.history slot).finished = (system.history slot).finished)
    (own : ∀ slot write rest, (next.call process).write = some (slot, write, rest) →
      (system.call process).write = some (slot, write, rest) ∨ rest = write.data)
    (waits : ∀ slot write rest, next.call process = .writeAsleep slot write rest → rest ≠ []) :
    WriteInvariant next where
  progress other slot write rest isWrite := by
    rw [(histories slot).1]
    by_cases same : other = process
    · rw [same] at isWrite
      rcases own slot write rest isWrite with before | fresh
      · exact invariant.progress process slot write rest before
      · exact ⟨[], fresh.symm, fun nonempty => absurd rfl nonempty⟩
    · grind [WriteInvariant]
  waits other slot write rest isCall := by grind [WriteInvariant]
  finished slot write member := by grind [WriteInvariant]

/-- A write ends. -/
theorem WriteInvariant.endWrite (invariant : WriteInvariant system) {on : Fin nfile}
    {written : PipeWrite} (isCall : system.call process = .writing on written []) :
    WriteInvariant (system.endWrite process on written) := by
  have isStored : ∀ slot, ((system.endWrite process on written).history slot).stored =
      (system.history slot).stored := fun slot => by
    show (Function.update system.history on _ slot).stored = _
    by_cases same : slot = on
    · rw [same, Function.update_self]
    · rw [Function.update_of_ne same]
  have isIdle : (system.endWrite process on written).call process = .idle :=
    Function.update_self process _ _
  have calls : ∀ other, other ≠ process →
      (system.endWrite process on written).call other = system.call other :=
    fun _ different => Function.update_of_ne different _ _
  refine ⟨fun other slot write rest isWrite => ?_, fun other slot write rest isAsleep => ?_,
    fun slot write member => ?_⟩
  · rw [isStored slot]
    have different : other ≠ process := by
      rintro rfl
      rw [isIdle] at isWrite
      cases isWrite
    rw [calls other different] at isWrite
    exact invariant.progress other slot write rest isWrite
  · grind [WriteInvariant]
  · rw [isStored slot]
    change write ∈ (Function.update system.history on _ slot).finished at member
    by_cases same : slot = on
    · subst same
      rw [Function.update_self] at member
      rcases List.mem_append.mp member with old | new
      · exact invariant.finished slot write old
      · rw [List.mem_singleton.mp new]
        obtain ⟨done, isData, atEnd⟩ :=
          invariant.progress process slot written [] (by rw [isCall]; rfl)
        rw [List.append_nil] at isData
        subst isData
        by_cases empty : written.data = []
        · refine ⟨(system.history slot).stored, [], ?_⟩
          rw [empty, PipeWrite.bytes, List.map_nil, List.append_nil, List.append_nil]
        · obtain ⟨before, isBefore⟩ := atEnd empty
          exact ⟨before, [], by rw [List.append_nil]; exact isBefore⟩
    · grind [WriteInvariant]

theorem storeByte_call {on : Fin nfile} {written : PipeWrite} {place : Fin pipeSize} :
    (system.storeByte process on written byte left place).call =
      Function.update system.call process (.writing on written left) := rfl

theorem storeByte_history {on : Fin nfile} {written : PipeWrite} {place : Fin pipeSize} :
    (system.storeByte process on written byte left place).history =
      Function.update system.history on { system.history on with
        stored := (system.history on).stored ++ [(written.number, byte)] } := rfl

section

variable (invariant : WriteInvariant system)
include invariant

/-- A byte is stored where nobody else is in the middle of a write. -/
theorem WriteInvariant.storeByte (calls : PipeCallInvariant system) {on : Fin nfile}
    {written : PipeWrite} (isCall : system.call process = .writing on written (byte :: left))
    (place : Fin pipeSize) (undisturbed : ∀ other, other ≠ process → system.NotMidway other on) :
    WriteInvariant (system.storeByte process on written byte left place) := by
  refine ⟨fun other slot write rest isWrite => ?_, fun other slot write rest isAsleep => ?_,
    fun slot write member => ?_⟩
  · rw [storeByte_call] at isWrite
    rw [storeByte_history]
    by_cases same : other = process
    · rw [same, Function.update_self] at isWrite
      obtain ⟨rfl, isRest⟩ := Prod.mk.inj (Option.some_inj.mp isWrite)
      obtain ⟨rfl, rfl⟩ := Prod.mk.inj isRest
      rw [Function.update_self]
      obtain ⟨done, isData, atEnd⟩ :=
        invariant.progress process on written (byte :: left) (by rw [isCall]; rfl)
      refine ⟨done ++ [byte], by rw [isData, List.append_assoc]; rfl, fun _ => ?_⟩
      rw [PipeWrite.bytes, List.map_append]
      by_cases empty : done = []
      · grind
      · obtain ⟨before, isBefore⟩ := atEnd empty
        refine ⟨before, ?_⟩
        rw [← List.append_assoc]
        exact congrArg (· ++ [(written.number, byte)]) isBefore
    · rw [Function.update_of_ne same] at isWrite
      obtain ⟨done, isData, atEnd⟩ := invariant.progress other slot write rest isWrite
      refine ⟨done, isData, fun nonempty => ?_⟩
      by_cases isOn : slot = on
      · subst isOn
        -- the other process has no lock, so it sleeps with bytes left, and has stored none
        exfalso
        have left : rest ≠ [] := by
          cases isOther : system.call other with
          | writing otherSlot otherWrite otherRest =>
            rw [isOther] at isWrite
            obtain ⟨rfl, _⟩ := Prod.mk.inj (Option.some_inj.mp isWrite)
            have first := calls.held other otherSlot (by rw [isOther]; rfl)
            have second := calls.held process otherSlot (by rw [isCall]; rfl)
            exact absurd (Option.some_inj.mp (first.symm.trans second)) same
          | writeAsleep otherSlot otherWrite otherRest =>
            rw [isOther] at isWrite
            obtain ⟨_, isRest⟩ := Prod.mk.inj (Option.some_inj.mp isWrite)
            obtain ⟨_, rfl⟩ := Prod.mk.inj isRest
            exact invariant.waits other otherSlot otherWrite otherRest isOther
          | idle | reading | emptied | readAsleep | copying =>
            rw [isOther] at isWrite
            cases isWrite
        rcases undisturbed other same _ isWrite rfl with whole | none
        · simp_all
        · exact left none
      · grind
  · rw [storeByte_call] at isAsleep
    have different : other ≠ process := by grind
    rw [Function.update_of_ne different] at isAsleep
    exact invariant.waits other slot write rest isAsleep
  · rw [storeByte_history] at member ⊢
    by_cases isOn : slot = on
    · grind [WriteInvariant]
    · grind [WriteInvariant]

theorem WriteInvariant.move (calls : PipeCallInvariant system) (move : CallMove system process next)
    {action : CallAction} (isTurn : (system.call process).slot ≠ none → action = .turn process)
    (undisturbed : Undisturbed system action) : WriteInvariant next := by
  have same := move.frame.calls
  have ownCall : ∀ {call : PipeCall} {slot write rest},
      (Function.update system.call process call process).write = some (slot, write, rest) →
        call.write = some (slot, write, rest) := fun isWrite => by
    rw [Function.update_self] at isWrite
    exact isWrite
  have ownAsleep : ∀ {call : PipeCall} {slot write rest},
      Function.update system.call process call process = .writeAsleep slot write rest →
        call = .writeAsleep slot write rest := fun isAsleep => by
    rw [Function.update_self] at isAsleep
    exact isAsleep
  cases move with
  | returned | onInode | beganRead | foundBytes | gaveUp | foundNone | sleptRead | resumedRead
  | dropped | endedRead | brokenWrite =>
    exact invariant.of_same same (fun _ => ⟨rfl, rfl⟩)
      (fun _ _ _ isWrite => nomatch ownCall isWrite)
      (fun _ _ _ isAsleep => nomatch ownAsleep isAsleep)
  | copied on =>
    refine invariant.of_same same (fun slot => ?_) (fun _ _ _ isWrite => nomatch ownCall isWrite)
      (fun _ _ _ isAsleep => nomatch ownAsleep isAsleep)
    show (Function.update system.history on _ slot).stored = _ ∧
      (Function.update system.history on _ slot).finished = _
    by_cases isOn : slot = on
    · rw [isOn, Function.update_self]
      exact ⟨rfl, rfl⟩
    · rw [Function.update_of_ne isOn]
      exact ⟨rfl, rfl⟩
  | beganWrite _ _ on _ _ data =>
    refine invariant.of_same same (fun _ => ⟨rfl, rfl⟩) (fun slot write rest isWrite => ?_)
      (fun _ _ _ isAsleep => nomatch ownAsleep isAsleep)
    obtain ⟨_, isRest⟩ := Prod.mk.inj (Option.some_inj.mp (ownCall isWrite))
    obtain ⟨rfl, rfl⟩ := Prod.mk.inj isRest
    exact Or.inr rfl
  | sleptWrite on written left isCall nonempty =>
    refine invariant.of_same same (fun _ => ⟨rfl, rfl⟩) (fun slot write rest isWrite => ?_)
      (fun slot write rest isAsleep => ?_)
    · have isSame := ownCall isWrite
      left
      rw [isCall]
      exact isSame
    · obtain ⟨_, _, rfl⟩ := PipeCall.writeAsleep.inj (ownAsleep isAsleep)
      exact nonempty
  | resumedWrite on written left isCall =>
    refine invariant.of_same same (fun _ => ⟨rfl, rfl⟩) (fun slot write rest isWrite => ?_)
      (fun _ _ _ isAsleep => nomatch ownAsleep isAsleep)
    have isSame := ownCall isWrite
    left
    rw [isCall]
    exact isSame
  | endedWrite on written isCall => exact invariant.endWrite isCall
  | stored on written byte left isCall notFull shared place =>
    rw [isTurn (by rw [isCall]; exact Option.some_ne_none on)] at undisturbed
    exact invariant.storeByte calls isCall place
      (undisturbed on ⟨by rw [isCall]; rfl, notFull, shared⟩)

theorem WriteInvariant.table (calls : PipeCallInvariant system) {action : FileAction}
    (frame : TableFrame system action next) : WriteInvariant next := by
  refine ⟨fun process slot write rest isWrite => ?_, fun process slot write rest isAsleep => ?_,
    fun slot write member => ?_⟩
  · rw [frame.call] at isWrite
    have isOn : (system.call process).slot = some slot := by
      cases isCall : system.call process with
      | writing | writeAsleep =>
        rw [isCall] at isWrite
        exact congrArg some (Prod.mk.inj (Option.some_inj.mp isWrite)).1
      | idle | reading | emptied | readAsleep | copying =>
        rw [isCall] at isWrite
        cases isWrite
    rw [frame.kept slot (calls.not_makes isOn)]
    exact invariant.progress process slot write rest isWrite
  · rw [frame.call] at isAsleep
    exact invariant.waits process slot write rest isAsleep
  · by_cases makes : action.Makes system.tables slot
    · rw [frame.made slot makes] at member
      cases member
    · grind [TableFrame, WriteInvariant]

theorem WriteInvariant.kill (process : Fin nproc) :
    WriteInvariant (system.kill process) := by
  unfold CallSystem.kill
  dsimp only
  split_ifs
  · exact ⟨invariant.progress, invariant.waits, invariant.finished⟩
  · exact ⟨invariant.progress, invariant.waits, invariant.finished⟩

end

theorem WriteInvariant.initial (fs : FileSystem) : WriteInvariant (.initial fs) :=
  ⟨(fun _ _ _ _ isWrite => nomatch isWrite), (fun _ _ _ _ isAsleep => nomatch isAsleep),
    fun _ _ member => absurd member List.not_mem_nil⟩

end Writes

/-- Three processes share a pipe. -/
def sharedPipe : CallSystem :=
  (run callStep (.initial .blank) [.table (.pipe 0), .table (.fork 0 true),
    .table (.fork 0 true)]).getD (.initial .blank)

theorem sharedPipe_run : run callStep (.initial .blank) [.table (.pipe 0), .table (.fork 0 true),
    .table (.fork 0 true)] = some sharedPipe := by
  obtain ⟨system, runs⟩ := Option.isSome_iff_exists.mp (by decide +kernel :
    (run callStep (.initial .blank) [.table (.pipe 0), .table (.fork 0 true),
      .table (.fork 0 true)]).isSome = true)
  rw [sharedPipe, runs, Option.getD_some]

attribute [irreducible] sharedPipe

end Xk
