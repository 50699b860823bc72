/-
This file models calls of `fileread` (`kernel/file.c`) on regular files by several processes at
once. The position in an open file is read, used and moved in separate steps, and the number of
bytes that `readi` has read goes through the variable `offset`, which all calls of all processes
share. The steps of a call are the accesses to the two, and `readi` under the lock of the inode.

Two calls are in each other's way in two places. One on the same slot of `ftable` that begins
before the other has moved the position reads the same bytes; and one on any slot that stores its
number before the other has returned makes the other move its position by it, and return it.
-/

import Xk.FileCursor
import Xk.Tiling
import Xk.Transition

namespace Xk

open Outcome Tiling Transition

/-! ### The calls -/

/-- What a call has read: the slot, the position it took from it, what `readi` returned, and the
bytes that it copied. -/
structure SlotRead where
  slot : Fin nfile
  off : Int
  value : Int
  bytes : List UInt8

/-- Where a process is in `fileread`, by what it has done last. -/
inductive FileReadCall
  | idle
  /-- It has read `f->offset`. -/
  | loaded (slot : Fin nfile) (off : Int) (bytesRead : Fin (2 ^ 31))
  /-- `concurrent_readi` has returned. -/
  | gotten (read : SlotRead)
  /-- It has stored what was returned in `offset`. -/
  | stored (read : SlotRead)
  /-- It has added `offset` to the position of the slot. -/
  | added (read : SlotRead)

/-- The file system, the tables, the variable `offset`, the calls, and as history what the calls
have read and returned. -/
structure ReadSystem where
  fs : FileSystem
  tables : FileTables
  offset : Int
  call : Fin nproc → FileReadCall
  log : List (SlotRead × Int)

namespace ReadSystem

variable (system : ReadSystem)

def setCall (process : Fin nproc) (call : FileReadCall) : ReadSystem :=
  { system with call := Function.update system.call process call }

/-- The position of a slot. -/
def position (slot : Fin nfile) : Int := (system.tables.ftable slot).offset

/-- `fileread(fd, buf, bytes_read)` up to the argument `f->offset` of `concurrent_readi`. A slot
without an inode and one that is open for writing only are refused. -/
def fileread (process : Fin nproc) (fd : Fin nofile) (bytesRead : Fin (2 ^ 31)) :
    Option ReadSystem :=
  match system.tables.pftable (process, fd) with
  | none => some system
  | some slot =>
    let file := system.tables.ftable slot
    if file.isPipe then none
    else if file.iptr = none ∨ file.accessPermission = oWronly then
      some { system with log := system.log ++ [(⟨slot, file.offset, -1, []⟩, -1)] }
    else some (system.setCall process (.loaded slot file.offset bytesRead))

/-- The next step of a call. There is none after a panic. -/
def turn (process : Fin nproc) : Option ReadSystem :=
  match system.call process with
  | .idle => none
  | .loaded slot off bytesRead =>
    match (system.tables.ftable slot).iptr with
    | none => none
    | some ip =>
      match concurrentReadi system.fs ip (UInt32.ofInt off) (UInt32.ofNat bytesRead) with
      | .error _ => none
      | .ok ((value, bytes), fs) =>
        some ({ system with fs := fs }.setCall process (.gotten ⟨slot, off, value, bytes⟩))
  | .gotten read => some ({ system with offset := read.value }.setCall process (.stored read))
  | .stored read =>
    let file := system.tables.ftable read.slot
    some ({ system with
      tables := system.tables.store read.slot
        { file with offset := wrapInt (file.offset + system.offset) } }.setCall process
          (.added read))
  | .added read =>
    some ({ system with log := system.log ++ [(read, system.offset)] }.setCall process .idle)

end ReadSystem

/-- A process calls `fileread`, or goes on with the call it is in. -/
inductive ReadAction
  | fileread (process : Fin nproc) (fd : Fin nofile) (bytesRead : Fin (2 ^ 31))
  | turn (process : Fin nproc)

/-- One step of one process. -/
def ReadSystem.step (system : ReadSystem) : ReadAction → Option ReadSystem
  | .fileread process fd bytesRead =>
    match system.call process with
    | .idle => system.fileread process fd bytesRead
    | _ => none
  | .turn process => system.turn process

/-! ### Calls that are not in each other's way -/

/-- The slot whose position a call has taken and not moved yet. -/
@[grind]
def FileReadCall.moves : FileReadCall → Option (Fin nfile)
  | .loaded slot _ _ => some slot
  | .gotten read | .stored read => some read.slot
  | _ => none

/-- The call has stored its number in `offset` and does not need it there any more only after it
has returned. -/
@[grind]
def FileReadCall.shares : FileReadCall → Bool
  | .stored _ | .added _ => true
  | _ => false

/-- The slot of a call. -/
def FileReadCall.slot : FileReadCall → Option (Fin nfile)
  | .idle => none
  | .loaded slot _ _ => some slot
  | .gotten read | .stored read | .added read => some read.slot

/-- A read begins inside of the file, or at its end, and its end is a position. -/
def ReadSystem.Within (system : ReadSystem) (ip : Fin ninode) (off : Int)
    (bytesRead : Fin (2 ^ 31)) : Prop :=
  0 ≤ off ∧ off + bytesRead < 2 ^ 31 ∧ ∀ locked, locki system.fs ip = .ok locked →
    (locked.inode ip).type ≠ tDev ∧ off ≤ (locked.inode ip).size.toNat

/-- A call that goes on reads inside of its file, and stores its number only while no other call
needs the one that is stored. -/
def ReadSystem.GoesOn (system : ReadSystem) : FileReadCall → Prop
  | .loaded slot off bytesRead => ∀ ip, (system.tables.ftable slot).iptr = some ip →
    system.Within ip off bytesRead
  | .gotten _ => ∀ other, (system.call other).shares = false
  | _ => True

/-- A call begins on a slot that is open for reading, and only while no other call is going to move
its position; and it goes on as it may. -/
def ReadSystem.Undisturbed (system : ReadSystem) : ReadAction → Prop
  | .fileread process fd _ => ∀ slot, system.tables.pftable (process, fd) = some slot →
    (system.tables.ftable slot).iptr ≠ none ∧
      (system.tables.ftable slot).accessPermission ≠ oWronly ∧
      ∀ other, (system.call other).moves ≠ some slot
  | .turn process => system.GoesOn (system.call process)

section Decidable

variable (system : ReadSystem)

instance (ip : Fin ninode) (off : Int) (bytesRead : Fin (2 ^ 31)) :
    Decidable (system.Within ip off bytesRead) :=
  haveI : Decidable (∀ locked, locki system.fs ip = .ok locked →
      (locked.inode ip).type ≠ tDev ∧ off ≤ (locked.inode ip).size.toNat) :=
    match locki system.fs ip with
    | .error _ => .isTrue nofun
    | .ok locked => decidable_of_iff
      ((locked.inode ip).type ≠ tDev ∧ off ≤ (locked.inode ip).size.toNat)
      ⟨fun inside _ same => Except.ok.inj same ▸ inside, fun all => all locked rfl⟩
  inferInstanceAs (Decidable (_ ∧ _ ∧ _))

instance : ∀ call, Decidable (system.GoesOn call)
  | .loaded _ _ _ => inferInstanceAs (Decidable (∀ ip, _ → system.Within ip _ _))
  | .gotten _ => inferInstanceAs (Decidable (∀ other, (system.call other).shares = false))
  | .idle | .stored _ | .added _ => .isTrue trivial

instance decidableUndisturbed : ∀ action, Decidable (system.Undisturbed action)
  | .fileread _ _ _ => inferInstanceAs (Decidable (∀ slot, _ → _ ∧ _ ∧ ∀ other,
      (system.call other).moves ≠ some slot))
  | .turn process => inferInstanceAs (Decidable (system.GoesOn (system.call process)))

end Decidable

/-! ### What `readi` reads -/

theorem readLoop_length {disk : Disk} {n : UInt32} {turns : Nat} {data : List Extent}
    {size off tot : UInt32} {bytes : List UInt8} (begun : tot ≤ n)
    (copied : readLoop disk n turns data size off tot = .ok bytes) :
    bytes.length = n.toNat - tot.toNat := by
  induction turns generalizing data size off tot bytes with
  | zero => cases copied
  | succ turns inductionHypothesis =>
    unfold readLoop at copied
    split_ifs at copied with more
    · split at copied
      · cases copied
      · split_ifs at copied with inside
        · obtain ⟨block, isBlock, copied⟩ := ok_of_bind copied
          obtain ⟨others, isOthers, copied⟩ := ok_of_bind copied
          rw [← Except.ok.inj copied]
          have blockSize : block.length = 512 := by
            unfold bread at isBlock
            split_ifs at isBlock
            rw [← Except.ok.inj isBlock, Bytes.load_length]
          have isRest : (n - tot).toNat = n.toNat - tot.toNat := UInt32.toNat_sub_of_le n tot begun
          have isMod : (size % 512).toNat = size.toNat % 512 := UInt32.toNat_mod size 512
          have isLeft : (512 - size % 512).toNat = 512 - size.toNat % 512 := by
            grind [UInt32.toNat_sub_of_le]
          have isMin : (min (n - tot) (512 - size % 512)).toNat =
              min (n.toNat - tot.toNat) (512 - size.toNat % 512) := by
            rw [UInt32.toNat_min, isRest, isLeft]
          have bound := n.toNat_lt
          have begunNat := UInt32.le_iff_toNat_le.mp begun
          have isNext : (tot + min (n - tot) (512 - size % 512)).toNat =
              tot.toNat + min (n.toNat - tot.toNat) (512 - size.toNat % 512) := by
            grind [toNat_add_of_lt]
          have later := inductionHypothesis (by
            rw [UInt32.le_iff_toNat_le, isNext]
            omega) isOthers
          rw [List.length_append, List.length_take, List.length_drop, later, isNext, blockSize,
            isMin, isMod]
          omega
        · exact inductionHypothesis begun copied
    · grind

/-- A read that begins inside of a regular file reads as many bytes as it should. -/
theorem ReadSystem.Within.value {system : ReadSystem} {ip : Fin ninode} {off : Int}
    {bytesRead : Fin (2 ^ 31)} (within : system.Within ip off bytesRead) {value : Int}
    {bytes : List UInt8} {fs : FileSystem}
    (reads : concurrentReadi system.fs ip (UInt32.ofInt off) (UInt32.ofNat bytesRead) =
      .ok ((value, bytes), fs)) : value = bytesRead ∧ bytes.length = bytesRead := by
  obtain ⟨low, high, inside⟩ := within
  obtain ⟨locked, isLocked, reads⟩ := ok_of_bind reads
  obtain ⟨result, isRead, reads⟩ := ok_of_bind reads
  obtain ⟨unlocked, -, returned⟩ := ok_of_bind reads
  obtain ⟨notDevice, before⟩ := inside locked isLocked
  obtain rfl : result = (value, bytes) := congrArg Prod.fst (Except.ok.inj returned)
  have small := bytesRead.isLt
  have isOff : (UInt32.ofInt off).toNat = off.toNat := by grind [toNat_ofInt]
  have isN : (UInt32.ofNat bytesRead).toNat = bytesRead := by
    rw [UInt32.toNat_ofNat']
    omega
  unfold readi at isRead
  rw [if_neg notDevice] at isRead
  split_ifs at isRead with unlocked refused
  · grind [UInt32.lt_iff_toNat_lt, toNat_add_of_lt]
  · obtain ⟨sought, -, copied⟩ := ok_of_bind isRead
    obtain ⟨others, isOthers, returned⟩ := ok_of_bind copied
    obtain ⟨isValue, isBytes⟩ := ok_pair returned
    refine ⟨?_, ?_⟩
    · grind [toInt_of_lt]
    · rw [← isBytes, readLoop_length (by rw [UInt32.le_iff_toNat_le]; exact Nat.zero_le _) isOthers,
        isN]
      rfl

/-! ### The invariant -/

/-- A read whose number is the number of its bytes, between two positions. -/
structure SlotRead.Fits (read : SlotRead) : Prop where
  off : 0 ≤ read.off
  value : read.value = read.bytes.length
  last : read.off + read.value < 2 ^ 31

/-- The ranges that calls on a slot have read and returned. -/
def ReadSystem.ranges (system : ReadSystem) (slot : Fin nfile) : List Range :=
  (system.log.filter fun entry => entry.1.slot = slot).map fun entry =>
    ⟨entry.1.off, entry.1.bytes.length⟩

/-- One call at most is going to move the position of a slot, and it has read from there; one call
at most needs `offset`, which has its number; and what has been read up to the position of a slot
is in ranges without a gap. -/
structure ReadSystem.Sound (start system : ReadSystem) : Prop where
  movers : ∀ process other slot, (system.call process).moves = some slot →
    (system.call other).moves = some slot → process = other
  sharers : ∀ process other, (system.call process).shares = true →
    (system.call other).shares = true → process = other
  loaded : ∀ process slot off bytesRead, system.call process = .loaded slot off bytesRead →
    off = system.position slot
  gotten : ∀ process read, system.call process = .gotten read ∨ system.call process = .stored read →
    read.Fits ∧ read.off = system.position read.slot
  stored : ∀ process read, system.call process = .stored read ∨ system.call process = .added read →
    read.value = system.offset
  added : ∀ process read, system.call process = .added read →
    read.Fits ∧ system.position read.slot = read.off + read.value ∧
      Tiles (start.position read.slot) (system.ranges read.slot) read.off
  settled : ∀ slot, (∀ process read, system.call process = .added read → read.slot ≠ slot) →
    Tiles (start.position slot) (system.ranges slot) (system.position slot)
  returned : ∀ entry ∈ system.log, entry.2 = entry.1.bytes.length

section Steps

variable {start system next : ReadSystem}

@[grind =]
theorem ReadSystem.setCall_call (system : ReadSystem) (process : Fin nproc) (call : FileReadCall)
    (other : Fin nproc) : (system.setCall process call).call other =
      if other = process then call else system.call other :=
  Function.update_apply system.call process call other

@[grind =]
theorem ReadSystem.setCall_position (system : ReadSystem) (process : Fin nproc)
    (call : FileReadCall)
    (slot : Fin nfile) : (system.setCall process call).position slot = system.position slot := rfl

@[grind =]
theorem ReadSystem.setCall_ranges (system : ReadSystem) (process : Fin nproc) (call : FileReadCall)
    (slot : Fin nfile) : (system.setCall process call).ranges slot = system.ranges slot := rfl

@[grind =]
theorem ReadSystem.setCall_offset (system : ReadSystem) (process : Fin nproc)
    (call : FileReadCall) :
    (system.setCall process call).offset = system.offset := rfl

section

variable (sound : start.Sound system)
include sound

/-- A call begins on a slot that no other call is going to move. -/
theorem ReadSystem.Sound.fileread {process : Fin nproc} {slot : Fin nfile}
    {bytesRead : Fin (2 ^ 31)} (isIdle : system.call process = .idle)
    (alone : ∀ other, (system.call other).moves ≠ some slot) :
    start.Sound (system.setCall process (.loaded slot (system.position slot) bytesRead)) := by
  obtain ⟨movers, sharers, loaded, gotten, stored, added, settled, returned⟩ := sound
  refine ⟨by grind, by grind, by grind, by grind, by grind, by grind, fun other noneAdded => ?_,
    returned⟩
  exact settled other fun adder read isAdded => noneAdded adder read (by grind)

/-- `concurrent_readi` returns. -/
theorem ReadSystem.Sound.readi {process : Fin nproc} {read : SlotRead} {bytesRead : Fin (2 ^ 31)}
    (isCall : system.call process = .loaded read.slot read.off bytesRead) (fits : read.Fits)
    (fs : FileSystem) :
    start.Sound ({ system with fs := fs }.setCall process (.gotten read)) := by
  obtain ⟨movers, sharers, loaded, gotten, stored, added, settled, returned⟩ := sound
  have same : ∀ slot, { system with fs := fs }.position slot = system.position slot := fun _ => rfl
  have sameRanges : ∀ slot, { system with fs := fs }.ranges slot = system.ranges slot :=
    fun _ => rfl
  refine ⟨by grind, by grind, by grind, by grind, by grind, by grind, fun other noneAdded => ?_,
    returned⟩
  exact settled other fun adder read isAdded => noneAdded adder read (by grind)

/-- The number goes into `offset`, which nobody needs. -/
theorem ReadSystem.Sound.store {process : Fin nproc} {read : SlotRead}
    (isCall : system.call process = .gotten read)
    (unused : ∀ other, (system.call other).shares = false) :
    start.Sound ({ system with offset := read.value }.setCall process (.stored read)) := by
  obtain ⟨movers, sharers, loaded, gotten, stored, added, settled, returned⟩ := sound
  have same : ∀ slot, { system with offset := read.value }.position slot = system.position slot :=
    fun _ => rfl
  have sameRanges : ∀ slot, { system with offset := read.value }.ranges slot = system.ranges slot :=
    fun _ => rfl
  refine ⟨by grind, by grind, by grind, by grind, by grind, by grind, fun other noneAdded => ?_,
    returned⟩
  exact settled other fun adder read isAdded => noneAdded adder read (by grind)

/-- The position of the slot moves by the number. -/
theorem ReadSystem.Sound.add {process : Fin nproc} {read : SlotRead}
    (isCall : system.call process = .stored read) :
    start.Sound ({ system with
      tables := system.tables.store read.slot { system.tables.ftable read.slot with
        offset := wrapInt (system.position read.slot + system.offset) } }.setCall process
          (.added read)) := by
  obtain ⟨movers, sharers, loaded, gotten, stored, added, settled, returned⟩ := sound
  obtain ⟨⟨low, value, high⟩, isOff⟩ := gotten process read (Or.inr isCall)
  have isOffset := stored process read (Or.inl isCall)
  set moved : ReadSystem := { system with
    tables := system.tables.store read.slot { system.tables.ftable read.slot with
      offset := wrapInt (system.position read.slot + system.offset) } } with isMoved
  have atSlot : moved.position read.slot = read.off + read.value := by
    show (Function.update system.tables.ftable read.slot _ read.slot).offset = _
    rw [Function.update_self, ← isOff, ← isOffset]
    exact wrapInt_of_lt _ (by omega) high
  have elsewhere : ∀ slot, slot ≠ read.slot → moved.position slot = system.position slot := by
    intro slot different
    show (Function.update system.tables.ftable read.slot _ slot).offset = _
    rw [Function.update_of_ne different]
    rfl
  have sameCall : ∀ other, moved.call other = system.call other := fun _ => rfl
  have sameOffset : moved.offset = system.offset := rfl
  have sameRanges : ∀ slot, moved.ranges slot = system.ranges slot := fun _ => rfl
  have tiles : Tiles (start.position read.slot) (system.ranges read.slot) read.off := by grind
  have sameLog : moved.log = system.log := rfl
  clear_value moved
  clear isMoved
  have keeps : ∀ other slot, other ≠ process → (system.call other).moves = some slot →
      moved.position slot = system.position slot := by
    grind
  refine ⟨by grind, by grind, fun other slot off bytesRead isLoaded => ?_,
    fun other moving isMoving => ?_, by grind, by grind, fun slot noneAdded => ?_, ?_⟩
  · grind
  · grind
  · have different : slot ≠ read.slot := fun same => noneAdded process read (by grind) same.symm
    rw [ReadSystem.setCall_ranges, ReadSystem.setCall_position, elsewhere slot different,
      sameRanges]
    exact settled slot fun adder added isAdded => noneAdded adder added (by grind)
  · rw [show (moved.setCall process (.added read)).log = system.log from sameLog]
    exact returned

/-- The call returns. -/
theorem ReadSystem.Sound.result {process : Fin nproc} {read : SlotRead}
    (isCall : system.call process = .added read) :
    start.Sound ({ system with log := system.log ++ [(read, system.offset)] }.setCall process
      .idle) := by
  obtain ⟨movers, sharers, loaded, gotten, stored, added, settled, returned⟩ := sound
  obtain ⟨fits, isPosition, tiles⟩ := added process read isCall
  have isOffset := stored process read (Or.inr isCall)
  set logged : ReadSystem := { system with log := system.log ++ [(read, system.offset)] }
    with isLogged
  have samePosition : ∀ slot, logged.position slot = system.position slot := fun _ => rfl
  have sameCall : ∀ other, logged.call other = system.call other := fun _ => rfl
  have sameOffset : logged.offset = system.offset := rfl
  have atSlot : Tiles (start.position read.slot) (logged.ranges read.slot)
      (read.off + read.value) := by
    rw [fits.value]
    have longer : logged.ranges read.slot = system.ranges read.slot ++
        [⟨read.off, read.bytes.length⟩] := by
      simp [isLogged, ReadSystem.ranges]
    rw [longer]
    exact tiles.concat _
  have elsewhere : ∀ slot, slot ≠ read.slot → logged.ranges slot = system.ranges slot := by
    grind [ReadSystem.ranges]
  have isLog : logged.log = system.log ++ [(read, system.offset)] := rfl
  clear_value logged
  clear isLogged
  have noneElse : ∀ other read, other ≠ process → system.call other ≠ .added read := by grind
  refine ⟨by grind, by grind, by grind, by grind, by grind, by grind, fun slot noneAdded => ?_,
    fun entry inLog => ?_⟩
  · grind
  · rw [show (logged.setCall process .idle).log = _ from isLog, List.mem_append,
      List.mem_singleton] at inLog
    rcases inLog with inLog | rfl
    · exact returned entry inLog
    · exact isOffset.symm.trans fits.value

/-- A step that disturbs no call keeps the invariant. -/
theorem ReadSystem.Sound.step {action : ReadAction} (taken : system.step action = some next)
    (undisturbed : system.Undisturbed action) :
    start.Sound next := by
  cases action with
  | fileread process fd bytesRead =>
    simp only [ReadSystem.step] at taken
    split at taken
    case h_2 => cases taken
    case h_1 isIdle =>
      unfold ReadSystem.fileread at taken
      split at taken
      case h_1 => exact Option.some_inj.mp taken ▸ sound
      case h_2 slot points =>
        obtain ⟨hasInode, readable, alone⟩ := undisturbed slot points
        dsimp only at taken
        rw [if_neg (not_or.mpr ⟨hasInode, readable⟩)] at taken
        split_ifs at taken
        rw [← Option.some_inj.mp taken]
        exact sound.fileread isIdle alone
  | turn process =>
    simp only [ReadSystem.step, ReadSystem.turn] at taken
    unfold ReadSystem.Undisturbed ReadSystem.GoesOn at undisturbed
    dsimp only at undisturbed
    cases isCall : system.call process with
    | idle => simp only [isCall, reduceCtorEq] at taken
    | loaded slot off bytesRead =>
      simp only [isCall] at taken undisturbed
      split at taken
      case h_1 => cases taken
      case h_2 ip isInode =>
        split at taken
        case h_1 => cases taken
        case h_2 value bytes fs reads =>
          rw [← Option.some_inj.mp taken]
          have within := undisturbed ip isInode
          obtain ⟨isValue, isLength⟩ := within.value reads
          refine sound.readi isCall ⟨within.1, ?_, ?_⟩ fs
          · rw [isValue, ← isLength]
          · rw [isValue]
            exact within.2.1
    | gotten read => grind [store]
    | stored read =>
      simp only [isCall, Option.some_inj] at taken
      rw [← taken]
      exact sound.add isCall
    | added read => grind [result]

end

theorem ReadSystem.Sound.initially (idle : ∀ process, start.call process = .idle)
    (fresh : start.log = []) : start.Sound start := by
  have none : ∀ {process call}, start.call process = call → call = .idle := fun isCall =>
    isCall.symm.trans (idle _)
  refine ⟨?_, ?_, ?_, ?_, ?_, ?_, fun slot _ => ?_, ?_⟩
  · grind
  · grind
  · grind
  · grind
  · grind
  · grind
  · rw [ReadSystem.ranges, fresh]
    rfl
  · rw [fresh]
    nofun

end Steps

/-! ### Every run -/

/-- The reads of a slot that have returned. -/
def ReadSystem.on (system : ReadSystem) (slot : Fin nfile) : List (SlotRead × Int) :=
  system.log.filter fun entry => entry.1.slot = slot

/-- The positions of the bytes that a read has delivered. -/
def SlotRead.positions (read : SlotRead) : Set Int :=
  Set.Ico read.off (read.off + read.bytes.length)

/-- In a run of calls that do not disturb each other every call returns the number of its bytes; and
where no call is left on a slot, its position has moved by the sum of what its calls returned, and
they have delivered different bytes and all up to it. -/
theorem run_filereads {start final : ReadSystem} {actions : List ReadAction}
    (idle : ∀ process, start.call process = .idle) (fresh : start.log = [])
    (runs : run ReadSystem.step start actions = some final)
    (respects : Respects ReadSystem.step ReadSystem.Undisturbed start actions) :
    (∀ entry ∈ final.log, entry.2 = entry.1.bytes.length) ∧
      ∀ slot, (∀ process, (final.call process).slot ≠ some slot) →
        final.position slot = start.position slot + ((final.on slot).map Prod.snd).sum ∧
        ((final.on slot).Pairwise fun left right =>
          Disjoint left.1.positions right.1.positions) ∧
        ∀ position, (∃ entry ∈ final.on slot, position ∈ entry.1.positions) ↔
          start.position slot ≤ position ∧ position < final.position slot := by
  have sound : start.Sound final := run_invariant_of_respects (start.Sound ·)
    (fun _ _ _ taken undisturbed sound => sound.step taken undisturbed) runs respects
    (.initially idle fresh)
  refine ⟨sound.returned, fun slot noCall => ?_⟩
  have tiles := sound.settled slot fun process read isAdded same => noCall process (by
    rw [isAdded, ← same]
    rfl)
  have isRanges : final.ranges slot = (final.on slot).map fun entry =>
    ⟨entry.1.off, entry.1.bytes.length⟩ := rfl
  rw [isRanges] at tiles
  refine ⟨?_, ?_, fun position => ?_⟩
  · rw [tiles.last_eq, List.map_map]
    congr 2
    refine List.map_congr_left fun entry inLog => ?_
    exact (sound.returned entry (List.mem_filter.mp inLog).1).symm
  · have disjoint := tiles.pairwise
    rw [List.pairwise_map] at disjoint
    exact disjoint
  · rw [← tiles.mem_iff]
    simp only [List.mem_map, exists_exists_and_eq_and]
    rfl

/-- Two processes, each with an open file of its own; both files are the same ten bytes. -/
def ReadSystem.twoFiles : ReadSystem where
  fs := ⟨⟨1, fun _ => 0, oneBlock_linked⟩, ⟨fun _ => none, fun _ => none⟩, ⟨0, 0, 0, 0⟩,
    fun _ => { Inode.zero with
      ref := 1, valid := true, type := tFile, size := 10, data := .single ⟨0, 1⟩ }, .zero⟩
  tables := { FileTables.initial with
    ftable := fun _ => { FileInfo.zero with ref := 1, iptr := some 0 }
    pftable := fun descriptor => if descriptor.1 = 0 then some 0 else some 1 }
  offset := 0
  call := fun _ => .idle
  log := []

/-- One process reads three bytes and then two. -/
theorem run_filereads_twice : ∃ final, run ReadSystem.step .twoFiles
    (.fileread 0 0 3 :: List.replicate 4 (.turn 0) ++ .fileread 0 0 2 ::
      List.replicate 4 (.turn 0)) = some final ∧ final.log.map Prod.snd = [3, 2] ∧
    (∀ entry ∈ final.log, entry.2 = entry.1.bytes.length) ∧
    ∀ position, (∃ entry ∈ final.on 0, position ∈ entry.1.positions) ↔
      0 ≤ position ∧ position < final.position 0 := by
  obtain ⟨final, runs, facts⟩ := Option.map_eq_some_iff.mp (by decide +kernel :
    (run ReadSystem.step .twoFiles (.fileread 0 0 3 :: List.replicate 4 (.turn 0) ++
      .fileread 0 0 2 :: List.replicate 4 (.turn 0))).map (fun final =>
        decide (final.log.map Prod.snd = [3, 2] ∧
          ∀ process, (final.call process).slot ≠ some 0)) = some true)
  obtain ⟨values, noCall⟩ := of_decide_eq_true facts
  have holds := run_filereads (fun _ => rfl) rfl runs (by decide +kernel)
  exact ⟨final, runs, values, holds.1, (holds.2 0 noCall).2.2⟩

/-- A process reads one byte and another one, of another open file, two: if the second stores its
number before the first has moved its position, the first returns two. -/
theorem filereads_shared_offset : ∃ final, run ReadSystem.step .twoFiles
    [.fileread 0 0 1, .turn 0, .turn 0, .fileread 1 0 2, .turn 1, .turn 1, .turn 0, .turn 0] =
      some final ∧ final.log.map (fun entry => (entry.1.bytes.length, entry.2)) = [(1, 2)] := by
  exact Option.map_eq_some_iff.mp (by decide +kernel : (run ReadSystem.step .twoFiles
    [.fileread 0 0 1, .turn 0, .turn 0, .fileread 1 0 2, .turn 1, .turn 1, .turn 0, .turn 0]).map
      (fun final => final.log.map fun entry => (entry.1.bytes.length, entry.2)) = some [(1, 2)])

end Xk
