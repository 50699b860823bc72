/-
This file compares the two disk drivers: `kernel/ide.c`, which queues the requests and is driven by
interrupts, and `kernel/memide.c`, which copies from and to memory at once.

A step is a section under `idelock`: the request of a process up to where it sleeps, the interrupt
handler, and what a process does when it is awake again. The controller executes the commands that
it is given without error, and raises one interrupt for each. Between requests a process that holds
the sleep lock of a buffer does with it what it likes.

The history is not part of the kernel's state: the requests in the order of their arrival, each with
its buffer as it was, and the buffers with which `iderw` has returned.
-/

import Xk.BufferCache
import Xk.FsFormat
import Xk.LinkedQueue
import Xk.Outcome
import Xk.Transition

namespace Xk

open LinkedQueue Outcome Transition

variable {disk : Nat → UInt8} {requests : List (Fin nbuf × Buf)} {b : Fin nbuf} {buf : Buf}

/-! ### The controller -/

/-- What `idestart` writes to the ports `0x1f2` to `0x1f6`. -/
structure IdeRegisters where
  count : Nat
  low : Nat
  mid : Nat
  high : Nat
  select : Nat

/-- The number of the sector that the controller takes from its registers. -/
def IdeRegisters.lba (registers : IdeRegisters) : Nat :=
  registers.low + 2 ^ 8 * registers.mid + 2 ^ 16 * registers.high +
    2 ^ 24 * (registers.select % 2 ^ 4)

/-- The drive that the controller takes from its registers. -/
def IdeRegisters.drive (registers : IdeRegisters) : Nat := registers.select / 2 ^ 4 % 2

/-- A command, with the data that was written to port `0x1f0`. -/
inductive IdeCommand
  | read (registers : IdeRegisters)
  | write (registers : IdeRegisters) (data : Block)

/-- The controller: it has no command, executes one, or has executed it and raised an interrupt,
with what can be read from port `0x1f0`. -/
inductive IdeDevice
  | ready
  | busy (command : IdeCommand)
  | done (command : IdeCommand) (data : Block)

/-- The command that the controller has been given last and whose interrupt is to come. -/
def IdeDevice.active : IdeDevice → Option IdeCommand
  | .ready => none
  | .busy command | .done command _ => some command

/-- The number of commands that have been executed and not been reported yet. -/
def IdeDevice.unreported : IdeDevice → Nat
  | .done _ _ => 1
  | _ => 0

/-- The second drive executes a command: its disk, and what it has read from it. -/
def IdeCommand.execute (disk : Nat → UInt8) : IdeCommand → Option ((Nat → UInt8) × Block)
  | .read registers =>
    if registers.drive = 1 then some (disk, readBlock disk (registers.lba * bsize)) else none
  | .write registers data =>
    if registers.drive = 1 then some (writeBlock disk (registers.lba * bsize) data, data) else none

/-! ### The driver -/

/-- The registers for a block, which has one sector. -/
def ideRegisters (dev sector : Nat) : IdeRegisters where
  count := 1
  low := sector &&& 0xff
  mid := (sector >>> 8) &&& 0xff
  high := (sector >>> 16) &&& 0xff
  select := 0xe0 ||| ((dev &&& 1) <<< 4) ||| ((sector >>> 24) &&& 0x0f)

/-- The command of `idestart(b)`. -/
def ideCommand (b : Buf) : IdeCommand :=
  let registers := ideRegisters b.dev.toNat b.blockno.toNat
  if b.dirty then .write registers b.data else .read registers

/-- The variables of the driver, the buffers, the controller with its second drive, who holds the
sleep locks of the buffers, and who waits in `iderw` for which buffer and with which request. -/
structure IdeSystem (Proc : Type) where
  havedisk1 : Bool
  idequeue : Option (Fin nbuf)
  qnext : Fin nbuf → Option (Fin nbuf)
  buf : Fin nbuf → Buf
  device : IdeDevice
  disk : Nat → UInt8
  owner : Fin nbuf → Option Proc
  waits : Proc → Option (Fin nbuf × Nat)
  log : List (Fin nbuf × Buf)
  returned : List (Nat × Buf)

namespace IdeSystem

variable {Proc : Type} [DecidableEq Proc] (system : IdeSystem Proc)

def setBuf (b : Fin nbuf) (buf : Buf) : IdeSystem Proc :=
  { system with buf := Function.update system.buf b buf }

/-- `idestart(b)`. It panics on a block behind the end of the disk, and waits for the controller. -/
def idestart (b : Fin nbuf) : Option (IdeSystem Proc) :=
  if fssize ≤ (system.buf b).blockno.toNat then none
  else
    match system.device with
    | .busy _ => none
    | _ => some { system with device := .busy (ideCommand (system.buf b)) }

/-- `iderw(b)` up to `sleep`. -/
def iderw (process : Proc) (b : Fin nbuf) : Option (IdeSystem Proc) :=
  let buf := system.buf b
  if buf.locked = false then none
  else if buf.valid = true ∧ buf.dirty = false then none
  else if buf.dev ≠ 0 ∧ system.havedisk1 = false then none
  else do
    let (idequeue, qnext) ← append system.qnext nbuf system.idequeue b
    let queued := { system with
      idequeue := idequeue
      qnext := qnext
      waits := Function.update system.waits process (some (b, system.log.length))
      log := system.log ++ [(b, buf)] }
    if idequeue = some b then queued.idestart b else some queued

/-- The turn of the loop in `iderw` after `sleep`: the process returns, or sleeps again. -/
def wake (process : Proc) : Option (IdeSystem Proc) :=
  match system.waits process with
  | none => none
  | some (b, request) =>
    if (system.buf b).valid = true ∧ (system.buf b).dirty = false then
      some { system with
        waits := Function.update system.waits process none
        returned := system.returned ++ [(request, system.buf b)] }
    else some system

/-- `ideintr()`. -/
def ideintr : Option (IdeSystem Proc) :=
  match system.device with
  | .done _ data =>
    match system.idequeue with
    | none => some { system with device := .ready }
    | some b =>
      let buf := system.buf b
      let served := { system.setBuf b { buf with
          data := if buf.dirty then buf.data else data, valid := true, dirty := false } with
        idequeue := system.qnext b
        device := .ready }
      match system.qnext b with
      | none => some served
      | some following => served.idestart following
  | _ => none

end IdeSystem

/-- What can happen next. -/
inductive IdeAction (Proc : Type)
  | acquiresleep (process : Proc) (b : Fin nbuf)
  | releasesleep (process : Proc) (b : Fin nbuf)
  | change (process : Proc) (b : Fin nbuf) (buf : Buf)
  | iderw (process : Proc) (b : Fin nbuf)
  | wake (process : Proc)
  | execute
  | ideintr

/-- The process holds the sleep lock of the buffer and is not in `iderw`. -/
def IdeSystem.Uses {Proc : Type} (system : IdeSystem Proc) (process : Proc) (b : Fin nbuf) : Prop :=
  system.owner b = some process ∧ system.waits process = none

instance {Proc : Type} [DecidableEq Proc] (system : IdeSystem Proc) (process : Proc)
    (b : Fin nbuf) : Decidable (system.Uses process b) := inferInstanceAs (Decidable (_ ∧ _))

/-- One step. After a panic there is no next state. -/
def IdeSystem.step {Proc : Type} [DecidableEq Proc] (system : IdeSystem Proc) :
    IdeAction Proc → Option (IdeSystem Proc)
  | .acquiresleep process b =>
    if system.owner b = none ∧ system.waits process = none then
      some { system.setBuf b { system.buf b with locked := true } with
        owner := Function.update system.owner b (some process) }
    else none
  | .releasesleep process b =>
    if system.Uses process b then
      some { system.setBuf b { system.buf b with locked := false } with
        owner := Function.update system.owner b none }
    else none
  | .change process b buf =>
    if system.Uses process b then some (system.setBuf b { buf with locked := true }) else none
  | .iderw process b => if system.Uses process b then system.iderw process b else none
  | .wake process => system.wake process
  | .execute =>
    match system.device with
    | .busy command => do
      let (disk, data) ← command.execute system.disk
      some { system with disk := disk, device := .done command data }
    | _ => none
  | .ideintr => system.ideintr

/-- Nothing is requested yet, and no sleep lock is held. -/
structure IdeSystem.Fresh {Proc : Type} (system : IdeSystem Proc) : Prop where
  idequeue : system.idequeue = none
  device : system.device = .ready
  owner : ∀ b, system.owner b = none
  waits : ∀ process, system.waits process = none
  log : system.log = []
  returned : system.returned = []

/-- A request is for a block of the file system on device 1. -/
def IdeSystem.Proper {Proc : Type} (system : IdeSystem Proc) : IdeAction Proc → Prop
  | .iderw _ b => (system.buf b).dev = 1 ∧ (system.buf b).blockno.toNat < fssize
  | _ => True

/-! ### The driver in memory -/

/-- The image of the file system in memory. -/
def fsImage (original : Nat → UInt8) : DiskImage := ⟨fssize, original, fssize_linked⟩

/-- `iderw(b)` of `memide.c` on a disk: the disk and the buffer after it. -/
def memServe (disk : Nat → UInt8) (b : Fin nbuf) (buf : Buf) :
    Except Halt ((Nat → UInt8) × Buf) := do
  let cache ← iderw (fsImage disk) { binit (fsImage disk) with buf := fun _ => buf } b
  return (cache.memdisk, cache.buf b)

/-- The requests one at a time: the disk at the end, and the buffers. -/
def memRun : (Nat → UInt8) → List (Fin nbuf × Buf) → Except Halt ((Nat → UInt8) × List Buf)
  | disk, [] => .ok (disk, [])
  | disk, (b, buf) :: rest => do
    let (disk, result) ← memServe disk b buf
    let (disk, results) ← memRun disk rest
    return (disk, result :: results)

/-! ### One request in both drivers -/

/-- A buffer that a request can be for. -/
structure Buf.Requested (buf : Buf) : Prop where
  locked : buf.locked = true
  needed : ¬ (buf.valid = true ∧ buf.dirty = false)
  dev : buf.dev = 1
  blockno : buf.blockno.toNat < fssize

/-- The disk after a request for the buffer. -/
def Buf.store (buf : Buf) (disk : Nat → UInt8) : Nat → UInt8 :=
  if buf.dirty then writeBlock disk (buf.blockno.toNat * bsize) buf.data else disk

/-- The buffer after a request for it. -/
def Buf.serve (buf : Buf) (disk : Nat → UInt8) : Buf :=
  { buf with
    data := if buf.dirty then buf.data else readBlock disk (buf.blockno.toNat * bsize)
    valid := true
    dirty := false }

section Request

variable {buf : Buf} (requested : buf.Requested) (disk : Nat → UInt8)

theorem ideRegisters_lba (dev : Nat) {sector : Nat} (inRange : sector < 2 ^ 28) :
    (ideRegisters dev sector).lba = sector := by
  have low : sector &&& 0xff = sector % 2 ^ 8 := Nat.and_two_pow_sub_one_eq_mod sector 8
  have mid : (sector >>> 8) &&& 0xff = sector / 2 ^ 8 % 2 ^ 8 := by
    rw [Nat.shiftRight_eq_div_pow]
    exact Nat.and_two_pow_sub_one_eq_mod _ 8
  have high : (sector >>> 16) &&& 0xff = sector / 2 ^ 16 % 2 ^ 8 := by
    rw [Nat.shiftRight_eq_div_pow]
    exact Nat.and_two_pow_sub_one_eq_mod _ 8
  have top : (sector >>> 24) &&& 0x0f = sector / 2 ^ 24 % 2 ^ 4 := by
    rw [Nat.shiftRight_eq_div_pow]
    exact Nat.and_two_pow_sub_one_eq_mod _ 4
  have select : (0xe0 ||| ((dev &&& 1) <<< 4) ||| ((sector >>> 24) &&& 0x0f)) % 2 ^ 4 =
      sector / 2 ^ 24 % 2 ^ 4 := by
    rw [Nat.or_mod_two_pow, Nat.or_mod_two_pow, top, Nat.shiftLeft_eq, Nat.mul_mod_left,
      Nat.mod_mod, show 0xe0 % 2 ^ 4 = 0 from rfl, Nat.zero_or, Nat.zero_or]
  rw [IdeRegisters.lba, ideRegisters]
  dsimp only
  rw [low, mid, high, select]
  omega

theorem ideRegisters_drive (sector : Nat) : (ideRegisters 1 sector).drive = 1 := by
  have small : (sector >>> 24) &&& 0x0f < 2 ^ 4 := Nat.lt_of_le_of_lt Nat.and_le_right (by decide)
  rw [IdeRegisters.drive, ideRegisters]
  dsimp only
  rw [← Nat.shiftRight_eq_div_pow, Nat.shiftRight_or_distrib,
    Nat.shiftRight_eq_div_pow ((sector >>> 24) &&& 0x0f), Nat.div_eq_of_lt small]
  rfl

include requested

theorem blockOffset_eq : blockOffset buf.blockno = buf.blockno.toNat * bsize := by
  have inRange := requested.blockno
  rw [blockOffset, UInt32.toNat_mul]
  refine Nat.mod_eq_of_lt ?_
  show buf.blockno.toNat * 512 < 2 ^ 32
  unfold fssize at inRange
  omega

theorem memServe_eq (b : Fin nbuf) :
    memServe disk b buf = .ok (buf.store disk, buf.serve disk) := by
  have inRange : ¬ (fsImage disk).disksize ≤ buf.blockno.toNat := Nat.not_le.mpr requested.blockno
  have isLocked : ¬ buf.locked = false := by
    rw [requested.locked]
    nofun
  have onDisk1 : ¬ buf.dev ≠ 1 := not_not.mpr requested.dev
  unfold memServe Xk.iderw Buf.store Buf.serve
  dsimp only
  rw [if_neg isLocked, if_neg requested.needed, if_neg onDisk1, if_neg inRange,
    blockOffset_eq requested]
  cases isDirty : buf.dirty with
  | true =>
    refine congrArg Except.ok (Prod.ext rfl ?_)
    exact (Function.update_self b _ _).trans (by simp)
  | false =>
    refine congrArg Except.ok (Prod.ext rfl ?_)
    exact (Function.update_self b _ _).trans (by simp [fsImage, binit])

theorem execute_eq : ∃ data, (ideCommand buf).execute disk = some (buf.store disk, data) ∧
    { buf with
      data := if buf.dirty then buf.data else data, valid := true, dirty := false } =
        buf.serve disk := by
  have inRange := requested.blockno
  have isLba : (ideRegisters buf.dev.toNat buf.blockno.toNat).lba = buf.blockno.toNat :=
    ideRegisters_lba _ (by unfold fssize at inRange; omega)
  have isDrive : (ideRegisters buf.dev.toNat buf.blockno.toNat).drive = 1 := by
    rw [requested.dev]
    exact ideRegisters_drive _
  unfold ideCommand Buf.store Buf.serve
  cases isDirty : buf.dirty with
  | true =>
    refine ⟨buf.data, ?_, ?_⟩
    · simp [IdeCommand.execute, isDrive, isLba]
    · simp
  | false => grind [IdeCommand.execute]

end Request

/-- The requests one at a time, and one more. -/
theorem memRun_concat {middle : Nat → UInt8} {results : List Buf}
    (runs : memRun disk requests = .ok (middle, results)) (requested : buf.Requested) :
    memRun disk (requests ++ [(b, buf)]) =
      .ok (buf.store middle, results ++ [buf.serve middle]) := by
  induction requests generalizing disk results with
  | nil =>
    obtain ⟨rfl, rfl⟩ := ok_pair runs
    simp [memRun, memServe_eq requested]
    rfl
  | cons request rest inductionHypothesis =>
    obtain ⟨first, buffer⟩ := request
    obtain ⟨⟨next, result⟩, serves, runs⟩ := ok_of_bind runs
    obtain ⟨⟨last, later⟩, runsRest, returned⟩ := ok_of_bind runs
    obtain ⟨rfl, rfl⟩ := ok_pair returned
    rw [List.cons_append, memRun, serves, ok_bind]
    dsimp only
    rw [inductionHypothesis runsRest]
    rfl

/-- A request of the driver in memory leaves its buffer valid and not dirty. -/
theorem memServe_done {after : Nat → UInt8} {result : Buf}
    (serves : memServe disk b buf = .ok (after, result)) :
    result.valid = true ∧ result.dirty = false := by
  obtain ⟨cache, moves, returned⟩ := ok_of_bind serves
  obtain ⟨-, rfl⟩ := ok_pair returned
  unfold Xk.iderw at moves
  dsimp only at moves
  split_ifs at moves with _ _ _ _ isDirty
  · rw [← Except.ok.inj moves]
    simp [Bcache.setBuf]
  · rw [← Except.ok.inj moves]
    simpa [Bcache.setBuf] using isDirty

theorem memRun_done {final : Nat → UInt8} {results : List Buf}
    (runs : memRun disk requests = .ok (final, results)) :
    results.length = requests.length ∧
      ∀ result ∈ results, result.valid = true ∧ result.dirty = false := by
  induction requests generalizing disk final results with
  | nil =>
    obtain ⟨-, rfl⟩ := ok_pair runs
    exact ⟨rfl, List.forall_mem_nil _⟩
  | cons request rest inductionHypothesis =>
    obtain ⟨first, buffer⟩ := request
    obtain ⟨⟨next, result⟩, serves, runs⟩ := ok_of_bind runs
    obtain ⟨⟨last, later⟩, runsRest, returned⟩ := ok_of_bind runs
    obtain ⟨-, rfl⟩ := ok_pair returned
    obtain ⟨sameLength, done⟩ := inductionHypothesis runsRest
    rw [List.length_cons, List.length_cons, sameLength, List.forall_mem_cons]
    exact ⟨rfl, memServe_done serves, done⟩

/-! ### The invariant -/

/-- The state of the driver, with the queue, the requests that have been served, and the disk and
the buffers that the driver in memory has after them. -/
structure IdeSystem.Sound {Proc : Type} (start : Nat → UInt8) (system : IdeSystem Proc)
    (queue : List (Fin nbuf)) (served : List (Fin nbuf × Buf)) (disk : Nat → UInt8)
    (results : List Buf) : Prop where
  linked : Linked system.qnext system.idequeue queue
  nodup : queue.Nodup
  requested : ∀ b ∈ queue, (system.buf b).Requested
  log : system.log = served ++ queue.map fun b => (b, system.buf b)
  memory : memRun start served = .ok (disk, results)
  idle : queue = [] → system.device = .ready ∧ system.disk = disk
  active : ∀ b rest, queue = b :: rest →
    system.device = .busy (ideCommand (system.buf b)) ∧ system.disk = disk ∨
      ∃ data, system.device = .done (ideCommand (system.buf b)) data ∧
        (ideCommand (system.buf b)).execute disk = some (system.disk, data)
  locked : ∀ b process, system.owner b = some process → (system.buf b).locked = true
  owned : ∀ process b request, system.waits process = some (b, request) →
    system.owner b = some process
  waiting : ∀ process b request, system.waits process = some (b, request) → b ∉ queue →
    results[request]? = some (system.buf b)
  queued : ∀ b ∈ queue, ∃ process request, system.waits process = some (b, request)
  numbered : ∀ process b request index, system.waits process = some (b, request) →
    queue[index]? = some b → request = served.length + index
  returned : ∀ entry ∈ system.returned, results[entry.1]? = some entry.2 ∧
    entry.2.valid = true ∧ entry.2.dirty = false

namespace IdeSystem.Sound

variable {Proc : Type} {start disk : Nat → UInt8} {system next : IdeSystem Proc}
  {queue : List (Fin nbuf)} {served : List (Fin nbuf × Buf)} {results : List Buf}

section

variable (sound : system.Sound start queue served disk results)
include sound

theorem not_queued (unused : ∀ process request, system.waits process ≠ some (b, request)) :
    b ∉ queue :=
  fun inQueue => by
    grind [IdeSystem.Sound]

/-- Nobody waits for a buffer that a process uses. -/
theorem unused {process : Proc} (uses : system.Uses process b) (other : Proc) (request : Nat) :
    system.waits other ≠ some (b, request) := fun isWaiting => by
  have isOwner := sound.owned other b request isWaiting
  obtain rfl : process = other := Option.some_inj.mp (uses.1.symm.trans isOwner)
  exact nomatch uses.2.symm.trans isWaiting

/-- A buffer that nobody waits for, and its sleep lock, change. -/
theorem setBuf (unused : ∀ process request, system.waits process ≠ some (b, request))
    {owner : Option Proc} (isLocked : ∀ process, owner = some process → buf.locked = true) :
    { system.setBuf b buf with owner := Function.update system.owner b owner }.Sound
      start queue served disk results := by
  have absent := sound.not_queued unused
  have inQueue : ∀ other ∈ queue, Function.update system.buf b buf other = system.buf other :=
    fun other isIn => Function.update_of_ne (fun isB : other = b => absent (isB ▸ isIn)) _ _
  have waited : ∀ {process other request}, system.waits process = some (other, request) →
      other ≠ b := fun isWaiting isB => unused _ _ (isB ▸ isWaiting)
  refine ⟨sound.linked, sound.nodup, fun other isIn => ?_, ?_, sound.memory, sound.idle,
    fun other rest isQueue => ?_, fun other process isOwner => ?_,
    fun process other request isWaiting => ?_, fun process other request isWaiting absent => ?_,
    sound.queued, sound.numbered, sound.returned⟩
  · show (Function.update system.buf b buf other).Requested
    rw [inQueue other isIn]
    exact sound.requested other isIn
  · refine sound.log.trans (congrArg (served ++ ·) (List.map_congr_left fun other isIn => ?_))
    exact congrArg (other, ·) (inQueue other isIn).symm
  · have isIn : other ∈ queue := isQueue ▸ List.mem_cons_self
    have isActive := sound.active other rest isQueue
    rw [← inQueue other isIn] at isActive
    exact isActive
  · show (Function.update system.buf b buf other).locked = true
    change Function.update system.owner b owner other = some process at isOwner
    by_cases isB : other = b
    · grind
    · grind [IdeSystem.Sound]
  · exact (Function.update_of_ne (waited isWaiting) _ _).trans
      (sound.owned process other request isWaiting)
  · refine (sound.waiting process other request isWaiting absent).trans (congrArg some ?_)
    exact (Function.update_of_ne (waited isWaiting) _ _).symm

end

variable [DecidableEq Proc]

section

variable (sound : system.Sound start queue served disk results)
include sound

/-- A request is put in at the end of the queue, and the first one is started. -/
theorem iderw {process : Proc} (uses : system.Uses process b) (dev : (system.buf b).dev = 1)
    (blockno : (system.buf b).blockno.toNat < fssize) (taken : system.iderw process b = some next) :
    next.Sound start (queue ++ [b]) served disk results := by
  have absent := sound.not_queued (sound.unused uses)
  have short : queue.length ≤ nbuf := by
    simpa using sound.nodup.length_le_card
  unfold IdeSystem.iderw at taken
  dsimp only at taken
  split_ifs at taken with unlocked nothing missing
  obtain ⟨first, after, appends, linked⟩ := sound.linked.append absent sound.nodup short
  rw [appends] at taken
  dsimp only [Option.bind_eq_bind, Option.bind_some] at taken
  have requested : (system.buf b).Requested :=
    ⟨by simpa using unlocked, nothing, dev, blockno⟩
  set queued : IdeSystem Proc := { system with
    idequeue := first
    qnext := after
    waits := Function.update system.waits process (some (b, system.log.length))
    log := system.log ++ [(b, system.buf b)] } with isQueued
  -- all but the device, which depends on whether the request is the first one
  have entered : ∀ device, (queue = [] → device = .busy (ideCommand (system.buf b))) →
      (queue ≠ [] → device = system.device) →
      { queued with device := device }.Sound start (queue ++ [b]) served disk results := by
    intro device isFirst isLater
    have waited : ∀ {other entry},
        Function.update system.waits process (some (b, system.log.length)) other = some entry →
          other = process ∧ entry = (b, system.log.length) ∨ system.waits other = some entry :=
      fun {other entry} isEntry => by
        grind
    refine ⟨linked, ?_, fun other inQueue => ?_, ?_, sound.memory, fun isEmpty => ?_,
      fun other rest isQueue => ?_, sound.locked, fun other found number isEntry => ?_,
      fun other found number isEntry outside => ?_, fun other inQueue => ?_,
      fun other found number index isEntry isFound => ?_, sound.returned⟩
    · grind [IdeSystem.Sound]
    · grind [requested]
    · grind [IdeSystem.Sound]
    · exact absurd isEmpty (List.append_ne_nil_of_right_ne_nil queue (List.cons_ne_nil b []))
    · cases queue with
      | nil => grind [IdeSystem.Sound]
      | cons head tail => grind [IdeSystem.Sound]
    · rcases waited isEntry with ⟨rfl, isNew⟩ | isOld
      · rw [(Prod.mk.inj isNew).1]
        exact uses.1
      · exact sound.owned other found number isOld
    · grind [IdeSystem.Sound]
    · rcases List.mem_append.mp inQueue with inQueue | isB
      · obtain ⟨owner, number, isOwner⟩ := sound.queued other inQueue
        refine ⟨owner, number, (Function.update_of_ne (fun same => ?_) _ _).trans isOwner⟩
        rw [same, uses.2] at isOwner
        cases isOwner
      · rw [List.mem_singleton.mp isB]
        exact ⟨process, system.log.length, Function.update_self process _ _⟩
    · rcases waited isEntry with ⟨-, isNew⟩ | isOld
      · grind [IdeSystem.Sound]
      · grind [IdeSystem.Sound, unused]
  cases isQueue : queue with
  | nil =>
    rw [isQueue] at linked
    rw [if_pos linked.1, IdeSystem.idestart, if_neg (Nat.not_le.mpr blockno)] at taken
    have isReady : queued.device = .ready := (sound.idle isQueue).1
    rw [isReady] at taken
    have started := entered _ (fun _ => rfl) fun notEmpty => absurd isQueue notEmpty
    rw [isQueue] at started
    rw [← Option.some_inj.mp taken]
    exact started
  | cons head tail =>
    have isFirst : first = some head := by
      rw [isQueue] at linked
      exact linked.1
    have different : ¬ first = some b := fun isB => by
      grind
    rw [if_neg different] at taken
    rw [← Option.some_inj.mp taken, ← isQueue]
    exact entered _ (fun isEmpty => nomatch isQueue.symm.trans isEmpty) fun _ => rfl

/-- A process that is awake returns with what the driver in memory has, or sleeps again. -/
theorem wake {process : Proc} (taken : system.wake process = some next) :
    next.Sound start queue served disk results := by
  unfold IdeSystem.wake at taken
  split at taken
  case h_1 => cases taken
  case h_2 b request isWaiting =>
    split_ifs at taken with isDone
    · rw [← Option.some_inj.mp taken]
      have absent : b ∉ queue := fun inQueue => (sound.requested b inQueue).needed isDone
      have waited : ∀ {other entry},
          Function.update system.waits process none other = some entry →
            system.waits other = some entry := fun {other entry} isEntry => by
        grind
      refine ⟨sound.linked, sound.nodup, sound.requested, sound.log, sound.memory, sound.idle,
        sound.active, sound.locked, fun other found number isEntry => ?_,
        fun other found number isEntry => ?_, fun found inQueue => ?_,
        fun other found number index isEntry => sound.numbered other found number index
          (waited isEntry), fun entry inList => ?_⟩
      · exact sound.owned other found number (waited isEntry)
      · exact sound.waiting other found number (waited isEntry)
      · grind [IdeSystem.Sound]
      · grind [IdeSystem.Sound]
    · grind

/-- The controller executes the command of the first request. -/
theorem execute (taken : system.step .execute = some next) :
    next.Sound start queue served disk results := by
  simp only [IdeSystem.step] at taken
  split at taken
  case h_2 => cases taken
  case h_1 command isBusy =>
    obtain ⟨⟨after, data⟩, executes, isNext⟩ := Option.bind_eq_some_iff.mp taken
    rw [← Option.some_inj.mp isNext]
    refine ⟨sound.linked, sound.nodup, sound.requested, sound.log, sound.memory,
      fun isEmpty => ?_, fun b rest isQueue => Or.inr ?_, sound.locked, sound.owned, sound.waiting,
      sound.queued, sound.numbered, sound.returned⟩
    · exact nomatch isBusy.symm.trans (sound.idle isEmpty).1
    · grind [IdeSystem.Sound]

end

omit [DecidableEq Proc] in
/-- The interrupt handler serves the first request and starts the next one. -/
theorem ideintr (sound : system.Sound start queue served disk results)
    (taken : system.ideintr = some next) :
    ∃ b rest, queue = b :: rest ∧
      next.Sound start rest (served ++ [(b, system.buf b)]) ((system.buf b).store disk)
        (results ++ [(system.buf b).serve disk]) := by
  unfold IdeSystem.ideintr at taken
  split at taken
  case h_2 => cases taken
  case h_1 command data isDone =>
    cases isQueue : queue with
    | nil => exact nomatch isDone.symm.trans (sound.idle isQueue).1
    | cons b rest =>
      subst isQueue
      refine ⟨b, rest, rfl, ?_⟩
      obtain ⟨isHead, linked⟩ := sound.linked
      rw [isHead] at taken
      dsimp only at taken
      have requested := sound.requested b List.mem_cons_self
      obtain ⟨notIn, nodup⟩ := List.nodup_cons.mp sound.nodup
      obtain ⟨read, executes, isServed⟩ := execute_eq requested disk
      obtain ⟨isDisk, isData⟩ : system.disk = (system.buf b).store disk ∧ data = read := by
        grind [IdeSystem.Sound]
      rw [isData, isServed] at taken
      -- all but the device, which depends on whether there is another request
      have done : ∀ device, (rest = [] → device = .ready) →
          (∀ following tail, rest = following :: tail →
            device = .busy (ideCommand (system.buf following))) →
          { system.setBuf b ((system.buf b).serve disk) with
            idequeue := system.qnext b
            device := device }.Sound start rest (served ++ [(b, system.buf b)])
              ((system.buf b).store disk) (results ++ [(system.buf b).serve disk]) := by
        intro device isIdle isNext
        have inRest : ∀ other ∈ rest,
            Function.update system.buf b ((system.buf b).serve disk) other = system.buf other :=
          fun other isIn => Function.update_of_ne (fun isB : other = b => notIn (isB ▸ isIn)) _ _
        have longer : ∀ {number : Nat} {buf : Buf}, results[number]? = some buf →
            (results ++ [(system.buf b).serve disk])[number]? = some buf := fun isResult => by
          rw [List.getElem?_append_left (List.getElem?_eq_some_iff.mp isResult).1, isResult]
        refine ⟨linked, nodup, fun other isIn => ?_, ?_, memRun_concat sound.memory requested,
          fun isEmpty => ⟨isIdle isEmpty, isDisk⟩, fun other tail isRest => Or.inl ⟨?_, isDisk⟩,
          fun other process isOwner => ?_, sound.owned,
          fun process other number isWaiting outside => ?_,
          fun other isIn => sound.queued other (List.mem_cons_of_mem b isIn),
          fun process other number index isWaiting isOther => ?_, fun entry inList => ?_⟩
        · show (Function.update system.buf b _ other).Requested
          rw [inRest other isIn]
          exact sound.requested other (List.mem_cons_of_mem b isIn)
        · rw [List.append_assoc, List.singleton_append]
          refine sound.log.trans (congrArg (served ++ (b, system.buf b) :: ·) ?_)
          exact List.map_congr_left fun other isIn => congrArg (other, ·) (inRest other isIn).symm
        · rw [isNext other tail isRest]
          exact congrArg (IdeDevice.busy ∘ ideCommand)
            (inRest other (isRest ▸ List.mem_cons_self)).symm
        · show (Function.update system.buf b _ other).locked = true
          by_cases isB : other = b
          · grind [Buf.Requested]
          · rw [Function.update_of_ne isB]
            exact sound.locked other process isOwner
        · show _ = some (Function.update system.buf b _ other)
          by_cases isB : other = b
          · subst isB
            have isNumber := sound.numbered process other number 0 isWaiting rfl
            rw [Function.update_self, isNumber, Nat.add_zero, ← (memRun_done sound.memory).1,
              List.getElem?_concat_length]
          · rw [Function.update_of_ne isB]
            refine longer (sound.waiting process other number isWaiting fun inQueue => ?_)
            exact (List.mem_cons.mp inQueue).elim isB outside
        · have isNumber := sound.numbered process other number (index + 1) isWaiting isOther
          rw [isNumber, List.length_append, List.length_singleton]
          omega
        · obtain ⟨isResult, flags⟩ := sound.returned entry inList
          exact ⟨longer isResult, flags⟩
      cases isRest : rest with
      | nil =>
        rw [isRest] at linked
        rw [show system.qnext b = none from linked] at taken done
        rw [← Option.some_inj.mp taken, ← isRest]
        exact done _ (fun _ => rfl) fun following tail isCons => nomatch isRest.symm.trans isCons
      | cons following tail =>
        rw [isRest] at linked
        have isFollowing : following ∈ rest := isRest ▸ List.mem_cons_self
        have different : following ≠ b := fun isB => notIn (isB ▸ isFollowing)
        have same : Function.update system.buf b ((system.buf b).serve disk) following =
            system.buf following := Function.update_of_ne different _ _
        rw [show system.qnext b = some following from linked.1] at taken done
        dsimp only [IdeSystem.idestart, IdeSystem.setBuf] at taken
        split_ifs at taken
        rw [← Option.some_inj.mp taken, ← isRest]
        refine done _ (fun isEmpty => nomatch isRest.symm.trans isEmpty)
          fun other later isCons => ?_
        rw [← (List.cons.inj (isRest.symm.trans isCons)).1, same]

/-! ### Nothing gets stuck -/

section

variable (sound : system.Sound start queue served disk results)
include sound

/-- Every request for a block of the second disk can be put in. -/
theorem iderw_isSome {process : Proc} (uses : system.Uses process b)
    (requested : (system.buf b).Requested) (present : system.havedisk1 = true) :
    (system.iderw process b).isSome := by
  have absent := sound.not_queued (sound.unused uses)
  have short : queue.length ≤ nbuf := by
    simpa using sound.nodup.length_le_card
  have isLocked : ¬ (system.buf b).locked = false := by
    rw [requested.locked]
    nofun
  have isPresent : ¬ ((system.buf b).dev ≠ 0 ∧ system.havedisk1 = false) := by grind
  obtain ⟨first, after, appends, linked⟩ := sound.linked.append absent sound.nodup short
  unfold IdeSystem.iderw
  dsimp only
  rw [if_neg isLocked, if_neg requested.needed, if_neg isPresent, appends]
  dsimp only [Option.bind_eq_bind, Option.bind_some]
  split_ifs with isFirst
  · -- the request is the first one, so the controller is ready
    have isEmpty : queue = [] := by
      cases isQueue : queue with
      | nil => rfl
      | cons head tail =>
        rw [isQueue] at linked
        have isB := Option.some_inj.mp (linked.1.symm.trans isFirst)
        exact absurd (isQueue ▸ isB ▸ List.mem_cons_self) absent
    rw [IdeSystem.idestart, if_neg (Nat.not_le.mpr requested.blockno)]
    dsimp only
    rw [(sound.idle isEmpty).1]
    rfl
  · rfl

/-- A command that has been started is executed, and its interrupt is handled. -/
theorem active_isSome (isActive : system.device.active.isSome) :
    (system.step .execute).isSome ∨ (system.step .ideintr).isSome := by
  cases isQueue : queue with
  | nil =>
    rw [(sound.idle isQueue).1] at isActive
    cases isActive
  | cons b rest =>
    have requested := sound.requested b (isQueue ▸ List.mem_cons_self)
    obtain ⟨read, executes, -⟩ := execute_eq requested disk
    rcases sound.active b rest isQueue with ⟨isBusy, isDisk⟩ | ⟨data, isDone, -⟩
    · grind [IdeSystem.step]
    · refine Or.inr ?_
      have linked := sound.linked
      rw [isQueue] at linked
      simp only [IdeSystem.step, IdeSystem.ideintr, isDone, linked.1]
      split
      case h_1 => rfl
      case h_2 following isFollowing =>
        -- the next request is another one, and is for a block of the disk as well
        cases rest with
        | nil => exact nomatch isFollowing.symm.trans linked.2
        | cons second later =>
          have isSecond := Option.some_inj.mp (isFollowing.symm.trans linked.2.1)
          have nodup := sound.nodup
          rw [isQueue, List.nodup_cons] at nodup
          have different : following ≠ b := fun isB =>
            nodup.1 (isB ▸ isSecond ▸ List.mem_cons_self)
          have inQueue : following ∈ queue := by grind
          have inRange := (sound.requested following inQueue).blockno
          simp only [IdeSystem.idestart, IdeSystem.setBuf, Function.update_of_ne different]
          rw [if_neg (Nat.not_le.mpr inRange)]
          rfl

/-- Whoever waits for a request that has been served returns when it is awake. -/
theorem wake_returns {process : Proc} {request : Nat}
    (isWaiting : system.waits process = some (b, request)) (absent : b ∉ queue) :
    ∃ next, system.step (.wake process) = some next ∧ next.waits process = none := by
  have isResult := sound.waiting process b request isWaiting absent
  have isDone := (memRun_done sound.memory).2 _ (List.mem_of_getElem? isResult)
  simp only [IdeSystem.step, IdeSystem.wake, isWaiting]
  rw [if_pos isDone]
  exact ⟨_, rfl, Function.update_self process none system.waits⟩

end

/-! ### The steps -/

/-- Every step keeps the invariant, with a queue and served requests of its own. -/
theorem step (sound : system.Sound start queue served disk results) {action : IdeAction Proc}
    (proper : system.Proper action) (taken : system.step action = some next) :
    ∃ queue served disk results, next.Sound start queue served disk results := by
  cases action with
  | acquiresleep process b =>
    simp only [IdeSystem.step] at taken
    split_ifs at taken with isFree
    rw [← Option.some_inj.mp taken]
    refine ⟨queue, served, disk, results, sound.setBuf (fun other request isWaiting => ?_)
      fun _ _ => rfl⟩
    exact nomatch isFree.1.symm.trans (sound.owned other b request isWaiting)
  | releasesleep process b =>
    simp only [IdeSystem.step] at taken
    split_ifs at taken with uses
    rw [← Option.some_inj.mp taken]
    exact ⟨queue, served, disk, results, sound.setBuf (sound.unused uses) nofun⟩
  | change process b buf =>
    simp only [IdeSystem.step] at taken
    split_ifs at taken with uses
    rw [← Option.some_inj.mp taken]
    have changed : { system.setBuf b { buf with locked := true } with
        owner := Function.update system.owner b (system.owner b) }.Sound start queue served disk
          results := sound.setBuf (sound.unused uses) fun _ _ => rfl
    rw [Function.update_eq_self] at changed
    exact ⟨queue, served, disk, results, changed⟩
  | iderw process b =>
    simp only [IdeSystem.step] at taken
    split_ifs at taken with uses
    exact ⟨_, _, _, _, sound.iderw uses proper.1 proper.2 taken⟩
  | wake process => exact ⟨_, _, _, _, sound.wake taken⟩
  | execute => exact ⟨_, _, _, _, sound.execute taken⟩
  | ideintr =>
    obtain ⟨b, rest, -, isSound⟩ := sound.ideintr taken
    exact ⟨_, _, _, _, isSound⟩

omit [DecidableEq Proc] in
theorem initially (fresh : system.Fresh) : system.Sound system.disk [] [] system.disk [] where
  linked := fresh.idequeue
  nodup := .nil
  requested := nofun
  log := fresh.log
  memory := rfl
  idle _ := ⟨fresh.device, rfl⟩
  active := nofun
  locked b process isOwner := nomatch (fresh.owner b).symm.trans isOwner
  owned process b request isWaiting := nomatch (fresh.waits process).symm.trans isWaiting
  waiting process b request isWaiting := nomatch (fresh.waits process).symm.trans isWaiting
  queued := nofun
  numbered process b request index isWaiting := nomatch (fresh.waits process).symm.trans isWaiting
  returned entry inList := by
    rw [fresh.returned] at inList
    cases inList

omit [DecidableEq Proc] in
theorem active_eq (sound : system.Sound start queue served disk results) :
    system.device.active = queue.head?.map fun b => ideCommand (system.buf b) := by
  cases isQueue : queue with
  | nil =>
    rw [(sound.idle isQueue).1]
    rfl
  | cons b rest =>
    rcases sound.active b rest isQueue with ⟨isBusy, -⟩ | ⟨data, isDone, -⟩
    · rw [isBusy]
      rfl
    · rw [isDone]
      rfl

omit [DecidableEq Proc] in
/-- The disk is that of the driver in memory after the requests that have been executed. -/
theorem executed (sound : system.Sound start queue served disk results) :
    ∃ buffers, memRun start (system.log.take (served.length + system.device.unreported)) =
      .ok (system.disk, buffers) := by
  have inMemory := sound.memory
  cases isQueue : queue with
  | nil =>
    obtain ⟨isReady, isDisk⟩ := sound.idle isQueue
    refine ⟨results, ?_⟩
    rw [isReady, isDisk, sound.log, isQueue, List.map_nil, List.append_nil]
    exact (congrArg (memRun start) List.take_length).trans inMemory
  | cons b rest =>
    rcases sound.active b rest isQueue with ⟨isBusy, isDisk⟩ | ⟨data, isDone, executed⟩
    · refine ⟨results, ?_⟩
      rw [isBusy, isDisk, sound.log]
      exact (congrArg (memRun start) List.take_left).trans inMemory
    · have requested := sound.requested b (isQueue ▸ List.mem_cons_self)
      obtain ⟨read, executes, -⟩ := execute_eq requested disk
      have isDisk := (Prod.mk.inj (Option.some_inj.mp (executed.symm.trans executes))).1
      refine ⟨results ++ [(system.buf b).serve disk], ?_⟩
      rw [isDone, isDisk, sound.log, isQueue, IdeDevice.unreported, List.take_append,
        List.take_of_length_le (Nat.le_add_right _ 1), Nat.add_sub_cancel_left, List.map_cons,
        List.take_succ_cons, List.take_zero]
      exact memRun_concat inMemory requested

end IdeSystem.Sound

/-! ### Every run -/

/-- In every state of a run, the queue has no buffer twice and the command of the controller is that
of its first buffer; the requests have been served in the order of their arrival; the disk is that
of the driver in memory after the requests that the controller has executed; and every buffer with
which `iderw` has returned is valid, not dirty, and as the driver in memory leaves it. No request
panics, the command of the controller comes to its end, and whoever has been served returns. -/
theorem run_ide {Proc : Type} [DecidableEq Proc] {start final : IdeSystem Proc}
    {actions : List (IdeAction Proc)} (fresh : start.Fresh)
    (runs : run IdeSystem.step start actions = some final)
    (proper : Respects IdeSystem.step IdeSystem.Proper start actions) :
    ∃ queue served disk results, Linked final.qnext final.idequeue queue ∧ queue.Nodup ∧
      final.device.active = queue.head?.map (fun b => ideCommand (final.buf b)) ∧
      final.log = served ++ queue.map (fun b => (b, final.buf b)) ∧
      memRun start.disk served = .ok (disk, results) ∧
      (∃ buffers, memRun start.disk (final.log.take (served.length + final.device.unreported)) =
        .ok (final.disk, buffers)) ∧
      (∀ entry ∈ final.returned, results[entry.1]? = some entry.2 ∧ entry.2.valid = true ∧
        entry.2.dirty = false) ∧
      (∀ process b, final.Uses process b → (final.buf b).Requested → final.havedisk1 = true →
        (final.step (.iderw process b)).isSome) ∧
      (final.device.active.isSome →
        (final.step .execute).isSome ∨ (final.step .ideintr).isSome) ∧
      ∀ process b request, final.waits process = some (b, request) → b ∉ queue →
        ∃ next, final.step (.wake process) = some next ∧ next.waits process = none := by
  obtain ⟨queue, served, disk, results, sound⟩ := run_invariant_of_respects
    (fun system => ∃ queue served disk results,
      system.Sound start.disk queue served disk results)
    (fun _ _ _ taken proper ⟨_, _, _, _, sound⟩ => sound.step proper taken) runs proper
    ⟨_, _, _, _, .initially fresh⟩
  refine ⟨queue, served, disk, results, sound.linked, sound.nodup, sound.active_eq, sound.log,
    sound.memory, sound.executed, sound.returned, fun process b uses requested present => ?_,
    sound.active_isSome, fun _ _ _ => sound.wake_returns⟩
  simp only [IdeSystem.step, if_pos uses]
  exact sound.iderw_isSome uses requested present

instance {Proc : Type} (system : IdeSystem Proc) (action : IdeAction Proc) :
    Decidable (system.Proper action) :=
  match action with
  | .iderw _ _ => inferInstanceAs (Decidable (_ ∧ _))
  | .acquiresleep _ _ | .releasesleep _ _ | .change _ _ _ | .wake _ | .execute | .ideintr =>
    .isTrue trivial

/-- A driver before any request, with a disk of zeros. -/
def IdeSystem.blank (Proc : Type) : IdeSystem Proc where
  havedisk1 := true
  idequeue := none
  qnext := fun _ => none
  buf := fun _ => .zero
  device := .ready
  disk := fun _ => 0
  owner := fun _ => none
  waits := fun _ => none
  log := []
  returned := []

/-- One process writes block 3, and another one wants to read it before that is done. -/
def queuedWriteThenRead : List (IdeAction Bool) :=
  [.acquiresleep true 0, .change true 0 { Buf.zero with dirty := true, dev := 1, blockno := 3 },
    .acquiresleep false 1, .change false 1 { Buf.zero with dev := 1, blockno := 3 },
    .iderw true 0, .iderw false 1, .execute, .ideintr, .wake false, .execute, .ideintr,
    .wake false, .wake true]

theorem run_ide_writeThenRead : ∃ final,
    run IdeSystem.step (IdeSystem.blank Bool) queuedWriteThenRead = some final ∧
      final.returned.map Prod.fst = [1, 0] ∧
      ∃ disk results, memRun (fun _ => 0) final.log = .ok (disk, results) ∧
        ∀ entry ∈ final.returned, results[entry.1]? = some entry.2 := by
  obtain ⟨final, runs, isReturned⟩ := Option.map_eq_some_iff.mp
    (show (run IdeSystem.step (IdeSystem.blank Bool) queuedWriteThenRead).map
      (fun system => (system.returned.map Prod.fst, system.idequeue)) = some ([1, 0], none) by
        decide +kernel)
  obtain ⟨order, isEmpty⟩ := Prod.mk.inj isReturned
  obtain ⟨queue, served, disk, results, linked, -, -, isLog, inMemory, -, same, -⟩ :=
    run_ide ⟨rfl, rfl, fun _ => rfl, fun _ => rfl, rfl, rfl⟩ runs (by decide +kernel)
  cases queue with
  | nil =>
    rw [List.map_nil, List.append_nil] at isLog
    refine ⟨final, runs, order, disk, results, ?_, fun entry inList => (same entry inList).1⟩
    rw [isLog]
    exact inMemory
  | cons b rest => exact nomatch isEmpty.symm.trans linked.1

end Xk
