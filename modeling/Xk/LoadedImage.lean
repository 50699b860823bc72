/-
This file proves that `vspaceloadcode` builds the right image of memory from a file whose segments
are in order and share no page. The loader maps the pages up to the sum of the ends of the segments,
so every page of a segment is there, cleared, when its bytes are read; and since no later segment
reads into it, what a page has at the end is what its own segment has put there.
-/

import Xk.InodeReferences
import Xk.LoadedPages

namespace Xk

open Outcome

/-! ### Images -/

section Images

variable {content image : Nat → UInt8} {loads : List Proghdr} {a : Nat}

/-- Where no segment has a byte of the file the image stays as it was. -/
theorem foldl_place_of_outside (outside : ∀ ph ∈ loads,
      ¬ (ph.vaddr.toNat ≤ a ∧ a < ph.vaddr.toNat + ph.filesz.toNat)) :
    loads.foldl (Proghdr.place content) image a = image a := by
  induction loads generalizing image with
  | nil => rfl
  | cons ph loads inductionHypothesis =>
    obtain ⟨first, rest⟩ := List.forall_mem_cons.mp outside
    rw [List.foldl_cons, inductionHypothesis rest, Proghdr.place, if_neg first]

/-- Segments that begin with a page, in ascending order and without a common page, whose bytes are in
the file. -/
structure WellFormed (loads : List Proghdr) (size : Nat) : Prop where
  aligned : ∀ ph ∈ loads, ph.vaddr.toNat % pgSize = 0
  ascending : loads.Pairwise fun first second => pgRoundUp first.stop ≤ second.vaddr.toNat
  fits : ∀ ph ∈ loads, ph.filesz.toNat ≤ ph.memsz.toNat
  inFile : ∀ ph ∈ loads, ph.off.toNat + ph.filesz.toNat ≤ size

/-- The image of a segment: the bytes of the file, and zeros behind them. -/
theorem WellFormed.foldl_place {size k : Nat} {ph : Proghdr} (formed : WellFormed loads size)
    (member : ph ∈ loads) (inside : k < ph.memsz.toNat) :
    loads.foldl (Proghdr.place content) (fun _ => 0) (ph.vaddr.toNat + k) =
      if k < ph.filesz.toNat then content (ph.off.toNat + k) else 0 := by
  obtain ⟨before, behind, rfl⟩ := List.append_of_mem member
  obtain ⟨-, laterOnes, earlierOnes⟩ := List.pairwise_append.mp formed.ascending
  have later : ∀ other ∈ behind, ¬ (other.vaddr.toNat ≤ ph.vaddr.toNat + k ∧
      ph.vaddr.toNat + k < other.vaddr.toNat + other.filesz.toNat) := by
    intro other isLater
    have apart := (List.pairwise_cons.mp laterOnes).1 other isLater
    have stop := le_pgRoundUp ph.stop
    unfold Proghdr.stop at stop apart
    omega
  have earlier : ∀ other ∈ before, ¬ (other.vaddr.toNat ≤ ph.vaddr.toNat + k ∧
      ph.vaddr.toNat + k < other.vaddr.toNat + other.filesz.toNat) := by
    grind [le_pgRoundUp, WellFormed, Proghdr.stop]
  rw [List.foldl_append, List.foldl_cons, foldl_place_of_outside later, Proghdr.place]
  by_cases inFile : k < ph.filesz.toNat
  · grind
  · grind [foldl_place_of_outside]

end Images

/-! ### Files -/

/-- The bytes of a file in one extent. -/
def Extent.content (extent : Extent) (disk : Disk) (index : Nat) : UInt8 :=
  disk.bytes (extent.address + index)

theorem Inode.InFirst.holds {fs : FileSystem} {ip : Inode} {extent : Extent}
    (inFirst : ip.InFirst fs.disk extent) (locked : ip.locked = true) :
    FileHolds fs ip (extent.content fs.disk) := by
  intro off n inside
  rw [readi_inside inFirst locked inside]
  refine congrArg (fun bytes => Except.ok ((n.toNat : Int), bytes)) ?_
  unfold Bytes.load Extent.content
  simp only [Nat.add_assoc]

theorem openProgram_locked {fs locked : FileSystem} {path : List UInt8} {ip : Fin ninode}
    (opened : openProgram fs path = .ok (some (locked, ip))) : (locked.inode ip).locked = true := by
  unfold openProgram at opened
  obtain ⟨⟨found, looked⟩, -, opened⟩ := ok_of_bind opened
  cases found with
  | none => cases Except.ok.inj opened
  | some place =>
    obtain ⟨fsLocked, isLocked, opened⟩ := ok_of_bind opened
    obtain ⟨rfl, rfl⟩ := Prod.mk.inj (Option.some_inj.mp (Except.ok.inj opened))
    obtain ⟨inode, rfl, -, isHeld, -⟩ := locki_eq isLocked
    rw [FileSystem.setInode_self]
    exact isHeld

/-! ### The image of a program -/

/-- The byte at an address, as seen through a region. -/
def Vregion.byteAt (ram : Ram) (vr : Vregion) (va : Nat) : UInt8 :=
  ram.memory.frame (vr.info (va2vpiIdx vr.toRegionBounds va)).ppn (pageOffset va)

/-- An address space in which the segments of a file have been loaded. -/
structure ImageOf (content : Nat → UInt8) (loads : List Proghdr) (ram : Ram) (vs : Vspace) :
    Prop where
  used : ∀ ph ∈ loads, ∀ k < ph.memsz.toNat, ((vs.regions vrCode).info
    (va2vpiIdx (vs.regions vrCode).toRegionBounds (ph.vaddr.toNat + k))).used = true
  bytes : ∀ ph ∈ loads, ∀ k < ph.memsz.toNat,
    (vs.regions vrCode).byteAt ram (ph.vaddr.toNat + k) =
      if k < ph.filesz.toNat then content (ph.off.toNat + k) else 0
  start : (vs.regions vrCode).vaBase = 0
  covers : ∀ ph ∈ loads, ph.stop ≤ (vs.regions vrCode).size
  heap : ∃ last ∈ loads, (∀ ph ∈ loads, ph.stop ≤ last.stop) ∧
    (vs.regions vrHeap).vaBase = pgRoundUp last.stop
  heapEmpty : (vs.regions vrHeap).size = 0

section Programs

variable {garbage : Int32} {fs locked : FileSystem} {path : List UInt8} {ip : Fin ninode}
  {ram ramAfter : Ram} {vs after : Vspace} {sz : Int} {entry : UInt64} {elf : Elfhdr}
  {headers : List Proghdr} {extent : Extent}

/-- The last segment ends behind all others. -/
theorem WellFormed.stop_le_last {loads : List Proghdr} {size : Nat} {ph last : Proghdr}
    (formed : WellFormed loads size) (isLast : loads.getLast? = some last) (member : ph ∈ loads) :
    ph.stop ≤ last.stop := by
  obtain ⟨before, rfl⟩ := List.getLast?_eq_some_iff.mp isLast
  rcases List.mem_append.mp member with isEarlier | isLastOne
  · grind [WellFormed, le_pgRoundUp, Proghdr.stop]
  · rw [List.mem_singleton.mp isLastOne]

/-- A call of `vspaceloadcode` that succeeds on a well-formed program in one extent makes its image,
and an empty heap behind it. -/
theorem loads_imageOf (loads : Loads garbage fs path ram vs sz entry after ramAfter)
    (opened : openProgram fs path = .ok (some (locked, ip)))
    (inFirst : (locked.inode ip).InFirst locked.disk extent)
    (read : readProgram locked (locked.inode ip) = .ok (some (elf, headers)))
    (segment : segments headers ≠ [])
    (formed : WellFormed (segments headers) (locked.inode ip).size.toNat) :
    ImageOf (extent.content locked.disk) (segments headers) ramAfter after ∧ entry = elf.entry := by
  obtain ⟨rip, fsAfter, returns⟩ := loads.returns
  obtain ⟨extra, user, ledger⟩ := loads.ledger
  obtain ⟨fsLocked, place, elfRead, headersRead, code, filled, isOpened, isRead, isSize, isEntry,
    isAfter, loading, isFilled⟩ := vspaceloadcode_loads loads.vacant ledger returns loads.success
  rw [opened] at isOpened
  obtain ⟨rfl, rfl⟩ := Prod.mk.inj (Option.some_inj.mp (Except.ok.inj isOpened))
  rw [read] at isRead
  obtain ⟨rfl, rfl⟩ := Prod.mk.inj (Option.some_inj.mp (Except.ok.inj isRead))
  have holds := inFirst.holds (openProgram_locked opened)
  have isImage := isFilled _ holds formed.inFile
  generalize isLoads : segments headers = loaded at *
  obtain ⟨last, isLast⟩ : ∃ last, loaded.getLast? = some last :=
    ⟨_, List.getLast?_eq_getLast_of_ne_nil segment⟩
  have small := lt_of_pageCount_lt loading.pages_lt
  have lastMember := List.mem_of_getLast? isLast
  have lastSmall := stop_le_totalStop lastMember
  have isBound : pgRoundUpInt sz = pgRoundUp last.stop := by
    rw [isSize, lastStop_of_getLast isLast, pgRoundUpInt_of_le (by omega)]
  have isCode : after.regions vrCode = { code with size := pgRoundUpInt sz } := by
    rw [isAfter]
    rfl
  have inPages : ∀ ph ∈ loaded, ∀ k < ph.memsz.toNat,
      ph.vaddr.toNat + k < pageCount (totalStop loaded) * pgSize ∧
        ph.vaddr.toNat + k < 2 ^ 44 := by
    intro ph member k inside
    have stop := stop_le_totalStop member
    have rounded : totalStop loaded ≤ pageCount (totalStop loaded) * pgSize := le_pgRoundUp _
    unfold Proghdr.stop at stop
    omega
  have index : ∀ ph ∈ loaded, ∀ k < ph.memsz.toNat,
      va2vpiIdx (after.regions vrCode).toRegionBounds (ph.vaddr.toNat + k) =
        (ph.vaddr.toNat + k) / pgSize := by
    intro ph member k inside
    rw [isCode]
    exact loading.va2vpiIdx_eq (inPages ph member k inside).2
  refine ⟨⟨fun ph member k inside => ?_, fun ph member k inside => ?_, ?_, fun ph member => ?_,
    ⟨last, lastMember, fun ph member => formed.stop_le_last isLast member, ?_⟩, ?_⟩, isEntry⟩
  · rw [index ph member k inside, isCode]
    exact (loading.used_iff _).mpr
      ((Nat.div_lt_iff_lt_mul (by decide)).mpr (inPages ph member k inside).1)
  · rw [Vregion.byteAt, index ph member k inside, isCode, ← formed.foldl_place member inside,
      ← isImage]
    exact loading.bytes _ (inPages ph member k inside).1
  · rw [isCode]
    exact loading.base
  · rw [isCode]
    show ph.stop ≤ pgRoundUpInt sz
    rw [isBound]
    exact (formed.stop_le_last isLast member).trans (le_pgRoundUp _)
  · rw [isAfter, ← isBound]
    rfl
  · rw [isAfter]
    rfl

end Programs

/-- A program with one segment of five bytes, the first four of which are in the file. -/
def fiveBytes : FileSystem := programFs (elfBytes 1 (segmentBytes 0 0 4 5))

theorem fiveBytes_opened : ∃ locked ip, openProgram fiveBytes [slash] = .ok (some (locked, ip)) ∧
    (locked.inode ip).InFirst locked.disk ⟨0, 1⟩ ∧ (locked.inode ip).size = 512 := by
  have facts : (openProgram fiveBytes [slash]).toOption.map (Option.map fun opened =>
      ((opened.1.inode opened.2).type, (opened.1.inode opened.2).data.head, opened.1.disk.disksize,
        (opened.1.inode opened.2).size)) = some (some (tDir, ⟨0, 1⟩, 1, 512)) := by
    decide +kernel
  obtain ⟨opened, isOpened, isSome⟩ := Option.map_eq_some_iff.mp facts
  obtain ⟨⟨locked, ip⟩, rfl, isFacts⟩ := Option.map_eq_some_iff.mp isSome
  obtain ⟨isType, isRest⟩ := Prod.mk.inj isFacts
  obtain ⟨isHead, isRest⟩ := Prod.mk.inj isRest
  obtain ⟨isDisk, isSize⟩ := Prod.mk.inj isRest
  refine ⟨locked, ip, ok_of_toOption isOpened, ⟨?_, isHead, ?_, ?_⟩, isSize⟩
  · rw [isType]
    decide
  · show (0 : UInt32).toNat + (1 : UInt32).toNat ≤ locked.disk.disksize
    rw [isDisk]
    decide
  · rw [isSize]
    decide

/-- The image of the five bytes. -/
theorem loads_imageOf_fiveBytes : ∃ locked : FileSystem, ∃ entry after ramAfter,
    Loads 0 fiveBytes [slash] bootedRam emptySpace 5 entry after ramAfter ∧
      ImageOf ((⟨0, 1⟩ : Extent).content locked.disk) [⟨1, 0, 0, 4, 5⟩] ramAfter after ∧
      entry = 0 := by
  obtain ⟨entry, after, ramAfter, loads⟩ :=
    @bootedRam_loads fiveBytes 5 (by decide +kernel) (by decide)
  obtain ⟨locked, ip, opened, inFirst, size⟩ := fiveBytes_opened
  have facts : (openProgram fiveBytes [slash]).toOption.bind (Option.bind · fun opened =>
      (readProgram opened.1 (opened.1.inode opened.2)).toOption.join) =
        some (⟨elfMagic, 0, 64, 1⟩, [⟨1, 0, 0, 4, 5⟩]) := by
    decide +kernel
  rw [opened] at facts
  have read : readProgram locked (locked.inode ip) =
      .ok (some (⟨elfMagic, 0, 64, 1⟩, [⟨1, 0, 0, 4, 5⟩])) :=
    ok_of_toOption (Option.join_eq_some_iff.mp facts)
  have formed : WellFormed (segments [⟨1, 0, 0, 4, 5⟩]) (locked.inode ip).size.toNat := by
    rw [size]
    exact ⟨by decide, by decide, by decide, by decide⟩
  exact ⟨locked, entry, after, ramAfter, loads,
    loads_imageOf loads opened inFirst read (by decide) formed⟩

end Xk
