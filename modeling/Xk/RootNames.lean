/-
This file proves what keeps the names in the root directory unique when processes create files with
`sys_open`. The lookup and the creation of one call are separate steps, so that other calls can come
between them.

`concurrent_createi` does not look whether there is an entry with the name already. If there is none
when it runs, then the names stay unique, and a name stays the name of the same inode. A lookup that
was made before another process created the file does not say so.
-/

import Xk.Creation

namespace Xk

open Outcome Transition

/-! ### The calls -/

/-- Where a process is in a call of `sys_open` with `O_CREATE`: its lookup has found nothing, so that
it creates the file, or it goes on to `fileopen`. -/
inductive OpenCall
  | outside
  | missing (path : List UInt8) (mode : Int)
  | present (path : List UInt8) (mode : Int)
  deriving DecidableEq

/-- The inode of an open file. -/
def OpenSystem.inumOf (system : OpenSystem) (process : Fin nproc) (fd : Int) : Option UInt32 := do
  let descriptor ← (List.finRange nofile).find? fun (other : Fin nofile) => (other : Int) = fd
  let slot ← system.tables.pftable (process, descriptor)
  let ip ← (system.tables.ftable slot).iptr
  return (system.fs.inode ip).inum

theorem OpenSystem.inumOf_failed (system : OpenSystem) (process : Fin nproc) :
    system.inumOf process (-1) = none := by
  rfl

/-- The system, the calls that processes are in, and the paths that were opened with the inodes that
the calls got. -/
structure NameSystem where
  system : OpenSystem
  call : Fin nproc → OpenCall
  opened : List (List UInt8 × UInt32)

inductive NameAction
  | lookup (process : Fin nproc) (path : List UInt8) (mode : Int)
  | create (process : Fin nproc)
  | fileopen (process : Fin nproc)

/-- One step of a call of `sys_open`. After a panic there is no next state. -/
def nameStep (state : NameSystem) : NameAction → Option NameSystem
  | .lookup process path mode =>
    if state.call process = .outside ∧ mode ∈ openModes ∧ Creates mode then
      (namei state.system.fs path).toOption.map fun (ptr, looked) =>
        { state with
          system := { state.system with fs := looked }
          call := Function.update state.call process
            (if ptr = none then .missing path mode else .present path mode) }
    else none
  | .create process =>
    match state.call process with
    | .missing path mode =>
      (concurrentCreatei state.system.fs path).toOption.map fun (_, created) =>
        { state with
          system := { state.system with fs := created }
          call := Function.update state.call process (.present path mode) }
    | _ => none
  | .fileopen process =>
    match state.call process with
    | .present path mode =>
      (state.system.fileopen process path mode).toOption.map fun (fd, after) =>
        { system := after
          call := Function.update state.call process .outside
          opened := ((after.inumOf process fd).map (path, ·)).toList ++ state.opened }
    | _ => none

/-! ### Unique names -/

/-- No two live entries of the root directory have the same name. -/
def FileSystem.NamesUnique (fs : FileSystem) : Prop :=
  fs.entries.Pairwise fun de other => de.inum ≠ 0 → other.inum ≠ 0 → de.label ≠ other.label

/-- Whoever opened the same name got the same inode. -/
def NameSystem.SameInodes (state : NameSystem) : Prop :=
  ∀ first ∈ state.opened, ∀ second ∈ state.opened,
    (elements first.1).getLast? = (elements second.1).getLast? → first.2 = second.2

/-- The path of a file that is to be created. -/
def OpenCall.creating : OpenCall → Option (List UInt8)
  | .missing path _ => some path
  | _ => none

/-- There is room for the file and no entry with its name when it is created. -/
def NameSystem.Fresh (state : NameSystem) : NameAction → Prop
  | .create process => ∀ path ∈ (state.call process).creating,
    state.system.fs.Room ∧ ∀ name ∈ (elements path).getLast?, state.system.fs.find name = none
  | _ => True

instance (fs : FileSystem) : Decidable fs.Room :=
  decidable_of_iff (fs.nextInum.toNat < 2 ^ 16 ∧ fs.nextInum.toNat * dinodeSize + dinodeSize ≤
      min fs.table.bytes (getCapacity fs.inodefile).toNat ∧ fs.root.size.toNat + direntSize ≤
        min fs.root.data.head.bytes (getCapacity (Inode.zero.copy fs.root)).toNat)
    ⟨fun ⟨number, record, entry⟩ => ⟨number, record, entry⟩,
      fun room => ⟨room.number, room.record, room.entry⟩⟩

instance (state : NameSystem) (action : NameAction) : Decidable (state.Fresh action) :=
  match action with
  | .create process => inferInstanceAs (Decidable (∀ path ∈ (state.call process).creating, _))
  | .lookup _ _ _ | .fileopen _ => .isTrue trivial

/-- The inode of a path: the root, or the inode of its last element. -/
def FileSystem.target (fs : FileSystem) (path : List UInt8) : Option UInt32 :=
  match (elements path).getLast? with
  | none => some rootino
  | some name => (fs.find name).map fun de => de.inum.toUInt32

theorem FileSystem.target_congr {fs after : FileSystem} {path : List UInt8} {inum : UInt32}
    (leads : fs.target path = some inum)
    (kept : ∀ name de, fs.find name = some de → after.find name = some de) :
    after.target path = some inum := by
  unfold FileSystem.target at leads ⊢
  split at leads
  · exact leads
  · grind [Option.map_eq_some_iff]

/-- What `namei` finds is the inode of the path. -/
theorem FileSystem.Coherent.namei_target {fs after : FileSystem} (coherent : fs.Coherent)
    {path : List UInt8} {ip : Fin ninode} (looked : Xk.namei fs path = .ok (some ip, after)) :
    fs.target path = some (after.inode ip).inum := by
  obtain ⟨_, _, _, _, follows⟩ := coherent.agrees.namei looked
  rw [Option.map_some] at follows
  unfold FileSystem.target
  cases isElements : elements path with
  | nil =>
    rw [isElements] at follows
    exact follows.symm
  | cons first rest =>
    obtain ⟨name, de, isLast, isFound, isInum⟩ :=
      coherent.follow_last fs.known_root (by rw [isElements]; exact List.cons_ne_nil _ _)
        follows.symm
    rw [isElements] at isLast
    rw [isLast]
    simp only [isFound, Option.map_some, isInum]

/-- A file that is created under a new name leaves the names unique. -/
theorem FileSystem.Created.namesUnique {fs after : FileSystem} {name : List UInt8}
    (created : fs.Created name after)
    (unique : fs.NamesUnique) (isNew : fs.find name = none) : after.NamesUnique := by
  rw [FileSystem.NamesUnique, created.entries, List.pairwise_append]
  refine ⟨unique, List.pairwise_singleton _ _, ?_⟩
  rintro de member other isOther live _
  rw [List.mem_singleton.mp isOther, fs.nextEntry_label]
  exact (fs.find_eq_none_iff name).mp isNew de member live

/-! ### Steps -/

/-- The file system is steady, no lock is held, the names are unique, and the paths that were opened
lead to the inodes that the calls got. -/
structure NameSystem.Orderly (state : NameSystem) : Prop where
  steady : state.system.fs.Steady
  free : ∀ slot, (state.system.fs.inode slot).locked = false
  unique : state.system.fs.NamesUnique
  opened : ∀ entry ∈ state.opened, state.system.fs.target entry.1 = some entry.2

theorem NameSystem.Orderly.sameInodes {state : NameSystem} (orderly : state.Orderly) :
    state.SameInodes := by
  intro first isFirst second isSecond same
  have firstTarget := orderly.opened first isFirst
  have secondTarget := orderly.opened second isSecond
  rw [FileSystem.target, ← same, ← FileSystem.target] at secondTarget
  exact Option.some_inj.mp (firstTarget.symm.trans secondTarget)

/-- A step that changes the inode cache only. -/
theorem NameSystem.Orderly.of_sameStore {state next : NameSystem} (orderly : state.Orderly)
    (coherent : next.system.fs.Coherent) (same : state.system.fs.SameStore next.system.fs)
    (locks : next.system.fs.locks = state.system.fs.locks)
    (opened : ∀ entry ∈ next.opened,
      entry ∈ state.opened ∨ state.system.fs.target entry.1 = some entry.2) : next.Orderly where
  steady := orderly.steady.of_sameStore coherent same
  free slot := (congrFun locks slot).trans (orderly.free slot)
  unique := by
    rw [FileSystem.NamesUnique, same.entries]
    exact orderly.unique
  opened entry member := by
    grind [NameSystem.Orderly, FileSystem.target_congr, FileSystem.find,
      FileSystem.SameStore.entries]

/-- The inode of a descriptor that `fileopen` returns is the one it installs. -/
theorem fileopen_inumOf {tables : FileTables} {fs : FileSystem} {process : Fin nproc}
    {ip : Fin ninode} {mode : Int} {inum : UInt32}
    (isInum : OpenSystem.inumOf ⟨(Xk.fileopen tables process (some ip) mode).2, fs⟩ process
      (Xk.fileopen tables process (some ip) mode).1 = some inum) :
    inum = (fs.inode ip).inum := by
  obtain ⟨descriptor, isDescriptor, isInum⟩ := Option.bind_eq_some_iff.mp isInum
  obtain ⟨slot, isSlot, isInum⟩ := Option.bind_eq_some_iff.mp isInum
  obtain ⟨installed, isInstalled, isInum⟩ := Option.bind_eq_some_iff.mp isInum
  have same : ((descriptor : Nat) : Int) = (Xk.fileopen tables process (some ip) mode).1 := by
    simpa using List.find?_some isDescriptor
  unfold Xk.fileopen at same isSlot isInstalled
  dsimp only at same isSlot isInstalled
  split_ifs at same isSlot isInstalled
  · omega
  · cases isFree : tables.freeDescriptor process with
    | none => grind
    | some fd =>
      simp only [isFree] at same isSlot isInstalled
      cases isFreeSlot : tables.freeSlot with
      | none => grind [freeDescriptor_eq_some]
      | some free =>
        simp only [isFreeSlot] at same isSlot isInstalled
        rw [show descriptor = fd from Fin.ext (by omega), FileTables.point_pftable,
          Function.update_self, Option.some_inj] at isSlot
        simp only [← isSlot, FileTables.point, Function.update_self, Option.some_inj] at isInstalled
        rw [isInstalled]
        exact (Option.some_inj.mp isInum).symm

/-- Every step that creates files under new names only keeps the system orderly. -/
theorem NameSystem.Orderly.step {state next : NameSystem} (orderly : state.Orderly)
    {action : NameAction} (stepped : nameStep state action = some next)
    (fresh : state.Fresh action) : next.Orderly := by
  cases action with
  | lookup process path mode =>
    rw [nameStep] at stepped
    split_ifs at stepped
    obtain ⟨⟨ptr, looked⟩, looks, rfl⟩ := Option.map_eq_some_iff.mp stepped
    obtain ⟨coherent, same, locks, _⟩ := orderly.steady.toCoherent.namei (ok_of_toOption looks)
    exact orderly.of_sameStore coherent same locks fun _ => Or.inl
  | create process =>
    rw [nameStep] at stepped
    split at stepped
    · rename_i path mode isMissing
      obtain ⟨⟨ip, created⟩, creates, rfl⟩ := Option.map_eq_some_iff.mp stepped
      obtain ⟨room, isNew⟩ := fresh path (by rw [isMissing]; rfl)
      obtain ⟨name, follows, isCreated, free, _⟩ :=
        orderly.steady.concurrentCreatei orderly.free room (ok_of_toOption creates)
      obtain ⟨_, isLast⟩ := orderly.steady.toCoherent.followParent_last
        state.system.fs.known_root follows
      exact {
        steady := isCreated.steady
        free := free
        unique := isCreated.namesUnique orderly.unique (isNew name isLast)
        opened := fun entry member => FileSystem.target_congr (orderly.opened entry member)
          fun _ _ => isCreated.find_of_some }
    · cases stepped
  | fileopen process =>
    rw [nameStep] at stepped
    split at stepped
    · rename_i path mode isPresent
      obtain ⟨⟨fd, after⟩, opens, rfl⟩ := Option.map_eq_some_iff.mp stepped
      obtain ⟨⟨iptr, looked⟩, looks, opens⟩ := ok_of_bind (ok_of_toOption opens)
      obtain ⟨coherent, same, locks, _⟩ := orderly.steady.toCoherent.namei looks
      cases iptr with
      | none =>
        obtain ⟨rfl, rfl⟩ := ok_pair opens
        refine orderly.of_sameStore coherent same locks fun entry member => Or.inl ?_
        dsimp only at member
        rwa [OpenSystem.inumOf_failed] at member
      | some ip =>
        obtain ⟨⟨stat, stated⟩, states, opens⟩ := ok_of_bind opens
        obtain ⟨rfl, rfl⟩ := ok_pair opens
        obtain ⟨statedCoherent, statedSame, statedLocks, sameInum⟩ :=
          coherent.concurrentStati states
        refine orderly.of_sameStore statedCoherent (same.trans statedSame)
          (statedLocks.trans locks) fun entry member => ?_
        rcases List.mem_append.mp member with isNew | isOld
        · rw [Option.mem_toList] at isNew
          obtain ⟨inum, isInum, rfl⟩ := Option.map_eq_some_iff.mp isNew
          rw [fileopen_inumOf isInum, sameInum]
          exact Or.inr (orderly.steady.toCoherent.namei_target looks)
        · exact Or.inl isOld
    · cases stepped

/-- In every run in which files are created under names that have no entry at this time, the names in
the root directory stay unique, and all processes that open a name get the same inode. -/
theorem run_names_unique {start final : NameSystem} {actions : List NameAction}
    (steady : start.system.fs.Steady) (free : ∀ slot, (start.system.fs.inode slot).locked = false)
    (unique : start.system.fs.NamesUnique) (nothing : start.opened = [])
    (runs : run nameStep start actions = some final)
    (fresh : Respects nameStep NameSystem.Fresh start actions) :
    final.system.fs.NamesUnique ∧ final.SameInodes := by
  have orderly : start.Orderly := ⟨steady, free, unique, by rw [nothing]; exact nofun⟩
  have final := run_invariant_of_respects NameSystem.Orderly
    (fun _ _ _ stepped fresh orderly => orderly.step stepped fresh) runs fresh orderly
  exact ⟨final.unique, final.sameInodes⟩

/-! ### A small file system -/

/-- A disk of twelve blocks: the inode file is block 10 and has three records, and block 11 is an
empty root directory. -/
def emptyRoot : FileSystem where
  disk := ⟨12, Bytes.write (Bytes.write (fun _ => 0) 5120
      (Dinode.encode ⟨tFile, 0, 192, .single ⟨10, 1⟩⟩)) 5184
      (Dinode.encode ⟨tDir, 0, 0, .single ⟨11, 1⟩⟩), by decide⟩
  devsw := ⟨fun _ => none, fun _ => none⟩
  sb := ⟨12, 1, 2, 10⟩
  inode := fun _ => .zero
  inodefile := ⟨1, 0, 1, true, false, tFile, 0, 192, .single ⟨10, 1⟩⟩

theorem emptyRoot_inodefile :
    emptyRoot.record inodefileino = ⟨tFile, 0, 192, .single ⟨10, 1⟩⟩ := by
  decide +kernel

theorem emptyRoot_root : emptyRoot.root = ⟨tDir, 0, 0, .single ⟨11, 1⟩⟩ := by decide +kernel

theorem emptyRoot_entries : emptyRoot.entries = [] := by rfl

theorem emptyRoot_known {inum : UInt32} (known : emptyRoot.Known inum) :
    inum = inodefileino ∨ inum = rootino := by
  rcases known with isInodefile | isRoot | ⟨de, member, _⟩
  · exact Or.inl isInodefile
  · exact Or.inr isRoot
  · rw [emptyRoot_entries] at member
    cases member

theorem emptyRoot_steady : emptyRoot.Steady where
  table := ⟨by decide, show 10 + 1 ≤ 12 by decide, by decide, rfl⟩
  root :=
    { isDir := by rw [emptyRoot_root]
      onDisk := by
        rw [emptyRoot_root]
        show 11 + 1 ≤ 12
        decide
      whole := by
        rw [emptyRoot_root]
        decide
      fits := by
        rw [emptyRoot_root]
        decide
      hasRecord := fun inum known => by
        rcases emptyRoot_known known with rfl | rfl
        all_goals exact ⟨by decide, by decide⟩
      onlyRoot := fun inum known isDir => by
        rcases emptyRoot_known known with rfl | rfl
        · grind [emptyRoot_inodefile]
        · rfl }
  cached ip referenced := absurd referenced (show ¬ (1 : Int) ≤ 0 by decide)
  unique ip _ referenced := absurd referenced (show ¬ (1 : Int) ≤ 0 by decide)
  isFile := by rw [emptyRoot_inodefile]
  sameTable := by
    rw [emptyRoot_inodefile]
    rfl
  capacity := by rfl
  twoRecords := by decide
  apart := by
    rw [emptyRoot_root]
    exact Or.inr (by decide)
  next := Or.inr fun de member => by
    rw [emptyRoot_entries] at member
    cases member

def NameSystem.boot : NameSystem := ⟨.initial emptyRoot, fun _ => .outside, []⟩

/-- Two processes look up `/a` before either creates it. -/
def race : List NameAction :=
  [.lookup 0 [47, 97] oCreate, .lookup 1 [47, 97] oCreate, .create 0, .create 1]

theorem race_names_twice : ∃ final, run nameStep .boot race = some final ∧
    ¬ final.system.fs.NamesUnique := by
  have ends : (run nameStep .boot race).map (fun final =>
      final.system.fs.entries.map fun de => (de.inum, de.label)) = some [(3, [97]), (3, [97])] := by
    decide +kernel
  obtain ⟨final, runs, isEntries⟩ := Option.map_eq_some_iff.mp ends
  refine ⟨final, runs, fun unique => ?_⟩
  obtain ⟨first, others, isCons, firstIs, isOthers⟩ := List.map_eq_cons_iff.mp isEntries
  obtain ⟨second, none, rfl, secondIs, isNone⟩ := List.map_eq_cons_iff.mp isOthers
  rw [FileSystem.NamesUnique, isCons] at unique
  have differ := List.rel_of_pairwise_cons unique (List.mem_cons_self ..)
  obtain ⟨firstInum, firstLabel⟩ := Prod.mk.inj firstIs
  obtain ⟨secondInum, secondLabel⟩ := Prod.mk.inj secondIs
  refine differ ?_ ?_ (firstLabel.trans secondLabel.symm)
  · rw [firstInum]
    decide
  · rw [secondInum]
    decide

/-- Process 0 creates and opens `/a`, and then process 1 opens it and creates and opens `/b`. -/
def turns : List NameAction :=
  [.lookup 0 [47, 97] oCreate, .create 0, .fileopen 0, .lookup 1 [47, 97] oCreate, .fileopen 1,
    .lookup 1 [47, 98] oCreate, .create 1, .fileopen 1]

theorem run_names_unique_turns : ∃ final, run nameStep .boot turns = some final ∧
    final.opened.length = 3 ∧ final.system.fs.NamesUnique ∧ final.SameInodes := by
  have ends : (run nameStep .boot turns).map (fun final => final.opened.length) = some 3 := by
    decide +kernel
  obtain ⟨final, runs, isLength⟩ := Option.map_eq_some_iff.mp ends
  refine ⟨final, runs, isLength, run_names_unique emptyRoot_steady (fun _ => rfl) ?_ rfl runs ?_⟩
  · show emptyRoot.NamesUnique
    rw [FileSystem.NamesUnique, emptyRoot_entries]
    exact List.Pairwise.nil
  · decide +kernel

end Xk
