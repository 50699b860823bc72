/-
This file proves that `namei` and `nameiparent` resolve a path: in every tree of directories they
follow the pieces of the path between slashes from the root.

A lookup holds one inode and gets the next one before it gives the first back. So it needs two entries
of the inode cache, and a panic of `iget` that no entry is left is the only way in which it does not
return.
-/

import Xk.Directories

namespace Xk

open Outcome

/-! ### What a path means -/

/-- The maximal pieces of a path without slashes. -/
def pieces (path : List UInt8) : List (List UInt8) := (path.splitOn slash).filter (· ≠ [])

/-- The inode of the first live entry of a directory whose name is the piece, cut to the length of a
name. -/
def FileSystem.lookup (fs : FileSystem) (inum : UInt32) (piece : List UInt8) : Option UInt32 :=
  if (fs.record inum).type = tDir then
    ((fs.entriesOf inum).find? fun de => de.inum ≠ 0 ∧ de.label = piece.take dirsiz).map
      fun de => de.inum.toUInt32
  else none

/-- The inode that pieces lead to from the root, one after the other. -/
def FileSystem.resolve (fs : FileSystem) (pieces : List (List UInt8)) : Option UInt32 :=
  pieces.foldlM fs.lookup rootino

/-- The directory that all pieces but the last lead to, with the name that the last piece is. -/
def FileSystem.resolveParent (fs : FileSystem) (pieces : List (List UInt8)) :
    Option (UInt32 × List UInt8) := do
  let last ← pieces.getLast?
  let dir ← fs.resolve pieces.dropLast
  if (fs.record dir).type = tDir then some (dir, last.take dirsiz) else none

/-- A name without a zero byte is compared as it is. -/
theorem FileSystem.child_eq_lookup (fs : FileSystem) (inum : UInt32) {piece : List UInt8}
    (proper : 0 ∉ piece) : fs.child inum (piece.take dirsiz) = fs.lookup inum piece := by
  have cut : cstringOf dirsiz (piece.take dirsiz) = piece.take dirsiz := by
    rw [cstringOf_proper _ fun zero => proper (List.mem_of_mem_take zero), List.take_take, min_self]
  have sameTest : Dirent.names (piece.take dirsiz) =
      fun de => decide (de.inum ≠ 0 ∧ de.label = piece.take dirsiz) := by
    funext de
    rw [Dirent.names, cut]
  rw [FileSystem.child, FileSystem.lookup, FileSystem.findIn, sameTest]

theorem subset_of_mem_splitOn {path piece : List UInt8} (member : piece ∈ path.splitOn slash) :
    piece ⊆ path := by
  induction path generalizing piece with
  | nil => simp_all
  | cons byte path inductionHypothesis =>
    rw [List.splitOn, List.splitOnP_cons_eq_if_modifyHead, ← List.splitOn] at member
    split_ifs at member
    · grind
    · cases isSplit : path.splitOn slash with
      | nil => simp_all
      | cons first others => grind [List.modifyHead_cons, List.mem_cons_self]

theorem pieces_proper {path piece : List UInt8} (proper : 0 ∉ path) (member : piece ∈ pieces path) :
    0 ∉ piece :=
  fun zero => proper (subset_of_mem_splitOn (List.mem_filter.mp member).1 zero)

section Meaning

variable (fs : FileSystem) {names : List (List UInt8)} (proper : ∀ piece ∈ names, 0 ∉ piece)
include proper

/-- Following the elements of a path resolves its pieces. -/
theorem FileSystem.follow_eq_foldlM (inum : UInt32) :
    fs.follow inum (names.map (List.take dirsiz)) = names.foldlM fs.lookup inum := by
  induction names generalizing inum with
  | nil => rfl
  | cons piece names inductionHypothesis => grind [follow, child_eq_lookup]

theorem FileSystem.followParent_eq (inum : UInt32) :
    fs.followParent inum (names.map (List.take dirsiz)) = (do
      let last ← names.getLast?
      let dir ← names.dropLast.foldlM fs.lookup inum
      if (fs.record dir).type = tDir then some (dir, last.take dirsiz) else none) := by
  induction names generalizing inum with
  | nil => rfl
  | cons piece names inductionHypothesis =>
    obtain ⟨first, rest⟩ := List.forall_mem_cons.mp proper
    cases names with
    | nil => rfl
    | cons next names =>
      rw [List.map_cons, List.map_cons, FileSystem.followParent, fs.child_eq_lookup inum first,
        List.getLast?_cons_cons, List.dropLast_cons_cons, List.foldlM_cons]
      rw [List.map_cons] at inductionHypothesis
      cases fs.lookup inum piece with
      | none => simp
      | some child => exact inductionHypothesis rest child

end Meaning

/-! ### Lookups that return -/

/-- The panic of `iget` when every entry of the inode cache has references. -/
def noInodes : Halt := .panic "iget: no inodes"

/-- The call returns, or `iget` panics. -/
def Returns {Result : Type*} (call : Except Halt Result) (full : Prop) : Prop :=
  (∃ result, call = .ok result) ∨ call = .error noInodes ∧ full

/-- At most one entry of the inode cache is without references, given their counts. -/
def CacheFull (refs : Fin ninode → Int) : Prop :=
  ∀ slot other, slot ≠ other → refs slot = 0 → refs other ≠ 0

section Returns

variable {fs : FileSystem} {Known : UInt32 → Prop} (agrees : fs.Agrees Known)
  (typed : ∀ inum, Known inum → (fs.record inum).type ≠ 0)
include agrees typed

theorem FileSystem.Agrees.iget_returns {inum : UInt32} (known : Known inum) :
    Returns (Xk.iget fs rootdev inum) (∀ slot, fs.refs slot ≠ 0) := by
  unfold Xk.iget
  split
  · exact Or.inl ⟨_, rfl⟩
  · split
    · rename_i missing
      refine Or.inr ⟨rfl, fun slot isFree => ?_⟩
      exact List.find?_eq_none.mp missing slot (List.mem_finRange slot) (decide_eq_true isFree)
    · rename_i slot _
      have ready : ∀ inode, (fs.setInode slot inode).TableReady := fun _ =>
        agrees.table.congr rfl rfl
      dsimp only
      rw [(ready _).readDinode (agrees.tree.hasRecord inum known), ok_bind,
        FileSystem.record_setInode, if_neg (typed inum known)]
      exact Or.inl ⟨_, rfl⟩

/-- `locki` of an entry that nobody has locked. -/
theorem FileSystem.Agrees.locki_free {ip : Fin ninode} (referenced : 1 ≤ (fs.inode ip).ref)
    (free : (fs.inode ip).locked = false) :
    Xk.locki fs ip =
      .ok (fs.setInode ip { fs.inode ip with locked := true, valid := true }) := by
  obtain ⟨_, cached, known⟩ := agrees.cached ip referenced
  exact agrees.table.locki cached (cached.copyOf.1 ▸ typed _ known) free

/-- The loop of `namex` returns, or `iget` finds the inode cache full. -/
theorem FileSystem.Agrees.namexLoop_returns {parent : Bool} {turns : Nat} {ip : Fin ninode}
    (referenced : 1 ≤ (fs.inode ip).ref) (free : ∀ slot, (fs.inode slot).locked = false)
    {refs : Fin ninode → Int} (counted : fs.refs = refs + oneRef ip) {path name : List UInt8}
    (enough : path.length < turns) :
    Returns (Xk.namexLoop parent turns fs ip path name) (CacheFull refs) := by
  induction turns generalizing fs ip path name with
  | zero => exact absurd enough (Nat.not_lt_zero _)
  | succ turns inductionHypothesis =>
    unfold Xk.namexLoop
    split
    · split_ifs
      all_goals exact Or.inl ⟨_, rfl⟩
    · rename_i element rest isElement
      have fewer : rest.length < turns := by
        have shorter := (skipelem_some isElement).2.2
        omega
      have locks := agrees.locki_free typed referenced (free ip)
      obtain ⟨_, _, _, lockedAgrees⟩ := agrees.locki locks
      have lockedRefs := locki_refs locks
      have isInode := fs.setInode_self ip { fs.inode ip with locked := true, valid := true }
      generalize isLocked : fs.setInode ip _ = locked at locks lockedAgrees lockedRefs isInode
      have lockedRef : 1 ≤ (locked.inode ip).ref := by grind
      have isUnlocked : ∀ {searched : FileSystem}, 1 ≤ (searched.inode ip).ref →
          (searched.inode ip).locked = true → ∃ unlocked, Xk.unlocki searched ip =
            .ok unlocked := by
        intro searched searchedRef held
        refine ⟨_, if_neg ?_⟩
        simp only [held, not_or]
        exact ⟨by decide, by omega⟩
      obtain ⟨unlocked, unlocks⟩ := isUnlocked lockedRef (by rw [isInode])
      rw [locks, ok_bind]
      split_ifs with notDir
      · rw [unlocks]
        exact Or.inl ⟨_, rfl⟩
      · rw [unlocks]
        exact Or.inl ⟨_, rfl⟩
      · obtain ⟨_, looked⟩ | ⟨de, offset, isFound, looked⟩ :=
          lockedAgrees.dirlookup lockedRef (by rw [isInode]) (not_not.mp notDir) element
        · rw [looked, ok_bind]
          dsimp only
          rw [unlocks]
          exact Or.inl ⟨_, rfl⟩
        · have isLive : de.inum ≠ 0 := ((Dirent.names_iff _ _).mp (List.find?_some isFound)).1
          obtain ⟨_, cached, known⟩ := lockedAgrees.cached ip lockedRef
          have nextKnown := lockedAgrees.tree.closed _ known
            (cached.copyOf.1.symm.trans (not_not.mp notDir)) de
            (List.mem_of_find?_eq_some isFound) isLive
          have lockedTyped : ∀ inum, Known inum → (locked.record inum).type ≠ 0 := by
            rw [← isLocked]
            exact typed
          obtain ⟨⟨next, taken⟩, got⟩ | ⟨failed, full⟩ :=
            lockedAgrees.iget_returns lockedTyped nextKnown
          · have takenRefs := iget_refs got
            have takenLocks := (iget_sameStore got).2
            have nextRef : 0 ≤ oneRef next ip := oneRef_nonneg next ip
            have takenRef : 1 ≤ (taken.inode ip).ref := by
              have sum : (taken.inode ip).ref = (locked.inode ip).ref + oneRef next ip :=
                congrFun takenRefs ip
              omega
            have held : (taken.inode ip).locked = true :=
              (congrFun takenLocks ip).trans (by rw [FileSystem.locks, isInode])
            obtain ⟨released, releases⟩ := isUnlocked takenRef held
            rw [got, ok_bind] at looked
            have looks : Xk.dirlookup locked ip element = .ok (some (next, offset), taken) := looked
            obtain ⟨stepAgrees, stepStore, _, stepRef⟩ :=
              agrees.descend locks (not_not.mp notDir) looks releases
            rw [looks, ok_bind]
            dsimp only
            rw [releases, ok_bind]
            refine inductionHypothesis stepAgrees (fun inum known => ?_) (stepRef next offset rfl)
              (fun slot => ?_) ?_ fewer
            · rw [stepStore.record]
              exact typed inum known
            · exact (congrFun ((irelease_locks released ip).trans
                (locks_unlocked locks takenLocks releases)) slot).trans (free slot)
            · refine add_right_cancel (b := oneRef ip) ?_
              rw [irelease_refs, unlocki_refs releases, takenRefs, lockedRefs, counted,
                add_right_comm]
          · refine Or.inr ⟨?_, fun slot other differ isFree otherFree => ?_⟩
            · rw [looked, failed]
              rfl
            · -- the loop has one entry itself
              have taken : ∀ free, refs free = 0 → free = ip := fun free isZero => by
                by_contra notIp
                refine full free ?_
                rw [lockedRefs, counted, Pi.add_apply, isZero, oneRef_of_ne notIp, add_zero]
              exact differ ((taken slot isFree).trans (taken other otherFree).symm)

/-- A lookup of an absolute path returns, or `iget` finds the inode cache full. -/
theorem FileSystem.Agrees.namex_returns (free : ∀ slot, (fs.inode slot).locked = false)
    {path : List UInt8} (absolute : path.head? = some slash) (parent : Bool) :
    Returns (Xk.namex fs path parent) (CacheFull fs.refs) := by
  unfold Xk.namex Xk.namexStart
  rw [if_pos absolute]
  obtain ⟨⟨root, started⟩, got⟩ | ⟨failed, full⟩ := agrees.iget_returns typed agrees.tree.root
  · obtain ⟨sameStore, sameLocks⟩ := iget_sameStore got
    obtain ⟨startAgrees, startRef, _⟩ := agrees.iget agrees.tree.root got
    rw [got, ok_bind]
    refine startAgrees.namexLoop_returns (fun inum known => ?_) startRef
      (fun slot => (congrFun sameLocks slot).trans (free slot)) (iget_refs got) (Nat.lt_succ_self _)
    rw [sameStore.record]
    exact typed inum known
  · refine Or.inr ⟨?_, fun slot _ _ isFree => absurd isFree (full slot)⟩
    rw [failed]
    rfl

end Returns

/-! ### The result -/

/-- In every tree of directories, `namei` returns the inode that the pieces of an absolute path lead
to, and `nameiparent` the directory of the last piece with its name. Both return unless the inode
cache is full. -/
theorem lookups_follow_path {fs : FileSystem} {Known : UInt32 → Prop} (agrees : fs.Agrees Known)
    (typed : ∀ inum, Known inum → (fs.record inum).type ≠ 0)
    (free : ∀ slot, (fs.inode slot).locked = false) {path : List UInt8} (proper : 0 ∉ path)
    (absolute : path.head? = some slash) :
    (∀ found after, namei fs path = .ok (found, after) →
        found.map (fun ip => (after.inode ip).inum) = fs.resolve (pieces path) ∧
          ∀ ip, found = some ip → 1 ≤ (after.inode ip).ref ∧ (after.inode ip).dev = rootdev) ∧
      (∀ found after, nameiparent fs path = .ok (found, after) →
        found.map (fun result => ((after.inode result.1).inum, result.2)) =
            fs.resolveParent (pieces path) ∧
          ∀ ip name, found = some (ip, name) →
            1 ≤ (after.inode ip).ref ∧ (after.inode ip).dev = rootdev) ∧
      ∀ halt, namei fs path = .error halt ∨ nameiparent fs path = .error halt →
        halt = noInodes ∧ CacheFull fs.refs := by
  have properPieces : ∀ piece ∈ pieces path, 0 ∉ piece := fun _ => pieces_proper proper
  refine ⟨fun found after looked => ?_, fun found after looked => ?_, fun halt failed => ?_⟩
  · obtain ⟨afterAgrees, _, _, counted, follows⟩ := agrees.namei looked
    refine ⟨follows.trans (fs.follow_eq_foldlM properPieces rootino), fun ip isIp => ?_⟩
    exact ⟨counted ip isIp, (afterAgrees.cached ip (counted ip isIp)).1⟩
  · obtain ⟨afterAgrees, _, _, counted, follows⟩ := agrees.nameiparent looked
    refine ⟨follows.trans (fs.followParent_eq properPieces rootino), fun ip name isIp => ?_⟩
    have referenced := (counted ip name isIp).1
    exact ⟨referenced, (afterAgrees.cached ip referenced).1⟩
  · have ends : ∀ parent, namex fs path parent = .error halt → halt = noInodes ∧
      CacheFull fs.refs := by
      intro parent fails
      obtain ⟨result, returned⟩ | ⟨panics, full⟩ :=
        agrees.namex_returns typed free absolute parent
      · grind
      · exact ⟨Except.error.inj (fails.symm.trans panics), full⟩
    rcases failed with looked | looked
    · refine ends false ?_
      obtain fails | ⟨⟨_, _⟩, _, returned⟩ := error_of_bind looked
      · exact fails
      · cases returned
    · exact ends true looked


/-- A disk with the directories `/` and `/a` and the file `/a/b`: block 10 has the inodes, and blocks
11 and 12 the directories. -/
def smallTree : FileSystem where
  disk := ⟨14, Bytes.write (Bytes.write (Bytes.write (fun _ => 0) 5120
      (Dinode.encode ⟨tFile, 0, 256, .single ⟨10, 1⟩⟩ ++
        Dinode.encode ⟨tDir, 0, 16, .single ⟨11, 1⟩⟩ ++
        Dinode.encode ⟨tDir, 0, 16, .single ⟨12, 1⟩⟩ ++
        Dinode.encode ⟨tFile, 0, 0, .single .zero⟩))
      5632 (Dirent.encode ⟨2, strncpy [97] dirsiz⟩))
      6144 (Dirent.encode ⟨3, strncpy [98] dirsiz⟩), by decide⟩
  devsw := ⟨fun _ => none, fun _ => none⟩
  sb := ⟨14, 1, 2, 10⟩
  inode := fun _ => .zero
  inodefile := ⟨1, 0, 1, true, false, tFile, 0, 256, .single ⟨10, 1⟩⟩

theorem smallTree_stored : ∀ inum ∈ ([0, 1, 2, 3] : List UInt32),
    (smallTree.record inum).type ≠ 0 ∧ ((smallTree.record inum).type = tDir →
      ((smallTree.record inum).data.head.startblkno.toNat +
          (smallTree.record inum).data.head.nblocks.toNat ≤ 14 ∧
        direntSize ∣ (smallTree.record inum).size.toNat ∧
        (smallTree.record inum).size.toNat ≤ (smallTree.record inum).data.head.bytes) ∧
      ∀ de ∈ smallTree.entriesOf inum, de.inum ≠ 0 →
        de.inum.toUInt32 ∈ ([0, 1, 2, 3] : List UInt32)) := by
  intro inum known
  fin_cases known <;> decide +kernel

theorem smallTree_agrees : smallTree.Agrees (· ∈ ([0, 1, 2, 3] : List UInt32)) where
  table := ⟨by decide, show 10 + 1 ≤ 14 by decide, by decide, rfl⟩
  tree :=
    { root := by decide
      hasRecord := fun inum known => by
        unfold FileSystem.HasRecord
        fin_cases known <;> decide
      stored := fun inum known isDir => by
        obtain ⟨onDisk, whole, fits⟩ := ((smallTree_stored inum known).2 isDir).1
        exact ⟨isDir, onDisk, whole, fits⟩
      closed := fun inum known isDir => ((smallTree_stored inum known).2 isDir).2 }
  cached ip referenced := absurd referenced (show ¬ (1 : Int) ≤ 0 by decide)
  unique ip _ referenced := absurd referenced (show ¬ (1 : Int) ≤ 0 by decide)

/-- The path `//a/b/` leads to the file. -/
theorem lookups_follow_path_smallTree : ∃ ip after, namei smallTree [47, 47, 97, 47, 98, 47] =
    .ok (some ip, after) ∧ (after.inode ip).inum = 3 := by
  have isResolved : smallTree.resolve (pieces [47, 47, 97, 47, 98, 47]) = some 3 :=
    by decide +kernel
  obtain ⟨looks, _, fails⟩ := lookups_follow_path smallTree_agrees
    (fun inum known => (smallTree_stored inum known).1) (fun _ => rfl)
    (show 0 ∉ [47, 47, 97, 47, 98, 47] by decide) rfl
  cases looked : namei smallTree [47, 47, 97, 47, 98, 47] with
  | error halt =>
    exact absurd rfl ((fails halt (Or.inl looked)).2 0 1 (by decide) rfl)
  | ok result => grind [Option.map_eq_some_iff]

end Xk
