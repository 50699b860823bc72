/-
This file develops radix trees whose tables live in numbered pages, the shape of a hardware page
table. A tree of height `h + 1` is a table of trees of height `h`, a tree of height `0` is a table
of leaves, and a tree can be absent at any height. A path gives the index to follow at each height.

What a tree means is its value at every path, where an absent table counts as a table of zeros.
Making the tables along a path changes no value, and storing a leaf changes one. The pages that a
tree occupies are a multiset, so that a discipline for an allocator carries over to trees: whatever
one allocation or one release does to the account of pages, making or releasing tables does to it
for all the pages of the tree.
-/

import Xk.Outcome

namespace Radix

open Outcome

variable {width : Nat} {Leaf : Type}

/-! ### Trees -/

/-- The trees of a given height. Every table is in a page. -/
inductive Trie (width : Nat) (Leaf : Type) : Nat → Type
  | absent {height : Nat} : Trie width Leaf height
  | leaves (frame : Nat) (entry : Fin width → Leaf) : Trie width Leaf 0
  | node {height : Nat} (frame : Nat) (entry : Fin width → Trie width Leaf height) :
      Trie width Leaf (height + 1)

/-- The index to follow at each height. -/
abbrev Path (width : Nat) := Nat → Fin width

/-- The tree below an entry of a table. -/
def Trie.entry : {height : Nat} → Trie width Leaf (height + 1) → Fin width → Trie width Leaf height
  | _, .absent, _ => .absent
  | _, .node _ entry, slot => entry slot

/-- The leaf at the end of a path, unless a table is absent. -/
def Trie.find : {height : Nat} → Trie width Leaf height → Path width → Option Leaf
  | 0, .absent, _ => none
  | 0, .leaves _ entry, path => some (entry (path 0))
  | _ + 1, .absent, _ => none
  | height + 1, .node _ entry, path => Trie.find (entry (path (height + 1))) path

/-- The leaf at the end of a path, where an absent table holds zeros. -/
def Trie.value (zero : Leaf) {height : Nat} (tree : Trie width Leaf height) (path : Path width) :
    Leaf :=
  (tree.find path).getD zero

/-- Store a leaf at the end of a path that has all its tables. -/
def Trie.store : {height : Nat} → Trie width Leaf height → Path width → Leaf →
    Trie width Leaf height
  | 0, .absent, _, _ => .absent
  | 0, .leaves frame entry, path, leaf => .leaves frame (Function.update entry (path 0) leaf)
  | _ + 1, .absent, _, _ => .absent
  | height + 1, .node frame entry, path, leaf =>
    .node frame (Function.update entry (path (height + 1))
      (Trie.store (entry (path (height + 1))) path leaf))

/-- The pages of a tree. -/
def Trie.frames : {height : Nat} → Trie width Leaf height → Multiset Nat
  | 0, .absent => 0
  | 0, .leaves frame _ => {frame}
  | _ + 1, .absent => 0
  | _ + 1, .node frame entry => frame ::ₘ ∑ slot, Trie.frames (entry slot)

/-- Make the tables that are absent along a path, from the top down. -/
def Trie.ensure {State : Type} (alloc : State → Option (Nat × State)) (zero : Leaf) :
    {height : Nat} → Trie width Leaf height → Path width → State →
      Option (Trie width Leaf height × State)
  | 0, .absent, _, state =>
    (alloc state).map fun (frame, state) => (.leaves frame fun _ => zero, state)
  | 0, .leaves frame entry, _, state => some (.leaves frame entry, state)
  | height + 1, .absent, path, state => do
    let (frame, state) ← alloc state
    let (below, state) ← Trie.ensure alloc zero (.absent : Trie width Leaf height) path state
    return (.node frame (Function.update (fun _ => .absent) (path (height + 1)) below), state)
  | height + 1, .node frame entry, path, state => do
    let (below, state) ← Trie.ensure alloc zero (entry (path (height + 1))) path state
    return (.node frame (Function.update entry (path (height + 1)) below), state)

/-- Release the pages of a tree, those of the tables below a table first. -/
def Trie.release {State Error : Type} (free : State → Nat → Except Error State) :
    {height : Nat} → State → Trie width Leaf height → Except Error State
  | 0, state, .absent => .ok state
  | 0, state, .leaves frame _ => free state frame
  | _ + 1, state, .absent => .ok state
  | _ + 1, state, .node frame entry => do
    let state ← (List.finRange width).foldlM
      (fun state slot => Trie.release free state (entry slot)) state
    free state frame

/-! ### Values -/

section Values

variable {zero : Leaf} {height : Nat} {path other : Path width}

/-- Two paths that end in the same place of a tree. -/
def Path.Same (height : Nat) (path other : Path width) : Prop :=
  ∀ level ≤ height, other level = path level

theorem Path.same_succ_iff :
    Path.Same (height + 1) path other ↔
      other (height + 1) = path (height + 1) ∧ Path.Same height path other := by
  constructor
  · intro same
    exact ⟨same _ le_rfl, fun level le => same level (Nat.le_succ_of_le le)⟩
  · rintro ⟨top, same⟩ level le
    rcases Nat.le_succ_iff.mp le with le | rfl
    · exact same level le
    · exact top

theorem Trie.find_absent (path : Path width) :
    (Trie.absent : Trie width Leaf height).find path = none := by
  cases height with
  | zero => rfl
  | succ height => rfl

theorem Trie.value_absent (path : Path width) :
    (Trie.absent : Trie width Leaf height).value zero path = zero := by
  rw [Trie.value, Trie.find_absent, Option.getD_none]

theorem Trie.value_node (frame : Nat) (entry : Fin width → Trie width Leaf height)
    (path : Path width) :
    (Trie.node frame entry).value zero path = (entry (path (height + 1))).value zero path :=
  rfl

/-- A value is found in the tree below the entry that the path follows. -/
theorem Trie.value_entry (tree : Trie width Leaf (height + 1)) (path : Path width) :
    tree.value zero path = (tree.entry (path (height + 1))).value zero path := by
  cases tree with
  | absent => rw [Trie.entry, Trie.value_absent, Trie.value_absent]
  | node frame entry => rfl

/-- Storing a leaf along a path with all its tables makes it the value there. -/
theorem Trie.value_store_same {tree : Trie width Leaf height} (found : tree.find path ≠ none)
    (leaf : Leaf) (same : Path.Same height path other) :
    (tree.store path leaf).value zero other = leaf := by
  induction height with
  | zero =>
    cases tree with
    | absent => exact absurd (Trie.find_absent path) found
    | leaves frame entry =>
      have index : other 0 = path 0 := same 0 le_rfl
      simp only [Trie.store, Trie.value, Trie.find, index, Function.update_self, Option.getD_some]
  | succ height inductionHypothesis =>
    cases tree with
    | absent => exact absurd (Trie.find_absent path) found
    | node frame entry =>
      obtain ⟨index, same⟩ := Path.same_succ_iff.mp same
      rw [Trie.store, Trie.value_node, index, Function.update_self]
      exact inductionHypothesis found same

/-- Storing a leaf changes no other value. -/
theorem Trie.value_store_of_ne (tree : Trie width Leaf height) (leaf : Leaf)
    (different : ¬ Path.Same height path other) :
    (tree.store path leaf).value zero other = tree.value zero other := by
  induction height with
  | zero =>
    cases tree with
    | absent => rfl
    | leaves frame entry =>
      have index : other 0 ≠ path 0 := fun index => different fun level le => by
        rw [Nat.le_zero.mp le, index]
      simp only [Trie.store, Trie.value, Trie.find, Function.update_of_ne index]
  | succ height inductionHypothesis =>
    cases tree with
    | absent => rfl
    | node frame entry => grind [store, value_node, Radix.Path.same_succ_iff]

theorem Trie.store_ne_absent {tree : Trie width Leaf height} (isTable : tree ≠ .absent)
    (path : Path width) (leaf : Leaf) : tree.store path leaf ≠ .absent := by
  cases tree with
  | absent => exact absurd rfl isTable
  | leaves frame entry => exact nofun
  | node frame entry => exact nofun

/-- Storing a leaf keeps the entries of the table at the top that the path does not follow. -/
theorem Trie.store_entry_of_ne (tree : Trie width Leaf (height + 1)) (leaf : Leaf)
    {slot : Fin width} (different : slot ≠ path (height + 1)) :
    (tree.store path leaf).entry slot = tree.entry slot := by
  cases tree with
  | absent => rfl
  | node frame entry => grind [Trie.store, Trie.entry]

end Values

/-! ### Making tables -/

section Ensure

variable {State : Type} {alloc : State → Option (Nat × State)} {state after : State} {zero : Leaf}
  {height : Nat} {path : Path width}

/-- At the top the table is there or is made, and the rest is done below. -/
theorem Trie.ensure_succ {tree made : Trie width Leaf (height + 1)}
    (ensured : tree.ensure alloc zero path state = some (made, after)) :
    ∃ frame entry middle below,
      (tree = .node frame entry ∧ middle = state ∨
        tree = .absent ∧ entry = (fun _ => .absent) ∧ alloc state = some (frame, middle)) ∧
      (entry (path (height + 1))).ensure alloc zero path middle = some (below, after) ∧
      made = .node frame (Function.update entry (path (height + 1)) below) := by
  cases tree with
  | absent =>
    obtain ⟨⟨frame, middle⟩, allocated, ensured⟩ := Option.bind_eq_some_iff.mp ensured
    obtain ⟨⟨below, final⟩, ensuredBelow, ensured⟩ := Option.bind_eq_some_iff.mp ensured
    obtain ⟨rfl, rfl⟩ := Prod.mk.inj (Option.some_inj.mp ensured)
    exact ⟨frame, _, middle, below, Or.inr ⟨rfl, rfl, allocated⟩, ensuredBelow, rfl⟩
  | node frame entry =>
    obtain ⟨⟨below, final⟩, ensuredBelow, ensured⟩ := Option.bind_eq_some_iff.mp ensured
    obtain ⟨rfl, rfl⟩ := Prod.mk.inj (Option.some_inj.mp ensured)
    exact ⟨frame, entry, state, below, Or.inl ⟨rfl, rfl⟩, ensuredBelow, rfl⟩

theorem Trie.ensure_zero {tree made : Trie width Leaf 0}
    (ensured : tree.ensure alloc zero path state = some (made, after)) :
    (made = tree ∧ after = state ∧ tree ≠ .absent) ∨
      tree = .absent ∧ ∃ frame, alloc state = some (frame, after) ∧
        made = .leaves frame fun _ => zero := by
  cases tree with
  | absent =>
    obtain ⟨⟨frame, middle⟩, allocated, ensured⟩ := Option.map_eq_some_iff.mp ensured
    obtain ⟨rfl, rfl⟩ := Prod.mk.inj ensured
    exact Or.inr ⟨rfl, frame, allocated, rfl⟩
  | leaves frame entry =>
    obtain ⟨rfl, rfl⟩ := Prod.mk.inj (Option.some_inj.mp ensured)
    exact Or.inl ⟨rfl, rfl, nofun⟩

/-- Making tables changes no value. -/
theorem Trie.value_ensure {tree made : Trie width Leaf height}
    (ensured : tree.ensure alloc zero path state = some (made, after)) (other : Path width) :
    made.value zero other = tree.value zero other := by
  induction height generalizing state with
  | zero =>
    obtain ⟨rfl, -⟩ | ⟨rfl, frame, -, rfl⟩ := Trie.ensure_zero ensured
    · rfl
    · rfl
  | succ height inductionHypothesis => grind [ensure_succ, value_node, value_absent]

/-- After the tables are made the path has a leaf. -/
theorem Trie.find_ensure {tree made : Trie width Leaf height}
    (ensured : tree.ensure alloc zero path state = some (made, after)) :
    made.find path ≠ none := by
  induction height generalizing state with
  | zero =>
    obtain ⟨rfl, -, isThere⟩ | ⟨rfl, frame, -, rfl⟩ := Trie.ensure_zero ensured
    · cases made with
      | absent => exact absurd rfl isThere
      | leaves frame entry => exact Option.some_ne_none _
    · exact Option.some_ne_none _
  | succ height inductionHypothesis => grind [Trie.ensure_succ, Trie.find]

/-- Making tables keeps the entries of the table at the top that the path does not follow. -/
theorem Trie.ensure_entry_of_ne {tree made : Trie width Leaf (height + 1)}
    (ensured : tree.ensure alloc zero path state = some (made, after)) {slot : Fin width}
    (different : slot ≠ path (height + 1)) : made.entry slot = tree.entry slot := by
  grind [Trie.ensure_succ, Trie.entry]

section

variable {room : State → Nat}
  (allocates : ∀ state, 0 < room state → ∃ frame after, alloc state = some (frame, after) ∧
    room state ≤ room after + 1)
include allocates

/-- With a page for every height, the tables of a path can be made. -/
theorem Trie.exists_ensure (tree : Trie width Leaf height) (enough : height + 1 ≤ room state) :
    ∃ made after, tree.ensure alloc zero path state = some (made, after) ∧
      room state ≤ room after + (height + 1) := by
  induction height generalizing state with
  | zero =>
    cases tree with
    | absent =>
      obtain ⟨frame, after, allocated, left⟩ := allocates state enough
      exact ⟨_, after, by rw [Trie.ensure, allocated, Option.map_some], left⟩
    | leaves frame entry => exact ⟨_, state, rfl, Nat.le_succ _⟩
  | succ height inductionHypothesis =>
    cases tree with
    | absent =>
      obtain ⟨frame, middle, allocated, left⟩ := allocates state (by omega)
      obtain ⟨below, after, ensured, leftBelow⟩ :=
        inductionHypothesis Trie.absent (by omega : height + 1 ≤ room middle)
      refine ⟨_, after, by
        rw [Trie.ensure, allocated]
        exact congrArg (Option.bind · _) ensured, ?_⟩
      omega
    | node frame entry =>
      obtain ⟨below, after, ensured, leftBelow⟩ :=
        inductionHypothesis (entry (path (height + 1))) (by omega : height + 1 ≤ room state)
      exact ⟨_, after, by rw [Trie.ensure]; exact congrArg (Option.bind · _) ensured, by omega⟩

/-- A table at the top is not made again. -/
theorem Trie.exists_ensure_node (frame : Nat) (entry : Fin width → Trie width Leaf height)
    (enough : height + 1 ≤ room state) :
    ∃ made after, (Trie.node frame entry).ensure alloc zero path state = some (made, after) ∧
      room state ≤ room after + (height + 1) := by
  obtain ⟨below, after, ensured, left⟩ :=
    Trie.exists_ensure allocates (entry (path (height + 1))) enough
  exact ⟨_, after, by rw [Trie.ensure]; exact congrArg (Option.bind · _) ensured, left⟩

end

theorem Trie.ensure_ne_absent {tree made : Trie width Leaf height}
    (ensured : tree.ensure alloc zero path state = some (made, after)) : made ≠ .absent := by
  rintro rfl
  exact Trie.find_ensure ensured (Trie.find_absent path)

end Ensure

/-! ### The account of pages -/

section Account

variable {height : Nat}

theorem Trie.frames_absent : (Trie.absent : Trie width Leaf height).frames = 0 := by
  cases height with
  | zero => rfl
  | succ height => rfl

/-- Replacing a table below moves the pages by its pages. -/
theorem Trie.frames_update (frame : Nat) (entry : Fin width → Trie width Leaf height)
    (slot : Fin width) (below : Trie width Leaf height) :
    (Trie.node frame (Function.update entry slot below)).frames + (entry slot).frames =
      (Trie.node frame entry).frames + below.frames := by
  have others : ∀ table : Fin width → Trie width Leaf height,
      ∑ other, (table other).frames =
        (table slot).frames + ∑ other ∈ Finset.univ.erase slot, (table other).frames :=
    fun table => (Finset.add_sum_erase _ _ (Finset.mem_univ slot)).symm
  have rest : ∑ other ∈ Finset.univ.erase slot, (Function.update entry slot below other).frames =
      ∑ other ∈ Finset.univ.erase slot, (entry other).frames :=
    Finset.sum_congr rfl fun other member => by
      rw [Function.update_of_ne (Finset.ne_of_mem_erase member)]
  rw [Trie.frames, Trie.frames, others, others, rest, Function.update_self,
    Multiset.cons_add, Multiset.cons_add, add_right_comm, add_comm below.frames,
    add_right_comm (entry slot).frames]

variable {State : Type} (Account : State → Multiset Nat → Prop)

/-- The pages of the tables that are made are new owners in the account. -/
theorem Trie.ensure_account {alloc : State → Option (Nat × State)} {zero : Leaf}
    {path : Path width} {state after : State} {tree made : Trie width Leaf height}
    (rest : Multiset Nat)
    (allocates : ∀ state owners frame after, Account state owners →
      alloc state = some (frame, after) → Account after (frame ::ₘ owners))
    (ensured : tree.ensure alloc zero path state = some (made, after))
    (account : Account state (tree.frames + rest)) : Account after (made.frames + rest) := by
  induction height generalizing state rest with
  | zero =>
    obtain ⟨rfl, rfl, -⟩ | ⟨rfl, frame, allocated, rfl⟩ := Trie.ensure_zero ensured
    · exact account
    · grind [Trie.frames, Multiset.singleton_add]
  | succ height inductionHypothesis =>
    obtain ⟨frame, entry, middle, below, isTree, ensuredBelow, rfl⟩ := Trie.ensure_succ ensured
    have accountNode : Account middle ((Trie.node frame entry).frames + rest) := by
      grind [frames_absent, frames, Finset.sum_eq_zero, Multiset.cons_add]
    -- the pages of the table below are set apart and given to the induction hypothesis
    have apart : ∃ others, (Trie.node frame entry).frames =
        (entry (path (height + 1))).frames + others := by
      refine ⟨frame ::ₘ ∑ slot ∈ Finset.univ.erase (path (height + 1)), (entry slot).frames, ?_⟩
      rw [Trie.frames, ← Finset.add_sum_erase _ _ (Finset.mem_univ (path (height + 1))),
        Multiset.add_cons]
    obtain ⟨others, isApart⟩ := apart
    have moved := Trie.frames_update frame entry (path (height + 1)) below
    rw [isApart, add_right_comm, add_comm] at moved
    have isMade := add_left_cancel (moved.trans (add_assoc _ _ _))
    rw [isApart, add_assoc] at accountNode
    have final := inductionHypothesis _ ensuredBelow accountNode
    rw [isMade, add_assoc]
    exact final

/-- Releasing a tree takes its pages out of the account. -/
theorem Trie.release_account {Error : Type} {free : State → Nat → Except Error State}
    {Fails : Error → Prop} {state : State} (rest : Multiset Nat)
    (frees : ∀ state owners frame, Account state (frame ::ₘ owners) →
      Ends (free state frame) Fails fun after => Account after owners)
    (tree : Trie width Leaf height) (account : Account state (tree.frames + rest)) :
    Ends (tree.release free state) Fails fun after => Account after rest := by
  induction height generalizing state rest with
  | zero =>
    cases tree with
    | absent =>
      rw [Trie.frames_absent, zero_add] at account
      exact account
    | leaves frame entry =>
      rw [Trie.frames, Multiset.singleton_add] at account
      exact frees state rest frame account
  | succ height inductionHypothesis =>
    cases tree with
    | absent =>
      rw [Trie.frames_absent, zero_add] at account
      exact account
    | node frame entry =>
      have turns : ∀ (slots : List (Fin width)) (state : State) (rest : Multiset Nat),
          Account state ((slots.map fun slot => (entry slot).frames).sum + rest) →
          Ends (slots.foldlM (fun state slot => (entry slot).release free state) state) Fails
            fun after => Account after rest := by
        intro slots
        induction slots with
        | nil =>
          intro state rest account
          rw [List.map_nil, List.sum_nil, zero_add] at account
          exact account
        | cons slot slots turnsRest => grind [Outcome.Ends.bind, add_assoc]
      rw [Trie.frames, Fin.sum_univ_def, Multiset.cons_add, ← Multiset.add_cons] at account
      exact (turns _ state _ account).bind fun middle account => frees middle rest frame account

end Account

/-! ### Gaps -/

/-- The height of the absent tree that a path comes to, if it does. -/
def Trie.gap : {height : Nat} → Trie width Leaf height → Path width → Option Nat
  | 0, .absent, _ => some 0
  | 0, .leaves _ _, _ => none
  | height + 1, .absent, _ => some (height + 1)
  | height + 1, .node _ entry, path => Trie.gap (entry (path (height + 1))) path

section Gaps

variable {height : Nat} {path other : Path width}

theorem Trie.gap_absent (path : Path width) :
    (Trie.absent : Trie width Leaf height).gap path = some height := by
  cases height with
  | zero => rfl
  | succ height => rfl

/-- A path without a gap ends at a leaf. -/
theorem Trie.find_eq_gap (zero : Leaf) (tree : Trie width Leaf height) (path : Path width) :
    tree.find path = if tree.gap path = none then some (tree.value zero path) else none := by
  induction height with
  | zero =>
    cases tree with
    | absent => rfl
    | leaves frame entry => rfl
  | succ height inductionHypothesis =>
    cases tree with
    | absent => rfl
    | node frame entry => exact inductionHypothesis (entry (path (height + 1)))

theorem Trie.find_eq_none_iff (tree : Trie width Leaf height) (path : Path width) :
    tree.find path = none ↔ tree.gap path ≠ none := by
  induction height with
  | zero =>
    cases tree with
    | absent => exact iff_of_true rfl (Option.some_ne_none 0)
    | leaves frame entry => exact iff_of_false (Option.some_ne_none _) fun gap => gap rfl
  | succ height inductionHypothesis =>
    cases tree with
    | absent => exact iff_of_true rfl (Option.some_ne_none _)
    | node frame entry => exact inductionHypothesis (entry (path (height + 1)))

/-- Storing a leaf opens and closes no gap. -/
theorem Trie.gap_store (tree : Trie width Leaf height) (path : Path width) (leaf : Leaf)
    (other : Path width) : (tree.store path leaf).gap other = tree.gap other := by
  induction height with
  | zero =>
    cases tree with
    | absent => rfl
    | leaves frame entry => rfl
  | succ height inductionHypothesis =>
    cases tree with
    | absent => rfl
    | node frame entry => grind [Trie.store, Trie.gap]

theorem Trie.gap_le {tree : Trie width Leaf height} {level : Nat}
    (isGap : tree.gap path = some level) : level ≤ height := by
  induction height with
  | zero =>
    cases tree with
    | absent => exact (Option.some_inj.mp isGap).ge
    | leaves frame entry => cases isGap
  | succ height inductionHypothesis =>
    cases tree with
    | absent => exact (Option.some_inj.mp isGap).ge
    | node frame entry => exact Nat.le_succ_of_le (inductionHypothesis isGap)

/-- A path that agrees with another one above its gap has the same gap. -/
theorem Trie.gap_congr {tree : Trie width Leaf height} {level : Nat}
    (isGap : tree.gap path = some level)
    (same : ∀ above, level < above → above ≤ height → other above = path above) :
    tree.gap other = some level := by
  induction height with
  | zero =>
    cases tree with
    | absent => exact isGap
    | leaves frame entry => cases isGap
  | succ height inductionHypothesis =>
    cases tree with
    | absent => exact isGap
    | node frame entry => grind [Trie.gap, Trie.gap_le]

theorem Trie.find_store_of_ne (tree : Trie width Leaf height) (leaf : Leaf)
    (different : ¬ Path.Same height path other) :
    (tree.store path leaf).find other = tree.find other := by
  rw [Trie.find_eq_gap leaf, Trie.find_eq_gap leaf, Trie.gap_store,
    Trie.value_store_of_ne tree leaf different]

theorem Trie.find_store_same {tree : Trie width Leaf height} (found : tree.find path ≠ none)
    (leaf : Leaf) (same : Path.Same height path other) :
    (tree.store path leaf).find other = some leaf := by
  have noGap : tree.gap path = none := by grind [Trie.find_eq_none_iff]
  have noGapOther : tree.gap other = none := by
    cases isGap : tree.gap other with
    | none => rfl
    | some level =>
      have alsoGap := Trie.gap_congr isGap fun above _ le => (same above le).symm
      rw [noGap] at alsoGap
      cases alsoGap
  rw [Trie.find_eq_gap leaf, Trie.gap_store, if_pos noGapOther,
    Trie.value_store_same found leaf same]

end Gaps

end Radix
