/-
This file sets up queues that are linked through a pointer in each node. The first node is taken
off, and a node is put in behind the last one, which is found by walking along the queue.
-/

import Mathlib

namespace LinkedQueue

variable {Node : Type*}

/-- The nodes of a queue, from a pointer to the first one. -/
def Linked (next : Node → Option Node) : Option Node → List Node → Prop
  | first, [] => first = none
  | first, node :: rest => first = some node ∧ Linked next (next node) rest

/-- The last node of a queue, by a walk of at most so many steps. -/
def last (next : Node → Option Node) : Nat → Node → Option Node
  | 0, _ => none
  | steps + 1, node =>
    match next node with
    | none => some node
    | some following => last next steps following

variable {next other : Node → Option Node} {first : Option Node} {queue : List Node}

/-- A queue depends on the pointers of its nodes only. -/
theorem Linked.congr (linked : Linked next first queue)
    (same : ∀ node ∈ queue, other node = next node) : Linked other first queue := by
  induction queue generalizing first with
  | nil => exact linked
  | cons node rest inductionHypothesis =>
    refine ⟨linked.1, ?_⟩
    rw [same node List.mem_cons_self]
    exact inductionHypothesis linked.2 fun later isLater =>
      same later (List.mem_cons_of_mem node isLater)

variable [DecidableEq Node]

/-- The pointers after a node has been put in behind the last one: the pointer to the first node,
and those of the nodes. There are none when the walk does not end. -/
def append (next : Node → Option Node) (steps : Nat) (first : Option Node) (node : Node) :
    Option (Option Node × (Node → Option Node)) :=
  let cleared := Function.update next node none
  match first with
  | none => some (some node, cleared)
  | some start => (last cleared steps start).map fun tail =>
    (some start, Function.update cleared tail (some node))

/-- The walk ends at the last node, and the node that is put in there becomes the last one. -/
theorem Linked.last (linked : Linked next first queue) {start node : Node}
    (isFirst : first = some start) (absent : node ∉ queue) (ends : next node = none)
    (distinct : queue.Nodup) {steps : Nat} (enough : queue.length ≤ steps) :
    ∃ tail ∈ queue, LinkedQueue.last next steps start = some tail ∧
      Linked (Function.update next tail (some node)) first (queue ++ [node]) := by
  induction queue generalizing first start steps with
  | nil => exact nomatch isFirst.symm.trans linked
  | cons head rest inductionHypothesis =>
    obtain ⟨isHead, linked⟩ := linked
    obtain rfl := Option.some_inj.mp (isFirst.symm.trans isHead)
    obtain ⟨steps, rfl⟩ : ∃ fewer, steps = fewer + 1 := ⟨steps - 1, by grind⟩
    rw [List.nodup_cons] at distinct
    cases rest with
    | nil =>
      have isNone : next start = none := linked
      have apart : node ≠ start := fun same => absent (same ▸ List.mem_cons_self)
      refine ⟨start, List.mem_cons_self, by rw [LinkedQueue.last, isNone], isFirst, ?_⟩
      refine ⟨Function.update_self start _ _, ?_⟩
      rw [Function.update_of_ne apart]
      exact ends
    | cons second rest =>
      have isSecond : next start = some second := linked.1
      obtain ⟨tail, inRest, isTail, linkedTail⟩ := inductionHypothesis linked isSecond
        (fun inRest => absent (List.mem_cons_of_mem start inRest)) distinct.2
        (Nat.le_of_succ_le_succ enough)
      have apart : start ≠ tail := fun same => distinct.1 (same ▸ inRest)
      refine ⟨tail, List.mem_cons_of_mem start inRest, ?_, isFirst, ?_⟩
      · rw [LinkedQueue.last, isSecond]
        exact isTail
      · simp_all

/-- A node that is not in the queue becomes its last one. -/
theorem Linked.append (linked : Linked next first queue) {node : Node} (absent : node ∉ queue)
    (distinct : queue.Nodup) {steps : Nat} (enough : queue.length ≤ steps) :
    ∃ start after, LinkedQueue.append next steps first node = some (start, after) ∧
      Linked after start (queue ++ [node]) := by
  have cleared : Linked (Function.update next node none) first queue :=
    linked.congr fun other inQueue =>
      Function.update_of_ne (fun same : other = node => absent (same ▸ inQueue)) _ _
  have ends : Function.update next node none node = none := Function.update_self node _ _
  cases isFirst : first with
  | none =>
    cases queue with
    | nil => exact ⟨some node, _, rfl, rfl, ends⟩
    | cons head rest => exact nomatch isFirst.symm.trans linked.1
  | some start =>
    obtain ⟨tail, -, isTail, linkedTail⟩ := cleared.last isFirst absent ends distinct enough
    refine ⟨some start, _, ?_, isFirst ▸ linkedTail⟩
    rw [LinkedQueue.append, isTail]
    rfl

end LinkedQueue
