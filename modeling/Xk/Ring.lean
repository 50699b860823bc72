/-
This file is about doubly linked lists that are closed into a ring by a head node: taking a node
out, putting one in after the head, and a loop along the ring.
-/

import Mathlib

namespace Ring

variable {Node : Type*}

/-- The two pointers of every node. -/
structure Links (Node : Type*) where
  next : Node → Node
  prev : Node → Node

variable [DecidableEq Node]

def Links.setNext (links : Links Node) (node next : Node) : Links Node :=
  { links with next := Function.update links.next node next }

def Links.setPrev (links : Links Node) (node prev : Node) : Links Node :=
  { links with prev := Function.update links.prev node prev }

/-- Take a node out: its neighbours point at each other. -/
def Links.unlink (links : Links Node) (node : Node) : Links Node :=
  let closed := links.setPrev (links.next node) (links.prev node)
  closed.setNext (closed.prev node) (closed.next node)

/-- Put a node in after the head. -/
def Links.insert (links : Links Node) (head node : Node) : Links Node :=
  let pointed := (links.setNext node (links.next head)).setPrev node head
  (pointed.setPrev (pointed.next head) node).setNext head node

/-- A loop that follows one pointer until it is back at the head or finds a node: `none` when it
has not ended after the given number of turns. -/
def search (follow : Node → Node) (head : Node) (found : Node → Bool) :
    Nat → Node → Option (Option Node)
  | 0, _ => none
  | turns + 1, node =>
    if node = head then some none
    else if found node then some (some node)
    else search follow head found turns (follow node)

end Ring
