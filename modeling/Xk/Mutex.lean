/-
This file says when a lock is held by whoever is at a place in the code that only its holder should
be at. One step moves one thread: it takes the lock, releases it, or leaves it as it is.
-/

import Mathlib

namespace Mutex

variable {Thread Place : Type*} {holder : Option Thread} {place : Thread → Place}
  {Guarded : Place → Prop}

/-- The holder of a lock is the thread that is at a guarded place. -/
def Held (holder : Option Thread) (place : Thread → Place) (Guarded : Place → Prop) : Prop :=
  ∀ thread, holder = some thread ↔ Guarded (place thread)

/-- Two threads are not at guarded places at once. -/
theorem Held.unique (held : Held holder place Guarded) {first second : Thread}
    (isFirst : Guarded (place first)) (isSecond : Guarded (place second)) : first = second :=
  Option.some_inj.mp (((held first).mpr isFirst).symm.trans ((held second).mpr isSecond))

/-- While the lock is free nobody is at a guarded place. -/
theorem Held.not_guarded (held : Held holder place Guarded) (free : holder = none)
    (thread : Thread) : ¬ Guarded (place thread) := fun guarded =>
  nomatch free.symm.trans ((held thread).mpr guarded)

variable [DecidableEq Thread]

theorem Held.keep (held : Held holder place Guarded) {thread : Thread} {next : Place}
    (same : Guarded next ↔ Guarded (place thread)) :
    Held holder (Function.update place thread next) Guarded := by
  intro other
  by_cases isThread : other = thread
  · rw [isThread, Function.update_self, same]
    exact held thread
  · rw [Function.update_of_ne isThread]
    exact held other

theorem Held.take (held : Held holder place Guarded) (free : holder = none) {thread : Thread}
    {next : Place} (guarded : Guarded next) :
    Held (some thread) (Function.update place thread next) Guarded := by
  intro other
  by_cases isThread : other = thread
  · grind
  · rw [Function.update_of_ne isThread]
    exact iff_of_false (fun same => isThread (Option.some_inj.mp same).symm)
      (held.not_guarded free other)

theorem Held.drop (held : Held holder place Guarded) {thread : Thread} {next : Place}
    (holds : Guarded (place thread)) (outside : ¬ Guarded next) :
    Held none (Function.update place thread next) Guarded := by
  intro other
  refine iff_of_false nofun ?_
  by_cases isThread : other = thread
  · grind
  · rw [Function.update_of_ne isThread]
    exact fun guarded => isThread (held.unique guarded holds)

end Mutex
