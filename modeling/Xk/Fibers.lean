/-
This file sets up programs that are interleaved. A program is a tree of steps: it takes or releases
a lock, asks whether a lock is held, or acts on the memory that all programs share. Between two
steps any other program can run. A step can be inside of a place, which is a lock that it should be
done under.

`Proper` is the precondition of a program for what a process owns. A process owns the locks that it
has taken, and a part of the shared memory: `Valid` says what all parts together have to do with the
memory, so that a step of one process leaves the parts of the others as they are. Whether a lock is
held is asked without regard to who holds it. A proper program relies on the answer being about
itself, which is so as long as the lock that is asked about is not held by anybody else.
-/

import Xk.Transition

namespace Fibers

open Transition

/-! ### Programs -/

/-- A program that returns a value or stops with an error. -/
inductive Fiber (Lock Shared Error Value : Type) : Type 1
  | done (value : Value)
  | stop (error : Error)
  | acquire (lock : Lock) (rest : Fiber Lock Shared Error Value)
  | release (lock : Lock) (rest : Fiber Lock Shared Error Value)
  | holding (place : Option Lock) (lock : Lock) (rest : Bool → Fiber Lock Shared Error Value)
  | access (place : Option Lock) {Result : Type}
      (action : Shared → Except Error (Result × Shared))
      (rest : Result → Fiber Lock Shared Error Value)

variable {Lock Shared Error Value Result : Type}

namespace Fiber

def bind : Fiber Lock Shared Error Value → (Value → Fiber Lock Shared Error Result) →
    Fiber Lock Shared Error Result
  | .done value, next => next value
  | .stop error, _ => .stop error
  | .acquire lock rest, next => .acquire lock (rest.bind next)
  | .release lock rest, next => .release lock (rest.bind next)
  | .holding place lock rest, next => .holding place lock fun held => (rest held).bind next
  | .access place action rest, next => .access place action fun result => (rest result).bind next

instance : Monad (Fiber Lock Shared Error) where
  pure := .done
  bind := .bind

/-- The place that the next step is inside of. -/
def inside : Fiber Lock Shared Error Value → Option Lock
  | .holding place _ _ | .access place _ _ => place
  | _ => none

/-- The error that the program has stopped with. -/
def stopped : Fiber Lock Shared Error Value → Option Error
  | .stop error => some error
  | _ => none

/-- A value that does not depend on the shared memory, or an error. -/
def lift : Except Error Value → Fiber Lock Shared Error Value
  | .ok value => .done value
  | .error error => .stop error

end Fiber

/-! ### Processes -/

/-- What the processes do, who holds the locks, and the shared memory. -/
structure System (Proc Lock Shared Error : Type) where
  code : Proc → Fiber Lock Shared Error Unit
  owner : Lock → Option Proc
  shared : Shared

/-- A process that is done starts a call, or a process goes on. -/
inductive Action (Proc Call : Type)
  | start (process : Proc) (call : Call)
  | turn (process : Proc)

section Steps

variable {Proc Call : Type} [DecidableEq Proc] [DecidableEq Lock]

/-- The next step of a process. -/
def System.turn (system : System Proc Lock Shared Error) (process : Proc) :
    Option (System Proc Lock Shared Error) :=
  let goes := fun code => { system with code := Function.update system.code process code }
  match system.code process with
  | .done _ | .stop _ => none
  | .acquire lock rest =>
    if system.owner lock = none then
      some { goes rest with owner := Function.update system.owner lock (some process) }
    else none
  | .release lock rest =>
    some { goes rest with owner := Function.update system.owner lock none }
  | .holding _ lock rest => some (goes (rest (system.owner lock).isSome))
  | .access _ action rest =>
    match action system.shared with
    | .error error => some (goes (.stop error))
    | .ok (result, after) => some { goes (rest result) with shared := after }

/-- One step. A call can be for a process that holds some locks. -/
def System.step (program : Call → Fiber Lock Shared Error Unit) (needs : Call → List Lock)
    (system : System Proc Lock Shared Error) :
    Action Proc Call → Option (System Proc Lock Shared Error)
  | .start process call =>
    match system.code process with
    | .done _ =>
      if ∀ lock ∈ needs call, system.owner lock = some process then
        some { system with code := Function.update system.code process (program call) }
      else none
    | _ => none
  | .turn process => system.turn process

/-- A process asks for a lock only while nobody else holds it. -/
def System.Undisturbed (system : System Proc Lock Shared Error) : Action Proc Call → Prop
  | .start _ _ => True
  | .turn process =>
    match system.code process with
    | .holding _ lock _ => system.owner lock = none ∨ system.owner lock = some process
    | _ => True

instance (system : System Proc Lock Shared Error) :
    ∀ action : Action Proc Call, Decidable (system.Undisturbed action)
  | .start _ _ => .isTrue trivial
  | .turn process =>
    match isCode : system.code process with
    | .holding _ lock _ =>
      decidable_of_iff (system.owner lock = none ∨ system.owner lock = some process)
        (by rw [System.Undisturbed, isCode])
    | .done _ | .stop _ | .acquire _ _ | .release _ _ | .access _ _ _ =>
      .isTrue (by rw [System.Undisturbed, isCode]; trivial)

end Steps

/-! ### Proper programs -/

section Proper

variable {Proc Own : Type} [DecidableEq Proc] (Valid : (Proc → Own) → Shared → Prop)
  (Allowed : Error → Prop) (process : Proc)

/-- The program keeps to what the process owns, stops with an allowed error only, and ends with the
postcondition. -/
def Proper {Value : Type} : Fiber Lock Shared Error Value → Set Lock → Own →
    (Set Lock → Own → Value → Prop) → Prop
  | .done value, locks, own, Post => Post locks own value
  | .stop error, _, _, _ => Allowed error
  | .acquire lock rest, locks, own, Post => lock ∉ locks → Proper rest (insert lock locks) own Post
  | .release lock rest, locks, own, Post => lock ∈ locks ∧ Proper rest (locks \ {lock}) own Post
  | .holding place lock rest, locks, own, Post =>
    (∀ within ∈ place, within ∈ locks) ∧
      ∀ held, (held = true ↔ lock ∈ locks) → Proper (rest held) locks own Post
  | .access place action rest, locks, own, Post =>
    (∀ within ∈ place, within ∈ locks) ∧
      ∀ owns shared, Valid owns shared → owns process = own →
        match action shared with
        | .error error => Allowed error
        | .ok (result, after) => ∃ own, Valid (Function.update owns process own) after ∧
          Proper (rest result) locks own Post

variable {Valid Allowed process} {locks : Set Lock} {own : Own}

theorem Proper.mono {code : Fiber Lock Shared Error Value}
    {Strong Weak : Set Lock → Own → Value → Prop}
    (proper : Proper Valid Allowed process code locks own Strong)
    (weaken : ∀ locks own value, Strong locks own value → Weak locks own value) :
    Proper Valid Allowed process code locks own Weak := by
  induction code generalizing locks own with
  | done value => exact weaken locks own value proper
  | stop error => exact proper
  | acquire lock rest inductionHypothesis =>
    exact fun free => inductionHypothesis (proper free)
  | release lock rest inductionHypothesis => exact ⟨proper.1, inductionHypothesis proper.2⟩
  | holding place lock rest inductionHypothesis =>
    exact ⟨proper.1, fun held isHeld => inductionHypothesis held (proper.2 held isHeld)⟩
  | access place action rest inductionHypothesis =>
    refine ⟨proper.1, fun owns shared valid isOwn => ?_⟩
    have step := proper.2 owns shared valid isOwn
    cases isResult : action shared with
    | error error => grind
    | ok pair => grind

/-- The rule for a sequence. -/
theorem Proper.bind {code : Fiber Lock Shared Error Value}
    {next : Value → Fiber Lock Shared Error Result} {Middle : Set Lock → Own → Value → Prop}
    {Post : Set Lock → Own → Result → Prop}
    (first : Proper Valid Allowed process code locks own Middle)
    (second : ∀ locks own value, Middle locks own value →
      Proper Valid Allowed process (next value) locks own Post) :
    Proper Valid Allowed process (code >>= next) locks own Post := by
  show Proper Valid Allowed process (code.bind next) locks own Post
  induction code generalizing locks own with
  | done value => exact second locks own value first
  | stop error => exact first
  | acquire lock rest inductionHypothesis => exact fun free => inductionHypothesis (first free)
  | release lock rest inductionHypothesis => exact ⟨first.1, inductionHypothesis first.2⟩
  | holding place lock rest inductionHypothesis =>
    exact ⟨first.1, fun held isHeld => inductionHypothesis held (first.2 held isHeld)⟩
  | access place action rest inductionHypothesis =>
    refine ⟨first.1, fun owns shared valid isOwn => ?_⟩
    have step := first.2 owns shared valid isOwn
    cases isResult : action shared with
    | error error => grind
    | ok pair => grind

/-- The rule for an action that leaves what everybody owns as it is. -/
theorem Proper.quiet {place : Option Lock} {action : Shared → Except Error (Result × Shared)}
    {rest : Result → Fiber Lock Shared Error Value} {Post : Set Lock → Own → Value → Prop}
    (within : ∀ lock ∈ place, lock ∈ locks)
    (quiet : ∀ shared result after, action shared = .ok (result, after) →
      ∀ owns, Valid owns shared → Valid owns after)
    (allowed : ∀ shared error, action shared = .error error → Allowed error)
    (proper : ∀ result, Proper Valid Allowed process (rest result) locks own Post) :
    Proper Valid Allowed process (.access place action rest) locks own Post := by
  refine ⟨within, fun owns shared valid isOwn => ?_⟩
  cases isResult : action shared with
  | error error => exact allowed shared error isResult
  | ok pair => grind [Function.update_eq_self]

end Proper

/-! ### Every run -/

section Runs

variable {Proc Call Own : Type} [DecidableEq Proc] [DecidableEq Lock]
  {Valid : (Proc → Own) → Shared → Prop} {Allowed : Error → Prop}
  {program : Call → Fiber Lock Shared Error Unit} {needs : Call → List Lock}
  {system next : System Proc Lock Shared Error}

/-- The locks that a process holds. -/
def System.held (system : System Proc Lock Shared Error) (process : Proc) : Set Lock :=
  {lock | system.owner lock = some process}

/-- Every process runs a program that is proper for what it owns. -/
def System.Owned (Valid : (Proc → Own) → Shared → Prop) (Allowed : Error → Prop)
    (system : System Proc Lock Shared Error) : Prop :=
  ∃ owns, Valid owns system.shared ∧ ∀ process,
    Proper Valid Allowed process (system.code process) (system.held process) (owns process)
      fun _ _ _ => True

omit [DecidableEq Lock] in
/-- One process goes on with a program that is proper for what it owns then, and the locks of the
others are the same. -/
theorem System.Owned.move {owns : Proc → Own} {process : Proc}
    (proper : ∀ other, Proper Valid Allowed other (system.code other) (system.held other)
      (owns other) fun _ _ _ => True)
    {code : Fiber Lock Shared Error Unit} {own : Own} {owner : Lock → Option Proc}
    {after : Shared} (valid : Valid (Function.update owns process own) after)
    (same : ∀ lock other, other ≠ process →
      (owner lock = some other ↔ system.owner lock = some other))
    (isProper : Proper Valid Allowed process code {lock | owner lock = some process} own
      fun _ _ _ => True) :
    System.Owned Valid Allowed
      ⟨Function.update system.code process code, owner, after⟩ := by
  refine ⟨Function.update owns process own, valid, fun other => ?_⟩
  show Proper Valid Allowed other (Function.update system.code process code other)
    {lock | owner lock = some other} _ _
  by_cases isProcess : other = process
  · grind
  · have sameHeld : {lock | owner lock = some other} = system.held other :=
      Set.ext fun lock => same lock other isProcess
    rw [Function.update_of_ne isProcess, Function.update_of_ne isProcess, sameHeld]
    exact proper other

theorem System.Owned.turn (owned : system.Owned Valid Allowed) {process : Proc}
    (undisturbed : system.Undisturbed (.turn process : Action Proc Call))
    (taken : system.turn process = some next) : next.Owned Valid Allowed := by
  obtain ⟨owns, valid, proper⟩ := owned
  have isProper := proper process
  have kept : Valid (Function.update owns process (owns process)) system.shared := by simp_all
  unfold System.Undisturbed at undisturbed
  unfold System.turn at taken
  dsimp only at undisturbed taken
  split at taken
  case h_1 | h_2 => cases taken
  case h_3 lock rest isCode =>
    split_ifs at taken with isFree
    rw [isCode] at isProper
    have notHeld : lock ∉ system.held process := fun isHeld => nomatch isFree.symm.trans isHeld
    rw [← Option.some_inj.mp taken]
    refine System.Owned.move proper kept (fun other holder different => ?_) ?_
    · grind
    · have isHeld : {other | Function.update system.owner lock (some process) other =
          some process} = insert lock (system.held process) := by
        ext other
        by_cases isLock : other = lock
        · simp [isLock]
        · simp [isLock, System.held]
      rw [isHeld]
      exact isProper notHeld
  case h_4 lock rest isCode =>
    rw [isCode] at isProper
    obtain ⟨isOwner, isProper⟩ := isProper
    have isOwner : system.owner lock = some process := isOwner
    rw [← Option.some_inj.mp taken]
    refine System.Owned.move proper kept (fun other holder different => ?_) ?_
    · grind
    · have isHeld : {other | Function.update system.owner lock none other = some process} =
          system.held process \ {lock} := by
        grind [System.held]
      rw [isHeld]
      exact isProper
  case h_5 place lock rest isCode =>
    rw [isCode] at isProper undisturbed
    rw [← Option.some_inj.mp taken]
    refine System.Owned.move proper kept (fun _ _ _ => Iff.rfl) (isProper.2 _ ?_)
    rcases undisturbed with isFree | isOwn
    · exact ⟨fun isSome => (by rw [isFree] at isSome; cases isSome),
        fun isHeld => nomatch isFree.symm.trans isHeld⟩
    · exact ⟨fun _ => isOwn, fun _ => by rw [isOwn]; rfl⟩
  case h_6 place Result action rest isCode =>
    rw [isCode] at isProper
    have step := isProper.2 owns system.shared valid rfl
    split at taken
    case h_1 error isError =>
      rw [isError] at step
      rw [← Option.some_inj.mp taken]
      exact System.Owned.move proper kept (fun _ _ _ => Iff.rfl) step
    case h_2 result after isOk =>
      rw [isOk] at step
      obtain ⟨own, validAfter, properAfter⟩ := step
      rw [← Option.some_inj.mp taken]
      exact System.Owned.move proper validAfter (fun _ _ _ => Iff.rfl) properAfter

section

variable
  (calls : ∀ process call (locks : Set Lock) (own : Own), (∀ lock ∈ needs call, lock ∈ locks) →
    Proper Valid Allowed process (program call) locks own fun _ _ _ => True)
include calls

/-- A step keeps to what the processes own, where every call is proper for who starts it. -/
theorem System.Owned.step (owned : system.Owned Valid Allowed) {action : Action Proc Call}
    (undisturbed : system.Undisturbed action) (taken : system.step program needs action = some next)
    : next.Owned Valid Allowed := by
  cases action with
  | turn process => exact owned.turn undisturbed taken
  | start process call =>
    unfold System.step at taken
    dsimp only at taken
    split at taken
    case h_2 => cases taken
    case h_1 =>
      split_ifs at taken with isReady
      obtain ⟨owns, valid, proper⟩ := owned
      rw [← Option.some_inj.mp taken]
      refine System.Owned.move proper (by rwa [Function.update_eq_self]) (fun _ _ _ => Iff.rfl) ?_
      exact calls process call _ _ isReady

/-- A run in which nobody is asked about the lock of another one keeps to what the processes own. -/
theorem run_owned {start final : System Proc Lock Shared Error} {actions : List (Action Proc Call)}
    (runs : run (System.step program needs) start actions = some final)
    (undisturbed : Respects (System.step program needs) System.Undisturbed start actions)
    (owned : start.Owned Valid Allowed) : final.Owned Valid Allowed :=
  run_invariant_of_respects (System.Owned Valid Allowed)
    (fun _ _ _ taken undisturbed owned => owned.step calls undisturbed taken) runs undisturbed owned

end

omit [DecidableEq Lock] in
/-- Who is inside of a place holds its lock. -/
theorem System.Owned.inside (owned : system.Owned Valid Allowed) {process : Proc} {place : Lock}
    (isInside : (system.code process).inside = some place) :
    system.owner place = some process := by
  obtain ⟨owns, -, proper⟩ := owned
  have isProper := proper process
  cases isCode : system.code process with
  | done value => rw [isCode] at isInside; cases isInside
  | stop error => rw [isCode] at isInside; cases isInside
  | acquire lock rest => rw [isCode] at isInside; cases isInside
  | release lock rest => rw [isCode] at isInside; cases isInside
  | holding within lock rest =>
    rw [isCode] at isInside isProper
    exact isProper.1 place isInside
  | access within action rest =>
    rw [isCode] at isInside isProper
    exact isProper.1 place isInside

omit [DecidableEq Lock] in
/-- Nobody has stopped with an error that is not allowed. -/
theorem System.Owned.allowed (owned : system.Owned Valid Allowed) {process : Proc} {error : Error}
    (stopped : (system.code process).stopped = some error) : Allowed error := by
  obtain ⟨owns, -, proper⟩ := owned
  have isProper := proper process
  unfold Fiber.stopped at stopped
  split at stopped
  case h_1 isCode =>
    rw [isCode] at isProper
    exact Option.some_inj.mp stopped ▸ isProper
  case h_2 => cases stopped

end Runs

end Fibers
