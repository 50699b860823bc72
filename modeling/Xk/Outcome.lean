/-
This file gives the rules of pre- and postconditions for computations that return a value or stop
with an error. `Ends` says both at once: what holds of the value that is returned, and which errors
can occur. With no error admitted it is total correctness, and with all errors admitted it is
partial correctness, so that one proof serves for both where the errors are a parameter.
-/

import Mathlib

namespace Outcome

variable {Error Value Result : Type} {Fails : Error → Prop}

/-! ### Taking a computation apart -/

theorem ok_bind (value : Value) (rest : Value → Except Error Result) :
    (Except.ok value >>= rest) = rest value := rfl

theorem ok_of_bind {action : Except Error Value} {rest : Value → Except Error Result}
    {result : Result} (isOk : (action >>= rest) = .ok result) :
    ∃ value, action = .ok value ∧ rest value = .ok result := by
  cases action with
  | error failure => cases isOk
  | ok value => exact ⟨value, rfl, isOk⟩

theorem error_of_bind {action : Except Error Value} {rest : Value → Except Error Result}
    {failure : Error} (failed : (action >>= rest) = .error failure) :
    action = .error failure ∨ ∃ value, action = .ok value ∧ rest value = .error failure := by
  cases action with
  | error other => exact Or.inl (congrArg Except.error (Except.error.inj failed))
  | ok value => exact Or.inr ⟨value, rfl, failed⟩

theorem ok_pair {value other : Value} {result last : Result}
    (same : Except.ok (value, result) = (.ok (other, last) : Except Error (Value × Result))) :
    value = other ∧ result = last := Prod.mk.inj (Except.ok.inj same)

theorem ok_of_toOption {result : Except Error Value} {value : Value}
    (isSome : result.toOption = some value) : result = .ok value := by
  cases result with
  | error failure => cases isSome
  | ok value => exact congrArg Except.ok (Option.some_inj.mp isSome)

/-! ### Pre- and postconditions -/

/-- A computation that returns a value with a property or fails in one of the given ways. -/
def Ends (result : Except Error Value) (Fails : Error → Prop) (Post : Value → Prop) : Prop :=
  match result with
  | .ok value => Post value
  | .error error => Fails error

theorem Ends.bind {action : Except Error Value} {rest : Value → Except Error Result}
    {Middle : Value → Prop} {Post : Result → Prop} (first : Ends action Fails Middle)
    (second : ∀ value, Middle value → Ends (rest value) Fails Post) :
    Ends (action >>= rest) Fails Post := by
  cases action with
  | error error => exact first
  | ok value => exact second value first

theorem Ends.mono {action : Except Error Value} {Strong Weak : Value → Prop}
    (ends : Ends action Fails Strong) (weaken : ∀ value, Strong value → Weak value) :
    Ends action Fails Weak := by
  cases action with
  | error error => exact ends
  | ok value => exact weaken value ends

/-- A loop over a list, with an invariant that speaks of the items that are done. -/
theorem Ends.foldlM {Item : Type} {step : Value → Item → Except Error Value} {items : List Item}
    {value : Value} (Invariant : List Item → Value → Prop)
    (turn : ∀ done item rest value, items = done ++ item :: rest → Invariant done value →
      Ends (step value item) Fails (Invariant (done ++ [item])))
    (start : Invariant [] value) : Ends (items.foldlM step value) Fails (Invariant items) := by
  suffices loop : ∀ rest done value, items = done ++ rest → Invariant done value →
      Ends (rest.foldlM step value) Fails (Invariant items) from loop items [] value rfl start
  intro rest
  induction rest with
  | nil =>
    intro done value all invariant
    rw [List.append_nil] at all
    exact all ▸ invariant
  | cons item rest inductionHypothesis => grind [bind]

section

variable {Post : Value → Prop} {action : Except Error Value} (ends : Ends action Fails Post)
include ends

/-- What is returned has the property. -/
theorem Ends.post {value : Value} (returns : action = .ok value) : Post value := by
  subst returns
  exact ends

/-- An error that is not admitted does not occur. -/
theorem Ends.ne_error {error : Error} (notAdmitted : ¬ Fails error) : action ≠ .error error := by
  rintro rfl
  exact notAdmitted ends

/-- With no error admitted the computation returns. -/
theorem Ends.returns (never : ∀ error, ¬ Fails error) :
    ∃ value, action = .ok value ∧ Post value := by
  cases action with
  | error error => exact absurd ends (never error)
  | ok value => exact ⟨value, rfl, ends⟩

end

end Outcome
