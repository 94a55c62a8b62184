import Pipewright.Error

/-!
# Actions

What the program does to its surroundings it does step by step, and a step that fails leaves the
effects of the steps before it.  An action takes a state and ends in a result or an error, and in
a state either way.

* `Act`: actions on a state.
* `Act.within`: an action on a part of a state.
* `Act.attempt`: an action whose error is looked at.
-/

namespace Pipewright

/-- An action on a state, which may fail. -/
abbrev Act (σ : Type) := ExceptT Error (StateM σ)

namespace Act

variable {σ τ α : Type}

/-- An action on the part of a state that `get` takes out and `set` puts back. -/
def within (get : σ → τ) (set : τ → σ → σ) (action : Act τ α) : Act σ α := fun s =>
  let (result, t) := action (get s)
  (result, set t s)

/-- An action with its error as a part of the result, so that what comes next is up to the
caller. -/
def attempt (action : Act σ α) : Act σ (Except Error α) := fun s =>
  let (result, s') := action s
  (.ok result, s')

/-- Ends in a result that has been worked out already. -/
def settle (result : Except Error α) : Act σ α := fun s =>
  (result, s)

end Act

end Pipewright
