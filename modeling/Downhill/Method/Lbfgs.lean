import Downhill.Method.Basic
import Downhill.Method.CurvatureMemory
import Downhill.Method.TwoLoop

/-!
# The limited memory method

The direction is the negative gradient as long as the memory is empty, and after that the negative
of the two-loop product over the memory. After each step its pair is offered to the memory.
-/

namespace Downhill

variable {F : Type} [Arithmetic F]

/-- The heading for the pairs of a memory, newest first. -/
def lbfgsHeading (pairs : List (CurvaturePair F)) (gradient : List F) : Heading F :=
  match pairs with
  | [] => { direction := neg gradient }
  | newest :: older =>
    let (r, stages) := TwoLoop.recursion gradient newest older
    { direction := neg r, twoLoop := some stages }

/-- Descent along the two-loop direction, with at most `memory` pairs. -/
def Method.lbfgs (memory : Nat) (params : ArmijoParams F) : Method F (CurvatureMemory F) where
  initial := .empty memory
  rule := .armijo params
  heading pairs current := return lbfgsHeading pairs.toList.reverse current.gradient
  learn pairs heading record newGradient :=
    let (update, next) := pairs.learn (sub record.wNew record.wOld)
      (sub newGradient record.gradient)
    (some ⟨pairs.toList, heading.twoLoop, update⟩, next)

end Downhill
