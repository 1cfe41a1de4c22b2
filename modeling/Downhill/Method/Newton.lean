import Downhill.Method.Gradient

/-!
# Damped Newton steps

The direction solves the Newton system with a multiple of the identity added to the Hessian. An
indefinite matrix can make it point uphill, and it is not corrected. Only where no attempt at the
system succeeds is the negative gradient taken instead.
-/

namespace Downhill

variable {F : Type} [Arithmetic F]

/-- The Newton direction for a Hessian and a gradient, and where it comes from. -/
def newtonDirection (hessian : Rows F) (damping : F) (gradient : List F) :
    List F × DirectionSource F :=
  match solveSymmetric (hessian.addDiagonal damping) (neg gradient) with
  | some solved => (solved.solution, .solve solved.method)
  | none => (neg gradient, .steepestDescentFallback)

/-- Descent along the Newton direction. -/
def Method.newton (obj : Objective F) (damping : F) (rule : StepRule F) : Method F Unit where
  initial := ()
  rule := rule
  heading _ current := do
    let hessian ← obj.meteredHessian .newton current.point
    let (direction, source) := newtonDirection hessian damping current.gradient
    return { direction, curvature := some (.ofHessian hessian damping source none) }
  learn _ _ _ _ := (none, ())

end Downhill
