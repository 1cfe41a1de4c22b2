import Downhill.Matrix.Spectrum
import Downhill.Method.Basic

/-!
# Gradient methods

Steepest descent with a fixed step or with a line search, and the descent in which each coordinate
of the gradient is scaled by the inverse of its own second derivative.
-/

namespace Downhill

variable {F : Type} [Arithmetic F]

namespace Method

def steepest (rule : StepRule F) : Method F Unit where
  initial := ()
  rule := rule
  heading _ current := return { direction := neg current.gradient }
  learn _ _ _ _ := (none, ())

end Method

/-- What a method sees in a Hessian, whatever it makes of it. -/
def CurvatureDiagnostics.ofHessian (hessian : Rows F) (damping : F) (source : DirectionSource F)
    (preconditioner : Option (List F)) : CurvatureDiagnostics F :=
  let eigenvalues := Spectrum.eigenvalues hessian
  { hessian, damping, source, preconditioner, eigenvalues
    conditionNumber := eigenvalues.map Spectrum.conditionNumber }

/-- The inverse of a damped diagonal entry, where it is a finite number. -/
def inverseEntry? (damped : F) : Option F :=
  let inverse := 1 / damped
  if damped == 0 || !Arithmetic.isFinite inverse then none else some inverse

/-- The inverse of the damped diagonal, with one in place of each entry that has no inverse, and the
number of such entries. -/
def inverseDiagonal (hessian : Rows F) (damping : F) : List F × Nat :=
  let inverses := hessian.diagonal.map fun d => inverseEntry? (d + damping)
  (inverses.map fun i => i.getD 1, inverses.countP Option.isNone)

namespace Method

/-- Descent along the negative gradient, scaled by the inverse of the damped diagonal. -/
def diagonal (obj : Objective F) (damping : F) (rule : StepRule F) : Method F Unit where
  initial := ()
  rule := rule
  heading _ current := do
    let hessian ← obj.meteredHessian .diagonalPreconditioner current.point
    let (inverse, fallbackEntries) := inverseDiagonal hessian damping
    return {
      direction := List.zipWith (fun d g => -(d * g)) inverse current.gradient
      curvature := some (.ofHessian hessian damping (.preconditioner fallbackEntries)
        (some inverse)) }
  learn _ _ _ _ := (none, ())

end Method

end Downhill
