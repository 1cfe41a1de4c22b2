import Downhill.Arithmetic

/-!
# Stopping rules

A run stops when the gradient, the change of the value or the step has become small, in this order
of precedence, and otherwise when its iterations are used up. A quantity that is no number is never
small, so a run that diverges lasts to its last iteration.
-/

namespace Downhill

structure Tolerances (F : Type) where
  gtol : F
  ftol : F
  xtol : F

namespace Tolerances

def double : Tolerances Float :=
  ⟨1e-6, 1e-12, 1e-12⟩

def single : Tolerances Float32 :=
  ⟨1e-4, 1e-7, 1e-7⟩

end Tolerances

/-- All stopping rules of a run. -/
structure StoppingCriteria (F : Type) extends Tolerances F where
  maxIter : Nat

/-- What the rules look at after an iteration. -/
structure Progress (F : Type) where
  gradNorm : F
  lossChange : F
  stepNorm : F
  iterations : Nat

inductive TerminationReason where
  | gradientNorm
  | functionChange
  | stepSize
  | maxIterations
  deriving DecidableEq, Repr

namespace TerminationReason

def isConverged : TerminationReason → Bool
  | maxIterations => false
  | _ => true

def message : TerminationReason → String
  | gradientNorm => "converged: gradient norm below tolerance"
  | functionChange => "converged: loss change below tolerance"
  | stepSize => "converged: step size below tolerance"
  | maxIterations => "maximum iterations reached"

end TerminationReason

/-- The first rule that stops the run, if there is one. -/
def StoppingCriteria.evaluate {F : Type} [Arithmetic F] (criteria : StoppingCriteria F)
    (progress : Progress F) : Option TerminationReason :=
  if progress.gradNorm < criteria.gtol then some .gradientNorm
  else if progress.lossChange < criteria.ftol then some .functionChange
  else if progress.stepNorm < criteria.xtol then some .stepSize
  else if criteria.maxIter ≤ progress.iterations then some .maxIterations
  else none

end Downhill
