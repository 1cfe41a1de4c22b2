import Downhill.Method.Lbfgs
import Downhill.Method.Newton

/-!
# Running a method

`run` checks the options, runs a method on an objective from the initial point, and answers with the
trace of the run, or with the reason why there is none.
-/

namespace Downhill

variable {F : Type} [Arithmetic F]

/-- The step of the methods that read second derivatives. -/
def Options.stepRule (options : Options F) : StepRule F :=
  match options.lineSearch with
  | .armijo => .armijo options.armijo
  | .off => .fixed 1

/-- The iterations of a method, without a check of the options. -/
def iterate (algorithm : Algorithm) (obj : Objective F) (options : Options F) :
    Metered (List (IterationRecord F) × TerminationReason) :=
  match algorithm with
  | .gradientDescent => (Method.steepest (.fixed options.alpha)).run obj options
  | .gradientDescentLineSearch => (Method.steepest (.armijo options.armijo)).run obj options
  | .diagonalPreconditioner =>
    (Method.diagonal obj options.hessianDamping options.stepRule).run obj options
  | .newton => (Method.newton obj options.hessianDamping options.stepRule).run obj options
  | .lbfgs => do
    Metered.reserve (CurvatureMemory.hasRoom F options.memory options.maxIter)
    (Method.lbfgs options.memory options.armijo).run obj options

/-- Runs a method on an objective. -/
def run (algorithm : Algorithm) (obj : Objective F) (options : Options F) :
    Except Failure (Trace F) := do
  (options.validate algorithm obj.dim obj.hasHessian).mapError .rejected
  let ((iterations, termination), evaluations) ← (iterate algorithm obj options).run {}
  return { algorithm, iterations, termination, evaluations }

end Downhill
