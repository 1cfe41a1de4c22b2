/-!
# Algorithms

The five descent methods, by how they choose a direction and a step.
-/

namespace Downhill

inductive Algorithm where
  | gradientDescent
  | gradientDescentLineSearch
  /-- Along the negative gradient, each coordinate scaled by its own second derivative. -/
  | diagonalPreconditioner
  /-- Along the solution of the damped Newton system. -/
  | newton
  /-- Along a direction built from the last steps and their changes of the gradient. -/
  | lbfgs
  deriving DecidableEq, Repr, Hashable

/-- How the methods that read second derivatives choose a step. -/
inductive LineSearchMode where
  | armijo
  /-- Always the full step. -/
  | off
  deriving DecidableEq, Repr

namespace Algorithm

/-- All methods, from those that know least about curvature to those that know most. -/
def all : List Algorithm :=
  [gradientDescent, gradientDescentLineSearch, diagonalPreconditioner, lbfgs, newton]

def needsHessian : Algorithm → Bool
  | newton | diagonalPreconditioner => true
  | gradientDescent | gradientDescentLineSearch | lbfgs => false

def usesLineSearch (mode : LineSearchMode) : Algorithm → Bool
  | gradientDescent => false
  | gradientDescentLineSearch | lbfgs => true
  | newton | diagonalPreconditioner => mode = .armijo

def title : Algorithm → String
  | gradientDescent => "gradient descent (fixed step)"
  | gradientDescentLineSearch => "gradient descent (line search)"
  | diagonalPreconditioner => "diagonal preconditioner"
  | newton => "Newton's method"
  | lbfgs => "L-BFGS"

end Algorithm

end Downhill
