import Downhill.Matrix.Basic

/-!
# Objectives

What is minimized: a function of vectors of a fixed dimension, with a gradient and perhaps a Hessian.
Nothing ties the three together; whether a gradient is the derivative of its value is a property of
each objective.
-/

namespace Downhill

structure Objective (F : Type) where
  dim : Nat
  value : List F → F
  gradient : List F → List F
  /-- The matrix of second derivatives, where it is known. -/
  hessian : List F → Option (Rows F) := fun _ => none
  /-- Whether the objective claims to know its second derivatives. -/
  hasHessian : Bool := false

namespace Objective

variable {F : Type}

/-- The objective of a value and a gradient, with second derivatives everywhere or nowhere. -/
def ofFunctions (dim : Nat) (value : List F → F) (gradient : List F → List F)
    (hessian : Option (List F → Rows F)) : Objective F where
  dim := dim
  value := value
  gradient := gradient
  hessian w := hessian.map fun h => h w
  hasHessian := hessian.isSome

end Objective

end Downhill
