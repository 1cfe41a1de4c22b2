import Downhill.Objective

/-!
# Polynomial objectives

Objectives whose value and derivatives are given as polynomials, each on its own. Nothing asks the
gradient to be the derivative of the value.
-/

namespace Downhill

/-- A coefficient and the exponents of the variables. -/
structure Monomial (F : Type) where
  coefficient : F
  exponents : List Nat

/-- A sum of monomials. -/
abbrev Polynomial (F : Type) := List (Monomial F)

namespace Monomial

variable {F : Type} [Arithmetic F]

/-- The value at a point: the coefficient, multiplied by each variable as often as its exponent
says. -/
def eval (m : Monomial F) (x : List F) : F :=
  (m.exponents.zip x).foldl (fun t p => p.1.repeat (· * p.2) t) m.coefficient

end Monomial

namespace Polynomial

variable {F : Type} [Arithmetic F]

def eval (p : Polynomial F) (x : List F) : F :=
  p.foldl (fun s m => s + m.eval x) 0

/-- The objective of a polynomial, with polynomials for its gradient and perhaps its Hessian. -/
def objective (dim : Nat) (value : Polynomial F) (gradient : List (Polynomial F))
    (hessian : Option (List (List (Polynomial F)))) : Objective F :=
  .ofFunctions dim value.eval (fun x => gradient.map fun p => p.eval x)
    (hessian.map fun rows x => rows.map fun row => row.map fun p => p.eval x)

end Polynomial

end Downhill
