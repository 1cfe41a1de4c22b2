import Downhill.Matrix.LU
import Downhill.Objective

/-!
# Quadratic forms

The functions `1/2 w · A w - b · w` for a symmetric matrix `A`.
-/

namespace Downhill

/-- A quadratic form with a linear term. -/
structure QuadraticForm (F : Type) where
  matrix : Rows F
  linear : List F
  square : ∀ row ∈ matrix, row.length = matrix.length
  linear_length : linear.length = matrix.length

namespace QuadraticForm

variable {F : Type}

/-- The form of a matrix and a linear term whose sizes agree. -/
def ofMatrix? (matrix : Rows F) (linear : List F) : Option (QuadraticForm F) :=
  if h : (∀ row ∈ matrix, row.length = matrix.length) ∧ linear.length = matrix.length then
    some ⟨matrix, linear, h.1, h.2⟩
  else
    none

variable [Arithmetic F]

/-- The form in two dimensions whose curvatures `lambda1` and `lambda2` lie along the axes turned by
the angle `theta`. -/
def rotated (lambda1 lambda2 theta : F) : QuadraticForm F :=
  let s := Arithmetic.sin theta
  let c := Arithmetic.cos theta
  let off := (lambda1 - lambda2) * c * s
  { matrix := [[lambda1 * c * c + lambda2 * s * s, off], [off, lambda1 * s * s + lambda2 * c * c]]
    linear := [0, 0]
    square := by simp
    linear_length := rfl }

/-- The solution of `A w = b`, which is the minimizer of a positive definite form. -/
def minimizer (q : QuadraticForm F) : Option (List F) :=
  LU.solve q.matrix q.linear

def value (q : QuadraticForm F) (w : List F) : F :=
  0.5 * dot w (q.matrix.mulVec w) - dot q.linear w

/-- The gradient at a point, which is the derivative of the value for a symmetric matrix. -/
def gradient (q : QuadraticForm F) (w : List F) : List F :=
  sub (q.matrix.mulVec w) q.linear

def objective (q : QuadraticForm F) : Objective F where
  dim := q.linear.length
  value := q.value
  gradient := q.gradient
  hessian _ := some q.matrix
  hasHessian := true

end QuadraticForm

end Downhill
