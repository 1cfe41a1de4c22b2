import Downhill.Problem.Error
import Downhill.Problem.Quadratic

/-!
# Analytic problems

Well-known functions of two variables with their gradients and Hessians in closed form.
-/

namespace Downhill

/-- A named function of two variables. -/
inductive AnalyticProblem where
  /-- `x² + y²` -/
  | quadratic
  /-- `x² + 100 y²` -/
  | illConditioned
  /-- `(1 - x)² + 100 (y - x²)²` -/
  | rosenbrock
  /-- `x² - y²`, which has no lower bound -/
  | saddle
  /-- `2 x² - 1.05 x⁴ + x⁶ / 6 + x y + y²`, with one global and two local minima -/
  | threeHumpCamel
  /-- The ill-conditioned problem turned by an eighth of a turn, so that its curvature lies between
  the axes. -/
  | rotatedQuadratic
  deriving DecidableEq, Repr

namespace AnalyticProblem

def all : List AnalyticProblem :=
  [quadratic, illConditioned, rosenbrock, saddle, threeHumpCamel, rotatedQuadratic]

def name : AnalyticProblem → String
  | quadratic => "quadratic"
  | illConditioned => "ill-conditioned-quadratic"
  | rosenbrock => "rosenbrock"
  | saddle => "non-convex-saddle"
  | threeHumpCamel => "three-hump-camel"
  | rotatedQuadratic => "rotated-quadratic"

def ofName (s : String) : Except ProblemError AnalyticProblem :=
  match all.find? fun p => p.name = s with
  | some p => .ok p
  | none => .error (.unknownProblem s)

variable {F : Type} [Arithmetic F]

def initialPoint : AnalyticProblem → List F
  | rosenbrock => [-1.2, 1]
  | saddle => [1, 0.1]
  | threeHumpCamel => [1.5, 1.5]
  | _ => [2.0, 2.0]

/-- The global minimizer, where there is one. -/
def minimizer : AnalyticProblem → Option (List F)
  | rosenbrock => some [1, 1]
  | saddle => none
  | _ => some [0, 0]

def rotatedForm : QuadraticForm F :=
  .rotated 2.0 200.0 (Arithmetic.pi / 4.0)

def value (p : AnalyticProblem) (w : List F) : F :=
  let x := w.getD 0 0
  let y := w.getD 1 0
  match p with
  | quadratic => x * x + y * y
  | illConditioned => x * x + 100.0 * y * y
  | rosenbrock =>
    let a := 1 - x
    let b := y - x * x
    a * a + 100.0 * b * b
  | saddle => x * x - y * y
  | threeHumpCamel =>
    let x2 := x * x
    2.0 * x2 - 1.05 * x2 * x2 + x2 * x2 * x2 / 6.0 + x * y + y * y
  | rotatedQuadratic => rotatedForm.value w

def gradient (p : AnalyticProblem) (w : List F) : List F :=
  let x := w.getD 0 0
  let y := w.getD 1 0
  match p with
  | quadratic => [2.0 * x, 2.0 * y]
  | illConditioned => [2.0 * x, 200.0 * y]
  | rosenbrock =>
    let b := y - x * x
    [-2.0 * (1 - x) - 400.0 * x * b, 200.0 * b]
  | saddle => [2.0 * x, -2.0 * y]
  | threeHumpCamel =>
    let x2 := x * x
    [4.0 * x - 4.2 * x2 * x + x2 * x2 * x + y, x + 2.0 * y]
  | rotatedQuadratic => rotatedForm.gradient w

def hessian (p : AnalyticProblem) (w : List F) : Rows F :=
  let x := w.getD 0 0
  let y := w.getD 1 0
  match p with
  | quadratic => [[2.0, 0], [0, 2.0]]
  | illConditioned => [[2.0, 0], [0, 200.0]]
  | rosenbrock =>
    let cross := -400.0 * x
    [[2.0 - 400.0 * (y - x * x) + 800.0 * x * x, cross], [cross, 200.0]]
  | saddle => [[2.0, 0], [0, -2.0]]
  | threeHumpCamel =>
    let x2 := x * x
    [[4.0 - 12.6 * x2 + 5.0 * x2 * x2, 1], [1, 2.0]]
  | rotatedQuadratic => rotatedForm.matrix

def objective (p : AnalyticProblem) : Objective F where
  dim := 2
  value := p.value
  gradient := p.gradient
  hessian w := some (p.hessian w)
  hasHessian := true

end AnalyticProblem

end Downhill
