import Downhill.Trace

/-!
# The two-loop recursion

The product of a gradient with an implicit inverse Hessian. The first loop goes from the newest pair
to the oldest and takes a multiple of each pair's change of the gradient out of the vector; the
vector is scaled; the second loop goes back and adds multiples of the pairs' steps.
-/

namespace Downhill

namespace TwoLoop

variable {F : Type} [Arithmetic F]

/-- The scaling between the loops, from the newest pair. -/
def gamma (newest : CurvaturePair F) : F :=
  let yy := dot newest.y newest.y
  if 0 < yy then dot newest.s newest.y / yy else 1

/-- Both loops over the pairs, newest first: the product, the stages of the first loop and the
stages of the second one. Between the stages of a pair stand those of all older pairs. -/
def loops (gamma : F) : List (CurvaturePair F) → List F →
    List F × List (TwoLoopStep F) × List (TwoLoopStep F)
  | [], q => (q.map (gamma * ·), [], [])
  | pair :: older, q =>
    let alpha := pair.rho * dot pair.s q
    let q := List.zipWith (fun qj yj => qj - alpha * yj) q pair.y
    let (r, backward, forward) := loops gamma older q
    let beta := pair.rho * dot pair.y r
    let r := List.zipWith (fun rj sj => rj + (alpha - beta) * sj) r pair.s
    (r, ⟨older.length, alpha, q⟩ :: backward, forward ++ [⟨older.length, beta, r⟩])

/-- The product with a gradient, and all stages on the way. -/
def recursion (gradient : List F) (newest : CurvaturePair F) (older : List (CurvaturePair F)) :
    List F × TwoLoopDiagnostics F :=
  let scaling := gamma newest
  let (r, backward, forward) := loops scaling (newest :: older) gradient
  (r, ⟨backward, scaling, forward⟩)

end TwoLoop

end Downhill
