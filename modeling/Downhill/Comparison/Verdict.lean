import Downhill.Problem.Analytic
import Downhill.Trace

/-!
# Comparing two runs

Two runs of one problem are compared by what they ended with. The checks run in order of severity,
and the first one that fails decides: different convergence, a value that is not finite, values that
differ by more than a tenth, points of different dimensions or more than one apart. Below that,
smaller differences are collected and make the comparison suspicious.

The first run is the measure of the other: the difference of the values is taken relative to its
value.
-/

namespace Downhill

structure RunSummary (F : Type) where
  converged : Bool
  iterations : Nat
  finalLoss : F
  finalPoint : List F
  finalGradNorm : F

/-- The summary of a trace. Of a trace without iterations nothing is known. -/
def RunSummary.ofTrace {F : Type} [Arithmetic F] (t : Trace F) : RunSummary F where
  converged := t.converged
  iterations := t.iterations.length
  finalLoss := t.finalLoss?.getD (0 / 0)
  finalPoint := t.finalPoint?.getD []
  finalGradNorm := t.finalGradNorm?.getD (0 / 0)

inductive ComparisonStatus where
  | pass
  | suspicious
  | fail
  deriving DecidableEq, Repr

def ComparisonStatus.message : ComparisonStatus → String
  | pass => "PASS"
  | suspicious => "SUSPICIOUS"
  | fail => "FAIL"

inductive Finding (F : Type) where
  | expectedDivergence
  | convergenceMismatch (first second : Bool)
  | unexpectedDivergence
  | nonFiniteLoss (first second : F)
  /-- The values differ so much that the runs disagree. -/
  | lossDisagreement (relative first second : F)
  /-- The values differ noticeably. -/
  | lossDifference (relative first second : F)
  | dimensionMismatch (first second : Nat)
  | pointDifference (distance : F)
  | iterationDifference (ratio : F) (first second : Nat)
  | agreement

structure Verdict (F : Type) where
  status : ComparisonStatus
  findings : List (Finding F)

namespace Verdict

variable {F : Type} [Arithmetic F]

/-- The distance of two values relative to the first one, which is kept away from zero. -/
def relativeLoss (a b : RunSummary F) : F :=
  Arithmetic.abs (a.finalLoss - b.finalLoss) / (Arithmetic.abs a.finalLoss + 1e-10)

def pointDistance (a b : RunSummary F) : F :=
  norm (sub a.finalPoint b.finalPoint)

def iterationRatio (a b : RunSummary F) : F :=
  ((Nat.max a.iterations b.iterations : Nat) : F) / ((Nat.min a.iterations b.iterations : Nat) : F)

/-- The differences that make a comparison suspicious. -/
def differences (a b : RunSummary F) : List (Finding F) :=
  let relative := relativeLoss a b
  let distance := pointDistance a b
  let ratio := iterationRatio a b
  (if 0.01 < relative then [.lossDifference relative a.finalLoss b.finalLoss] else []) ++
  (if 0 < a.iterations ∧ 0 < b.iterations ∧ 3.0 < ratio then
    [.iterationDifference ratio a.iterations b.iterations] else []) ++
  (if 0.1 < distance then [.pointDifference distance] else [])

/-- Compares two runs of a named problem. That both runs fail to converge on the saddle, which has
no lower bound, is expected. -/
def ofRuns (a b : RunSummary F) (problem : String) : Verdict F :=
  if problem = AnalyticProblem.saddle.name ∧ ¬ a.converged ∧ ¬ b.converged then
    ⟨.pass, [.expectedDivergence]⟩
  else if a.converged ≠ b.converged then
    ⟨.fail, [.convergenceMismatch a.converged b.converged]⟩
  else if ¬ a.converged then
    ⟨.suspicious, [.unexpectedDivergence]⟩
  else if ¬ Arithmetic.isFinite a.finalLoss ∨ ¬ Arithmetic.isFinite b.finalLoss then
    ⟨.fail, [.nonFiniteLoss a.finalLoss b.finalLoss]⟩
  else if 0.10 < relativeLoss a b then
    ⟨.fail, [.lossDisagreement (relativeLoss a b) a.finalLoss b.finalLoss]⟩
  else if a.finalPoint.length ≠ b.finalPoint.length then
    ⟨.fail, [.dimensionMismatch a.finalPoint.length b.finalPoint.length]⟩
  else if 1 < pointDistance a b then
    ⟨.fail, [.pointDifference (pointDistance a b)]⟩
  else
    match differences a b with
    | [] => ⟨.pass, [.agreement]⟩
    | findings => ⟨.suspicious, findings⟩

end Verdict

end Downhill
