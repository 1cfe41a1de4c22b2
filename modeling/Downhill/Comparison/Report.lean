import Downhill.Comparison.Verdict
import Downhill.Decimal.Shortest

/-!
# Comparison reports

The findings of a comparison in words. Percentages, ratios and distances have a fixed number of
places, and values that differ are written in scientific notation with seven digits.
-/

namespace Downhill

/-- A status with its findings in words. -/
structure Report where
  status : ComparisonStatus
  issues : List String

namespace Finding

def outcome (converged : Bool) : String :=
  if converged then "converged" else "diverged"

/-- A difference of values, as a percentage with some places. -/
def lossText (places : Nat) (relative first second : Float) : String :=
  "loss differs by " ++ Decimal.fixed places (relative * 100.0) ++ "%: " ++
    Decimal.scientific 6 first ++ " vs " ++ Decimal.scientific 6 second

def text : Finding Float → String
  | expectedDivergence => "both runs diverged, as expected on an unbounded problem"
  | convergenceMismatch first second =>
    "convergence mismatch: first " ++ outcome first ++ ", second " ++ outcome second
  | unexpectedDivergence => "both runs diverged on a problem expected to converge"
  | nonFiniteLoss first second =>
    "non-finite loss: " ++ Decimal.shortest first ++ " vs " ++ Decimal.shortest second
  | lossDisagreement relative first second => lossText 1 relative first second
  | lossDifference relative first second => lossText 2 relative first second
  | dimensionMismatch first second =>
    "final points have different dimensions: " ++ toString first ++ " vs " ++ toString second
  | pointDifference distance => "final points differ by " ++ Decimal.fixed 4 distance
  | iterationDifference ratio first second =>
    "iteration counts differ " ++ Decimal.fixed 1 ratio ++ "x: " ++ toString first ++ " vs " ++
      toString second
  | agreement => "all metrics within tolerance"

end Finding

def Report.ofVerdict (v : Verdict Float) : Report :=
  ⟨v.status, v.findings.map Finding.text⟩

/-- Compares two runs of a named problem and reports on it. -/
def compareRuns (a b : RunSummary Float) (problem : String) : Report :=
  .ofVerdict (.ofRuns a b problem)

end Downhill
