import Downhill.Objective
import Downhill.Problem.Dataset

/-!
# Classifiers

Objectives that fit a line to labelled points. A point `(x1, x2)` is lifted to `(x1, x2, 1)`, so the
weights are two coefficients and an offset; the offset is never regularized. Logistic regression
takes labels zero and one, the other classifiers take them as minus one and one.

A point contributes to the hinge losses only where its margin is missed strictly. Their gradients
leave out the points on the edge, which makes them subgradients there.
-/

namespace Downhill

/-- A lifted point with its label as a number. -/
structure Sample (F : Type) where
  features : List F
  label : F

namespace Sample

variable {F : Type} [Arithmetic F]

def lift (p : DataPoint F) : List F :=
  [p.x1, p.x2, 1]

/-- The points with labels zero and one. -/
def plain (d : Dataset F) : List (Sample F) :=
  d.points.map fun p => ⟨lift p, (p.y.toNat : F)⟩

/-- The points with labels minus one and one. -/
def signed (d : Dataset F) : List (Sample F) :=
  d.points.map fun p => ⟨lift p, 2.0 * (p.y.toNat : F) - 1⟩

def score (s : Sample F) (w : List F) : F :=
  dot s.features w

/-- By how much the margin of one is missed. -/
def slack (s : Sample F) (w : List F) : F :=
  1 - s.label * s.score w

end Sample

variable {F : Type} [Arithmetic F]

def weightSquares (w : List F) : F :=
  w.getD 0 0 * w.getD 0 0 + w.getD 1 0 * w.getD 1 0

/-- Adds `x` to the entry in row `i` and column `i`. -/
def addAt (h : Rows F) (i : Nat) (x : F) : Rows F :=
  h.modify i fun row => row.modify i (· + x)

def addOuter (h : Rows F) (x : List F) (weight : F) : Rows F :=
  List.zipWith (fun row xi => List.zipWith (fun hij xj => hij + weight * xi * xj) row x) h x

/-- The matrix of order three without entries. -/
def zeroHessian : Rows F :=
  [[0, 0, 0], [0, 0, 0], [0, 0, 0]]

namespace Logistic

/-- The logistic function, for arguments moved into a range in which its value can be told from zero
and one. -/
def sigmoid (z : F) : F :=
  1 / (1 + Arithmetic.exp (-(Arithmetic.clamp (-500.0) 500.0 z)))

/-- The logarithm of the probability that is given to a sample's label. -/
def logLikelihood (w : List F) (s : Sample F) : F :=
  let p := Arithmetic.clamp 1e-10 (1 - 1e-10) (sigmoid (s.score w))
  s.label * Arithmetic.log p + (1 - s.label) * Arithmetic.log (1 - p)

/-- The mean cross entropy and the regularization. -/
def value (samples : List (Sample F)) (lambda : F) (w : List F) : F :=
  let total := Arithmetic.sum (samples.map (logLikelihood w))
  let mean := -total / (samples.length : F)
  mean + 0.5 * lambda * weightSquares w

def gradient (samples : List (Sample F)) (lambda : F) (w : List F) : List F :=
  let total := samples.foldl (fun g s => along g (sigmoid (s.score w) - s.label) s.features)
    [0, 0, 0]
  let mean := total.map (· / (samples.length : F))
  (mean.modify 0 (· + lambda * w.getD 0 0)).modify 1 (· + lambda * w.getD 1 0)

def hessian (samples : List (Sample F)) (lambda : F) (w : List F) : Rows F :=
  let total := samples.foldl
    (fun h s =>
      let p := sigmoid (s.score w)
      addOuter h s.features (p * (1 - p) / (samples.length : F)))
    zeroHessian
  addAt (addAt total 0 lambda) 1 lambda

end Logistic

def withdraw (g : List F) (factor : F) (s : Sample F) : List F :=
  List.zipWith (fun gi xi => gi - factor * xi) g s.features

def violations (samples : List (Sample F)) (w : List F) : List (Sample F) :=
  samples.filter fun s => 0 < s.slack w

namespace SquaredHinge

/-- Half the squares of the weights and the squares of the missed margins. -/
def value (samples : List (Sample F)) (lambda : F) (w : List F) : F :=
  let loss := Arithmetic.sum ((violations samples w).map fun s => s.slack w * s.slack w)
  0.5 * weightSquares w + lambda * loss

def gradient (samples : List (Sample F)) (lambda : F) (w : List F) : List F :=
  (violations samples w).foldl (fun g s => withdraw g (2.0 * lambda * s.slack w * s.label) s)
    [w.getD 0 0, w.getD 1 0, 0]

/-- The second derivatives where no margin is met exactly. -/
def hessian (samples : List (Sample F)) (lambda : F) (w : List F) : Rows F :=
  (violations samples w).foldl (fun h s => addOuter h s.features (2.0 * lambda))
    [[1, 0, 0], [0, 1, 0], [0, 0, 0]]

end SquaredHinge

namespace SoftMargin

/-- Half the squares of the weights and the missed margins. -/
def value (samples : List (Sample F)) (lambda : F) (w : List F) : F :=
  let loss := Arithmetic.sum ((violations samples w).map fun s => s.slack w)
  0.5 * weightSquares w + lambda * loss

def gradient (samples : List (Sample F)) (lambda : F) (w : List F) : List F :=
  (violations samples w).foldl (fun g s => withdraw g (lambda * s.label) s)
    [w.getD 0 0, w.getD 1 0, 0]

end SoftMargin

namespace Perceptron

def misclassified (samples : List (Sample F)) (w : List F) : List (Sample F) :=
  samples.filter fun s => s.label * s.score w < 0

/-- By how much the misclassified samples are on the wrong side, and the regularization. -/
def value (samples : List (Sample F)) (lambda : F) (w : List F) : F :=
  let loss := Arithmetic.sum ((misclassified samples w).map fun s => -(s.label * s.score w))
  loss + 0.5 * lambda * weightSquares w

def gradient (samples : List (Sample F)) (lambda : F) (w : List F) : List F :=
  (misclassified samples w).foldl (fun g s => withdraw g s.label s)
    [lambda * w.getD 0 0, lambda * w.getD 1 0, 0]

end Perceptron

inductive Classifier where
  | logisticRegression
  | squaredHingeSvm
  | softMarginSvm
  | perceptronSvm
  deriving DecidableEq, Repr

namespace Classifier

/-- The classifier of a problem's name and variant. Logistic regression has no variants and takes no
notice of one. -/
def ofName (problem : String) (variant : Option String) : Except ProblemError Classifier :=
  if problem = "logistic-regression" then .ok logisticRegression
  else if problem = "separating-hyperplane" then
    match variant with
    | some "soft-margin" => .ok softMarginSvm
    | some "perceptron" => .ok perceptronSvm
    | some "squared-hinge" => .ok squaredHingeSvm
    | some other => .error (.unknownVariant problem other)
    | none => .error (.missingVariant problem)
  else .error (.unknownProblem problem)

/-- The objective of a classifier on a dataset, with `lambda` as the weight between loss and
regularization. -/
def objective (c : Classifier) (d : Dataset F) (lambda : F) : Objective F :=
  match c with
  | logisticRegression =>
    let samples := Sample.plain d
    { dim := 3
      value := Logistic.value samples lambda
      gradient := Logistic.gradient samples lambda
      hessian w := some (Logistic.hessian samples lambda w)
      hasHessian := true }
  | squaredHingeSvm =>
    let samples := Sample.signed d
    { dim := 3
      value := SquaredHinge.value samples lambda
      gradient := SquaredHinge.gradient samples lambda
      hessian w := some (SquaredHinge.hessian samples lambda w)
      hasHessian := true }
  | softMarginSvm =>
    let samples := Sample.signed d
    { dim := 3
      value := SoftMargin.value samples lambda
      gradient := SoftMargin.gradient samples lambda }
  | perceptronSvm =>
    let samples := Sample.signed d
    { dim := 3
      value := Perceptron.value samples lambda
      gradient := Perceptron.gradient samples lambda }

end Classifier

end Downhill
