import Downhill.Algorithm
import Downhill.LineSearch
import Downhill.Matrix.Solve
import Downhill.Stopping

/-!
# Traces

What a run leaves behind: a record of each iteration, why the run stopped, and how often the
objective was asked. The records are all that later questions about a run are answered from.
-/

namespace Downhill

/-- Where a direction that uses second derivatives comes from. -/
inductive DirectionSource (F : Type) where
  | solve (method : SolveMethod F)
  /-- The gradient was scaled by the inverse diagonal, in which some entries are replaced by one. -/
  | preconditioner (fallbackEntries : Nat)
  /-- No attempt at the system succeeded, and the negative gradient was taken. -/
  | steepestDescentFallback

/-- What a method saw of the second derivatives. -/
structure CurvatureDiagnostics (F : Type) where
  hessian : Rows F
  eigenvalues : Option (List F)
  conditionNumber : Option F
  damping : F
  source : DirectionSource F
  /-- The inverse diagonal, for the method that uses it. -/
  preconditioner : Option (List F)

namespace CurvatureDiagnostics

variable {F : Type} [Arithmetic F]

/-- Whether the known eigenvalues have both signs. -/
def isSaddle (c : CurvatureDiagnostics F) : Bool :=
  match c.eigenvalues with
  | some values => values.any (fun x => 0 < x) && values.any (fun x => x < 0)
  | none => false

/-- Whether the condition number is known and not at most a threshold. -/
def isIllConditioned (c : CurvatureDiagnostics F) (threshold : F) : Bool :=
  match c.conditionNumber with
  | some number => !(number ≤ threshold : Bool)
  | none => false

end CurvatureDiagnostics

/-- A step, the change of the gradient over it, and the inverse of their inner product. -/
structure CurvaturePair (F : Type) where
  s : List F
  y : List F
  rho : F

/-- One stage of the two-loop recursion: the pair by its place in the memory, oldest first, the
coefficient, and the vector after the stage. -/
structure TwoLoopStep (F : Type) where
  pair : Nat
  coefficient : F
  vector : List F

structure TwoLoopDiagnostics (F : Type) where
  backward : List (TwoLoopStep F)
  gamma : F
  forward : List (TwoLoopStep F)

inductive MemoryUpdate where
  | stored
  | storedEvictingOldest
  /-- The step showed no positive curvature, and its pair was dropped. -/
  | skippedCurvature
  deriving DecidableEq, Repr

/-- What the limited memory method saw and did: the memory at the start of the iteration, oldest pair
first, the recursion over it, and what became of the new pair. -/
structure LbfgsDiagnostics (F : Type) where
  memory : List (CurvaturePair F)
  twoLoop : Option (TwoLoopDiagnostics F)
  update : MemoryUpdate

structure IterationRecord (F : Type) where
  index : Nat
  wOld : List F
  wNew : List F
  loss : F
  newLoss : F
  gradient : List F
  gradNorm : F
  newGradNorm : F
  direction : List F
  stepSize : F
  lineSearch : Option (LineSearchLog F) := none
  curvature : Option (CurvatureDiagnostics F) := none
  lbfgs : Option (LbfgsDiagnostics F) := none

namespace IterationRecord

variable {F : Type} [Arithmetic F]

def stepNorm (r : IterationRecord F) : F :=
  norm (sub r.wNew r.wOld)

def isDescentDirection (r : IterationRecord F) : Bool :=
  dot r.gradient r.direction < 0

/-- Whether a line search used up its trials. -/
def isDegraded (r : IterationRecord F) : Bool :=
  match r.lineSearch with
  | some log => !log.satisfied
  | none => false

def progress (r : IterationRecord F) : Progress F where
  gradNorm := r.newGradNorm
  lossChange := Arithmetic.abs (r.newLoss - r.loss)
  stepNorm := r.stepNorm
  iterations := r.index + 1

/-- Whether the values and gradient norms on both sides of the step are finite. -/
def isFinite (r : IterationRecord F) : Bool :=
  Arithmetic.isFinite r.loss && Arithmetic.isFinite r.newLoss &&
    Arithmetic.isFinite r.gradNorm && Arithmetic.isFinite r.newGradNorm

end IterationRecord

structure EvaluationCounts where
  objective : Nat := 0
  gradient : Nat := 0
  hessian : Nat := 0
  deriving DecidableEq, Repr

structure Trace (F : Type) where
  algorithm : Algorithm
  iterations : List (IterationRecord F)
  termination : TerminationReason
  evaluations : EvaluationCounts

namespace Trace

variable {F : Type} [Arithmetic F]

def finalPoint? (t : Trace F) : Option (List F) :=
  t.iterations.getLast?.map (·.wNew)

def finalLoss? (t : Trace F) : Option F :=
  t.iterations.getLast?.map (·.newLoss)

def finalGradNorm? (t : Trace F) : Option F :=
  t.iterations.getLast?.map (·.newGradNorm)

/-- The value at the start and after each iteration. -/
def losses (t : Trace F) : List F :=
  match t.iterations with
  | [] => []
  | first :: rest => first.loss :: (first :: rest).map (·.newLoss)

def isFinite (t : Trace F) : Bool :=
  t.iterations.all (·.isFinite)

/-- Whether the run stopped because something became small, with nothing but finite values. -/
def converged (t : Trace F) : Bool :=
  t.termination.isConverged && t.isFinite

/-- The iterations whose line search used up its trials. -/
def degradedLineSearches (t : Trace F) : List Nat :=
  (t.iterations.filter (·.isDegraded)).map (·.index)

end Trace

end Downhill
