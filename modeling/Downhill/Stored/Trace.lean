import Downhill.Stored.Names
import Downhill.Stored.Number

/-!
# Stored traces

Traces and everything in them as JSON values. Every trace can be read back from its stored form,
whatever numbers it holds.
-/

namespace Downhill

open Stored Fields

variable {F : Type} [Binary F]

namespace SolveMethod

def toJson : SolveMethod F → Json
  | cholesky => .string "Cholesky"
  | lu => .string "Lu"
  | regularized shift => .object [("Regularized", .object [("shift", ofNumber shift)])]

def ofJson (value : Json) : Except Fault (SolveMethod F) := do
  match ← value.asChoice with
  | ("Cholesky", none) => return cholesky
  | ("Lu", none) => return lu
  | ("Regularized", some content) => (regularized <$> member "shift" asNumber).read content
  | _ => throw .shape

end SolveMethod

namespace LineSearchTrial

def toJson (t : LineSearchTrial F) : Json :=
  .object [("alpha", ofNumber t.alpha), ("loss", ofNumber t.loss),
    ("threshold", ofNumber t.threshold), ("satisfied", .bool t.satisfied)]

def ofJson : Json → Except Fault (LineSearchTrial F) :=
  (mk <$> member "alpha" asNumber <*> member "loss" asNumber <*> member "threshold" asNumber
    <*> member "satisfied" Json.asBool).read

end LineSearchTrial

namespace LineSearchLog

def toJson (l : LineSearchLog F) : Json :=
  .object [("trials", .ofList LineSearchTrial.toJson l.trials), ("satisfied", .bool l.satisfied)]

def ofJson : Json → Except Fault (LineSearchLog F) :=
  (mk <$> member "trials" (Json.asList LineSearchTrial.ofJson)
    <*> member "satisfied" Json.asBool).read

end LineSearchLog

namespace DirectionSource

def toJson : DirectionSource F → Json
  | solve method => .object [("Solve", method.toJson)]
  | preconditioner n =>
    .object [("Preconditioner", .object [("fallback_entries", ofCount n)])]
  | steepestDescentFallback => .string "SteepestDescentFallback"

def ofJson (value : Json) : Except Fault (DirectionSource F) := do
  match ← value.asChoice with
  | ("Solve", some content) => return solve (← SolveMethod.ofJson content)
  | ("Preconditioner", some content) =>
    (preconditioner <$> member "fallback_entries" Json.asCount).read content
  | ("SteepestDescentFallback", none) => return steepestDescentFallback
  | _ => throw .shape

end DirectionSource

namespace CurvatureDiagnostics

def toJson (c : CurvatureDiagnostics F) : Json :=
  .object [("hessian", ofRows c.hessian), ("eigenvalues", .ofOption ofVector c.eigenvalues),
    ("condition_number", .ofOption ofNumber c.conditionNumber), ("damping", ofNumber c.damping),
    ("source", c.source.toJson), ("preconditioner", .ofOption ofVector c.preconditioner)]

def ofJson : Json → Except Fault (CurvatureDiagnostics F) :=
  (mk <$> member "hessian" asRows <*> member "eigenvalues" (Json.asOption asVector)
    <*> member "condition_number" (Json.asOption asNumber) <*> member "damping" asNumber
    <*> member "source" DirectionSource.ofJson
    <*> member "preconditioner" (Json.asOption asVector)).read

end CurvatureDiagnostics

namespace CurvaturePair

def toJson (p : CurvaturePair F) : Json :=
  .object [("s", ofVector p.s), ("y", ofVector p.y), ("rho", ofNumber p.rho)]

def ofJson : Json → Except Fault (CurvaturePair F) :=
  (mk <$> member "s" asVector <*> member "y" asVector <*> member "rho" asNumber).read

end CurvaturePair

namespace TwoLoopStep

def toJson (s : TwoLoopStep F) : Json :=
  .object [("pair", ofCount s.pair), ("coefficient", ofNumber s.coefficient),
    ("vector", ofVector s.vector)]

def ofJson : Json → Except Fault (TwoLoopStep F) :=
  (mk <$> member "pair" Json.asCount <*> member "coefficient" asNumber
    <*> member "vector" asVector).read

end TwoLoopStep

namespace TwoLoopDiagnostics

def toJson (d : TwoLoopDiagnostics F) : Json :=
  .object [("backward", .ofList TwoLoopStep.toJson d.backward), ("gamma", ofNumber d.gamma),
    ("forward", .ofList TwoLoopStep.toJson d.forward)]

def ofJson : Json → Except Fault (TwoLoopDiagnostics F) :=
  (mk <$> member "backward" (Json.asList TwoLoopStep.ofJson) <*> member "gamma" asNumber
    <*> member "forward" (Json.asList TwoLoopStep.ofJson)).read

end TwoLoopDiagnostics

/-- The value of a member that may be missing or null. -/
def optionalMember {α : Type} (name : String) (read : Json → Except Fault α) :
    Fields (Option α) :=
  Option.join <$> member? name (Json.asOption read)

namespace LbfgsDiagnostics

def toJson (d : LbfgsDiagnostics F) : Json :=
  .object [("memory", .ofList CurvaturePair.toJson d.memory),
    ("two_loop", .ofOption TwoLoopDiagnostics.toJson d.twoLoop), ("update", d.update.toJson)]

def ofJson : Json → Except Fault (LbfgsDiagnostics F) :=
  (mk <$> member "memory" (Json.asList CurvaturePair.ofJson)
    <*> optionalMember "two_loop" TwoLoopDiagnostics.ofJson
    <*> member "update" MemoryUpdate.ofJson).read

end LbfgsDiagnostics

namespace IterationRecord

def toJson (r : IterationRecord F) : Json :=
  .object [("index", ofCount r.index), ("w_old", ofVector r.wOld), ("w_new", ofVector r.wNew),
    ("loss", ofNumber r.loss), ("new_loss", ofNumber r.newLoss),
    ("gradient", ofVector r.gradient), ("grad_norm", ofNumber r.gradNorm),
    ("new_grad_norm", ofNumber r.newGradNorm), ("direction", ofVector r.direction),
    ("step_size", ofNumber r.stepSize),
    ("line_search", .ofOption LineSearchLog.toJson r.lineSearch),
    ("curvature", .ofOption CurvatureDiagnostics.toJson r.curvature),
    ("lbfgs", .ofOption LbfgsDiagnostics.toJson r.lbfgs)]

def ofJson : Json → Except Fault (IterationRecord F) :=
  (mk <$> member "index" Json.asCount <*> member "w_old" asVector <*> member "w_new" asVector
    <*> member "loss" asNumber <*> member "new_loss" asNumber <*> member "gradient" asVector
    <*> member "grad_norm" asNumber <*> member "new_grad_norm" asNumber
    <*> member "direction" asVector <*> member "step_size" asNumber
    <*> optionalMember "line_search" LineSearchLog.ofJson
    <*> optionalMember "curvature" CurvatureDiagnostics.ofJson
    <*> optionalMember "lbfgs" LbfgsDiagnostics.ofJson).read

end IterationRecord

namespace EvaluationCounts

def toJson (c : EvaluationCounts) : Json :=
  .object [("objective", ofCount c.objective), ("gradient", ofCount c.gradient),
    ("hessian", ofCount c.hessian)]

def ofJson : Json → Except Fault EvaluationCounts :=
  (mk <$> member "objective" Json.asCount <*> member "gradient" Json.asCount
    <*> member "hessian" Json.asCount).read

end EvaluationCounts

namespace Trace

def toJson (t : Trace F) : Json :=
  .object [("algorithm", t.algorithm.toJson),
    ("iterations", .ofList IterationRecord.toJson t.iterations),
    ("termination", t.termination.toJson), ("evaluations", t.evaluations.toJson)]

def ofJson : Json → Except Fault (Trace F) :=
  (mk <$> member "algorithm" Algorithm.ofJson
    <*> member "iterations" (Json.asList IterationRecord.ofJson)
    <*> member "termination" TerminationReason.ofJson
    <*> member "evaluations" EvaluationCounts.ofJson).read

end Trace

end Downhill
