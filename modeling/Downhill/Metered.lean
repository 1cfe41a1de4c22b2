import Downhill.Objective
import Downhill.Options
import Downhill.Trace

/-!
# Counted evaluations

A run asks its objective through `Metered`, which counts the questions and lets a run end without a
trace: an objective may claim to know its second derivatives and then not have them, and there may be
no room for a list that has to be set aside.
-/

namespace Downhill

/-- Why a run leaves no trace. -/
inductive Failure where
  /-- The options or the objective are not fit for the run. -/
  | rejected (error : InputError)
  /-- A list that is set aside in full would be larger than an object can be. -/
  | capacityOverflow
  deriving DecidableEq, Repr

/-- A computation that counts its evaluations and may fail. -/
abbrev Metered := StateT EvaluationCounts (Except Failure)

/-- Sets room aside, where there is room. -/
def Metered.reserve (hasRoom : Bool) : Metered Unit :=
  if hasRoom then return () else throw .capacityOverflow

namespace Objective

variable {F : Type}

def meteredValue (obj : Objective F) (w : List F) : Metered F := do
  modify fun c => { c with objective := c.objective + 1 }
  return obj.value w

def meteredGradient (obj : Objective F) (w : List F) : Metered (List F) := do
  modify fun c => { c with gradient := c.gradient + 1 }
  return obj.gradient w

/-- The Hessian at a point, counted. That it is missing is an error of the method that needs it. -/
def meteredHessian (obj : Objective F) (algorithm : Algorithm) (w : List F) :
    Metered (Rows F) := do
  modify fun c => { c with hessian := c.hessian + 1 }
  match obj.hessian w with
  | some h => return h
  | none => throw (.rejected (.missingHessian algorithm))

end Objective

end Downhill
