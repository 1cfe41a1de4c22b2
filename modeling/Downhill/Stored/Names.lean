import Downhill.Json.Fields
import Downhill.Trace

/-!
# Stored names

The names under which choices without content are stored.
-/

namespace Downhill

namespace Algorithm

def name : Algorithm → String
  | gradientDescent => "GradientDescent"
  | gradientDescentLineSearch => "GradientDescentLineSearch"
  | diagonalPreconditioner => "DiagonalPreconditioner"
  | newton => "Newton"
  | lbfgs => "Lbfgs"

def toJson (a : Algorithm) : Json :=
  .string a.name

def ofJson (value : Json) : Except Fault Algorithm :=
  value.asName all name

end Algorithm

namespace LineSearchMode

def name : LineSearchMode → String
  | armijo => "Armijo"
  | off => "None"

def toJson (m : LineSearchMode) : Json :=
  .string m.name

def ofJson (value : Json) : Except Fault LineSearchMode :=
  value.asName [armijo, off] name

end LineSearchMode

namespace TerminationReason

def name : TerminationReason → String
  | gradientNorm => "GradientNorm"
  | functionChange => "FunctionChange"
  | stepSize => "StepSize"
  | maxIterations => "MaxIterations"

def toJson (r : TerminationReason) : Json :=
  .string r.name

def ofJson (value : Json) : Except Fault TerminationReason :=
  value.asName [gradientNorm, functionChange, stepSize, maxIterations] name

end TerminationReason

namespace MemoryUpdate

def name : MemoryUpdate → String
  | stored => "Stored"
  | storedEvictingOldest => "StoredEvictingOldest"
  | skippedCurvature => "SkippedCurvature"

def toJson (u : MemoryUpdate) : Json :=
  .string u.name

def ofJson (value : Json) : Except Fault MemoryUpdate :=
  value.asName [stored, storedEvictingOldest, skippedCurvature] name

end MemoryUpdate

end Downhill
