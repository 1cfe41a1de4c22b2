import Downhill.Comparison.Report
import Downhill.Stored.Number

/-!
# Stored comparisons

Summaries of runs and reports on comparisons as plain JSON records.
-/

namespace Downhill

open Stored Fields

namespace RunSummary

variable {F : Type} [Binary F]

def toJson (s : RunSummary F) : Json :=
  .object [("converged", .bool s.converged), ("iterations", ofCount s.iterations),
    ("final_loss", ofPlain s.finalLoss), ("final_point", .ofList ofPlain s.finalPoint),
    ("final_grad_norm", ofPlain s.finalGradNorm)]

def ofJson : Json → Except Fault (RunSummary F) :=
  (mk <$> member "converged" Json.asBool <*> member "iterations" Json.asCount
    <*> member "final_loss" asPlain <*> member "final_point" (Json.asList asPlain)
    <*> member "final_grad_norm" asPlain).read

end RunSummary

namespace ComparisonStatus

def name : ComparisonStatus → String
  | pass => "Pass"
  | suspicious => "Suspicious"
  | fail => "Fail"

def toJson (s : ComparisonStatus) : Json :=
  .string s.name

def ofJson (value : Json) : Except Fault ComparisonStatus :=
  value.asName [pass, suspicious, fail] name

end ComparisonStatus

namespace Report

def toJson (r : Report) : Json :=
  .object [("status", r.status.toJson), ("issues", .ofList .string r.issues)]

def ofJson : Json → Except Fault Report :=
  (mk <$> member "status" ComparisonStatus.ofJson
    <*> member "issues" (Json.asList Json.asString)).read

end Report

end Downhill
