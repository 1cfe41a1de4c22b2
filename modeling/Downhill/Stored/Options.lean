import Downhill.Options
import Downhill.Stored.Names
import Downhill.Stored.Number

/-!
# Stored options

Options and tolerances as plain JSON records.
-/

namespace Downhill

open Stored Fields

variable {F : Type} [Binary F]

namespace Tolerances

def toJson (t : Tolerances F) : Json :=
  .object [("gtol", ofPlain t.gtol), ("ftol", ofPlain t.ftol), ("xtol", ofPlain t.xtol)]

def ofJson : Json → Except Fault (Tolerances F) :=
  (mk <$> member "gtol" asPlain <*> member "ftol" asPlain <*> member "xtol" asPlain).read

end Tolerances

namespace Options

def toJson (o : Options F) : Json :=
  .object [("max_iter", ofCount o.maxIter), ("initial_point", .ofList ofPlain o.initialPoint),
    ("alpha", ofPlain o.alpha), ("c1", ofPlain o.c1), ("memory", ofCount o.memory),
    ("hessian_damping", ofPlain o.hessianDamping), ("line_search", o.lineSearch.toJson),
    ("max_line_search_trials", ofCount o.maxLineSearchTrials),
    ("termination", o.termination.toJson)]

def ofJson : Json → Except Fault (Options F) :=
  (mk <$> member "max_iter" Json.asCount <*> member "initial_point" (Json.asList asPlain)
    <*> member "alpha" asPlain <*> member "c1" asPlain <*> member "memory" Json.asCount
    <*> member "hessian_damping" asPlain <*> member "line_search" LineSearchMode.ofJson
    <*> member "max_line_search_trials" Json.asCount
    <*> member "termination" Tolerances.ofJson).read

end Options

end Downhill
