/-!
# Problem errors

Why a reference problem cannot be set up.
-/

namespace Downhill

/-- Why a reference problem cannot be set up. -/
inductive ProblemError where
  | unknownProblem (name : String)
  | unknownVariant (problem variant : String)
  | missingVariant (problem : String)
  | emptyDataset
  | invalidLabel (index : Nat) (label : UInt8)
  /-- There is no text to read a dataset from. -/
  | inaccessible
  /-- The text is not the JSON text of a dataset. -/
  | malformed
  deriving DecidableEq

namespace ProblemError

def message : ProblemError → String
  | unknownProblem name => "unknown problem: " ++ name
  | unknownVariant problem variant => "problem " ++ problem ++ " has no variant " ++ variant
  | missingVariant problem => "problem " ++ problem ++ " requires a variant"
  | emptyDataset => "dataset is empty"
  | invalidLabel index label =>
    "point " ++ toString index ++ " has label " ++ toString label ++ ", expected 0 or 1"
  | inaccessible => "failed to read dataset"
  | malformed => "malformed dataset"

end ProblemError

end Downhill
