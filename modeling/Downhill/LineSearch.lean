import Downhill.Capacity
import Downhill.Objective

/-!
# Backtracking line search

Steps along a direction are tried from an initial length on, each shorter by a fixed factor, until
one lowers the value enough: until the value is at most the start value plus a fraction of the
change that the slope predicts. When its trials are used up the search answers with the last and
shortest step and says that the step does not satisfy the condition. Room for all trials is set aside
before the first one, and a search for which there is no such room does not start.

Along a direction that leads uphill every trial can be expected to miss.
-/

namespace Downhill

structure ArmijoParams (F : Type) where
  /-- The fraction of the predicted change that a step has to reach. -/
  c1 : F
  rho : F
  alphaInit : F
  /-- How many steps are tried; the first one is tried in any case. -/
  maxTrials : Nat

namespace ArmijoParams

variable {F : Type} [Arithmetic F]

/-- Full steps halved up to nineteen times, for a ten-thousandth of the predicted change. -/
def standard : ArmijoParams F :=
  ⟨1e-4, 0.5, 1, 20⟩

end ArmijoParams

structure LineSearchTrial (F : Type) where
  alpha : F
  loss : F
  /-- The largest value that would have been accepted. -/
  threshold : F
  satisfied : Bool

/-- The bytes of a trial: three numbers, and a flag in the room of a fourth one. -/
def LineSearchTrial.bytes (F : Type) [Arithmetic F] : Option Nat :=
  (Arithmetic.width F).map (4 * ·)

/-- Whether room can be set aside for all trials. -/
def ArmijoParams.hasRoom {F : Type} [Arithmetic F] (params : ArmijoParams F) : Bool :=
  canReserve params.maxTrials (LineSearchTrial.bytes F)

/-- The trials of a search in the order in which they were made. -/
structure LineSearchLog (F : Type) where
  trials : List (LineSearchTrial F)
  satisfied : Bool

/-- The answer of a search: its last step, and all trials. -/
structure LineSearchResult (F : Type) extends LineSearchLog F where
  alpha : F
  point : List F
  value : F

/-- Where a search starts: a point with its value, a direction, and the slope along it. -/
structure SearchLine (F : Type) where
  origin : List F
  direction : List F
  value : F
  slope : F

namespace SearchLine

variable {F : Type} [Arithmetic F]

def ofGradient (origin direction : List F) (value : F) (gradient : List F) : SearchLine F :=
  ⟨origin, direction, value, dot gradient direction⟩

def point (line : SearchLine F) (alpha : F) : List F :=
  along line.origin alpha line.direction

/-- The largest value that is accepted at the end of a step. -/
def threshold (line : SearchLine F) (c1 alpha : F) : F :=
  line.value + c1 * alpha * line.slope

def trial (line : SearchLine F) (c1 alpha loss : F) : LineSearchTrial F :=
  let threshold := line.threshold c1 alpha
  ⟨alpha, loss, threshold, loss ≤ threshold⟩

/-- The answer of a search that ends with `trial`; `earlier` are the trials before, last one first. -/
def result (line : SearchLine F) (trial : LineSearchTrial F) (earlier : List (LineSearchTrial F)) :
    LineSearchResult F where
  trials := (trial :: earlier).reverse
  satisfied := trial.satisfied
  alpha := trial.alpha
  point := line.point trial.alpha
  value := trial.loss

variable {m : Type → Type} [Monad m]

/-- Tries the step `alpha`, and after a miss up to `more` shorter ones. The objective is asked
through `value`. -/
def searchFrom (value : List F → m F) (line : SearchLine F) (params : ArmijoParams F) :
    (more : Nat) → (alpha : F) → (earlier : List (LineSearchTrial F)) → m (LineSearchResult F)
  | 0, alpha, earlier => do
    let loss ← value (line.point alpha)
    pure (line.result (line.trial params.c1 alpha loss) earlier)
  | more + 1, alpha, earlier => do
    let loss ← value (line.point alpha)
    let trial := line.trial params.c1 alpha loss
    if trial.satisfied then
      pure (line.result trial earlier)
    else
      searchFrom value line params more (alpha * params.rho) (trial :: earlier)

def search (value : List F → m F) (line : SearchLine F) (params : ArmijoParams F) :
    m (LineSearchResult F) :=
  line.searchFrom value params (params.maxTrials - 1) params.alphaInit []

end SearchLine

/-- Backtracking from `w` along `p`, for an objective with the value `value` and the gradient
`gradient` at `w`. There is no answer if there is no room for the trials. -/
def backtrack {F : Type} [Arithmetic F] (obj : Objective F) (w p : List F) (value : F)
    (gradient : List F) (params : ArmijoParams F) : Option (LineSearchResult F) :=
  if params.hasRoom then
    let line := SearchLine.ofGradient w p value gradient
    some (Id.run (line.search (fun x => pure (obj.value x)) params))
  else
    none

end Downhill
