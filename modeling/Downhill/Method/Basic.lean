import Downhill.Metered

/-!
# Descent methods

All methods share one loop. From the current point a method chooses a heading, takes a step along it
by its step rule, and may learn from the record of the step; then the stopping rules are asked. A
`Method` is what differs from one method to the next, and `descend` is the loop.
-/

namespace Downhill

variable {F σ : Type} [Arithmetic F]

/-- A point with its value and gradient. -/
structure Iterate (F : Type) where
  point : List F
  loss : F
  gradient : List F

def Iterate.start (obj : Objective F) (w : List F) : Metered (Iterate F) := do
  let loss ← obj.meteredValue w
  let gradient ← obj.meteredGradient w
  return ⟨w, loss, gradient⟩

structure Step (F : Type) where
  alpha : F
  point : List F
  value : F
  lineSearch : Option (LineSearchLog F)

inductive StepRule (F : Type) where
  | fixed (alpha : F)
  | armijo (params : ArmijoParams F)

def StepRule.take (rule : StepRule F) (obj : Objective F) (current : Iterate F)
    (direction : List F) : Metered (Step F) := do
  match rule with
  | fixed alpha =>
    let point := along current.point alpha direction
    let value ← obj.meteredValue point
    return ⟨alpha, point, value, none⟩
  | armijo params =>
    Metered.reserve params.hasRoom
    let line := SearchLine.ofGradient current.point direction current.loss current.gradient
    let found ← line.search obj.meteredValue params
    return ⟨found.alpha, found.point, found.value, some found.toLineSearchLog⟩

/-- Where a method wants to go, and what it has seen on the way to that decision. -/
structure Heading (F : Type) where
  direction : List F
  curvature : Option (CurvatureDiagnostics F) := none
  twoLoop : Option (TwoLoopDiagnostics F) := none

/-- A descent method with a memory of type `σ`. -/
structure Method (F σ : Type) where
  initial : σ
  rule : StepRule F
  heading : σ → Iterate F → Metered (Heading F)
  /-- What the method notes about a step, from the record of the step and the gradient after it,
  and its memory from then on. -/
  learn : σ → Heading F → IterationRecord F → List F → Option (LbfgsDiagnostics F) × σ

/-- The record of a step from `current` to a point with the gradient `newGradient`. -/
def Iterate.record (current : Iterate F) (index : Nat) (heading : Heading F) (step : Step F)
    (newGradient : List F) : IterationRecord F where
  index := index
  wOld := current.point
  wNew := step.point
  loss := current.loss
  newLoss := step.value
  gradient := current.gradient
  gradNorm := norm current.gradient
  newGradNorm := norm newGradient
  direction := heading.direction
  stepSize := step.alpha
  lineSearch := step.lineSearch
  curvature := heading.curvature

def IterationRecord.withNote (r : IterationRecord F) (note : Option (LbfgsDiagnostics F)) :
    IterationRecord F :=
  { r with lbfgs := note }

namespace Method

/-- One iteration: its record, and the memory and the point after it. -/
def advance (method : Method F σ) (obj : Objective F) (index : Nat) (memory : σ)
    (current : Iterate F) : Metered (IterationRecord F × σ × Iterate F) := do
  let heading ← method.heading memory current
  let step ← method.rule.take obj current heading.direction
  let newGradient ← obj.meteredGradient step.point
  let record := current.record index heading step newGradient
  let (note, memory) := method.learn memory heading record newGradient
  return (record.withNote note, memory, ⟨step.point, step.value, newGradient⟩)

/-- Iterates from `current` until a stopping rule applies. `index` is the number of the iteration and
`earlier` are the records before it, last one first. With a budget of at least `maxIter` iterations
the rules apply before the budget is used up. -/
def descend (method : Method F σ) (obj : Objective F) (criteria : StoppingCriteria F) :
    (budget index : Nat) → σ → Iterate F → (earlier : List (IterationRecord F)) →
      Metered (List (IterationRecord F) × TerminationReason)
  | 0, _, _, _, earlier => return (earlier.reverse, .maxIterations)
  | budget + 1, index, memory, current, earlier => do
    let (record, memory, next) ← method.advance obj index memory current
    match criteria.evaluate record.progress with
    | some reason => return ((record :: earlier).reverse, reason)
    | none => descend method obj criteria budget (index + 1) memory next (record :: earlier)

def run (method : Method F σ) (obj : Objective F) (options : Options F) :
    Metered (List (IterationRecord F) × TerminationReason) := do
  let start ← Iterate.start obj options.initialPoint
  method.descend obj options.criteria options.maxIter 0 method.initial start []

end Method

end Downhill
