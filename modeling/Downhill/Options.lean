import Downhill.Algorithm
import Downhill.LineSearch
import Downhill.Stopping

/-!
# Options

One record of options serves all methods, and each reads only its own part. `Options.fault?` says
what makes a run impossible before it starts; trouble during a run is never an error.
-/

namespace Downhill

structure Options (F : Type) where
  maxIter : Nat
  initialPoint : List F
  alpha : F
  /-- The fraction of the predicted change that a line search asks for. -/
  c1 : F
  memory : Nat
  hessianDamping : F
  lineSearch : LineSearchMode
  maxLineSearchTrials : Nat
  termination : Tolerances F

/-- An option that is checked for its range. -/
inductive Parameter where
  | hessianDamping
  | alpha
  | c1
  | maxLineSearchTrials
  | gtol
  | ftol
  | xtol
  deriving DecidableEq, Repr

namespace Parameter

def name : Parameter → String
  | hessianDamping => "hessian_damping"
  | alpha => "alpha"
  | c1 => "c1"
  | maxLineSearchTrials => "max_line_search_trials"
  | gtol => "gtol"
  | ftol => "ftol"
  | xtol => "xtol"

def requirement : Parameter → String
  | hessianDamping => "must be finite and non-negative"
  | alpha => "must be finite and positive"
  | c1 => "must lie in (0, 1)"
  | maxLineSearchTrials => "must be positive"
  | gtol | ftol | xtol => "tolerance must be non-negative"

end Parameter

inductive InputError where
  | emptyPoint
  | dimensionMismatch (expected got : Nat)
  | invalidMaxIter
  | invalidMemory
  | missingHessian (algorithm : Algorithm)
  | invalidParameter (parameter : Parameter)
  deriving DecidableEq, Repr

namespace InputError

def message : InputError → String
  | emptyPoint => "initial point is empty"
  | dimensionMismatch expected got =>
    "initial point has " ++ toString got ++ " coordinates, objective expects " ++ toString expected
  | invalidMaxIter => "max_iter must be positive"
  | invalidMemory => "L-BFGS memory size must be positive"
  | missingHessian algorithm =>
    algorithm.title ++ " requires a Hessian but the objective does not provide one"
  | invalidParameter parameter =>
    "invalid parameter `" ++ parameter.name ++ "`: " ++ parameter.requirement

end InputError

namespace Tolerances

variable {F : Type} [Arithmetic F]

/-- Whether a tolerance is a number and not below zero. -/
def isValid (tol : F) : Bool :=
  !(Arithmetic.isNaN tol) && !(tol < 0 : Bool)

def fault? (t : Tolerances F) : Option InputError :=
  if !isValid t.gtol then some (.invalidParameter .gtol)
  else if !isValid t.ftol then some (.invalidParameter .ftol)
  else if !isValid t.xtol then some (.invalidParameter .xtol)
  else none

end Tolerances

namespace Options

variable {F : Type} [Arithmetic F]

/-- The usual options, with an empty start point. -/
def standard (tolerances : Tolerances F) : Options F where
  maxIter := 100
  initialPoint := []
  alpha := 0.1
  c1 := 1e-4
  memory := 5
  hessianDamping := 0.01
  lineSearch := .armijo
  maxLineSearchTrials := 20
  termination := tolerances

def criteria (o : Options F) : StoppingCriteria F :=
  { o.termination with maxIter := o.maxIter }

/-- The line search that the options ask for: full steps, halved after each miss. -/
def armijo (o : Options F) : ArmijoParams F where
  c1 := o.c1
  rho := 0.5
  alphaInit := 1
  maxTrials := o.maxLineSearchTrials

/-- The first reason why a method cannot start on an objective of the given dimension. -/
def fault? (o : Options F) (algorithm : Algorithm) (dim : Nat) (hasHessian : Bool) :
    Option InputError :=
  if o.initialPoint.isEmpty then
    some .emptyPoint
  else if o.initialPoint.length ≠ dim then
    some (.dimensionMismatch dim o.initialPoint.length)
  else if o.maxIter = 0 then
    some .invalidMaxIter
  else if algorithm = .lbfgs ∧ o.memory = 0 then
    some .invalidMemory
  else if algorithm.needsHessian ∧ ¬ hasHessian then
    some (.missingHessian algorithm)
  else if algorithm.needsHessian ∧
      (¬ Arithmetic.isFinite o.hessianDamping ∨ o.hessianDamping < 0) then
    some (.invalidParameter .hessianDamping)
  else if algorithm = .gradientDescent ∧ (¬ Arithmetic.isFinite o.alpha ∨ o.alpha ≤ 0) then
    some (.invalidParameter .alpha)
  else if algorithm.usesLineSearch o.lineSearch ∧ ¬ (0 < o.c1 ∧ o.c1 < 1) then
    some (.invalidParameter .c1)
  else if algorithm.usesLineSearch o.lineSearch ∧ o.maxLineSearchTrials = 0 then
    some (.invalidParameter .maxLineSearchTrials)
  else
    o.termination.fault?

/-- Accepts options with which a method can start. -/
def validate (o : Options F) (algorithm : Algorithm) (dim : Nat) (hasHessian : Bool) :
    Except InputError Unit :=
  match o.fault? algorithm dim hasHessian with
  | some e => .error e
  | none => .ok ()

end Options

end Downhill
