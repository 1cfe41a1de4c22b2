import Downhill.Options

/-!
# Keys of runs

Two runs have the same key when the problem has the same name, the method is the same and the
options agree in every bit. So positive and negative zero make different keys, and options that are
no numbers can still be found again.
-/

namespace Downhill

/-- The key of a run: the options are flattened into a list of numbers, the initial point last. -/
structure TraceKey where
  problem : String
  algorithm : Algorithm
  options : List Nat
  deriving DecidableEq, Hashable

namespace TraceKey

variable {F : Type} [Binary F]

def modeWord : LineSearchMode → Nat
  | .armijo => 0
  | .off => 1

/-- The options as numbers: first the counts and the step choice, then the bits of all reals. -/
def words (o : Options F) : List Nat :=
  [o.maxIter, o.memory, o.maxLineSearchTrials, modeWord o.lineSearch, Binary.bits o.alpha,
    Binary.bits o.c1, Binary.bits o.hessianDamping, Binary.bits o.termination.gtol,
    Binary.bits o.termination.ftol, Binary.bits o.termination.xtol] ++
    o.initialPoint.map Binary.bits

/-- The key of running a method on a named problem. -/
def ofOptions (problem : String) (algorithm : Algorithm) (o : Options F) : TraceKey :=
  ⟨problem, algorithm, words o⟩

end TraceKey

end Downhill
