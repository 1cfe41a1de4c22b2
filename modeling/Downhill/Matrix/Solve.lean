import Downhill.Matrix.Cholesky
import Downhill.Matrix.LU

/-!
# Symmetric systems

`solveSymmetric` tries the factorizations in the order of what they promise: Cholesky, which only a
positive definite matrix passes, then elimination with row exchanges, then elimination of the matrix
with a small multiple of the identity added. The answer says which attempt it comes from.
-/

namespace Downhill

/-- How a symmetric system was solved. -/
inductive SolveMethod (F : Type) where
  /-- The matrix is positive definite. -/
  | cholesky
  /-- The matrix is regular without being positive definite. -/
  | lu
  /-- The matrix counts as singular; the one with `shift` added along its diagonal does not. -/
  | regularized (shift : F)
  deriving DecidableEq, Repr

structure SymmetricSolution (F : Type) where
  solution : List F
  method : SolveMethod F

variable {F : Type} [Arithmetic F]

/-- How many shifts are tried before a system is given up. -/
def regularizationAttempts : Nat := 8

/-- The first shift: a fixed fraction of the largest diagonal entry, or of one where that is
larger. -/
def firstShift (a : Rows F) : F :=
  1e-10 * a.diagonal.foldl (fun m x => Arithmetic.maxNum m (Arithmetic.abs x)) 1

/-- Tries growing shifts along the diagonal, each ten times the one before. -/
def solveShifted (a : Rows F) (b : List F) : (attempts : Nat) → (shift : F) →
    Option (SymmetricSolution F)
  | 0, _ => none
  | attempts + 1, shift =>
    match LU.solve (a.addDiagonal shift) b with
    | some x => some ⟨x, .regularized shift⟩
    | none => solveShifted a b attempts (shift * 10.0)

/-- Solves `a * x = b` for a symmetric `a`, unless every attempt fails. -/
def solveSymmetric (a : Rows F) (b : List F) : Option (SymmetricSolution F) :=
  match Cholesky.solve a b with
  | some x => some ⟨x, .cholesky⟩
  | none =>
    match LU.solve a b with
    | some x => some ⟨x, .lu⟩
    | none => solveShifted a b regularizationAttempts (firstShift a)

end Downhill
