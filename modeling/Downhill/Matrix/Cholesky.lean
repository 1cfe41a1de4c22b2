import Downhill.Matrix.Basic

/-!
# Cholesky factors

A symmetric matrix is given by its lower triangle: row `i` is its first `i + 1` entries. The matrix
is taken apart column by column. The first entry has to be positive and finite; its root is the
diagonal entry of the factor, the entries below it are divided by that root, and what they
contribute is taken out of the rest of the triangle.
-/

namespace Downhill

namespace Cholesky

variable {F : Type} [Arithmetic F]

/-- A column of the lower triangular factor: its diagonal entry and the entries below. -/
structure Column (F : Type) where
  diagonal : F
  below : List F

def lowerTriangle (a : Rows F) : Rows F :=
  a.mapIdx fun i row => row.take (i + 1)

/-- What is left of a row of the triangle after the first column, whose factor entries are `heads`
from the second row on; `head` is the one of this row. -/
def complementRow (heads : List F) (head : F) (row : List F) : List F :=
  List.zipWith (fun x h => x - head * h) row.tail heads

/-- The columns of the factor of a lower triangle, unless a diagonal entry fails to be positive and
finite. -/
def columns : (order : Nat) → Rows F → Option (List (Column F))
  | 0, _ => some []
  | _ + 1, [] => some []
  | order + 1, top :: rows =>
    let pivot := top.headD 0
    if 0 < pivot ∧ Arithmetic.isFinite pivot then
      let diagonal := Arithmetic.sqrt pivot
      let heads := rows.map fun row => row.headD 0 / diagonal
      (columns order (List.zipWith (complementRow heads) heads rows)).map (⟨diagonal, heads⟩ :: ·)
    else
      none

/-- The columns of the factor of a square matrix, of which only the lower triangle is read. -/
def factor (a : Rows F) : Option (List (Column F)) :=
  columns a.length (lowerTriangle a)

/-- Solves the factor's system: each value found is taken out of the remaining right-hand side. -/
def forward : List (Column F) → List F → List F
  | [], _ => []
  | _ :: _, [] => []
  | c :: cs, b :: bs =>
    let y := b / c.diagonal
    y :: forward cs (List.zipWith (fun s l => s - l * y) bs c.below)

/-- Solves the transposed factor's system from its last row. -/
def backward : List (Column F × F) → List F
  | [] => []
  | (c, y) :: rows =>
    let later := backward rows
    reduceBy y c.below later / c.diagonal :: later

/-- The solution of `a * x = b`, unless `a` fails to be positive definite. -/
def solve (a : Rows F) (b : List F) : Option (List F) :=
  (factor a).map fun cs => backward (cs.zip (forward cs b))

end Cholesky

end Downhill
