import Downhill.Matrix.Basic

/-!
# Elimination with row exchanges

`LU.factor` brings a square matrix to triangular form. In each column the first remaining row with
the largest leading magnitude changes places with the top one, so every multiplier has magnitude
at most one. A column whose largest magnitude is below a threshold ends the elimination without a
result, and so does an entry that is not finite.

`LU.backSolve` solves a system from the factors of its matrix.
-/

namespace Downhill

namespace LU

variable {F : Type} [Arithmetic F]

/-- A row under elimination: where it stood in the matrix, the multipliers that have been taken
out of it, first column first, and the entries that are left. -/
structure Row (F : Type) where
  index : Nat
  lower : List F
  rest : List F

/-- The factors of a matrix, row by row: row `i` keeps `i` multipliers below the diagonal and its
final entries from the diagonal on. -/
structure Factors (F : Type) where
  rows : List (Row F)

namespace Row

/-- The entry in the column under elimination. -/
def head (r : Row F) : F :=
  r.rest.headD 0

/-- Takes a multiple of the pivot row out, which clears the column. -/
def eliminate (pivot r : Row F) : Row F :=
  let factor := r.head / pivot.head
  { r with
    lower := r.lower ++ [factor]
    rest := List.zipWith (fun x y => x - factor * y) r.rest.tail pivot.rest.tail }

end Row

/-- The place and the leading magnitude of the pivot: a later row is taken only if its magnitude is
strictly larger. The search stands at place `i` and has found `best` so far. -/
def pivotPlace : List (Row F) → (i : Nat) → (best : Nat × F) → Nat × F
  | [], _, best => best
  | r :: rs, i, best =>
    let size := Arithmetic.abs r.head
    pivotPlace rs (i + 1) (if best.2 < size then (i, size) else best)

def exchange (top : Row F) (others : List (Row F)) (i : Nat) : Row F × List (Row F) :=
  match others[i]? with
  | some r => (r, others.set i top)
  | none => (top, others)

/-- Eliminates the next columns, `columns` of them, with one row finished in each. -/
def eliminate (threshold : F) : (columns : Nat) → List (Row F) → Option (List (Row F))
  | 0, _ => some []
  | _ + 1, [] => some []
  | columns + 1, top :: others =>
    let (place, size) := pivotPlace others 1 (0, Arithmetic.abs top.head)
    if size < threshold then
      none
    else
      let (pivot, others) := match place with
        | 0 => (top, others)
        | i + 1 => exchange top others i
      (eliminate threshold columns (others.map pivot.eliminate)).map (pivot :: ·)

/-- The magnitude below which a pivot counts as zero: a fixed fraction of the largest entry, or of
one where that is larger. -/
def threshold (a : Rows F) : F :=
  1e-12 * Arithmetic.maxNum a.maxAbs 1

/-- The factors of a square matrix, unless an entry is not finite or a pivot counts as zero. -/
def factor (a : Rows F) : Option (Factors F) :=
  if a.isFinite then
    (eliminate (threshold a) a.length (a.mapIdx fun i row => ⟨i, [], row⟩)).map Factors.mk
  else
    none

/-- Solves the lower triangle, whose diagonal is one: each value is the right-hand side less the
multiples of the earlier values. -/
def forward (b : List F) : List (Row F) → (solved : List F) → List F
  | [], solved => solved
  | r :: rs, solved => forward b rs (solved ++ [reduceBy (b.getD r.index 0) r.lower solved])

def backward : List (List F × F) → List F
  | [] => []
  | (upper, y) :: rows =>
    let later := backward rows
    reduceBy y upper.tail later / upper.headD 0 :: later

/-- The solution of `a * x = b`, from the factors of `a`. -/
def backSolve (f : Factors F) (b : List F) : List F :=
  backward ((f.rows.map Row.rest).zip (forward b f.rows []))

/-- The solution of `a * x = b`, unless `a` counts as singular. -/
def solve (a : Rows F) (b : List F) : Option (List F) :=
  (factor a).map fun f => backSolve f b

end LU

end Downhill
