import Downhill.Vector

/-!
# Matrices

A matrix is the list of its rows. The solvers read square matrices; a place outside a matrix reads
as zero.
-/

namespace Downhill

/-- A matrix, row by row. -/
abbrev Rows (F : Type) := List (List F)

namespace Rows

variable {F : Type} [Arithmetic F]

def entry (a : Rows F) (i j : Nat) : F :=
  (a.getD i []).getD j 0

def diagonal (a : Rows F) : List F :=
  a.mapIdx fun i row => row.getD i 0

def addDiagonal (a : Rows F) (shift : F) : Rows F :=
  a.mapIdx fun i row => row.modify i (· + shift)

theorem length_addDiagonal (a : Rows F) (shift : F) : (a.addDiagonal shift).length = a.length :=
  List.length_mapIdx

def mulVec (a : Rows F) (v : List F) : List F :=
  a.map fun row => dot row v

def isFinite (a : Rows F) : Bool :=
  a.all fun row => row.all Arithmetic.isFinite

/-- The largest magnitude of an entry. -/
def maxAbs (a : Rows F) : F :=
  a.foldl (fun m row => row.foldl (fun m x => Arithmetic.maxNum m (Arithmetic.abs x)) m) 0

end Rows

end Downhill
