import Downhill.Arithmetic

/-!
# Vectors

A vector is the list of its coordinates. Sums run from the first coordinate to the last.
-/

namespace Downhill

variable {F : Type} [Arithmetic F]

def dot (u v : List F) : F :=
  (u.zip v).foldl (fun s p => s + p.1 * p.2) 0

/-- The Euclidean length of `v`. -/
def norm (v : List F) : F :=
  Arithmetic.sqrt (dot v v)

/-- The point `w + alpha * p`. -/
def along (w : List F) (alpha : F) (p : List F) : List F :=
  List.zipWith (fun wi pi => wi + alpha * pi) w p

def sub (u v : List F) : List F :=
  List.zipWith (· - ·) u v

def scale (alpha : F) (v : List F) : List F :=
  v.map (alpha * ·)

def neg (v : List F) : List F :=
  v.map (-·)

/-- What remains of `b` once the products of matching coefficients and values are taken away, from
the first to the last. -/
def reduceBy (b : F) (coefficients values : List F) : F :=
  (coefficients.zip values).foldl (fun s p => s - p.1 * p.2) b

end Downhill
