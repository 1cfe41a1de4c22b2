import Downhill.Matrix.Basic

/-!
# Spectra of small symmetric matrices

The eigenvalues of symmetric matrices of order one, two and three in closed form, largest first, and
the condition number of a spectrum. Of a matrix of order two or three only the entries on and above
the diagonal are read.
-/

namespace Downhill

namespace Spectrum

variable {F : Type} [Arithmetic F]

/-- The two roots around `(p + d) / 2`, from the trace and the discriminant. -/
def orderTwo (p q d : F) : List F :=
  let mid := (p + d) / 2.0
  let halfGap := (p - d) / 2.0
  let radius := Arithmetic.sqrt (halfGap * halfGap + q * q)
  [mid + radius, mid - radius]

/-- The trigonometric solution of the characteristic cubic. The matrix is moved to trace zero and
scaled, and the three roots are a third of a turn apart. -/
def orderThree (a00 a01 a02 a11 a12 a22 : F) : List F :=
  let off := a01 * a01 + a02 * a02 + a12 * a12
  if off == 0 then
    [a00, a11, a22]
  else
    let q := (a00 + a11 + a22) / 3.0
    let d0 := a00 - q
    let d1 := a11 - q
    let d2 := a22 - q
    let p := Arithmetic.sqrt ((d0 * d0 + d1 * d1 + d2 * d2 + 2.0 * off) / 6.0)
    let b00 := d0 / p
    let b11 := d1 / p
    let b22 := d2 / p
    let b01 := a01 / p
    let b02 := a02 / p
    let b12 := a12 / p
    let det := b00 * (b11 * b22 - b12 * b12) - b01 * (b01 * b22 - b12 * b02)
      + b02 * (b01 * b12 - b11 * b02)
    let r := Arithmetic.minNum (Arithmetic.maxNum (det / 2.0) (-1)) 1
    let phi := Arithmetic.acos r / 3.0
    let largest := q + 2.0 * p * Arithmetic.cos phi
    let smallest := q + 2.0 * p * Arithmetic.cos (phi + Arithmetic.thirdTurn)
    let middle := 3.0 * q - largest - smallest
    [largest, middle, smallest]

/-- Puts `x` into a list, past every leading element that is smaller. -/
def insertUp (x : F) : List F → List F
  | [] => [x]
  | y :: ys => if y < x then y :: insertUp x ys else x :: y :: ys

/-- The list from its largest element down. Elements are inserted one after the other, and one moves
ahead only of elements that are smaller. -/
def descending (xs : List F) : List F :=
  (xs.foldl (fun sorted x => insertUp x sorted) []).reverse

/-- The eigenvalues of a symmetric matrix of order one to three with finite entries, largest
first. -/
def eigenvalues (a : Rows F) : Option (List F) :=
  if a.isFinite then
    match a with
    | [[p]] => some [p]
    | [[p, q], [_, d]] => some (descending (orderTwo p q d))
    | [[a00, a01, a02], [_, a11, a12], [_, _, a22]] =>
      some (descending (orderThree a00 a01 a02 a11 a12 a22))
    | _ => none
  else
    none

/-- The largest magnitude over the smallest one, and infinite where the smallest one is zero. -/
def conditionNumber (values : List F) : F :=
  let largest := values.foldl (fun m x => Arithmetic.maxNum m (Arithmetic.abs x)) 0
  let smallest := values.foldl (fun m x => Arithmetic.minNum m (Arithmetic.abs x))
    Arithmetic.infinity
  if smallest == 0 then Arithmetic.infinity else largest / smallest

end Spectrum

end Downhill
