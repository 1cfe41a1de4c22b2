import Downhill.Widening

/-!
# Arithmetic

Every algorithm of the library is written once, over any type with the operations of `Arithmetic`.
The same definition runs on double and single precision and can be studied over the real numbers.

Nothing is assumed of the operations: an algorithm may meet numbers that compare with nothing, not
even with themselves, and numbers that are not finite.
-/

namespace Downhill

/-- The operations that the algorithms use. -/
class Arithmetic (F : Type) extends Zero F, One F, Add F, Sub F, Mul F, Div F, Neg F, LT F, LE F,
    BEq F, OfScientific F, NatCast F where
  decidableLT : ∀ x y : F, Decidable (x < y)
  decidableLE : ∀ x y : F, Decidable (x ≤ y)
  abs : F → F
  sqrt : F → F
  exp : F → F
  log : F → F
  sin : F → F
  cos : F → F
  /-- The angle between zero and half a turn with a given cosine. -/
  acos : F → F
  pi : F
  thirdTurn : F
  isFinite : F → Bool
  /-- What stands for a number above all others. -/
  infinity : F
  /-- The gap between one and the next larger number. -/
  epsilon : F
  /-- The bytes that a number takes in memory; none where there is no bound on memory. -/
  width : Option Nat

namespace Arithmetic

variable {F : Type} [Arithmetic F]

instance (x y : F) : Decidable (x < y) :=
  decidableLT x y

instance (x y : F) : Decidable (x ≤ y) :=
  decidableLE x y

def isNaN (x : F) : Bool :=
  !(x == x)

/-- The larger of two numbers; an operand that is no number loses to the other one. -/
def maxNum (x y : F) : F :=
  if isNaN x then y else if isNaN y then x else if x < y then y else x

/-- The smaller of two numbers; an operand that is no number loses to the other one. -/
def minNum (x y : F) : F :=
  if isNaN x then y else if isNaN y then x else if y < x then y else x

/-- Moves a number below `low` up to `low` and one above `high` down to `high`. -/
def clamp (low high x : F) : F :=
  if x < low then low else if high < x then high else x

/-- The sum of a list, added up from the left onto negative zero, which is neutral even for the
sign of a zero. -/
def sum (xs : List F) : F :=
  xs.foldl (· + ·) (-0)

end Arithmetic

instance : Arithmetic Float where
  zero := 0.0
  one := 1.0
  natCast n := Float.ofNat n
  decidableLT x y := inferInstanceAs (Decidable (x < y))
  decidableLE x y := inferInstanceAs (Decidable (x ≤ y))
  abs := Float.abs
  sqrt := Float.sqrt
  exp := Float.exp
  log := Float.log
  sin := Float.sin
  cos := Float.cos
  acos := Float.acos
  pi := 3.141592653589793
  thirdTurn := 2.0 * 3.141592653589793 / 3.0
  isFinite := Float.isFinite
  infinity := 1.0 / 0.0
  epsilon := 1.0 / 4503599627370496.0
  width := some 8

instance : Arithmetic Float32 where
  zero := 0.0
  one := 1.0
  natCast n := Float32.ofNat n
  decidableLT x y := inferInstanceAs (Decidable (x < y))
  decidableLE x y := inferInstanceAs (Decidable (x ≤ y))
  abs := Float32.abs
  sqrt := Float32.sqrt
  exp := Float32.exp
  log := Float32.log
  sin := Float32.sin
  cos := Float32.cos
  acos := Float32.acos
  pi := 3.1415927
  thirdTurn := narrow (2.0 * 3.141592653589793 / 3.0)
  isFinite := Float32.isFinite
  infinity := 1.0 / 0.0
  epsilon := 1.0 / 8388608.0
  width := some 4

/-- Arithmetic whose numbers are double precision numbers, perhaps only some of them. -/
class Binary (F : Type) extends Arithmetic F where
  toDouble : F → Float
  ofDouble : Float → F

instance : Binary Float where
  toDouble x := x
  ofDouble x := x

instance : Binary Float32 where
  toDouble := widen
  ofDouble := narrow

namespace Binary

variable {F : Type} [Binary F]

/-- The bit pattern of a number in double precision; all that are no number share one. -/
def bits (x : F) : Nat :=
  (toDouble x).toBits.toNat

end Binary

end Downhill
