/-!
# The exact value of a double

A finite double is a sign, a whole mantissa and a power of two. The numbers that round to it fill
an interval around it, which reaches half way to its neighbours.
-/

namespace Downhill

def twoTo (n : Nat) : Nat :=
  Nat.pow 2 n

def tenTo (n : Nat) : Nat :=
  Nat.pow 10 n

/-- The magnitude `mantissa * 2 ^ exponent` of a finite double. -/
structure Binary64 where
  mantissa : Nat
  exponent : Int

namespace Binary64

def isNegative (x : Float) : Bool :=
  twoTo 63 ≤ x.toBits.toNat

def ofFloat (x : Float) : Binary64 :=
  let bits := x.toBits.toNat
  let biased : Nat := bits / twoTo 52 % twoTo 11
  let fraction : Nat := bits % twoTo 52
  if biased = 0 then ⟨fraction, -1074⟩ else ⟨twoTo 52 + fraction, (biased : Int) - 1075⟩

/-- The magnitude as a fraction. -/
def ratio (b : Binary64) : Nat × Nat :=
  if 0 ≤ b.exponent then (b.mantissa * twoTo b.exponent.toNat, 1)
  else (b.mantissa, twoTo (-b.exponent).toNat)

end Binary64

/-- The quotient rounded to the nearest whole number, a half to the even neighbour. -/
def roundHalfEven (num den : Nat) : Nat :=
  let q := num / den
  let r := num % den
  if 2 * r < den then q
  else if den < 2 * r then q + 1
  else if q % 2 = 0 then q else q + 1

/-- The quotient `num / den` in units of `10 ^ unit`, as a quotient of whole numbers. -/
def inUnits (num den : Nat) (unit : Int) : Nat × Nat :=
  if 0 ≤ unit then (num, den * tenTo unit.toNat) else (num * tenTo (-unit).toNat, den)

/-- The number of decimal places before the point that a positive quotient fills: the least `p` for
which it is below `10 ^ p`. -/
def decimalPlaces (num den : Nat) : Int :=
  if den ≤ num then
    (Nat.toDigits 10 (num / den)).length
  else
    let p : Int := 1 - (Nat.toDigits 10 (den / num)).length
    let (n, d) := inUnits num den p
    if n < d then p else p + 1

end Downhill
