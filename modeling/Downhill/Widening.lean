import Downhill.Decimal.Binary

/-!
# Widening and narrowing

Every single precision number is a double precision number. Widening moves the parts of its bit
pattern to their places in the longer pattern; nothing is rounded. A number below the normal range
of single precision is a normal double, so its fraction moves up until its leading bit is implicit.

Narrowing rounds a double to the nearest single precision number.
-/

namespace Downhill

/-- The bit pattern of the double with the value of a single precision number. -/
def widenBits (bits : Nat) : Nat :=
  let sign := bits / Nat.pow 2 31
  let exponent := bits / Nat.pow 2 23 % Nat.pow 2 8
  let fraction := bits % Nat.pow 2 23
  let magnitude :=
    if exponent = 255 then 2047 * Nat.pow 2 52 + fraction * Nat.pow 2 29
    else if exponent ≠ 0 then (exponent + 896) * Nat.pow 2 52 + fraction * Nat.pow 2 29
    else if fraction = 0 then 0
    else (fraction.log2 + 873) * Nat.pow 2 52 + fraction * Nat.pow 2 (52 - fraction.log2)
  sign * Nat.pow 2 63 + magnitude

def widen (x : Float32) : Float :=
  Float.ofBits (UInt64.ofNat (widenBits x.toBits.toNat))

/-- The exponent and the fraction of the single precision number nearest to a double without its sign,
as the lower bits of its pattern. Of two numbers that are equally near the even pattern is taken. -/
def narrowMagnitude (exponent fraction : Nat) : Nat :=
  if exponent = 2047 then 255 * Nat.pow 2 23 + fraction / Nat.pow 2 29
  else
    let mantissa := if exponent = 0 then fraction else Nat.pow 2 52 + fraction
    -- The exponent of the result, which has a least value. A carry out of the mantissa moves into the
    -- exponent, and past the largest number it reaches the pattern of infinity.
    let place := max exponent 897
    let kept := roundHalfEven mantissa (Nat.pow 2 (29 + place - max exponent 1))
    min ((place - 897) * Nat.pow 2 23 + kept) (255 * Nat.pow 2 23)

/-- The bit pattern of the single precision number nearest to a double. -/
def narrowBits (bits : Nat) : Nat :=
  let sign := bits / Nat.pow 2 63
  let exponent := bits / Nat.pow 2 52 % Nat.pow 2 11
  let fraction := bits % Nat.pow 2 52
  sign * Nat.pow 2 31 + narrowMagnitude exponent fraction

def narrow (x : Float) : Float32 :=
  Float32.ofBits (UInt32.ofNat (narrowBits x.toBits.toNat))

end Downhill
