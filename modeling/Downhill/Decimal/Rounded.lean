import Downhill.Decimal.Binary

/-!
# Rounded decimals

A double written with a fixed number of places after the point, and in scientific notation with a
fixed number of digits. The exact value is rounded, and a half goes to the even neighbour.
-/

namespace Downhill

namespace Decimal

/-- The digits of a whole number, filled up with zeros in front to at least `width`. -/
def padded (width n : Nat) : String :=
  let ds := Nat.toDigits 10 n
  String.ofList (List.replicate (width - ds.length) '0' ++ ds)

/-- The text of a double that is no finite number. -/
def special (x : Float) : String :=
  if x.isNaN then "NaN" else if Binary64.isNegative x then "-inf" else "inf"

def sign (x : Float) : String :=
  if Binary64.isNegative x then "-" else ""

/-- A double with `places` digits after the point. -/
def fixed (places : Nat) (x : Float) : String :=
  if x.isFinite then
    let (num, den) := (Binary64.ofFloat x).ratio
    let units := roundHalfEven (num * tenTo places) den
    let whole := toString (units / tenTo places)
    let text := if places = 0 then whole
      else whole ++ "." ++ padded places (units % tenTo places)
    sign x ++ text
  else
    special x

/-- The digits of a positive quotient to `places` after the leading one, and the power of ten of the
leading one. Where rounding makes one more digit, the power moves up. -/
def scientificDigits (places num den : Nat) : Nat × Int :=
  let power := decimalPlaces num den - 1
  let (n, d) := inUnits num den (power - places)
  let ds := roundHalfEven n d
  if ds < tenTo (places + 1) then (ds, power) else (ds / 10, power + 1)

/-- A double in scientific notation with `places` digits after the point. -/
def scientific (places : Nat) (x : Float) : String :=
  if x.isFinite then
    let (num, den) := (Binary64.ofFloat x).ratio
    let (ds, power) := if num = 0 then (0, 0) else scientificDigits places num den
    let point := if places = 0 then "" else "." ++ padded places (ds % tenTo places)
    sign x ++ toString (ds / tenTo places) ++ point ++ "e" ++ toString power
  else
    special x

end Decimal

end Downhill
