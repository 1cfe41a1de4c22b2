import Downhill.Decimal.Rounded

/-!
# Shortest decimals

Of the decimals that round to a double, the ones with the fewest digits are looked for, and of
those the one nearest to the double. On the grid of decimals with a given number of digits only the
two neighbours of the exact value have to be tried.
-/

namespace Downhill

namespace Decimal

/-- The interval of the numbers that round to a positive double, in quarters of its last binary
place: the lower end, the value and the upper end. Below a power of two the neighbour is nearer. -/
def quarters (b : Binary64) : Nat × Nat × Nat :=
  let low := if b.mantissa = twoTo 52 ∧ -1074 < b.exponent then 1 else 2
  (4 * b.mantissa - low, 4 * b.mantissa, 4 * b.mantissa + 2)

/-- Whether `n` lies between the ends, which belong to the interval of an even mantissa. -/
def between (closed : Bool) (low n high : Nat) : Bool :=
  if closed then low ≤ n ∧ n ≤ high else low < n ∧ n < high

/-- The decimal on the grid of `10 ^ unit` nearest to a double, if it rounds to the double. Of two at
the same distance the larger one is taken. -/
def onGrid (b : Binary64) (unit : Int) : Option Nat :=
  let (low, value, high) := quarters b
  let (num, den) := Binary64.ratio ⟨1, b.exponent - 2⟩
  let (num, den) := inUnits num den unit
  let below := value * num / den
  let closed := b.mantissa % 2 = 0
  let inside (n : Nat) : Bool := between closed (low * num) (n * den) (high * num)
  let rest := value * num % den
  if rest = 0 then some below
  else
    match inside below, inside (below + 1) with
    | true, true => some (if 2 * rest < den then below else below + 1)
    | true, false => some below
    | false, true => some (below + 1)
    | false, false => none

/-- The first grid with a hit, among those with `digits` digits and finer ones. -/
def shortestFrom (b : Binary64) (places : Int) : (tries : Nat) → (digits : Nat) → Nat × Int
  | 0, _ => (0, 0)
  | tries + 1, digits =>
    match onGrid b (places - digits) with
    | some n => (n, places - digits)
    | none => shortestFrom b places tries (digits + 1)

/-- Whole digits and a power of ten: the shortest decimal that rounds to a positive double. Seventeen
digits always suffice. -/
def shortestDigits (b : Binary64) : Nat × Int :=
  let (num, den) := b.ratio
  shortestFrom b (decimalPlaces num den) 18 1

/-- The digits of `n * 10 ^ power` without an exponent. -/
def positional (n : Nat) (power : Int) : String :=
  if 0 ≤ power then
    toString (n * tenTo power.toNat)
  else
    let places := (-power).toNat
    toString (n / tenTo places) ++ "." ++ padded places (n % tenTo places)

/-- The shortest text of a double that reads back, without an exponent and without a point behind a
whole number. -/
def shortest (x : Float) : String :=
  if x.isFinite then
    let b := Binary64.ofFloat x
    if b.mantissa = 0 then sign x ++ "0"
    else
      let (n, power) := shortestDigits b
      sign x ++ positional n power
  else
    special x

/-- The digits of `n * 10 ^ power` with a point behind the first one and an exponent. -/
def exponential (n : Nat) (power : Int) : String :=
  let ds := Nat.toDigits 10 n
  let rest := if ds.length = 1 then ['0'] else ds.tail
  String.ofList (ds.take 1) ++ "." ++ String.ofList rest ++ "e" ++
    toString (power + ds.length - 1)

/-- The shortest text of a finite double that reads back as a double: it has a point, and an exponent
where the double is very large or very small. -/
def pointed (x : Float) : String :=
  let b := Binary64.ofFloat x
  if b.mantissa = 0 then sign x ++ "0.0"
  else
    let (n, power) := shortestDigits b
    if power < -20 ∨ 16 < power then sign x ++ exponential n power
    else if power < 0 then sign x ++ positional n power
    else sign x ++ positional n power ++ ".0"

end Decimal

end Downhill
