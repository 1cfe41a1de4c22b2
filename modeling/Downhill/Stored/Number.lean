import Downhill.Arithmetic
import Downhill.Json.Fields

/-!
# Stored numbers

JSON has no text for a number that is not finite. There are two ways around that. In a trace such a
number is stored under a name, so that every number can be read back. In options and summaries,
which are plain records, it is stored as null, and only numbers are read.
-/

namespace Downhill

namespace Stored

variable {F : Type} [Binary F]

/-- A stored number before it is looked at closely: a double or a name. -/
inductive Token where
  | value (x : Float)
  | name (s : String)

def ofInt {F : Type} [Arithmetic F] (n : Int) : F :=
  if n < 0 then -(n.natAbs : F) else (n.natAbs : F)

namespace Token

def ofJson : Json → Except Fault Token
  | .number x => .ok (.value x)
  | .integer n => .ok (.value (ofInt n))
  | .string s => .ok (.name s)
  | _ => .error .shape

def toNumber : Token → Except Fault F
  | .value x => .ok (Binary.ofDouble x)
  | .name s =>
    if s = "NaN" then .ok (0 / 0)
    else if s = "inf" then .ok Arithmetic.infinity
    else if s = "-inf" then .ok (-Arithmetic.infinity)
    else .error (.numberText s)

end Token

/-- A number of a trace. -/
def ofNumber (x : F) : Json :=
  let d := Binary.toDouble x
  if d.isFinite then .number d
  else if d.isNaN then .string "NaN"
  else if 0 < d then .string "inf"
  else .string "-inf"

def asNumber (value : Json) : Except Fault F := do
  (← Token.ofJson value).toNumber

def ofVector (v : List F) : Json :=
  Json.ofList ofNumber v

/-- Reads a vector of a trace. All its items have to be numbers or texts before the first text is
looked at. -/
def asVector (value : Json) : Except Fault (List F) := do
  (← value.asList Token.ofJson).mapM Token.toNumber

def ofRows (a : List (List F)) : Json :=
  Json.ofList ofVector a

/-- Reads a matrix of a trace, with the same care as a vector. -/
def asRows (value : Json) : Except Fault (List (List F)) := do
  (← value.asList (Json.asList Token.ofJson)).mapM fun row => row.mapM Token.toNumber

/-- A number of a plain record. -/
def ofPlain (x : F) : Json :=
  let d := Binary.toDouble x
  if d.isFinite then .number d else .null

/-- Reads a number of a plain record. An integer is rounded once. -/
def asPlain : Json → Except Fault F
  | .number x => .ok (Binary.ofDouble x)
  | .integer n => .ok (ofInt n)
  | _ => .error .shape

def ofCount (n : Nat) : Json :=
  .integer n

end Stored

end Downhill
