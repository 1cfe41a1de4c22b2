/-!
# JSON values

Numbers come in two kinds. One that is written as an integer and fits into 64 bits, signed or not,
is an integer; every other one is a double. The members of an object keep the order in which they
are written, repetitions included.
-/

namespace Downhill

inductive Json where
  | null
  | bool (b : Bool)
  | integer (n : Int)
  | number (x : Float)
  | string (s : String)
  | array (items : List Json)
  | object (members : List (String × Json))
  /-- A value that is well formed and cannot be held: a number beyond the doubles, a string with a
  surrogate that has no partner, or an object with such a string among its names. It may be passed
  over, and read as nothing. -/
  | unreadable

end Downhill
