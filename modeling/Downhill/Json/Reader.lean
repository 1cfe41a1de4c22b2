import Downhill.Json.Basic

/-!
# Reading JSON text

`Json.read?` accepts exactly one value with blanks around it: no comments, no trailing commas and
nothing after the value. Decimal numbers are rounded correctly to doubles.
-/

namespace Downhill

namespace Json

/-- What may stand between the parts of a text. -/
def isBlank (c : Char) : Bool :=
  c == ' ' || c == '\t' || c == '\n' || c == '\r'

def skipBlanks (cs : List Char) : List Char :=
  cs.dropWhile isBlank

def ofDigits (ds : List Char) : Nat :=
  ds.foldl (fun n d => 10 * n + (d.toNat - '0'.toNat)) 0

/-- The double nearest to `mantissa * 10 ^ exponent`. Where the size alone decides, the power is not
formed: ten to the 310 is beyond the doubles, and ten to the minus 330 rounds to zero. -/
def decimal (mantissa : Nat) (exponent : Int) : Float :=
  let magnitude := exponent + (Nat.toDigits 10 mantissa).length
  if mantissa = 0 ∨ magnitude < -330 then 0.0
  else if 310 < magnitude then 1.0 / 0.0
  else OfScientific.ofScientific mantissa (exponent < 0) exponent.natAbs

def ofDouble (x : Float) : Json :=
  if x.isFinite then .number x else .unreadable

/-- The value of a number written as an integer. A negative zero is a double, and so is a number
that does not fit into 64 bits. -/
def ofInteger (negative : Bool) (n : Nat) : Json :=
  if negative then
    if n = 0 ∨ 0x8000000000000000 < n then ofDouble (-(decimal n 0)) else .integer (-(n : Int))
  else
    if n < 0x10000000000000000 then .integer n else ofDouble (decimal n 0)

/-- The exponent of a number, when one is written: a letter, perhaps a sign, and digits. -/
def readExponent (cs : List Char) : Option (Option Int × List Char) :=
  match cs with
  | c :: rest =>
    if c == 'e' || c == 'E' then
      let (negative, rest) := match rest with
        | '-' :: rest => (true, rest)
        | '+' :: rest => (false, rest)
        | rest => (false, rest)
      let (ds, rest) := rest.span Char.isDigit
      if ds.isEmpty then none
      else
        let n : Int := ofDigits ds
        some (some (if negative then -n else n), rest)
    else some (none, cs)
  | [] => some (none, cs)

/-- The digits after a point, when one is written. -/
def readFraction (cs : List Char) : Option (Option (List Char) × List Char) :=
  match cs with
  | '.' :: rest =>
    let (ds, rest) := rest.span Char.isDigit
    if ds.isEmpty then none else some (some ds, rest)
  | _ => some (none, cs)

/-- The digits before the point: one zero, or digits that do not start with zero. -/
def readWhole (cs : List Char) : Option (List Char × List Char) :=
  match cs with
  | '0' :: rest => some (['0'], rest)
  | _ =>
    let (ds, rest) := cs.span Char.isDigit
    if ds.isEmpty then none else some (ds, rest)

def readNumber (cs : List Char) : Option (Json × List Char) := do
  let (negative, cs) := match cs with
    | '-' :: rest => (true, rest)
    | _ => (false, cs)
  let (whole, cs) ← readWhole cs
  let (fraction, cs) ← readFraction cs
  let (exponent, cs) ← readExponent cs
  if fraction.isNone && exponent.isNone then
    return (ofInteger negative (ofDigits whole), cs)
  else
    let places := fraction.getD []
    let x := decimal (ofDigits (whole ++ places)) (exponent.getD 0 - places.length)
    return (ofDouble (if negative then -x else x), cs)

def hexDigit? (c : Char) : Option Nat :=
  if '0' ≤ c ∧ c ≤ '9' then some (c.toNat - '0'.toNat)
  else if 'a' ≤ c ∧ c ≤ 'f' then some (c.toNat - 'a'.toNat + 10)
  else if 'A' ≤ c ∧ c ≤ 'F' then some (c.toNat - 'A'.toNat + 10)
  else none

def hexUnit? (a b c d : Char) : Option Nat := do
  return ((← hexDigit? a) * 16 + (← hexDigit? b)) * 256 + (← hexDigit? c) * 16 + (← hexDigit? d)

/-- A string that is being read: its characters so far, last one first, a leading surrogate that
waits for its partner, and whether a surrogate has been left without one. -/
structure Scan where
  chars : List Char := []
  lead : Option Nat := none
  broken : Bool := false

namespace Scan

/-- Takes in a character, which is no partner for a leading surrogate. -/
def push (s : Scan) (c : Char) : Scan :=
  { chars := c :: s.chars, lead := none, broken := s.broken || s.lead.isSome }

/-- Takes in a unit that was written as an escape. Two surrogates in the right order make one
character. -/
def pushUnit (s : Scan) (unit : Nat) : Scan :=
  if 0xDC00 ≤ unit ∧ unit < 0xE000 then
    match s.lead with
    | some lead =>
      { s with
        chars := Char.ofNat (0x10000 + (lead - 0xD800) * 0x400 + (unit - 0xDC00)) :: s.chars
        lead := none }
    | none => { s with broken := true }
  else if 0xD800 ≤ unit ∧ unit < 0xDC00 then
    { s with lead := some unit, broken := s.broken || s.lead.isSome }
  else
    s.push (Char.ofNat unit)

/-- The string at its closing quote, unless a surrogate was left alone. -/
def finish (s : Scan) : Option String :=
  if s.broken || s.lead.isSome then none else some (String.ofList s.chars.reverse)

end Scan

def escaped? (c : Char) : Option Char :=
  match c with
  | '\"' => some '\"'
  | '\\' => some '\\'
  | '/' => some '/'
  | 'b' => some '\x08'
  | 'f' => some '\x0c'
  | 'n' => some '\n'
  | 'r' => some '\r'
  | 't' => some '\t'
  | _ => none

/-- The rest of a string after its opening quote. A control character has to be escaped. -/
def readString : List Char → Scan → Option (Option String × List Char)
  | [], _ => none
  | '\"' :: rest, s => some (s.finish, rest)
  | '\\' :: 'u' :: a :: b :: c :: d :: rest, s =>
    match hexUnit? a b c d with
    | some unit => readString rest (s.pushUnit unit)
    | none => none
  | '\\' :: c :: rest, s =>
    match escaped? c with
    | some e => readString rest (s.push e)
    | none => none
  | c :: rest, s => if c.toNat < 0x20 then none else readString rest (s.push c)

/-- An object of the members read, last one first, if every name can be held. -/
def ofMembers (members : List (Option String × Json)) : Json :=
  match members.reverse.mapM fun (name, value) => name.map fun n => (n, value) with
  | some members => .object members
  | none => .unreadable

mutual

/-- A value at the start of the text. Every value and every separator takes up a character, so the
length of the text bounds the steps. -/
def readValue : (steps : Nat) → List Char → Option (Json × List Char)
  | 0, _ => none
  | steps + 1, cs =>
    match skipBlanks cs with
    | 'n' :: 'u' :: 'l' :: 'l' :: rest => some (.null, rest)
    | 't' :: 'r' :: 'u' :: 'e' :: rest => some (.bool true, rest)
    | 'f' :: 'a' :: 'l' :: 's' :: 'e' :: rest => some (.bool false, rest)
    | '\"' :: rest =>
      (readString rest {}).map fun (s, rest) => (s.elim .unreadable .string, rest)
    | '[' :: rest =>
      match skipBlanks rest with
      | ']' :: rest => some (.array [], rest)
      | rest => readItems steps rest []
    | '\x7b' :: rest =>
      match skipBlanks rest with
      | '\x7d' :: rest => some (.object [], rest)
      | rest => readMembers steps rest []
    | cs => readNumber cs

/-- The items of an array up to its closing bracket; `items` are those before, last one first. -/
def readItems : (steps : Nat) → List Char → List Json → Option (Json × List Char)
  | 0, _, _ => none
  | steps + 1, cs, items =>
    match readValue steps cs with
    | none => none
    | some (item, rest) =>
      match skipBlanks rest with
      | ',' :: rest => readItems steps rest (item :: items)
      | ']' :: rest => some (.array (item :: items).reverse, rest)
      | _ => none

/-- The members of an object up to its closing brace; `members` are those before, last one first. -/
def readMembers : (steps : Nat) → List Char → List (Option String × Json) →
    Option (Json × List Char)
  | 0, _, _ => none
  | steps + 1, cs, members =>
    match skipBlanks cs with
    | '\"' :: rest =>
      match readString rest {} with
      | none => none
      | some (name, rest) =>
        match skipBlanks rest with
        | ':' :: rest =>
          match readValue steps rest with
          | none => none
          | some (value, rest) =>
            match skipBlanks rest with
            | ',' :: rest => readMembers steps rest ((name, value) :: members)
            | '\x7d' :: rest => some (ofMembers ((name, value) :: members), rest)
            | _ => none
        | _ => none
    | _ => none

end

def read? (text : String) : Option Json :=
  let cs := text.toList
  match readValue (2 * cs.length + 1) cs with
  | some (value, rest) => if (skipBlanks rest).isEmpty then some value else none
  | none => none

end Json

end Downhill
