import Downhill.Decimal.Shortest
import Downhill.Json.Basic

/-!
# Writing JSON text

`Json.render` writes a value on one line, so that `Json.read?` gives it back. A double is written
with a point, which keeps it apart from an integer; one that is not finite has no JSON text and is
written as null.
-/

namespace Downhill

namespace Json

def escapeControl (c : Char) : String :=
  let ds := Nat.toDigits 16 c.toNat
  "\\u" ++ String.ofList (List.replicate (4 - ds.length) '0' ++ ds)

def renderChar (c : Char) : String :=
  if c == '\"' then "\\\""
  else if c == '\\' then "\\\\"
  else if c.toNat < 0x20 then escapeControl c
  else String.singleton c

def renderString (s : String) : String :=
  "\"" ++ String.join (s.toList.map renderChar) ++ "\""

mutual

def render : Json → String
  | null => "null"
  | bool b => if b then "true" else "false"
  | integer n => toString n
  | number x => if x.isFinite then Decimal.pointed x else "null"
  | string s => renderString s
  | array items => "[" ++ String.intercalate "," (renderItems items) ++ "]"
  | object members => "\x7b" ++ String.intercalate "," (renderMembers members) ++ "\x7d"
  | unreadable => "null"

def renderItems : List Json → List String
  | [] => []
  | item :: items => render item :: renderItems items

def renderMembers : List (String × Json) → List String
  | [] => []
  | (name, value) :: members =>
    (renderString name ++ ":" ++ render value) :: renderMembers members

end

end Json

end Downhill
