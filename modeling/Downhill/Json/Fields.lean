import Downhill.Json.Basic

/-!
# Reading values into records

A record is read from the members of an object. `Fields` puts the readers of single members together
and reports the fault that stands first in the text, whatever the order in which the members are
asked for; a missing member is noticed at the end of the object. Members that nobody asks for are
passed over, and a member that is asked for must not be repeated.
-/

namespace Downhill

inductive Fault where
  | shape
  /-- A text stands for a number and is none of the texts that do. -/
  | numberText (found : String)

namespace Fault

/-- The fault in words, where there is more to say than that the form is wrong. -/
def message? : Fault → Option String
  | shape => none
  | numberText found =>
    some ("expected a number, \"NaN\", \"inf\" or \"-inf\", found \"" ++ found ++ "\"")

end Fault

/-- Readers of some members of an object. A fault comes with the place of its member. -/
def Fields (α : Type) :=
  List (String × Json) → Except (Nat × Fault) α

namespace Fields

variable {α β : Type}

/-- Of two faults the one at the earlier place. -/
def earlier (a b : Nat × Fault) : Nat × Fault :=
  if b.1 < a.1 then b else a

def seq (f : Fields (α → β)) (x : Fields α) : Fields β := fun members =>
  match f members, x members with
  | .ok g, .ok a => .ok (g a)
  | .ok _, .error e => .error e
  | .error e, .ok _ => .error e
  | .error e, .error e' => .error (earlier e e')

instance : Applicative Fields where
  pure a := fun _ => .ok a
  seq f x := seq f (x ())

/-- The values of all members of a name, with their places. -/
def occurrences (name : String) : (place : Nat) → List (String × Json) → List (Nat × Json)
  | _, [] => []
  | place, (n, value) :: members =>
    if n = name then (place, value) :: occurrences name (place + 1) members
    else occurrences name (place + 1) members

def member? (name : String) (read : Json → Except Fault α) : Fields (Option α) := fun members =>
  match occurrences name 0 members with
  | [] => .ok none
  | (place, value) :: repeated =>
    match read value, repeated with
    | .error e, _ => .error (place, e)
    | .ok a, [] => .ok (some a)
    | .ok _, (later, _) :: _ => .error (later, .shape)

def member (name : String) (read : Json → Except Fault α) : Fields α := fun members =>
  match member? name read members with
  | .ok (some a) => .ok a
  | .ok none => .error (members.length, .shape)
  | .error e => .error e

def read (f : Fields α) : Json → Except Fault α
  | .object members =>
    match f members with
    | .ok a => .ok a
    | .error e => .error e.2
  | _ => .error .shape

end Fields

namespace Json

variable {α : Type}

def asList (read : Json → Except Fault α) : Json → Except Fault (List α)
  | array items => items.mapM read
  | _ => .error .shape

def asOption (read : Json → Except Fault α) : Json → Except Fault (Option α)
  | null => .ok none
  | value => (read value).map some

def asBool : Json → Except Fault Bool
  | bool b => .ok b
  | _ => .error .shape

/-- A count: an integer that is not negative. -/
def asCount : Json → Except Fault Nat
  | integer n => if 0 ≤ n then .ok n.toNat else .error .shape
  | _ => .error .shape

def asString : Json → Except Fault String
  | string s => .ok s
  | _ => .error .shape

/-- A choice: its name, and its content if it has any. A choice without content is written as its
name alone or with null as its content; one with content is an object with a single member. -/
def asChoice : Json → Except Fault (String × Option Json)
  | string name => .ok (name, none)
  | object [(name, null)] => .ok (name, none)
  | object [(name, content)] => .ok (name, some content)
  | _ => .error .shape

/-- A choice among values without content, each with its name. -/
def asName (all : List α) (name : α → String) (value : Json) : Except Fault α := do
  match ← asChoice value with
  | (found, none) =>
    match all.find? fun a => name a = found with
    | some a => .ok a
    | none => .error .shape
  | (_, some _) => .error .shape

def ofOption (write : α → Json) : Option α → Json
  | some a => write a
  | none => null

def ofList (write : α → Json) (items : List α) : Json :=
  array (items.map write)

end Json

end Downhill
