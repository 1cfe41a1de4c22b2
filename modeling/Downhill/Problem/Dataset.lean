import Downhill.Json.Reader
import Downhill.Problem.Error
import Downhill.Stored.Number

/-!
# Datasets

Labelled points in the plane. A dataset can be used once it has points and all labels are zero or
one. Its JSON text is an object whose member `points` is an array of objects with the members `x1`,
`x2` and `y`; each of these objects may also be written as the array of its members' values.
-/

namespace Downhill

open Stored Fields

structure DataPoint (F : Type) where
  x1 : F
  x2 : F
  y : UInt8

/-- Labelled points in the order in which they are given. -/
structure Dataset (F : Type) where
  points : List (DataPoint F)

namespace Dataset

variable {F : Type}

/-- The first label that is neither zero nor one, with its place. -/
def badLabel? (points : List (DataPoint F)) : Option (Nat × UInt8) :=
  match points.findIdx? (fun p => 1 < p.y) with
  | some i => points[i]?.map fun p => (i, p.y)
  | none => none

def validate (d : Dataset F) : Except ProblemError (Dataset F) :=
  if d.points.isEmpty then .error .emptyDataset
  else
    match badLabel? d.points with
    | some (i, label) => .error (.invalidLabel i label)
    | none => .ok d

def ofPoints (points : List (DataPoint F)) : Except ProblemError (Dataset F) :=
  validate ⟨points⟩

end Dataset

/-- A label as it is stored, any number of eight bits. -/
def asLabel (value : Json) : Except Fault UInt8 := do
  let n ← value.asCount
  if n < 256 then return n.toUInt8 else throw .shape

variable {F : Type} [Binary F]

namespace DataPoint

def toJson (p : DataPoint F) : Json :=
  .object [("x1", ofPlain p.x1), ("x2", ofPlain p.x2), ("y", ofCount p.y.toNat)]

def ofJson : Json → Except Fault (DataPoint F)
  | .array [x1, x2, y] => do return ⟨← asPlain x1, ← asPlain x2, ← asLabel y⟩
  | value => (mk <$> member "x1" asPlain <*> member "x2" asPlain <*> member "y" asLabel).read value

end DataPoint

namespace Dataset

def toJson (d : Dataset F) : Json :=
  .object [("points", .ofList DataPoint.toJson d.points)]

def ofJson : Json → Except Fault (Dataset F)
  | .array [points] => do return ⟨← points.asList DataPoint.ofJson⟩
  | value => (mk <$> member "points" (Json.asList DataPoint.ofJson)).read value

/-- Reads a dataset that can be used from a JSON text. -/
def ofText (text : String) : Except ProblemError (Dataset F) :=
  match Json.read? text with
  | none => .error .malformed
  | some value =>
    match ofJson value with
    | .ok d => d.validate
    | .error _ => .error .malformed

/-- Reads a dataset from the content of a file, if there is one. -/
def ofContent : Option String → Except ProblemError (Dataset F)
  | some text => ofText text
  | none => .error .inaccessible

end Dataset

end Downhill
