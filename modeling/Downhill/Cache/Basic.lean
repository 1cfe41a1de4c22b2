import Downhill.Cache.Key
import Downhill.Run
import Std.Data.HashMap

/-!
# A cache of runs

A run depends on nothing but the objective, the method and the options, so its trace can be kept and
used again. The cache holds a bounded number of traces, and a new one takes the place of the one that
has not been used for the longest time. Objectives cannot be compared, so the caller names the
problem and always gives the same objective for a name. A cache of capacity zero holds nothing.
-/

namespace Downhill

structure TraceCache (F : Type) where
  capacity : Nat
  entries : Std.HashMap TraceKey (Trace F)
  /-- The keys of the entries, the one that was used last at the end. -/
  order : List TraceKey

namespace TraceCache

variable {F : Type}

def empty (capacity : Nat) : TraceCache F :=
  ⟨capacity, ∅, []⟩

def size (c : TraceCache F) : Nat :=
  c.entries.size

def isEmpty (c : TraceCache F) : Bool :=
  c.entries.isEmpty

def clear (c : TraceCache F) : TraceCache F :=
  { c with entries := ∅, order := [] }

def touched (order : List TraceKey) (key : TraceKey) : List TraceKey :=
  if key ∈ order then order.erase key ++ [key] else order

/-- Looks a trace up, and marks it as used if it is there. -/
def get (c : TraceCache F) (key : TraceKey) : Option (Trace F) × TraceCache F :=
  match c.entries[key]? with
  | some trace => (some trace, { c with order := touched c.order key })
  | none => (none, c)

/-- Makes room for one more entry in a full cache. -/
def evict (c : TraceCache F) : TraceCache F :=
  if c.entries.size = c.capacity then
    match c.order with
    | oldest :: order => { c with entries := c.entries.erase oldest, order := order }
    | [] => c
  else c

def insert (c : TraceCache F) (key : TraceKey) (trace : Trace F) : TraceCache F :=
  if c.capacity = 0 then c
  else if key ∈ c.entries then
    { c with entries := c.entries.insert key trace, order := touched c.order key }
  else
    let roomy := c.evict
    { roomy with entries := roomy.entries.insert key trace, order := roomy.order ++ [key] }

variable [Binary F]

/-- The trace of a run that was asked for. -/
structure Answer (F : Type) where
  trace : Trace F
  /-- Whether the method had to run for it. -/
  ran : Bool

/-- Answers with the trace that is kept for a run, or else runs the method and keeps the trace. A
failure is not kept. -/
def getOrRun (c : TraceCache F) (problem : String) (algorithm : Algorithm) (obj : Objective F)
    (options : Options F) : Except Failure (Answer F) × TraceCache F :=
  let key := TraceKey.ofOptions problem algorithm options
  match c.get key with
  | (some trace, c) => (.ok ⟨trace, false⟩, c)
  | (none, c) =>
    match run algorithm obj options with
    | .ok trace => (.ok ⟨trace, true⟩, c.insert key trace)
    | .error e => (.error e, c)

end TraceCache

end Downhill
