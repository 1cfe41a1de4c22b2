import Downhill.Arithmetic

/-!
# Room in memory

A list may be set aside in full before its first item is known. It is then one object in memory, and
no object is as large as half of the address space. That a machine has less memory than this is not
modelled.
-/

namespace Downhill

/-- Whether a list of `count` items of `bytes` bytes each is small enough to be an object. -/
def canReserve (count : Nat) (bytes : Option Nat) : Bool :=
  bytes.all fun b => count * b < UInt64.size / 2

end Downhill
