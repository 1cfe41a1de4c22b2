import Downhill.Capacity
import Downhill.Trace

/-!
# Limited memory

A memory for a fixed number of curvature pairs. Its slots are filled one after the other; once they
are full, a new pair takes the slot of the oldest one. Room for as many slots as a run may fill is
set aside before it. `CurvatureMemory.toList` is the view that the
methods work with: the pairs from the oldest to the newest. `toList_push` says that a new pair goes
to the end of it and that the oldest pairs go where there is no room.
-/

namespace Downhill

/-- A ring of curvature pairs. -/
structure CurvatureMemory (F : Type) where
  capacity : Nat
  slots : Array (CurvaturePair F)
  head : Nat
  size_le : slots.size ≤ capacity
  /-- The ring only turns once it is full. -/
  head_valid : head = 0 ∨ head < capacity ∧ slots.size = capacity

namespace CurvatureMemory

variable {F : Type}

def empty (capacity : Nat) : CurvatureMemory F where
  capacity := capacity
  slots := #[]
  head := 0
  size_le := Nat.zero_le capacity
  head_valid := .inl rfl

def toList (m : CurvatureMemory F) : List (CurvaturePair F) :=
  m.slots.toList.drop m.head ++ m.slots.toList.take m.head

/-- The memory with one more pair, where there is room. -/
def append (m : CurvatureMemory F) (pair : CurvaturePair F) (room : m.slots.size < m.capacity) :
    CurvatureMemory F where
  capacity := m.capacity
  slots := m.slots.push pair
  head := m.head
  size_le := by simpa using Nat.succ_le_of_lt room
  head_valid := by have := m.head_valid; omega

/-- The memory with a pair in the place of the oldest one, where there is no room. -/
def replace (m : CurvatureMemory F) (pair : CurvaturePair F) (full : ¬ m.slots.size < m.capacity) :
    CurvatureMemory F where
  capacity := m.capacity
  slots := m.slots.setIfInBounds m.head pair
  head := if m.head + 1 < m.capacity then m.head + 1 else 0
  size_le := by simpa using m.size_le
  head_valid := by have := m.size_le; simp only [Array.size_setIfInBounds]; split <;> omega

/-- Adds a pair and says whether the oldest one had to go. -/
def push (m : CurvatureMemory F) (pair : CurvaturePair F) : MemoryUpdate × CurvatureMemory F :=
  if h : m.slots.size < m.capacity then (.stored, m.append pair h)
  else (.storedEvictingOldest, m.replace pair h)

@[simp]
theorem toList_empty (capacity : Nat) : (empty capacity : CurvatureMemory F).toList = [] := by
  simp [empty, toList]

@[simp]
theorem length_toList (m : CurvatureMemory F) : m.toList.length = m.slots.size := by
  have := m.size_le
  have := m.head_valid
  simp only [toList, List.length_append, List.length_drop, List.length_take, Array.length_toList]
  omega

theorem toList_append (m : CurvatureMemory F) (pair : CurvaturePair F)
    (room : m.slots.size < m.capacity) : (m.append pair room).toList = m.toList ++ [pair] := by
  have h : m.head = 0 := by have := m.head_valid; omega
  simp [append, toList, h]

/-- In a full ring the pair at the head goes and the new one stands behind all others. -/
theorem toList_replace (m : CurvatureMemory F) (pair : CurvaturePair F)
    (full : ¬ m.slots.size < m.capacity) (h : 0 < m.capacity) :
    (m.replace pair full).toList = m.toList.tail ++ [pair] := by
  have hsize := m.size_le
  have hhead : m.head < m.slots.toList.length := by
    have := m.head_valid
    simp only [Array.length_toList]
    omega
  have hlength : (m.slots.toList.take m.head).length = m.head :=
    List.length_take_of_le (Nat.le_of_lt hhead)
  have hset : (m.slots.setIfInBounds m.head pair).toList =
      m.slots.toList.take m.head ++ pair :: m.slots.toList.drop (m.head + 1) := by
    rw [Array.toList_setIfInBounds, List.set_eq_take_append_cons_drop, if_pos hhead]
  simp only [replace, toList]
  rw [hset, List.drop_eq_getElem_cons hhead, List.cons_append, List.tail_cons]
  split
  · rw [List.drop_append, List.take_append, hlength,
      List.drop_of_length_le (by omega), List.take_of_length_le (by omega)]
    simp
  · have hlast : m.slots.toList.length ≤ m.head + 1 := by
      simp only [Array.length_toList]
      omega
    simp [List.drop_of_length_le hlast]

theorem capacity_push (m : CurvatureMemory F) (pair : CurvaturePair F) :
    (m.push pair).2.capacity = m.capacity := by
  unfold push
  split <;> rfl

/-- A new pair goes to the end, and where there is no room for it the oldest one goes. -/
theorem toList_push (m : CurvatureMemory F) (pair : CurvaturePair F) :
    (m.push pair).2.toList =
      (m.toList ++ [pair]).drop (m.toList.length + 1 - m.capacity) := by
  have hsize := m.size_le
  unfold push
  split
  · rename_i room
    simp [toList_append, Nat.sub_eq_zero_of_le room]
  · rename_i full
    have heq : m.toList.length = m.capacity := by rw [length_toList]; omega
    rcases Nat.eq_zero_or_pos m.capacity with h | h
    · have hnil : (m.replace pair full).toList = [] := by
        apply List.eq_nil_of_length_eq_zero
        rw [length_toList]
        simp only [replace, Array.size_setIfInBounds]
        omega
      simp [hnil, List.eq_nil_of_length_eq_zero (heq.trans h), h]
    · rw [toList_replace m pair full h, heq, Nat.add_sub_cancel_left,
        List.drop_append_of_le_length (by omega), List.drop_one]

/-- The oldest pair goes exactly when there is no room. -/
theorem push_fst (m : CurvatureMemory F) (pair : CurvaturePair F) :
    (m.push pair).1 =
      if m.toList.length < m.capacity then .stored else .storedEvictingOldest := by
  rw [length_toList]
  unfold push
  split <;> simp_all

variable [Arithmetic F]

/-- Whether a step with the change `y` of the gradient shows positive curvature, clearly enough to
be more than rounding. -/
def hasCurvature (s y : List F) : Bool :=
  Arithmetic.epsilon * norm s * norm y < dot s y

/-- The bytes of a pair: two lists of 24 bytes each, whose items lie elsewhere, and a number in the
room of eight bytes. -/
def pairBytes (F : Type) [Arithmetic F] : Option Nat :=
  (Arithmetic.width F).map fun _ => 56

/-- Whether room can be set aside for the pairs that a memory of `capacity` slots may hold after
`steps` steps. -/
def hasRoom (F : Type) [Arithmetic F] (capacity steps : Nat) : Bool :=
  canReserve (min capacity steps) (pairBytes F)

/-- Takes in the pair of a step, unless the step shows no positive curvature. -/
def learn (m : CurvatureMemory F) (s y : List F) : MemoryUpdate × CurvatureMemory F :=
  if hasCurvature s y then m.push ⟨s, y, 1 / dot s y⟩ else (.skippedCurvature, m)

end CurvatureMemory

end Downhill
