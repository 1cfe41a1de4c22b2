import Downhill.Proofs.RealVectors

/-!
# The order of numbers

What lies below a number lies below every number that is not smaller. This is a law of the real
numbers, and of both precisions with their infinities, two zeros and numbers that are no numbers: a
number that can be compared at all has a place in a linear order, and the comparisons are those of
the places.
-/

namespace Downhill
open Float.Model Float.Model.UnpackedFloat

class OrderedArithmetic (F : Type) [Arithmetic F] : Prop where
  lt_of_lt_of_le : ∀ {x y z : F}, x < y → y ≤ z → x < z

instance : OrderedArithmetic ℝ where
  lt_of_lt_of_le hxy hyz := hxy.trans_le hyz

/-- The place of a number: its sign and kind first, then the exponent, then the mantissa. -/
def numberPlace : UnpackedFloat → Option (ℤ ×ₗ ℤ ×ₗ ℤ)
  | .notANumber => none
  | .infinity .negative => some (toLex (-2, toLex (0, 0)))
  | .finite .negative m e _ => some (toLex (-1, toLex (-e, -(m : ℤ))))
  | .zero _ => some (toLex (0, toLex (0, 0)))
  | .finite .positive m e _ => some (toLex (1, toLex (e, (m : ℤ))))
  | .infinity .positive => some (toLex (2, toLex (0, 0)))

lemma compare_natCast (m m' : ℕ) : compare (m : ℤ) m' = compare m m' := by
  rw [← cmp_eq_compare, ← cmp_eq_compare]
  exact Nat.strictMono_cast.cmp_map_eq m m'

lemma compare_neg (x y : ℤ) : compare (-x) (-y) = (compare x y).swap := by
  have hanti : StrictAnti fun z : ℤ => -z := fun _ _ h => neg_lt_neg h
  rw [← cmp_eq_compare, ← cmp_eq_compare, cmp_swap]
  exact hanti.cmp_map_eq x y

lemma compare_eq_numberPlace (a b : UnpackedFloat) :
    a.compare b = Option.map₂ compare (numberPlace a) (numberPlace b) := by
  -- Only two finite numbers of one sign need more than their kinds.
  rcases a with ⟨_ | _⟩ | _ | _ | ⟨_ | _, m, e, _⟩ <;>
    rcases b with ⟨_ | _⟩ | _ | _ | ⟨_ | _, m', e', _⟩ <;> try rfl
  · have h : ((compare e e').then (compare m m')).swap =
        (compare (-e) (-e')).then (compare (-(m : ℤ)) (-(m' : ℤ))) := by
      rw [Ordering.swap_then, compare_neg, compare_neg, compare_natCast]
    exact congrArg some h
  · have h : (compare e e').then (compare m m') =
        (compare e e').then (compare (m : ℤ) (m' : ℤ)) := by
      rw [compare_natCast]
    exact congrArg some h

lemma lt_iff_numberPlace (a b : UnpackedFloat) :
    a.lt b = true ↔ ∃ x ∈ numberPlace a, ∃ y ∈ numberPlace b, x < y := by
  rw [UnpackedFloat.lt, compare_eq_numberPlace]
  cases numberPlace a <;> cases numberPlace b <;> simp [compare_lt_iff_lt]

lemma le_iff_numberPlace (a b : UnpackedFloat) :
    a.le b = true ↔ ∃ x ∈ numberPlace a, ∃ y ∈ numberPlace b, x ≤ y := by
  rw [UnpackedFloat.le, compare_eq_numberPlace]
  cases numberPlace a <;> cases numberPlace b <;> simp [Ordering.isLE_iff_ne_gt, compare_le_iff_le]

lemma unpacked_lt_of_lt_of_le {a b c : UnpackedFloat} (hab : a.lt b = true)
    (hbc : b.le c = true) : a.lt c = true := by
  obtain ⟨x, hx, y, hy, hxy⟩ := (lt_iff_numberPlace a b).mp hab
  obtain ⟨y', hy', z, hz, hyz⟩ := (le_iff_numberPlace b c).mp hbc
  obtain rfl := Option.mem_unique hy hy'
  exact (lt_iff_numberPlace a c).mpr ⟨x, hx, z, hz, hxy.trans_le hyz⟩

lemma double_lt_iff (x y : Float) :
    x < y ↔ x.toModel.unpack.lt y.toModel.unpack = true :=
  decide_eq_true_iff

lemma double_le_iff (x y : Float) :
    x ≤ y ↔ x.toModel.unpack.le y.toModel.unpack = true :=
  decide_eq_true_iff

lemma single_lt_iff (x y : Float32) :
    x < y ↔ x.toModel.unpack.lt y.toModel.unpack = true :=
  decide_eq_true_iff

lemma single_le_iff (x y : Float32) :
    x ≤ y ↔ x.toModel.unpack.le y.toModel.unpack = true :=
  decide_eq_true_iff

instance : OrderedArithmetic Float where
  lt_of_lt_of_le {x y z} hxy hyz := by
    rw [double_lt_iff] at *
    exact unpacked_lt_of_lt_of_le hxy ((double_le_iff y z).mp hyz)

instance : OrderedArithmetic Float32 where
  lt_of_lt_of_le {x y z} hxy hyz := by
    rw [single_lt_iff] at *
    exact unpacked_lt_of_lt_of_le hxy ((single_le_iff y z).mp hyz)

end Downhill
