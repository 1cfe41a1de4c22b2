import Mathlib.LinearAlgebra.Matrix.PosDef
import Downhill.Matrix.Basic
import Downhill.Proofs.RealVectors

/-!
# Matrices over the real numbers

`Rows.ofMatrix` writes a matrix down row by row. The operations on rows become those on matrices,
and the sums over lists that the solvers take become dot products.
-/

namespace Downhill
open Matrix

variable {m n : ℕ}

/-- The rows of a matrix. -/
def Rows.ofMatrix (a : Matrix (Fin m) (Fin n) ℝ) : Rows ℝ :=
  List.ofFn fun i => List.ofFn (a i)

namespace Rows

@[simp] lemma length_ofMatrix (a : Matrix (Fin m) (Fin n) ℝ) : (ofMatrix a).length = m :=
  List.length_ofFn

lemma ofMatrix_injective : Function.Injective (ofMatrix : Matrix (Fin m) (Fin n) ℝ → Rows ℝ) := by
  intro a b h
  funext i
  exact List.ofFn_injective (congrFun (List.ofFn_injective h) i)

lemma isFinite_ofMatrix (a : Matrix (Fin m) (Fin n) ℝ) : (ofMatrix a).isFinite = true := by
  simp only [isFinite, List.all_eq_true]
  intros
  rfl

lemma mapIdx_ofMatrix {α : Type} (f : ℕ → List ℝ → α) (a : Matrix (Fin m) (Fin n) ℝ) :
    (ofMatrix a).mapIdx f = List.ofFn fun i => f i (List.ofFn (a i)) := by
  apply List.ext_getElem
  · simp
  · intro i h₁ h₂
    simp [ofMatrix]

lemma addDiagonal_ofMatrix (a : Matrix (Fin n) (Fin n) ℝ) (shift : ℝ) :
    (ofMatrix a).addDiagonal shift = ofMatrix (a + shift • 1) := by
  rw [addDiagonal, mapIdx_ofMatrix]
  unfold ofMatrix
  congr 1
  funext i
  apply List.ext_getElem
  · simp
  · intro j h₁ h₂
    by_cases hij : i.val = j
    · subst hij
      simp
    · have hne : i ≠ ⟨j, by simpa using h₂⟩ := fun h => hij (congrArg Fin.val h)
      simp [hij, hne]

lemma diagonal_ofMatrix (a : Matrix (Fin n) (Fin n) ℝ) :
    (ofMatrix a).diagonal = List.ofFn fun i => a i i := by
  rw [diagonal, mapIdx_ofMatrix]
  simp

end Rows

section Forms

variable {A : Matrix (Fin n) (Fin n) ℝ}

lemma dotProduct_mulVec_comm (hA : A.IsSymm) (x z : Fin n → ℝ) :
    A *ᵥ x ⬝ᵥ z = x ⬝ᵥ A *ᵥ z := by
  rw [dotProduct_mulVec, ← mulVec_transpose, hA.eq]

/-- The slope along the solution of a system for the negative of `g`. -/
lemma slope_eq_neg_form {g p : Fin n → ℝ} (hp : A *ᵥ p = -g) : g ⬝ᵥ p = -(p ⬝ᵥ A *ᵥ p) := by
  rw [hp, dotProduct_neg, neg_neg, dotProduct_comm]

lemma posDef_iff_form_pos (hA : A.IsSymm) :
    A.PosDef ↔ ∀ v : Fin n → ℝ, v ≠ 0 → 0 < v ⬝ᵥ A *ᵥ v := by
  simp only [posDef_iff_dotProduct_mulVec, isHermitian_iff_isSymm, hA, true_and, star_trivial]

lemma posDef_of_lower (hA : A.IsSymm) {mu : ℝ} (hmu : 0 < mu)
    (hbelow : ∀ v : Fin n → ℝ, mu * (v ⬝ᵥ v) ≤ v ⬝ᵥ A *ᵥ v) : A.PosDef :=
  (posDef_iff_form_pos hA).mpr fun v hv =>
    (mul_pos hmu (dotProduct_self_pos hv)).trans_le (hbelow v)

lemma dotProduct_mulVec_pos_of_posDef (hA : A.PosDef) {v : Fin n → ℝ} (hv : v ≠ 0) :
    0 < v ⬝ᵥ A *ᵥ v := by
  simpa using hA.dotProduct_mulVec_pos hv

lemma mulVec_inv_of_posDef (hA : A.PosDef) (b : Fin n → ℝ) : A *ᵥ (A⁻¹ *ᵥ b) = b := by
  have hdet : IsUnit A.det := (isUnit_iff_isUnit_det A).mp hA.isUnit
  rw [mulVec_mulVec, mul_nonsing_inv A hdet, one_mulVec]

end Forms

lemma isNaN_eq_false (x : ℝ) : Arithmetic.isNaN x = false := by
  simp [Arithmetic.isNaN]

lemma maxNum_eq_max (x y : ℝ) : Arithmetic.maxNum x y = max x y := by
  simp only [Arithmetic.maxNum, isNaN_eq_false, Bool.false_eq_true, if_false]
  split_ifs with h
  · exact (max_eq_right h.le).symm
  · exact (max_eq_left (not_lt.mp h)).symm

lemma minNum_eq_min (x y : ℝ) : Arithmetic.minNum x y = min x y := by
  simp only [Arithmetic.minNum, isNaN_eq_false, Bool.false_eq_true, if_false]
  split_ifs with h
  · exact (min_eq_right h.le).symm
  · exact (min_eq_left (not_lt.mp h)).symm

lemma foldl_max_le_iff (values : List ℝ) (m c : ℝ) :
    values.foldl (fun m x => max m |x|) m ≤ c ↔ m ≤ c ∧ ∀ x ∈ values, |x| ≤ c := by
  induction values generalizing m with
  | nil => simp
  | cons x values ih => rw [List.foldl_cons, ih, max_le_iff, List.forall_mem_cons, and_assoc]

lemma foldl_add_products (pairs : List (ℝ × ℝ)) (a : ℝ) :
    pairs.foldl (fun s p => s + p.1 * p.2) a = a + (pairs.map fun p => p.1 * p.2).sum := by
  induction pairs generalizing a with
  | nil => simp
  | cons p pairs ih => rw [List.foldl_cons, ih, List.map_cons, List.sum_cons, add_assoc]

lemma foldl_sub_products (pairs : List (ℝ × ℝ)) (a : ℝ) :
    pairs.foldl (fun s p => s - p.1 * p.2) a = a - (pairs.map fun p => p.1 * p.2).sum := by
  induction pairs generalizing a with
  | nil => simp
  | cons p pairs ih => rw [List.foldl_cons, ih, List.map_cons, List.sum_cons, sub_sub]

lemma dot_cons (x y : ℝ) (u v : List ℝ) : dot (x :: u) (y :: v) = x * y + dot u v := by
  simp [dot, foldl_add_products]

lemma reduceBy_eq (b : ℝ) (coefficients values : List ℝ) :
    reduceBy b coefficients values = b - dot coefficients values := by
  rw [reduceBy, dot, foldl_sub_products, foldl_add_products, zero_add]

lemma reduceBy_ofFn (b : ℝ) (x y : Fin n → ℝ) :
    reduceBy b (List.ofFn x) (List.ofFn y) = b - x ⬝ᵥ y := by
  rw [reduceBy_eq, dot_ofFn]

/-- Rows and values of the same length, with a multiple of the second row taken out of the first. -/
lemma dot_zipWith_sub {u v x : List ℝ} (factor : ℝ) (hu : u.length = n) (hv : v.length = n)
    (hx : x.length = n) :
    dot (List.zipWith (fun s t => s - factor * t) u v) x = dot u x - factor * dot v x := by
  obtain ⟨u, rfl⟩ := exists_eq_ofFn hu
  obtain ⟨v, rfl⟩ := exists_eq_ofFn hv
  obtain ⟨x, rfl⟩ := exists_eq_ofFn hx
  have hrow : (fun i => u i - factor * v i) = u - factor • v := rfl
  rw [zipWith_ofFn, hrow, dot_ofFn, dot_ofFn, dot_ofFn, sub_dotProduct, smul_dotProduct,
    smul_eq_mul]

end Downhill
