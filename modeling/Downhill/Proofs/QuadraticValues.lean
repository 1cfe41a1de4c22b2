import Downhill.Proofs.AcceptedSteps
import Downhill.Problem.Quadratic

/-!
# Quadratic forms over the real numbers

`QuadraticForm.ofMatrix` is the form of a matrix and a linear term. If the matrix is symmetric, the
value away from a point is given exactly by the gradient at the point and the form of the matrix, so
the curvature along a line can be read off the matrix.
-/

namespace Downhill
open Matrix

variable {m n : ℕ}

lemma Rows.mulVec_ofMatrix (a : Matrix (Fin m) (Fin n) ℝ) (v : Fin n → ℝ) :
    (Rows.ofMatrix a).mulVec (List.ofFn v) = List.ofFn (a *ᵥ v) := by
  rw [Rows.mulVec, Rows.ofMatrix, List.map_ofFn]
  congr 1
  funext i
  exact dot_ofFn (a i) v

namespace QuadraticForm

/-- The form of a matrix and a linear term. -/
def ofMatrix (A : Matrix (Fin n) (Fin n) ℝ) (b : Fin n → ℝ) : QuadraticForm ℝ where
  matrix := Rows.ofMatrix A
  linear := List.ofFn b
  square := by simp [Rows.ofMatrix]
  linear_length := by simp

variable (A : Matrix (Fin n) (Fin n) ℝ) (b w p : Fin n → ℝ)

lemma dim_ofMatrix : (ofMatrix A b).objective.dim = n :=
  List.length_ofFn

lemma value_ofMatrix : (ofMatrix A b).objective.value (List.ofFn w) =
    1 / 2 * (w ⬝ᵥ A *ᵥ w) - b ⬝ᵥ w := by
  have hhalf : (0.5 : ℝ) = 1 / 2 := by norm_num
  have hvalue : (ofMatrix A b).objective.value (List.ofFn w) =
      (0.5 : ℝ) * dot (List.ofFn w) ((Rows.ofMatrix A).mulVec (List.ofFn w)) -
        dot (List.ofFn b) (List.ofFn w) := rfl
  rw [hvalue, Rows.mulVec_ofMatrix, dot_ofFn, dot_ofFn, hhalf]

lemma gradient_ofMatrix : (ofMatrix A b).objective.gradient (List.ofFn w) =
    List.ofFn (A *ᵥ w - b) := by
  have hgradient : (ofMatrix A b).objective.gradient (List.ofFn w) =
      sub ((Rows.ofMatrix A).mulVec (List.ofFn w)) (List.ofFn b) := rfl
  rw [hgradient, Rows.mulVec_ofMatrix]
  exact zipWith_ofFn _ _ _

variable {A b w p}

lemma value_add (hA : A.IsSymm) : (ofMatrix A b).objective.value (List.ofFn (w + p)) =
    (ofMatrix A b).objective.value (List.ofFn w) + (A *ᵥ w - b) ⬝ᵥ p +
      1 / 2 * (p ⬝ᵥ A *ᵥ p) := by
  rw [value_ofMatrix, value_ofMatrix, mulVec_add, add_dotProduct, dotProduct_add, dotProduct_add,
    dotProduct_add, sub_dotProduct, ← dotProduct_mulVec_comm hA w p, dotProduct_comm p (A *ᵥ w)]
  ring

/-- The value above a solution of `A w = b` is half the form of the distance. -/
lemma value_eq_of_solution (hA : A.IsSymm) {z : Fin n → ℝ} (hz : A *ᵥ z = b) :
    (ofMatrix A b).objective.value (List.ofFn w) =
      (ofMatrix A b).objective.value (List.ofFn z) + 1 / 2 * ((w - z) ⬝ᵥ A *ᵥ (w - z)) := by
  have hadd := value_add (b := b) (w := z) (p := w - z) hA
  rw [add_sub_cancel, hz, sub_self, zero_dotProduct, add_zero] at hadd
  exact hadd

lemma bendsAtMost (hA : A.IsSymm) {L : ℝ} (h : p ⬝ᵥ A *ᵥ p ≤ -L * ((A *ᵥ w - b) ⬝ᵥ p)) :
    (SearchLine.ofGradient (List.ofFn w) (List.ofFn p)
      ((ofMatrix A b).objective.value (List.ofFn w)) (List.ofFn (A *ᵥ w - b))).BendsAtMost
      (ofMatrix A b).objective L := by
  refine ⟨fun a _ _ => ?_⟩
  have hform : (a • p) ⬝ᵥ A *ᵥ (a • p) = a ^ 2 * (p ⬝ᵥ A *ᵥ p) := by
    rw [mulVec_smul, smul_dotProduct, dotProduct_smul, smul_eq_mul, smul_eq_mul]
    ring
  have hbend : a ^ 2 * (p ⬝ᵥ A *ᵥ p) ≤ a ^ 2 * (-L * ((A *ᵥ w - b) ⬝ᵥ p)) :=
    mul_le_mul_of_nonneg_left h (sq_nonneg a)
  simp only [SearchLine.ofGradient, SearchLine.point, along_ofFn, dot_ofFn]
  rw [value_add hA, dotProduct_smul, smul_eq_mul, hform]
  linarith

end QuadraticForm

/-- The matrix of `x² + x y + y²`. -/
noncomputable def ovalMatrix : Matrix (Fin 2) (Fin 2) ℝ :=
  1 + vecMulVec 1 1

lemma ovalMatrix_isSymm : ovalMatrix.IsSymm :=
  isSymm_one.add (transpose_vecMulVec 1 1)

lemma ovalMatrix_form (v : Fin 2 → ℝ) : v ⬝ᵥ ovalMatrix *ᵥ v = v ⬝ᵥ v + (1 ⬝ᵥ v) ^ 2 := by
  rw [ovalMatrix, add_mulVec, one_mulVec, dotProduct_add, vecMulVec_mulVec, op_smul_eq_smul,
    dotProduct_smul, smul_eq_mul, dotProduct_comm v 1, sq]

lemma ovalMatrix_lower (v : Fin 2 → ℝ) : 1 * (v ⬝ᵥ v) ≤ v ⬝ᵥ ovalMatrix *ᵥ v := by
  rw [ovalMatrix_form, one_mul]
  exact le_add_of_nonneg_right (sq_nonneg _)

end Downhill
