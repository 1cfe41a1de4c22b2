import Downhill.Proofs.QuadraticValues
import Downhill.Proofs.TriangularFactors

/-!
# Minimizers of quadratic forms

A form whose curvature is at least `mu` in every direction has a matrix that makes every vector at
least `mu` times as long. Elimination gives up on a matrix only if some vector almost vanishes, and
its threshold looks at coordinates one by one, so `mu` has to make up for the square root of the
dimension. Beyond that the minimizer is always found, and the value grows away from it as fast as
the curvature says.
-/

namespace Downhill
open Matrix

variable {n : ℕ} {A : Matrix (Fin n) (Fin n) ℝ} {mu : ℝ}

lemma stretch_of_lower (hmu : 0 ≤ mu) (hlower : ∀ v, mu * (v ⬝ᵥ v) ≤ v ⬝ᵥ A *ᵥ v)
    (x : Fin n → ℝ) : mu ^ 2 * (x ⬝ᵥ x) ≤ A *ᵥ x ⬝ᵥ A *ᵥ x := by
  rcases eq_or_ne x 0 with rfl | hx
  · simp
  · have hlong : 0 < x ⬝ᵥ x := dotProduct_self_pos hx
    refine le_of_mul_le_mul_left ?_ hlong
    calc x ⬝ᵥ x * (mu ^ 2 * (x ⬝ᵥ x))
      _ = (mu * (x ⬝ᵥ x)) ^ 2 := by ring
      _ ≤ (x ⬝ᵥ A *ᵥ x) ^ 2 := pow_le_pow_left₀ (mul_nonneg hmu hlong.le) (hlower x) 2
      _ ≤ x ⬝ᵥ x * (A *ᵥ x ⬝ᵥ A *ᵥ x) := dotProduct_sq_le x (A *ᵥ x)

/-- Elimination gets through a matrix that stretches more than the threshold allows for. -/
lemma LU.hasFactors_of_lower (hmu : 0 ≤ mu) (hlower : ∀ v, mu * (v ⬝ᵥ v) ≤ v ⬝ᵥ A *ᵥ v)
    (hscale : √n * smallPivot A ≤ mu) : HasFactors A := by
  refine hasFactors_of_stretch (stretch_of_lower hmu hlower) ?_
  have hpivot : 0 < smallPivot A := threshold_ofMatrix A ▸ threshold_pos _
  calc n * threshold (Rows.ofMatrix A) ^ 2
    _ = (√n * smallPivot A) ^ 2 := by
      rw [threshold_ofMatrix, mul_pow, Real.sq_sqrt (Nat.cast_nonneg n)]
    _ ≤ mu ^ 2 := pow_le_pow_left₀ (by positivity) hscale 2

/-- The minimizer that is computed for a form is `w`: the gradient vanishes there, and away from it
the value grows at least as fast as under the curvature `mu`. -/
structure QuadraticForm.IsMinimizedAt (form : QuadraticForm ℝ) (w : Fin n → ℝ) (mu : ℝ) : Prop where
  found : form.minimizer = some (List.ofFn w)
  stationary : form.objective.gradient (List.ofFn w) = List.ofFn (0 : Fin n → ℝ)
  growth : ∀ v : Fin n → ℝ, form.objective.value (List.ofFn w) + mu / 2 * ((v - w) ⬝ᵥ (v - w)) ≤
    form.objective.value (List.ofFn v)

/-- A symmetric form with enough curvature has its minimizer where elimination finds it. -/
theorem quadratic_minimizer_is_found (A : Matrix (Fin n) (Fin n) ℝ) (hA : A.IsSymm) (mu : ℝ)
    (hmu : 0 < mu) (hlower : ∀ v, mu * (v ⬝ᵥ v) ≤ v ⬝ᵥ A *ᵥ v)
    (hscale : 1e-12 * √n * max 1 (⨆ i, ⨆ j, |A i j|) ≤ mu) (b : Fin n → ℝ) :
    ∃ w : Fin n → ℝ, (QuadraticForm.ofMatrix A b).IsMinimizedAt w mu := by
  have hpivot : √n * LU.smallPivot A = 1e-12 * √n * max 1 (⨆ i, ⨆ j, |A i j|) := by
    rw [LU.smallPivot]
    ring
  have hfactors : LU.HasFactors A := LU.hasFactors_of_lower hmu.le hlower (hpivot.trans_le hscale)
  obtain ⟨x, hx⟩ := Option.ne_none_iff_exists'.mp
    fun h => (LU.solve_eq_none_iff (List.ofFn b)).mp h hfactors
  obtain ⟨-, w, rfl, hw⟩ := LU.solve_eq_some hx
  refine ⟨w, hx, ?_, fun v => ?_⟩
  · rw [QuadraticForm.gradient_ofMatrix, hw, sub_self]
  · have hgrowth := hlower (v - w)
    rw [QuadraticForm.value_eq_of_solution (w := v) hA hw]
    linarith

/-- A form that is almost flat, with a curvature little above the threshold. -/
noncomputable def shallowMatrix : Matrix (Fin 2) (Fin 2) ℝ :=
  (2e-12 : ℝ) • ovalMatrix

lemma shallowMatrix_lower (v : Fin 2 → ℝ) : 2e-12 * (v ⬝ᵥ v) ≤ v ⬝ᵥ shallowMatrix *ᵥ v := by
  have hcurvature : (0 : ℝ) ≤ 2e-12 := by norm_num
  rw [shallowMatrix, smul_mulVec, dotProduct_smul, smul_eq_mul]
  exact mul_le_mul_of_nonneg_left (one_mul (v ⬝ᵥ v) ▸ ovalMatrix_lower v) hcurvature

lemma shallowMatrix_scale :
    1e-12 * √(2 : ℕ) * max 1 (⨆ i, ⨆ j, |shallowMatrix i j|) ≤ 2e-12 := by
  have hentries : ∀ i j, |shallowMatrix i j| ≤ 1 := by
    intro i j
    fin_cases i <;> fin_cases j <;> norm_num [shallowMatrix, ovalMatrix, vecMulVec]
  have hscale : max 1 (⨆ i, ⨆ j, |shallowMatrix i j|) = 1 :=
    max_eq_left (Real.iSup_le (fun i => Real.iSup_le (hentries i) zero_le_one) zero_le_one)
  have hroot : √(2 : ℕ) ≤ 2 := Real.sqrt_le_iff.mpr (by norm_num)
  rw [hscale, mul_one]
  calc 1e-12 * √(2 : ℕ)
    _ ≤ 1e-12 * (2 : ℝ) := by gcongr
    _ = 2e-12 := by norm_num

theorem shallow_minimizer_is_found : shallowMatrix.IsSymm ∧ (0 : ℝ) < 2e-12 ∧
    (∀ v, 2e-12 * (v ⬝ᵥ v) ≤ v ⬝ᵥ shallowMatrix *ᵥ v) ∧
    1e-12 * √(2 : ℕ) * max 1 (⨆ i, ⨆ j, |shallowMatrix i j|) ≤ 2e-12 ∧
    ∃ w : Fin 2 → ℝ, (QuadraticForm.ofMatrix shallowMatrix ![1, 0]).IsMinimizedAt w 2e-12 := by
  have hsymm : shallowMatrix.IsSymm := ovalMatrix_isSymm.smul _
  have hcurvature : (0 : ℝ) < 2e-12 := by norm_num
  exact ⟨hsymm, hcurvature, shallowMatrix_lower, shallowMatrix_scale,
    quadratic_minimizer_is_found shallowMatrix hsymm 2e-12 hcurvature shallowMatrix_lower
      shallowMatrix_scale ![1, 0]⟩

end Downhill
