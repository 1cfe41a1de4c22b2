import Mathlib.Algebra.MvPolynomial.PDeriv
import Mathlib.Analysis.Calculus.FDeriv.Mul
import Mathlib.Analysis.RCLike.Lemmas
import Mathlib.RingTheory.Derivation.Lie
import Downhill.Problem.Analytic
import Downhill.Proofs.UphillDirections

/-!
# Exact derivatives

The analytic problems are polynomials of two variables, and a quadratic form is one of any number of
variables. A polynomial is differentiated term by term, and its partial derivatives are those of the
function it stands for. So it is enough to compare, problem by problem, the formulas that are
evaluated with a polynomial and its partial derivatives of the first and the second order.
-/

namespace Downhill
open Matrix MvPolynomial

variable {n : ℕ}

/-- The gradient is the derivative of the value and the Hessian is a symmetric matrix and the
derivative of the gradient, everywhere in `n` coordinates. -/
structure Objective.HasExactDerivatives (obj : Objective ℝ) (n : ℕ) : Prop
    extends obj.HasTrueGradient n where
  hessian : ∀ w : Fin n → ℝ, ∃ H : Matrix (Fin n) (Fin n) ℝ,
    obj.hessian (List.ofFn w) = some (Rows.ofMatrix H) ∧ H.IsSymm ∧
      HasFDerivAt (fun x : Fin n → ℝ => coords n (obj.gradient (List.ofFn x)))
        (mulVecLin H).toContinuousLinearMap w

section Polynomials

lemma dotWith_single (i : Fin n) :
    dotWith (Pi.single i 1) = (ContinuousLinearMap.proj i : (Fin n → ℝ) →L[ℝ] ℝ) :=
  ContinuousLinearMap.ext fun v => single_one_dotProduct i v

/-- The gradient of a polynomial at a point. -/
noncomputable def gradientAt (P : MvPolynomial (Fin n) ℝ) (w : Fin n → ℝ) : Fin n → ℝ :=
  fun i => eval w (pderiv i P)

lemma gradientAt_mul_X (P : MvPolynomial (Fin n) ℝ) (i : Fin n) (w : Fin n → ℝ) :
    gradientAt (P * X i) w = eval w P • Pi.single i 1 + w i • gradientAt P w := by
  funext j
  rw [gradientAt, pderiv_mul, map_add, map_mul, map_mul, eval_X, add_comm, Pi.add_apply,
    Pi.smul_apply, Pi.smul_apply, smul_eq_mul, smul_eq_mul, mul_comm (w i), gradientAt]
  rcases eq_or_ne j i with rfl | hne
  · rw [pderiv_X_self, map_one, Pi.single_eq_same]
  · rw [pderiv_X_of_ne hne.symm, map_zero, Pi.single_eq_of_ne hne]

lemma hasFDerivAt_eval (P : MvPolynomial (Fin n) ℝ) (w : Fin n → ℝ) :
    HasFDerivAt (fun x => eval x P) (dotWith (gradientAt P w)) w := by
  induction P using MvPolynomial.induction_on with
  | C a =>
    have hzero : gradientAt (C a) w = 0 :=
      funext fun i => by rw [gradientAt, pderiv_C, map_zero, Pi.zero_apply]
    simp only [eval_C, hzero, map_zero]
    exact hasFDerivAt_const a w
  | add P Q hP hQ =>
    have hsum : gradientAt (P + Q) w = gradientAt P w + gradientAt Q w :=
      funext fun i => by simp only [gradientAt, map_add, Pi.add_apply]
    simp only [hsum, map_add]
    exact hP.add hQ
  | mul_X P i hP =>
    simp only [gradientAt_mul_X, map_mul, map_add, map_smul, eval_X, dotWith_single]
    exact hP.mul (hasFDerivAt_apply i w)

lemma pderiv_ofNat (i : Fin n) (k : ℕ) [k.AtLeastTwo] :
    pderiv i (ofNat(k) : MvPolynomial (Fin n) ℝ) = 0 := by
  rw [← map_ofNat C, pderiv_C]

lemma pderiv_comm (P : MvPolynomial (Fin n) ℝ) (i j : Fin n) :
    pderiv i (pderiv j P) = pderiv j (pderiv i P) := by
  have hzero : ⁅pderiv (R := ℝ) i, pderiv (R := ℝ) j⁆ = 0 := by
    refine derivation_ext fun k => ?_
    have hconstant : ∀ l : Fin n, ∃ a, pderiv l (X k : MvPolynomial (Fin n) ℝ) = C a := by
      intro l
      rcases eq_or_ne k l with rfl | hne
      · exact ⟨1, by rw [pderiv_X_self, C_1]⟩
      · exact ⟨0, by rw [pderiv_X_of_ne hne, C_0]⟩
    obtain ⟨a, ha⟩ := hconstant i
    obtain ⟨b, hb⟩ := hconstant j
    rw [Derivation.commutator_apply, ha, hb, pderiv_C, pderiv_C, sub_zero, Derivation.zero_apply]
  have hP := DFunLike.congr_fun hzero P
  rwa [Derivation.commutator_apply, Derivation.zero_apply, sub_eq_zero] at hP

/-- An objective whose value, gradient and Hessian are those of a polynomial. -/
structure Objective.IsPolynomial (obj : Objective ℝ) (P : MvPolynomial (Fin n) ℝ) : Prop where
  dim_eq : obj.dim = n
  value : ∀ w : Fin n → ℝ, obj.value (List.ofFn w) = eval w P
  gradient : ∀ w : Fin n → ℝ, obj.gradient (List.ofFn w) = List.ofFn (gradientAt P w)
  hessian : ∀ w : Fin n → ℝ, obj.hessian (List.ofFn w) =
    some (Rows.ofMatrix fun i => gradientAt (pderiv i P) w)

variable {obj : Objective ℝ} {P : MvPolynomial (Fin n) ℝ}

lemma Objective.IsPolynomial.hasExactDerivatives (h : obj.IsPolynomial P) :
    obj.HasExactDerivatives n := by
  refine ⟨⟨h.dim_eq, fun w => ⟨_, h.gradient w, ?_⟩⟩, fun w => ⟨_, h.hessian w, ?_, ?_⟩⟩
  · simp only [h.value]
    exact hasFDerivAt_eval P w
  · ext i j
    exact congrArg (eval w) (pderiv_comm P i j)
  · simp only [h.gradient, coords_ofFn]
    exact hasFDerivAt_pi.mpr fun i => hasFDerivAt_eval (pderiv i P) w

end Polynomials

namespace QuadraticForm

lemma hasExactDerivatives {A : Matrix (Fin n) (Fin n) ℝ} (hA : A.IsSymm) (b : Fin n → ℝ) :
    (ofMatrix A b).objective.HasExactDerivatives n := by
  refine ⟨hasTrueGradient hA b, fun w => ⟨A, rfl, hA, ?_⟩⟩
  simp only [gradient_ofMatrix, coords_ofFn]
  exact (mulVecLin A).toContinuousLinearMap.hasFDerivAt.sub_const b

/-- The matrix with the curvatures `lambda1` and `lambda2` along the turned axes. -/
noncomputable def rotatedMatrix (lambda1 lambda2 theta : ℝ) : Matrix (Fin 2) (Fin 2) ℝ :=
  let s := Real.sin theta
  let c := Real.cos theta
  let off := (lambda1 - lambda2) * c * s
  !![lambda1 * c * c + lambda2 * s * s, off; off, lambda1 * s * s + lambda2 * c * c]

lemma rotatedMatrix_isSymm (lambda1 lambda2 theta : ℝ) :
    (rotatedMatrix lambda1 lambda2 theta).IsSymm := by
  ext i j
  fin_cases i <;> fin_cases j <;> rfl

lemma rotated_eq_ofMatrix (lambda1 lambda2 theta : ℝ) :
    rotated lambda1 lambda2 theta = ofMatrix (rotatedMatrix lambda1 lambda2 theta) 0 :=
  rfl

end QuadraticForm

namespace AnalyticProblem

lemma objective_isPolynomial {p : AnalyticProblem} {P : MvPolynomial (Fin 2) ℝ}
    (hvalue : ∀ x y, p.value [x, y] = eval ![x, y] P)
    (hgradient : ∀ x y, p.gradient [x, y] =
      [eval ![x, y] (pderiv 0 P), eval ![x, y] (pderiv 1 P)])
    (hhessian : ∀ x y, p.hessian [x, y] =
      [[eval ![x, y] (pderiv 0 (pderiv 0 P)), eval ![x, y] (pderiv 1 (pderiv 0 P))],
        [eval ![x, y] (pderiv 0 (pderiv 1 P)), eval ![x, y] (pderiv 1 (pderiv 1 P))]]) :
    (p.objective : Objective ℝ).IsPolynomial P := by
  have hcoords : ∀ w : Fin 2 → ℝ, ![w 0, w 1] = w := fun w => List.ofFn_injective rfl
  refine ⟨rfl, fun w => ?_, fun w => ?_, fun w => ?_⟩
  · rw [← hcoords w]
    exact hvalue (w 0) (w 1)
  · rw [← hcoords w]
    exact hgradient (w 0) (w 1)
  · rw [← hcoords w]
    exact congrArg some (hhessian (w 0) (w 1))

lemma quadratic_isPolynomial : (quadratic.objective : Objective ℝ).IsPolynomial (n := 2)
    (X 0 ^ 2 + X 1 ^ 2) := by
  refine objective_isPolynomial (fun x y => ?_) (fun x y => ?_) (fun x y => ?_)
  · norm_num [value]
    ring
  · norm_num [gradient, pderiv_X]
  · norm_num [hessian, pderiv_X, pderiv_ofNat]

lemma illConditioned_isPolynomial : (illConditioned.objective : Objective ℝ).IsPolynomial (n := 2)
    (X 0 ^ 2 + 100 * X 1 ^ 2) := by
  refine objective_isPolynomial (fun x y => ?_) (fun x y => ?_) (fun x y => ?_)
  · norm_num [value]
    ring
  · norm_num [gradient, pderiv_X, pderiv_ofNat]
    ring
  · norm_num [hessian, pderiv_X, pderiv_ofNat]

lemma rosenbrock_isPolynomial : (rosenbrock.objective : Objective ℝ).IsPolynomial (n := 2)
    ((1 - X 0) ^ 2 + 100 * (X 1 - X 0 ^ 2) ^ 2) := by
  refine objective_isPolynomial (fun x y => ?_) (fun x y => ?_) (fun x y => ?_)
  · norm_num [value]
    ring
  · norm_num [gradient, pderiv_X, pderiv_ofNat]
    constructor <;> ring
  · norm_num [hessian, pderiv_X, pderiv_ofNat]
    constructor <;> ring

lemma saddle_isPolynomial : (saddle.objective : Objective ℝ).IsPolynomial (n := 2)
    (X 0 ^ 2 - X 1 ^ 2) := by
  refine objective_isPolynomial (fun x y => ?_) (fun x y => ?_) (fun x y => ?_)
  · norm_num [value]
    ring
  · norm_num [gradient, pderiv_X]
  · norm_num [hessian, pderiv_X, pderiv_ofNat]

lemma threeHumpCamel_isPolynomial : (threeHumpCamel.objective : Objective ℝ).IsPolynomial (n := 2)
    (2 * X 0 ^ 2 - C 1.05 * X 0 ^ 4 + C (1 / 6) * X 0 ^ 6 + X 0 * X 1 + X 1 ^ 2) := by
  refine objective_isPolynomial (fun x y => ?_) (fun x y => ?_) (fun x y => ?_)
  · norm_num [value]
    ring
  · norm_num [gradient, pderiv_X, pderiv_ofNat]
    ring
  · norm_num [hessian, pderiv_X, pderiv_ofNat]
    ring

lemma rotated_hasExactDerivatives :
    (rotatedQuadratic.objective : Objective ℝ).HasExactDerivatives 2 := by
  have hform := QuadraticForm.hasExactDerivatives
    (QuadraticForm.rotatedMatrix_isSymm 2.0 200.0 (Real.pi / 4.0)) 0
  rw [← QuadraticForm.rotated_eq_ofMatrix] at hform
  exact ⟨⟨rfl, hform.hasFDerivAt⟩, hform.hessian⟩

end AnalyticProblem

/-- The gradients of the analytic problems and of the symmetric quadratic forms are the derivatives
of their values, and their Hessians are symmetric and the derivatives of the gradients. -/
theorem derivatives_are_exact :
    (∀ p : AnalyticProblem, (p.objective : Objective ℝ).HasExactDerivatives 2) ∧
      ∀ (n : ℕ) (A : Matrix (Fin n) (Fin n) ℝ) (b : Fin n → ℝ), A.IsSymm →
        (QuadraticForm.ofMatrix A b).objective.HasExactDerivatives n := by
  refine ⟨fun p => ?_, fun n A b hA => QuadraticForm.hasExactDerivatives hA b⟩
  cases p with
  | quadratic => exact AnalyticProblem.quadratic_isPolynomial.hasExactDerivatives
  | illConditioned => exact AnalyticProblem.illConditioned_isPolynomial.hasExactDerivatives
  | rosenbrock => exact AnalyticProblem.rosenbrock_isPolynomial.hasExactDerivatives
  | saddle => exact AnalyticProblem.saddle_isPolynomial.hasExactDerivatives
  | threeHumpCamel => exact AnalyticProblem.threeHumpCamel_isPolynomial.hasExactDerivatives
  | rotatedQuadratic => exact AnalyticProblem.rotated_hasExactDerivatives

/-- The form `x² + x y + y² - x` with a matrix that is not diagonal. -/
theorem oval_derivatives_are_exact : ovalMatrix.IsSymm ∧
    (QuadraticForm.ofMatrix ovalMatrix ![1, 0]).objective.HasExactDerivatives 2 :=
  ⟨ovalMatrix_isSymm, derivatives_are_exact.2 2 ovalMatrix ![1, 0] ovalMatrix_isSymm⟩

end Downhill
