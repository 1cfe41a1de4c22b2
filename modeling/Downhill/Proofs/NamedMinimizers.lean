import Downhill.Proofs.RealVectors
import Downhill.Problem.Analytic

/-!
# Minimizers of the analytic problems

Every analytic problem that is bounded below is a sum of two squares, the second one weighted, over
the whole plane. The squares vanish together at the named minimizer and nowhere else, so it is the
only place where the value is least; the local minima of the camel need no separate treatment.
-/

namespace Downhill

/-- A function of two coordinates as a sum of two squares that vanish together in a single place.
The weight of the second one may vary, but stays positive. -/
structure SquaresCertificate (f : ℝ → ℝ → ℝ) (mx my : ℝ) where
  first : ℝ → ℝ → ℝ
  second : ℝ → ℝ → ℝ
  weight : ℝ → ℝ → ℝ
  weight_pos : ∀ x y, 0 < weight x y
  value_eq : ∀ x y, f x y = first x y ^ 2 + weight x y * second x y ^ 2
  zero_iff : ∀ x y, first x y = 0 ∧ second x y = 0 ↔ x = mx ∧ y = my

namespace SquaresCertificate

variable {f : ℝ → ℝ → ℝ} {mx my : ℝ} (cert : SquaresCertificate f mx my)
include cert

lemma nonneg (x y : ℝ) : 0 ≤ f x y := by
  have hweight := cert.weight_pos x y
  rw [cert.value_eq]
  positivity

lemma eq_zero_iff (x y : ℝ) : f x y = 0 ↔ x = mx ∧ y = my := by
  have hsecond : 0 ≤ cert.weight x y * cert.second x y ^ 2 :=
    mul_nonneg (cert.weight_pos x y).le (sq_nonneg _)
  rw [cert.value_eq, add_eq_zero_iff_of_nonneg (sq_nonneg _) hsecond,
    mul_eq_zero_iff_left (cert.weight_pos x y).ne', sq_eq_zero_iff, sq_eq_zero_iff, cert.zero_iff]

end SquaresCertificate

/-- A stationary point at which the value is least among all points, and at no other. -/
structure Objective.IsStrictMinimizer (obj : Objective ℝ) (m : List ℝ) : Prop where
  length : m.length = obj.dim
  le : ∀ w, w.length = obj.dim → obj.value m ≤ obj.value w
  unique : ∀ w, w.length = obj.dim → obj.value w = obj.value m → w = m
  stationary : obj.gradient m = List.replicate obj.dim 0

def Objective.IsUnboundedBelow (obj : Objective ℝ) : Prop :=
  ∀ bound, ∃ w, w.length = obj.dim ∧ obj.value w < bound

namespace QuadraticForm

variable (lambda1 lambda2 theta : ℝ)

lemma value_rotated (x y : ℝ) : (rotated lambda1 lambda2 theta).value [x, y] =
    lambda1 / 2 * (Real.cos theta * x + Real.sin theta * y) ^ 2 +
      lambda2 / 2 * (Real.cos theta * y - Real.sin theta * x) ^ 2 := by
  have hhalf : (0.5 : ℝ) = 1 / 2 := by norm_num
  simp only [value, rotated, Rows.mulVec, List.map_cons, List.map_nil, dot, List.zip_cons_cons,
    List.zip_nil_right, List.foldl_cons, List.foldl_nil, Arithmetic.sin, Arithmetic.cos, hhalf]
  ring

lemma gradient_rotated_zero : (rotated lambda1 lambda2 theta).gradient [0, 0] = [0, 0] := by
  simp [gradient, rotated, Rows.mulVec, dot, sub]

/-- The turned coordinates vanish together only at the origin, whatever the angle. -/
noncomputable def rotatedCertificate :
    SquaresCertificate (fun x y => (rotated 2.0 200.0 theta).value [x, y]) 0 0 where
  first x y := Real.cos theta * x + Real.sin theta * y
  second x y := Real.cos theta * y - Real.sin theta * x
  weight _ _ := 100.0
  weight_pos _ _ := by norm_num
  value_eq x y := by
    have hfirst : (2.0 : ℝ) / 2 = 1 := by norm_num
    have hsecond : (200.0 : ℝ) / 2 = 100.0 := by norm_num
    rw [value_rotated, hfirst, hsecond, one_mul]
  zero_iff x y := by
    have hunit := Real.cos_sq_add_sin_sq theta
    constructor
    · rintro ⟨hfirst, hsecond⟩
      constructor
      · linear_combination Real.cos theta * hfirst - Real.sin theta * hsecond - x * hunit
      · linear_combination Real.sin theta * hfirst + Real.cos theta * hsecond - y * hunit
    · rintro ⟨rfl, rfl⟩
      simp

end QuadraticForm

namespace AnalyticProblem

/-- A certificate for the value of a problem, and a gradient that vanishes. -/
lemma isStrictMinimizer {p : AnalyticProblem} {mx my : ℝ}
    (cert : SquaresCertificate (fun x y => p.value [x, y]) mx my)
    (hgradient : p.gradient [mx, my] = [0, 0]) :
    (p.objective : Objective ℝ).IsStrictMinimizer [mx, my] := by
  have hleast : p.value [mx, my] = 0 := (cert.eq_zero_iff mx my).mpr ⟨rfl, rfl⟩
  refine ⟨rfl, fun w hw => ?_, fun w hw hvalue => ?_, hgradient⟩
  · obtain ⟨x, y, rfl⟩ := List.length_eq_two.mp hw
    exact hleast.trans_le (cert.nonneg x y)
  · obtain ⟨x, y, rfl⟩ := List.length_eq_two.mp hw
    obtain ⟨rfl, rfl⟩ := (cert.eq_zero_iff x y).mp (hvalue.trans hleast)
    rfl

lemma gradient_minimizer {p : AnalyticProblem} {m : List ℝ} (h : p.minimizer = some m) :
    p.gradient m = [0, 0] := by
  cases p with
  | saddle => cases h
  | rotatedQuadratic =>
    cases h
    exact QuadraticForm.gradient_rotated_zero ..
  | _ =>
    cases h
    simp [gradient]

noncomputable def quadraticCertificate :
    SquaresCertificate (fun x y => quadratic.value [x, y]) 0 0 where
  first x _ := x
  second _ y := y
  weight _ _ := 1
  weight_pos _ _ := one_pos
  value_eq x y := by
    change x * x + y * y = _
    ring
  zero_iff _ _ := Iff.rfl

noncomputable def illConditionedCertificate :
    SquaresCertificate (fun x y => illConditioned.value [x, y]) 0 0 where
  first x _ := x
  second _ y := y
  weight _ _ := 100.0
  weight_pos _ _ := by norm_num
  value_eq x y := by
    have hhundred : (100.0 : ℝ) = 100 := by norm_num
    change x * x + 100.0 * y * y = x ^ 2 + 100.0 * y ^ 2
    rw [hhundred]
    ring
  zero_iff _ _ := Iff.rfl

noncomputable def rosenbrockCertificate :
    SquaresCertificate (fun x y => rosenbrock.value [x, y]) 1 1 where
  first x _ := 1 - x
  second x y := y - x ^ 2
  weight _ _ := 100.0
  weight_pos _ _ := by norm_num
  value_eq x y := by
    have hhundred : (100.0 : ℝ) = 100 := by norm_num
    change (1 - x) * (1 - x) + 100.0 * (y - x * x) * (y - x * x) =
      (1 - x) ^ 2 + 100.0 * (y - x ^ 2) ^ 2
    rw [hhundred]
    ring
  zero_iff x y := by
    constructor
    · rintro ⟨hx, hy⟩
      obtain rfl : x = 1 := (sub_eq_zero.mp hx).symm
      exact ⟨rfl, by linarith⟩
    · rintro ⟨rfl, rfl⟩
      norm_num

/-- The other two minima of the camel lie where the weight of the second square is nearly least. -/
noncomputable def threeHumpCamelCertificate :
    SquaresCertificate (fun x y => threeHumpCamel.value [x, y]) 0 0 where
  first x y := y + 0.5 * x
  second x _ := x
  weight x _ := (x ^ 2 - 3.15) ^ 2 / 6.0 + 0.09625
  weight_pos x _ := by
    positivity
  value_eq x y := by
    have htwo : (2.0 : ℝ) = 2 := by norm_num
    have hquartic : (1.05 : ℝ) = 21 / 20 := by norm_num
    have hsix : (6.0 : ℝ) = 6 := by norm_num
    have hhalf : (0.5 : ℝ) = 1 / 2 := by norm_num
    have hcenter : (3.15 : ℝ) = 63 / 20 := by norm_num
    have hrest : (0.09625 : ℝ) = 77 / 800 := by norm_num
    change 2.0 * (x * x) - 1.05 * (x * x) * (x * x) + x * x * (x * x) * (x * x) / 6.0 +
      x * y + y * y =
        (y + 0.5 * x) ^ 2 + ((x ^ 2 - 3.15) ^ 2 / 6.0 + 0.09625) * x ^ 2
    rw [htwo, hquartic, hsix, hhalf, hcenter, hrest]
    ring
  zero_iff x y := by
    constructor
    · rintro ⟨hy, rfl⟩
      rw [mul_zero, add_zero] at hy
      exact ⟨rfl, hy⟩
    · rintro ⟨rfl, rfl⟩
      exact ⟨by rw [mul_zero, add_zero], rfl⟩

lemma saddle_isUnboundedBelow : (saddle.objective : Objective ℝ).IsUnboundedBelow := by
  intro bound
  refine ⟨[0, |bound| + 1], rfl, ?_⟩
  change 0 * 0 - (|bound| + 1) * (|bound| + 1) < bound
  nlinarith [neg_abs_le bound, abs_nonneg bound]

end AnalyticProblem

open AnalyticProblem

/-- The minimizers of the analytic problems are right, and the problem without one has no lower
bound. -/
theorem named_minimizers_are_global (p : AnalyticProblem) :
    match (p.minimizer : Option (List ℝ)) with
    | some m => (p.objective : Objective ℝ).IsStrictMinimizer m
    | none => (p.objective : Objective ℝ).IsUnboundedBelow := by
  cases p with
  | quadratic => exact isStrictMinimizer quadraticCertificate (gradient_minimizer rfl)
  | illConditioned => exact isStrictMinimizer illConditionedCertificate (gradient_minimizer rfl)
  | rosenbrock => exact isStrictMinimizer rosenbrockCertificate (gradient_minimizer rfl)
  | saddle => exact saddle_isUnboundedBelow
  | threeHumpCamel => exact isStrictMinimizer threeHumpCamelCertificate (gradient_minimizer rfl)
  | rotatedQuadratic =>
    exact isStrictMinimizer (QuadraticForm.rotatedCertificate (Real.pi / 4.0))
      (gradient_minimizer rfl)

end Downhill
