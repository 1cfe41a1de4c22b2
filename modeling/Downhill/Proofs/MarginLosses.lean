import Downhill.Proofs.LiftedPoints

/-!
# Losses of the margin

The classifiers that look for a separating line weigh the squares of their coefficients against a
loss of each point's margin. Every such loss lies above a line with its slope at each place, also
where two pieces meet, so the gradient of the sum supports the whole objective from below: the sets
of points that contribute at two weights need not have anything in common.
-/

namespace Downhill
open Matrix

/-- A loss that depends on the margin, with the slope of a line below it that touches it. -/
structure MarginLoss where
  loss : ℝ → ℝ
  slope : ℝ → ℝ
  supports : ∀ m m', loss m + slope m * (m' - m) ≤ loss m'

namespace MarginLoss

/-- How far the margin falls short of an edge. On the edge itself the slope is that of the points
beyond it. -/
noncomputable def shortfall (edge : ℝ) : MarginLoss where
  loss m := max 0 (edge - m)
  slope m := if m < edge then -1 else 0
  supports m m' := by
    have hzero : 0 ≤ max 0 (edge - m') := le_max_left _ _
    have hshort : edge - m' ≤ max 0 (edge - m') := le_max_right _ _
    split_ifs with hm
    · rw [max_eq_right (sub_pos.mpr hm).le]
      linarith
    · rw [max_eq_left (sub_nonpos.mpr (not_lt.mp hm))]
      linarith

/-- The square of the shortfall. -/
noncomputable def squaredShortfall (edge : ℝ) : MarginLoss where
  loss m := max 0 (edge - m) ^ 2
  slope m := -2.0 * max 0 (edge - m)
  supports m m' := by
    have htwo : (2.0 : ℝ) = 2 := by norm_num
    -- The square lies above its tangent, and the shortfall above the line through `m`.
    have hsquare := sq_nonneg (max 0 (edge - m') - max 0 (edge - m))
    have hline : max 0 (edge - m) * (edge - m') ≤ max 0 (edge - m) * max 0 (edge - m') :=
      mul_le_mul_of_nonneg_left (le_max_right _ _) (le_max_left _ _)
    have hself : max 0 (edge - m) * (edge - m) = max 0 (edge - m) ^ 2 := by
      rcases le_total 0 (edge - m) with hm | hm
      · rw [max_eq_right hm, sq]
      · rw [max_eq_left hm]
        ring
    rw [htwo]
    linarith

variable (edge m : ℝ)

lemma max_zero_sub : max 0 (edge - m) = if m < edge then edge - m else 0 := by
  split_ifs with hm
  · exact max_eq_right (sub_pos.mpr hm).le
  · exact max_eq_left (sub_nonpos.mpr (not_lt.mp hm))

lemma shortfall_loss : (shortfall edge).loss m = if m < edge then edge - m else 0 :=
  max_zero_sub edge m

lemma shortfall_slope : (shortfall edge).slope m = if m < edge then -1 else 0 :=
  rfl

lemma squaredShortfall_loss : (squaredShortfall edge).loss m =
    if m < edge then (edge - m) * (edge - m) else 0 := by
  change max 0 (edge - m) ^ 2 = _
  rw [max_zero_sub, ite_pow, sq, sq, mul_zero]

lemma squaredShortfall_slope : (squaredShortfall edge).slope m =
    if m < edge then -2 * (edge - m) else 0 := by
  have htwo : (2.0 : ℝ) = 2 := by norm_num
  change -2.0 * max 0 (edge - m) = _
  rw [htwo, max_zero_sub, mul_ite, mul_zero]

end MarginLoss

/-- The gradient of `obj` supports its value from below, in `n` coordinates. -/
structure Objective.HasSubgradients (obj : Objective ℝ) (n : ℕ) : Prop where
  dim_eq : obj.dim = n
  supports : ∀ w : Fin n → ℝ, ∃ g : Fin n → ℝ, obj.gradient (List.ofFn w) = List.ofFn g ∧
    ∀ v : Fin n → ℝ, obj.value (List.ofFn w) + g ⬝ᵥ (v - w) ≤ obj.value (List.ofFn v)

/-- An objective that adds up the squared coefficients and a loss of the points' margins. -/
structure Objective.FitsBy (obj : Objective ℝ) (φ : MarginLoss) (ridge weight : ℝ)
    (points : List (DataPoint ℝ)) : Prop where
  dim_eq : obj.dim = 3
  value : ∀ w : Fin 3 → ℝ, obj.value (List.ofFn w) =
    ridge / 2 * (w 0 ^ 2 + w 1 ^ 2) + weight * (points.map fun p => φ.loss (p.margin w)).sum
  gradient : ∀ w : Fin 3 → ℝ, obj.gradient (List.ofFn w) = List.ofFn (ridge • coefficients w +
    (points.map fun p => (weight * φ.slope (p.margin w) * p.sign) • p.lifted).sum)

namespace Objective.FitsBy

variable {obj : Objective ℝ} {φ : MarginLoss} {ridge weight : ℝ} {points : List (DataPoint ℝ)}

lemma margin_sub (p : DataPoint ℝ) (w v : Fin 3 → ℝ) :
    p.sign * (p.lifted ⬝ᵥ (v - w)) = p.margin v - p.margin w := by
  rw [dotProduct_sub, mul_sub]
  rfl

/-- The part of the gradient that comes from the points, along a difference of weights. -/
lemma slopes_dotProduct (w v : Fin 3 → ℝ) :
    (points.map fun p => (weight * φ.slope (p.margin w) * p.sign) • p.lifted).sum ⬝ᵥ (v - w) =
      weight * (points.map fun p => φ.slope (p.margin w) * (p.margin v - p.margin w)).sum := by
  rw [dotProduct_listSum, List.map_map, ← List.sum_map_mul_left]
  refine congrArg List.sum (List.map_congr_left fun p _ => ?_)
  rw [Function.comp_apply, smul_dotProduct, smul_eq_mul, ← margin_sub]
  ring

lemma losses_supported (φ : MarginLoss) (points : List (DataPoint ℝ)) (w v : Fin 3 → ℝ) :
    (points.map fun p => φ.loss (p.margin w)).sum +
        (points.map fun p => φ.slope (p.margin w) * (p.margin v - p.margin w)).sum ≤
      (points.map fun p => φ.loss (p.margin v)).sum := by
  rw [← List.sum_map_add]
  exact List.sum_le_sum fun p _ => φ.supports _ _

lemma hasSubgradients (h : obj.FitsBy φ ridge weight points) (hridge : 0 ≤ ridge)
    (hweight : 0 ≤ weight) : obj.HasSubgradients 3 := by
  refine ⟨h.dim_eq, fun w => ⟨_, h.gradient w, fun v => ?_⟩⟩
  have hlosses := mul_le_mul_of_nonneg_left (losses_supported φ points w v) hweight
  have hsquares : 0 ≤ ridge / 2 * ((v 0 - w 0) ^ 2 + (v 1 - w 1) ^ 2) := by positivity
  have hcoefficients : ridge • coefficients w ⬝ᵥ (v - w) =
      ridge * (w 0 * (v 0 - w 0) + w 1 * (v 1 - w 1)) := by
    rw [smul_dotProduct, smul_eq_mul, coefficients_dotProduct, Pi.sub_apply, Pi.sub_apply]
  rw [h.value, h.value, add_dotProduct, hcoefficients, slopes_dotProduct]
  linarith

end Objective.FitsBy

section Classifiers

variable (points : List (DataPoint ℝ)) (d : Dataset ℝ) (lambda : ℝ) (w : Fin 3 → ℝ)

lemma score_signedSample (p : DataPoint ℝ) :
    p.signedSample.label * p.signedSample.score (List.ofFn w) = p.margin w := by
  rw [DataPoint.signedSample, Sample.score_ofFn, DataPoint.margin]

lemma slack_signedSample (p : DataPoint ℝ) :
    p.signedSample.slack (List.ofFn w) = 1 - p.margin w := by
  rw [Sample.slack, score_signedSample]

lemma violations_signed : violations (Sample.signed d) (List.ofFn w) =
    (d.points.filter fun p => p.margin w < 1).map DataPoint.signedSample := by
  rw [violations, Sample.signed_eq, List.filter_map]
  refine congrArg (List.map _) (List.filter_congr fun p _ => decide_eq_decide.mpr ?_)
  rw [slack_signedSample]
  exact sub_pos

lemma misclassified_signed : Perceptron.misclassified (Sample.signed d) (List.ofFn w) =
    (d.points.filter fun p => p.margin w < 0).map DataPoint.signedSample := by
  rw [Perceptron.misclassified, Sample.signed_eq, List.filter_map]
  refine congrArg (List.map _) (List.filter_congr fun p _ => decide_eq_decide.mpr ?_)
  rw [score_signedSample]

/-- A sum over the contributing points. -/
lemma sum_contributions (P : DataPoint ℝ → Prop) [DecidablePred P] (f : Sample ℝ → ℝ) :
    Arithmetic.sum (((points.filter fun p => P p).map DataPoint.signedSample).map f) =
      (points.map fun p => if P p then f p.signedSample else 0).sum := by
  rw [Arithmetic.sum_eq, List.map_map, sum_map_filter]
  rfl

/-- A pass that takes a multiple of each contributing point out of the gradient. -/
lemma foldl_withdraw (P : DataPoint ℝ → Prop) [DecidablePred P] (factor : Sample ℝ → ℝ)
    (g : Fin 3 → ℝ) :
    ((points.filter fun p => P p).map DataPoint.signedSample).foldl
        (fun g s => withdraw g (factor s) s) (List.ofFn g) =
      List.ofFn (g + (points.map fun p =>
        (if P p then -factor p.signedSample else 0) • p.lifted).sum) := by
  simp only [withdraw_eq_along, List.foldl_map]
  refine (foldl_along (points.filter fun p => P p) DataPoint.lifted
    (fun p => -factor p.signedSample) g).trans ?_
  rw [sum_map_filter]
  simp only [ite_smul, zero_smul]

open MarginLoss

lemma softMargin_fitsBy :
    (Classifier.softMarginSvm.objective d lambda).FitsBy (shortfall 1) 1 lambda d.points := by
  have hhalf : (0.5 : ℝ) = 1 / 2 := by norm_num
  refine ⟨rfl, fun w => ?_, fun w => ?_⟩
  · change (0.5 : ℝ) * weightSquares (List.ofFn w) + lambda * Arithmetic.sum
      ((violations (Sample.signed d) (List.ofFn w)).map fun s => s.slack (List.ofFn w)) = _
    rw [weightSquares_ofFn, violations_signed, sum_contributions, hhalf]
    simp only [slack_signedSample, shortfall_loss]
  · change (violations (Sample.signed d) (List.ofFn w)).foldl
      (fun g s => withdraw g (lambda * s.label) s) (List.ofFn (coefficients w)) = _
    rw [violations_signed, foldl_withdraw, one_smul]
    simp only [shortfall_slope, DataPoint.signedSample, mul_ite, ite_mul, mul_neg, neg_mul,
      mul_one, mul_zero, zero_mul]

lemma squaredHinge_fitsBy :
    (Classifier.squaredHingeSvm.objective d lambda).FitsBy (squaredShortfall 1) 1 lambda
      d.points := by
  have hhalf : (0.5 : ℝ) = 1 / 2 := by norm_num
  have htwo : (2.0 : ℝ) = 2 := by norm_num
  refine ⟨rfl, fun w => ?_, fun w => ?_⟩
  · change (0.5 : ℝ) * weightSquares (List.ofFn w) + lambda * Arithmetic.sum
      ((violations (Sample.signed d) (List.ofFn w)).map
        fun s => s.slack (List.ofFn w) * s.slack (List.ofFn w)) = _
    rw [weightSquares_ofFn, violations_signed, sum_contributions, hhalf]
    simp only [slack_signedSample, squaredShortfall_loss]
  · change (violations (Sample.signed d) (List.ofFn w)).foldl
      (fun g s => withdraw g ((2.0 : ℝ) * lambda * s.slack (List.ofFn w) * s.label) s)
      (List.ofFn (coefficients w)) = _
    rw [violations_signed, foldl_withdraw, one_smul, htwo]
    refine congrArg (fun t => List.ofFn (coefficients w + t))
      (congrArg List.sum (List.map_congr_left fun p _ => ?_))
    rw [slack_signedSample, squaredShortfall_slope]
    congr 1
    split_ifs
    · change -(2 * lambda * (1 - p.margin w) * p.sign) = lambda * (-2 * (1 - p.margin w)) * p.sign
      ring
    · ring

lemma perceptron_fitsBy :
    (Classifier.perceptronSvm.objective d lambda).FitsBy (shortfall 0) lambda 1 d.points := by
  have hhalf : (0.5 : ℝ) = 1 / 2 := by norm_num
  refine ⟨rfl, fun w => ?_, fun w => ?_⟩
  · change Arithmetic.sum ((Perceptron.misclassified (Sample.signed d) (List.ofFn w)).map
      fun s => -(s.label * s.score (List.ofFn w))) +
        (0.5 : ℝ) * lambda * weightSquares (List.ofFn w) = _
    rw [weightSquares_ofFn, misclassified_signed, sum_contributions, hhalf]
    simp only [score_signedSample, shortfall_loss, zero_sub]
    ring
  · change (Perceptron.misclassified (Sample.signed d) (List.ofFn w)).foldl
      (fun g s => withdraw g s.label s) [lambda * w 0, lambda * w 1, 0] = _
    rw [misclassified_signed, ← ofFn_smul_coefficients, foldl_withdraw]
    simp only [shortfall_slope, DataPoint.signedSample, ite_mul, one_mul, neg_mul, zero_mul]

end Classifiers

/-- The gradients of the classifiers that look for a separating line are subgradients everywhere. -/
theorem margin_gradients_are_subgradients (c : Classifier) (hc : c ≠ .logisticRegression)
    (d : Dataset ℝ) (lambda : ℝ) (hlambda : 0 ≤ lambda) :
    (c.objective d lambda).HasSubgradients 3 := by
  cases c with
  | logisticRegression => exact absurd rfl hc
  | squaredHingeSvm => exact (squaredHinge_fitsBy d lambda).hasSubgradients zero_le_one hlambda
  | softMarginSvm => exact (softMargin_fitsBy d lambda).hasSubgradients zero_le_one hlambda
  | perceptronSvm => exact (perceptron_fitsBy d lambda).hasSubgradients hlambda zero_le_one

/-- One point, whose margin under the weights `(1, 0, 0)` is exactly one. -/
def edgePoint : DataPoint ℝ :=
  ⟨1, 0, 1⟩

/-- A point of the other class on the wrong side. -/
def strayPoint : DataPoint ℝ :=
  ⟨1, 1, 0⟩

/-- At these weights one point lies on the edge and is left out, and the other one contributes. -/
theorem edge_gradient_is_subgradient :
    Dataset.ofPoints [edgePoint, strayPoint] = .ok ⟨[edgePoint, strayPoint]⟩ ∧
      edgePoint.margin ![1, 0, 0] = 1 ∧ strayPoint.margin ![1, 0, 0] = -1 ∧
      Classifier.softMarginSvm ≠ .logisticRegression ∧ (0 : ℝ) ≤ 1 ∧
      (Classifier.softMarginSvm.objective ⟨[edgePoint, strayPoint]⟩ (1 : ℝ)).HasSubgradients 3 := by
  refine ⟨rfl, ?_, ?_, by decide, zero_le_one,
    margin_gradients_are_subgradients _ (by decide) _ 1 zero_le_one⟩
  · have hlabel : edgePoint.label = 1 := Nat.cast_one
    have hscore : edgePoint.lifted ⬝ᵥ ![1, 0, 0] = 1 := by
      simp [edgePoint, DataPoint.lifted]
    rw [DataPoint.margin, DataPoint.sign, hlabel, hscore]
    norm_num
  · have hlabel : strayPoint.label = 0 := Nat.cast_zero
    have hscore : strayPoint.lifted ⬝ᵥ ![1, 0, 0] = 1 := by
      simp [strayPoint, DataPoint.lifted]
    rw [DataPoint.margin, DataPoint.sign, hlabel, hscore]
    norm_num

end Downhill
