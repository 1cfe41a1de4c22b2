import Mathlib.Analysis.Calculus.FDeriv.Pow
import Mathlib.Analysis.Calculus.TangentCone.Real
import Downhill.Proofs.ClampedProbabilities
import Downhill.Proofs.UphillDirections

/-!
# The gradient of logistic regression

The value holds each probability in a range, the gradient does not. Where a point's probability is
held, its share of the value is constant, while its share of the gradient is what it would be
otherwise. So the gradient exceeds that of the value by the shares of these points, at every place
where the value has a gradient, and it is exact where no score is large.
-/

namespace Downhill
open Matrix Topology

/-- A sum of losses of the scores has the sum of their slopes as its gradient, also within a set. -/
lemma hasFDerivWithinAt_sum_scores {points : List (DataPoint ℝ)} (loss : DataPoint ℝ → ℝ → ℝ)
    {slope : DataPoint ℝ → ℝ} {S : Set (Fin 3 → ℝ)} {w : Fin 3 → ℝ}
    (h : ∀ p ∈ points, HasFDerivWithinAt (fun x => loss p (p.lifted ⬝ᵥ x))
      (dotWith (slope p • p.lifted)) S w) :
    HasFDerivWithinAt (fun x => (points.map fun p => loss p (p.lifted ⬝ᵥ x)).sum)
      (dotWith (points.map fun p => slope p • p.lifted).sum) S w := by
  induction points with
  | nil =>
    simp only [List.map_nil, List.sum_nil, map_zero]
    exact hasFDerivWithinAt_const 0 w S
  | cons p points ih =>
    obtain ⟨hp, hpoints⟩ := List.forall_mem_cons.mp h
    simp only [List.map_cons, List.sum_cons, map_add]
    exact hp.add (ih hpoints)

lemma hasFDerivAt_ridge (lambda : ℝ) (w : Fin 3 → ℝ) :
    HasFDerivAt (fun x : Fin 3 → ℝ => lambda / 2 * (x 0 ^ 2 + x 1 ^ 2))
      (dotWith (lambda • coefficients w)) w := by
  have hcoordinate : ∀ i : Fin 3, HasFDerivAt (fun x : Fin 3 → ℝ => x i)
      (ContinuousLinearMap.proj i : (Fin 3 → ℝ) →L[ℝ] ℝ) w := fun i => hasFDerivAt_apply i w
  have hsquares := ((hcoordinate 0).pow 2).add ((hcoordinate 1).pow 2)
  refine (hsquares.const_mul (lambda / 2)).congr_fderiv ?_
  refine ContinuousLinearMap.ext fun v => ?_
  change lambda / 2 * (2 • w 0 ^ 1 * v 0 + 2 • w 1 ^ 1 * v 1) = lambda • coefficients w ⬝ᵥ v
  rw [smul_dotProduct, coefficients_dotProduct, smul_eq_mul]
  ring

namespace Logistic

variable (d : Dataset ℝ) (lambda : ℝ) (w : Fin 3 → ℝ)

lemma value_ofFn : (Classifier.logisticRegression.objective d lambda).value (List.ofFn w) =
    -(1 / d.points.length) * (d.points.map fun p => likelihoodAt p.label (p.lifted ⬝ᵥ w)).sum +
      lambda / 2 * (w 0 ^ 2 + w 1 ^ 2) := by
  have hhalf : (0.5 : ℝ) = 1 / 2 := by norm_num
  change -Arithmetic.sum ((Sample.plain d).map (logLikelihood (List.ofFn w))) /
    ((Sample.plain d).length : ℝ) + (0.5 : ℝ) * lambda * weightSquares (List.ofFn w) = _
  rw [Arithmetic.sum_eq, Sample.plain_eq, List.map_map, List.length_map, weightSquares_ofFn, hhalf]
  simp only [Function.comp_def, logLikelihood_ofFn]
  ring

/-- What a point contributes to the gradient, whether or not its probability is held. -/
noncomputable def error (p : DataPoint ℝ) : ℝ :=
  Logistic.sigmoid (p.lifted ⬝ᵥ w) - p.label

lemma gradient_ofFn : (Classifier.logisticRegression.objective d lambda).gradient (List.ofFn w) =
    List.ofFn ((1 / d.points.length : ℝ) • (d.points.map fun p => error w p • p.lifted).sum +
      lambda • coefficients w) := by
  have htotal : (Sample.plain d).foldl
      (fun g s => along g (Logistic.sigmoid (s.score (List.ofFn w)) - s.label) s.features)
      [0, 0, 0] = List.ofFn (d.points.map fun p => error w p • p.lifted).sum := by
    rw [Sample.plain_eq, List.foldl_map]
    simp only [Sample.score_ofFn]
    refine (foldl_along d.points DataPoint.lifted (error w) 0).trans ?_
    rw [zero_add]
  have hcount : (Sample.plain d).length = d.points.length := List.length_map _
  change ((((Sample.plain d).foldl
    (fun g s => along g (Logistic.sigmoid (s.score (List.ofFn w)) - s.label) s.features)
    [0, 0, 0]).map (· / ((Sample.plain d).length : ℝ))).modify 0 (· + lambda * w 0)).modify 1
      (· + lambda * w 1) = _
  rw [htotal, hcount]
  generalize (d.points.map fun p => error w p • p.lifted).sum = total, (d.points.length : ℝ) = n
  change [total 0 / n + lambda * w 0, total 1 / n + lambda * w 1, total 2 / n] =
    [1 / n * total 0 + lambda * w 0, 1 / n * total 1 + lambda * w 1, 1 / n * total 2 + lambda * 0]
  simp only [one_div_mul_eq_div, mul_zero, add_zero]

/-- The gradient of the value wherever there is one. -/
noncomputable def trueGradient : Fin 3 → ℝ :=
  -(1 / d.points.length : ℝ) •
      (d.points.map fun p => slopeAt p.label (p.lifted ⬝ᵥ w) • p.lifted).sum +
    lambda • coefficients w

/-- What the gradient adds up from points whose probability is held. -/
noncomputable def excess : Fin 3 → ℝ :=
  (1 / d.points.length : ℝ) •
    ((d.points.filter fun p => IsClamped (p.lifted ⬝ᵥ w)).map fun p => error w p • p.lifted).sum

lemma gradient_eq_add_excess :
    (Classifier.logisticRegression.objective d lambda).gradient (List.ofFn w) =
      List.ofFn (trueGradient d lambda w + excess d w) := by
  have hshares : (d.points.map fun p => error w p • p.lifted).sum =
      -(d.points.map fun p => slopeAt p.label (p.lifted ⬝ᵥ w) • p.lifted).sum +
        ((d.points.filter fun p => IsClamped (p.lifted ⬝ᵥ w)).map
          fun p => error w p • p.lifted).sum := by
    rw [sum_map_filter, ← sub_eq_neg_add, eq_sub_iff_add_eq, ← List.sum_map_add]
    refine congrArg List.sum (List.map_congr_left fun p _ => ?_)
    rw [slopeAt, error]
    split_ifs
    · rw [zero_smul, add_zero]
    · rw [← add_smul, sub_add_sub_cancel, sub_self, zero_smul]
  rw [gradient_ofFn, hshares, trueGradient, excess, smul_add, smul_neg, neg_smul]
  exact congrArg List.ofFn (add_right_comm _ _ _)

variable {d lambda w}

lemma hasFDerivWithinAt_value {S : Set (Fin 3 → ℝ)}
    (h : ∀ p ∈ d.points, HasFDerivWithinAt (fun x => likelihoodAt p.label (p.lifted ⬝ᵥ x))
      (dotWith (slopeAt p.label (p.lifted ⬝ᵥ w) • p.lifted)) S w) :
    HasFDerivWithinAt
      (fun x => (Classifier.logisticRegression.objective d lambda).value (List.ofFn x))
      (dotWith (trueGradient d lambda w)) S w := by
  have hlikelihood :=
    (hasFDerivWithinAt_sum_scores (fun p => likelihoodAt p.label) h).const_mul
      (-(1 / d.points.length : ℝ))
  have hvalue := hlikelihood.add (hasFDerivAt_ridge lambda w).hasFDerivWithinAt
  refine (hvalue.congr_fderiv ?_).congr (fun x _ => value_ofFn d lambda x) (value_ofFn d lambda w)
  simp only [trueGradient, map_add, map_smul]

lemma hasFDerivAt_score {p : DataPoint ℝ} {slope : ℝ}
    (h : HasDerivAt (likelihoodAt p.label) slope (p.lifted ⬝ᵥ w)) :
    HasFDerivAt (fun x => likelihoodAt p.label (p.lifted ⬝ᵥ x)) (dotWith (slope • p.lifted)) w := by
  rw [map_smul]
  exact h.comp_hasFDerivAt w (dotWith p.lifted).hasFDerivAt

/-- Off the edges of the range the value has a gradient. -/
lemma hasFDerivAt_value (hedge : ∀ p ∈ d.points, ¬ IsOnEdge (p.lifted ⬝ᵥ w)) :
    HasFDerivAt (fun x => (Classifier.logisticRegression.objective d lambda).value (List.ofFn x))
      (dotWith (trueGradient d lambda w)) w := by
  refine hasFDerivWithinAt_univ.mp (hasFDerivWithinAt_value fun p hp => ?_)
  refine (hasFDerivAt_score ?_).hasFDerivWithinAt
  by_cases hclamped : IsClamped (p.lifted ⬝ᵥ w)
  · exact hasDerivAt_likelihoodAt_of_isClamped p.label hclamped (hedge p hp)
  · exact hasDerivAt_likelihoodAt p.label hclamped

/-! ### Weights on an edge -/

/-- The weights from which `w` is seen with all scores of held points further away from zero. -/
def outward (d : Dataset ℝ) (w : Fin 3 → ℝ) : Set (Fin 3 → ℝ) :=
  {x | ∀ p ∈ d.points, IsClamped (p.lifted ⬝ᵥ w) →
    0 ≤ (p.lifted ⬝ᵥ w) * (p.lifted ⬝ᵥ x - p.lifted ⬝ᵥ w)}

lemma mem_outward_self : w ∈ outward d w := by
  intro p _ _
  rw [sub_self, mul_zero]

lemma convex_outward : Convex ℝ (outward d w) := by
  intro x hx z hz a b ha hb hab p hp hclamped
  have hscore : p.lifted ⬝ᵥ (a • x + b • z) - p.lifted ⬝ᵥ w =
      a * (p.lifted ⬝ᵥ x - p.lifted ⬝ᵥ w) + b * (p.lifted ⬝ᵥ z - p.lifted ⬝ᵥ w) := by
    rw [dotProduct_add, dotProduct_smul, dotProduct_smul, smul_eq_mul, smul_eq_mul]
    linear_combination (p.lifted ⬝ᵥ w) * hab
  have hx := mul_nonneg ha (hx p hp hclamped)
  have hz := mul_nonneg hb (hz p hp hclamped)
  rw [hscore]
  linarith

/-- At twice the weights every score is twice as far away, and so it is nearby. -/
lemma mem_interior_outward : w + w ∈ interior (outward d w) := by
  have hnear : ∀ᶠ x in 𝓝 (w + w), ∀ p ∈ {p | p ∈ d.points}, IsClamped (p.lifted ⬝ᵥ w) →
      0 ≤ (p.lifted ⬝ᵥ w) * (p.lifted ⬝ᵥ x - p.lifted ⬝ᵥ w) := by
    refine (Filter.eventually_all_finite d.points.finite_toSet).mpr fun p _ => ?_
    by_cases hclamped : IsClamped (p.lifted ⬝ᵥ w)
    · have hcontinuous : Continuous fun x : Fin 3 → ℝ =>
          (p.lifted ⬝ᵥ w) * (p.lifted ⬝ᵥ x - p.lifted ⬝ᵥ w) :=
        ((dotWith p.lifted).continuous.sub continuous_const).const_mul _
      have hpos : 0 < (p.lifted ⬝ᵥ w) * (p.lifted ⬝ᵥ (w + w) - p.lifted ⬝ᵥ w) := by
        rw [dotProduct_add, add_sub_cancel_right]
        exact mul_self_pos.mpr hclamped.ne_zero
      filter_upwards [hcontinuous.continuousAt.eventually_const_lt hpos] with x hx _
      exact hx.le
    · exact .of_forall fun x h => absurd h hclamped
  exact mem_interior_iff_mem_nhds.mpr hnear

lemma uniqueDiffWithinAt_outward : UniqueDiffWithinAt ℝ (outward d w) w :=
  uniqueDiffWithinAt_convex convex_outward ⟨_, mem_interior_outward⟩
    (subset_closure mem_outward_self)

/-- Away from the edges on which scores lie, the value still has a gradient on one side. -/
lemma hasFDerivWithinAt_outward : HasFDerivWithinAt
    (fun x => (Classifier.logisticRegression.objective d lambda).value (List.ofFn x))
    (dotWith (trueGradient d lambda w)) (outward d w) w := by
  refine hasFDerivWithinAt_value fun p hp => ?_
  by_cases hclamped : IsClamped (p.lifted ⬝ᵥ w)
  · rw [slopeAt, if_pos hclamped, zero_smul, map_zero]
    exact (hasFDerivWithinAt_const (likelihoodAt p.label (p.lifted ⬝ᵥ w)) w _).congr
      (fun x hx => likelihoodAt_outward p.label hclamped (hx p hp hclamped)) rfl
  · exact (hasFDerivAt_score (hasDerivAt_likelihoodAt p.label hclamped)).hasFDerivWithinAt

lemma dotWith_injective {n : ℕ} : Function.Injective (dotWith : (Fin n → ℝ) → _) := by
  intro g h heq
  refine funext fun i => ?_
  have happly := DFunLike.congr_fun heq (Pi.single i 1)
  change g ⬝ᵥ Pi.single i 1 = h ⬝ᵥ Pi.single i 1 at happly
  simpa using happly

lemma eq_trueGradient {g : Fin 3 → ℝ} (h : HasFDerivAt
    (fun x => (Classifier.logisticRegression.objective d lambda).value (List.ofFn x))
    (dotWith g) w) : g = trueGradient d lambda w :=
  dotWith_injective (uniqueDiffWithinAt_outward.eq h.hasFDerivWithinAt hasFDerivWithinAt_outward)

lemma excess_eq_zero (h : ∀ p ∈ d.points, ¬ IsClamped (p.lifted ⬝ᵥ w)) : excess d w = 0 := by
  have hnone : (d.points.filter fun p => IsClamped (p.lifted ⬝ᵥ w)) = [] :=
    List.filter_eq_nil_iff.mpr fun p hp => by
      rw [decide_eq_true_iff]
      exact h p hp
  rw [excess, hnone, List.map_nil, List.sum_nil, smul_zero]

end Logistic

open Logistic

/-- At all weights at which the value has a gradient, the gradient that is returned exceeds it by
the shares of the points whose probability is held. It has one unless a probability is exactly an
end of the range, and where no probability is held the returned gradient is exact. -/
theorem logistic_gradient_exceeds_by_held_points (d : Dataset ℝ) (lambda : ℝ) (w : Fin 3 → ℝ) :
    let obj := Classifier.logisticRegression.objective d lambda
    ∃ g : Fin 3 → ℝ, obj.gradient (List.ofFn w) = List.ofFn g ∧
      (∀ h : Fin 3 → ℝ, HasFDerivAt (fun x => obj.value (List.ofFn x)) (dotWith h) w →
        g = h + excess d w) ∧
      ((∀ p ∈ d.points, ¬ IsOnEdge (p.lifted ⬝ᵥ w)) →
        HasFDerivAt (fun x => obj.value (List.ofFn x)) (dotWith (g - excess d w)) w) ∧
      ((∀ p ∈ d.points, ¬ IsClamped (p.lifted ⬝ᵥ w)) →
        HasFDerivAt (fun x => obj.value (List.ofFn x)) (dotWith g) w) := by
  refine ⟨_, gradient_eq_add_excess d lambda w, fun h hh => ?_, fun hedge => ?_, fun hfree => ?_⟩
  · rw [eq_trueGradient hh]
  · rw [add_sub_cancel_right]
    exact hasFDerivAt_value hedge
  · rw [excess_eq_zero hfree, add_zero]
    exact hasFDerivAt_value fun p hp hedge => hfree p hp hedge.isClamped

/-- A single point at the origin with the label one, whose score is the offset. -/
def originPoint : DataPoint ℝ :=
  ⟨0, 0, 1⟩

lemma originPoint_score (w : Fin 3 → ℝ) : originPoint.lifted ⬝ᵥ w = w 2 := by
  rw [vec3_dotProduct]
  simp [originPoint, DataPoint.lifted]

/-- A point on the axis with the label zero. -/
def axisPoint : DataPoint ℝ :=
  ⟨1, 0, 0⟩

lemma axisPoint_score (w : Fin 3 → ℝ) : axisPoint.lifted ⬝ᵥ w = w 0 + w 2 := by
  rw [vec3_dotProduct]
  simp [axisPoint, DataPoint.lifted]

/-- A point of each class. -/
def bothLabels : Dataset ℝ :=
  ⟨[originPoint, axisPoint]⟩

/-- Weights that give the point on the axis the score -40 and the one at the origin the score zero. -/
def steepWeights : Fin 3 → ℝ :=
  ![-40, 0, 0]

/-- The probability of one point is held and that of the other one is not: without the share of the
held point the gradient is exact. At zero weights it is exact as it is. -/
theorem steep_gradient_is_exact_without_held_point :
    Dataset.ofPoints bothLabels.points = .ok bothLabels ∧
      IsClamped (axisPoint.lifted ⬝ᵥ steepWeights) ∧
      ¬ IsClamped (originPoint.lifted ⬝ᵥ steepWeights) ∧
      let obj := Classifier.logisticRegression.objective bothLabels 1
      (∃ g : Fin 3 → ℝ, obj.gradient (List.ofFn steepWeights) = List.ofFn g ∧
        HasFDerivAt (fun x => obj.value (List.ofFn x))
          (dotWith (g - excess bothLabels steepWeights)) steepWeights) ∧
      ∃ g : Fin 3 → ℝ, obj.gradient (List.ofFn (0 : Fin 3 → ℝ)) = List.ofFn g ∧
        HasFDerivAt (fun x : Fin 3 → ℝ => obj.value (List.ofFn x)) (dotWith g) 0 := by
  have haxis : axisPoint.lifted ⬝ᵥ steepWeights ≤ -40 := by
    rw [axisPoint_score]
    simp [steepWeights]
  have hfree : ¬ IsClamped (originPoint.lifted ⬝ᵥ steepWeights) := by
    have hoffset : steepWeights 2 = 0 := rfl
    rw [originPoint_score, hoffset]
    exact not_isClamped_of_abs_le (by norm_num)
  have hedge : ∀ p ∈ bothLabels.points, ¬ IsOnEdge (p.lifted ⬝ᵥ steepWeights) :=
    List.forall_mem_cons.mpr ⟨fun h => hfree h.isClamped,
      List.forall_mem_singleton.mpr (not_isOnEdge_of_le haxis)⟩
  have hzero : ∀ p ∈ bothLabels.points, ¬ IsClamped (p.lifted ⬝ᵥ (0 : Fin 3 → ℝ)) := by
    intro p _
    rw [dotProduct_zero]
    exact not_isClamped_of_abs_le (by norm_num)
  obtain ⟨g, hgradient, -, hvalue, -⟩ :=
    logistic_gradient_exceeds_by_held_points bothLabels 1 steepWeights
  obtain ⟨g', hgradient', -, -, hvalue'⟩ := logistic_gradient_exceeds_by_held_points bothLabels 1 0
  exact ⟨rfl, isClamped_of_le haxis, hfree, ⟨g, hgradient, hvalue hedge⟩,
    g', hgradient', hvalue' hzero⟩

/-- The objective of the point at the origin without regularization. -/
noncomputable def originObjective : Objective ℝ :=
  Classifier.logisticRegression.objective ⟨[originPoint]⟩ 0

/-- Weights that give the point the score -40. -/
def farWeights : Fin 3 → ℝ :=
  ![0, 0, -40]

/-- Far out the value of the point is constant, but the gradient that is returned is not zero. -/
theorem held_point_has_gradient :
    Dataset.ofPoints [originPoint] = .ok ⟨[originPoint]⟩ ∧
      HasFDerivAt (fun x => originObjective.value (List.ofFn x)) (dotWith 0) farWeights ∧
      originObjective.gradient (List.ofFn farWeights) ≠ List.ofFn (0 : Fin 3 → ℝ) := by
  have hscore : originPoint.lifted ⬝ᵥ farWeights = -40 := originPoint_score farWeights
  refine ⟨rfl, ?_, fun heq => ?_⟩
  · have hzero : trueGradient ⟨[originPoint]⟩ 0 farWeights = 0 := by
      simp [trueGradient, slopeAt, isClamped_of_le hscore.le]
    rw [← hzero]
    refine hasFDerivAt_value fun p hp => ?_
    rw [List.mem_singleton.mp hp]
    exact not_isOnEdge_of_le hscore.le
  · have hlabel : originPoint.label = 1 := Nat.cast_one
    have hgradient := List.ofFn_injective ((gradient_ofFn _ 0 farWeights).symm.trans heq)
    have hcoordinate := congrFun hgradient 2
    have herror : error farWeights originPoint = 0 := by
      simpa [DataPoint.lifted] using hcoordinate
    rw [error, hscore, hlabel] at herror
    have hone := sigmoid_lt_one (-40)
    linarith

end Downhill
