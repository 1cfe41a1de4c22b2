import Mathlib.Analysis.Complex.ExponentialBounds
import Mathlib.Analysis.SpecialFunctions.Log.Deriv
import Mathlib.Analysis.SpecialFunctions.Sigmoid
import Downhill.Proofs.LiftedPoints

/-!
# Clamped probabilities

Logistic regression holds the probability of a score away from zero and one before it takes the
logarithm. Where the probability is held the likelihood of a point is constant, and everywhere else
its slope is the label less the probability.
-/

namespace Downhill
open Matrix Topology

lemma clamp_eq {low high : ℝ} (h : low ≤ high) (x : ℝ) :
    Arithmetic.clamp low high x = max low (min high x) := by
  unfold Arithmetic.clamp
  split_ifs with hlow hhigh
  · exact (max_eq_left ((min_le_right _ _).trans hlow.le)).symm
  · rw [min_eq_left hhigh.le, max_eq_right h]
  · rw [min_eq_right (not_lt.mp hhigh), max_eq_right (not_lt.mp hlow)]

namespace Logistic

/-! ### Probabilities -/

/-- A score moved into the range on which the logistic function is evaluated. -/
noncomputable def clip (z : ℝ) : ℝ :=
  max (-500) (min 500 z)

lemma clip_eq_self {z : ℝ} (h : |z| ≤ 500) : clip z = z := by
  obtain ⟨hlow, hhigh⟩ := abs_le.mp h
  rw [clip, min_eq_right hhigh, max_eq_right hlow]

lemma sigmoid_eq (z : ℝ) : Logistic.sigmoid z = Real.sigmoid (clip z) := by
  have hclamp : Arithmetic.clamp (-500.0) 500.0 z = clip z := by
    rw [clamp_eq (by norm_num)]
    norm_num [clip]
  change 1 / (1 + Real.exp (-Arithmetic.clamp (-500.0) 500.0 z)) = _
  rw [hclamp, Real.sigmoid_def, one_div]

lemma sigmoid_eq_of_abs_le {z : ℝ} (h : |z| ≤ 500) : Logistic.sigmoid z = Real.sigmoid z := by
  rw [sigmoid_eq, clip_eq_self h]

lemma sigmoid_pos (z : ℝ) : 0 < Logistic.sigmoid z := by
  rw [sigmoid_eq]
  exact Real.sigmoid_pos _

lemma sigmoid_lt_one (z : ℝ) : Logistic.sigmoid z < 1 := by
  rw [sigmoid_eq]
  exact Real.sigmoid_lt_one _

lemma sigmoid_mono : Monotone (Logistic.sigmoid : ℝ → ℝ) := by
  intro x z h
  rw [sigmoid_eq, sigmoid_eq]
  exact Real.sigmoid_le (max_le_max le_rfl (min_le_min le_rfl h))

lemma continuous_sigmoid : Continuous (Logistic.sigmoid : ℝ → ℝ) := by
  have hclip : Continuous clip := by
    unfold clip
    fun_prop
  exact (differentiable_sigmoid.continuous.comp hclip).congr fun z => (sigmoid_eq z).symm

lemma sigmoid_zero : Logistic.sigmoid (0 : ℝ) = 1 / 2 := by
  rw [sigmoid_eq_of_abs_le (by norm_num), Real.sigmoid_zero, one_div]

/-- Whether the probability of a score lies outside the range to which the value holds it, or at an
end of that range. -/
def IsClamped (z : ℝ) : Prop :=
  Logistic.sigmoid z ≤ 1e-10 ∨ 1 - 1e-10 ≤ Logistic.sigmoid z

noncomputable instance (z : ℝ) : Decidable (IsClamped z) :=
  inferInstanceAs (Decidable (_ ∨ _))

/-- Whether the probability of a score is exactly an end of the range. -/
def IsOnEdge (z : ℝ) : Prop :=
  Logistic.sigmoid z = 1e-10 ∨ Logistic.sigmoid z = 1 - 1e-10

lemma IsOnEdge.isClamped {z : ℝ} (h : IsOnEdge z) : IsClamped z :=
  h.imp le_of_eq ge_of_eq

/-- From 40 on every score is large. -/
lemma sigmoid_lt_of_le {z : ℝ} (h : z ≤ -40) : Logistic.sigmoid z < 1e-10 := by
  have hexp : (2 : ℝ) ^ 40 ≤ Real.exp 40 := by
    have hbase : (2 : ℝ) ≤ Real.exp 1 := by linarith [Real.add_one_le_exp 1]
    calc (2 : ℝ) ^ 40
      _ ≤ Real.exp 1 ^ 40 := pow_le_pow_left₀ two_pos.le hbase 40
      _ = Real.exp 40 := by rw [Real.exp_one_pow]; norm_num
  refine (sigmoid_mono h).trans_lt ?_
  rw [sigmoid_eq_of_abs_le (by norm_num), Real.sigmoid_def, neg_neg,
    inv_lt_comm₀ (by positivity) (by norm_num)]
  exact lt_of_lt_of_le (by norm_num) (add_le_add_right hexp 1)

lemma lt_sigmoid_of_le {z : ℝ} (h : 40 ≤ z) : 1 - 1e-10 < Logistic.sigmoid z := by
  have hlow := sigmoid_lt_of_le (le_refl (-40))
  have hopposite := Real.sigmoid_neg 40
  have hmono := sigmoid_mono h
  rw [sigmoid_eq_of_abs_le (by norm_num)] at hlow hmono
  linarith

lemma abs_lt_of_not_isClamped {z : ℝ} (h : ¬ IsClamped z) : |z| < 40 := by
  obtain ⟨hlow, hhigh⟩ := not_or.mp h
  refine abs_lt.mpr ⟨?_, ?_⟩
  · exact not_le.mp fun hle => hlow (sigmoid_lt_of_le hle).le
  · exact not_le.mp fun hle => hhigh (lt_sigmoid_of_le hle).le

lemma isClamped_of_le {z : ℝ} (h : z ≤ -40) : IsClamped z :=
  .inl (sigmoid_lt_of_le h).le

lemma not_isOnEdge_of_le {z : ℝ} (h : z ≤ -40) : ¬ IsOnEdge z := by
  have hlow := sigmoid_lt_of_le h
  rintro (hedge | hedge)
  · exact hlow.ne hedge
  · norm_num at hlow hedge
    linarith

/-- Up to 23 no score is large. -/
lemma not_isClamped_of_abs_le {z : ℝ} (h : |z| ≤ 23) : ¬ IsClamped z := by
  have hexp : Real.exp 23 ≤ 2.7182818286 ^ 23 := by
    calc Real.exp 23
      _ = Real.exp 1 ^ 23 := by rw [Real.exp_one_pow]; norm_num
      _ ≤ 2.7182818286 ^ 23 := pow_le_pow_left₀ (Real.exp_pos 1).le Real.exp_one_lt_d9.le 23
  have hend : 1e-10 < Real.sigmoid (-23) := by
    rw [Real.sigmoid_def, neg_neg, lt_inv_comm₀ (by norm_num) (by positivity)]
    exact (add_le_add_right hexp 1).trans_lt (by norm_num)
  have hclip : |z| ≤ 500 := h.trans (by norm_num)
  obtain ⟨hlow, hhigh⟩ := abs_le.mp h
  have hopposite := Real.sigmoid_neg 23
  have hbelow := Real.sigmoid_le hlow
  have habove := Real.sigmoid_le hhigh
  rw [IsClamped, sigmoid_eq_of_abs_le hclip]
  rintro (hclamped | hclamped)
  · linarith
  · linarith

lemma IsClamped.ne_zero {z : ℝ} (h : IsClamped z) : z ≠ 0 := by
  rintro rfl
  exact not_isClamped_of_abs_le (by norm_num) h

/-! ### The likelihood of one point -/

/-- The logarithm of the probability that a score gives to a label. -/
noncomputable def likelihoodAt (y z : ℝ) : ℝ :=
  y * Real.log (max 1e-10 (min (1 - 1e-10) (Logistic.sigmoid z))) +
    (1 - y) * Real.log (1 - max 1e-10 (min (1 - 1e-10) (Logistic.sigmoid z)))

lemma logLikelihood_ofFn (x w : Fin 3 → ℝ) (y : ℝ) :
    logLikelihood (List.ofFn w) ⟨List.ofFn x, y⟩ = likelihoodAt y (x ⬝ᵥ w) := by
  have hrange : (1e-10 : ℝ) ≤ 1 - 1e-10 := by norm_num
  rw [likelihoodAt, ← clamp_eq hrange, ← Sample.score_ofFn x w y]
  rfl

/-- Below the range all scores count the same. -/
lemma likelihoodAt_eq_of_le {x z : ℝ} (y : ℝ) (hx : Logistic.sigmoid x ≤ 1e-10)
    (hz : Logistic.sigmoid z ≤ 1e-10) : likelihoodAt y x = likelihoodAt y z := by
  rw [likelihoodAt, likelihoodAt, max_eq_left ((min_le_right _ _).trans hx),
    max_eq_left ((min_le_right _ _).trans hz)]

lemma likelihoodAt_eq_of_ge {x z : ℝ} (y : ℝ) (hx : 1 - 1e-10 ≤ Logistic.sigmoid x)
    (hz : 1 - 1e-10 ≤ Logistic.sigmoid z) : likelihoodAt y x = likelihoodAt y z := by
  rw [likelihoodAt, likelihoodAt, min_eq_left hx, min_eq_left hz]

lemma likelihoodAt_of_not_isClamped {z : ℝ} (y : ℝ) (h : ¬ IsClamped z) :
    likelihoodAt y z =
      y * Real.log (Real.sigmoid z) + (1 - y) * Real.log (1 - Real.sigmoid z) := by
  obtain ⟨hlow, hhigh⟩ := not_or.mp h
  have hclip : |z| ≤ 500 := (abs_lt_of_not_isClamped h).le.trans (by norm_num)
  rw [likelihoodAt, min_eq_right (not_le.mp hhigh).le, max_eq_right (not_le.mp hlow).le,
    sigmoid_eq_of_abs_le hclip]

/-- The slope of the likelihood: what the gradient takes it for, or zero where it is constant. -/
noncomputable def slopeAt (y z : ℝ) : ℝ :=
  if IsClamped z then 0 else y - Logistic.sigmoid z

lemma isOpen_not_isClamped : IsOpen {z : ℝ | ¬ IsClamped z} := by
  have hrange : {z : ℝ | ¬ IsClamped z} =
      Set.preimage Logistic.sigmoid (Set.Ioo 1e-10 (1 - 1e-10)) := by
    ext z
    simp only [IsClamped, Set.mem_ofPred_eq, not_or, not_le, Set.mem_preimage, Set.mem_Ioo]
  rw [hrange]
  exact isOpen_Ioo.preimage continuous_sigmoid

lemma hasDerivAt_likelihoodAt {z : ℝ} (y : ℝ) (h : ¬ IsClamped z) :
    HasDerivAt (likelihoodAt y) (slopeAt y z) z := by
  have hclip : |z| ≤ 500 := (abs_lt_of_not_isClamped h).le.trans (by norm_num)
  have hsigmoid := Real.hasDerivAt_sigmoid z
  have hpos := Real.sigmoid_pos z
  have hrest : 0 < 1 - Real.sigmoid z := sub_pos.mpr (Real.sigmoid_lt_one z)
  have hone := (hsigmoid.log hpos.ne').const_mul y
  have hzero := ((hsigmoid.const_sub 1).log hrest.ne').const_mul (1 - y)
  have hslope : y * (Real.sigmoid z * (1 - Real.sigmoid z) / Real.sigmoid z) +
      (1 - y) * (-(Real.sigmoid z * (1 - Real.sigmoid z)) / (1 - Real.sigmoid z)) =
        slopeAt y z := by
    rw [slopeAt, if_neg h, sigmoid_eq_of_abs_le hclip]
    field_simp
    ring
  refine ((hone.add hzero).congr_deriv hslope).congr_of_eventuallyEq ?_
  filter_upwards [isOpen_not_isClamped.mem_nhds h] with x hx
  exact likelihoodAt_of_not_isClamped y hx

lemma hasDerivAt_likelihoodAt_of_isClamped {z : ℝ} (y : ℝ) (h : IsClamped z)
    (hedge : ¬ IsOnEdge z) : HasDerivAt (likelihoodAt y) (slopeAt y z) z := by
  obtain ⟨hlow, hhigh⟩ := not_or.mp hedge
  have hcontinuous : ContinuousAt Logistic.sigmoid z := continuous_sigmoid.continuousAt
  rw [slopeAt, if_pos h]
  refine (hasDerivAt_const z (likelihoodAt y z)).congr_of_eventuallyEq ?_
  rcases h with h | h
  · filter_upwards [hcontinuous.eventually_lt_const (h.lt_of_ne hlow)] with x hx
    exact likelihoodAt_eq_of_le y hx.le h
  · filter_upwards [hcontinuous.eventually_const_lt (h.lt_of_ne (Ne.symm hhigh))] with x hx
    exact likelihoodAt_eq_of_ge y hx.le h

/-- A score that moves away from zero stays out of the range. -/
lemma likelihoodAt_outward {z x : ℝ} (y : ℝ) (h : IsClamped z) (hout : 0 ≤ z * (x - z)) :
    likelihoodAt y x = likelihoodAt y z := by
  have hhalf := sigmoid_zero
  rcases h with h | h
  · have hneg : z < 0 := by
      by_contra hnot
      have hmono := sigmoid_mono (not_lt.mp hnot)
      norm_num at h
      linarith
    have hx : x ≤ z := by nlinarith
    exact likelihoodAt_eq_of_le y ((sigmoid_mono hx).trans h) h
  · have hpos : 0 < z := by
      by_contra hnot
      have hmono := sigmoid_mono (not_lt.mp hnot)
      norm_num at h
      linarith
    have hx : z ≤ x := by nlinarith
    exact likelihoodAt_eq_of_ge y (h.trans (sigmoid_mono hx)) h

end Logistic

end Downhill
