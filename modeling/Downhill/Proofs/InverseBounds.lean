import Downhill.Proofs.PositiveMemory

/-!
# Bounds for the inverse Hessian

If the lengths of the steps and of the changes of the gradient are bounded against the curvature of
their pairs, one pair at most halves the lower bound of an inverse Hessian and multiplies the upper
bound by a fixed factor. So all memories with room for `limit` such pairs share a lower and an upper
bound, whichever pairs they hold.
-/

namespace Downhill
open Matrix

variable {n : ℕ} {low high a b : ℝ} {H : Matrix (Fin n) (Fin n) ℝ}

/-- A symmetric matrix whose form lies between two multiples of the square. -/
structure IsBetween (low high : ℝ) (H : Matrix (Fin n) (Fin n) ℝ) : Prop where
  symmetric : H.IsSymm
  lower : ∀ v : Fin n → ℝ, low * (v ⬝ᵥ v) ≤ v ⬝ᵥ H *ᵥ v
  upper : ∀ v : Fin n → ℝ, v ⬝ᵥ H *ᵥ v ≤ high * (v ⬝ᵥ v)

namespace IsBetween

lemma mono (h : IsBetween low high H) {low' high' : ℝ} (hlow : low' ≤ low) (hhigh : high ≤ high') :
    IsBetween low' high' H := by
  refine ⟨h.symmetric, fun v => ?_, fun v => ?_⟩
  · exact (mul_le_mul_of_nonneg_right hlow (dotProduct_self_nonneg v)).trans (h.lower v)
  · exact (h.upper v).trans (mul_le_mul_of_nonneg_right hhigh (dotProduct_self_nonneg v))

lemma smul_one {gamma : ℝ} :
    IsBetween gamma gamma (gamma • (1 : Matrix (Fin n) (Fin n) ℝ)) := by
  have hform : ∀ v : Fin n → ℝ, v ⬝ᵥ (gamma • (1 : Matrix (Fin n) (Fin n) ℝ)) *ᵥ v =
      gamma * (v ⬝ᵥ v) := by
    intro v
    rw [smul_mulVec, one_mulVec, dotProduct_smul, smul_eq_mul]
  exact ⟨isSymm_one.smul gamma, fun v => (hform v).ge, fun v => (hform v).le⟩

lemma nonneg (h : IsBetween low high H) (hlow : 0 ≤ low) (v : Fin n → ℝ) : 0 ≤ v ⬝ᵥ H *ᵥ v :=
  (mul_nonneg hlow (dotProduct_self_nonneg v)).trans (h.lower v)

/-- The square of a product is bounded by the form itself. -/
lemma mulVec_sq_le (h : IsBetween low high H) (hlow : 0 ≤ low) (hhigh : 0 < high)
    (v : Fin n → ℝ) : H *ᵥ v ⬝ᵥ H *ᵥ v ≤ high * (v ⬝ᵥ H *ᵥ v) := by
  -- The form is not negative at the distance of the product from `high • v`.
  have hdistance := h.nonneg hlow (high • v - H *ᵥ v)
  have hproduct := h.upper (H *ᵥ v)
  have hexpand : (high • v - H *ᵥ v) ⬝ᵥ H *ᵥ (high • v - H *ᵥ v) =
      high * (high * (v ⬝ᵥ H *ᵥ v) - 2 * (H *ᵥ v ⬝ᵥ H *ᵥ v)) + H *ᵥ v ⬝ᵥ H *ᵥ (H *ᵥ v) := by
    rw [mulVec_sub, mulVec_smul, sub_dotProduct, dotProduct_sub, dotProduct_sub, smul_dotProduct,
      smul_dotProduct, dotProduct_smul, dotProduct_smul,
      ← dotProduct_mulVec_comm h.symmetric v (H *ᵥ v)]
    simp only [smul_eq_mul]
    ring
  have hscaled : high * (H *ᵥ v ⬝ᵥ H *ᵥ v) ≤ high * (high * (v ⬝ᵥ H *ᵥ v)) := by
    linarith
  exact le_of_mul_le_mul_left hscaled hhigh

end IsBetween

/-- A pair of positive curvature that bounds the squares of the step and of the change of the
gradient. -/
structure CurvaturePair.IsTame (n : ℕ) (a b : ℝ) (pair : CurvaturePair ℝ) : Prop
    extends pair.IsCurved n where
  step_le : dot pair.s pair.s ≤ a * dot pair.s pair.y
  change_le : dot pair.y pair.y ≤ b * dot pair.s pair.y

namespace CurvaturePair.IsTame

variable {pair : CurvaturePair ℝ}

lemma rho_step_le (h : pair.IsTame n a b) :
    pair.rho * (coords n pair.s ⬝ᵥ coords n pair.s) ≤ a := by
  have hstep := h.step_le
  rw [dot_eq_coords h.dim.1 h.dim.1] at hstep
  rw [h.positive.2, one_div_mul_eq_div]
  exact (div_le_iff₀ h.positive.1).mpr hstep

lemma rho_change_le (h : pair.IsTame n a b) :
    pair.rho * (coords n pair.y ⬝ᵥ coords n pair.y) ≤ b := by
  have hchange := h.change_le
  rw [dot_eq_coords h.dim.2 h.dim.2] at hchange
  rw [h.positive.2, one_div_mul_eq_div]
  exact (div_le_iff₀ h.positive.1).mpr hchange

lemma square_le (h : pair.IsTame n a b) (v : Fin n → ℝ) :
    pair.rho * (coords n pair.s ⬝ᵥ v) ^ 2 ≤ a * (v ⬝ᵥ v) :=
  calc pair.rho * (coords n pair.s ⬝ᵥ v) ^ 2
    _ ≤ pair.rho * ((coords n pair.s ⬝ᵥ coords n pair.s) * (v ⬝ᵥ v)) :=
      mul_le_mul_of_nonneg_left (dotProduct_sq_le _ _) h.positive.rho_pos.le
    _ = pair.rho * (coords n pair.s ⬝ᵥ coords n pair.s) * (v ⬝ᵥ v) := (mul_assoc ..).symm
    _ ≤ a * (v ⬝ᵥ v) := mul_le_mul_of_nonneg_right h.rho_step_le (dotProduct_self_nonneg v)

lemma square_nonneg (h : pair.IsTame n a b) (v : Fin n → ℝ) :
    0 ≤ pair.rho * (coords n pair.s ⬝ᵥ v) ^ 2 :=
  mul_nonneg h.positive.rho_pos.le (sq_nonneg _)

/-- What an update takes out of a vector is bounded by the square that it adds. -/
lemma shift_sq_le (h : pair.IsTame n a b) (v : Fin n → ℝ) :
    let shift := (pair.rho * (coords n pair.s ⬝ᵥ v)) • coords n pair.y
    shift ⬝ᵥ shift ≤ b * (pair.rho * (coords n pair.s ⬝ᵥ v) ^ 2) := by
  have hshift := mul_le_mul_of_nonneg_right h.rho_change_le (h.square_nonneg v)
  simp only [smul_dotProduct, dotProduct_smul, smul_eq_mul]
  linarith

lemma rest_sq_le (h : pair.IsTame n a b) (hb : 0 < b) (v : Fin n → ℝ) :
    let rest := v - (pair.rho * (coords n pair.s ⬝ᵥ v)) • coords n pair.y
    rest ⬝ᵥ rest ≤ (2 + 2 * a * b) * (v ⬝ᵥ v) := by
  have hshift := h.shift_sq_le v
  have hsquare := mul_le_mul_of_nonneg_left (h.square_le v) hb.le
  have hrest := dotProduct_self_add_le v (-((pair.rho * (coords n pair.s ⬝ᵥ v)) • coords n pair.y))
  rw [← sub_eq_add_neg, neg_dotProduct_neg] at hrest
  dsimp only at hshift ⊢
  linarith

lemma sq_le_rest (h : pair.IsTame n a b) (v : Fin n → ℝ) :
    let rest := v - (pair.rho * (coords n pair.s ⬝ᵥ v)) • coords n pair.y
    v ⬝ᵥ v ≤ 2 * (rest ⬝ᵥ rest) + 2 * (b * (pair.rho * (coords n pair.s ⬝ᵥ v) ^ 2)) := by
  have hshift := h.shift_sq_le v
  have hrest := dotProduct_self_add_le
    (v - (pair.rho * (coords n pair.s ⬝ᵥ v)) • coords n pair.y)
    ((pair.rho * (coords n pair.s ⬝ᵥ v)) • coords n pair.y)
  rw [sub_add_cancel] at hrest
  dsimp only at hshift ⊢
  linarith

lemma initialScaling_bounds (h : pair.IsTame n a b) (hb : 0 < b) :
    1 / b ≤ initialScaling n pair ∧ initialScaling n pair ≤ a := by
  have hsy := h.positive.1
  have hyy := h.change_pos
  have hstep := h.step_le
  have hchange := h.change_le
  have hcauchy := dotProduct_sq_le (coords n pair.s) (coords n pair.y)
  rw [dot_eq_coords h.dim.2 h.dim.2] at hyy hchange
  rw [dot_eq_coords h.dim.1 h.dim.1] at hstep
  rw [h.dim.dot_eq] at hsy hstep hchange
  have hscaling : initialScaling n pair = coords n pair.s ⬝ᵥ coords n pair.y /
      coords n pair.y ⬝ᵥ coords n pair.y := if_pos hyy
  rw [hscaling, div_le_div_iff₀ hb hyy, div_le_iff₀ hyy]
  constructor
  · linarith
  · refine le_of_mul_le_mul_left ?_ hsy
    calc (coords n pair.s ⬝ᵥ coords n pair.y) * (coords n pair.s ⬝ᵥ coords n pair.y)
      _ = (coords n pair.s ⬝ᵥ coords n pair.y) ^ 2 := (sq _).symm
      _ ≤ (coords n pair.s ⬝ᵥ coords n pair.s) * (coords n pair.y ⬝ᵥ coords n pair.y) := hcauchy
      _ ≤ a * (coords n pair.s ⬝ᵥ coords n pair.y) * (coords n pair.y ⬝ᵥ coords n pair.y) :=
        mul_le_mul_of_nonneg_right hstep hyy.le
      _ = _ := by ring

end CurvaturePair.IsTame

/-- An update by a tame pair halves the lower bound at most and multiplies the upper bound. -/
lemma IsBetween.bfgsUpdate (h : IsBetween low high H) {pair : CurvaturePair ℝ}
    (hpair : pair.IsTame n a b) (hlow : 0 < low) (hb : 0 < b) (hlow_b : low * b ≤ 1)
    (hhigh : 0 ≤ high) (ha_high : a ≤ high) :
    IsBetween (low / 2) (high * (3 + 2 * a * b)) (bfgsUpdate n pair H) := by
  refine ⟨isSymm_bfgsUpdate pair h.symmetric, fun v => ?_, fun v => ?_⟩
  · have hsq := mul_le_mul_of_nonneg_left (hpair.sq_le_rest v) (half_pos hlow).le
    have hsquare := mul_le_of_le_one_left (hpair.square_nonneg v) hlow_b
    have hform := h.lower (v - (pair.rho * (coords n pair.s ⬝ᵥ v)) • coords n pair.y)
    rw [form_bfgsUpdate]
    linarith
  · have hrest := mul_le_mul_of_nonneg_left (hpair.rest_sq_le hb v) hhigh
    have hsquare := hpair.square_le v
    have hscaled := mul_le_mul_of_nonneg_right ha_high (dotProduct_self_nonneg v)
    have hform := h.upper (v - (pair.rho * (coords n pair.s ⬝ᵥ v)) • coords n pair.y)
    rw [form_bfgsUpdate]
    linarith

lemma isBetween_foldr (ha : 0 < a) (hb : 0 < b) (hH : IsBetween (1 / b) a H)
    (pairs : List (CurvaturePair ℝ)) (hpairs : ∀ pair ∈ pairs, pair.IsTame n a b) :
    IsBetween (1 / b / 2 ^ pairs.length) (a * (3 + 2 * a * b) ^ pairs.length)
      (pairs.foldr (bfgsUpdate n) H) := by
  induction pairs with
  | nil => simpa using hH
  | cons pair older ih =>
    have hab : 0 < a * b := mul_pos ha hb
    have hpower : 1 ≤ (3 + 2 * a * b) ^ older.length := one_le_pow₀ (by linarith)
    have htwo : 1 ≤ (2 : ℝ) ^ older.length := one_le_pow₀ one_le_two
    -- The bounds only move apart, so they stay on their sides of `1 / b` and `a`.
    have hlow_b : 1 / b / 2 ^ older.length * b ≤ 1 := by
      rw [div_div, one_div_mul_eq_div, div_mul_eq_div_div, div_self hb.ne']
      exact div_le_self zero_le_one htwo
    have hhigh : a ≤ a * (3 + 2 * a * b) ^ older.length := le_mul_of_one_le_right ha.le hpower
    have hrest := ih fun p hp => hpairs p (List.mem_cons_of_mem _ hp)
    rw [List.foldr_cons, List.length_cons, pow_succ, pow_succ, ← div_div, ← mul_assoc]
    exact hrest.bfgsUpdate (hpairs pair List.mem_cons_self) (by positivity) hb hlow_b
      (ha.le.trans hhigh) hhigh

/-- Bounds that the matrices of all headings from at most `limit` tame pairs have in common. -/
structure BoundHeadings (n : ℕ) (a b : ℝ) (limit : ℕ) (low high : ℝ) : Prop where
  low_pos : 0 < low
  high_pos : 0 < high
  heading : ∀ pairs : List (CurvaturePair ℝ), pairs.length ≤ limit →
    (∀ pair ∈ pairs, pair.IsTame n a b) → ∀ g : Fin n → ℝ,
      ∃ H : Matrix (Fin n) (Fin n) ℝ, IsBetween low high H ∧
        (lbfgsHeading pairs (List.ofFn g)).direction = List.ofFn (-(H *ᵥ g))

lemma exists_boundHeadings (n : ℕ) (ha : 0 < a) (hb : 0 < b) (limit : ℕ) :
    ∃ low high, BoundHeadings n a b limit low high := by
  have hab : 0 < a * b := mul_pos ha hb
  refine ⟨min 1 (1 / b / 2 ^ limit), max 1 (a * (3 + 2 * a * b) ^ limit),
    lt_min one_pos (by positivity), one_pos.trans_le (le_max_left _ _), ?_⟩
  intro pairs hlength hpairs g
  cases pairs with
  | nil =>
    refine ⟨(1 : ℝ) • 1, IsBetween.smul_one.mono (min_le_left _ _) (le_max_left _ _), ?_⟩
    rw [one_smul, one_mulVec, ← neg_ofFn]
    rfl
  | cons newest older =>
    have hnewest := hpairs newest List.mem_cons_self
    obtain ⟨hscaling_low, hscaling_high⟩ := hnewest.initialScaling_bounds hb
    have hbetween := isBetween_foldr ha hb (IsBetween.smul_one.mono hscaling_low hscaling_high)
      (newest :: older) hpairs
    rw [← inverseHessian_eq_foldr] at hbetween
    have hlow : 1 / b / 2 ^ limit ≤ 1 / b / 2 ^ (newest :: older).length := by
      gcongr
      exact one_le_two
    have hhigh : a * (3 + 2 * a * b) ^ (newest :: older).length ≤
        a * (3 + 2 * a * b) ^ limit := by
      gcongr
      linarith
    refine ⟨inverseHessian n newest older, hbetween.mono ((min_le_right _ _).trans hlow)
      (hhigh.trans (le_max_right _ _)), ?_⟩
    rw [← neg_ofFn, ← recursion_eq_mulVec fun pair hpair => (hpairs pair hpair).dim]
    rfl

end Downhill
