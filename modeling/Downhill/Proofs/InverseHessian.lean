import Mathlib.LinearAlgebra.Matrix.Symmetric
import Mathlib.Tactic.Linarith
import Downhill.Method.TwoLoop
import Downhill.Proofs.RealMatrices

/-!
# The two-loop recursion as a matrix

Over the real numbers the two loops multiply a gradient by the inverse Hessian that starts as a
multiple of the identity and takes in the curvature pairs from the oldest to the newest. Each loop
nests around the loops over the older pairs, so one pair is one factor on either side of their
matrix. For pairs of positive curvature that matrix is symmetric and positive definite, and it sends
the newest change of the gradient to the newest step.
-/

namespace Downhill
open Matrix

variable {n : ℕ}

/-- An inverse Hessian after one more curvature pair. -/
noncomputable def bfgsUpdate (n : ℕ) (pair : CurvaturePair ℝ) (H : Matrix (Fin n) (Fin n) ℝ) :
    Matrix (Fin n) (Fin n) ℝ :=
  let s := coords n pair.s
  let y := coords n pair.y
  (1 - pair.rho • vecMulVec s y) * H * (1 - pair.rho • vecMulVec y s) + pair.rho • vecMulVec s s

/-- The multiple of the identity that the inverse Hessian starts from. -/
noncomputable def initialScaling (n : ℕ) (newest : CurvaturePair ℝ) : ℝ :=
  let s := coords n newest.s
  let y := coords n newest.y
  if 0 < y ⬝ᵥ y then s ⬝ᵥ y / y ⬝ᵥ y else 1

/-- The inverse Hessian of all pairs, which are taken in from the oldest to the newest. `older` has
the newest of its pairs first. -/
noncomputable def inverseHessian (n : ℕ) (newest : CurvaturePair ℝ)
    (older : List (CurvaturePair ℝ)) : Matrix (Fin n) (Fin n) ℝ :=
  (newest :: older).reverse.foldl (fun H pair => bfgsUpdate n pair H)
    (initialScaling n newest • (1 : Matrix (Fin n) (Fin n) ℝ))

def CurvaturePair.HasDim (n : ℕ) (pair : CurvaturePair ℝ) : Prop :=
  pair.s.length = n ∧ pair.y.length = n

/-- The step has positive curvature, and `rho` is the inverse of it. -/
def CurvaturePair.IsPositive (pair : CurvaturePair ℝ) : Prop :=
  0 < dot pair.s pair.y ∧ pair.rho = 1 / dot pair.s pair.y

lemma CurvaturePair.HasDim.dot_eq {pair : CurvaturePair ℝ} (h : pair.HasDim n) :
    dot pair.s pair.y = coords n pair.s ⬝ᵥ coords n pair.y :=
  dot_eq_coords h.1 h.2

/-- What a pair does on the way into the loops over the older pairs and on the way out. -/
lemma bfgsUpdate_mulVec (pair : CurvaturePair ℝ) (H : Matrix (Fin n) (Fin n) ℝ) (v : Fin n → ℝ) :
    bfgsUpdate n pair H *ᵥ v =
      let s := coords n pair.s
      let y := coords n pair.y
      let alpha := pair.rho * (s ⬝ᵥ v)
      let r := H *ᵥ (v - alpha • y)
      r + (alpha - pair.rho * (y ⬝ᵥ r)) • s := by
  dsimp only
  have hright : (1 - pair.rho • vecMulVec (coords n pair.y) (coords n pair.s)) *ᵥ v =
      v - (pair.rho * (coords n pair.s ⬝ᵥ v)) • coords n pair.y := by
    rw [sub_mulVec, one_mulVec, smul_mulVec, vecMulVec_mulVec, op_smul_eq_smul, smul_smul]
  simp only [bfgsUpdate]
  rw [add_mulVec, ← mulVec_mulVec, ← mulVec_mulVec, hright, sub_mulVec, one_mulVec, smul_mulVec,
    smul_mulVec, vecMulVec_mulVec, vecMulVec_mulVec, op_smul_eq_smul, op_smul_eq_smul, smul_smul,
    smul_smul, sub_smul]
  abel

lemma gamma_eq {newest : CurvaturePair ℝ} (h : newest.HasDim n) :
    TwoLoop.gamma newest = initialScaling n newest := by
  simp only [TwoLoop.gamma, initialScaling, dot_eq_coords h.2 h.2, h.dot_eq]

lemma loops_eq_mulVec (gamma : ℝ) (pairs : List (CurvaturePair ℝ))
    (hdim : ∀ pair ∈ pairs, pair.HasDim n) (v : Fin n → ℝ) :
    (TwoLoop.loops gamma pairs (List.ofFn v)).1 =
      List.ofFn (pairs.foldr (bfgsUpdate n) (gamma • (1 : Matrix (Fin n) (Fin n) ℝ)) *ᵥ v) := by
  induction pairs generalizing v with
  | nil =>
    rw [List.foldr_nil, smul_mulVec, one_mulVec]
    exact List.map_ofFn
  | cons pair older ih =>
    have hpair : pair.HasDim n := hdim pair (by simp)
    have hs := ofFn_coords hpair.1
    have hy := ofFn_coords hpair.2
    have hdot : dot pair.s (List.ofFn v) = coords n pair.s ⬝ᵥ v := by
      conv_lhs => rw [← hs, dot_ofFn]
    -- The vector that the first loop hands on to the older pairs.
    have hq : List.zipWith (fun qj yj => qj - pair.rho * dot pair.s (List.ofFn v) * yj)
        (List.ofFn v) pair.y =
          List.ofFn (v - (pair.rho * (coords n pair.s ⬝ᵥ v)) • coords n pair.y) := by
      conv_lhs => rw [← hy, zipWith_ofFn, hdot]
      rfl
    have hrec := ih (fun p hp => hdim p (List.mem_cons_of_mem _ hp))
      (v - (pair.rho * (coords n pair.s ⬝ᵥ v)) • coords n pair.y)
    simp only [TwoLoop.loops, hq, hrec]
    rw [List.foldr_cons, bfgsUpdate_mulVec, ← hs, ← hy, zipWith_ofFn, dot_ofFn, dot_ofFn]
    simp only [coords_ofFn]
    rfl

/-- The form of an updated matrix is that of the old one at a shifted vector, and a square. -/
lemma form_bfgsUpdate (pair : CurvaturePair ℝ) (H : Matrix (Fin n) (Fin n) ℝ) (v : Fin n → ℝ) :
    let q := v - (pair.rho * (coords n pair.s ⬝ᵥ v)) • coords n pair.y
    v ⬝ᵥ bfgsUpdate n pair H *ᵥ v =
      q ⬝ᵥ H *ᵥ q + pair.rho * (coords n pair.s ⬝ᵥ v) ^ 2 := by
  dsimp only
  rw [bfgsUpdate_mulVec]
  dsimp only
  rw [dotProduct_add, dotProduct_smul, sub_dotProduct, smul_dotProduct,
    dotProduct_comm v (coords n pair.s)]
  simp only [smul_eq_mul]
  ring

lemma isSymm_bfgsUpdate (pair : CurvaturePair ℝ) {H : Matrix (Fin n) (Fin n) ℝ} (hH : H.IsSymm) :
    (bfgsUpdate n pair H).IsSymm := by
  simp only [bfgsUpdate, Matrix.IsSymm, transpose_add, transpose_mul, transpose_sub, transpose_one,
    transpose_smul, transpose_vecMulVec, hH.eq, Matrix.mul_assoc]

structure IsPositiveForm (H : Matrix (Fin n) (Fin n) ℝ) : Prop where
  symmetric : H.IsSymm
  pos : ∀ v : Fin n → ℝ, v ≠ 0 → 0 < v ⬝ᵥ H *ᵥ v

namespace IsPositiveForm

variable {H : Matrix (Fin n) (Fin n) ℝ}

lemma nonneg (h : IsPositiveForm H) (v : Fin n → ℝ) : 0 ≤ v ⬝ᵥ H *ᵥ v := by
  by_cases hv : v = 0
  · simp [hv]
  · exact (h.pos v hv).le

lemma smul_one {gamma : ℝ} (h : 0 < gamma) :
    IsPositiveForm (gamma • (1 : Matrix (Fin n) (Fin n) ℝ)) := by
  refine ⟨Matrix.isSymm_one.smul gamma, fun v hv => ?_⟩
  rw [smul_mulVec, one_mulVec, dotProduct_smul, smul_eq_mul]
  exact mul_pos h (dotProduct_self_pos hv)

lemma bfgsUpdate (h : IsPositiveForm H) {pair : CurvaturePair ℝ} (hrho : 0 < pair.rho) :
    IsPositiveForm (bfgsUpdate n pair H) := by
  refine ⟨isSymm_bfgsUpdate pair h.symmetric, fun v hv => ?_⟩
  rw [form_bfgsUpdate]
  by_cases hs : coords n pair.s ⬝ᵥ v = 0
  · simpa [hs] using h.pos v hv
  · exact add_pos_of_nonneg_of_pos (h.nonneg _) (mul_pos hrho (by positivity))

end IsPositiveForm

/-- A pair of positive curvature makes the updated matrix satisfy the secant equation. -/
lemma bfgsUpdate_secant (pair : CurvaturePair ℝ) (H : Matrix (Fin n) (Fin n) ℝ)
    (hrho : pair.rho * (coords n pair.s ⬝ᵥ coords n pair.y) = 1) :
    bfgsUpdate n pair H *ᵥ coords n pair.y = coords n pair.s := by
  rw [bfgsUpdate_mulVec]
  simp [hrho]

namespace CurvaturePair

variable {pair : CurvaturePair ℝ}

lemma IsPositive.rho_pos (h : pair.IsPositive) : 0 < pair.rho := by
  rw [h.2]
  exact one_div_pos.mpr h.1

lemma IsPositive.rho_mul (h : pair.IsPositive) (hdim : pair.HasDim n) :
    pair.rho * (coords n pair.s ⬝ᵥ coords n pair.y) = 1 := by
  rw [h.2, ← hdim.dot_eq]
  exact one_div_mul_cancel h.1.ne'

lemma IsPositive.initialScaling_pos (h : pair.IsPositive) (hdim : pair.HasDim n) :
    0 < initialScaling n pair := by
  have hsy := h.1
  rw [hdim.dot_eq] at hsy
  unfold initialScaling
  dsimp only
  split_ifs with hyy
  · exact div_pos hsy hyy
  · exact one_pos

end CurvaturePair

lemma inverseHessian_eq_foldr (newest : CurvaturePair ℝ) (older : List (CurvaturePair ℝ)) :
    inverseHessian n newest older =
      (newest :: older).foldr (bfgsUpdate n)
        (initialScaling n newest • (1 : Matrix (Fin n) (Fin n) ℝ)) :=
  List.foldl_reverse

lemma isPositiveForm_foldr (pairs : List (CurvaturePair ℝ)) {H : Matrix (Fin n) (Fin n) ℝ}
    (hH : IsPositiveForm H) (hpos : ∀ pair ∈ pairs, pair.IsPositive) :
    IsPositiveForm (pairs.foldr (bfgsUpdate n) H) := by
  induction pairs with
  | nil => exact hH
  | cons pair older ih =>
    exact (ih fun p hp => hpos p (List.mem_cons_of_mem _ hp)).bfgsUpdate
      (hpos pair List.mem_cons_self).rho_pos

lemma isPositiveForm_inverseHessian {newest : CurvaturePair ℝ} {older : List (CurvaturePair ℝ)}
    (hdim : newest.HasDim n) (hpos : ∀ pair ∈ newest :: older, pair.IsPositive) :
    IsPositiveForm (inverseHessian n newest older) := by
  have hscaling := (hpos newest List.mem_cons_self).initialScaling_pos hdim
  rw [inverseHessian_eq_foldr]
  exact isPositiveForm_foldr _ (.smul_one hscaling) hpos

lemma inverseHessian_secant {newest : CurvaturePair ℝ} (older : List (CurvaturePair ℝ))
    (hdim : newest.HasDim n) (hpos : newest.IsPositive) :
    inverseHessian n newest older *ᵥ coords n newest.y = coords n newest.s := by
  rw [inverseHessian_eq_foldr]
  exact bfgsUpdate_secant newest _ (hpos.rho_mul hdim)

lemma IsPositiveForm.dotProduct_mulVec_comm {H : Matrix (Fin n) (Fin n) ℝ} (h : IsPositiveForm H)
    (x z : Fin n → ℝ) : H *ᵥ x ⬝ᵥ z = x ⬝ᵥ H *ᵥ z :=
  Downhill.dotProduct_mulVec_comm h.symmetric x z

lemma recursion_eq_mulVec {newest : CurvaturePair ℝ} {older : List (CurvaturePair ℝ)}
    (hdim : ∀ pair ∈ newest :: older, pair.HasDim n) (g : Fin n → ℝ) :
    (TwoLoop.recursion (List.ofFn g) newest older).1 =
      List.ofFn (inverseHessian n newest older *ᵥ g) := by
  rw [inverseHessian_eq_foldr, ← gamma_eq (hdim newest List.mem_cons_self),
    ← loops_eq_mulVec _ _ hdim]
  rfl

/-- The two-loop recursion multiplies by the inverse Hessian of its pairs. If they all have positive
curvature, this is linear, symmetric and positive definite, and the newest change of the gradient
goes to the newest step. -/
theorem recursion_is_inverseHessian (n : ℕ) (newest : CurvaturePair ℝ)
    (older : List (CurvaturePair ℝ)) (hdim : ∀ pair ∈ newest :: older, pair.HasDim n) :
    let product := fun g => (TwoLoop.recursion g newest older).1
    (∀ g, g.length = n → product g = List.ofFn (inverseHessian n newest older *ᵥ coords n g)) ∧
    ((∀ pair ∈ newest :: older, pair.IsPositive) →
      (∀ a b u v, u.length = n → v.length = n →
        product (along (scale a u) b v) = along (scale a (product u)) b (product v)) ∧
      (∀ u v, u.length = n → v.length = n → dot (product u) v = dot u (product v)) ∧
      (∀ u, u.length = n → (∃ x ∈ u, x ≠ 0) → 0 < dot u (product u)) ∧
      product newest.y = newest.s) := by
  intro product
  have hproduct : ∀ x : Fin n → ℝ,
      product (List.ofFn x) = List.ofFn (inverseHessian n newest older *ᵥ x) :=
    recursion_eq_mulVec hdim
  have hnewest := hdim newest List.mem_cons_self
  refine ⟨?_, fun hpos => ?_⟩
  · intro g hg
    obtain ⟨x, rfl⟩ := exists_eq_ofFn hg
    rw [hproduct, coords_ofFn]
  have hform := isPositiveForm_inverseHessian hnewest hpos
  refine ⟨?_, ?_, ?_, ?_⟩
  · intro a b u v hu hv
    obtain ⟨x, rfl⟩ := exists_eq_ofFn hu
    obtain ⟨z, rfl⟩ := exists_eq_ofFn hv
    rw [scale_ofFn, along_ofFn, hproduct, hproduct, hproduct, scale_ofFn, along_ofFn,
      mulVec_add, mulVec_smul, mulVec_smul]
  · intro u v hu hv
    obtain ⟨x, rfl⟩ := exists_eq_ofFn hu
    obtain ⟨z, rfl⟩ := exists_eq_ofFn hv
    rw [hproduct, hproduct, dot_ofFn, dot_ofFn, hform.dotProduct_mulVec_comm]
  · rintro u hu ⟨a, ha, hne⟩
    obtain ⟨x, rfl⟩ := exists_eq_ofFn hu
    rw [hproduct, dot_ofFn]
    apply hform.pos
    rintro rfl
    obtain ⟨i, hi⟩ := List.mem_ofFn.mp ha
    exact hne hi.symm
  · have hsecant := inverseHessian_secant older hnewest (hpos newest List.mem_cons_self)
    have hy := hproduct (coords n newest.y)
    rwa [hsecant, ofFn_coords hnewest.1, ofFn_coords hnewest.2] at hy

/-- Two steps on the function `x² / 2 + 2 y²`, the newer one not along an axis. -/
noncomputable def diagonalStep : CurvaturePair ℝ := ⟨[1, 1], [1, 4], 1 / 5⟩

noncomputable def axisStep : CurvaturePair ℝ := ⟨[1, 0], [1, 0], 1⟩

theorem two_steps_product :
    (∀ pair ∈ [diagonalStep, axisStep], pair.HasDim 2 ∧ pair.IsPositive) ∧
      (TwoLoop.recursion [1, 4] diagonalStep [axisStep]).1 = [1, 1] ∧
      0 < dot [3, -1] (TwoLoop.recursion [3, -1] diagonalStep [axisStep]).1 := by
  have hdim : ∀ pair ∈ [diagonalStep, axisStep], pair.HasDim 2 := by
    simp [diagonalStep, axisStep, CurvaturePair.HasDim]
  have hpositive : ∀ pair ∈ [diagonalStep, axisStep], pair.IsPositive := by
    have hdiagonal : dot diagonalStep.s diagonalStep.y = 5 := by
      norm_num [diagonalStep, dot]
    have haxis : dot axisStep.s axisStep.y = 1 := by
      norm_num [axisStep, dot]
    intro pair hpair
    rcases List.mem_pair.mp hpair with rfl | rfl
    · exact ⟨by rw [hdiagonal]; norm_num, by rw [hdiagonal]; rfl⟩
    · exact ⟨by rw [haxis]; norm_num, by rw [haxis]; norm_num [axisStep]⟩
  obtain ⟨-, hconsequences⟩ := recursion_is_inverseHessian 2 diagonalStep [axisStep] hdim
  obtain ⟨-, -, hdefinite, hsecant⟩ := hconsequences hpositive
  refine ⟨fun pair hpair => ⟨hdim pair hpair, hpositive pair hpair⟩, hsecant, ?_⟩
  exact hdefinite [3, -1] rfl ⟨3, by simp, by norm_num⟩

end Downhill
