import Mathlib.Analysis.Matrix.Order
import Downhill.Problem.Quadratic
import Downhill.Proofs.AcceptedOptions
import Downhill.Proofs.NewtonCertificate
import Downhill.Proofs.SmallPivots

/-!
# Newton directions of convex objectives

The damped matrix of a convex objective is positive semidefinite. Where it is not positive definite
it is singular, so elimination cannot get through it. With the first shift added, a positive
semidefinite matrix makes every vector at least `shift` times as long, and its entries are bounded
by its diagonal. Up to dimension 9000 that keeps all pivots above the threshold, so the first shift
always suffices, and the direction solves a positive definite system.
-/

namespace Downhill
open Matrix

variable {n : ℕ} {D : Matrix (Fin n) (Fin n) ℝ}

lemma abs_entry_le_of_posSemidef (hD : D.PosSemidef) (i j : Fin n) :
    |D i j| ≤ (D i i + D j j) / 2 := by
  have hsymm : D j i = D i j := hD.isHermitian.apply i j
  -- The form at the sum and at the difference of two unit vectors.
  have hform : ∀ c : ℝ, 0 ≤ D i i + 2 * c * D i j + c ^ 2 * D j j := by
    intro c
    have h := hD.dotProduct_mulVec_nonneg (Pi.single i 1 + c • Pi.single j 1)
    simp only [star_trivial, mulVec_add, mulVec_smul, mulVec_single_one, add_dotProduct,
      dotProduct_add, smul_dotProduct, dotProduct_smul, single_one_dotProduct, col_apply,
      smul_eq_mul, hsymm] at h
    linarith
  have hsum := hform 1
  have hdifference := hform (-1)
  exact abs_le.mpr ⟨by linarith, by linarith⟩

lemma abs_entry_le_diagonalScale (hD : D.PosSemidef) (i j : Fin n) : |D i j| ≤ diagonalScale D := by
  have hdiagonal : ∀ k, D k k ≤ diagonalScale D := fun k =>
    calc D k k
      _ ≤ |D k k| := le_abs_self _
      _ ≤ ⨆ k, |D k k| := le_ciSup (f := fun k => |D k k|) (Set.finite_range _).bddAbove k
      _ ≤ diagonalScale D := le_max_right _ _
  have hentry := abs_entry_le_of_posSemidef hD i j
  have hi := hdiagonal i
  have hj := hdiagonal j
  linarith

lemma trialShift_zero_pos (D : Matrix (Fin n) (Fin n) ℝ) : 0 < trialShift D 0 := by
  have hscale : 1 ≤ diagonalScale D := le_max_left _ _
  rw [trialShift]
  positivity

lemma stretch_of_posSemidef (hD : D.PosSemidef) {shift : ℝ} (hshift : 0 ≤ shift) (x : Fin n → ℝ) :
    shift ^ 2 * (x ⬝ᵥ x) ≤ (D + shift • 1) *ᵥ x ⬝ᵥ (D + shift • 1) *ᵥ x := by
  have himage : (D + shift • 1) *ᵥ x = D *ᵥ x + shift • x := by
    rw [add_mulVec, smul_mulVec, one_mulVec]
  have hform : 0 ≤ x ⬝ᵥ D *ᵥ x := hD.dotProduct_mulVec_nonneg x
  have hsquare := dotProduct_self_nonneg (D *ᵥ x)
  have hcross : 0 ≤ 2 * shift * (x ⬝ᵥ D *ᵥ x) := by positivity
  have hexpand : (D *ᵥ x + shift • x) ⬝ᵥ (D *ᵥ x + shift • x) =
      D *ᵥ x ⬝ᵥ D *ᵥ x + 2 * shift * (x ⬝ᵥ D *ᵥ x) + shift ^ 2 * (x ⬝ᵥ x) := by
    rw [add_dotProduct, dotProduct_add, dotProduct_add, smul_dotProduct, smul_dotProduct,
      dotProduct_smul, dotProduct_smul, dotProduct_comm (D *ᵥ x) x]
    simp only [smul_eq_mul]
    ring
  rw [himage, hexpand]
  linarith

/-- Up to dimension 9000 the first shift is enough. -/
lemma hasFactors_first_shift (hn : n ≤ 9000) (hD : D.PosSemidef) :
    LU.HasFactors (D + trialShift D 0 • 1) := by
  have hscale : 1 ≤ diagonalScale D := le_max_left _ _
  have hshift : trialShift D 0 = 1e-10 * diagonalScale D := by
    rw [trialShift, pow_zero, one_mul]
  have hpos := trialShift_zero_pos D
  have hentries : ∀ i j, |(D + trialShift D 0 • 1) i j| ≤ diagonalScale D + trialShift D 0 := by
    intro i j
    have hunit : |(trialShift D 0 • (1 : Matrix (Fin n) (Fin n) ℝ)) i j| ≤ trialShift D 0 := by
      rw [Matrix.smul_apply, smul_eq_mul, one_apply]
      split_ifs
      · rw [mul_one, abs_of_pos hpos]
      · rw [mul_zero, abs_zero]
        exact hpos.le
    exact (abs_add_le _ _).trans (add_le_add (abs_entry_le_diagonalScale hD i j) hunit)
  have hthreshold := LU.threshold_le (a := D + trialShift D 0 • 1) (by linarith) hentries
  have hthreshold_pos := LU.threshold_pos (Rows.ofMatrix (D + trialShift D 0 • 1))
  apply LU.hasFactors_of_stretch (stretch_of_posSemidef hD hpos.le)
  have hdim : (n : ℝ) ≤ 9000 := by exact_mod_cast hn
  calc (n : ℝ) * LU.threshold (Rows.ofMatrix (D + trialShift D 0 • 1)) ^ 2
    _ ≤ 9000 * (1e-12 * (diagonalScale D + trialShift D 0)) ^ 2 := by gcongr
    _ ≤ trialShift D 0 ^ 2 := by
      rw [hshift]
      nlinarith

lemma slope_neg_of_posDef {B : Matrix (Fin n) (Fin n) ℝ} (hB : B.PosDef) {g p : Fin n → ℝ}
    (hp : B *ᵥ p = -g) (hg : g ≠ 0) : g ⬝ᵥ p < 0 := by
  have hne : p ≠ 0 := by
    rintro rfl
    apply hg
    rw [← neg_eq_zero, ← hp, mulVec_zero]
  rw [slope_eq_neg_form hp]
  exact neg_neg_of_pos (dotProduct_mulVec_pos_of_posDef hB hne)

lemma DirectionSource.Certifies.of_posSemidef {source : DirectionSource ℝ} {g p : Fin n → ℝ}
    (h : source.Certifies D g p) (hn : n ≤ 9000) (hD : D.PosSemidef) :
    (D.PosDef → source = .solve .cholesky) ∧
      (¬ D.PosDef → source = .solve (.regularized (trialShift D 0))) ∧
      (g ≠ 0 → g ⬝ᵥ p < 0) := by
  have hfirst := hasFactors_first_shift hn hD
  match source, h with
  | solve .cholesky, ⟨hdefinite, hp⟩ =>
    exact ⟨fun _ => rfl, fun hnot => absurd hdefinite hnot, slope_neg_of_posDef hdefinite hp⟩
  | solve .lu, ⟨hnot, hunit, _⟩ =>
    exact absurd (hD.posDef_iff_isUnit.mpr hunit) hnot
  | solve (.regularized shift), ⟨hnot, _, k, _, hshift, _, hearlier, hp⟩ =>
    -- No attempt can come before the first one.
    obtain rfl : k = 0 := by
      by_contra hk
      exact hearlier 0 (by omega) hfirst
    subst hshift
    have hshifted : (D + trialShift D 0 • 1).PosDef :=
      PosDef.posSemidef_add hD (PosDef.one.smul (trialShift_zero_pos D))
    exact ⟨fun hdefinite => absurd hdefinite hnot, fun _ => rfl, slope_neg_of_posDef hshifted hp⟩
  | steepestDescentFallback, ⟨_, _, hall, _⟩ =>
    exact absurd hfirst (hall 0 (by omega))

lemma trialShift_zero_of_posSemidef (hD : D.PosSemidef) :
    trialShift D 0 = 1e-10 * max 1 (⨆ j, D j j) := by
  have habs : ∀ j, |D j j| = D j j := fun j => abs_of_nonneg hD.diag_nonneg
  simp only [trialShift, diagonalScale, habs, pow_zero, one_mul]

/-- An objective whose gradients and Hessians have its dimension, the Hessians being positive
semidefinite. -/
structure Objective.HasConvexHessians (obj : Objective ℝ) : Prop where
  gradient : ∀ w, w.length = obj.dim → (obj.gradient w).length = obj.dim
  hessian : ∀ w rows, w.length = obj.dim → obj.hessian w = some rows →
    ∃ H : Matrix (Fin obj.dim) (Fin obj.dim) ℝ, H.PosSemidef ∧ rows = Rows.ofMatrix H

lemma Objective.HasConvexHessians.symmetric {obj : Objective ℝ} (h : obj.HasConvexHessians) :
    obj.HasSymmetricHessians := by
  refine ⟨h.gradient, fun w rows hw hrows => ?_⟩
  obtain ⟨H, hH, heq⟩ := h.hessian w rows hw hrows
  exact ⟨H, isHermitian_iff_isSymm.mp hH.isHermitian, heq⟩

lemma Objective.HasConvexHessians.posSemidef {obj : Objective ℝ} (hobj : obj.HasConvexHessians)
    {w : List ℝ} (hw : w.length = obj.dim) {H : Matrix (Fin obj.dim) (Fin obj.dim) ℝ}
    (hhessian : obj.hessian w = some (Rows.ofMatrix H)) : H.PosSemidef := by
  obtain ⟨H', hH', heq⟩ := hobj.hessian _ _ hw hhessian
  rwa [Rows.ofMatrix_injective heq]

/-- A record of a Newton step downhill, along the solution of the damped system or of the one with
the first shift. -/
def IterationRecord.IsConvexStep (obj : Objective ℝ) (damping : ℝ) (r : IterationRecord ℝ) : Prop :=
  ∃ (H : Matrix (Fin obj.dim) (Fin obj.dim) ℝ) (curvature : CurvatureDiagnostics ℝ),
    let D := H + damping • (1 : Matrix (Fin obj.dim) (Fin obj.dim) ℝ)
    obj.hessian r.wOld = some (Rows.ofMatrix H) ∧ r.curvature = some curvature ∧
    (D.PosDef → curvature.source = .solve .cholesky) ∧
    (¬ D.PosDef → curvature.source = .solve (.regularized (1e-10 * max 1 (⨆ j, D j j)))) ∧
    ((∃ x ∈ r.gradient, x ≠ 0) → dot r.gradient r.direction < 0)

lemma Method.newton_steps_convex {obj : Objective ℝ} {damping : ℝ} {rule : StepRule ℝ}
    {s t : RunState ℝ Unit} {record : IterationRecord ℝ} (hobj : obj.HasConvexHessians)
    (hdim : obj.dim ≤ 9000) (hdamping : 0 ≤ damping)
    (h : (Method.newton obj damping rule).Steps obj s record t) (hs : IsSized obj obj.dim s) :
    record.IsConvexStep obj damping ∧ IsSized obj obj.dim t := by
  obtain ⟨hcertified, ht⟩ := newton_steps_certified hobj.symmetric h hs
  refine ⟨?_, ht⟩
  obtain ⟨H, g, p, curvature, hhessian, hg, hp, hcurvature, -, -, hsource⟩ := hcertified
  have hH := hobj.posSemidef (h.points.1 ▸ hs.point) hhessian
  have hD : (H + damping • 1 : Matrix (Fin obj.dim) (Fin obj.dim) ℝ).PosSemidef :=
    hH.add (PosSemidef.one.smul hdamping)
  obtain ⟨hcholesky, hregularized, hslope⟩ := hsource.of_posSemidef hdim hD
  rw [trialShift_zero_of_posSemidef hD] at hregularized
  refine ⟨H, curvature, hhessian, hcurvature, hcholesky, hregularized, ?_⟩
  rw [hg, hp, dot_ofFn, exists_mem_ofFn_ne_zero_iff]
  exact hslope

/-- On an objective with positive semidefinite Hessians of order at most 9000 every Newton direction
comes from the Cholesky factors of the damped matrix, or, where it is not positive definite, from
its first shift, and it points downhill unless the gradient is zero. -/
theorem newton_never_falls_back (obj : Objective ℝ) (hobj : obj.HasConvexHessians)
    (hdim : obj.dim ≤ 9000) (options : Options ℝ) (trace : Trace ℝ)
    (h : run .newton obj options = .ok trace) (i : ℕ) (hi : i < trace.iterations.length) :
    trace.iterations[i].IsConvexStep obj options.hessianDamping := by
  have hvalid := ((run_eq_ok_iff ..).mp h).1
  have hdamping : 0 ≤ options.hessianDamping :=
    (Options.validate_eq_ok_iff_isAccepted.mp hvalid).damping rfl
  exact run_forall_records h (fun s : RunState ℝ Unit => Method.IsSized obj obj.dim s)
    (IterationRecord.IsConvexStep obj options.hessianDamping) (Method.isSized_startState hvalid)
    (fun _ _ _ hs hsteps => Method.newton_steps_convex hobj hdim hdamping hsteps hs) i hi

/-- The function `(x + y)² / 2`, which is flat along a line. -/
noncomputable def valley : QuadraticForm ℝ where
  matrix := [[1, 1], [1, 1]]
  linear := [0, 0]
  square := by simp
  linear_length := rfl

noncomputable def valleyMatrix : Matrix (Fin 2) (Fin 2) ℝ :=
  !![1, 1; 1, 1]

lemma valley_matrix : valley.matrix = Rows.ofMatrix valleyMatrix := by
  simp [valley, Rows.ofMatrix, valleyMatrix]

lemma valley_hasConvexHessians : valley.objective.HasConvexHessians := by
  have hsquare : valleyMatrix = vecMulVec (fun _ => 1) (star fun _ => 1) := by
    ext i j
    fin_cases i <;> fin_cases j <;> simp [valleyMatrix, vecMulVec]
  refine ⟨?_, ?_⟩
  · intro w _
    rfl
  · intro w rows _ hrows
    refine ⟨valleyMatrix, hsquare ▸ posSemidef_vecMulVec_self_star _, ?_⟩
    exact (Option.some_inj.mp hrows).symm.trans valley_matrix

/-- One undamped iteration from a point where the valley slopes. -/
noncomputable def valleyOptions : Options ℝ :=
  { Options.standard ⟨0, 0, 0⟩ with
    maxIter := 1
    initialPoint := [1, 0]
    hessianDamping := 0 }

lemma valley_run : ∃ trace, run .newton valley.objective valleyOptions = .ok trace ∧
    0 < trace.iterations.length :=
  exists_trace_of_isAccepted (fun _ _ => rfl)
    (Options.isAccepted_standard le_rfl one_pos (List.cons_ne_nil _ _) le_rfl .newton)

/-- Without damping the matrix of the valley is singular, and the first shift is taken. -/
theorem valley_needs_first_shift : ∃ trace,
    run .newton valley.objective valleyOptions = .ok trace ∧
      ∃ hi : 0 < trace.iterations.length, ∃ curvature,
        trace.iterations[0].curvature = some curvature ∧
        curvature.source = .solve (.regularized 1e-10) := by
  obtain ⟨trace, hrun, hi⟩ := valley_run
  obtain ⟨H, curvature, hhessian, hcurvature, -, hregularized, -⟩ := newton_never_falls_back
    valley.objective valley_hasConvexHessians (by decide) valleyOptions trace hrun 0 hi
  obtain rfl : H = valleyMatrix :=
    Rows.ofMatrix_injective ((Option.some_inj.mp hhessian).symm.trans valley_matrix)
  have hsingular : ¬ (valleyMatrix + (0 : ℝ) • 1).PosDef := by
    intro hdefinite
    have hdet := hdefinite.det_pos
    simp [valleyMatrix] at hdet
  have hdiagonal : ∀ j, (valleyMatrix + (0 : ℝ) • 1) j j = 1 := by
    simp [Fin.forall_fin_two, valleyMatrix]
  have hsource : curvature.source =
      .solve (.regularized (1e-10 * max 1 (⨆ j, (valleyMatrix + (0 : ℝ) • 1) j j))) :=
    hregularized hsingular
  simp only [hdiagonal, ciSup_const, max_self, mul_one] at hsource
  exact ⟨trace, hrun, hi, curvature, hcurvature, hsource⟩

end Downhill
