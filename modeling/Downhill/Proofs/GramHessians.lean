import Downhill.Proofs.LogisticGradient
import Downhill.Proofs.MarginLosses
import Downhill.Proofs.ConvexNewton

/-!
# Hessians of the classifiers

The Hessians of logistic regression and of the squared hinge are sums of outer products of the
points with themselves, and a ridge along the two coefficients that are regularized. Their forms are
sums of squares, so they are positive semidefinite, and any damping makes them positive definite:
Newton's method never needs more than Cholesky factors on them, and it always goes downhill.
-/

namespace Downhill
open Matrix

section Gram

variable {ridge : ℝ} {points : List (DataPoint ℝ)} {c : DataPoint ℝ → ℝ}

/-- A sum of multiples of the points' outer products with themselves, with a ridge along the
coefficients. -/
noncomputable def ridgedGram (ridge : ℝ) (points : List (DataPoint ℝ)) (c : DataPoint ℝ → ℝ) :
    Matrix (Fin 3) (Fin 3) ℝ :=
  diagonal ![ridge, ridge, 0] + (points.map fun p => c p • vecMulVec p.lifted p.lifted).sum

lemma isSymm_ridgedGram : (ridgedGram ridge points c).IsSymm := by
  refine (isSymm_diagonal _).add ?_
  rw [IsSymm, transpose_list_sum, List.map_map]
  refine congrArg List.sum (List.map_congr_left fun p _ => ?_)
  rw [Function.comp_apply, transpose_smul, transpose_vecMulVec]

lemma form_listSum (matrices : List (Matrix (Fin 3) (Fin 3) ℝ)) (v : Fin 3 → ℝ) :
    v ⬝ᵥ matrices.sum *ᵥ v = (matrices.map fun H => v ⬝ᵥ H *ᵥ v).sum := by
  induction matrices with
  | nil => simp
  | cons H matrices ih =>
    rw [List.sum_cons, add_mulVec, dotProduct_add, ih, List.map_cons, List.sum_cons]

lemma form_vecMulVec (x v : Fin 3 → ℝ) : v ⬝ᵥ vecMulVec x x *ᵥ v = (x ⬝ᵥ v) ^ 2 := by
  rw [vecMulVec_mulVec, op_smul_eq_smul, dotProduct_smul, smul_eq_mul, dotProduct_comm v x, sq]

lemma form_ridge (v : Fin 3 → ℝ) :
    v ⬝ᵥ diagonal ![ridge, ridge, 0] *ᵥ v = ridge * (v 0 ^ 2 + v 1 ^ 2) := by
  have hlast : (![ridge, ridge, 0] : Fin 3 → ℝ) 2 = 0 := rfl
  rw [vec3_dotProduct, mulVec_diagonal, mulVec_diagonal, mulVec_diagonal, hlast, cons_val_zero,
    cons_val_one, cons_val_zero]
  ring

/-- The form of a Gram matrix is a sum of squares. -/
lemma form_ridgedGram (v : Fin 3 → ℝ) : v ⬝ᵥ ridgedGram ridge points c *ᵥ v =
    ridge * (v 0 ^ 2 + v 1 ^ 2) + (points.map fun p => c p * (p.lifted ⬝ᵥ v) ^ 2).sum := by
  rw [ridgedGram, add_mulVec, dotProduct_add, form_ridge, form_listSum, List.map_map]
  refine congrArg (ridge * (v 0 ^ 2 + v 1 ^ 2) + ·)
    (congrArg List.sum (List.map_congr_left fun p _ => ?_))
  rw [Function.comp_apply, smul_mulVec, dotProduct_smul, form_vecMulVec, smul_eq_mul]

lemma posSemidef_ridgedGram (hridge : 0 ≤ ridge) (hc : ∀ p ∈ points, 0 ≤ c p) :
    (ridgedGram ridge points c).PosSemidef := by
  refine .of_dotProduct_mulVec_nonneg (isHermitian_iff_isSymm.mpr isSymm_ridgedGram) fun v => ?_
  rw [star_trivial, form_ridgedGram]
  have hsum : 0 ≤ (points.map fun p => c p * (p.lifted ⬝ᵥ v) ^ 2).sum := by
    refine List.sum_nonneg fun t ht => ?_
    obtain ⟨p, hp, rfl⟩ := List.mem_map.mp ht
    exact mul_nonneg (hc p hp) (sq_nonneg _)
  positivity

lemma addAt_ridge (H : Matrix (Fin 3) (Fin 3) ℝ) (ridge : ℝ) :
    addAt (addAt (Rows.ofMatrix H) 0 ridge) 1 ridge =
      Rows.ofMatrix (diagonal ![ridge, ridge, 0] + H) := by
  simp [addAt, Rows.ofMatrix, List.ofFn_succ, add_comm]

end Gram

section Hessians

variable (d : Dataset ℝ) (lambda : ℝ) (w : Fin 3 → ℝ)

/-- How much a point bends the logistic loss, whether or not its probability is held. -/
noncomputable def Logistic.bend (p : DataPoint ℝ) : ℝ :=
  Logistic.sigmoid (p.lifted ⬝ᵥ w) * (1 - Logistic.sigmoid (p.lifted ⬝ᵥ w)) / d.points.length

lemma logistic_hessian :
    (Classifier.logisticRegression.objective d lambda).hessian (List.ofFn w) =
      some (Rows.ofMatrix (ridgedGram lambda d.points (Logistic.bend d w))) := by
  have htotal : (Sample.plain d).foldl (fun h s => addOuter h s.features
      (Logistic.sigmoid (s.score (List.ofFn w)) * (1 - Logistic.sigmoid (s.score (List.ofFn w))) /
        (d.points.length : ℝ))) (Rows.ofMatrix (0 : Matrix (Fin 3) (Fin 3) ℝ)) =
      Rows.ofMatrix
        (d.points.map fun p => Logistic.bend d w p • vecMulVec p.lifted p.lifted).sum := by
    rw [Sample.plain_eq, List.foldl_map]
    simp only [Sample.score_ofFn]
    refine (foldl_addOuter d.points DataPoint.lifted (Logistic.bend d w) 0).trans ?_
    rw [zero_add]
  have hcount : (Sample.plain d).length = d.points.length := List.length_map _
  change some (addAt (addAt ((Sample.plain d).foldl (fun h s => addOuter h s.features
    (Logistic.sigmoid (s.score (List.ofFn w)) * (1 - Logistic.sigmoid (s.score (List.ofFn w))) /
      ((Sample.plain d).length : ℝ))) (Rows.ofMatrix (0 : Matrix (Fin 3) (Fin 3) ℝ)))
    0 lambda) 1 lambda) = _
  rw [hcount, htotal, addAt_ridge, ridgedGram]

lemma squaredHinge_hessian :
    (Classifier.squaredHingeSvm.objective d lambda).hessian (List.ofFn w) =
      some (Rows.ofMatrix (ridgedGram 1 (d.points.filter fun p => p.margin w < 1)
        fun _ => 2 * lambda)) := by
  have htwo : (2.0 : ℝ) = 2 := by norm_num
  have hridge : ([[1, 0, 0], [0, 1, 0], [0, 0, 0]] : Rows ℝ) =
      Rows.ofMatrix (diagonal ![1, 1, 0]) := by
    simp [Rows.ofMatrix, List.ofFn_succ]
  change some ((violations (Sample.signed d) (List.ofFn w)).foldl
    (fun h s => addOuter h s.features ((2.0 : ℝ) * lambda)) [[1, 0, 0], [0, 1, 0], [0, 0, 0]]) = _
  rw [violations_signed, List.foldl_map, hridge, htwo]
  exact congrArg some (foldl_addOuter (d.points.filter fun p => p.margin w < 1) DataPoint.lifted
    (fun _ => 2 * lambda) (diagonal ![1, 1, 0]))

end Hessians

/-! ### Newton's method -/

/-- Gradients and Hessians at vectors suffice, whatever they are at other lists. -/
lemma Objective.HasConvexHessians.of_ofFn {n : ℕ} {obj : Objective ℝ} (hdim : obj.dim = n)
    (hgradient : ∀ w : Fin n → ℝ, ∃ g : Fin n → ℝ, obj.gradient (List.ofFn w) = List.ofFn g)
    (hhessian : ∀ w : Fin n → ℝ, ∃ H : Matrix (Fin n) (Fin n) ℝ, H.PosSemidef ∧
      obj.hessian (List.ofFn w) = some (Rows.ofMatrix H)) : obj.HasConvexHessians := by
  subst hdim
  refine ⟨fun w hw => ?_, fun w rows hw hrows => ?_⟩
  · obtain ⟨w, rfl⟩ := exists_eq_ofFn hw
    obtain ⟨g, hg⟩ := hgradient w
    rw [hg, List.length_ofFn]
  · obtain ⟨w, rfl⟩ := exists_eq_ofFn hw
    obtain ⟨H, hH, heq⟩ := hhessian w
    exact ⟨H, hH, Option.some_inj.mp (hrows.symm.trans heq)⟩

lemma logistic_hasConvexHessians (d : Dataset ℝ) {lambda : ℝ} (hlambda : 0 ≤ lambda) :
    (Classifier.logisticRegression.objective d lambda).HasConvexHessians := by
  refine .of_ofFn rfl (fun w => ⟨_, Logistic.gradient_ofFn d lambda w⟩)
    fun w => ⟨_, posSemidef_ridgedGram hlambda fun p _ => ?_, logistic_hessian d lambda w⟩
  have hpos := Logistic.sigmoid_pos (p.lifted ⬝ᵥ w)
  have hbelow := Logistic.sigmoid_lt_one (p.lifted ⬝ᵥ w)
  exact div_nonneg (mul_nonneg hpos.le (sub_nonneg.mpr hbelow.le)) (Nat.cast_nonneg _)

lemma squaredHinge_hasConvexHessians (d : Dataset ℝ) {lambda : ℝ} (hlambda : 0 ≤ lambda) :
    (Classifier.squaredHingeSvm.objective d lambda).HasConvexHessians :=
  .of_ofFn rfl (fun w => ⟨_, (squaredHinge_fitsBy d lambda).gradient w⟩)
    fun w => ⟨_, posSemidef_ridgedGram zero_le_one fun _ _ => mul_nonneg zero_le_two hlambda,
      squaredHinge_hessian d lambda w⟩

/-- A record of a step along the solution of a positive definite system. -/
structure IterationRecord.IsDefiniteStep (r : IterationRecord ℝ) : Prop where
  source : ∃ curvature, r.curvature = some curvature ∧ curvature.source = .solve .cholesky
  downhill : (∃ x ∈ r.gradient, x ≠ 0) → r.isDescentDirection = true

lemma Method.newton_steps_definite {obj : Objective ℝ} {damping : ℝ} {rule : StepRule ℝ}
    {s t : RunState ℝ Unit} {record : IterationRecord ℝ} (hobj : obj.HasConvexHessians)
    (hdamping : 0 < damping) (h : (Method.newton obj damping rule).Steps obj s record t)
    (hs : IsSized obj obj.dim s) : record.IsDefiniteStep ∧ IsSized obj obj.dim t := by
  obtain ⟨⟨H, g, p, curvature, hhessian, hg, hp, hcurvature, -, -, hcertified⟩, ht⟩ :=
    newton_steps_certified hobj.symmetric h hs
  have hH := hobj.posSemidef (h.points.1 ▸ hs.point) hhessian
  -- Whatever the points are, the damping alone makes the sum definite.
  have hD : (H + damping • 1 : Matrix (Fin obj.dim) (Fin obj.dim) ℝ).PosDef :=
    PosDef.posSemidef_add hH (PosDef.one.smul hdamping)
  have hsource := hcertified.posDef_iff.mpr hD
  rw [hsource] at hcertified
  refine ⟨⟨⟨curvature, hcurvature, hsource⟩, ?_⟩, ht⟩
  rw [IterationRecord.isDescentDirection, decide_eq_true_iff, hg, hp, dot_ofFn,
    exists_mem_ofFn_ne_zero_iff]
  exact slope_neg_of_posDef hD hcertified.2

/-- With damping every record of a Newton run on an objective with positive semidefinite Hessians is
definite. -/
lemma newton_isDefiniteStep {obj : Objective ℝ} (hobj : obj.HasConvexHessians) {options : Options ℝ}
    {trace : Trace ℝ} (hdamping : 0 < options.hessianDamping)
    (h : run .newton obj options = .ok trace) (i : ℕ) (hi : i < trace.iterations.length) :
    trace.iterations[i].IsDefiniteStep :=
  run_forall_sized_records h IterationRecord.IsDefiniteStep
    (fun _ _ _ hs hsteps => Method.newton_steps_definite hobj hdamping hsteps hs) i hi

/-- The Hessian at `w` is symmetric, and its form is known. -/
def Objective.HasHessianForm {n : ℕ} (obj : Objective ℝ) (w : Fin n → ℝ)
    (form : (Fin n → ℝ) → ℝ) : Prop :=
  ∃ H : Matrix (Fin n) (Fin n) ℝ, obj.hessian (List.ofFn w) = some (Rows.ofMatrix H) ∧
    H.IsSymm ∧ ∀ v, v ⬝ᵥ H *ᵥ v = form v

/-- The Hessians of the classifiers are sums of squares with a ridge along the coefficients, and
with damping Newton's method solves every one of its systems by Cholesky factors, downhill. -/
theorem classifier_hessians_are_gram_forms (d : Dataset ℝ) (lambda : ℝ) :
    (∀ w : Fin 3 → ℝ, (Classifier.logisticRegression.objective d lambda).HasHessianForm w fun v =>
      lambda * (v 0 ^ 2 + v 1 ^ 2) + (d.points.map fun p =>
        let s := Logistic.sigmoid (p.lifted ⬝ᵥ w)
        s * (1 - s) / d.points.length * (p.lifted ⬝ᵥ v) ^ 2).sum) ∧
    (∀ w : Fin 3 → ℝ, (Classifier.squaredHingeSvm.objective d lambda).HasHessianForm w fun v =>
      v 0 ^ 2 + v 1 ^ 2 + 2 * lambda *
        ((d.points.filter fun p => 0 < 1 - p.sign * (p.lifted ⬝ᵥ w)).map
          fun p => (p.lifted ⬝ᵥ v) ^ 2).sum) ∧
    (0 ≤ lambda → ∀ c : Classifier, c = .logisticRegression ∨ c = .squaredHingeSvm →
      ∀ (options : Options ℝ) (trace : Trace ℝ), 0 < options.hessianDamping →
        run .newton (c.objective d lambda) options = .ok trace →
        ∀ (i : ℕ) (hi : i < trace.iterations.length), trace.iterations[i].IsDefiniteStep) := by
  refine ⟨fun w => ⟨_, logistic_hessian d lambda w, isSymm_ridgedGram, form_ridgedGram⟩,
    fun w => ⟨_, squaredHinge_hessian d lambda w, isSymm_ridgedGram, fun v => ?_⟩, ?_⟩
  · have hactive : (d.points.filter fun p => 0 < 1 - p.sign * (p.lifted ⬝ᵥ w)) =
        d.points.filter fun p => p.margin w < 1 :=
      List.filter_congr fun p _ => decide_eq_decide.mpr sub_pos
    rw [form_ridgedGram, hactive, one_mul, List.sum_map_mul_left]
  · rintro hlambda c (rfl | rfl) options trace hdamping hrun
    · exact newton_isDefiniteStep (logistic_hasConvexHessians d hlambda) hdamping hrun
    · exact newton_isDefiniteStep (squaredHinge_hasConvexHessians d hlambda) hdamping hrun

/-- One damped iteration from weights at which the probability of one point is held. -/
noncomputable def steepOptions : Options ℝ :=
  { Options.standard ⟨0, 0, 0⟩ with
    maxIter := 1
    initialPoint := List.ofFn steepWeights
    hessianDamping := 0.01 }

/-- Two points on the axis do not bend the loss across it, so without damping there would be no Cholesky
factors. -/
theorem steep_newton_step_is_definite :
    (0 : ℝ) ≤ 0 ∧ 0 < steepOptions.hessianDamping ∧ ∃ trace,
      run .newton (Classifier.logisticRegression.objective bothLabels 0) steepOptions = .ok trace ∧
        ∃ hi : 0 < trace.iterations.length, trace.iterations[0].IsDefiniteStep := by
  have hdamping : (0 : ℝ) < 0.01 := by norm_num
  obtain ⟨trace, hrun, hi⟩ : ∃ trace,
      run .newton (Classifier.logisticRegression.objective bothLabels 0) steepOptions =
        .ok trace ∧ 0 < trace.iterations.length :=
    exists_trace_of_isAccepted (fun _ _ => rfl) (Options.isAccepted_standard le_rfl one_pos
      (by simp) hdamping.le .newton)
  obtain ⟨-, -, hdefinite⟩ := classifier_hessians_are_gram_forms bothLabels 0
  exact ⟨le_rfl, hdamping, trace, hrun, hi,
    hdefinite le_rfl .logisticRegression (.inl rfl) steepOptions trace hdamping hrun 0 hi⟩

end Downhill
