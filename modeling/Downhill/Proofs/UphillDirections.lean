import Mathlib.Analysis.Calculus.Deriv.Comp
import Mathlib.Analysis.Calculus.Deriv.Mul
import Mathlib.Analysis.Calculus.FDeriv.Bilinear
import Mathlib.Analysis.Calculus.FDeriv.Mul
import Mathlib.Topology.Algebra.Module.FiniteDimensionBilinear
import Downhill.Proofs.AcceptedOptions
import Downhill.Proofs.Backtracking
import Downhill.Proofs.NewtonQuadratic
import Downhill.Proofs.SmallPivots

/-!
# Directions that lead uphill

Along a direction with a positive slope the search asks for less than a rise. Short steps of a
differentiable function rise by almost what the slope says, so they are missed. A longer step is
missed only if the function has not come down again by then: the search is exhausted where the value
stays above a parabola that falls off slowly enough, and not for every function.
-/

namespace Downhill
open Matrix

variable {n : ℕ} {obj : Objective ℝ}

/-- The dot product, as a continuous map in each of its vectors. -/
noncomputable def dotWith : (Fin n → ℝ) →L[ℝ] (Fin n → ℝ) →L[ℝ] ℝ :=
  LinearMap.toContinuousBilinearMap (dotProductBilin ℝ ℝ)

/-- The product with the gradient is the derivative of the value, in `n` coordinates. -/
structure Objective.HasTrueGradient (obj : Objective ℝ) (n : ℕ) : Prop where
  dim_eq : obj.dim = n
  hasFDerivAt : ∀ w : Fin n → ℝ, ∃ g : Fin n → ℝ, obj.gradient (List.ofFn w) = List.ofFn g ∧
    HasFDerivAt (fun x : Fin n → ℝ => obj.value (List.ofFn x)) (dotWith g) w

lemma QuadraticForm.hasTrueGradient {A : Matrix (Fin n) (Fin n) ℝ} (hA : A.IsSymm)
    (b : Fin n → ℝ) : (ofMatrix A b).objective.HasTrueGradient n := by
  refine ⟨dim_ofMatrix A b, fun w => ⟨A *ᵥ w - b, gradient_ofMatrix A b w, ?_⟩⟩
  have hmul : HasFDerivAt (fun x => A *ᵥ x) (mulVecLin A).toContinuousLinearMap w :=
    (mulVecLin A).toContinuousLinearMap.hasFDerivAt
  have hform := (dotWith.hasFDerivAt_of_bilinear (hasFDerivAt_id w) hmul).const_mul (1 / 2)
  have hvalue := hform.sub (dotWith b).hasFDerivAt
  refine (hvalue.congr_fderiv ?_).congr_of_eventuallyEq (.of_forall fun x => value_ofMatrix A b x)
  refine ContinuousLinearMap.ext fun v => ?_
  change 1 / 2 * (w ⬝ᵥ A *ᵥ v + v ⬝ᵥ A *ᵥ w) - b ⬝ᵥ v = (A *ᵥ w - b) ⬝ᵥ v
  rw [sub_dotProduct, dotProduct_comm v, ← dotProduct_mulVec_comm hA w v]
  ring

section ShortSteps

lemma exists_rise {f : ℝ → ℝ} {slope c1 : ℝ} (h : HasDerivAt f slope 0) (hslope : 0 < slope)
    (hc1 : c1 < 1) : ∃ delta > 0, ∀ a, 0 < a → a < delta → f 0 + c1 * a * slope < f a := by
  have hrate : 0 < (1 - c1) / 2 * slope := mul_pos (by linarith) hslope
  have hclose := (hasDerivAt_iff_isLittleO.mp h).def hrate
  obtain ⟨delta, hdelta, hball⟩ := Metric.eventually_nhds_iff.mp hclose
  refine ⟨delta, hdelta, fun a ha hlt => ?_⟩
  have hdist : dist a 0 < delta := by rwa [Real.dist_eq, sub_zero, abs_of_pos ha]
  have hnear := hball hdist
  rw [sub_zero, smul_eq_mul, Real.norm_eq_abs, Real.norm_eq_abs, abs_of_pos ha] at hnear
  have hlow := (abs_le.mp hnear).1
  have hgain := mul_pos hrate ha
  linarith

/-- After a step of length `a` from `w` along `p` the value lies above the share `c1` of the change that
the gradient predicts. -/
def Objective.Misses (obj : Objective ℝ) (w p : List ℝ) (value : ℝ) (gradient : List ℝ)
    (c1 a : ℝ) : Prop :=
  value + c1 * a * dot gradient p < obj.value (along w a p)

/-- Steps below some length rise above what is asked for. -/
lemma Objective.HasTrueGradient.exists_short_steps_missed (hobj : obj.HasTrueGradient n)
    (w p : Fin n → ℝ) (hslope : 0 < dot (obj.gradient (List.ofFn w)) (List.ofFn p)) {c1 : ℝ}
    (hc1 : c1 < 1) :
    ∃ delta > 0, ∀ a, 0 < a → a < delta → obj.Misses (List.ofFn w) (List.ofFn p)
      (obj.value (List.ofFn w)) (obj.gradient (List.ofFn w)) c1 a := by
  obtain ⟨g, hg, hderiv⟩ := hobj.hasFDerivAt w
  have hpath : HasDerivAt (fun a : ℝ => w + a • p) p 0 := by
    have hscaled := ((hasDerivAt_id (0 : ℝ)).smul_const p).const_add w
    rwa [one_smul] at hscaled
  have hstart : w + (0 : ℝ) • p = w := by rw [zero_smul, add_zero]
  rw [← hstart] at hderiv
  have hline := hderiv.comp_hasDerivAt (0 : ℝ) hpath
  rw [hg, dot_ofFn] at hslope
  obtain ⟨delta, hdelta, hrise⟩ := exists_rise hline hslope hc1
  refine ⟨delta, hdelta, fun a ha hlt => ?_⟩
  have hvalue := hrise a ha hlt
  simp only [Function.comp_apply, hstart] at hvalue
  rw [Misses, hg, dot_ofFn, along_ofFn]
  exact hvalue

end ShortSteps

section Searches

variable {params : ArmijoParams ℝ}

/-- Parameters with which a search makes trials, each with a positive step shorter than the last. -/
structure ArmijoParams.IsProper (params : ArmijoParams ℝ) : Prop where
  c1 : 0 < params.c1 ∧ params.c1 < 1
  rho : 0 < params.rho ∧ params.rho < 1
  alphaInit : 0 < params.alphaInit
  maxTrials : 0 < params.maxTrials

lemma ArmijoParams.step_eq (params : ArmijoParams ℝ) (k : ℕ) :
    params.step k = params.alphaInit * params.rho ^ k := by
  induction k with
  | zero => rw [step, pow_zero, mul_one]
  | succ k ih => rw [step, ih, pow_succ, mul_assoc]

/-- All trials were made and missed, and the answer is the last step. -/
structure LineSearchResult.IsExhausted (found : LineSearchResult ℝ) (params : ArmijoParams ℝ) :
    Prop where
  length : found.trials.length = params.maxTrials
  missed : ∀ trial ∈ found.trials, trial.satisfied = false
  satisfied : found.satisfied = false
  alpha : found.alpha = params.alphaInit * params.rho ^ (params.maxTrials - 1)

lemma backtrack_eq_searchAlong (obj : Objective ℝ) (w p : List ℝ) (value : ℝ) (gradient : List ℝ)
    (params : ArmijoParams ℝ) :
    backtrack obj w p value gradient params = some (searchAlong obj w p value gradient params) :=
  rfl

variable {w p gradient : List ℝ} {value : ℝ}

lemma ArmijoParams.not_accepts_iff {k : ℕ} : ¬ params.Accepts obj w p value gradient k ↔
    obj.Misses w p value gradient params.c1 (params.step k) :=
  not_le

lemma searchAlong_isExhausted_iff (hpos : 0 < params.maxTrials) :
    (searchAlong obj w p value gradient params).IsExhausted params ↔
      ∀ k < params.maxTrials, obj.Misses w p value gradient params.c1 (params.step k) := by
  obtain ⟨m, hends, hfound⟩ := params.exists_endsAt_searchAlong obj w p value gradient
  simp only [hfound, ← ArmijoParams.not_accepts_iff]
  have hmax : max 1 params.maxTrials = params.maxTrials := max_eq_right hpos
  constructor
  · intro h
    obtain hleast | ⟨hnone, -⟩ := hends
    · exact absurd hleast.1.2 (of_decide_eq_false h.satisfied)
    · rwa [hmax] at hnone
  · intro h
    obtain hleast | ⟨-, rfl⟩ := hends
    · exact absurd hleast.1.2 (h m (hmax ▸ hleast.1.1))
    · rw [hmax]
      refine ⟨?_, fun trial htrial => ?_, decide_eq_false (h _ (by omega)), params.step_eq _⟩
      · rw [ArmijoParams.answerAt, List.length_map, List.length_range]
        omega
      · obtain ⟨k, hk, rfl⟩ := List.mem_map.mp htrial
        exact decide_eq_false (h k (by have := List.mem_range.mp hk; omega))

lemma searchAlong_not_satisfied_iff (hpos : 0 < params.maxTrials) :
    (searchAlong obj w p value gradient params).satisfied = false ↔
      (searchAlong obj w p value gradient params).IsExhausted params := by
  refine ⟨fun h => (searchAlong_isExhausted_iff hpos).mpr fun k hk => ?_, (·.satisfied)⟩
  obtain ⟨m, hends, hfound⟩ := params.exists_endsAt_searchAlong obj w p value gradient
  rw [hfound] at h
  obtain hleast | ⟨hnone, -⟩ := hends
  · exact absurd hleast.1.2 (of_decide_eq_false h)
  · exact not_le.mp (hnone k (hk.trans_le (le_max_right ..)))

/-- Up to the step `top` the value lies above the parabola that starts with the slope along `p` and
falls off by `L` times that slope. -/
structure Objective.SagsAtMost (obj : Objective ℝ) (w p : List ℝ) (value : ℝ) (gradient : List ℝ)
    (top L : ℝ) : Prop where
  le_value : ∀ a, 0 ≤ a → a ≤ top →
    value + a * dot gradient p - L / 2 * a ^ 2 * dot gradient p ≤ obj.value (along w a p)

namespace Objective.SagsAtMost

lemma misses {top L c1 : ℝ} (h : obj.SagsAtMost w p value gradient top L)
    (hslope : 0 < dot gradient p) (hc1 : c1 < 1) (hshort : L * top < 2 * (1 - c1)) {a : ℝ}
    (ha : 0 < a) (htop : a ≤ top) : obj.Misses w p value gradient c1 a := by
  have hvalue := h.le_value a ha.le htop
  have hsag : L * a < 2 * (1 - c1) := by
    rcases le_or_gt L 0 with hL | hL
    · exact (mul_nonpos_of_nonpos_of_nonneg hL ha.le).trans_lt (by linarith)
    · exact (mul_le_mul_of_nonneg_left htop hL.le).trans_lt hshort
  have hgain : 0 < a * dot gradient p * (2 * (1 - c1) - L * a) :=
    mul_pos (mul_pos ha hslope) (by linarith)
  unfold Misses
  linarith

lemma isExhausted {L : ℝ} (h : obj.SagsAtMost w p value gradient params.alphaInit L)
    (hparams : params.IsProper) (hslope : 0 < dot gradient p)
    (hshort : L * params.alphaInit < 2 * (1 - params.c1)) :
    (searchAlong obj w p value gradient params).IsExhausted params := by
  refine (searchAlong_isExhausted_iff hparams.maxTrials).mpr fun k _ => ?_
  have hpow : 0 < params.rho ^ k := pow_pos hparams.rho.1 k
  have hpow_one : params.rho ^ k ≤ 1 := pow_le_one₀ hparams.rho.1.le hparams.rho.2.le
  have hstep : 0 < params.step k := by
    rw [params.step_eq]
    exact mul_pos hparams.alphaInit hpow
  have htop : params.step k ≤ params.alphaInit := by
    rw [params.step_eq]
    exact mul_le_of_le_one_right hparams.alphaInit.le hpow_one
  exact h.misses hslope hparams.c1.2 hshort hstep htop

end Objective.SagsAtMost

end Searches

section Newton

lemma Options.isProper_armijo {options : Options ℝ} {dim : ℕ} {hasHessian : Bool}
    (h : options.IsAccepted .newton dim hasHessian) (hmode : options.lineSearch = .armijo) :
    options.armijo.IsProper := by
  have huses : Algorithm.newton.usesLineSearch options.lineSearch = true := by
    rw [hmode]
    rfl
  have hrho : options.armijo.rho = 0.5 := rfl
  refine ⟨h.c1 huses, ?_, one_pos, h.trials huses⟩
  rw [hrho]
  norm_num

lemma Options.stepRule_of_armijo {options : Options ℝ} (h : options.lineSearch = .armijo) :
    options.stepRule = .armijo options.armijo := by
  rw [stepRule, h]

/-- A record of a search is degraded exactly when the search was exhausted. -/
lemma Method.Steps.isDegraded_iff {σ : Type} {method : Method ℝ σ} {s t : RunState ℝ σ}
    {record : IterationRecord ℝ} {params : ArmijoParams ℝ} (h : method.Steps obj s record t)
    (hrule : method.rule = .armijo params) (hpos : 0 < params.maxTrials) :
    record.isDegraded = true ↔ (searchAlong obj record.wOld record.direction record.loss
      record.gradient params).IsExhausted params := by
  obtain ⟨-, -, hlog⟩ := h.armijo hrule
  rw [← searchAlong_not_satisfied_iff hpos, IterationRecord.isDegraded, hlog]
  exact iff_of_eq (Bool.not_eq_true' _)

lemma Options.step_armijo (options : Options ℝ) (k : ℕ) : options.armijo.step k = (1 / 2) ^ k := by
  have hrho : options.armijo.rho = 1 / 2 := by
    change (0.5 : ℝ) = 1 / 2
    norm_num
  have hinit : options.armijo.alphaInit = 1 := rfl
  rw [ArmijoParams.step_eq, hrho, hinit, one_mul]

/-- What the flag of a record says about the values along its direction. -/
structure IterationRecord.FlagsExhaustion (obj : Objective ℝ) (options : Options ℝ)
    (r : IterationRecord ℝ) : Prop where
  isDegraded_iff : r.isDegraded = true ↔ ∀ k < options.maxLineSearchTrials,
    obj.Misses r.wOld r.direction r.loss r.gradient options.c1 ((1 / 2) ^ k)
  stepSize : r.isDegraded = true → r.stepSize = (1 / 2) ^ (options.maxLineSearchTrials - 1)
  of_sagsAtMost : 0 < dot r.gradient r.direction → ∀ L, L < 2 * (1 - options.c1) →
    obj.SagsAtMost r.wOld r.direction r.loss r.gradient 1 L → r.isDegraded = true

lemma Method.Steps.flagsExhaustion {σ : Type} {method : Method ℝ σ} {s t : RunState ℝ σ}
    {record : IterationRecord ℝ} {options : Options ℝ} (h : method.Steps obj s record t)
    (hrule : method.rule = .armijo options.armijo) (hproper : options.armijo.IsProper) :
    record.FlagsExhaustion obj options := by
  have hdegraded := h.isDegraded_iff hrule hproper.maxTrials
  refine ⟨?_, fun hflag => ?_, fun hslope L hL hsag => ?_⟩
  · have hiff := hdegraded.trans (searchAlong_isExhausted_iff hproper.maxTrials)
    simp only [options.step_armijo] at hiff
    exact hiff
  · rw [(h.armijo hrule).1, (hdegraded.mp hflag).alpha, ← ArmijoParams.step_eq, options.step_armijo]
    rfl
  · exact hdegraded.mpr (hsag.isExhausted hproper hslope ((mul_one L).trans_lt hL))

lemma run_flagsExhaustion {options : Options ℝ} {trace : Trace ℝ}
    (h : run .newton obj options = .ok trace) (hmode : options.lineSearch = .armijo) (i : ℕ)
    (hi : i < trace.iterations.length) : trace.iterations[i].FlagsExhaustion obj options := by
  have haccepted := Options.validate_eq_ok_iff_isAccepted.mp ((run_eq_ok_iff ..).mp h).1
  exact run_forall_records h (fun _ => True) _ trivial (fun _ _ _ _ hsteps =>
    ⟨hsteps.flagsExhaustion (Options.stepRule_of_armijo hmode)
      (Options.isProper_armijo haccepted hmode), trivial⟩) i hi

end Newton

/-! ### Quadratic forms -/

section Quadratic

variable {A : Matrix (Fin n) (Fin n) ℝ} {b w p : Fin n → ℝ}

lemma DirectionSource.Certifies.solves {source : DirectionSource ℝ}
    {D : Matrix (Fin n) (Fin n) ℝ} {g : Fin n → ℝ} (h : source.Certifies D g p)
    (hD : LU.HasFactors D) : D *ᵥ p = -g := by
  match source, h with
  | solve .cholesky, h => exact h.2
  | solve .lu, h => exact h.2.2
  | solve (.regularized _), h => exact absurd hD h.2.1
  | steepestDescentFallback, h => exact absurd hD h.2.1

/-- Along the solution of its own system a form falls off as fast as it rises. -/
lemma QuadraticForm.sagsAtMost_of_solution (hA : A.IsSymm) (hp : A *ᵥ p = -(A *ᵥ w - b))
    (top : ℝ) :
    (ofMatrix A b).objective.SagsAtMost (List.ofFn w) (List.ofFn p)
      ((ofMatrix A b).objective.value (List.ofFn w)) (List.ofFn (A *ᵥ w - b)) top 1 := by
  refine ⟨fun a _ _ => ?_⟩
  have hscaled : (a • p) ⬝ᵥ A *ᵥ (a • p) = -a ^ 2 * ((A *ᵥ w - b) ⬝ᵥ p) := by
    rw [mulVec_smul, smul_dotProduct, dotProduct_smul, hp, dotProduct_neg,
      dotProduct_comm p, smul_eq_mul, smul_eq_mul]
    ring
  rw [along_ofFn, dot_ofFn, value_add hA, hscaled, dotProduct_smul, smul_eq_mul]
  apply le_of_eq
  ring

end Quadratic

/-- Along a direction that leads uphill a search is exhausted exactly when the value at every trial
lies above what is asked for. That holds for short steps of every differentiable function, and for all
steps up to one where the function stays above a parabola that falls off slowly enough. The flags of
the records of Newton's method say the same. -/
theorem uphill_search_is_exhausted_by_high_values (obj : Objective ℝ) (n : ℕ)
    (hobj : obj.HasTrueGradient n) :
    (∀ (w p : Fin n → ℝ) (params : ArmijoParams ℝ), params.IsProper →
      let start := List.ofFn w
      let direction := List.ofFn p
      let value := obj.value start
      let gradient := obj.gradient start
      0 < dot gradient direction →
      ∃ found, backtrack obj start direction value gradient params = some found ∧
        (found.IsExhausted params ↔ ∀ k < params.maxTrials,
          obj.Misses start direction value gradient params.c1 (params.alphaInit * params.rho ^ k)) ∧
        (∃ delta > 0, ∀ a, 0 < a → a < delta →
          obj.Misses start direction value gradient params.c1 a) ∧
        ∀ L, L * params.alphaInit < 2 * (1 - params.c1) →
          obj.SagsAtMost start direction value gradient params.alphaInit L →
            found.IsExhausted params) ∧
    ∀ (options : Options ℝ) (trace : Trace ℝ), run .newton obj options = .ok trace →
      options.lineSearch = .armijo → ∀ i (hi : i < trace.iterations.length),
        trace.iterations[i].FlagsExhaustion obj options := by
  constructor
  · intro w p params hproper start direction value gradient hslope
    refine ⟨_, backtrack_eq_searchAlong .., ?_,
      hobj.exists_short_steps_missed w p hslope hproper.c1.2,
      fun L hshort hsag => hsag.isExhausted hproper hslope hshort⟩
    simp only [← params.step_eq]
    exact searchAlong_isExhausted_iff hproper.maxTrials
  · exact fun options trace hrun hmode i hi => run_flagsExhaustion hrun hmode i hi

/-- The matrix of `-x²`. -/
noncomputable def humpMatrix : Matrix (Fin 1) (Fin 1) ℝ :=
  !![-2.0]

/-- The form `x - x²`, whose slope at zero is one. -/
noncomputable def hump : QuadraticForm ℝ :=
  .ofMatrix humpMatrix (-1)

@[simp] lemma humpMatrix_apply (i j : Fin 1) : humpMatrix i j = -2 := by
  rw [Subsingleton.elim i 0, Subsingleton.elim j 0]
  change (-2.0 : ℝ) = -2
  norm_num

lemma humpMatrix_isSymm : humpMatrix.IsSymm :=
  .ext fun i j => by rw [humpMatrix_apply, humpMatrix_apply]

lemma humpMatrix_mulVec (x : Fin 1 → ℝ) : humpMatrix *ᵥ x = (-2 : ℝ) • x := by
  refine funext fun i => ?_
  rw [mulVec_eq_sum, Fin.sum_univ_one, Subsingleton.elim i 0]
  simp

lemma humpMatrix_hasFactors : LU.HasFactors humpMatrix := by
  have hentry : ∀ i j, |humpMatrix i j| ≤ 2 := by
    intro i j
    rw [humpMatrix_apply]
    norm_num
  have hstretch : ∀ x : Fin 1 → ℝ, (2 : ℝ) ^ 2 * (x ⬝ᵥ x) ≤ humpMatrix *ᵥ x ⬝ᵥ humpMatrix *ᵥ x := by
    intro x
    rw [humpMatrix_mulVec, smul_dotProduct, dotProduct_smul, smul_eq_mul, smul_eq_mul]
    linarith
  have hthreshold := LU.threshold_le one_le_two hentry
  have hpos := LU.threshold_pos (Rows.ofMatrix humpMatrix)
  have hsquare := pow_le_pow_left₀ hpos.le hthreshold 2
  refine LU.hasFactors_of_stretch hstretch ?_
  rw [Nat.cast_one, one_mul]
  exact hsquare.trans (by norm_num)

lemma hump_slope (p : Fin 1 → ℝ) :
    dot (List.ofFn (humpMatrix *ᵥ 0 - -1)) (List.ofFn p) = p 0 := by
  rw [dot_ofFn, mulVec_zero, zero_sub, neg_neg, one_dotProduct, Fin.sum_univ_one]

/-- One undamped step from zero. -/
noncomputable def humpOptions : Options ℝ :=
  { Options.standard ⟨0, 0, 0⟩ with
    maxIter := 1
    initialPoint := [0]
    hessianDamping := 0 }

lemma hump_run : ∃ trace, run .newton hump.objective humpOptions = .ok trace ∧
    0 < trace.iterations.length :=
  exists_trace_of_isAccepted (fun _ _ => rfl)
    (Options.isAccepted_standard le_rfl one_pos (List.cons_ne_nil _ _) le_rfl .newton)

/-- The Newton step from zero leads up to the top of the hump. -/
lemma hump_record {trace : Trace ℝ} (h : run .newton hump.objective humpOptions = .ok trace)
    (hi : 0 < trace.iterations.length) : ∃ p : Fin 1 → ℝ,
      humpMatrix *ᵥ p = -(humpMatrix *ᵥ 0 - -1) ∧
      trace.iterations[0].wOld = List.ofFn (0 : Fin 1 → ℝ) ∧
      trace.iterations[0].loss = hump.objective.value (List.ofFn (0 : Fin 1 → ℝ)) ∧
      trace.iterations[0].gradient = List.ofFn (humpMatrix *ᵥ 0 - -1) ∧
      trace.iterations[0].direction = List.ofFn p := by
  obtain ⟨states, hstart, -, hist⟩ := run_history h
  have hsteps := hist.steps 0 hi
  have hsized : Method.IsSized hump.objective 1 (states 0) := by
    rw [hstart]
    exact Method.isSized_startState ((run_eq_ok_iff ..).mp h).1
  obtain ⟨curvature, -, w, p, hw, hgradient, hdirection, hcertified⟩ :=
    Method.newton_steps_certifies humpMatrix_isSymm hsteps hsized
  have hzero : w = 0 := by
    have hpoint : trace.iterations[0].wOld = [0] := hsteps.points.1.trans (by rw [hstart]; rfl)
    exact List.ofFn_injective (hw.symm.trans hpoint)
  have hundamped : humpMatrix + humpOptions.hessianDamping • 1 = humpMatrix := by
    change humpMatrix + (0 : ℝ) • 1 = humpMatrix
    rw [zero_smul, add_zero]
  subst hzero
  rw [hundamped] at hcertified
  refine ⟨p, hcertified.solves humpMatrix_hasFactors, hw, ?_, hgradient, hdirection⟩
  rw [(hsteps.faithful hsized.faithful).1.loss, hw]

theorem hump_newton_step_is_flagged : ∃ trace,
    run .newton hump.objective humpOptions = .ok trace ∧ ∃ hi : 0 < trace.iterations.length,
      (0 : ℝ) < dot trace.iterations[0].gradient trace.iterations[0].direction ∧
      trace.iterations[0].isDegraded = true ∧ trace.iterations[0].stepSize = (1 / 2) ^ 19 := by
  obtain ⟨trace, hrun, hi⟩ := hump_run
  obtain ⟨p, hp, hpoint, hloss, hgradient, hdirection⟩ := hump_record hrun hi
  have hflags := (uphill_search_is_exhausted_by_high_values hump.objective 1
    (QuadraticForm.hasTrueGradient humpMatrix_isSymm (-1))).2 humpOptions trace hrun rfl 0 hi
  have hpeak : 2 * p 0 = 1 := by
    have hcoord := congrFun hp 0
    rw [humpMatrix_mulVec] at hcoord
    simpa using hcoord
  have hslope : (0 : ℝ) < dot trace.iterations[0].gradient trace.iterations[0].direction := by
    rw [hgradient, hdirection, hump_slope]
    linarith
  have hc1 : (1 : ℝ) < 2 * (1 - humpOptions.c1) := by
    change (1 : ℝ) < 2 * (1 - 1e-4)
    norm_num
  have hsag := QuadraticForm.sagsAtMost_of_solution humpMatrix_isSymm hp 1
  rw [← hpoint, ← hdirection, ← hgradient] at hsag
  have hflag := hflags.of_sagsAtMost hslope 1 hc1 (hloss ▸ hpoint ▸ hsag)
  exact ⟨trace, hrun, hi, hslope, hflag, hflags.stepSize hflag⟩

/-- From zero a full step along the axis crosses the hump and ends at the height where it began. Less
than that is asked for, so the search is satisfied at its first trial with a step uphill. -/
theorem hump_search_accepts_uphill_step :
    hump.objective.HasTrueGradient 1 ∧ (ArmijoParams.standard : ArmijoParams ℝ).IsProper ∧
      (0 : ℝ) < dot (hump.objective.gradient [0]) [1] ∧
      ∃ found, backtrack hump.objective [0] [1] (hump.objective.value [0])
          (hump.objective.gradient [0]) .standard = some found ∧
        found.satisfied = true ∧ found.alpha = 1 ∧ found.trials.length = 1 := by
  have hstart : ([0] : List ℝ) = List.ofFn (0 : Fin 1 → ℝ) := rfl
  have hdirection : ([1] : List ℝ) = List.ofFn (1 : Fin 1 → ℝ) := rfl
  have hproper : (ArmijoParams.standard : ArmijoParams ℝ).IsProper := by
    refine ⟨?_, ?_, one_pos, Nat.succ_pos 19⟩ <;> norm_num [ArmijoParams.standard]
  have hvalue : ∀ x : Fin 1 → ℝ, hump.objective.value (List.ofFn x) = x 0 - x 0 ^ 2 := by
    intro x
    have hsquare : x ⬝ᵥ x = x 0 * x 0 := Fin.sum_univ_one _
    rw [hump, QuadraticForm.value_ofMatrix, humpMatrix_mulVec, dotProduct_smul, hsquare,
      neg_dotProduct, one_dotProduct, Fin.sum_univ_one, smul_eq_mul]
    ring
  have hslope : dot (hump.objective.gradient [0]) [1] = 1 := by
    rw [hstart, hdirection, hump, QuadraticForm.gradient_ofMatrix]
    exact hump_slope 1
  have haccepts : (ArmijoParams.standard : ArmijoParams ℝ).Accepts hump.objective [0] [1]
      (hump.objective.value [0]) (hump.objective.gradient [0]) 0 := by
    unfold ArmijoParams.Accepts
    rw [hslope, hstart, hdirection, along_ofFn, hvalue, hvalue]
    norm_num [ArmijoParams.standard, ArmijoParams.step]
  refine ⟨QuadraticForm.hasTrueGradient humpMatrix_isSymm (-1), hproper, ?_, ?_⟩
  · rw [hslope]
    exact one_pos
  obtain ⟨m, hends, hfound⟩ := ArmijoParams.standard.exists_endsAt_searchAlong hump.objective [0] [1]
    (hump.objective.value [0]) (hump.objective.gradient [0])
  obtain rfl : m = 0 := Nat.eq_zero_of_not_pos fun hpos => hends.not_accepts hpos haccepts
  refine ⟨_, backtrack_eq_searchAlong .., ?_⟩
  rw [hfound]
  exact ⟨decide_eq_true haccepts, rfl, rfl⟩

end Downhill
