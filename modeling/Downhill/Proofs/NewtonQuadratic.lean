import Downhill.Proofs.AcceptedOptions
import Downhill.Proofs.NewtonCertificate
import Downhill.Proofs.QuadraticValues

/-!
# Newton's method on quadratic forms

Along the solution of a damped system a quadratic form bends at most as fast as it falls, so the
full step is accepted for every fraction up to one half. Where it leads is the solution of a system
that damping pulls towards the old point; without damping this is the minimizer, and the run ends.
-/

namespace Downhill
open Matrix

variable {n : ℕ} {A : Matrix (Fin n) (Fin n) ℝ} {b g p : Fin n → ℝ} {damping : ℝ}

lemma form_eq_of_damped_solution (hp : (A + damping • 1) *ᵥ p = -g) :
    p ⬝ᵥ A *ᵥ p = -(g ⬝ᵥ p) - damping * (p ⬝ᵥ p) := by
  have hslope := slope_eq_neg_form hp
  simp only [add_mulVec, smul_mulVec, one_mulVec, dotProduct_add, dotProduct_smul,
    smul_eq_mul] at hslope
  linarith

lemma slope_nonpos_of_posDef (hD : (A + damping • 1).PosDef) (hp : (A + damping • 1) *ᵥ p = -g) :
    g ⬝ᵥ p ≤ 0 := by
  rw [slope_eq_neg_form hp]
  exact neg_nonpos_of_nonneg (hD.posSemidef.dotProduct_mulVec_nonneg p)

/-- A full step along the solution that Cholesky factors give to the damped system, accepted at once
where there is a line search. -/
structure IterationRecord.IsFullNewtonStep (A : Matrix (Fin n) (Fin n) ℝ) (b : Fin n → ℝ)
    (damping : ℝ) (mode : LineSearchMode) (r : IterationRecord ℝ) : Prop where
  source : ∃ curvature, r.curvature = some curvature ∧ curvature.source = .solve .cholesky
  stepSize : r.stepSize = 1
  firstTrial : mode = .armijo → ∃ trial, r.lineSearch = some ⟨[trial], true⟩ ∧ trial.alpha = 1 ∧
    trial.satisfied = true
  unsearched : mode = .off → r.lineSearch = none
  system : ∃ w v : Fin n → ℝ, r.wOld = List.ofFn w ∧ r.wNew = List.ofFn v ∧
    (A + damping • 1) *ᵥ v = damping • w + b

namespace Method

variable {σ : Type} {method : Method ℝ σ} {obj : Objective ℝ} {record : IterationRecord ℝ}

/-- Where a full step is short enough, it is the step with and without a line search. -/
lemma Steps.full_step_of_stepRule {options : Options ℝ} {s t : RunState ℝ σ}
    (h : method.Steps obj s record t) (hrule : method.rule = options.stepRule)
    (hc1 : options.lineSearch = .armijo → options.c1 ≤ 1 / 2)
    (hslope : dot record.gradient record.direction ≤ 0)
    (hline : (SearchLine.ofGradient record.wOld record.direction record.loss
      record.gradient).BendsAtMost obj 1) :
    record.stepSize = 1 ∧
      (options.lineSearch = .armijo → ∃ trial, record.lineSearch = some ⟨[trial], true⟩ ∧
        trial.alpha = 1 ∧ trial.satisfied = true) ∧
      (options.lineSearch = .off → record.lineSearch = none) := by
  unfold Options.stepRule at hrule
  cases hmode : options.lineSearch with
  | armijo =>
    rw [hmode] at hrule
    have hshort : 1 ≤ 2 * (1 - options.c1) := by
      have hhalf := hc1 hmode
      linarith
    obtain ⟨hsize, hsearch⟩ := h.full_step hrule hshort hslope hline
    exact ⟨hsize, fun _ => hsearch, fun hoff => (by cases hoff)⟩
  | off =>
    rw [hmode] at hrule
    obtain ⟨hsize, hsearch⟩ := h.fixed hrule
    exact ⟨hsize, fun harmijo => (by cases harmijo), fun _ => hsearch⟩

section Newton

variable {options : Options ℝ} {s t : RunState ℝ Unit}

/-- A Newton step on a quadratic form, with what the source of its direction says. -/
lemma newton_steps_certifies (hA : A.IsSymm)
    (h : (Method.newton (QuadraticForm.ofMatrix A b).objective options.hessianDamping
      options.stepRule).Steps (QuadraticForm.ofMatrix A b).objective s record t)
    (hs : IsSized (QuadraticForm.ofMatrix A b).objective n s) :
    ∃ curvature, record.curvature = some curvature ∧ ∃ w p : Fin n → ℝ,
      record.wOld = List.ofFn w ∧ record.gradient = List.ofFn (A *ᵥ w - b) ∧
      record.direction = List.ofFn p ∧
      curvature.source.Certifies (A + options.hessianDamping • 1) (A *ᵥ w - b) p := by
  obtain ⟨hessian, hhessian, hdirection, hcurvature⟩ := newton_steps h
  obtain rfl : Rows.ofMatrix A = hessian := Option.some_inj.mp hhessian
  obtain ⟨w, hw⟩ := exists_eq_ofFn (h.points.1 ▸ hs.point : record.wOld.length = n)
  have hgradient : record.gradient = List.ofFn (A *ᵥ w - b) := by
    rw [(h.faithful hs.faithful).1.gradient, hw, QuadraticForm.gradient_ofMatrix]
  rw [hgradient] at hdirection hcurvature
  obtain ⟨p, hp, hcertified⟩ := newtonDirection_certifies hA options.hessianDamping (A *ᵥ w - b)
  exact ⟨_, hcurvature, w, p, hw, hgradient, hdirection.trans hp, hcertified⟩

/-- The ends of a Newton step on a quadratic form, whose direction solves the damped system. -/
lemma newton_steps_solution (hA : A.IsSymm) (hD : (A + options.hessianDamping • 1).PosDef)
    (h : (Method.newton (QuadraticForm.ofMatrix A b).objective options.hessianDamping
      options.stepRule).Steps (QuadraticForm.ofMatrix A b).objective s record t)
    (hs : IsSized (QuadraticForm.ofMatrix A b).objective n s) :
    (∃ curvature, record.curvature = some curvature ∧ curvature.source = .solve .cholesky) ∧
      ∃ w p : Fin n → ℝ, record.wOld = List.ofFn w ∧ record.gradient = List.ofFn (A *ᵥ w - b) ∧
        record.direction = List.ofFn p ∧
        (A + options.hessianDamping • 1) *ᵥ p = -(A *ᵥ w - b) := by
  obtain ⟨curvature, hcurvature, w, p, hw, hgradient, hdirection, hcertified⟩ :=
    newton_steps_certifies hA h hs
  have hcholesky := hcertified.posDef_iff.mpr hD
  rw [hcholesky] at hcertified
  exact ⟨⟨curvature, hcurvature, hcholesky⟩, w, p, hw, hgradient, hdirection, hcertified.2⟩

lemma newton_steps_full (hA : A.IsSymm) (hD : (A + options.hessianDamping • 1).PosDef)
    (hdamping : 0 ≤ options.hessianDamping)
    (hc1 : options.lineSearch = .armijo → options.c1 ≤ 1 / 2)
    (h : (Method.newton (QuadraticForm.ofMatrix A b).objective options.hessianDamping
      options.stepRule).Steps (QuadraticForm.ofMatrix A b).objective s record t)
    (hs : IsSized (QuadraticForm.ofMatrix A b).objective n s) :
    record.IsFullNewtonStep A b options.hessianDamping options.lineSearch ∧
      IsSized (QuadraticForm.ofMatrix A b).objective n t := by
  obtain ⟨hsource, w, p, hw, hgradient, hdirection, hsolution⟩ := newton_steps_solution hA hD h hs
  have hfaithful := (h.faithful hs.faithful).1
  have hslope : dot record.gradient record.direction ≤ 0 := by
    rw [hgradient, hdirection, dot_ofFn]
    exact slope_nonpos_of_posDef hD hsolution
  have hline : (SearchLine.ofGradient record.wOld record.direction record.loss
      record.gradient).BendsAtMost (QuadraticForm.ofMatrix A b).objective 1 := by
    rw [hfaithful.loss, hw, hdirection, hgradient]
    apply QuadraticForm.bendsAtMost hA
    have hshare := mul_nonneg hdamping (dotProduct_self_nonneg p)
    rw [form_eq_of_damped_solution hsolution]
    linarith
  obtain ⟨hstep, hfirst, hunsearched⟩ := h.full_step_of_stepRule rfl hc1 hslope hline
  have hnew : record.wNew = List.ofFn (w + p) := by
    rw [hfaithful.wNew, hstep, hw, hdirection, along_ofFn, one_smul]
  have hsystem : (A + options.hessianDamping • 1) *ᵥ (w + p) = options.hessianDamping • w + b := by
    rw [mulVec_add, hsolution, add_mulVec, smul_mulVec, one_mulVec]
    abel
  refine ⟨⟨hsource, hstep, hfirst, hunsearched, w, w + p, hw, hnew, hsystem⟩, ?_⟩
  exact h.isSized hs (by rw [hdirection, List.length_ofFn])

end Newton

end Method

lemma QuadraticForm.value_minimizer_lt (hA : A.PosDef) (b : Fin n → ℝ) {v : Fin n → ℝ}
    (hv : v ≠ A⁻¹ *ᵥ b) : (QuadraticForm.ofMatrix A b).objective.value (List.ofFn (A⁻¹ *ᵥ b)) <
      (QuadraticForm.ofMatrix A b).objective.value (List.ofFn v) := by
  have hsymm : A.IsSymm := isHermitian_iff_isSymm.mp hA.isHermitian
  rw [value_eq_of_solution (w := v) hsymm (mulVec_inv_of_posDef hA b)]
  have hform : 0 < (v - A⁻¹ *ᵥ b) ⬝ᵥ A *ᵥ (v - A⁻¹ *ᵥ b) :=
    dotProduct_mulVec_pos_of_posDef hA (sub_ne_zero.mpr hv)
  linarith

lemma IterationRecord.IsFullNewtonStep.newGradNorm_eq_zero {mode : LineSearchMode}
    {r : IterationRecord ℝ} (h : r.IsFullNewtonStep A b 0 mode)
    (hr : r.Faithful (QuadraticForm.ofMatrix A b).objective) : r.newGradNorm = 0 := by
  obtain ⟨w, v, -, hv, hsystem⟩ := h.system
  have hsolution : A *ᵥ v = b := by simpa using hsystem
  rw [hr.newGradNorm, hv, QuadraticForm.gradient_ofMatrix, hsolution, sub_self, norm, dot_ofFn,
    zero_dotProduct]
  exact Real.sqrt_zero

lemma IterationRecord.IsFullNewtonStep.wNew_eq {mode : LineSearchMode} {r : IterationRecord ℝ}
    (h : r.IsFullNewtonStep A b 0 mode) (hA : A.PosDef) :
    r.wNew = List.ofFn (A⁻¹ *ᵥ b) := by
  obtain ⟨w, v, -, hv, hsystem⟩ := h.system
  have hsolution : A *ᵥ v = A *ᵥ (A⁻¹ *ᵥ b) := by
    rw [mulVec_inv_of_posDef hA]
    simpa using hsystem
  rw [hv, mulVec_injective_of_isUnit hA.isUnit hsolution]

lemma Trace.StoppedBy.of_first_small {criteria : StoppingCriteria ℝ} {trace : Trace ℝ}
    (h : trace.StoppedBy criteria) (hi : 0 < trace.iterations.length)
    (hsmall : trace.iterations[0].newGradNorm < criteria.gtol) :
    trace.iterations.length = 1 ∧ trace.termination = .gradientNorm := by
  have hfirst := h.evaluate 0 hi
  rw [StoppingCriteria.evaluate, if_pos hsmall] at hfirst
  split_ifs at hfirst with hlength
  exact ⟨hlength.symm, (Option.some_inj.mp hfirst).symm⟩

/-- On a quadratic form whose damped matrix is positive definite every Newton step is a full step to
the solution of the damped system. Without damping the first step leads to the only minimizer, and
the run ends there. -/
theorem newton_solves_quadratic {n : ℕ} (A : Matrix (Fin n) (Fin n) ℝ) (hA : A.IsSymm)
    (b : Fin n → ℝ) (options : Options ℝ) (hD : (A + options.hessianDamping • 1).PosDef)
    (hc1 : options.lineSearch = .armijo → options.c1 ≤ 1 / 2) (trace : Trace ℝ)
    (h : run .newton (QuadraticForm.ofMatrix A b).objective options = .ok trace) :
    (∀ i (hi : i < trace.iterations.length),
      trace.iterations[i].IsFullNewtonStep A b options.hessianDamping options.lineSearch) ∧
    (options.hessianDamping = 0 → 0 < options.termination.gtol →
      trace.iterations.length = 1 ∧ trace.termination = .gradientNorm ∧
      trace.finalPoint? = some (List.ofFn (A⁻¹ *ᵥ b)) ∧
      ∀ v : Fin n → ℝ, v ≠ A⁻¹ *ᵥ b →
        (QuadraticForm.ofMatrix A b).objective.value (List.ofFn (A⁻¹ *ᵥ b)) <
          (QuadraticForm.ofMatrix A b).objective.value (List.ofFn v)) := by
  have hvalid := ((run_eq_ok_iff ..).mp h).1
  have hdamping : 0 ≤ options.hessianDamping :=
    (Options.validate_eq_ok_iff_isAccepted.mp hvalid).damping rfl
  have hstart : Method.IsSized (QuadraticForm.ofMatrix A b).objective n
      ((Method.newton (QuadraticForm.ofMatrix A b).objective options.hessianDamping
        options.stepRule).startState (QuadraticForm.ofMatrix A b).objective options) :=
    ⟨⟨rfl, rfl⟩, (Options.validate_eq_ok_iff.mp hvalid).length.trans (QuadraticForm.dim_ofMatrix A b)⟩
  have hfull := run_forall_records h
    (fun s : RunState ℝ Unit => Method.IsSized (QuadraticForm.ofMatrix A b).objective n s)
    (IterationRecord.IsFullNewtonStep A b options.hessianDamping options.lineSearch) hstart
    (fun _ _ _ hs hsteps => Method.newton_steps_full hA hD hdamping hc1 hsteps hs)
  refine ⟨hfull, fun hundamped hgtol => ?_⟩
  have hstopped := run_stoppedBy h
  have hpos := hstopped.length_pos
  have hdefinite : A.PosDef := by simpa [hundamped] using hD
  have hfirst := hfull 0 hpos
  rw [hundamped] at hfirst
  have hzero := hfirst.newGradNorm_eq_zero (run_record_faithful h 0 hpos)
  obtain ⟨hlength, hreason⟩ := hstopped.of_first_small hpos (hzero.trans_lt hgtol)
  refine ⟨hlength, hreason, ?_, fun v hv => QuadraticForm.value_minimizer_lt hdefinite b hv⟩
  obtain ⟨record, hrecord⟩ := List.length_eq_one_iff.mp hlength
  have hpoint := hfirst.wNew_eq hdefinite
  simp only [hrecord, List.getElem_singleton] at hpoint
  rw [Trace.finalPoint?, hrecord, List.getLast?_singleton, Option.map_some, hpoint]

/-- Undamped iterations until the gradient is short. -/
noncomputable def ovalOptions : Options ℝ :=
  { Options.standard ⟨1e-6, 0, 0⟩ with
    maxIter := 100
    initialPoint := [1, -1]
    hessianDamping := 0 }

lemma oval_run : ∃ trace,
    run .newton (QuadraticForm.ofMatrix ovalMatrix ![1, 0]).objective ovalOptions = .ok trace ∧
      0 < trace.iterations.length := by
  have hgtol : (0 : ℝ) ≤ 1e-6 := by norm_num
  exact exists_trace_of_isAccepted (fun _ _ => rfl)
    (Options.isAccepted_standard hgtol (by norm_num) (List.cons_ne_nil _ _) le_rfl .newton)

theorem oval_run_takes_one_step : ∃ trace,
    run .newton (QuadraticForm.ofMatrix ovalMatrix ![1, 0]).objective ovalOptions = .ok trace ∧
      trace.iterations.length = 1 ∧ trace.termination = .gradientNorm ∧
      trace.finalPoint? = some (List.ofFn (ovalMatrix⁻¹ *ᵥ ![1, 0])) := by
  obtain ⟨trace, hrun, -⟩ := oval_run
  have hdefinite : (ovalMatrix + ovalOptions.hessianDamping • 1).PosDef := by
    simpa [ovalOptions] using posDef_of_lower ovalMatrix_isSymm one_pos ovalMatrix_lower
  have hhalf : ovalOptions.c1 ≤ 1 / 2 := by
    change (1e-4 : ℝ) ≤ 1 / 2
    norm_num
  have hgtol : 0 < ovalOptions.termination.gtol := by
    change (0 : ℝ) < 1e-6
    norm_num
  obtain ⟨-, hundamped⟩ := newton_solves_quadratic ovalMatrix ovalMatrix_isSymm ![1, 0] ovalOptions
    hdefinite (fun _ => hhalf) trace hrun
  obtain ⟨hlength, hreason, hpoint, -⟩ := hundamped rfl hgtol
  exact ⟨trace, hrun, hlength, hreason, hpoint⟩

end Downhill
