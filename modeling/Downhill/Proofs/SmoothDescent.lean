import Downhill.Proofs.AcceptedOptions
import Downhill.Proofs.AcceptedSteps
import Downhill.Proofs.PositiveMemory

/-!
# Steepest descent on smooth functions

If the gradient of a function changes so slowly that steps against it gain what the slope promises
up to `L` times half their squared length, steepest descent with enough trials is never degraded,
and each iteration gains a fixed multiple of the squared gradient norm. On a function with a lower
bound that can go on only as long as the gradient is small.
-/

namespace Downhill

/-- An objective on which steps against the gradient are controlled by the curvature `L`. -/
structure Objective.IsSmooth (obj : Objective ℝ) (L : ℝ) : Prop where
  gradient : ∀ w, w.length = obj.dim → (obj.gradient w).length = obj.dim
  descent : ∀ w a, w.length = obj.dim → 0 ≤ a → a ≤ 1 →
    obj.value (sub w (scale a (obj.gradient w))) ≤
      obj.value w - a * norm (obj.gradient w) ^ 2 + L / 2 * a ^ 2 * norm (obj.gradient w) ^ 2

variable {obj : Objective ℝ} {L : ℝ}

lemma Objective.IsSmooth.bendsAtMost (hobj : obj.IsSmooth L) {w : List ℝ}
    (hw : w.length = obj.dim) :
    (SearchLine.ofGradient w (neg (obj.gradient w)) (obj.value w)
      (obj.gradient w)).BendsAtMost obj L := by
  refine ⟨fun a ha hone => ?_⟩
  have hdescent := hobj.descent w a hw ha hone
  have hslope := dot_neg_self (obj.gradient w)
  simp only [SearchLine.ofGradient, SearchLine.point, along_neg, hslope]
  linarith

lemma Method.steepest_steps_steady {options : Options ℝ} {s t : RunState ℝ Unit}
    {record : IterationRecord ℝ} (hobj : obj.IsSmooth L) (hL : 0 < L) (hc1 : 0 ≤ options.c1)
    (htrials : (1 / 2 : ℝ) ^ (options.maxLineSearchTrials - 1) ≤ 2 * (1 - options.c1) / L)
    (h : (Method.steepest (.armijo options.armijo)).Steps obj s record t)
    (hs : IsSized obj obj.dim s) :
    (record.IsSteady (leastStep options.c1 L) (options.c1 * leastStep options.c1 L) ∧
      record.wNew.length = obj.dim) ∧ IsSized obj obj.dim t := by
  have hfaithful := (h.faithful hs.faithful).1
  have hpoint : record.wOld.length = obj.dim := h.points.1 ▸ hs.point
  have hgradient := h.gradient_length hobj.gradient hs
  have hdirection := (steepest_steps h).1
  have ht : IsSized obj obj.dim t :=
    h.isSized hs (by rw [hdirection, neg, List.length_map, hgradient])
  have hslope : dot record.gradient record.direction = -record.gradNorm ^ 2 := by
    rw [hdirection, dot_neg_self, hfaithful.gradient, hfaithful.gradNorm]
  have hline := hobj.bendsAtMost hpoint
  rw [← hfaithful.gradient, ← hfaithful.loss, ← hdirection] at hline
  have hdown : dot record.gradient record.direction ≤ 0 := by
    rw [hslope]
    exact neg_nonpos_of_nonneg (sq_nonneg _)
  obtain ⟨hsatisfied, hstep, hdecrease⟩ := h.accepted rfl hL hc1 htrials hdown hline
  rw [hslope] at hdecrease
  exact ⟨⟨⟨hsatisfied, hstep, by linarith⟩, h.points.2 ▸ ht.point⟩, ht⟩

/-- On a smooth function, with trials down to a short step, steepest descent with a line search is
never degraded and every iteration lowers the value by a fixed multiple of the squared gradient
norm. If the function has a lower bound, enough iterations make the gradient small. -/
theorem smooth_descent_converges (obj : Objective ℝ) (L : ℝ) (hL : 0 < L) (hobj : obj.IsSmooth L)
    (options : Options ℝ)
    (htrials : (1 / 2 : ℝ) ^ (options.maxLineSearchTrials - 1) ≤ 2 * (1 - options.c1) / L)
    (trace : Trace ℝ) (h : run .gradientDescentLineSearch obj options = .ok trace) :
    let delta := min 1 ((1 - options.c1) / L)
    (∀ i (hi : i < trace.iterations.length),
      trace.iterations[i].isDegraded = false ∧ delta ≤ trace.iterations[i].stepSize ∧
      trace.iterations[i].newLoss ≤
        trace.iterations[i].loss - options.c1 * delta * trace.iterations[i].gradNorm ^ 2) ∧
    ∀ bound, (∀ w, w.length = obj.dim → bound ≤ obj.value w) → 0 < options.termination.gtol →
      1 + (obj.value options.initialPoint - bound) /
        (options.c1 * delta * options.termination.gtol ^ 2) < options.maxIter →
      trace.termination ≠ .maxIterations := by
  have hvalid := ((run_eq_ok_iff ..).mp h).1
  obtain ⟨hc1, hc1_one⟩ := (Options.validate_eq_ok_iff_isAccepted.mp hvalid).c1 rfl
  have hsteady := run_forall_records h (fun s : RunState ℝ Unit => Method.IsSized obj obj.dim s)
    (fun r => r.IsSteady (leastStep options.c1 L) (options.c1 * leastStep options.c1 L) ∧
      r.wNew.length = obj.dim) (Method.isSized_startState hvalid)
    (fun _ _ _ hs hsteps => Method.steepest_steps_steady hobj hL hc1.le htrials hsteps hs)
  refine ⟨fun i hi => ?_, fun bound hbound hgtol hiter => ?_⟩
  · obtain ⟨hrecord, -⟩ := hsteady i hi
    exact ⟨hrecord.satisfied, hrecord.step, hrecord.decrease⟩
  · have hrate : 0 < options.c1 * leastStep options.c1 L := mul_pos hc1 (leastStep_pos hc1_one hL)
    refine run_stops_early h hrate hgtol (fun i hi => (hsteady i hi).1) (fun i hi => ?_) hiter
    rw [(run_record_faithful h i hi).newLoss]
    exact hbound _ (hsteady i hi).2

/-- From a corner of the bowl, until the gradient is shorter than one. -/
noncomputable def bowlOptions : Options ℝ :=
  { Options.standard ⟨1, 0, 0⟩ with
    maxIter := 200000
    initialPoint := AnalyticProblem.quadratic.initialPoint }

lemma bowl_gradient (x y : ℝ) :
    (AnalyticProblem.quadratic.objective : Objective ℝ).gradient [x, y] = [2 * x, 2 * y] := by
  have htwo : (2.0 : ℝ) = 2 := by norm_num
  exact congrArg (fun c : ℝ => [c * x, c * y]) htwo

lemma bowl_isSmooth : (AnalyticProblem.quadratic.objective : Objective ℝ).IsSmooth 2 := by
  have hvalue : ∀ x y : ℝ, (AnalyticProblem.quadratic.objective : Objective ℝ).value [x, y] =
      x * x + y * y := fun _ _ => rfl
  have hdot : ∀ x y : ℝ, dot [x, y] [x, y] = x * x + y * y := by
    intro x y
    simp [dot]
  refine ⟨fun _ _ => rfl, fun w a hw _ _ => ?_⟩
  obtain ⟨x, y, rfl⟩ := List.length_eq_two.mp hw
  have hstep : sub [x, y] (scale a [2 * x, 2 * y]) = [x - a * (2 * x), y - a * (2 * y)] := rfl
  rw [bowl_gradient, hstep, hvalue, hvalue, norm_sq, hdot]
  apply le_of_eq
  ring

lemma bowl_run : ∃ trace,
    run .gradientDescentLineSearch (AnalyticProblem.quadratic.objective : Objective ℝ)
      bowlOptions = .ok trace ∧ 0 < trace.iterations.length := by
  have hdamping : (0 : ℝ) ≤ 0.01 := by norm_num
  exact exists_trace_of_isAccepted (fun _ _ => rfl)
    (Options.isAccepted_standard zero_le_one (by norm_num) (List.cons_ne_nil _ _) hdamping _)

theorem bowl_descent_converges : ∃ trace,
    run .gradientDescentLineSearch (AnalyticProblem.quadratic.objective : Objective ℝ)
      bowlOptions = .ok trace ∧
      (∀ i (hi : i < trace.iterations.length), trace.iterations[i].isDegraded = false) ∧
      trace.termination ≠ .maxIterations := by
  obtain ⟨trace, hrun, -⟩ := bowl_run
  have hc1 : bowlOptions.c1 = 1e-4 := rfl
  have htrials : bowlOptions.maxLineSearchTrials = 20 := rfl
  have hgtol : bowlOptions.termination.gtol = 1 := rfl
  have hiter : bowlOptions.maxIter = 200000 := rfl
  have hvalue : (AnalyticProblem.quadratic.objective : Objective ℝ).value
      bowlOptions.initialPoint = 8 := by
    change (2.0 : ℝ) * 2.0 + 2.0 * 2.0 = 8
    norm_num
  obtain ⟨hsteady, hstops⟩ := smooth_descent_converges AnalyticProblem.quadratic.objective 2
    two_pos bowl_isSmooth bowlOptions (by rw [hc1, htrials]; norm_num) trace hrun
  refine ⟨trace, hrun, fun i hi => (hsteady i hi).1, ?_⟩
  apply hstops 0
  · intro w _
    exact add_nonneg (mul_self_nonneg _) (mul_self_nonneg _)
  · rw [hgtol]
    exact one_pos
  · rw [hc1, hgtol, hiter, hvalue, min_eq_right (by norm_num)]
    norm_num

end Downhill
