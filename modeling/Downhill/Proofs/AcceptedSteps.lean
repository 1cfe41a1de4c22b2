import Downhill.Proofs.RealMatrices
import Downhill.Proofs.SufficientDecrease
import Downhill.Proofs.ExactStopping

/-!
# Accepted steps and steady decrease

Along a line on which the value bends up at most `L` times as fast as it falls at the start, every
step short enough for `L` is accepted. A backtracking search with enough trials is therefore
satisfied, and the step before the accepted one was too long, so the accepted one is not too short.
If every iteration of a run lowers the value by a fixed multiple of the squared gradient norm, and
the value is bounded below, the gradient has to become small before long.
-/

namespace Downhill

variable {obj : Objective ℝ} {L c1 : ℝ}

namespace SearchLine

variable {line : SearchLine ℝ} {params : ArmijoParams ℝ}

/-- Up to the full step the value lies below the parabola with the slope of the line and `L` times
that slope, taken upwards, as its curvature. -/
structure BendsAtMost (obj : Objective ℝ) (line : SearchLine ℝ) (L : ℝ) : Prop where
  value_le : ∀ a, 0 ≤ a → a ≤ 1 →
    obj.value (line.point a) ≤ line.value + a * line.slope - L / 2 * a ^ 2 * line.slope

lemma BendsAtMost.le_threshold (h : line.BendsAtMost obj L) (hslope : line.slope ≤ 0) {a : ℝ}
    (ha : 0 ≤ a) (hone : a ≤ 1) (hshort : L * a ≤ 2 * (1 - c1)) :
    obj.value (line.point a) ≤ line.threshold c1 a := by
  have hvalue := h.value_le a ha hone
  have hgain : a * line.slope * (2 * (1 - c1) - L * a) ≤ 0 :=
    mul_nonpos_of_nonpos_of_nonneg (mul_nonpos_of_nonneg_of_nonpos ha hslope) (by linarith)
  unfold threshold
  linarith

lemma searchPlain_of_le_threshold {alpha : ℝ}
    (h : obj.value (line.point alpha) ≤ line.threshold params.c1 alpha) (more : ℕ)
    (earlier : List (LineSearchTrial ℝ)) :
    searchPlain obj line params more alpha earlier =
      line.result ⟨alpha, obj.value (line.point alpha), line.threshold params.c1 alpha, true⟩
        earlier := by
  have htrial : line.trial params.c1 alpha (obj.value (line.point alpha)) =
      ⟨alpha, obj.value (line.point alpha), line.threshold params.c1 alpha, true⟩ := by
    simp [trial, h]
  cases more with
  | zero => rw [searchPlain_zero, htrial]
  | succ more => simp only [searchPlain_succ, htrial, if_true]

/-- With trials down to a short step the search is satisfied. Its answer is at least `delta`, if
that is left of every step that is too long, after one cut. -/
lemma searchPlain_accepts (hline : line.BendsAtMost obj L) (hslope : line.slope ≤ 0)
    (hrho : 0 < params.rho) (hrho_one : params.rho ≤ 1) {delta : ℝ}
    (hdelta : ∀ a, 2 * (1 - params.c1) < L * a → delta ≤ a * params.rho) (more : ℕ) {alpha : ℝ}
    (halpha : 0 < alpha) (hone : alpha ≤ 1) (hstart : delta ≤ alpha)
    (hlast : L * (alpha * params.rho ^ more) ≤ 2 * (1 - params.c1))
    (earlier : List (LineSearchTrial ℝ)) :
    let found := searchPlain obj line params more alpha earlier
    found.satisfied = true ∧ delta ≤ found.alpha := by
  -- A step that is tried after a miss is one cut away from a step that was too long.
  induction more generalizing alpha earlier with
  | zero =>
    rw [pow_zero, mul_one] at hlast
    have haccepted := hline.le_threshold hslope halpha.le hone hlast
    rw [searchPlain_of_le_threshold haccepted]
    exact ⟨rfl, hstart⟩
  | succ more ih =>
    by_cases haccepted : obj.value (line.point alpha) ≤ line.threshold params.c1 alpha
    · rw [searchPlain_of_le_threshold haccepted]
      exact ⟨rfl, hstart⟩
    · have hlong : 2 * (1 - params.c1) < L * alpha := by
        by_contra hshort
        exact haccepted (hline.le_threshold hslope halpha.le hone (not_lt.mp hshort))
      have hcut : alpha * params.rho ≤ 1 := mul_le_one₀ hone hrho.le hrho_one
      rw [pow_succ', ← mul_assoc alpha] at hlast
      simp only [searchPlain_succ, trial, haccepted, decide_false, Bool.false_eq_true, if_false]
      exact ih (mul_pos halpha hrho) hcut (hdelta alpha hlong) hlast _

end SearchLine

/-- A record of a search that was satisfied with a step of at least `delta`, where the value fell by
at least `rate` times the squared gradient norm. -/
structure IterationRecord.IsSteady (delta rate : ℝ) (r : IterationRecord ℝ) : Prop where
  satisfied : r.isDegraded = false
  step : delta ≤ r.stepSize
  decrease : r.newLoss ≤ r.loss - rate * r.gradNorm ^ 2

/-- The shortest step that backtracking by halves can end with. -/
noncomputable def leastStep (c1 L : ℝ) : ℝ :=
  min 1 ((1 - c1) / L)

lemma leastStep_pos (hc1 : c1 < 1) (hL : 0 < L) : 0 < leastStep c1 L :=
  lt_min one_pos (div_pos (by linarith) hL)

lemma leastStep_le_half (hL : 0 < L) {a : ℝ} (h : 2 * (1 - c1) < L * a) :
    leastStep c1 L ≤ a * (1 / 2) := by
  have hquotient : (1 - c1) / L ≤ a * (1 / 2) := by
    rw [div_le_iff₀ hL]
    linarith
  exact (min_le_right _ _).trans hquotient

namespace Method

variable {σ : Type} {method : Method ℝ σ} {s t : RunState ℝ σ} {record : IterationRecord ℝ}
  {options : Options ℝ}

lemma Steps.accepted (h : method.Steps obj s record t)
    (hrule : method.rule = .armijo options.armijo) (hL : 0 < L) (hc1 : 0 ≤ options.c1)
    (htrials : (1 / 2 : ℝ) ^ (options.maxLineSearchTrials - 1) ≤ 2 * (1 - options.c1) / L)
    (hslope : dot record.gradient record.direction ≤ 0)
    (hline : (SearchLine.ofGradient record.wOld record.direction record.loss
      record.gradient).BendsAtMost obj L) :
    record.isDegraded = false ∧ leastStep options.c1 L ≤ record.stepSize ∧
      record.newLoss ≤ record.loss +
        options.c1 * leastStep options.c1 L * dot record.gradient record.direction := by
  obtain ⟨hsize, hvalue, hlog⟩ := h.armijo hrule
  rw [searchAlong] at hsize hvalue hlog
  have hrho : options.armijo.rho = 1 / 2 := by
    change (0.5 : ℝ) = 1 / 2
    norm_num
  have hrho_pos : 0 < options.armijo.rho := by
    rw [hrho]
    norm_num
  have hrho_one : options.armijo.rho ≤ 1 := by
    rw [hrho]
    norm_num
  have hcut : ∀ a, 2 * (1 - options.armijo.c1) < L * a →
      leastStep options.c1 L ≤ a * options.armijo.rho := by
    rw [hrho]
    exact fun a ha => leastStep_le_half hL ha
  have hlast : L * (1 * options.armijo.rho ^ (options.maxLineSearchTrials - 1)) ≤
      2 * (1 - options.c1) := by
    rw [le_div_iff₀ hL] at htrials
    rw [hrho]
    linarith
  obtain ⟨hsatisfied, hstep⟩ := SearchLine.searchPlain_accepts hline hslope hrho_pos hrho_one hcut
    (options.maxLineSearchTrials - 1) one_pos le_rfl (min_le_left _ _) hlast []
  obtain ⟨-, hsufficient⟩ := SearchLine.searchPlain_sufficient obj
    (.ofGradient record.wOld record.direction record.loss record.gradient) options.armijo
    hrho_pos (options.maxLineSearchTrials - 1) 1 one_pos []
  have hstep' : leastStep options.c1 L ≤ record.stepSize := hsize ▸ hstep
  have hdecrease : record.newLoss ≤
      record.loss + options.c1 * record.stepSize * dot record.gradient record.direction := by
    rw [hvalue, hsize]
    exact hsufficient hsatisfied
  refine ⟨?_, hstep', ?_⟩
  · rw [IterationRecord.isDegraded, hlog]
    exact congrArg not hsatisfied
  · have hlonger : options.c1 * record.stepSize * dot record.gradient record.direction ≤
        options.c1 * leastStep options.c1 L * dot record.gradient record.direction :=
      mul_le_mul_of_nonpos_right (mul_le_mul_of_nonneg_left hstep' hc1) hslope
    linarith

/-- A full step that is short enough is taken at the first trial. -/
lemma Steps.full_step (h : method.Steps obj s record t)
    (hrule : method.rule = .armijo options.armijo) (hshort : L ≤ 2 * (1 - options.c1))
    (hslope : dot record.gradient record.direction ≤ 0)
    (hline : (SearchLine.ofGradient record.wOld record.direction record.loss
      record.gradient).BendsAtMost obj L) :
    record.stepSize = 1 ∧ ∃ trial, record.lineSearch = some ⟨[trial], true⟩ ∧ trial.alpha = 1 ∧
      trial.satisfied = true := by
  obtain ⟨hsize, -, hlog⟩ := h.armijo hrule
  have haccepted := hline.le_threshold hslope zero_le_one le_rfl ((mul_one L).trans_le hshort)
  rw [searchAlong, SearchLine.searchPlain_of_le_threshold haccepted] at hsize hlog
  exact ⟨hsize, _, hlog, rfl, rfl⟩

end Method

/-! ### The length of a run -/

section Run

variable {algorithm : Algorithm} {options : Options ℝ} {trace : Trace ℝ}

lemma run_loss_zero (h : run algorithm obj options = .ok trace)
    (hpos : 0 < trace.iterations.length) :
    trace.iterations[0].loss = obj.value options.initialPoint := by
  obtain ⟨states, hstart, -, hist⟩ := run_history h
  rw [(run_record_faithful h 0 hpos).loss, (hist.steps 0 hpos).points.1, hstart]
  rfl

lemma run_next (h : run algorithm obj options = .ok trace) (i : ℕ)
    (hi : i + 1 < trace.iterations.length) :
    trace.iterations[i + 1].loss = trace.iterations[i].newLoss ∧
      trace.iterations[i + 1].gradNorm = trace.iterations[i].newGradNorm := by
  obtain ⟨states, -, -, hist⟩ := run_history h
  have hi' : i < trace.iterations.length := by omega
  have hpoint : trace.iterations[i + 1].wOld = trace.iterations[i].wNew := by
    rw [(hist.steps (i + 1) hi).points.1, (hist.steps i hi').points.2]
  have hnext := run_record_faithful h (i + 1) hi
  have hrecord := run_record_faithful h i hi'
  exact ⟨by rw [hnext.loss, hrecord.newLoss, hpoint],
    by rw [hnext.gradNorm, hrecord.newGradNorm, hpoint]⟩

/-- While the gradient stays large, every iteration after the first one takes its share. -/
lemma run_newLoss_le (h : run algorithm obj options = .ok trace) {delta rate gtol : ℝ}
    (hrate : 0 ≤ rate) (hgtol : 0 ≤ gtol)
    (hsteady : ∀ i (hi : i < trace.iterations.length), trace.iterations[i].IsSteady delta rate)
    (hlarge : ∀ i (hi : i < trace.iterations.length), gtol ≤ trace.iterations[i].newGradNorm)
    (i : ℕ) (hi : i < trace.iterations.length) :
    trace.iterations[i].newLoss ≤ obj.value options.initialPoint - i * (rate * gtol ^ 2) := by
  induction i with
  | zero =>
    have hdecrease := (hsteady 0 hi).decrease
    have hshare : (0 : ℝ) ≤ rate * trace.iterations[0].gradNorm ^ 2 := by positivity
    rw [run_loss_zero h hi] at hdecrease
    rw [Nat.cast_zero, zero_mul]
    linarith
  | succ i ih =>
    have hi' : i < trace.iterations.length := by omega
    obtain ⟨hloss, hnorm⟩ := run_next h i hi
    -- The gradient norm that sets the share is the one the rules let pass an iteration before.
    have hdecrease := (hsteady (i + 1) hi).decrease
    have hsquare : gtol ^ 2 ≤ trace.iterations[i + 1].gradNorm ^ 2 := by
      rw [hnorm]
      exact pow_le_pow_left₀ hgtol (hlarge i hi') 2
    have hshare := mul_le_mul_of_nonneg_left hsquare hrate
    have hearlier := ih hi'
    rw [hloss] at hdecrease
    push_cast
    linarith

/-- A run of steady iterations on an objective with a lower bound ends before its iterations are
used up, if they are enough to bring the value from the start to the bound. -/
lemma run_stops_early (h : run algorithm obj options = .ok trace) {delta rate bound : ℝ}
    (hrate : 0 < rate) (hgtol : 0 < options.termination.gtol)
    (hsteady : ∀ i (hi : i < trace.iterations.length), trace.iterations[i].IsSteady delta rate)
    (hbound : ∀ i (hi : i < trace.iterations.length), bound ≤ trace.iterations[i].newLoss)
    (hiter : 1 + (obj.value options.initialPoint - bound) /
      (rate * options.termination.gtol ^ 2) < options.maxIter) :
    trace.termination ≠ .maxIterations := by
  intro hlast
  have hstopped := run_stoppedBy h
  have hcriteria : options.criteria.gtol = options.termination.gtol := rfl
  obtain ⟨hlength, hsmall⟩ := hstopped.termination_eq_maxIterations_iff.mp hlast
  have hlarge : ∀ i (hi : i < trace.iterations.length),
      options.termination.gtol ≤ trace.iterations[i].newGradNorm := by
    intro i hi
    have hevaluate := hstopped.evaluate i hi
    split_ifs at hevaluate with hend
    · rw [hlast, StoppingCriteria.evaluate_eq_maxIterations_iff] at hevaluate
      exact not_lt.mp hevaluate.1.1
    · exact not_lt.mp (StoppingCriteria.evaluate_eq_none_iff.mp hevaluate).1.1
  have hpos := hstopped.length_pos
  have hfinal : trace.iterations.length - 1 < trace.iterations.length := by omega
  have hfall := run_newLoss_le h hrate.le hgtol.le hsteady hlarge _ hfinal
  have hshare : 0 < rate * options.termination.gtol ^ 2 := by positivity
  have hcount : ((trace.iterations.length - 1 : ℕ) : ℝ) = options.maxIter - 1 := by
    rw [hlength, Nat.cast_sub (by rw [← hlength]; exact hpos), Nat.cast_one]
    rfl
  have hfew : (obj.value options.initialPoint - bound) / (rate * options.termination.gtol ^ 2) <
      options.maxIter - 1 := by
    linarith
  rw [div_lt_iff₀ hshare, ← hcount] at hfew
  have hlower := hbound _ hfinal
  linarith

end Run

end Downhill
