import Downhill.Proofs.AcceptedOptions
import Downhill.Proofs.InverseBounds
import Downhill.Proofs.QuadraticValues

/-!
# The limited memory method on quadratic forms

The change of a quadratic form's gradient is the matrix times the step, so bounds of the matrix make
every pair tame, whichever pairs are skipped or evicted. That gives the inverse Hessians of a whole
run common bounds, hence steps of a common length and a common share of the squared gradient norm
for the decrease. Since the form has a lower bound, the gradient becomes small after a number of
iterations that is known beforehand.
-/

namespace Downhill
open Matrix

variable {n : ℕ} {A : Matrix (Fin n) (Fin n) ℝ} {b : Fin n → ℝ} {mu M low high : ℝ}

/-! ### Bounds of the matrix -/

lemma exists_isBetween (hA : A.IsSymm) (hbelow : ∀ v : Fin n → ℝ, mu * (v ⬝ᵥ v) ≤ v ⬝ᵥ A *ᵥ v) :
    ∃ M, 0 < M ∧ IsBetween mu M A := by
  have hsum : 0 ≤ ∑ i, ∑ j, |A i j| :=
    Finset.sum_nonneg fun i _ => Finset.sum_nonneg fun j _ => abs_nonneg _
  refine ⟨1 + ∑ i, ∑ j, |A i j|, by linarith, hA, hbelow, fun v => ?_⟩
  have hterm : ∀ i j, v i * (A i j * v j) ≤ |A i j| * (v ⬝ᵥ v) := by
    intro i j
    calc v i * (A i j * v j)
      _ = A i j * (v i * v j) := by ring
      _ ≤ |A i j * (v i * v j)| := le_abs_self _
      _ = |A i j| * |v i * v j| := abs_mul _ _
      _ ≤ |A i j| * (v ⬝ᵥ v) :=
        mul_le_mul_of_nonneg_left (abs_mul_le_dotProduct_self v i j) (abs_nonneg _)
  calc v ⬝ᵥ A *ᵥ v
    _ = ∑ i, ∑ j, v i * (A i j * v j) := by simp only [dotProduct, mulVec, Finset.mul_sum]
    _ ≤ ∑ i, ∑ j, |A i j| * (v ⬝ᵥ v) :=
      Finset.sum_le_sum fun i _ => Finset.sum_le_sum fun j _ => hterm i j
    _ = (∑ i, ∑ j, |A i j|) * (v ⬝ᵥ v) := by simp only [Finset.sum_mul]
    _ ≤ (1 + ∑ i, ∑ j, |A i j|) * (v ⬝ᵥ v) :=
      mul_le_mul_of_nonneg_right (by linarith) (dotProduct_self_nonneg v)

/-- A matrix with a positive lower bound brings points close whose images are close. -/
lemma norm_le_of_lower (hmu : 0 < mu) (hbelow : ∀ v : Fin n → ℝ, mu * (v ⬝ᵥ v) ≤ v ⬝ᵥ A *ᵥ v)
    (v : Fin n → ℝ) : norm (List.ofFn v) ≤ norm (List.ofFn (A *ᵥ v)) / mu := by
  rw [le_div_iff₀ hmu, mul_comm,
    ← sq_le_sq₀ (mul_nonneg hmu.le (norm_nonneg _)) (norm_nonneg _), mul_pow, norm_sq, norm_sq,
    dot_ofFn, dot_ofFn]
  by_cases hv : v = 0
  · simp [hv]
  · have hpos := dotProduct_self_pos hv
    refine le_of_mul_le_mul_left ?_ hpos
    calc v ⬝ᵥ v * (mu ^ 2 * (v ⬝ᵥ v))
      _ = (mu * (v ⬝ᵥ v)) ^ 2 := by ring
      _ ≤ (v ⬝ᵥ A *ᵥ v) ^ 2 := pow_le_pow_left₀ (mul_pos hmu hpos).le (hbelow v) 2
      _ ≤ v ⬝ᵥ v * (A *ᵥ v ⬝ᵥ A *ᵥ v) := dotProduct_sq_le _ _

lemma CurvaturePair.IsCurved.isTame (hA : IsBetween mu M A) (hmu : 0 < mu) (hM : 0 < M)
    {s : Fin n → ℝ} {rho : ℝ}
    (h : (CurvaturePair.mk (List.ofFn s) (List.ofFn (A *ᵥ s)) rho).IsCurved n) :
    (CurvaturePair.mk (List.ofFn s) (List.ofFn (A *ᵥ s)) rho).IsTame n (1 / mu) M := by
  refine ⟨h, ?_, ?_⟩
  · rw [dot_ofFn, dot_ofFn, one_div_mul_eq_div, le_div_iff₀ hmu, mul_comm]
    exact hA.lower s
  · rw [dot_ofFn, dot_ofFn]
    exact hA.mulVec_sq_le hmu.le hM s

/-! ### The iterations of a run -/

/-- The state of a run on the quadratic form whose memory holds tame pairs. -/
structure Method.IsTameState (A : Matrix (Fin n) (Fin n) ℝ) (b : Fin n → ℝ) (mu M : ℝ) (limit : ℕ)
    (s : RunState ℝ (CurvatureMemory ℝ)) : Prop
    extends IsSized (QuadraticForm.ofMatrix A b).objective n s where
  capacity : s.memory.capacity = limit
  memory : ∀ pair ∈ s.memory.toList, pair.IsTame n (1 / mu) M

namespace Method

variable {limit : ℕ} {params : ArmijoParams ℝ} {s t : RunState ℝ (CurvatureMemory ℝ)}
  {record : IterationRecord ℝ}

/-- The points of a step, and the matrix between common bounds that makes its direction. -/
lemma lbfgs_steps_isBetween (hbounds : BoundHeadings n (1 / mu) M limit low high)
    (h : (Method.lbfgs limit params).Steps (QuadraticForm.ofMatrix A b).objective s record t)
    (hs : IsTameState A b mu M limit s) :
    ∃ (w : Fin n → ℝ) (H : Matrix (Fin n) (Fin n) ℝ), record.wOld = List.ofFn w ∧
      record.gradient = List.ofFn (A *ᵥ w - b) ∧
      record.direction = List.ofFn (-(H *ᵥ (A *ᵥ w - b))) ∧ IsBetween low high H := by
  obtain ⟨w, hw⟩ := exists_eq_ofFn (h.points.1 ▸ hs.point : record.wOld.length = n)
  have hgradient : record.gradient = List.ofFn (A *ᵥ w - b) := by
    rw [(h.faithful hs.faithful).1.gradient, hw, QuadraticForm.gradient_ofMatrix]
  have hroom : s.memory.toList.reverse.length ≤ limit := by
    rw [List.length_reverse, CurvatureMemory.length_toList, ← hs.capacity]
    exact s.memory.size_le
  obtain ⟨H, hH, hdirection⟩ := hbounds.heading _ hroom
    (fun pair hpair => hs.memory pair (List.mem_reverse.mp hpair)) (A *ᵥ w - b)
  refine ⟨w, H, hw, hgradient, ?_, hH⟩
  rw [(lbfgs_steps h hs.faithful).1, hgradient, hdirection]

lemma lbfgs_steps_isTameState (hA : IsBetween mu M A) (hmu : 0 < mu) (hM : 0 < M)
    (hbounds : BoundHeadings n (1 / mu) M limit low high)
    (h : (Method.lbfgs limit params).Steps (QuadraticForm.ofMatrix A b).objective s record t)
    (hs : IsTameState A b mu M limit s) : IsTameState A b mu M limit t := by
  obtain ⟨w, H, hw, -, hdirection, -⟩ := lbfgs_steps_isBetween hbounds h hs
  have ht := h.isSized hs.toIsSized (by rw [hdirection, List.length_ofFn])
  obtain ⟨v, hv⟩ := exists_eq_ofFn (h.points.2 ▸ ht.point : record.wNew.length = n)
  have hmemory := (lbfgs_steps h hs.faithful).2.2
  have hstep : (record.pair (QuadraticForm.ofMatrix A b).objective).s = List.ofFn (v - w) := by
    rw [IterationRecord.pair, hw, hv]
    exact zipWith_ofFn _ v w
  have hchange : (record.pair (QuadraticForm.ofMatrix A b).objective).y =
      List.ofFn (A *ᵥ (v - w)) := by
    rw [IterationRecord.pair, hw, hv, QuadraticForm.gradient_ofMatrix,
      QuadraticForm.gradient_ofMatrix, mulVec_sub, ← sub_sub_sub_cancel_right (A *ᵥ v) (A *ᵥ w) b]
    exact zipWith_ofFn _ _ _
  rw [hstep, hchange] at hmemory
  -- The pair is tame whether it is taken in or not, and forgetting others does not matter.
  refine ⟨ht, ?_, ?_⟩
  · rw [hmemory, CurvatureMemory.capacity_learn, hs.capacity]
  · rw [hmemory]
    apply CurvatureMemory.forall_mem_learn hs.memory
    intro hcurvature
    apply CurvaturePair.IsCurved.isTame hA hmu hM
    exact CurvatureMemory.isCurved_of_hasCurvature List.length_ofFn List.length_ofFn hcurvature

end Method

/-- The share of the squared gradient norm by which every iteration lowers the value. -/
noncomputable def decreaseRate (c1 M low high : ℝ) : ℝ :=
  c1 * leastStep c1 (M * high) * low

/-- The form bends as much along a direction as the matrix behind the direction allows. -/
lemma form_direction_le {H : Matrix (Fin n) (Fin n) ℝ} (hA : IsBetween mu M A)
    (hM : 0 < M) (hH : IsBetween low high H) (hlow : 0 < low) (hhigh : 0 < high) (g : Fin n → ℝ) :
    -(H *ᵥ g) ⬝ᵥ A *ᵥ -(H *ᵥ g) ≤ -(M * high) * (g ⬝ᵥ -(H *ᵥ g)) := by
  rw [mulVec_neg, neg_dotProduct_neg, dotProduct_neg, neg_mul_neg]
  calc H *ᵥ g ⬝ᵥ A *ᵥ (H *ᵥ g)
    _ ≤ M * (H *ᵥ g ⬝ᵥ H *ᵥ g) := hA.upper _
    _ ≤ M * (high * (g ⬝ᵥ H *ᵥ g)) :=
      mul_le_mul_of_nonneg_left (hH.mulVec_sq_le hlow.le hhigh g) hM.le
    _ = M * high * (g ⬝ᵥ H *ᵥ g) := (mul_assoc ..).symm

lemma Method.lbfgs_steps_steady {limit : ℕ} {options : Options ℝ}
    {s t : RunState ℝ (CurvatureMemory ℝ)} {record : IterationRecord ℝ} (hA : IsBetween mu M A)
    (hmu : 0 < mu) (hM : 0 < M) (hbounds : BoundHeadings n (1 / mu) M limit low high)
    (hc1 : 0 < options.c1) (hc1_one : options.c1 < 1)
    (htrials : (1 / 2 : ℝ) ^ (options.maxLineSearchTrials - 1) ≤
      2 * (1 - options.c1) / (M * high))
    (h : (Method.lbfgs limit options.armijo).Steps (QuadraticForm.ofMatrix A b).objective s record
      t) (hs : IsTameState A b mu M limit s) :
    (record.IsSteady (leastStep options.c1 (M * high)) (decreaseRate options.c1 M low high) ∧
      record.wNew.length = n) ∧ IsTameState A b mu M limit t := by
  have ht := lbfgs_steps_isTameState hA hmu hM hbounds h hs
  refine ⟨⟨?_, h.points.2 ▸ ht.point⟩, ht⟩
  obtain ⟨w, H, hw, hgradient, hdirection, hH⟩ := lbfgs_steps_isBetween hbounds h hs
  have hfaithful := (h.faithful hs.faithful).1
  have hbend : 0 < M * high := mul_pos hM hbounds.high_pos
  have hslope : dot record.gradient record.direction = -((A *ᵥ w - b) ⬝ᵥ H *ᵥ (A *ᵥ w - b)) := by
    rw [hgradient, hdirection, dot_ofFn, dotProduct_neg]
  have hdown : dot record.gradient record.direction ≤ 0 := by
    rw [hslope]
    exact neg_nonpos_of_nonneg (hH.nonneg hbounds.low_pos.le _)
  have hline : (SearchLine.ofGradient record.wOld record.direction record.loss
      record.gradient).BendsAtMost (QuadraticForm.ofMatrix A b).objective (M * high) := by
    rw [hfaithful.loss, hw, hdirection, hgradient]
    exact QuadraticForm.bendsAtMost hA.symmetric
      (form_direction_le hA hM hH hbounds.low_pos hbounds.high_pos _)
  obtain ⟨hsatisfied, hstep, hdecrease⟩ := h.accepted rfl hbend hc1.le htrials hdown hline
  refine ⟨hsatisfied, hstep, ?_⟩
  have hnorm : record.gradNorm ^ 2 = (A *ᵥ w - b) ⬝ᵥ (A *ᵥ w - b) := by
    rw [hfaithful.gradNorm, ← hfaithful.gradient, hgradient, norm_sq, dot_ofFn]
  have hshare := mul_le_mul_of_nonneg_left (hH.lower (A *ᵥ w - b))
    (mul_pos hc1 (leastStep_pos hc1_one hbend)).le
  rw [hslope] at hdecrease
  rw [hnorm, decreaseRate]
  linarith

/-! ### The end of a run -/

lemma Trace.degradedLineSearches_eq_nil {trace : Trace ℝ}
    (h : ∀ i (hi : i < trace.iterations.length), trace.iterations[i].isDegraded = false) :
    trace.degradedLineSearches = [] := by
  rw [degradedLineSearches, List.map_eq_nil_iff, List.filter_eq_nil_iff]
  intro record hrecord
  obtain ⟨i, hi, rfl⟩ := List.mem_iff_getElem.mp hrecord
  simp [h i hi]

/-- Without the other tolerances a run that does not use up its iterations ends with a short
gradient. -/
lemma Trace.StoppedBy.ends_with_small_gradient {criteria : StoppingCriteria ℝ} {trace : Trace ℝ}
    (h : trace.StoppedBy criteria) (hftol : criteria.ftol = 0) (hxtol : criteria.xtol = 0)
    (hmore : trace.termination ≠ .maxIterations) :
    trace.termination = .gradientNorm ∧ ∃ i, ∃ hi : i < trace.iterations.length,
      trace.finalPoint? = some trace.iterations[i].wNew ∧
        trace.iterations[i].newGradNorm < criteria.gtol := by
  have hpos := h.length_pos
  have hlast : trace.iterations.length - 1 < trace.iterations.length := by omega
  have hend := h.evaluate _ hlast
  have hchange : ¬ Arithmetic.abs (trace.iterations[trace.iterations.length - 1].newLoss -
      trace.iterations[trace.iterations.length - 1].loss) < criteria.ftol := by
    rw [hftol]
    exact not_lt.mpr (abs_nonneg _)
  have hstep : ¬ trace.iterations[trace.iterations.length - 1].stepNorm < criteria.xtol := by
    rw [hxtol]
    exact not_lt.mpr (norm_nonneg _)
  have hpoint : trace.finalPoint? =
      some trace.iterations[trace.iterations.length - 1].wNew := by
    rw [finalPoint?, List.getLast?_eq_getElem?, List.getElem?_eq_getElem hlast, Option.map_some]
  rw [if_pos (by omega), StoppingCriteria.evaluate, if_neg hchange, if_neg hstep] at hend
  split_ifs at hend with hsmall hused
  · exact ⟨(Option.some_inj.mp hend).symm, _, hlast, hpoint, hsmall⟩
  · exact absurd (Option.some_inj.mp hend).symm hmore

lemma Method.isTameState_startState {options : Options ℝ}
    (h : options.validate .lbfgs (QuadraticForm.ofMatrix A b).objective.dim true = .ok ()) :
    IsTameState A b mu M options.memory ((Method.lbfgs options.memory options.armijo).startState
      (QuadraticForm.ofMatrix A b).objective options) := by
  have hlength := (Options.validate_eq_ok_iff.mp h).length.trans (QuadraticForm.dim_ofMatrix A b)
  exact ⟨⟨⟨rfl, rfl⟩, hlength⟩, rfl, CurvatureMemory.forall_mem_empty _⟩

/-- A run with trials down to a short step and with enough iterations for the way from the start to
the minimum. -/
lemma lbfgs_run_ends {options : Options ℝ} {trace : Trace ℝ} (hA : IsBetween mu M A)
    (hmu : 0 < mu) (hM : 0 < M) (hbounds : BoundHeadings n (1 / mu) M options.memory low high)
    {z : Fin n → ℝ} (hz : A *ᵥ z = b)
    (hgtol : 0 < options.termination.gtol) (hftol : options.termination.ftol = 0)
    (hxtol : options.termination.xtol = 0)
    (htrials : (1 / 2 : ℝ) ^ (options.maxLineSearchTrials - 1) ≤
      2 * (1 - options.c1) / (M * high))
    (hiter : 1 + ((QuadraticForm.ofMatrix A b).objective.value options.initialPoint -
      (QuadraticForm.ofMatrix A b).objective.value (List.ofFn z)) /
        (decreaseRate options.c1 M low high * options.termination.gtol ^ 2) < options.maxIter)
    (h : run .lbfgs (QuadraticForm.ofMatrix A b).objective options = .ok trace) :
    trace.termination = .gradientNorm ∧ trace.degradedLineSearches = [] ∧
      ∃ w, trace.finalPoint? = some w ∧
        norm (sub w (List.ofFn z)) ≤ options.termination.gtol / mu := by
  have hvalid := ((run_eq_ok_iff ..).mp h).1
  obtain ⟨hc1, hc1_one⟩ := (Options.validate_eq_ok_iff_isAccepted.mp hvalid).c1 rfl
  have hsteady := run_forall_records h
    (fun s : RunState ℝ (CurvatureMemory ℝ) => Method.IsTameState A b mu M options.memory s)
    (fun r => r.IsSteady (leastStep options.c1 (M * high)) (decreaseRate options.c1 M low high) ∧
      r.wNew.length = n)
    (Method.isTameState_startState hvalid)
    (fun _ _ _ hs hsteps =>
      Method.lbfgs_steps_steady hA hmu hM hbounds hc1 hc1_one htrials hsteps hs)
  have hbend : 0 < M * high := mul_pos hM hbounds.high_pos
  have hrate : 0 < decreaseRate options.c1 M low high :=
    mul_pos (mul_pos hc1 (leastStep_pos hc1_one hbend)) hbounds.low_pos
  have hbound : ∀ i (hi : i < trace.iterations.length),
      (QuadraticForm.ofMatrix A b).objective.value (List.ofFn z) ≤ trace.iterations[i].newLoss := by
    intro i hi
    obtain ⟨v, hv⟩ := exists_eq_ofFn (hsteady i hi).2
    have hform := hA.nonneg hmu.le (v - z)
    rw [(run_record_faithful h i hi).newLoss, hv,
      QuadraticForm.value_eq_of_solution (w := v) hA.symmetric hz]
    linarith
  have hmore := run_stops_early h hrate hgtol (fun i hi => (hsteady i hi).1) hbound hiter
  obtain ⟨hreason, i, hi, hpoint, hsmall⟩ :=
    (run_stoppedBy h).ends_with_small_gradient hftol hxtol hmore
  refine ⟨hreason, Trace.degradedLineSearches_eq_nil fun i hi => (hsteady i hi).1.satisfied, _,
    hpoint, ?_⟩
  obtain ⟨v, hv⟩ := exists_eq_ofFn (hsteady i hi).2
  have hgradient : trace.iterations[i].newGradNorm = norm (List.ofFn (A *ᵥ (v - z))) := by
    rw [(run_record_faithful h i hi).newGradNorm, hv, QuadraticForm.gradient_ofMatrix, mulVec_sub,
      hz]
  have hdistance : sub (List.ofFn v) (List.ofFn z) = List.ofFn (v - z) := zipWith_ofFn _ v z
  rw [hv, hdistance]
  calc norm (List.ofFn (v - z))
    _ ≤ norm (List.ofFn (A *ᵥ (v - z))) / mu := norm_le_of_lower hmu hA.lower _
    _ ≤ options.termination.gtol / mu := by
      rw [← hgradient]
      exact div_le_div_of_nonneg_right hsmall.le hmu.le

/-- On a quadratic form with curvature at least `mu` the limited memory method, with trials and
iterations enough for the form, the start and the options, ends with a short gradient, without a
degraded line search, and close to the minimizer. -/
theorem lbfgs_solves_quadratic {n : ℕ} (A : Matrix (Fin n) (Fin n) ℝ) (hA : A.IsSymm) (mu : ℝ)
    (hmu : 0 < mu) (hbelow : ∀ v : Fin n → ℝ, mu * (v ⬝ᵥ v) ≤ v ⬝ᵥ A *ᵥ v) (b start : Fin n → ℝ)
    (memory : ℕ) (hmemory : 0 < memory) (c1 : ℝ) (hc1 : 0 < c1) (hc1_one : c1 < 1) (gtol : ℝ)
    (hgtol : 0 < gtol) :
    ∃ trials iterations : ℕ, ∀ options : Options ℝ, options.initialPoint = List.ofFn start →
      options.memory = memory → options.c1 = c1 → options.termination = ⟨gtol, 0, 0⟩ →
      trials ≤ options.maxLineSearchTrials → iterations ≤ options.maxIter →
      (0 < n → ∃ trace, run .lbfgs (QuadraticForm.ofMatrix A b).objective options = .ok trace) ∧
      ∀ trace, run .lbfgs (QuadraticForm.ofMatrix A b).objective options = .ok trace →
        trace.termination = .gradientNorm ∧ trace.degradedLineSearches = [] ∧
        ∃ w, trace.finalPoint? = some w ∧
          norm (sub w (List.ofFn (A⁻¹ *ᵥ b))) ≤ gtol / mu := by
  obtain ⟨M, hM, hbetween⟩ := exists_isBetween hA hbelow
  have hz := mulVec_inv_of_posDef (posDef_of_lower hA hmu hbelow) b
  obtain ⟨low, high, hbounds⟩ := exists_boundHeadings n (one_div_pos.mpr hmu) hM memory
  have hlimit : 0 < 2 * (1 - c1) / (M * high) :=
    div_pos (mul_pos two_pos (sub_pos.mpr hc1_one)) (mul_pos hM hbounds.high_pos)
  obtain ⟨cuts, hcuts⟩ := exists_pow_lt_of_lt_one hlimit one_half_lt_one
  obtain ⟨enough, henough⟩ := exists_nat_gt
    (1 + ((QuadraticForm.ofMatrix A b).objective.value (List.ofFn start) -
      (QuadraticForm.ofMatrix A b).objective.value (List.ofFn (A⁻¹ *ᵥ b))) /
        (decreaseRate c1 M low high * gtol ^ 2))
  refine ⟨cuts + 1, enough + 1, ?_⟩
  rintro options hstart rfl rfl htermination htrials hiter
  constructor
  · intro hn
    have hlength : options.initialPoint.length = (QuadraticForm.ofMatrix A b).objective.dim := by
      rw [hstart, List.length_ofFn, QuadraticForm.dim_ofMatrix]
    have htolerances : options.termination.fault? = none := by
      rw [htermination, Tolerances.fault?_eq_none_iff]
      exact ⟨hgtol.le, le_rfl, le_rfl⟩
    have haccepted : options.IsAccepted .lbfgs (QuadraticForm.ofMatrix A b).objective.dim true :=
      Options.isAccepted_lbfgs ((QuadraticForm.dim_ofMatrix A b).symm ▸ hn) hlength (by omega)
        hmemory ⟨hc1, hc1_one⟩ (by omega) htolerances
    obtain ⟨trace, hrun, -⟩ := exists_trace_of_isAccepted (fun _ _ => rfl) haccepted
    exact ⟨trace, hrun⟩
  · intro trace hrun
    have hshort : (1 / 2 : ℝ) ^ (options.maxLineSearchTrials - 1) ≤
        2 * (1 - options.c1) / (M * high) :=
      (pow_le_pow_of_le_one one_half_pos.le one_half_lt_one.le (by omega)).trans hcuts.le
    have hcast : (enough : ℝ) ≤ options.maxIter := by exact_mod_cast (by omega)
    have hstop : options.termination.gtol = gtol := by rw [htermination]
    have hends := lbfgs_run_ends hbetween hmu hM hbounds hz (hstop ▸ hgtol) (by rw [htermination])
      (by rw [htermination]) hshort (by rw [hstart, hstop]; exact henough.trans_le hcast) hrun
    rwa [hstop] at hends

/-- Iterations with room for two pairs, until the gradient is short. -/
noncomputable def ovalMemoryOptions (trials iterations : ℕ) : Options ℝ :=
  { Options.standard ⟨1e-6, 0, 0⟩ with
    maxIter := iterations
    initialPoint := List.ofFn ![1, -1]
    memory := 2
    maxLineSearchTrials := trials }

theorem oval_run_reaches_minimizer : ∃ trials iterations trace,
    run .lbfgs (QuadraticForm.ofMatrix ovalMatrix ![1, 0]).objective
      (ovalMemoryOptions trials iterations) = .ok trace ∧
      trace.termination = .gradientNorm ∧ trace.degradedLineSearches = [] ∧
      ∃ w, trace.finalPoint? = some w ∧
        norm (sub w (List.ofFn (ovalMatrix⁻¹ *ᵥ ![1, 0]))) ≤ 1e-6 / 1 := by
  obtain ⟨trials, iterations, hsolves⟩ := lbfgs_solves_quadratic ovalMatrix ovalMatrix_isSymm 1
    one_pos ovalMatrix_lower ![1, 0] ![1, -1] 2 two_pos 1e-4 (by norm_num) (by norm_num) 1e-6
    (by norm_num)
  obtain ⟨hruns, hends⟩ :=
    hsolves (ovalMemoryOptions trials iterations) rfl rfl rfl rfl le_rfl le_rfl
  obtain ⟨trace, hrun⟩ := hruns two_pos
  exact ⟨trials, iterations, trace, hrun, hends trace hrun⟩

end Downhill
