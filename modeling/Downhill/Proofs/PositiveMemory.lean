import Downhill.Proofs.SufficientDecrease
import Downhill.Proofs.MemoryQueue
import Downhill.Proofs.AcceptedOptions
import Downhill.Problem.Analytic

/-!
# Downhill with any memory

The limited memory takes in a pair only if it shows positive curvature, and forgets pairs without
changing others. So every pair in it is positive at all times, whatever the objective is and
whichever pairs were skipped and evicted before. The two-loop product over such pairs is positive
definite, and steepest descent is the case without pairs: both methods go downhill, and a satisfied
line search lowers the value.
-/

namespace Downhill
open Matrix

variable {n : ℕ}

/-- A pair of vectors of dimension `n` with a positive curvature and a change of the gradient. -/
structure CurvaturePair.IsCurved (n : ℕ) (pair : CurvaturePair ℝ) : Prop where
  dim : pair.HasDim n
  positive : pair.IsPositive
  change_pos : 0 < dot pair.y pair.y

lemma isDescent_lbfgsHeading {gradient : List ℝ} {pairs : List (CurvaturePair ℝ)}
    (hlength : gradient.length = n) (hpairs : ∀ pair ∈ pairs, pair.IsCurved n) :
    IsDescent n gradient (lbfgsHeading pairs gradient).direction := by
  cases pairs with
  | nil => exact .neg_gradient hlength
  | cons newest older =>
    obtain ⟨g, rfl⟩ := exists_eq_ofFn hlength
    refine ⟨inverseHessian n newest older, ?_, ?_⟩
    · exact isPositiveForm_inverseHessian (hpairs newest List.mem_cons_self).dim
        fun pair hpair => (hpairs pair hpair).positive
    · rw [coords_ofFn, ← neg_ofFn, ← recursion_eq_mulVec fun pair hpair => (hpairs pair hpair).dim]
      rfl

namespace CurvatureMemory

/-- A step with positive curvature has a change of the gradient. -/
lemma isCurved_of_hasCurvature {s y : List ℝ} (hs : s.length = n) (hy : y.length = n)
    (h : hasCurvature s y = true) : (CurvaturePair.mk s y (1 / dot s y)).IsCurved n := by
  have hsy : 0 < dot s y := by
    have hgap : (0 : ℝ) ≤ Arithmetic.epsilon := by
      change (0 : ℝ) ≤ 1 / 2 ^ 52
      positivity
    have hbound := mul_nonneg (mul_nonneg hgap (norm_nonneg s)) (norm_nonneg y)
    exact lt_of_le_of_lt hbound ((hasCurvature_iff s y).mp h)
  refine ⟨⟨hs, hy⟩, ⟨hsy, rfl⟩, ?_⟩
  obtain ⟨x, rfl⟩ := exists_eq_ofFn hs
  obtain ⟨z, rfl⟩ := exists_eq_ofFn hy
  rw [dot_ofFn] at hsy ⊢
  apply dotProduct_self_pos
  rintro rfl
  simp at hsy

lemma forall_mem_empty {P : CurvaturePair ℝ → Prop} (capacity : ℕ) :
    ∀ pair ∈ (empty capacity : CurvatureMemory ℝ).toList, P pair := by
  simp

/-- What holds of the pairs in a memory and of a new pair with curvature is kept by taking it in. -/
lemma forall_mem_learn {P : CurvaturePair ℝ → Prop} {m : CurvatureMemory ℝ} {s y : List ℝ}
    (hm : ∀ pair ∈ m.toList, P pair) (hnew : hasCurvature s y = true → P ⟨s, y, 1 / dot s y⟩) :
    ∀ pair ∈ (m.learn s y).2.toList, P pair := by
  intro pair hpair
  unfold learn at hpair
  split at hpair
  · rename_i hcurvature
    rw [toList_push] at hpair
    rcases List.mem_append.mp (List.mem_of_mem_drop hpair) with hold | hpair
    · exact hm pair hold
    · rw [List.mem_singleton.mp hpair]
      exact hnew hcurvature
  · exact hm pair hpair

end CurvatureMemory

/-- A record of a step downhill, from a memory in which every pair is positive. -/
structure IterationRecord.GoesDownhill (r : IterationRecord ℝ) : Prop where
  slope : (∀ x ∈ r.gradient, x = 0) ∨ dot r.gradient r.direction < 0
  memory : ∀ note ∈ r.lbfgs, ∀ pair ∈ note.memory, 0 < dot pair.s pair.y ∧ 0 < dot pair.y pair.y
  /-- The scaling is never the fallback. -/
  gamma : ∀ note ∈ r.lbfgs, ∀ stages ∈ note.twoLoop, ∃ newest ∈ note.memory.getLast?,
    stages.gamma = dot newest.s newest.y / dot newest.y newest.y
  decrease : ∃ log, r.lineSearch = some log ∧
    (log.satisfied = true → r.newLoss < r.loss ∨
      r.newLoss = r.loss ∧ ∀ x ∈ r.gradient, x = 0)

namespace Method

variable {σ : Type} {obj : Objective ℝ} {params : ArmijoParams ℝ} {limit : ℕ}
  {record : IterationRecord ℝ}

/-- The state of a run whose memory holds positive pairs. -/
structure IsCurvedState (obj : Objective ℝ) (n : ℕ) (s : RunState ℝ (CurvatureMemory ℝ)) :
    Prop extends IsSized obj n s where
  memory : ∀ pair ∈ s.memory.toList, pair.IsCurved n

section Lbfgs

variable {s t : RunState ℝ (CurvatureMemory ℝ)}

lemma lbfgs_steps_isDescent (h : (Method.lbfgs limit params).Steps obj s record t)
    (hs : IsCurvedState obj n s) (hgradient : record.gradient.length = n) :
    IsDescent n record.gradient record.direction := by
  rw [(lbfgs_steps h hs.faithful).1]
  apply isDescent_lbfgsHeading hgradient
  intro pair hpair
  exact hs.memory pair (List.mem_reverse.mp hpair)

lemma lbfgs_steps_isCurvedState (hdim : ∀ w, w.length = n → (obj.gradient w).length = n)
    (h : (Method.lbfgs limit params).Steps obj s record t) (hs : IsCurvedState obj n s) :
    IsCurvedState obj n t := by
  have hgradient := h.gradient_length hdim hs.toIsSized
  have ht := h.isSized hs.toIsSized (lbfgs_steps_isDescent h hs hgradient).length_eq
  have hold : record.wOld.length = n := h.points.1 ▸ hs.point
  have hnew : record.wNew.length = n := h.points.2 ▸ ht.point
  refine ⟨ht, ?_⟩
  rw [(lbfgs_steps h hs.faithful).2.2]
  apply CurvatureMemory.forall_mem_learn hs.memory
  apply CurvatureMemory.isCurved_of_hasCurvature
  · exact length_sub hnew hold
  · exact length_sub (hdim _ hnew) (hdim _ hold)

/-- The note of a step shows a memory of positive pairs, whose newest one sets the scaling. -/
lemma lbfgs_steps_note (h : (Method.lbfgs limit params).Steps obj s record t)
    (hs : IsCurvedState obj n s) : ∃ note, record.lbfgs = some note ∧
      (∀ pair ∈ note.memory, pair.IsCurved n) ∧
      ∀ stages ∈ note.twoLoop, ∃ newest ∈ note.memory.getLast?,
        stages.gamma = dot newest.s newest.y / dot newest.y newest.y := by
  refine ⟨_, (lbfgs_steps h hs.faithful).2.1, hs.memory, ?_⟩
  intro stages hstages
  dsimp only at hstages ⊢
  cases hpairs : s.memory.toList.reverse with
  | nil => simp [hpairs, lbfgsHeading] at hstages
  | cons newest older =>
    have hlast : s.memory.toList.getLast? = some newest := by
      rw [List.getLast?_eq_head?_reverse, hpairs, List.head?_cons]
    have hcurved := hs.memory newest (List.mem_of_getLast? hlast)
    refine ⟨newest, hlast, ?_⟩
    simp only [hpairs, lbfgsHeading, Option.mem_some_iff] at hstages
    rw [← hstages]
    exact if_pos hcurved.change_pos

end Lbfgs

/-- A step along a descent direction by a line search goes downhill. -/
lemma Steps.slope_and_decrease {method : Method ℝ σ} {s t : RunState ℝ σ}
    (h : method.Steps obj s record t) {options : Options ℝ}
    (hrule : method.rule = .armijo options.armijo) (hc1 : 0 < options.c1) (hs : IsSized obj n s)
    (hgradient : record.gradient.length = n)
    (hdescent : IsDescent n record.gradient record.direction) :
    ((∀ x ∈ record.gradient, x = 0) ∨ dot record.gradient record.direction < 0) ∧
      ∃ log, record.lineSearch = some log ∧
        (log.satisfied = true → record.newLoss < record.loss ∨
          record.newLoss = record.loss ∧ ∀ x ∈ record.gradient, x = 0) := by
  have hrho : 0 < options.armijo.rho := by
    change (0 : ℝ) < 0.5
    norm_num
  have hpoint : record.wOld.length = n := h.points.1 ▸ hs.point
  refine ⟨?_, h.decrease hrule hc1 one_pos hrho hs.faithful hpoint hgradient hdescent⟩
  by_cases hzero : ∀ x ∈ record.gradient, x = 0
  · exact .inl hzero
  · exact .inr (hdescent.slope_neg hgradient hzero)

variable {options : Options ℝ}

lemma steepest_steps_goesDownhill (hdim : ∀ w, w.length = n → (obj.gradient w).length = n)
    (hc1 : 0 < options.c1) {s t : RunState ℝ Unit}
    (h : (Method.steepest (.armijo options.armijo)).Steps obj s record t) (hs : IsSized obj n s) :
    record.GoesDownhill ∧ IsSized obj n t := by
  obtain ⟨hdirection, -, hnote⟩ := steepest_steps h
  have hgradient := h.gradient_length hdim hs
  have hdescent : IsDescent n record.gradient record.direction :=
    hdirection ▸ .neg_gradient hgradient
  obtain ⟨hslope, hdecrease⟩ := h.slope_and_decrease rfl hc1 hs hgradient hdescent
  refine ⟨⟨hslope, ?_, ?_, hdecrease⟩, h.isSized hs hdescent.length_eq⟩
  · simp [hnote]
  · simp [hnote]

lemma lbfgs_steps_goesDownhill (hdim : ∀ w, w.length = n → (obj.gradient w).length = n)
    (hc1 : 0 < options.c1) {s t : RunState ℝ (CurvatureMemory ℝ)}
    (h : (Method.lbfgs limit options.armijo).Steps obj s record t) (hs : IsCurvedState obj n s) :
    (record.GoesDownhill ∧ record.lbfgs.isSome) ∧ IsCurvedState obj n t := by
  have hgradient := h.gradient_length hdim hs.toIsSized
  obtain ⟨hslope, hdecrease⟩ := h.slope_and_decrease rfl hc1 hs.toIsSized hgradient
    (lbfgs_steps_isDescent h hs hgradient)
  obtain ⟨note, hnote, hmemory, hgamma⟩ := lbfgs_steps_note h hs
  refine ⟨⟨⟨hslope, ?_, ?_, hdecrease⟩, by rw [hnote]; rfl⟩, lbfgs_steps_isCurvedState hdim h hs⟩
  · simp only [hnote, Option.mem_some_iff, forall_eq']
    exact fun pair hpair => ⟨(hmemory pair hpair).positive.1, (hmemory pair hpair).change_pos⟩
  · simpa only [hnote, Option.mem_some_iff, forall_eq'] using hgamma

end Method

lemma run_records_goDownhill {algorithm : Algorithm} {obj : Objective ℝ} {options : Options ℝ}
    {trace : Trace ℝ} (halgorithm : algorithm = .lbfgs ∨ algorithm = .gradientDescentLineSearch)
    (hdim : ∀ w, w.length = obj.dim → (obj.gradient w).length = obj.dim)
    (h : run algorithm obj options = .ok trace) (i : ℕ) (hi : i < trace.iterations.length) :
    trace.iterations[i].GoesDownhill ∧
      (algorithm = .lbfgs → trace.iterations[i].lbfgs.isSome) := by
  have hvalid := ((run_eq_ok_iff ..).mp h).1
  rcases halgorithm with rfl | rfl
  · have hc1 := ((Options.validate_eq_ok_iff.mp hvalid).c1 rfl).1
    have hstart : Method.IsCurvedState obj obj.dim
        ((Method.lbfgs options.memory options.armijo).startState obj options) :=
      ⟨Method.isSized_startState hvalid, CurvatureMemory.forall_mem_empty _⟩
    obtain ⟨hdown, hnote⟩ := run_forall_records h
      (fun s : RunState ℝ (CurvatureMemory ℝ) => Method.IsCurvedState obj obj.dim s)
      (fun r => r.GoesDownhill ∧ r.lbfgs.isSome) hstart
      (fun _ _ _ hs hsteps => Method.lbfgs_steps_goesDownhill hdim hc1 hsteps hs) i hi
    exact ⟨hdown, fun _ => hnote⟩
  · have hc1 := ((Options.validate_eq_ok_iff.mp hvalid).c1 rfl).1
    have hdown := run_forall_records h
      (fun s : RunState ℝ Unit => Method.IsSized obj obj.dim s) IterationRecord.GoesDownhill
      (Method.isSized_startState hvalid)
      (fun _ _ _ hs hsteps => Method.steepest_steps_goesDownhill hdim hc1 hsteps hs) i hi
    exact ⟨hdown, fun heq => by cases heq⟩

lemma IterationRecord.GoesDownhill.newLoss_le {r : IterationRecord ℝ} (h : r.GoesDownhill)
    (hdegraded : r.isDegraded = false) : r.newLoss ≤ r.loss := by
  obtain ⟨log, hlog, hdecrease⟩ := h.decrease
  have hsatisfied : log.satisfied = true := by simpa [isDegraded, hlog] using hdegraded
  rcases hdecrease hsatisfied with hlt | ⟨heq, -⟩
  · exact hlt.le
  · exact heq.le

/-- In exact arithmetic the methods with a line search that need no Hessian go downhill in every
record, from memories of positive pairs only, and the losses never rise across a step whose line
search was satisfied. -/
theorem line_search_run_goes_downhill (algorithm : Algorithm)
    (halgorithm : algorithm = .lbfgs ∨ algorithm = .gradientDescentLineSearch)
    (obj : Objective ℝ) (hdim : ∀ w, w.length = obj.dim → (obj.gradient w).length = obj.dim)
    (options : Options ℝ) (trace : Trace ℝ) (h : run algorithm obj options = .ok trace) (i : ℕ)
    (hi : i < trace.iterations.length) :
    trace.iterations[i].GoesDownhill ∧
      (algorithm = .lbfgs → trace.iterations[i].lbfgs.isSome) ∧
      ∃ before after, trace.losses[i]? = some before ∧ trace.losses[i + 1]? = some after ∧
        (trace.iterations[i].isDegraded = false → after ≤ before) := by
  obtain ⟨hdown, hnote⟩ := run_records_goDownhill halgorithm hdim h i hi
  obtain ⟨hbefore, hafter⟩ := run_losses_getElem? h i hi
  exact ⟨hdown, hnote, _, _, hbefore, hafter, hdown.newLoss_le⟩

/-- Four iterations in exact arithmetic on a function without a lower bound. -/
noncomputable def saddleOptions : Options ℝ :=
  { Options.standard ⟨0, 0, 0⟩ with
    maxIter := 4
    initialPoint := AnalyticProblem.saddle.initialPoint }

lemma saddle_run (algorithm : Algorithm) : ∃ trace,
    run algorithm (AnalyticProblem.saddle.objective : Objective ℝ) saddleOptions = .ok trace ∧
      0 < trace.iterations.length := by
  have hdamping : (0 : ℝ) ≤ 0.01 := by norm_num
  exact exists_trace_of_isAccepted (fun _ _ => rfl)
    (Options.isAccepted_standard le_rfl (Nat.succ_pos 3) (List.cons_ne_nil _ _) hdamping algorithm)

lemma saddle_gradient (x y : ℝ) : AnalyticProblem.saddle.gradient [x, y] = [2 * x, -2 * y] := by
  change [2.0 * x, -2.0 * y] = _
  norm_num

/-- Any step from the start along the negative gradient shows positive curvature: the first coordinate,
in which the function curves up, outweighs the second one. -/
lemma saddle_pair_hasCurvature {r : IterationRecord ℝ}
    (hr : r.Faithful AnalyticProblem.saddle.objective) (hstart : r.wOld = [1, 0.1])
    (hdirection : r.direction = neg r.gradient) (hsize : 0 < r.stepSize) :
    let pair := r.pair AnalyticProblem.saddle.objective
    CurvatureMemory.hasCurvature pair.s pair.y = true := by
  intro pair
  have hold : AnalyticProblem.saddle.objective.gradient r.wOld = [2, (-0.2 : ℝ)] := by
    rw [hstart]
    refine (saddle_gradient 1 0.1).trans ?_
    norm_num
  have hnew : r.wNew = [1 - 2 * r.stepSize, 0.1 + 0.2 * r.stepSize] := by
    rw [hr.wNew, hdirection, hr.gradient, hold, hstart]
    change [1 + r.stepSize * -2, 0.1 + r.stepSize * - -0.2] = _
    ring_nf
  have hs : pair.s = [-2 * r.stepSize, 0.2 * r.stepSize] := by
    change sub r.wNew r.wOld = _
    rw [hnew, hstart]
    change [1 - 2 * r.stepSize - 1, 0.1 + 0.2 * r.stepSize - 0.1] = _
    ring_nf
  have hy : pair.y = [-4 * r.stepSize, -0.4 * r.stepSize] := by
    change sub (AnalyticProblem.saddle.gradient r.wNew) _ = _
    rw [hold, hnew, saddle_gradient]
    change [2 * (1 - 2 * r.stepSize) - 2, -2 * (0.1 + 0.2 * r.stepSize) - -0.2] = _
    ring_nf
  have hcurvature : dot pair.s pair.y = 7.92 * r.stepSize ^ 2 := by
    rw [hs, hy]
    simp [dot]
    ring
  have hlengths : dot pair.s pair.s + dot pair.y pair.y = 20.2 * r.stepSize ^ 2 := by
    rw [hs, hy]
    simp [dot]
    ring
  have hproduct := two_mul_le_add_sq (norm pair.s) (norm pair.y)
  rw [norm_sq, norm_sq, hlengths] at hproduct
  have hsquare : 0 < r.stepSize ^ 2 := pow_pos hsize 2
  rw [CurvatureMemory.hasCurvature_iff, hcurvature]
  change (1 / 2 ^ 52 : ℝ) * norm pair.s * norm pair.y < _
  linarith

/-- The first step stores its pair, and no tolerance ends the run after it. -/
lemma saddle_second_record {trace : Trace ℝ}
    (h : run .lbfgs AnalyticProblem.saddle.objective saddleOptions = .ok trace) :
    ∃ hi : 1 < trace.iterations.length, ∃ note, trace.iterations[1].lbfgs = some note ∧
      note.memory.length = 1 := by
  obtain ⟨states, hstart, -, hist⟩ := run_history h
  have hfaithful := hist.faithful (by rw [hstart]; exact ⟨rfl, rfl⟩)
  have hpos := hist.length_pos
  have hfirst := hist.steps 0 hpos
  have hrecord := (hfirst.faithful (hfaithful 0 (Nat.zero_le _))).1
  have hi : 1 < trace.iterations.length := by
    by_contra hshort
    have hlast := hist.evaluate 0 hpos
    rw [if_pos (by omega)] at hlast
    have hnone : saddleOptions.criteria.evaluate trace.iterations[0].progress = none := by
      refine StoppingCriteria.evaluate_eq_none_iff.mpr ⟨⟨?_, ?_, ?_⟩, ?_⟩
      · exact not_lt.mpr ((norm_nonneg _).trans_eq hrecord.newGradNorm.symm)
      · exact not_lt.mpr (abs_nonneg _)
      · exact not_lt.mpr (norm_nonneg _)
      · rw [hist.record_iterations (by rw [hstart]; rfl)]
        decide
    rw [hnone] at hlast
    cases hlast
  obtain ⟨hdirection, -, hmemory⟩ := Method.lbfgs_steps hfirst (hfaithful 0 (Nat.zero_le _))
  obtain ⟨-, hnote, -⟩ := Method.lbfgs_steps (hist.steps 1 hi) (hfaithful 1 hi.le)
  have hrho : (0 : ℝ) < saddleOptions.armijo.rho := by
    change (0 : ℝ) < 0.5
    norm_num
  rw [hstart] at hdirection hmemory
  have hcurvature := saddle_pair_hasCurvature hrecord
    (hfirst.points.1.trans (by rw [hstart]; rfl)) hdirection (hfirst.stepSize_pos rfl one_pos hrho)
  refine ⟨hi, _, hnote, ?_⟩
  rw [hmemory, CurvatureMemory.learn, if_pos hcurvature]
  rfl

theorem saddle_run_goes_downhill : ∃ trace,
    run .lbfgs (AnalyticProblem.saddle.objective : Objective ℝ) saddleOptions = .ok trace ∧
      ∃ hi : 1 < trace.iterations.length, trace.iterations[1].GoesDownhill ∧
        ∃ note, trace.iterations[1].lbfgs = some note ∧ note.memory.length = 1 := by
  obtain ⟨trace, hrun, -⟩ := saddle_run .lbfgs
  obtain ⟨hi, hnote⟩ := saddle_second_record hrun
  obtain ⟨hdown, -⟩ := line_search_run_goes_downhill .lbfgs (.inl rfl)
    AnalyticProblem.saddle.objective (fun _ _ => rfl) saddleOptions trace hrun 1 hi
  exact ⟨trace, hrun, hi, hdown, hnote⟩

end Downhill
