import Downhill.Problem.Analytic
import Downhill.Proofs.DirectionLengths

/-!
# When runs start and stop

On an objective whose gradients and Hessians have its dimension only two things can keep a run from
answering with a trace: the check of the options, and a list that is set aside in full and finds no
room. A run stops after the first record to which a stopping rule applies, and what the rules look at
can be read off that record.
-/

namespace Downhill

variable {F : Type} [Arithmetic F]

/-- A method finds a heading where the second derivatives are known, if it reads them. -/
lemma Algorithm.exists_heading (algorithm : Algorithm) (obj : Objective F) (options : Options F)
    (s : RunState F (algorithm.method obj options).1)
    (h : algorithm.needsHessian = true → (obj.hessian s.current.point).isSome) :
    ∃ p, ((algorithm.method obj options).2.heading s.memory s.current).run s.counts = .ok p := by
  cases algorithm with
  | gradientDescent => exact ⟨_, Method.steepest_heading_run _ s.current s.counts⟩
  | gradientDescentLineSearch => exact ⟨_, Method.steepest_heading_run _ s.current s.counts⟩
  | lbfgs => exact ⟨_, Method.lbfgs_heading_run _ _ s.memory s.current s.counts⟩
  | diagonalPreconditioner =>
    obtain ⟨hessian, hh⟩ := Option.isSome_iff_exists.mp (h rfl)
    exact ⟨_, (Method.diagonal_heading_run obj _ _ s.current s.counts).trans (by rw [hh])⟩
  | newton =>
    obtain ⟨hessian, hh⟩ := Option.isSome_iff_exists.mp (h rfl)
    exact ⟨_, (Method.newton_heading_run obj _ _ s.current s.counts).trans (by rw [hh])⟩

/-- Accepted options lead to a trace if there is room for what is set aside and headings are found
from all states of a kind that the run starts in and keeps to. -/
lemma exists_trace_of_invariant (algorithm : Algorithm) (obj : Objective F) (options : Options F)
    (P : RunState F (algorithm.method obj options).1 → Prop)
    (hstart : P ((algorithm.method obj options).2.startState obj options))
    (hheading : ∀ s, P s →
      ∃ p, ((algorithm.method obj options).2.heading s.memory s.current).run s.counts = .ok p)
    (hstep : ∀ s record t, P s → (algorithm.method obj options).2.Steps obj s record t → P t)
    (h : options.validate algorithm obj.dim obj.hasHessian = .ok ())
    (hroom : options.HasRoom algorithm) : ∃ trace, run algorithm obj options = .ok trace := by
  obtain ⟨records, reason, t, hruns⟩ := Method.exists_runs _ obj options.criteria P
    hheading hstep _ hstart (Options.validate_eq_ok_iff.mp h).maxIter
  exact ⟨⟨algorithm, records, reason, t.counts⟩,
    (run_eq_ok_iff ..).mpr ⟨h, rfl, hroom, t, hruns, rfl⟩⟩

/-- Second derivatives are only asked for at points of the dimension of the objective, if the method
keeps to such points. -/
lemma exists_trace_of_isSized (algorithm : Algorithm) {obj : Objective F} {options : Options F}
    (hhessian : algorithm.needsHessian = true →
      ∀ w, w.length = obj.dim → (obj.hessian w).isSome)
    (hstep : ∀ s record t, Method.IsSized obj obj.dim s →
      (algorithm.method obj options).2.Steps obj s record t → Method.IsSized obj obj.dim t)
    (h : options.validate algorithm obj.dim obj.hasHessian = .ok ())
    (hroom : options.HasRoom algorithm) : ∃ trace, run algorithm obj options = .ok trace :=
  exists_trace_of_invariant algorithm obj options (fun s => Method.IsSized obj obj.dim s)
    (Method.isSized_startState h)
    (fun s hs => algorithm.exists_heading obj options s fun hneeds => hhessian hneeds _ hs.point)
    hstep h hroom

lemma exists_trace_of_hessian (algorithm : Algorithm) (obj : Objective F) (options : Options F)
    (hhessian : algorithm.needsHessian = true → ∀ w, (obj.hessian w).isSome)
    (h : options.validate algorithm obj.dim obj.hasHessian = .ok ())
    (hroom : options.HasRoom algorithm) : ∃ trace, run algorithm obj options = .ok trace :=
  exists_trace_of_invariant algorithm obj options (fun _ => True) trivial
    (fun s _ => algorithm.exists_heading obj options s fun hneeds => hhessian hneeds _)
    (fun _ _ _ _ _ => trivial) h hroom

lemma exists_trace_of_firstOrder {algorithm : Algorithm} {obj : Objective F} {options : Options F}
    (hneeds : algorithm.needsHessian = false)
    (h : options.validate algorithm obj.dim obj.hasHessian = .ok ())
    (hroom : options.HasRoom algorithm) : ∃ trace, run algorithm obj options = .ok trace :=
  exists_trace_of_hessian algorithm obj options (by simp [hneeds]) h hroom

section Shaped

variable {algorithm : Algorithm} {obj : Objective F} {options : Options F}

/-- The first iteration finds its heading. -/
lemma Options.exists_heading (h : options.validate algorithm obj.dim obj.hasHessian = .ok ())
    (hknown : obj.hasHessian = true → ∀ w, w.length = obj.dim → (obj.hessian w).isSome) :
    let start := (algorithm.method obj options).2.startState obj options
    ∃ p, ((algorithm.method obj options).2.heading start.memory start.current).run start.counts =
      .ok p :=
  have hpasses := validate_eq_ok_iff.mp h
  algorithm.exists_heading obj options _ fun hneeds =>
    hknown (hpasses.hessian hneeds) _ hpasses.length

/-- Only room can be missing once the options are accepted. -/
theorem exists_trace_of_isShaped (hobj : obj.IsShaped)
    (hknown : obj.hasHessian = true → ∀ w, w.length = obj.dim → (obj.hessian w).isSome)
    (h : options.validate algorithm obj.dim obj.hasHessian = .ok ())
    (hroom : options.HasRoom algorithm) : ∃ trace, run algorithm obj options = .ok trace := by
  have hhessian := fun hneeds => hknown ((Options.validate_eq_ok_iff.mp h).hessian hneeds)
  cases algorithm with
  | gradientDescent | gradientDescentLineSearch | lbfgs =>
    exact exists_trace_of_firstOrder rfl h hroom
  | diagonalPreconditioner =>
    exact exists_trace_of_isSized _ hhessian
      (fun _ _ _ hs hsteps => Method.diagonal_steps_isSized hobj hsteps hs) h hroom
  | newton =>
    exact exists_trace_of_isSized _ hhessian
      (fun _ _ _ hs hsteps => Method.newton_steps_isSized hobj hsteps hs) h hroom

/-- Where room is missing the run ends in the reservation, that of the pairs before the first
iteration or that of the trials in it. -/
theorem run_eq_overflow
    (hknown : obj.hasHessian = true → ∀ w, w.length = obj.dim → (obj.hessian w).isSome)
    (h : options.validate algorithm obj.dim obj.hasHessian = .ok ())
    (hroom : ¬ options.HasRoom algorithm) :
    run algorithm obj options = .error .capacityOverflow := by
  rw [run_of_validate h, iterate_run]
  rw [Options.hasRoom_iff obj, not_and, Bool.not_eq_true] at hroom
  split_ifs with hpairs
  · rw [Method.run_eq_overflow _ obj options (Options.validate_eq_ok_iff.mp h).maxIter
      (Options.exists_heading h hknown) (hroom hpairs)]
    rfl
  · rfl

end Shaped

/-- A trace of at least one and at most `maxIter` records, of which the last one is the first to
which a stopping rule applies. -/
structure Trace.StoppedBy (criteria : StoppingCriteria F) (trace : Trace F) : Prop where
  length_pos : 1 ≤ trace.iterations.length
  length_le : trace.iterations.length ≤ criteria.maxIter
  evaluate : ∀ i (hi : i < trace.iterations.length),
    criteria.evaluate
        { gradNorm := trace.iterations[i].newGradNorm
          lossChange := Arithmetic.abs (trace.iterations[i].newLoss - trace.iterations[i].loss)
          stepNorm := trace.iterations[i].stepNorm
          iterations := i + 1 } =
      if i + 1 = trace.iterations.length then some trace.termination else none

namespace Trace.StoppedBy

variable {criteria : StoppingCriteria F} {trace : Trace F}

/-- A trace lasts to the last iteration exactly when nothing is small after it. -/
lemma termination_eq_maxIterations_iff (h : trace.StoppedBy criteria) :
    trace.termination = .maxIterations ↔
      trace.iterations.length = criteria.maxIter ∧
      ∀ last ∈ trace.iterations.getLast?, ¬ last.newGradNorm < criteria.gtol ∧
        ¬ Arithmetic.abs (last.newLoss - last.loss) < criteria.ftol ∧
        ¬ last.stepNorm < criteria.xtol := by
  obtain ⟨hpos, hle, hevaluate⟩ := h
  have hlen : trace.iterations.length - 1 < trace.iterations.length := by omega
  have hlast := hevaluate _ hlen
  rw [if_pos (by omega)] at hlast
  have hget : trace.iterations.getLast? = some trace.iterations[trace.iterations.length - 1] := by
    rw [List.getLast?_eq_getElem?, List.getElem?_eq_getElem]
  have hiff := Option.some_inj (a := trace.termination) (b := .maxIterations)
  rw [← hiff, ← hlast, StoppingCriteria.evaluate_eq_maxIterations_iff, hget]
  simp only [Option.mem_some_iff, forall_eq', StoppingCriteria.NothingSmall]
  constructor
  · rintro ⟨hsmall, hmax⟩
    exact ⟨by omega, hsmall⟩
  · rintro ⟨hmax, hsmall⟩
    exact ⟨hsmall, by omega⟩

end Trace.StoppedBy

lemma run_stoppedBy {algorithm : Algorithm} {obj : Objective F} {options : Options F}
    {trace : Trace F} (h : run algorithm obj options = .ok trace) :
    trace.StoppedBy options.criteria := by
  obtain ⟨states, hstart, -, hist⟩ := run_history h
  have hprogress := hist.record_iterations (by rw [hstart]; rfl)
  refine ⟨hist.length_pos, ?_, ?_⟩
  · by_contra hlong
    have hvalid := ((run_eq_ok_iff ..).mp h).1
    have hpos := (Options.validate_eq_ok_iff.mp hvalid).maxIter
    have hcriteria : options.criteria.maxIter = options.maxIter := rfl
    have hnone := hist.evaluate (options.maxIter - 1) (by omega)
    rw [if_neg (by omega), StoppingCriteria.evaluate_eq_none_iff, hprogress _ (by omega)] at hnone
    omega
  · intro i hi
    rw [← hist.evaluate i hi, ← hprogress i hi]
    rfl

/-- On an objective whose derivatives have its dimension, and which knows its Hessians if it claims to
know them, a run is rejected exactly when its options are. Accepted options lead to a trace that the
stopping rules end, unless there is no room for the trials of a search or for the pairs of the limited
memory method. -/
theorem run_rejects_or_stops (algorithm : Algorithm) (obj : Objective F) (options : Options F)
    (hobj : obj.IsShaped)
    (hknown : obj.hasHessian = true → ∀ w, w.length = obj.dim → (obj.hessian w).isSome) :
    (∀ e, run algorithm obj options = .error (.rejected e) ↔
      options.validate algorithm obj.dim obj.hasHessian = .error e) ∧
    (run algorithm obj options = .error .capacityOverflow ↔
      options.validate algorithm obj.dim obj.hasHessian = .ok () ∧ ¬ options.HasRoom algorithm) ∧
    (options.validate algorithm obj.dim obj.hasHessian = .ok () → options.HasRoom algorithm →
      ∃ trace, run algorithm obj options = .ok trace ∧ trace.StoppedBy options.criteria ∧
        (trace.termination = .maxIterations ↔
          trace.iterations.length = options.maxIter ∧
          ∀ last ∈ trace.iterations.getLast?, ¬ last.newGradNorm < options.termination.gtol ∧
            ¬ Arithmetic.abs (last.newLoss - last.loss) < options.termination.ftol ∧
            ¬ last.stepNorm < options.termination.xtol)) := by
  cases hvalid : options.validate algorithm obj.dim obj.hasHessian with
  | error e => simp [run_of_fault hvalid, eq_comm]
  | ok u =>
    by_cases hroom : options.HasRoom algorithm
    · obtain ⟨trace, htrace⟩ := exists_trace_of_isShaped hobj hknown hvalid hroom
      have hstopped := run_stoppedBy htrace
      refine ⟨fun e => by simp [htrace], by simp [htrace, hroom], fun _ _ => ?_⟩
      exact ⟨trace, htrace, hstopped, hstopped.termination_eq_maxIterations_iff⟩
    · have hrun := run_eq_overflow hknown hvalid hroom
      exact ⟨fun e => by simp [hrun], by simp [hrun, hroom], fun _ h => absurd h hroom⟩

lemma QuadraticForm.isShaped_objective (q : QuadraticForm F) : q.objective.IsShaped := by
  refine ⟨fun w _ => ?_, fun w rows _ hrows => ?_⟩
  · change (sub (q.matrix.mulVec w) q.linear).length = q.linear.length
    rw [sub, List.length_zipWith, Rows.mulVec, List.length_map, q.linear_length, Nat.min_self]
  · obtain rfl : q.matrix = rows := Option.some_inj.mp hrows
    exact ⟨q.linear_length.symm, fun row hrow => (q.square row hrow).trans q.linear_length.symm⟩

lemma AnalyticProblem.isShaped_objective (p : AnalyticProblem) :
    (p.objective : Objective F).IsShaped := by
  cases p with
  | rotatedQuadratic =>
    have hform := (rotatedForm : QuadraticForm F).isShaped_objective
    exact ⟨hform.gradient, hform.hessian⟩
  | _ =>
    refine ⟨fun _ _ => rfl, fun w rows _ hrows => ?_⟩
    obtain rfl := Option.some_inj.mp hrows
    simp [hessian, objective]

/-- Four fixed steps so long that the values leave the range of doubles and then are no numbers. -/
def divergingOptions : Options Float :=
  { Options.standard .double with
    maxIter := 4
    initialPoint := AnalyticProblem.saddle.initialPoint
    alpha := 1e200 }

theorem diverging_run_stops : ∃ trace,
    run .gradientDescent AnalyticProblem.saddle.objective divergingOptions = .ok trace ∧
      trace.StoppedBy divergingOptions.criteria ∧ trace.iterations.length = 4 ∧
      trace.isFinite = false := by
  have hvalid : divergingOptions.validate .gradientDescent 2 true = .ok () := by decide +kernel
  obtain ⟨trace, hrun, hstopped, -⟩ := (run_rejects_or_stops .gradientDescent
    AnalyticProblem.saddle.objective divergingOptions AnalyticProblem.saddle.isShaped_objective
    fun _ _ _ => rfl).2.2 hvalid ⟨nofun, nofun⟩
  have hanswer : (run .gradientDescent AnalyticProblem.saddle.objective
      divergingOptions).toOption.map (fun t => (t.iterations.length, t.isFinite)) =
        some (4, false) := by
    decide +kernel
  rw [hrun] at hanswer
  obtain ⟨hlength, hfinite⟩ := Prod.mk.inj (Option.some_inj.mp hanswer)
  exact ⟨trace, hrun, hstopped, hlength, hfinite⟩

/-- The usual options with a limit on the trials that nobody means to reach. -/
def patientOptions : Options Float :=
  { Options.standard .double with
    initialPoint := AnalyticProblem.saddle.initialPoint
    maxLineSearchTrials := 2 ^ 64 - 1 }

/-- The usual options with neither the iterations nor the memory limited. -/
def unlimitedOptions : Options Float :=
  { Options.standard .double with
    maxIter := 2 ^ 64 - 1
    initialPoint := AnalyticProblem.saddle.initialPoint
    memory := 2 ^ 64 - 1 }

/-- Accepted options without a trace, on an objective that knows its second derivatives everywhere. -/
theorem generous_runs_find_no_room :
    patientOptions.validate .gradientDescentLineSearch 2 true = .ok () ∧
      run .gradientDescentLineSearch AnalyticProblem.saddle.objective patientOptions =
        .error .capacityOverflow ∧
      unlimitedOptions.validate .lbfgs 2 true = .ok () ∧
      run .lbfgs AnalyticProblem.saddle.objective unlimitedOptions = .error .capacityOverflow := by
  have hpatient : patientOptions.validate .gradientDescentLineSearch 2 true = .ok () := by
    decide +kernel
  have hunlimited : unlimitedOptions.validate .lbfgs 2 true = .ok () := by decide +kernel
  have htrials : patientOptions.armijo.hasRoom = false := by decide
  have hpairs : CurvatureMemory.hasRoom Float unlimitedOptions.memory unlimitedOptions.maxIter =
      false := by decide
  refine ⟨hpatient, run_eq_overflow (fun _ _ _ => rfl) hpatient fun h => ?_, hunlimited,
    run_eq_overflow (fun _ _ _ => rfl) hunlimited fun h => ?_⟩
  · exact Bool.false_ne_true (htrials.symm.trans (h.trials rfl))
  · exact Bool.false_ne_true (hpairs.symm.trans (h.pairs rfl))

end Downhill
