import Downhill.Problem.Analytic
import Downhill.Proofs.NumberOrder
import Downhill.Proofs.RunHistory

/-!
# Truncated runs

The stopping rules decide how long a run lasts and nothing else. Runs that differ in their rules only
go the same way until the first of them stops, so the shorter list of records begins the longer one.
-/

namespace Downhill

variable {F σ : Type} [Arithmetic F]

namespace StoppingCriteria

variable {criteria criteria' : StoppingCriteria F} {progress : Progress F}

/-- What stops no run under rules with smaller numbers of iterations and larger tolerances stops none
under the other rules. -/
lemma evaluate_eq_none_of_le [OrderedArithmetic F] (hiter : criteria.maxIter ≤ criteria'.maxIter)
    (hgtol : criteria'.gtol ≤ criteria.gtol) (hftol : criteria'.ftol ≤ criteria.ftol)
    (hxtol : criteria'.xtol ≤ criteria.xtol) (h : criteria.evaluate progress = none) :
    criteria'.evaluate progress = none := by
  obtain ⟨⟨hgrad, hloss, hstep⟩, hmax⟩ := evaluate_eq_none_iff.mp h
  refine evaluate_eq_none_iff.mpr ⟨⟨?_, ?_, ?_⟩, by omega⟩
  · intro hsmall
    exact hgrad (OrderedArithmetic.lt_of_lt_of_le hsmall hgtol)
  · intro hsmall
    exact hloss (OrderedArithmetic.lt_of_lt_of_le hsmall hftol)
  · intro hsmall
    exact hstep (OrderedArithmetic.lt_of_lt_of_le hsmall hxtol)

/-- A tolerance that is met hides the count of iterations, and a count that is full stays so under a
smaller number. -/
lemma evaluate_eq_some_of_le (htol : criteria.toTolerances = criteria'.toTolerances)
    (hle : criteria.maxIter ≤ criteria'.maxIter) {reason : TerminationReason}
    (h : criteria'.evaluate progress = some reason) :
    criteria.evaluate progress = some reason := by
  unfold evaluate at *
  rw [htol]
  split_ifs at * <;> first | exact h | omega

lemma evaluate_eq_none_of_lt (htol : criteria.toTolerances = criteria'.toTolerances)
    (hiter : progress.iterations < criteria.maxIter) (h : criteria'.evaluate progress = none) :
    criteria.evaluate progress = none := by
  obtain ⟨hsmall, -⟩ := evaluate_eq_none_iff.mp h
  refine evaluate_eq_none_iff.mpr ⟨?_, hiter⟩
  unfold NothingSmall at *
  rwa [htol]

end StoppingCriteria

namespace Method

variable {method : Method F σ} {obj : Objective F} {criteria criteria' : StoppingCriteria F}
  {s t t' : RunState F σ} {records records' : List (IterationRecord F)}
  {reason reason' : TerminationReason}

/-- Of two courses from one state one begins with the other, and the second is the shorter one only if
its rules apply somewhere where those of the first do not. -/
theorem Runs.prefix_or_prefix (h : method.Runs obj criteria s records reason t)
    (h' : method.Runs obj criteria' s records' reason' t') :
    records <+: records' ∨
      records' <+: records ∧
        ∃ progress, criteria.evaluate progress = none ∧ criteria'.evaluate progress ≠ none := by
  induction h generalizing records' reason' t' with
  | stop hs he =>
    left
    cases h' with
    | stop hs' he' =>
      obtain ⟨rfl, -⟩ := hs.unique hs'
      exact List.prefix_rfl
    | next hs' he' hrest =>
      obtain ⟨rfl, -⟩ := hs.unique hs'
      exact List.prefix_append _ _
  | next hs he hrest ih =>
    cases h' with
    | stop hs' he' =>
      obtain ⟨rfl, -⟩ := hs.unique hs'
      right
      exact ⟨List.prefix_append _ _, _, he, by simp [he']⟩
    | next hs' he' hrest' =>
      obtain ⟨rfl, rfl⟩ := hs.unique hs'
      simpa only [List.cons_prefix_cons, true_and] using ih hrest'

/-- A course that is over within a smaller number of iterations is a course under that number. -/
theorem Runs.of_length_le (h : method.Runs obj criteria' s records reason t)
    (htol : criteria.toTolerances = criteria'.toTolerances)
    (hle : criteria.maxIter ≤ criteria'.maxIter)
    (hlength : s.index + records.length ≤ criteria.maxIter) :
    method.Runs obj criteria s records reason t := by
  induction h with
  | stop hs he => exact .stop hs (StoppingCriteria.evaluate_eq_some_of_le htol hle he)
  | next hs he hrest ih =>
    have hiter := hs.progress_iterations
    have hnext := hs.index_eq.2
    have hpos := hrest.length_pos
    rw [List.length_cons] at hlength
    exact .next hs (StoppingCriteria.evaluate_eq_none_of_lt htol (by omega) he) (ih (by omega))

end Method

/-- Options that differ at most in the number of iterations and in the tolerances. -/
def Options.SameButStopping (o o' : Options F) : Prop :=
  { o with maxIter := o'.maxIter, termination := o'.termination } = o'

/-- Under other stopping rules a run follows the same method from the same start. -/
lemma Options.SameButStopping.run_eq_ok_iff {o o' : Options F} (h : o.SameButStopping o')
    (algorithm : Algorithm) (obj : Objective F) (trace : Trace F) :
    run algorithm obj o' = .ok trace ↔
      o'.validate algorithm obj.dim obj.hasHessian = .ok () ∧ trace.algorithm = algorithm ∧
      o'.HasRoom algorithm ∧ ∃ t, (algorithm.method obj o).2.Runs obj o'.criteria
          ((algorithm.method obj o).2.startState obj o) trace.iterations trace.termination t ∧
        trace.evaluations = t.counts := by
  have hiff := Downhill.run_eq_ok_iff algorithm obj o' trace
  rw [← h] at *
  cases algorithm <;> exact hiff

/-- Two runs that differ in their stopping rules only: the records of one begin with those of the
other, with those of the run whose rules are more permissive if all of them are, and a run that ends
within fewer iterations than it may take is the run with that smaller number. -/
theorem stopping_rules_truncate (algorithm : Algorithm) (obj : Objective F) (o o' : Options F)
    (hsame : o.SameButStopping o') (trace trace' : Trace F)
    (h : run algorithm obj o = .ok trace) (h' : run algorithm obj o' = .ok trace') :
    (trace.iterations <+: trace'.iterations ∨ trace'.iterations <+: trace.iterations) ∧
    (OrderedArithmetic F → o.maxIter ≤ o'.maxIter → o'.termination.gtol ≤ o.termination.gtol →
      o'.termination.ftol ≤ o.termination.ftol → o'.termination.xtol ≤ o.termination.xtol →
      trace.iterations <+: trace'.iterations) ∧
    (o.termination = o'.termination → o.maxIter ≤ o'.maxIter →
      trace'.iterations.length ≤ o.maxIter → trace = trace') := by
  obtain ⟨hvalid, -, hroom, t, hruns, -⟩ := (run_eq_ok_iff algorithm obj o trace).mp h
  obtain ⟨-, halgorithm, -, t', hruns', hcounts⟩ :=
    (hsame.run_eq_ok_iff algorithm obj trace').mp h'
  have hprefix := hruns.prefix_or_prefix hruns'
  refine ⟨?_, ?_, ?_⟩
  · exact hprefix.imp_right And.left
  · intro hordered hiter hgtol hftol hxtol
    rcases hprefix with hprefix | ⟨-, progress, hnone, hsome⟩
    · exact hprefix
    · exact absurd (StoppingCriteria.evaluate_eq_none_of_le hiter hgtol hftol hxtol hnone) hsome
  · intro htol hiter hlength
    have hcut : (algorithm.method obj o).2.Runs obj o.criteria
        ((algorithm.method obj o).2.startState obj o) trace'.iterations trace'.termination t' := by
      apply hruns'.of_length_le htol hiter
      rw [Method.startState, Nat.zero_add]
      exact hlength
    have hrun : run algorithm obj o = .ok trace' :=
      (run_eq_ok_iff algorithm obj o trace').mpr
        ⟨hvalid, halgorithm, hroom, t', hcut, hcounts⟩
    rw [h] at hrun
    exact Except.ok.inj hrun

/-- Short steps on an ill-conditioned bowl, with a number of iterations and a tolerance for the
gradient. -/
def troughOptions (maxIter : Nat) (gtol : Float) : Options Float :=
  { Options.standard { Tolerances.double with gtol } with
    maxIter
    alpha := 0.004
    initialPoint := AnalyticProblem.illConditioned.initialPoint }

lemma exists_trough_run (maxIter : Nat) (gtol : Float) (length : Nat)
    (h : (run .gradientDescent AnalyticProblem.illConditioned.objective
      (troughOptions maxIter gtol)).toOption.map (·.iterations.length) = some length) :
    ∃ trace, run .gradientDescent AnalyticProblem.illConditioned.objective
        (troughOptions maxIter gtol) = .ok trace ∧ trace.iterations.length = length :=
  exists_trace_of_toOption _ h

/-- The gradient is below twenty after two iterations and below six after three. The larger tolerance
cuts the run, and a limit of just three iterations changes nothing. -/
theorem trough_runs_truncated : ∃ whole loose exact,
    run .gradientDescent AnalyticProblem.illConditioned.objective (troughOptions 100 6) =
        .ok whole ∧
      run .gradientDescent AnalyticProblem.illConditioned.objective (troughOptions 100 20) =
        .ok loose ∧
      run .gradientDescent AnalyticProblem.illConditioned.objective (troughOptions 3 6) =
        .ok exact ∧
      loose.iterations.length = 2 ∧ whole.iterations.length = 3 ∧
      loose.iterations <+: whole.iterations ∧ exact = whole := by
  obtain ⟨whole, hwhole, hthree⟩ := exists_trough_run 100 6 3 (by decide +kernel)
  obtain ⟨loose, hloose, htwo⟩ := exists_trough_run 100 20 2 (by decide +kernel)
  obtain ⟨exact, hexact, -⟩ := exists_trough_run 3 6 3 (by decide +kernel)
  have hloosened : (troughOptions 100 20).SameButStopping (troughOptions 100 6) := rfl
  have hlimited : (troughOptions 3 6).SameButStopping (troughOptions 100 6) := rfl
  have hgtol : (troughOptions 100 6).termination.gtol ≤
      (troughOptions 100 20).termination.gtol := by decide +kernel
  have hftol : (troughOptions 100 6).termination.ftol ≤
      (troughOptions 100 20).termination.ftol := by decide +kernel
  have hxtol : (troughOptions 100 6).termination.xtol ≤
      (troughOptions 100 20).termination.xtol := by decide +kernel
  obtain ⟨-, hcut, -⟩ := stopping_rules_truncate .gradientDescent
    AnalyticProblem.illConditioned.objective (troughOptions 100 20) (troughOptions 100 6) hloosened
    loose whole hloose hwhole
  obtain ⟨-, -, hsame⟩ := stopping_rules_truncate .gradientDescent
    AnalyticProblem.illConditioned.objective (troughOptions 3 6) (troughOptions 100 6) hlimited
    exact whole hexact hwhole
  have hprefix := hcut inferInstance (Nat.le_refl 100) hgtol hftol hxtol
  have hequal := hsame rfl (by decide) hthree.le
  exact ⟨whole, loose, exact, hwhole, hloose, hexact, htwo, hthree, hprefix, hequal⟩

end Downhill
