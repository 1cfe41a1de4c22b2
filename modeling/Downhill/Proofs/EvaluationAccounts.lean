import Mathlib.Algebra.GroupWithZero.Nat
import Downhill.Proofs.RecordChain

/-!
# Accounts of evaluations

The counts of a trace can be told from its records. Each iteration asks for one gradient, for one
Hessian if its method needs it, and for a value at each trial of its line search, or at the end of its
step if it does not search. Which parts a record has depends on the algorithm and its options only.
-/

namespace Downhill

variable {F : Type}

/-- How often an iteration asks for a value, from its record. -/
def IterationRecord.evaluations (r : IterationRecord F) : Nat :=
  match r.lineSearch with
  | some log => log.trials.length
  | none => 1

/-- A record has the parts that belong to the algorithm, and its search has kept to its trials. -/
structure IterationRecord.Complete (algorithm : Algorithm) (options : Options F)
    (r : IterationRecord F) : Prop where
  lineSearch : r.lineSearch.isSome ↔ algorithm.usesLineSearch options.lineSearch
  trials : ∀ log, r.lineSearch = some log →
    1 ≤ log.trials.length ∧ log.trials.length ≤ options.maxLineSearchTrials
  curvature : r.curvature.isSome ↔ algorithm.needsHessian
  lbfgs : r.lbfgs.isSome ↔ algorithm = .lbfgs

/-- The records of a trace are complete, and its counts are what they add up to. -/
structure Trace.Accounted (options : Options F) (t : Trace F) : Prop where
  complete : ∀ r ∈ t.iterations, r.Complete t.algorithm options
  gradient : t.evaluations.gradient = t.iterations.length + 1
  hessian : t.evaluations.hessian = if t.algorithm.needsHessian then t.iterations.length else 0
  objective : t.evaluations.objective = 1 + (t.iterations.map (·.evaluations)).sum

/-- What an iteration with the record `r` adds to the counts. -/
def Algorithm.spent (algorithm : Algorithm) (r : IterationRecord F) : EvaluationCounts :=
  ⟨r.evaluations, 1, if algorithm.needsHessian then 1 else 0⟩

variable [Arithmetic F] {obj : Objective F} {options : Options F} {algorithm : Algorithm}

lemma SearchLine.searchPlain_trials (obj : Objective F) (line : SearchLine F)
    (params : ArmijoParams F) (more : Nat) (alpha : F) (earlier : List (LineSearchTrial F)) :
    earlier.length < (searchPlain obj line params more alpha earlier).trials.length ∧
      (searchPlain obj line params more alpha earlier).trials.length ≤
        earlier.length + more + 1 := by
  induction more generalizing alpha earlier with
  | zero => simp [searchPlain_zero, result]
  | succ more ih =>
    rw [searchPlain_succ]
    dsimp only
    split
    · simp [result]
    · have h := ih (alpha * params.rho)
        (line.trial params.c1 alpha (obj.value (line.point alpha)) :: earlier)
      rw [List.length_cons] at h
      omega

/-- The log of a step by a rule: a rule that searches tries at least once. -/
def StepRule.Logs (rule : StepRule F) (log : Option (LineSearchLog F)) : Prop :=
  match rule with
  | fixed _ => log = none
  | armijo params => ∃ found, log = some found ∧ 1 ≤ found.trials.length ∧
      found.trials.length ≤ params.maxTrials - 1 + 1

lemma StepRule.logs_step (rule : StepRule F) (obj : Objective F) (current : Iterate F)
    (direction : List F) : rule.Logs (rule.step obj current direction).lineSearch := by
  cases rule with
  | fixed alpha => rfl
  | armijo params =>
    obtain ⟨hpos, hle⟩ := SearchLine.searchPlain_trials obj
      (.ofGradient current.point direction current.loss current.gradient) params
      (params.maxTrials - 1) params.alphaInit []
    rw [List.length_nil, Nat.zero_add] at hle
    exact ⟨_, rfl, hpos, hle⟩

namespace Algorithm

lemma log_of_step (hvalid : options.validate algorithm obj.dim obj.hasHessian = .ok ())
    (current : Iterate F) (direction : List F) {log : Option (LineSearchLog F)}
    (h : ((algorithm.method obj options).2.rule.step obj current direction).lineSearch = log) :
    (log.isSome ↔ algorithm.usesLineSearch options.lineSearch) ∧
      ∀ found, log = some found →
        1 ≤ found.trials.length ∧ found.trials.length ≤ options.maxLineSearchTrials := by
  have hlogs := (algorithm.method obj options).2.rule.logs_step obj current direction
  rw [h] at hlogs
  rcases algorithm.rule_eq obj options with ⟨huses, hrule⟩ | ⟨huses, alpha, hrule⟩
  · rw [hrule] at hlogs
    obtain ⟨found, rfl, hpos, hle⟩ := hlogs
    have htrials := (Options.validate_eq_ok_iff.mp hvalid).trials huses
    have hmax : options.armijo.maxTrials = options.maxLineSearchTrials := rfl
    refine ⟨by simp [huses], ?_⟩
    rintro _ ⟨⟩
    exact ⟨hpos, by omega⟩
  · rw [hrule] at hlogs
    obtain rfl : log = none := hlogs
    exact ⟨by simp [huses], nofun⟩

lemma heading_spent {memory : (algorithm.method obj options).1} {current : Iterate F}
    {counts counts' : EvaluationCounts} {heading : Heading F}
    (h : ((algorithm.method obj options).2.heading memory current).run counts =
      .ok (heading, counts')) :
    (heading.curvature.isSome ↔ algorithm.needsHessian) ∧
      counts' = counts + ⟨0, 0, if algorithm.needsHessian then 1 else 0⟩ := by
  cases algorithm with
  | gradientDescent | gradientDescentLineSearch =>
    cases h
    exact ⟨by simp [needsHessian], rfl⟩
  | lbfgs =>
    cases h
    refine ⟨?_, rfl⟩
    unfold lbfgsHeading
    split <;> simp [needsHessian]
  | newton =>
    have hrun := (Method.newton_heading_run obj options.hessianDamping options.stepRule current
      counts).symm.trans h
    split at hrun
    · cases hrun
      exact ⟨by simp [Method.newtonHeading, needsHessian], rfl⟩
    · cases hrun
  | diagonalPreconditioner =>
    have hrun := (Method.diagonal_heading_run obj options.hessianDamping options.stepRule current
      counts).symm.trans h
    split at hrun
    · cases hrun
      exact ⟨by simp [Method.diagonalHeading, needsHessian], rfl⟩
    · cases hrun

lemma learn_isSome (memory : (algorithm.method obj options).1) (heading : Heading F)
    (r : IterationRecord F) (gradient : List F) :
    ((algorithm.method obj options).2.learn memory heading r gradient).1.isSome ↔
      algorithm = .lbfgs := by
  cases algorithm <;> simp [method, Method.steepest, Method.newton, Method.diagonal, Method.lbfgs]

/-- One iteration leaves a complete record and spends what the record says. -/
lemma steps_spent (hvalid : options.validate algorithm obj.dim obj.hasHessian = .ok ())
    {s t : RunState F (algorithm.method obj options).1} {r : IterationRecord F}
    (h : (algorithm.method obj options).2.Steps obj s r t) :
    r.Complete algorithm options ∧ t.counts = s.counts + algorithm.spent r := by
  obtain ⟨heading, counts, hheading, hout⟩ := h
  obtain ⟨hcurvature, rfl⟩ := heading_spent hheading
  cases hout
  obtain ⟨hsome, htrials⟩ := log_of_step hvalid s.current heading.direction rfl
  refine ⟨⟨hsome, htrials, hcurvature, learn_isSome _ _ _ _⟩, ?_⟩
  rw [EvaluationCounts.add_assoc]
  simp only [EvaluationCounts.add_def, spent, Nat.zero_add, Nat.add_zero]
  rfl

end Algorithm

/-- A course leaves complete records and spends what they add up to. -/
theorem Method.Runs.spent (hvalid : options.validate algorithm obj.dim obj.hasHessian = .ok ())
    {criteria : StoppingCriteria F} {s t : RunState F (algorithm.method obj options).1}
    {records : List (IterationRecord F)} {reason : TerminationReason}
    (h : (algorithm.method obj options).2.Runs obj criteria s records reason t) :
    (∀ r ∈ records, r.Complete algorithm options) ∧
      t.counts = s.counts + ⟨(records.map (·.evaluations)).sum, records.length,
        if algorithm.needsHessian then records.length else 0⟩ := by
  induction h with
  | stop hs he =>
    obtain ⟨hcomplete, hcounts⟩ := Algorithm.steps_spent hvalid hs
    refine ⟨?_, ?_⟩
    · simpa using hcomplete
    · simpa [Algorithm.spent] using hcounts
  | next hs he hrest ih =>
    obtain ⟨hcomplete, hcounts⟩ := Algorithm.steps_spent hvalid hs
    obtain ⟨hlater, hsum⟩ := ih
    refine ⟨?_, ?_⟩
    · simpa using ⟨hcomplete, hlater⟩
    · rw [hsum, hcounts, EvaluationCounts.add_assoc]
      simp only [EvaluationCounts.add_def, Algorithm.spent, List.map_cons, List.sum_cons,
        List.length_cons]
      split <;> simp only [Nat.add_zero, Nat.add_comm]

/-- The records of every trace are complete, and its counts are what they add up to. -/
theorem run_accounted (algorithm : Algorithm) (obj : Objective F) (options : Options F)
    (trace : Trace F) (h : run algorithm obj options = .ok trace) :
    trace.algorithm = algorithm ∧ trace.Accounted options := by
  obtain ⟨hvalid, rfl, -, t, hruns, hcounts⟩ := (run_eq_ok_iff algorithm obj options trace).mp h
  obtain ⟨hcomplete, hsum⟩ := hruns.spent hvalid
  have hspent := hcounts.trans hsum
  refine ⟨rfl, hcomplete, ?_, ?_, ?_⟩
  · rw [hspent]
    exact Nat.add_comm _ _
  · rw [hspent]
    exact Nat.zero_add _
  · rw [hspent]
    rfl

/-- Four iterations of the limited memory method ask for five gradients and no Hessian. -/
theorem camel_run_accounted : ∃ trace,
    run .lbfgs AnalyticProblem.threeHumpCamel.objective camelOptions = .ok trace ∧
      trace.Accounted camelOptions ∧ trace.evaluations.gradient = 5 ∧
      trace.evaluations.hessian = 0 := by
  obtain ⟨trace, hrun, hupdates⟩ := camel_run
  have hlength : trace.iterations.length = 4 := by simpa using congrArg List.length hupdates
  obtain ⟨halgorithm, haccounted⟩ := run_accounted .lbfgs _ _ trace hrun
  refine ⟨trace, hrun, haccounted, ?_, ?_⟩
  · rw [haccounted.gradient, hlength]
  · rw [haccounted.hessian, halgorithm]
    rfl

end Downhill
