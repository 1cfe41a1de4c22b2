import Downhill.Proofs.Iteration

/-!
# Histories of runs

`Method.Runs` is the course of a run as a relation between the states before its iterations, the
records that they leave and the rule that stops it. `run_eq_ok_iff` says that a trace is the answer
of `run` exactly when its records are such a course and there is room for what is set aside, and
`Method.History` lays the states of a course side by side, so that a law about the record at a
position is an induction on positions.
-/

namespace Downhill

variable {F σ : Type} [Arithmetic F]

namespace StoppingCriteria

variable {criteria : StoppingCriteria F} {progress : Progress F}

def NothingSmall (criteria : StoppingCriteria F) (progress : Progress F) : Prop :=
  ¬ progress.gradNorm < criteria.gtol ∧ ¬ progress.lossChange < criteria.ftol ∧
    ¬ progress.stepNorm < criteria.xtol

lemma evaluate_eq_none_iff :
    criteria.evaluate progress = none ↔
      criteria.NothingSmall progress ∧ progress.iterations < criteria.maxIter := by
  unfold evaluate NothingSmall
  split_ifs <;> simp_all

lemma evaluate_eq_maxIterations_iff :
    criteria.evaluate progress = some .maxIterations ↔
      criteria.NothingSmall progress ∧ criteria.maxIter ≤ progress.iterations := by
  unfold evaluate NothingSmall
  split_ifs <;> simp_all

end StoppingCriteria

namespace Method

variable (method : Method F σ) (obj : Objective F) (criteria : StoppingCriteria F)

/-- One iteration leads from `s` to `t` and leaves `record`. -/
def Steps (s : RunState F σ) (record : IterationRecord F) (t : RunState F σ) : Prop :=
  ∃ heading counts, (method.heading s.memory s.current).run s.counts = .ok (heading, counts) ∧
    method.outcome obj s heading counts = (record, t)

/-- The iterations from `s` on leave `records`, and after the last of them `reason` applies. -/
inductive Runs : RunState F σ → List (IterationRecord F) → TerminationReason → RunState F σ → Prop
  | stop {s t record reason} : method.Steps obj s record t →
      criteria.evaluate record.progress = some reason → Runs s [record] reason t
  | next {s t u record records reason} : method.Steps obj s record t →
      criteria.evaluate record.progress = none → Runs t records reason u →
      Runs s (record :: records) reason u

variable {method obj criteria}

lemma Steps.index_eq {s t : RunState F σ} {record : IterationRecord F}
    (h : method.Steps obj s record t) : record.index = s.index ∧ t.index = s.index + 1 := by
  obtain ⟨heading, counts, -, hout⟩ := h
  cases hout
  exact ⟨rfl, rfl⟩

lemma Steps.progress_iterations {s t : RunState F σ} {record : IterationRecord F}
    (h : method.Steps obj s record t) : record.progress.iterations = s.index + 1 :=
  congrArg (· + 1) h.index_eq.1

lemma Runs.exists_steps {s t : RunState F σ} {records : List (IterationRecord F)}
    {reason : TerminationReason} (h : method.Runs obj criteria s records reason t) :
    ∃ record u, method.Steps obj s record u := by
  cases h with
  | stop hs _ => exact ⟨_, _, hs⟩
  | next hs _ _ => exact ⟨_, _, hs⟩

lemma Runs.length_pos {s t : RunState F σ} {records : List (IterationRecord F)}
    {reason : TerminationReason} (h : method.Runs obj criteria s records reason t) :
    0 < records.length := by
  cases h <;> simp

/-- A heading is found in one way only, so an iteration has one record and leads to one state. -/
lemma steps_iff {s t : RunState F σ} {record : IterationRecord F} {heading : Heading F}
    {counts : EvaluationCounts}
    (hh : (method.heading s.memory s.current).run s.counts = .ok (heading, counts)) :
    method.Steps obj s record t ↔ method.outcome obj s heading counts = (record, t) := by
  constructor
  · rintro ⟨heading', counts', hh', hout⟩
    rw [hh] at hh'
    cases hh'
    exact hout
  · exact fun hout => ⟨heading, counts, hh, hout⟩

lemma Steps.unique {s t t' : RunState F σ} {record record' : IterationRecord F}
    (h : method.Steps obj s record t) (h' : method.Steps obj s record' t') :
    record' = record ∧ t' = t := by
  obtain ⟨heading, counts, hh, hout⟩ := h
  have hout' := (steps_iff hh).mp h'
  rw [hout] at hout'
  cases hout'
  exact ⟨rfl, rfl⟩

/-- Steepest descent goes along the negative gradient and has nothing to note. -/
lemma steepest_steps {rule : StepRule F} {s t : RunState F Unit} {record : IterationRecord F}
    (h : (Method.steepest rule).Steps obj s record t) :
    record.direction = neg record.gradient ∧ record.curvature = none ∧ record.lbfgs = none := by
  obtain ⟨heading, counts, hhead, hout⟩ := h
  rw [steepest_heading_run] at hhead
  cases hhead
  cases hout
  exact ⟨rfl, rfl, rfl⟩

/-- A method that reads second derivatives needs the Hessian at its point and makes its heading of
it. -/
lemma Steps.exists_hessian {heading : Rows F → List F → Heading F} {e : Failure}
    {s t : RunState F σ} {record : IterationRecord F}
    (hheading : ∀ memory current counts, (method.heading memory current).run counts =
      match obj.hessian current.point with
      | some hessian => .ok (heading hessian current.gradient, counts + ⟨0, 0, 1⟩)
      | none => .error e)
    (h : method.Steps obj s record t) :
    ∃ hessian, obj.hessian record.wOld = some hessian ∧
      record.direction = (heading hessian record.gradient).direction ∧
      record.curvature = (heading hessian record.gradient).curvature := by
  obtain ⟨_, _, hhead, hout⟩ := h
  rw [hheading] at hhead
  cases hhessian : obj.hessian s.current.point with
  | none =>
    rw [hhessian] at hhead
    cases hhead
  | some hessian =>
    rw [hhessian] at hhead
    cases hhead
    cases hout
    exact ⟨hessian, hhessian, rfl, rfl⟩

lemma diagonal_steps {damping : F} {rule : StepRule F} {s t : RunState F Unit}
    {record : IterationRecord F} (h : (Method.diagonal obj damping rule).Steps obj s record t) :
    ∃ hessian, obj.hessian record.wOld = some hessian ∧
      record.direction = (diagonalHeading damping hessian record.gradient).direction ∧
      record.curvature = (diagonalHeading damping hessian record.gradient).curvature :=
  h.exists_hessian fun _ => diagonal_heading_run obj damping rule

lemma newton_steps {damping : F} {rule : StepRule F} {s t : RunState F Unit}
    {record : IterationRecord F} (h : (Method.newton obj damping rule).Steps obj s record t) :
    ∃ hessian, obj.hessian record.wOld = some hessian ∧
      record.direction = (newtonDirection hessian damping record.gradient).1 ∧
      record.curvature = some (.ofHessian hessian damping
        (newtonDirection hessian damping record.gradient).2 none) :=
  h.exists_hessian fun _ => newton_heading_run obj damping rule

lemma Steps.armijo {s t : RunState F σ} {record : IterationRecord F} {params : ArmijoParams F}
    (h : method.Steps obj s record t) (hrule : method.rule = .armijo params) :
    let found := searchAlong obj record.wOld record.direction record.loss record.gradient params
    record.stepSize = found.alpha ∧ record.newLoss = found.value ∧
      record.lineSearch = some found.toLineSearchLog := by
  obtain ⟨heading, counts, -, hout⟩ := h
  cases hout
  simp only [IterationRecord.withNote, Iterate.record, hrule, StepRule.step]
  exact ⟨trivial, trivial, trivial⟩

lemma Steps.fixed {s t : RunState F σ} {record : IterationRecord F} {alpha : F}
    (h : method.Steps obj s record t) (hrule : method.rule = .fixed alpha) :
    record.stepSize = alpha ∧ record.lineSearch = none := by
  obtain ⟨heading, counts, -, hout⟩ := h
  cases hout
  simp only [IterationRecord.withNote, Iterate.record, hrule, StepRule.step]
  exact ⟨trivial, trivial⟩

lemma Steps.runs_iff_of_some {s t u : RunState F σ} {record : IterationRecord F}
    {records : List (IterationRecord F)} {reason reason' : TerminationReason}
    (h : method.Steps obj s record t) (he : criteria.evaluate record.progress = some reason) :
    method.Runs obj criteria s records reason' u ↔
      records = [record] ∧ reason' = reason ∧ u = t := by
  constructor
  · intro hruns
    cases hruns with
    | stop hs he' =>
      obtain ⟨rfl, rfl⟩ := h.unique hs
      rw [he] at he'
      cases he'
      exact ⟨rfl, rfl, rfl⟩
    | next hs he' _ =>
      obtain ⟨rfl, rfl⟩ := h.unique hs
      rw [he] at he'
      cases he'
  · rintro ⟨rfl, rfl, rfl⟩
    exact .stop h he

lemma Steps.runs_iff_of_none {s t u : RunState F σ} {record : IterationRecord F}
    {records : List (IterationRecord F)} {reason : TerminationReason}
    (h : method.Steps obj s record t) (he : criteria.evaluate record.progress = none) :
    method.Runs obj criteria s records reason u ↔
      ∃ later, records = record :: later ∧ method.Runs obj criteria t later reason u := by
  constructor
  · intro hruns
    cases hruns with
    | stop hs he' =>
      obtain ⟨rfl, rfl⟩ := h.unique hs
      rw [he] at he'
      cases he'
    | next hs _ htail =>
      obtain ⟨rfl, rfl⟩ := h.unique hs
      exact ⟨_, rfl, htail⟩
  · rintro ⟨later, rfl, htail⟩
    exact .next h he htail

variable (method obj criteria)

/-- With a budget for all iterations that the rules allow, `descend` ends with a trace exactly when
there is room for the searches and the records form a course from the current state on. -/
theorem descend_eq_ok_iff (budget : Nat) (s : RunState F σ) (earlier : List (IterationRecord F))
    (hpos : 0 < budget) (hbudget : s.index + budget = criteria.maxIter)
    (records : List (IterationRecord F)) (reason : TerminationReason) (counts : EvaluationCounts) :
    (method.descend obj criteria budget s.index s.memory s.current earlier).run s.counts =
        .ok ((records, reason), counts) ↔
      method.rule.hasRoom = true ∧ ∃ later t, method.Runs obj criteria s later reason t ∧
        records = earlier.reverse ++ later ∧ counts = t.counts := by
  induction budget generalizing s earlier with
  | zero => omega
  | succ budget ih =>
    rw [descend, Metered.run_bind, advance_run]
    cases hhead : (method.heading s.memory s.current).run s.counts with
    | error e =>
      constructor
      · intro h
        cases h
      · rintro ⟨-, later, t, hruns, -, -⟩
        obtain ⟨record, u, heading, counts', hh, -⟩ := hruns.exists_steps
        rw [hhead] at hh
        cases hh
    | ok p =>
      obtain ⟨record, t, hout⟩ : ∃ record t, method.outcome obj s p.1 p.2 = (record, t) :=
        ⟨_, _, rfl⟩
      have hstep : method.Steps obj s record t := ⟨p.1, p.2, hhead, hout⟩
      cases hroom : method.rule.hasRoom with
      | false => simp [Except.bind]
      | true =>
        simp only [Except.bind, hout, ↓reduceIte, true_and]
        cases heval : criteria.evaluate record.progress with
        | some reason' =>
          simp only [hstep.runs_iff_of_some heval]
          constructor
          · intro h
            cases h
            exact ⟨_, _, ⟨rfl, rfl, rfl⟩, by simp, rfl⟩
          · rintro ⟨_, _, ⟨rfl, rfl, rfl⟩, rfl, rfl⟩
            rw [← List.reverse_cons]
            rfl
        | none =>
          -- The rules have not used up the count of iterations, so there is budget left.
          have hlt := (StoppingCriteria.evaluate_eq_none_iff.mp heval).2
          have hiter := hstep.progress_iterations
          have hnext := hstep.index_eq.2
          have hrec := ih t (record :: earlier) (by omega) (by omega)
          simp only [hnext, hroom, true_and] at hrec
          simp only [hstep.runs_iff_of_none heval]
          refine hrec.trans ⟨?_, ?_⟩
          · rintro ⟨later, u, hruns, rfl, rfl⟩
            exact ⟨_, u, ⟨later, rfl, hruns⟩, by simp, rfl⟩
          · rintro ⟨_, u, ⟨later, rfl, hruns⟩, rfl, rfl⟩
            exact ⟨later, u, hruns, by simp, rfl⟩

/-- The state before the first iteration of a run. -/
def startState (options : Options F) : RunState F σ where
  index := 0
  memory := method.initial
  current := ⟨options.initialPoint, obj.value options.initialPoint,
    obj.gradient options.initialPoint⟩
  counts := ⟨1, 1, 0⟩

theorem run_eq_ok_iff (options : Options F) (hiter : 0 < options.maxIter)
    (records : List (IterationRecord F)) (reason : TerminationReason) (counts : EvaluationCounts) :
    (method.run obj options).run {} = .ok ((records, reason), counts) ↔
      method.rule.hasRoom = true ∧
        ∃ t, method.Runs obj options.criteria (method.startState obj options) records reason t ∧
          counts = t.counts := by
  have h := method.descend_eq_ok_iff obj options.criteria options.maxIter
    (method.startState obj options) [] hiter (Nat.zero_add _) records reason counts
  simp only [List.reverse_nil, List.nil_append] at h
  refine Iff.trans ?_ (h.trans (and_congr_right' ?_))
  · rfl
  · constructor
    · rintro ⟨_, t, hruns, rfl, hcounts⟩
      exact ⟨t, hruns, hcounts⟩
    · rintro ⟨t, hruns, hcounts⟩
      exact ⟨records, t, hruns, rfl, hcounts⟩

/-- Without room for the trials of a search the first iteration fails once it has its heading. -/
theorem run_eq_overflow (options : Options F) (hiter : 0 < options.maxIter)
    (hheading : ∃ p, (method.heading method.initial (method.startState obj options).current).run
      (method.startState obj options).counts = .ok p) (hroom : method.rule.hasRoom = false) :
    (method.run obj options).run {} = .error .capacityOverflow := by
  obtain ⟨p, hhead⟩ := hheading
  have hadvance := method.advance_run obj (method.startState obj options)
  have hrun : (method.run obj options).run {} =
      (method.descend obj options.criteria options.maxIter (method.startState obj options).index
        (method.startState obj options).memory (method.startState obj options).current []).run
        (method.startState obj options).counts := rfl
  obtain ⟨budget, hbudget⟩ := Nat.exists_eq_succ_of_ne_zero (Nat.ne_of_gt hiter)
  rw [hrun, hbudget, Nat.succ_eq_add_one, descend, Metered.run_bind, hadvance]
  simp only [startState] at hhead ⊢
  rw [hhead]
  simp [Except.bind, hroom]

/-- Where every heading is found from states of a kind that iterations keep to, a run from such a
state with iterations left comes to an end. -/
theorem exists_runs (P : RunState F σ → Prop)
    (hheading : ∀ s, P s → ∃ p, (method.heading s.memory s.current).run s.counts = .ok p)
    (hstep : ∀ s record t, P s → method.Steps obj s record t → P t)
    (s : RunState F σ) (hP : P s) (hs : s.index < criteria.maxIter) :
    ∃ records reason t, method.Runs obj criteria s records reason t := by
  induction hleft : criteria.maxIter - s.index generalizing s with
  | zero => omega
  | succ left ih =>
    obtain ⟨⟨heading, counts⟩, hhead⟩ := hheading s hP
    obtain ⟨record, t, hout⟩ : ∃ record t, method.outcome obj s heading counts = (record, t) :=
      ⟨_, _, rfl⟩
    have hsteps : method.Steps obj s record t := ⟨heading, counts, hhead, hout⟩
    cases heval : criteria.evaluate record.progress with
    | some reason => exact ⟨[record], reason, t, .stop hsteps heval⟩
    | none =>
      have hlt := (StoppingCriteria.evaluate_eq_none_iff.mp heval).2
      have hiter := hsteps.progress_iterations
      have hnext := hsteps.index_eq.2
      obtain ⟨records, reason, u, hruns⟩ := ih t (hstep s record t hP hsteps) (by omega) (by omega)
      exact ⟨record :: records, reason, u, .next hsteps heval hruns⟩

/-- The states of a course side by side: `states i` is the state before the record at position `i`,
and the rules apply after the last record only. -/
structure History (states : Nat → RunState F σ) (records : List (IterationRecord F))
    (reason : TerminationReason) : Prop where
  length_pos : 0 < records.length
  steps : ∀ i (hi : i < records.length), method.Steps obj (states i) records[i] (states (i + 1))
  evaluate : ∀ i (hi : i < records.length), criteria.evaluate records[i].progress =
    if i + 1 = records.length then some reason else none

variable {method obj criteria}

theorem Runs.exists_history {s t : RunState F σ} {records : List (IterationRecord F)}
    {reason : TerminationReason} (h : method.Runs obj criteria s records reason t) :
    ∃ states, states 0 = s ∧ states records.length = t ∧
      method.History obj criteria states records reason := by
  induction h with
  | @stop s t record reason hs he =>
    refine ⟨fun i => Nat.casesOn i s fun _ => t, rfl, rfl, by simp, ?_, ?_⟩
    · intro i hi
      obtain rfl : i = 0 := by simpa using hi
      exact hs
    · intro i hi
      obtain rfl : i = 0 := by simpa using hi
      exact he
  | @next s t u record records reason hs he _ ih =>
    obtain ⟨states, rfl, hlast, hist⟩ := ih
    refine ⟨fun i => Nat.casesOn i s states, rfl, hlast, by simp, ?_, ?_⟩
    · intro i hi
      cases i with
      | zero => exact hs
      | succ i => exact hist.steps i (by simpa using hi)
    · intro i hi
      have hpos := hist.length_pos
      cases i with
      | zero => rw [if_neg (by simp only [List.length_cons]; omega)]; exact he
      | succ i => simpa using hist.evaluate i (by simpa using hi)

/-- What holds at the start and is kept by every iteration holds all along. -/
theorem History.invariant {states : Nat → RunState F σ} {records : List (IterationRecord F)}
    {reason : TerminationReason} (h : method.History obj criteria states records reason)
    (P : Nat → RunState F σ → Prop) (hstart : P 0 (states 0))
    (hstep : ∀ i (hi : i < records.length), P i (states i) →
      method.Steps obj (states i) records[i] (states (i + 1)) → P (i + 1) (states (i + 1))) :
    ∀ i, i ≤ records.length → P i (states i) := by
  intro i hi
  induction i with
  | zero => exact hstart
  | succ i ih => exact hstep i hi (ih (by omega)) (h.steps i hi)

/-- What an iteration from a good state says of its record is said of every record. -/
theorem History.forall_records {states : Nat → RunState F σ} {records : List (IterationRecord F)}
    {reason : TerminationReason} (h : method.History obj criteria states records reason)
    (P : RunState F σ → Prop) (Q : IterationRecord F → Prop) (hstart : P (states 0))
    (hstep : ∀ s record t, P s → method.Steps obj s record t → Q record ∧ P t)
    (i : Nat) (hi : i < records.length) : Q records[i] := by
  have hP := h.invariant (fun _ s => P s) hstart fun i hi hs hsteps =>
    (hstep _ _ _ hs hsteps).2
  exact (hstep _ _ _ (hP i (Nat.le_of_lt hi)) (h.steps i hi)).1

lemma History.index_eq {states : Nat → RunState F σ} {records : List (IterationRecord F)}
    {reason : TerminationReason} (h : method.History obj criteria states records reason)
    (hstart : (states 0).index = 0) : ∀ i, i ≤ records.length → (states i).index = i := by
  apply h.invariant (fun i s => s.index = i) hstart
  intro i hi hidx hstep
  rw [hstep.index_eq.2, hidx]

lemma History.record_index {states : Nat → RunState F σ} {records : List (IterationRecord F)}
    {reason : TerminationReason} (h : method.History obj criteria states records reason)
    (hstart : (states 0).index = 0) (i : Nat) (hi : i < records.length) :
    records[i].index = i :=
  (h.steps i hi).index_eq.1.trans (h.index_eq hstart i (Nat.le_of_lt hi))

lemma History.record_iterations {states : Nat → RunState F σ} {records : List (IterationRecord F)}
    {reason : TerminationReason} (h : method.History obj criteria states records reason)
    (hstart : (states 0).index = 0) (i : Nat) (hi : i < records.length) :
    records[i].progress.iterations = i + 1 := by
  rw [(h.steps i hi).progress_iterations, h.index_eq hstart i (Nat.le_of_lt hi)]

end Method

/-- The method that an algorithm stands for, with the type of its memory. -/
def Algorithm.method (algorithm : Algorithm) (obj : Objective F) (options : Options F) :
    (σ : Type) × Method F σ :=
  match algorithm with
  | .gradientDescent => ⟨Unit, .steepest (.fixed options.alpha)⟩
  | .gradientDescentLineSearch => ⟨Unit, .steepest (.armijo options.armijo)⟩
  | .diagonalPreconditioner => ⟨Unit, .diagonal obj options.hessianDamping options.stepRule⟩
  | .newton => ⟨Unit, .newton obj options.hessianDamping options.stepRule⟩
  | .lbfgs => ⟨CurvatureMemory F, .lbfgs options.memory options.armijo⟩

lemma Algorithm.rule_eq (algorithm : Algorithm) (obj : Objective F) (options : Options F) :
    (algorithm.usesLineSearch options.lineSearch = true ∧
        (algorithm.method obj options).2.rule = .armijo options.armijo) ∨
      (algorithm.usesLineSearch options.lineSearch = false ∧
        ∃ alpha, (algorithm.method obj options).2.rule = .fixed alpha) := by
  cases algorithm with
  | gradientDescent => exact .inr ⟨rfl, _, rfl⟩
  | gradientDescentLineSearch | lbfgs => exact .inl ⟨rfl, rfl⟩
  | newton | diagonalPreconditioner =>
    simp only [usesLineSearch, method, Method.newton, Method.diagonal, Options.stepRule]
    cases options.lineSearch with
    | armijo => exact .inl ⟨rfl, rfl⟩
    | off => exact .inr ⟨rfl, _, rfl⟩

lemma ite_some_eq_none_iff {α : Type} {p : Prop} [Decidable p] {e : α} {rest : Option α} :
    (if p then some e else rest) = none ↔ ¬ p ∧ rest = none := by
  split_ifs with hp <;> simp [hp]

/-- Whether there is room for the pairs of the limited memory method. -/
def Options.hasPairRoom (options : Options F) : Algorithm → Bool
  | .lbfgs => CurvatureMemory.hasRoom F options.memory options.maxIter
  | _ => true

lemma iterate_eq (algorithm : Algorithm) (obj : Objective F) (options : Options F) :
    iterate algorithm obj options = (do
      Metered.reserve (options.hasPairRoom algorithm)
      (algorithm.method obj options).2.run obj options) := by
  cases algorithm <;> rfl

lemma iterate_run (algorithm : Algorithm) (obj : Objective F) (options : Options F) :
    (iterate algorithm obj options).run {} =
      if options.hasPairRoom algorithm then
        ((algorithm.method obj options).2.run obj options).run {}
      else .error .capacityOverflow := by
  rw [iterate_eq, Metered.run_bind, Metered.reserve_run]
  cases options.hasPairRoom algorithm <;> rfl

namespace Options

/-- There is room for the lists that an algorithm sets aside in full. -/
structure HasRoom (options : Options F) (algorithm : Algorithm) : Prop where
  trials : algorithm.usesLineSearch options.lineSearch = true → options.armijo.hasRoom = true
  pairs : algorithm = .lbfgs → CurvatureMemory.hasRoom F options.memory options.maxIter = true

variable {options : Options F} {algorithm : Algorithm} {dim : Nat} {hasHessian : Bool}

lemma hasRoom_iff (obj : Objective F) :
    options.HasRoom algorithm ↔ options.hasPairRoom algorithm = true ∧
      (algorithm.method obj options).2.rule.hasRoom = true := by
  have hpairs : options.hasPairRoom algorithm = true ↔
      (algorithm = .lbfgs → CurvatureMemory.hasRoom F options.memory options.maxIter = true) := by
    cases algorithm <;> simp [hasPairRoom]
  have htrials : (algorithm.method obj options).2.rule.hasRoom = true ↔
      (algorithm.usesLineSearch options.lineSearch = true → options.armijo.hasRoom = true) := by
    rcases algorithm.rule_eq obj options with ⟨huses, hrule⟩ | ⟨huses, alpha, hrule⟩
    · simp [hrule, huses, StepRule.hasRoom]
    · simp [hrule, huses, StepRule.hasRoom]
  rw [hpairs, htrials]
  exact ⟨fun h => ⟨h.pairs, h.trials⟩, fun h => ⟨h.2, h.1⟩⟩

/-- What a method asks of its options. -/
structure Passes (options : Options F) (algorithm : Algorithm) (dim : Nat) (hasHessian : Bool) :
    Prop where
  start : options.initialPoint ≠ []
  length : options.initialPoint.length = dim
  maxIter : 0 < options.maxIter
  memory : algorithm = .lbfgs → 0 < options.memory
  hessian : algorithm.needsHessian = true → hasHessian = true
  damping : algorithm.needsHessian = true →
    Arithmetic.isFinite options.hessianDamping = true ∧ ¬ options.hessianDamping < 0
  alpha : algorithm = .gradientDescent →
    Arithmetic.isFinite options.alpha = true ∧ ¬ options.alpha ≤ 0
  c1 : algorithm.usesLineSearch options.lineSearch = true → 0 < options.c1 ∧ options.c1 < 1
  trials : algorithm.usesLineSearch options.lineSearch = true → 0 < options.maxLineSearchTrials
  tolerances : options.termination.fault? = none

/-- No check fails exactly when the method has all that it asks for. -/
lemma validate_eq_ok_iff :
    options.validate algorithm dim hasHessian = .ok () ↔
      options.Passes algorithm dim hasHessian := by
  have hnone : options.validate algorithm dim hasHessian = .ok () ↔
      options.fault? algorithm dim hasHessian = none := by
    unfold validate
    cases options.fault? algorithm dim hasHessian <;> simp
  rw [hnone]
  simp only [fault?, ite_some_eq_none_iff, not_and, not_or, Classical.not_imp, Decidable.not_not,
    ne_eq, List.isEmpty_iff, ← Nat.pos_iff_ne_zero]
  constructor
  · rintro ⟨hstart, hlength, hiter, hmemory, hhessian, hdamping, halpha, hc1, htrials, htolerances⟩
    exact ⟨hstart, hlength, hiter, hmemory, hhessian, hdamping, halpha, hc1, htrials, htolerances⟩
  · intro h
    exact ⟨h.start, h.length, h.maxIter, h.memory, h.hessian, h.damping, h.alpha, h.c1, h.trials,
      h.tolerances⟩

end Options

lemma run_of_fault {algorithm : Algorithm} {obj : Objective F} {options : Options F}
    {e : InputError} (h : options.validate algorithm obj.dim obj.hasHessian = .error e) :
    run algorithm obj options = .error (.rejected e) := by
  rw [run, h]
  rfl

lemma run_of_validate {algorithm : Algorithm} {obj : Objective F} {options : Options F}
    (h : options.validate algorithm obj.dim obj.hasHessian = .ok ()) :
    run algorithm obj options = ((iterate algorithm obj options).run {}).map fun p =>
      { algorithm, iterations := p.1.1, termination := p.1.2, evaluations := p.2 } := by
  rw [run, h]
  cases (iterate algorithm obj options).run {} <;> rfl

/-- A trace is the answer of a run exactly when the options are accepted, there is room for what is
set aside, and its records are the course of the method. -/
theorem run_eq_ok_iff (algorithm : Algorithm) (obj : Objective F) (options : Options F)
    (trace : Trace F) :
    run algorithm obj options = .ok trace ↔
      options.validate algorithm obj.dim obj.hasHessian = .ok () ∧ trace.algorithm = algorithm ∧
      options.HasRoom algorithm ∧ ∃ t, (algorithm.method obj options).2.Runs obj options.criteria
          ((algorithm.method obj options).2.startState obj options)
          trace.iterations trace.termination t ∧
        trace.evaluations = t.counts := by
  cases hv : options.validate algorithm obj.dim obj.hasHessian with
  | error e => simp [run_of_fault hv]
  | ok u =>
    have hiff := (algorithm.method obj options).2.run_eq_ok_iff obj options
      (Options.validate_eq_ok_iff.mp hv).maxIter trace.iterations trace.termination trace.evaluations
    rw [run_of_validate hv, iterate_run, Options.hasRoom_iff obj, and_assoc, ← hiff]
    cases options.hasPairRoom algorithm with
    | false => simp [Except.map]
    | true =>
      simp only [↓reduceIte, true_and]
      cases ((algorithm.method obj options).2.run obj options).run {} with
      | error e => simp [Except.map]
      | ok p =>
        obtain ⟨_, _, _, _⟩ := trace
        obtain ⟨⟨_, _⟩, _⟩ := p
        simp only [Except.map, Except.ok.injEq, Trace.mk.injEq, Prod.mk.injEq, and_assoc,
          eq_comm (a := algorithm)]

/-- A trace whose evaluation is known. -/
lemma exists_trace_of_toOption {β : Type} {algorithm : Algorithm} {obj : Objective F}
    {options : Options F} (f : Trace F → β) {b : β}
    (h : (run algorithm obj options).toOption.map f = some b) :
    ∃ trace, run algorithm obj options = .ok trace ∧ f trace = b := by
  cases hrun : run algorithm obj options with
  | error e =>
    rw [hrun] at h
    cases h
  | ok trace =>
    rw [hrun] at h
    exact ⟨trace, rfl, Option.some_inj.mp h⟩

theorem run_history {algorithm : Algorithm} {obj : Objective F} {options : Options F}
    {trace : Trace F} (h : run algorithm obj options = .ok trace) :
    ∃ states, states 0 = (algorithm.method obj options).2.startState obj options ∧
      (states trace.iterations.length).counts = trace.evaluations ∧
      (algorithm.method obj options).2.History obj options.criteria states trace.iterations
        trace.termination := by
  obtain ⟨-, -, -, t, hruns, hcounts⟩ := (run_eq_ok_iff algorithm obj options trace).mp h
  obtain ⟨states, hstart, hlast, hist⟩ := hruns.exists_history
  exact ⟨states, hstart, by rw [hlast, hcounts], hist⟩

/-- What every iteration of a run says of its record, from states of a kind that the run starts in and
keeps to, is said of all records of the trace. -/
theorem run_forall_records {algorithm : Algorithm} {obj : Objective F} {options : Options F}
    {trace : Trace F} (h : run algorithm obj options = .ok trace)
    (P : RunState F (algorithm.method obj options).1 → Prop) (Q : IterationRecord F → Prop)
    (hstart : P ((algorithm.method obj options).2.startState obj options))
    (hstep : ∀ s record t, P s → (algorithm.method obj options).2.Steps obj s record t →
      Q record ∧ P t) (i : Nat) (hi : i < trace.iterations.length) : Q trace.iterations[i] := by
  obtain ⟨states, hfirst, -, hist⟩ := run_history h
  exact hist.forall_records P Q (hfirst ▸ hstart) hstep i hi

end Downhill
