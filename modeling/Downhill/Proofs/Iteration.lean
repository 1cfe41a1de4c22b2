import Downhill.Run
import Mathlib.Tactic.Common

/-!
# What one iteration does

A run asks its objective through a state that counts the questions, but no answer depends on the
counts. This file takes the counting out of an iteration: a metered line search finds what the
search without a meter finds, and an iteration is `Method.outcome` of its heading, which is a plain
function of the state of the run. An iteration fails if it finds no heading or if there is no room
for the trials of its search.
-/

namespace Downhill

variable {F σ : Type}

namespace EvaluationCounts

instance : Add EvaluationCounts where
  add a b := ⟨a.objective + b.objective, a.gradient + b.gradient, a.hessian + b.hessian⟩

lemma add_def (a b : EvaluationCounts) :
    a + b = ⟨a.objective + b.objective, a.gradient + b.gradient, a.hessian + b.hessian⟩ := rfl

protected lemma add_assoc (a b c : EvaluationCounts) : a + b + c = a + (b + c) := by
  simp only [add_def, Nat.add_assoc]

end EvaluationCounts

namespace Objective

lemma meteredValue_run (obj : Objective F) (w : List F) (c : EvaluationCounts) :
    (obj.meteredValue w).run c = .ok (obj.value w, c + ⟨1, 0, 0⟩) := rfl

lemma meteredGradient_run (obj : Objective F) (w : List F) (c : EvaluationCounts) :
    (obj.meteredGradient w).run c = .ok (obj.gradient w, c + ⟨0, 1, 0⟩) := rfl

lemma meteredHessian_run (obj : Objective F) (algorithm : Algorithm) (w : List F)
    (c : EvaluationCounts) :
    (obj.meteredHessian algorithm w).run c =
      match obj.hessian w with
      | some h => .ok (h, c + ⟨0, 0, 1⟩)
      | none => .error (.rejected (.missingHessian algorithm)) := by
  unfold meteredHessian
  cases h : obj.hessian w <;> rfl

end Objective

variable [Arithmetic F]

lemma Metered.run_bind {α β : Type} (x : Metered α) (f : α → Metered β) (c : EvaluationCounts) :
    (x >>= f).run c = (x.run c).bind fun p => (f p.1).run p.2 := rfl

lemma Metered.reserve_run (hasRoom : Bool) (c : EvaluationCounts) :
    (reserve hasRoom).run c = if hasRoom then .ok ((), c) else .error .capacityOverflow := by
  cases hasRoom <;> rfl

namespace SearchLine

/-- A search that asks the objective without a meter. -/
def searchPlain (obj : Objective F) (line : SearchLine F) (params : ArmijoParams F)
    (more : Nat) (alpha : F) (earlier : List (LineSearchTrial F)) : LineSearchResult F :=
  Id.run (line.searchFrom (fun w => pure (obj.value w)) params more alpha earlier)

variable (obj : Objective F) (line : SearchLine F) (params : ArmijoParams F)

lemma searchPlain_zero (alpha : F) (earlier : List (LineSearchTrial F)) :
    searchPlain obj line params 0 alpha earlier =
      line.result (line.trial params.c1 alpha (obj.value (line.point alpha))) earlier := rfl

lemma searchPlain_succ (more : Nat) (alpha : F) (earlier : List (LineSearchTrial F)) :
    searchPlain obj line params (more + 1) alpha earlier =
      let trial := line.trial params.c1 alpha (obj.value (line.point alpha))
      if trial.satisfied then line.result trial earlier
      else searchPlain obj line params more (alpha * params.rho) (trial :: earlier) := by
  simp only [searchPlain, searchFrom, pure_bind]
  split <;> rfl

/-- A metered search finds what the plain search finds and asks once for each new trial. -/
lemma searchFrom_run (more : Nat) (alpha : F) (earlier : List (LineSearchTrial F))
    (c : EvaluationCounts) :
    ∃ asked, (searchPlain obj line params more alpha earlier).trials.length =
        earlier.length + asked ∧
      (line.searchFrom obj.meteredValue params more alpha earlier).run c =
        .ok (searchPlain obj line params more alpha earlier, c + ⟨asked, 0, 0⟩) := by
  induction more generalizing alpha earlier c with
  | zero => exact ⟨1, by simp [searchPlain_zero, result], rfl⟩
  | succ more ih =>
    rw [searchPlain_succ, searchFrom]
    dsimp only
    by_cases hs : (line.trial params.c1 alpha (obj.value (line.point alpha))).satisfied
    · rw [if_pos hs]
      refine ⟨1, by simp [result], ?_⟩
      rw [Metered.run_bind, Objective.meteredValue_run]
      simp only [Except.bind, if_pos hs]
      rfl
    · rw [if_neg hs]
      obtain ⟨asked, hlen, hrun⟩ := ih (alpha * params.rho)
        (line.trial params.c1 alpha (obj.value (line.point alpha)) :: earlier) (c + ⟨1, 0, 0⟩)
      refine ⟨asked + 1, by rw [hlen, List.length_cons]; omega, ?_⟩
      rw [Metered.run_bind, Objective.meteredValue_run]
      simp only [Except.bind, if_neg hs, hrun, EvaluationCounts.add_assoc]
      simp only [EvaluationCounts.add_def, Nat.add_comm]

lemma searchPlain_point (more : Nat) (alpha : F) (earlier : List (LineSearchTrial F)) :
    (searchPlain obj line params more alpha earlier).point =
        line.point (searchPlain obj line params more alpha earlier).alpha ∧
      (searchPlain obj line params more alpha earlier).value =
        obj.value (searchPlain obj line params more alpha earlier).point := by
  induction more generalizing alpha earlier with
  | zero => exact ⟨rfl, rfl⟩
  | succ more ih =>
    rw [searchPlain_succ]
    dsimp only
    split
    · exact ⟨rfl, rfl⟩
    · exact ih _ _

end SearchLine

/-- The search of `backtrack`, whether or not there is room for its trials. -/
def searchAlong (obj : Objective F) (w p : List F) (value : F) (gradient : List F)
    (params : ArmijoParams F) : LineSearchResult F :=
  SearchLine.searchPlain obj (.ofGradient w p value gradient) params (params.maxTrials - 1)
    params.alphaInit []

lemma backtrack_eq (obj : Objective F) (w p : List F) (value : F) (gradient : List F)
    (params : ArmijoParams F) :
    backtrack obj w p value gradient params =
      if params.hasRoom then some (searchAlong obj w p value gradient params) else none := rfl

def Step.evaluations (step : Step F) : Nat :=
  match step.lineSearch with
  | some log => log.trials.length
  | none => 1

def StepRule.step (rule : StepRule F) (obj : Objective F) (current : Iterate F)
    (direction : List F) : Step F :=
  match rule with
  | fixed alpha =>
    let point := along current.point alpha direction
    ⟨alpha, point, obj.value point, none⟩
  | armijo params =>
    let found := searchAlong obj current.point direction current.loss current.gradient params
    ⟨found.alpha, found.point, found.value, some found.toLineSearchLog⟩

namespace StepRule

/-- Whether there is room for the trials of the search, if the rule searches. -/
def hasRoom : StepRule F → Bool
  | fixed _ => true
  | armijo params => params.hasRoom

variable (rule : StepRule F) (obj : Objective F) (current : Iterate F) (direction : List F)

lemma take_run (c : EvaluationCounts) :
    (rule.take obj current direction).run c =
      if rule.hasRoom then
        .ok (rule.step obj current direction,
          c + ⟨(rule.step obj current direction).evaluations, 0, 0⟩)
      else .error .capacityOverflow := by
  cases rule with
  | fixed alpha => rfl
  | armijo params =>
    obtain ⟨asked, hlen, hrun⟩ := SearchLine.searchFrom_run obj
      (.ofGradient current.point direction current.loss current.gradient) params
      (params.maxTrials - 1) params.alphaInit [] c
    rw [List.length_nil, Nat.zero_add, ← searchAlong] at hlen
    rw [← searchAlong] at hrun
    simp only [take, step, Step.evaluations, SearchLine.search, hlen, hasRoom]
    rw [Metered.run_bind, Metered.reserve_run]
    cases params.hasRoom with
    | false => rfl
    | true =>
      simp only [↓reduceIte, Except.bind, Metered.run_bind, hrun]
      rfl

/-- A step leads to `point + alpha * direction` and knows the value there. -/
lemma step_point :
    (rule.step obj current direction).point =
        along current.point (rule.step obj current direction).alpha direction ∧
      (rule.step obj current direction).value =
        obj.value (rule.step obj current direction).point := by
  cases rule with
  | fixed alpha => exact ⟨rfl, rfl⟩
  | armijo params =>
    exact SearchLine.searchPlain_point obj
      (.ofGradient current.point direction current.loss current.gradient) params _ _ _

end StepRule

/-- The state of a run between two iterations. -/
structure RunState (F σ : Type) where
  index : Nat
  memory : σ
  current : Iterate F
  counts : EvaluationCounts

namespace Method

/-- The record of an iteration along a heading, and the state after it. `counts` are the counts after
the heading was found. -/
def outcome (method : Method F σ) (obj : Objective F) (s : RunState F σ) (heading : Heading F)
    (counts : EvaluationCounts) : IterationRecord F × RunState F σ :=
  let step := method.rule.step obj s.current heading.direction
  let newGradient := obj.gradient step.point
  let record := s.current.record s.index heading step newGradient
  let (note, memory) := method.learn s.memory heading record newGradient
  (record.withNote note, {
    index := s.index + 1
    memory
    current := ⟨step.point, step.value, newGradient⟩
    counts := counts + ⟨step.evaluations, 1, 0⟩ })

lemma advance_run (method : Method F σ) (obj : Objective F) (s : RunState F σ) :
    (method.advance obj s.index s.memory s.current).run s.counts =
      ((method.heading s.memory s.current).run s.counts).bind fun p =>
        if method.rule.hasRoom then
          let (record, t) := method.outcome obj s p.1 p.2
          .ok ((record, t.memory, t.current), t.counts)
        else .error .capacityOverflow := by
  rw [advance, Metered.run_bind]
  cases (method.heading s.memory s.current).run s.counts with
  | error e => rfl
  | ok p =>
    simp only [Except.bind, Metered.run_bind, StepRule.take_run]
    cases method.rule.hasRoom with
    | false => rfl
    | true =>
      simp only [↓reduceIte, Objective.meteredGradient_run]
      rfl

lemma steepest_heading_run (rule : StepRule F) (current : Iterate F) (c : EvaluationCounts) :
    ((steepest rule).heading () current).run c = .ok ({ direction := neg current.gradient }, c) :=
  rfl

lemma lbfgs_heading_run (limit : Nat) (params : ArmijoParams F) (memory : CurvatureMemory F)
    (current : Iterate F) (c : EvaluationCounts) :
    ((lbfgs limit params).heading memory current).run c =
      .ok (lbfgsHeading memory.toList.reverse current.gradient, c) := rfl

/-- The heading of the diagonal method at a point with the Hessian `hessian`. -/
def diagonalHeading (damping : F) (hessian : Rows F) (gradient : List F) : Heading F :=
  let (inverse, fallbackEntries) := inverseDiagonal hessian damping
  { direction := List.zipWith (fun d g => -(d * g)) inverse gradient
    curvature := some (.ofHessian hessian damping (.preconditioner fallbackEntries)
      (some inverse)) }

lemma diagonal_heading_run (obj : Objective F) (damping : F) (rule : StepRule F)
    (current : Iterate F) (c : EvaluationCounts) :
    ((diagonal obj damping rule).heading () current).run c =
      match obj.hessian current.point with
      | some hessian => .ok (diagonalHeading damping hessian current.gradient, c + ⟨0, 0, 1⟩)
      | none => .error (.rejected (.missingHessian .diagonalPreconditioner)) := by
  rw [diagonal, Metered.run_bind, Objective.meteredHessian_run]
  cases obj.hessian current.point <;> rfl

/-- The heading of Newton's method at a point with the Hessian `hessian`. -/
def newtonHeading (damping : F) (hessian : Rows F) (gradient : List F) : Heading F :=
  let (direction, source) := newtonDirection hessian damping gradient
  { direction, curvature := some (.ofHessian hessian damping source none) }

lemma newton_heading_run (obj : Objective F) (damping : F) (rule : StepRule F)
    (current : Iterate F) (c : EvaluationCounts) :
    ((newton obj damping rule).heading () current).run c =
      match obj.hessian current.point with
      | some hessian => .ok (newtonHeading damping hessian current.gradient, c + ⟨0, 0, 1⟩)
      | none => .error (.rejected (.missingHessian .newton)) := by
  rw [newton, Metered.run_bind, Objective.meteredHessian_run]
  cases obj.hessian current.point <;> rfl

end Method

end Downhill
